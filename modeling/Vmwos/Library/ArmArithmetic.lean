import Vmwos.Library.Arm

/-!
# Arithmetic of a processor

The instructions of a 32-bit ARM processor that routines for arithmetic are made of: data processing
with a shifted operand, the count of leading zeros, the stack, branches, calls and returns. The state
is that of `Library.Arm`.

`Ensures` says what holds when a routine returns, with one rule for each kind of line.
-/

set_option autoImplicit false

namespace Library.ArmArithmetic

open Library.Arm (Reg Flags ArmState isNegative subFlags logicFlags)

/-! ## Operands -/

/-- Shift by any number of bits. -/
def shiftLeft (w : UInt32) (n : Nat) : UInt32 := if n < 32 then w <<< UInt32.ofNat n else 0

def shiftRight (w : UInt32) (n : Nat) : UInt32 := if n < 32 then w >>> UInt32.ofNat n else 0

/-- Shift with copies of the highest bit. -/
def shiftSigned (w : UInt32) (n : Nat) : UInt32 :=
  if isNegative w then ~~~shiftRight (~~~w) n else shiftRight w n

/-- A bit of a word. -/
def bitOf (w : UInt32) (n : Nat) : Bool := w.toNat.testBit n

/-- The second operand of an instruction. -/
inductive Operand where
  /-- `#w` -/
  | imm (w : UInt32)
  /-- `rm` -/
  | reg (rm : Reg)
  /-- `rm, lsl #n` -/
  | lsl (rm : Reg) (n : Nat)
  /-- `rm, lsr #n` -/
  | lsr (rm : Reg) (n : Nat)
  /-- `rm, asr #n` -/
  | asr (rm : Reg) (n : Nat)
  /-- `rm, lsl rs` -/
  | lslBy (rm rs : Reg)
  /-- `rm, lsr rs` -/
  | lsrBy (rm rs : Reg)
  /-- `rm, rrx` -/
  | rrx (rm : Reg)
  deriving DecidableEq, Repr

/-- The number of bits by which a register shifts. -/
def amount (w : UInt32) : Nat := w.toNat % 256

def Operand.value : Operand → (Reg → UInt32) → Flags → UInt32
  | .imm w, _, _ => w
  | .reg rm, regs, _ => regs rm
  | .lsl rm n, regs, _ => shiftLeft (regs rm) n
  | .lsr rm n, regs, _ => shiftRight (regs rm) n
  | .asr rm n, regs, _ => shiftSigned (regs rm) n
  | .lslBy rm rs, regs, _ => shiftLeft (regs rm) (amount (regs rs))
  | .lsrBy rm rs, regs, _ => shiftRight (regs rm) (amount (regs rs))
  | .rrx rm, regs, f => shiftRight (regs rm) 1 ||| if f.c then 0x80000000 else 0

/-- The last bit that is shifted out. -/
def Operand.carry : Operand → (Reg → UInt32) → Flags → Bool
  | .imm _, _, f => f.c
  | .reg _, _, f => f.c
  | .lsl rm n, regs, f => if n = 0 then f.c else n ≤ 32 && bitOf (regs rm) (32 - n)
  | .lsr rm n, regs, f => if n = 0 then f.c else bitOf (regs rm) (n - 1)
  | .asr rm n, regs, f => if n = 0 then f.c else bitOf (regs rm) (min (n - 1) 31)
  | .lslBy rm rs, regs, f =>
      if amount (regs rs) = 0 then f.c
      else amount (regs rs) ≤ 32 && bitOf (regs rm) (32 - amount (regs rs))
  | .lsrBy rm rs, regs, f =>
      if amount (regs rs) = 0 then f.c else bitOf (regs rm) (amount (regs rs) - 1)
  | .rrx rm, regs, _ => bitOf (regs rm) 0

/-! ## Instructions -/

inductive Cond where
  | al | eq | ne | hs | lo | hi | ls | mi | pl | ge | lt
  deriving DecidableEq, Repr

def Cond.holds : Cond → Flags → Bool
  | .al, _ => true
  | .eq, f => f.z
  | .ne, f => !f.z
  | .hs, f => f.c
  | .lo, f => !f.c
  | .hi, f => f.c && !f.z
  | .ls, f => !f.c || f.z
  | .mi, f => f.n
  | .pl, f => !f.n
  | .ge, f => f.n == f.v
  | .lt, f => f.n != f.v

inductive Data where
  | and | eor | sub | rsb | add | sbc | orr
  deriving DecidableEq, Repr

/-- One less when there has been a borrow. -/
def borrow (f : Flags) : UInt32 := if f.c then 0 else 1

def Data.result : Data → UInt32 → UInt32 → Flags → UInt32
  | .and, a, b, _ => a &&& b
  | .eor, a, b, _ => a ^^^ b
  | .sub, a, b, _ => a - b
  | .rsb, a, b, _ => b - a
  | .add, a, b, _ => a + b
  | .sbc, a, b, f => a - b - borrow f
  | .orr, a, b, _ => a ||| b

/-- The flags of `a+b`. -/
def addFlags (a b : UInt32) : Flags :=
  ⟨isNegative (a + b), a + b == 0, decide (4294967296 ≤ a.toNat + b.toNat),
    isNegative a == isNegative b && isNegative (a + b) != isNegative a⟩

/-- The flags of `a-b-1`, or of `a-b`. -/
def sbcFlags (a b : UInt32) (f : Flags) : Flags :=
  let w := a - b - borrow f
  ⟨isNegative w, w == 0, decide (b.toNat + (borrow f).toNat ≤ a.toNat),
    isNegative a != isNegative b && isNegative w != isNegative a⟩

def Data.flags (k : Data) (a b : UInt32) (carry : Bool) (f : Flags) : Flags :=
  match k with
  | .and => { logicFlags (a &&& b) f with c := carry }
  | .eor => { logicFlags (a ^^^ b) f with c := carry }
  | .orr => { logicFlags (a ||| b) f with c := carry }
  | .sub => subFlags a b
  | .rsb => subFlags b a
  | .add => addFlags a b
  | .sbc => sbcFlags a b f

/-- The number of zeros before the highest bit. -/
def clz (w : UInt32) : UInt32 := if w = 0 then 32 else UInt32.ofNat (31 - w.toNat.log2)

inductive Op where
  /-- `and rd, rn, o`, and so on; with `s`, the flags are set -/
  | data (k : Data) (s : Bool) (rd rn : Reg) (o : Operand)
  /-- `cmp rn, o`, and so on: the flags only -/
  | test (k : Data) (rn : Reg) (o : Operand)
  /-- `mov rd, o` or `movs rd, o` -/
  | move (s : Bool) (rd : Reg) (o : Operand)
  /-- `clz rd, rm` -/
  | clz (rd rm : Reg)
  /-- `mul rd, rn, rm` -/
  | mul (rd rn rm : Reg)
  /-- `stmfd sp!, {regs}` -/
  | push (regs : List Reg)
  /-- `ldmfd sp!, {regs}` -/
  | pop (regs : List Reg)
  /-- `str rt, [sp, #-imm]!` -/
  | strDown (rt : Reg) (imm : UInt32)
  /-- `ldr rt, [sp], #imm` -/
  | ldrUp (rt : Reg) (imm : UInt32)
  /-- `ldr rd, [rn]` -/
  | ldr (rd rn : Reg)
  deriving DecidableEq, Repr

section Names

variable (rd rn : Reg) (o : Operand)

def Op.and : Op := .data .and false rd rn o
def Op.eor : Op := .data .eor false rd rn o
def Op.sub : Op := .data .sub false rd rn o
def Op.subs : Op := .data .sub true rd rn o
def Op.rsb : Op := .data .rsb false rd rn o
def Op.rsbs : Op := .data .rsb true rd rn o
def Op.add : Op := .data .add false rd rn o
def Op.sbc : Op := .data .sbc false rd rn o
def Op.orr : Op := .data .orr false rd rn o
def Op.orrs : Op := .data .orr true rd rn o
def Op.cmp : Op := .test .sub rn o
def Op.cmn : Op := .test .add rn o
def Op.tst : Op := .test .and rn o
def Op.teq : Op := .test .eor rn o
def Op.mov : Op := .move false rd o
def Op.movs : Op := .move true rd o

end Names

/-- Execute an instruction whose condition holds. An access at an address that is not a multiple of 4,
or at 0, is not answered. -/
def Op.exec : Op → ArmState → Option ArmState
  | .data k flags rd rn o, s =>
      let b := o.value s.regs s.flags
      let f := k.flags (s.regs rn) b (o.carry s.regs s.flags) s.flags
      some { s.set rd (k.result (s.regs rn) b s.flags) with
        flags := if flags then f else s.flags }
  | .test k rn o, s =>
      let b := o.value s.regs s.flags
      some { s with flags := k.flags (s.regs rn) b (o.carry s.regs s.flags) s.flags }
  | .move flags rd o, s =>
      let w := o.value s.regs s.flags
      let f := { logicFlags w s.flags with c := o.carry s.regs s.flags }
      some { s.set rd w with flags := if flags then f else s.flags }
  | .clz rd rm, s => some (s.set rd (ArmArithmetic.clz (s.regs rm)))
  | .mul rd rn rm, s => some (s.set rd (s.regs rn * s.regs rm))
  | .push regs, s =>
      let a := s.regs .sp - Arm.bytesOf regs
      if a % 4 ≠ 0 then none
      else some { s.set .sp a with memory := s.memory.storeWords a (regs.map s.regs) }
  | .pop regs, s =>
      let a := s.regs .sp
      if a % 4 ≠ 0 then none
      else some ((s.set .sp (a + Arm.bytesOf regs)).setAll regs (s.memory.loadWords a regs.length))
  | .strDown rt imm, s =>
      let a := s.regs .sp - imm
      if a % 4 ≠ 0 then none
      else some { s.set .sp a with memory := s.memory.storeWord a (s.regs rt) }
  | .ldrUp rt imm, s =>
      let a := s.regs .sp
      if a % 4 ≠ 0 then none else some ((s.set .sp (a + imm)).set rt (s.memory.loadWord a))
  | .ldr rd rn, s =>
      let a := s.regs rn
      if a % 4 ≠ 0 ∨ a = 0 then none else some (s.set rd (s.memory.loadWord a))

/-! ## Code -/

/-- A line of a listing. -/
inductive Line (Label : Type) where
  | label (l : Label)
  | op (c : Cond) (i : Op)
  | branch (c : Cond) (l : Label)
  /-- `mov pc, lr` -/
  | ret (c : Cond)
  /-- `bl l`, where `link` is the address behind it -/
  | call (l : Label) (link : UInt32)
  deriving DecidableEq, Repr

section Code

variable {Label : Type} [DecidableEq Label]

/-- The lines from a label on. -/
def codeAt (program : List (Line Label)) (l : Label) : List (Line Label) :=
  program.dropWhile (· ≠ .label l)

/-- Run the lines until the routine returns, with at most `fuel` of them one after the other. A call
goes on behind itself only when the routine has returned there. -/
def run (program : List (Line Label)) :
    (fuel : Nat) → List (Line Label) → ArmState → Option ArmState
  | 0, _, _ => none
  | _ + 1, [], _ => none
  | fuel + 1, .label _ :: rest, s => run program fuel rest s
  | fuel + 1, .op c i :: rest, s =>
      if c.holds s.flags then (i.exec s).bind (run program fuel rest)
      else run program fuel rest s
  | fuel + 1, .branch c l :: rest, s =>
      if c.holds s.flags then run program fuel (codeAt program l) s
      else run program fuel rest s
  | fuel + 1, .ret c :: rest, s =>
      if c.holds s.flags then some s else run program fuel rest s
  | fuel + 1, .call l link :: rest, s =>
      (run program fuel (codeAt program l) (s.set .lr link)).bind fun t =>
        if t.regs .lr = link then run program fuel rest t else none

/-- The routine returns, and the last state is as wanted. -/
def Ensures (program code : List (Line Label)) (s : ArmState) (post : ArmState → Prop) : Prop :=
  ∃ fuel t, run program fuel code s = some t ∧ post t

variable {program code rest : List (Line Label)} {s s' t : ArmState} {post : ArmState → Prop}
  {c : Cond} {i : Op} {l : Label}

theorem run_op {fuel : Nat} : run program (fuel + 1) (.op c i :: rest) s =
    if c.holds s.flags then (i.exec s).bind (run program fuel rest)
    else run program fuel rest s := rfl

theorem run_branch {fuel : Nat} : run program (fuel + 1) (.branch c l :: rest) s =
    if c.holds s.flags then run program fuel (codeAt program l) s
    else run program fuel rest s := rfl

theorem run_ret {fuel : Nat} : run program (fuel + 1) (.ret c :: rest) s =
    if c.holds s.flags then some s else run program fuel rest s := rfl

theorem run_call {fuel : Nat} {link : UInt32} : run program (fuel + 1) (.call l link :: rest) s =
    (run program fuel (codeAt program l) (s.set .lr link)).bind fun t =>
      if t.regs .lr = link then run program fuel rest t else none := rfl

/-- More lines may be allowed. -/
theorem run_succ {fuel : Nat} (h : run program fuel code s = some t) :
    run program (fuel + 1) code s = some t := by
  induction fuel generalizing code s t with
  | zero => cases h
  | succ fuel ih =>
      cases code with
      | nil => cases h
      | cons line rest =>
          cases line with
          | label l => exact ih h
          | op c i =>
              rw [run_op] at h ⊢
              split at h
              · rename_i hc
                rw [if_pos hc]
                obtain ⟨s', hs', h⟩ := Option.bind_eq_some_iff.1 h
                exact Option.bind_eq_some_iff.2 ⟨s', hs', ih h⟩
              · rename_i hc
                rw [if_neg hc]
                exact ih h
          | branch c l =>
              rw [run_branch] at h ⊢
              split at h
              · rename_i hc
                rw [if_pos hc]
                exact ih h
              · rename_i hc
                rw [if_neg hc]
                exact ih h
          | ret c =>
              rw [run_ret] at h ⊢
              split at h
              · rename_i hc
                rw [if_pos hc]
                exact h
              · rename_i hc
                rw [if_neg hc]
                exact ih h
          | call l link =>
              rw [run_call] at h ⊢
              obtain ⟨s', hs', h⟩ := Option.bind_eq_some_iff.1 h
              refine Option.bind_eq_some_iff.2 ⟨s', ih hs', ?_⟩
              split at h
              · rename_i hlink
                rw [if_pos hlink]
                exact ih h
              · cases h

theorem run_le {fuel fuel' : Nat} (hle : fuel ≤ fuel') (h : run program fuel code s = some t) :
    run program fuel' code s = some t := by
  induction hle with
  | refl => exact h
  | step _ ih => exact run_succ ih

theorem ensures_label (h : Ensures program rest s post) :
    Ensures program (.label l :: rest) s post := by
  obtain ⟨fuel, t, hrun, ht⟩ := h
  exact ⟨fuel + 1, t, hrun, ht⟩

/-- An instruction that is executed. -/
theorem ensures_op (hc : c.holds s.flags = true) (hi : i.exec s = some s')
    (h : Ensures program rest s' post) : Ensures program (.op c i :: rest) s post := by
  obtain ⟨fuel, t, hrun, ht⟩ := h
  refine ⟨fuel + 1, t, ?_, ht⟩
  rw [run_op, if_pos hc, hi]
  exact hrun

/-- An instruction that is skipped. -/
theorem ensures_skip (hc : c.holds s.flags = false) (h : Ensures program rest s post) :
    Ensures program (.op c i :: rest) s post := by
  obtain ⟨fuel, t, hrun, ht⟩ := h
  refine ⟨fuel + 1, t, ?_, ht⟩
  rw [run_op, hc, if_neg Bool.false_ne_true]
  exact hrun

theorem ensures_branch (hc : c.holds s.flags = true)
    (h : Ensures program (codeAt program l) s post) :
    Ensures program (.branch c l :: rest) s post := by
  obtain ⟨fuel, t, hrun, ht⟩ := h
  refine ⟨fuel + 1, t, ?_, ht⟩
  rw [run_branch, if_pos hc]
  exact hrun

theorem ensures_pass (hc : c.holds s.flags = false) (h : Ensures program rest s post) :
    Ensures program (.branch c l :: rest) s post := by
  obtain ⟨fuel, t, hrun, ht⟩ := h
  refine ⟨fuel + 1, t, ?_, ht⟩
  rw [run_branch, hc, if_neg Bool.false_ne_true]
  exact hrun

theorem ensures_ret (hc : c.holds s.flags = true) (h : post s) :
    Ensures program (.ret c :: rest) s post :=
  ⟨1, s, if_pos hc, h⟩

/-- A return whose condition does not hold. -/
theorem ensures_stay (hc : c.holds s.flags = false) (h : Ensures program rest s post) :
    Ensures program (.ret c :: rest) s post := by
  obtain ⟨fuel, t, hrun, ht⟩ := h
  refine ⟨fuel + 1, t, ?_, ht⟩
  rw [run_ret, hc, if_neg Bool.false_ne_true]
  exact hrun

theorem ensures_call {link : UInt32} (h : Ensures program (codeAt program l) (s.set .lr link)
      fun t => t.regs .lr = link ∧ Ensures program rest t post) :
    Ensures program (.call l link :: rest) s post := by
  obtain ⟨fuel, t, hrun, hlink, fuel', t', hrun', ht'⟩ := h
  refine ⟨max fuel fuel' + 1, t', ?_, ht'⟩
  rw [run_call, run_le (Nat.le_max_left fuel fuel') hrun, Option.bind_some, if_pos hlink]
  exact run_le (Nat.le_max_right fuel fuel') hrun'

theorem Ensures.mono {post' : ArmState → Prop} (h : Ensures program code s post)
    (hpost : ∀ t, post t → post' t) : Ensures program code s post' := by
  obtain ⟨fuel, t, hrun, ht⟩ := h
  exact ⟨fuel, t, hrun, hpost t ht⟩

end Code

/-! ## Registers that a routine changes -/

/-- Set a register and the flags. -/
def put (s : ArmState) (rd : Reg) (w : UInt32) (f : Flags) : ArmState :=
  { s.set rd w with flags := f }

/-- Set the flags. -/
def setFlags (s : ArmState) (f : Flags) : ArmState := { s with flags := f }

/-- Only some registers and the flags have changed. -/
structure Kept (rs : List Reg) (s t : ArmState) : Prop where
  regs : ∀ r, r ∉ rs → t.regs r = s.regs r
  memory : t.memory = s.memory

section Registers

variable {s t u : ArmState} {rd rn rm r : Reg} {rs rs' : List Reg} {w : UInt32} {f : Flags}
  {o : Operand} {k : Data}

@[simp] theorem put_same : (put s rd w f).regs rd = w := by
  unfold put ArmState.set
  exact Function.update_self rd w s.regs

@[simp] theorem put_other (h : r ≠ rd) : (put s rd w f).regs r = s.regs r := by
  unfold put ArmState.set
  exact Function.update_of_ne h w s.regs

@[simp] theorem put_flags : (put s rd w f).flags = f := rfl

@[simp] theorem setFlags_regs : (setFlags s f).regs = s.regs := rfl

@[simp] theorem setFlags_flags : (setFlags s f).flags = f := rfl

theorem Kept.refl (rs : List Reg) (s : ArmState) : Kept rs s s := ⟨fun _ _ => rfl, rfl⟩

theorem Kept.trans (h : Kept rs s t) (h' : Kept rs t u) : Kept rs s u :=
  ⟨fun r hr => (h'.regs r hr).trans (h.regs r hr), h'.memory.trans h.memory⟩

theorem Kept.mono (h : Kept rs s t) (hrs : ∀ r ∈ rs, r ∈ rs') : Kept rs' s t :=
  ⟨fun r hr => h.regs r fun hmem => hr (hrs r hmem), h.memory⟩

theorem Kept.put (h : Kept rs s t) (hrd : rd ∈ rs) (w : UInt32) (f : Flags) :
    Kept rs s (put t rd w f) := by
  refine ⟨fun r hr => ?_, h.memory⟩
  have hne : r ≠ rd := fun heq => hr (heq ▸ hrd)
  rw [put_other hne]
  exact h.regs r hr

theorem Kept.setFlags (h : Kept rs s t) (f : Flags) : Kept rs s (setFlags t f) :=
  ⟨h.regs, h.memory⟩

theorem exec_data : (Op.data k false rd rn o).exec s =
    some (put s rd (k.result (s.regs rn) (o.value s.regs s.flags) s.flags) s.flags) := rfl

theorem exec_data_flags : (Op.data k true rd rn o).exec s =
    some (put s rd (k.result (s.regs rn) (o.value s.regs s.flags) s.flags)
      (k.flags (s.regs rn) (o.value s.regs s.flags) (o.carry s.regs s.flags) s.flags)) := rfl

theorem exec_test : (Op.test k rn o).exec s =
    some (setFlags s
      (k.flags (s.regs rn) (o.value s.regs s.flags) (o.carry s.regs s.flags) s.flags)) := rfl

theorem exec_move : (Op.move false rd o).exec s =
    some (put s rd (o.value s.regs s.flags) s.flags) := rfl

theorem exec_move_flags : (Op.move true rd o).exec s =
    some (put s rd (o.value s.regs s.flags)
      { logicFlags (o.value s.regs s.flags) s.flags with c := o.carry s.regs s.flags }) := rfl

theorem exec_clz : (Op.clz rd rm).exec s =
    some (put s rd (ArmArithmetic.clz (s.regs rm)) s.flags) := rfl

theorem exec_mul : (Op.mul rd rn rm).exec s =
    some (put s rd (s.regs rn * s.regs rm) s.flags) := rfl

end Registers

/-! ## Conditions -/

section Conditions

variable {a b w : UInt32} {f : Flags}

theorem one_le_iff : 1 ≤ w ↔ w ≠ 0 := by
  rw [ne_eq, ← UInt32.toNat_inj, UInt32.le_iff_toNat_le]
  exact Nat.one_le_iff_ne_zero

theorem sub_eq_zero_iff : a - b = 0 ↔ a = b := by
  constructor
  · intro h
    rw [← UInt32.sub_add_cancel a b, h, UInt32.zero_add]
  · rintro rfl
    exact UInt32.sub_self a

@[simp] theorem subFlags_z : (subFlags a b).z = decide (a = b) := by
  rw [Bool.eq_iff_iff, decide_eq_true_iff, ← sub_eq_zero_iff]
  exact beq_iff_eq

@[simp] theorem subFlags_c : (subFlags a b).c = decide (b ≤ a) := rfl

@[simp] theorem logicFlags_z : (logicFlags w f).z = (w == 0) := rfl

theorem holds_eq_sub : Cond.eq.holds (subFlags a b) = decide (a = b) := subFlags_z

theorem holds_ne_sub : Cond.ne.holds (subFlags a b) = decide (a ≠ b) := by
  simp [Cond.holds]

theorem holds_lo_sub : Cond.lo.holds (subFlags a b) = decide (a < b) := by
  rw [Bool.eq_iff_iff, decide_eq_true_iff, ← UInt32.not_le]
  simp [Cond.holds]

theorem holds_hi_sub : Cond.hi.holds (subFlags a b) = decide (b < a) := by
  rw [Bool.eq_iff_iff]
  simp only [Cond.holds, subFlags_z, subFlags_c, Bool.and_eq_true, Bool.not_eq_true',
    decide_eq_true_iff, decide_eq_false_iff_not, UInt32.le_iff_toNat_le, UInt32.lt_iff_toNat_lt,
    ← UInt32.toNat_inj]
  omega

theorem holds_ls_sub : Cond.ls.holds (subFlags a b) = decide (a ≤ b) := by
  rw [Bool.eq_iff_iff]
  simp only [Cond.holds, subFlags_z, subFlags_c, Bool.or_eq_true, Bool.not_eq_true',
    decide_eq_true_iff, decide_eq_false_iff_not, UInt32.le_iff_toNat_le, ← UInt32.toNat_inj]
  omega

/-- The sign of a word that is compared with 0. -/
theorem holds_mi_sub : Cond.mi.holds (subFlags a 0) = isNegative a := by
  rw [Cond.holds, subFlags, UInt32.sub_zero]

end Conditions

/-! ## Signs -/

/-- A word, or its negative. -/
def withSign (negative : Bool) (w : UInt32) : UInt32 := if negative then 0 - w else w

/-- The absolute value of a signed word. -/
def magnitude (w : UInt32) : UInt32 := withSign (isNegative w) w

section Signs

variable {a b w : UInt32} {x y : Bool}

theorem isNegative_eq_msb (w : UInt32) : isNegative w = w.toBitVec.msb := by
  rw [isNegative, BitVec.msb_eq_decide, decide_eq_decide, UInt32.le_iff_toNat_le]
  exact Iff.rfl

theorem isNegative_xor (a b : UInt32) : isNegative (a ^^^ b) = (isNegative a ^^ isNegative b) := by
  rw [isNegative_eq_msb, isNegative_eq_msb, isNegative_eq_msb, UInt32.toBitVec_xor, BitVec.msb_xor]

theorem withSign_withSign : withSign x (withSign y w) = withSign (x ^^ y) w := by
  have htwice : 0 - (0 - w) = w := by
    rw [UInt32.zero_sub, UInt32.zero_sub, UInt32.neg_neg]
  cases x with
  | false => rw [Bool.false_xor]; rfl
  | true =>
      cases y with
      | false => rfl
      | true => exact htwice

theorem zero_sub_eq_neg (w : UInt32) : 0 - w = ⟨.neg w.toBitVec⟩ := by
  rw [UInt32.zero_sub]
  rfl

/-- Truncated division, from the absolute values. -/
theorem signed_div (a b : UInt32) : (a.toInt32 / b.toInt32).toUInt32 =
    withSign (isNegative (a ^^^ b)) (magnitude a / magnitude b) := by
  have hdiv : (a.toInt32 / b.toInt32).toUInt32 = ⟨BitVec.sdiv a.toBitVec b.toBitVec⟩ := rfl
  rw [hdiv, isNegative_xor, magnitude, magnitude, isNegative_eq_msb, isNegative_eq_msb, BitVec.sdiv]
  cases a.toBitVec.msb
  all_goals
    cases b.toBitVec.msb
    all_goals
      simp only [withSign, zero_sub_eq_neg]
      rfl

theorem signed_mod (a b : UInt32) : (a.toInt32 % b.toInt32).toUInt32 =
    withSign (isNegative a) (magnitude a % magnitude b) := by
  have hmod : (a.toInt32 % b.toInt32).toUInt32 = ⟨BitVec.srem a.toBitVec b.toBitVec⟩ := rfl
  rw [hmod, magnitude, magnitude, isNegative_eq_msb, isNegative_eq_msb, BitVec.srem]
  cases a.toBitVec.msb
  all_goals
    cases b.toBitVec.msb
    all_goals
      simp only [withSign, zero_sub_eq_neg]
      rfl

theorem sub_div_mul (a b : UInt32) : a - a / b * b = a % b := by
  have hle := Nat.div_mul_le_self a.toNat b.toNat
  have hlt := a.toNat_lt
  have hmul : (a / b * b).toNat = a.toNat / b.toNat * b.toNat := by
    rw [UInt32.toNat_mul, UInt32.toNat_div, Nat.mod_eq_of_lt (by omega)]
  have hle' : a / b * b ≤ a := by
    rw [UInt32.le_iff_toNat_le, hmul]
    exact hle
  have hsplit := Nat.div_add_mod' a.toNat b.toNat
  rw [← UInt32.toNat_inj, UInt32.toNat_sub_of_le _ _ hle', hmul, UInt32.toNat_mod]
  omega

theorem signed_sub_div_mul (a b : UInt32) :
    a - (a.toInt32 / b.toInt32).toUInt32 * b = (a.toInt32 % b.toInt32).toUInt32 := by
  have hsub (x y : Int32) : x - x / y * y = x % y := by
    have hmod : (x.toInt.tmod y.toInt).bmod (2 ^ 32) = x.toInt.tmod y.toInt := by
      rw [← Int32.toInt_mod]
      exact Int32.toInt_bmod _
    have hsplit := Int.tmod_add_tdiv_mul x.toInt y.toInt
    rw [← Int32.toInt_inj, Int32.toInt_sub, Int32.toInt_mul, Int32.toInt_div, Int32.toInt_mod,
      ← hmod, Int.bmod_mul_bmod, Int.sub_bmod_bmod]
    refine congrArg (Int.bmod · _) ?_
    omega
  exact congrArg Int32.toUInt32 (hsub a.toInt32 b.toInt32)

theorem magnitude_ne_zero (hw : w ≠ 0) : magnitude w ≠ 0 := by
  unfold magnitude withSign
  split
  · intro h
    apply hw
    rw [← sub_eq_zero_iff.1 h]
  · exact hw

end Signs

/-! ## Shifts -/

section Shifts

variable {w : UInt32} {n : Nat}

theorem toNat_shiftRight (hn : n < 32) : (shiftRight w n).toNat = w.toNat / 2 ^ n := by
  have hmod : n % 4294967296 % 32 = n := by omega
  rw [shiftRight, if_pos hn, UInt32.toNat_shiftRight, UInt32.toNat_ofNat', hmod,
    Nat.shiftRight_eq_div_pow]

theorem toNat_shiftLeft (hn : n < 32) (hfits : w.toNat * 2 ^ n < 4294967296) :
    (shiftLeft w n).toNat = w.toNat * 2 ^ n := by
  have hmod : n % 4294967296 % 32 = n := by omega
  rw [shiftLeft, if_pos hn, UInt32.toNat_shiftLeft, UInt32.toNat_ofNat', hmod, Nat.shiftLeft_eq,
    Nat.mod_eq_of_lt hfits]

theorem toNat_clz (hw : w ≠ 0) : (clz w).toNat = 31 - w.toNat.log2 := by
  rw [clz, if_neg hw, UInt32.toNat_ofNat', Nat.mod_eq_of_lt (by omega)]

theorem log2_lt (w : UInt32) : w.toNat.log2 < 32 := by
  by_cases hw : w.toNat = 0
  · rw [hw]
    decide
  · exact (Nat.log2_lt hw).2 w.toNat_lt

/-- What the test of a word with the word before it says. -/
theorem toNat_of_and_pred (hw : w ≠ 0) (h : w &&& (w - 1) = 0) : w.toNat = 2 ^ w.toNat.log2 := by
  have hpos : w.toNat ≠ 0 := fun hzero => hw (UInt32.toNat_inj.1 hzero)
  have hone : (1 : UInt32) ≤ w := UInt32.le_iff_toNat_le.2 (Nat.pos_of_ne_zero hpos)
  have hand : w.toNat &&& (w.toNat - 1) = 0 := by
    have hzero := congrArg UInt32.toNat h
    rwa [UInt32.toNat_and, UInt32.toNat_sub_of_le _ _ hone] at hzero
  obtain ⟨k, hk⟩ := (Nat.and_sub_one_eq_zero_iff_isPowerOfTwo hpos).1 hand
  rw [hk, Nat.log2_two_pow]

end Shifts

end Library.ArmArithmetic
