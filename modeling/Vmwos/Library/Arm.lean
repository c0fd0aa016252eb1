import Mathlib.Data.Nat.Bitwise
import Vmwos.Library.AddressSpace

/-!
# A processor

The instructions of a 32-bit ARM processor that fill memory: moves, logical instructions and
subtractions that set the flags, stores with a post-indexed address, stores and loads of several
registers, and branches. Every instruction is executed under a condition. A word is stored only at
an address that is a multiple of 4; at any other one the processor does not go on.

`Ensures` says what holds when a piece of code has been run to its end, with one rule for each kind
of line.
-/

set_option autoImplicit false

namespace Library.Arm

/-! ## State -/

/-- The registers, in the order in which they are stored together. -/
inductive Reg where
  | r0 | r1 | r2 | r3 | r4 | r5 | r6 | r7 | r8 | ip | sp | lr
  deriving DecidableEq, Repr

/-- The flags: negative, zero, carry and overflow. -/
structure Flags where
  n : Bool
  z : Bool
  c : Bool
  v : Bool
  deriving DecidableEq, Repr

structure ArmState where
  regs : Reg → UInt32
  flags : Flags
  memory : Memory

/-- Set a register. -/
def ArmState.set (s : ArmState) (r : Reg) (w : UInt32) : ArmState :=
  { s with regs := Function.update s.regs r w }

/-- The highest bit. -/
def isNegative (w : UInt32) : Bool := decide (0x80000000 ≤ w)

/-- The flags of a logical instruction. -/
def logicFlags (result : UInt32) (old : Flags) : Flags :=
  ⟨isNegative result, result == 0, old.c, old.v⟩

/-- The flags of `a-b`. -/
def subFlags (a b : UInt32) : Flags :=
  ⟨isNegative (a - b), a - b == 0, decide (b ≤ a),
    isNegative a != isNegative b && isNegative (a - b) != isNegative a⟩

/-! ## Instructions -/

/-- Conditions, for signed comparisons. -/
inductive Cond where
  | al | eq | ne | ge | lt | gt | le
  deriving DecidableEq, Repr

def Cond.holds : Cond → Flags → Bool
  | .al, _ => true
  | .eq, f => f.z
  | .ne, f => !f.z
  | .ge, f => f.n == f.v
  | .lt, f => f.n != f.v
  | .gt, f => !f.z && f.n == f.v
  | .le, f => f.z || f.n != f.v

inductive Op where
  /-- `stmfd rn!, {regs}` -/
  | stmfd (rn : Reg) (regs : List Reg)
  /-- `ldmfd rn!, {regs}` -/
  | ldmfd (rn : Reg) (regs : List Reg)
  /-- `stmia rn!, {regs}` -/
  | stmia (rn : Reg) (regs : List Reg)
  /-- `ands rd, rn, #imm` -/
  | ands (rd rn : Reg) (imm : UInt32)
  /-- `subs rd, rn, #imm` -/
  | subs (rd rn : Reg) (imm : UInt32)
  /-- `cmp rn, #imm` -/
  | cmp (rn : Reg) (imm : UInt32)
  /-- `tst rn, #imm` -/
  | tst (rn : Reg) (imm : UInt32)
  /-- `mov rd, rm` -/
  | mov (rd rm : Reg)
  /-- `add rd, rn, rm` -/
  | add (rd rn rm : Reg)
  /-- `orr rd, rn, rm, lsl #shift` -/
  | orr (rd rn rm : Reg) (shift : UInt32)
  /-- `strb rt, [rn], #imm` -/
  | strb (rt rn : Reg) (imm : UInt32)
  /-- `str rt, [rn], #imm` -/
  | str (rt rn : Reg) (imm : UInt32)
  deriving DecidableEq, Repr

/-- The length of registers in memory. -/
def bytesOf (regs : List Reg) : UInt32 := UInt32.ofNat (4 * regs.length)

/-- Set registers to words. -/
def ArmState.setAll (s : ArmState) : List Reg → List UInt32 → ArmState
  | r :: regs, w :: ws => (s.set r w).setAll regs ws
  | _, _ => s

/-- Execute an instruction whose condition holds. -/
def Op.exec : Op → ArmState → Option ArmState
  | .stmfd rn regs, s =>
      let a := s.regs rn - bytesOf regs
      if a % 4 ≠ 0 then none
      else some { s.set rn a with memory := s.memory.storeWords a (regs.map s.regs) }
  | .ldmfd rn regs, s =>
      let a := s.regs rn
      if a % 4 ≠ 0 then none
      else some ((s.set rn (a + bytesOf regs)).setAll regs (s.memory.loadWords a regs.length))
  | .stmia rn regs, s =>
      let a := s.regs rn
      if a % 4 ≠ 0 then none
      else some { s.set rn (a + bytesOf regs) with
        memory := s.memory.storeWords a (regs.map s.regs) }
  | .ands rd rn imm, s =>
      let result := s.regs rn &&& imm
      some { s.set rd result with flags := logicFlags result s.flags }
  | .subs rd rn imm, s =>
      some { s.set rd (s.regs rn - imm) with flags := subFlags (s.regs rn) imm }
  | .cmp rn imm, s => some { s with flags := subFlags (s.regs rn) imm }
  | .tst rn imm, s => some { s with flags := logicFlags (s.regs rn &&& imm) s.flags }
  | .mov rd rm, s => some (s.set rd (s.regs rm))
  | .add rd rn rm, s => some (s.set rd (s.regs rn + s.regs rm))
  | .orr rd rn rm shift, s => some (s.set rd (s.regs rn ||| s.regs rm <<< shift))
  | .strb rt rn imm, s =>
      some { s.set rn (s.regs rn + imm) with
        memory := s.memory.store (s.regs rn) (s.regs rt).toUInt8 }
  | .str rt rn imm, s =>
      let a := s.regs rn
      if a % 4 ≠ 0 then none
      else some { s.set rn (a + imm) with memory := s.memory.storeWord a (s.regs rt) }

/-! ## Code -/

/-- A line of a listing. -/
inductive Line (Label : Type) where
  | label (l : Label)
  | op (c : Cond) (i : Op)
  | branch (c : Cond) (l : Label)
  deriving DecidableEq, Repr

section Code

variable {Label : Type} [DecidableEq Label]

/-- The lines from a label on. -/
def codeAt (program : List (Line Label)) (l : Label) : List (Line Label) :=
  program.dropWhile (· ≠ .label l)

/-- Run the lines to their end, with at most `fuel` of them. -/
def run (program : List (Line Label)) :
    (fuel : Nat) → List (Line Label) → ArmState → Option ArmState
  | 0, _, _ => none
  | _ + 1, [], s => some s
  | fuel + 1, .label _ :: rest, s => run program fuel rest s
  | fuel + 1, .op c i :: rest, s =>
      if c.holds s.flags then (i.exec s).bind (run program fuel rest)
      else run program fuel rest s
  | fuel + 1, .branch c l :: rest, s =>
      if c.holds s.flags then run program fuel (codeAt program l) s
      else run program fuel rest s

/-- The run ends, and the last state is as wanted. -/
def Ensures (program code : List (Line Label)) (s : ArmState) (post : ArmState → Prop) : Prop :=
  ∃ fuel t, run program fuel code s = some t ∧ post t

variable {program rest : List (Line Label)} {s s' : ArmState} {post : ArmState → Prop} {c : Cond}
  {i : Op} {l : Label}

theorem run_op {fuel : Nat} : run program (fuel + 1) (.op c i :: rest) s =
    if c.holds s.flags then (i.exec s).bind (run program fuel rest)
    else run program fuel rest s := rfl

theorem run_branch {fuel : Nat} : run program (fuel + 1) (.branch c l :: rest) s =
    if c.holds s.flags then run program fuel (codeAt program l) s
    else run program fuel rest s := rfl

/-- However many lines are allowed, a run ends in one state. -/
theorem run_unique {fuel fuel' : Nat} {code : List (Line Label)} {t t' : ArmState}
    (h : run program fuel code s = some t) (h' : run program fuel' code s = some t') : t = t' := by
  induction fuel generalizing fuel' code s with
  | zero => cases h
  | succ fuel ih =>
      cases fuel' with
      | zero => cases h'
      | succ fuel' =>
          cases code with
          | nil => exact Option.some.inj (h.symm.trans h')
          | cons line rest =>
              cases line with
              | label l => exact ih h h'
              | op c i =>
                  rw [run_op] at h h'
                  split at h
                  · rename_i hc
                    rw [if_pos hc] at h'
                    cases hexec : i.exec s with
                    | none =>
                        rw [hexec] at h
                        cases h
                    | some next =>
                        rw [hexec] at h h'
                        exact ih h h'
                  · rename_i hc
                    rw [if_neg hc] at h'
                    exact ih h h'
              | branch c l =>
                  rw [run_branch] at h h'
                  split at h
                  · rename_i hc
                    rw [if_pos hc] at h'
                    exact ih h h'
                  · rename_i hc
                    rw [if_neg hc] at h'
                    exact ih h h'

theorem ensures_nil (h : post s) : Ensures program [] s post := ⟨1, s, rfl, h⟩

theorem ensures_label (h : Ensures program rest s post) :
    Ensures program (.label l :: rest) s post := by
  obtain ⟨fuel, t, hrun, ht⟩ := h
  exact ⟨fuel + 1, t, hrun, ht⟩

/-- An instruction that is executed. -/
theorem ensures_op (hc : c.holds s.flags = true) (hi : i.exec s = some s')
    (h : Ensures program rest s' post) : Ensures program (.op c i :: rest) s post := by
  obtain ⟨fuel, t, hrun, ht⟩ := h
  refine ⟨fuel + 1, t, ?_, ht⟩
  rw [run_op, if_pos hc, hi]
  exact hrun

/-- An instruction that is skipped. -/
theorem ensures_skip (hc : c.holds s.flags = false) (h : Ensures program rest s post) :
    Ensures program (.op c i :: rest) s post := by
  obtain ⟨fuel, t, hrun, ht⟩ := h
  refine ⟨fuel + 1, t, ?_, ht⟩
  rw [run_op, hc, if_neg Bool.false_ne_true]
  exact hrun

theorem ensures_branch (hc : c.holds s.flags = true)
    (h : Ensures program (codeAt program l) s post) :
    Ensures program (.branch c l :: rest) s post := by
  obtain ⟨fuel, t, hrun, ht⟩ := h
  refine ⟨fuel + 1, t, ?_, ht⟩
  rw [run_branch, if_pos hc]
  exact hrun

theorem ensures_pass (hc : c.holds s.flags = false) (h : Ensures program rest s post) :
    Ensures program (.branch c l :: rest) s post := by
  obtain ⟨fuel, t, hrun, ht⟩ := h
  refine ⟨fuel + 1, t, ?_, ht⟩
  rw [run_branch, hc, if_neg Bool.false_ne_true]
  exact hrun

end Code

/-! ## Flags -/

section Comparison

variable {a b : UInt32} {old : Flags}

theorem isNegative_of_lt {w : UInt32} (h : w.toNat < 2147483648) : isNegative w = false := by
  have hbound : (0x80000000 : UInt32).toNat = 2147483648 := rfl
  rw [isNegative, decide_eq_false]
  rw [UInt32.le_iff_toNat_le, hbound]
  exact Nat.not_le.2 h

/-- The sign of a difference of two small numbers tells which one is less. -/
theorem isNegative_sub (ha : a.toNat < 2147483648) (hb : b.toNat < 2147483648) :
    isNegative (a - b) = decide (a.toNat < b.toNat) := by
  have hbound : (0x80000000 : UInt32).toNat = 2147483648 := rfl
  rw [isNegative, decide_eq_decide, UInt32.le_iff_toNat_le, hbound, UInt32.toNat_sub]
  omega

theorem sub_beq_zero (a b : UInt32) : (a - b == 0) = decide (a.toNat = b.toNat) := by
  have hzero : a - b = 0 ↔ a.toNat = b.toNat := by
    constructor
    · intro h
      have heq : a = b := by
        rw [← UInt32.sub_add_cancel a b, h, UInt32.zero_add]
      rw [heq]
    · intro h
      rw [UInt32.toNat_inj.1 h, UInt32.sub_self]
  rw [Bool.eq_iff_iff, beq_iff_eq, decide_eq_true_iff]
  exact hzero

/-- A comparison of two small numbers. -/
theorem subFlags_eq (ha : a.toNat < 2147483648) (hb : b.toNat < 2147483648) :
    subFlags a b = ⟨decide (a.toNat < b.toNat), decide (a.toNat = b.toNat), decide (b ≤ a), false⟩ := by
  rw [subFlags, isNegative_sub ha hb, sub_beq_zero, isNegative_of_lt ha, isNegative_of_lt hb]
  rfl

theorem holds_ge (ha : a.toNat < 2147483648) (hb : b.toNat < 2147483648) :
    Cond.ge.holds (subFlags a b) = decide (b.toNat ≤ a.toNat) := by
  rw [subFlags_eq ha hb, Bool.eq_iff_iff]
  change (decide (a.toNat < b.toNat) == false) = true ↔ _
  simp

theorem holds_lt (ha : a.toNat < 2147483648) (hb : b.toNat < 2147483648) :
    Cond.lt.holds (subFlags a b) = decide (a.toNat < b.toNat) := by
  rw [subFlags_eq ha hb]
  exact Bool.bne_false _

theorem holds_gt (ha : a.toNat < 2147483648) (hb : b.toNat < 2147483648) :
    Cond.gt.holds (subFlags a b) = decide (b.toNat < a.toNat) := by
  rw [subFlags_eq ha hb, Bool.eq_iff_iff]
  change (!decide (a.toNat = b.toNat) && decide (a.toNat < b.toNat) == false) = true ↔ _
  simp
  omega

theorem holds_le (ha : a.toNat < 2147483648) (hb : b.toNat < 2147483648) :
    Cond.le.holds (subFlags a b) = decide (a.toNat ≤ b.toNat) := by
  rw [subFlags_eq ha hb, Bool.eq_iff_iff]
  change (decide (a.toNat = b.toNat) || decide (a.toNat < b.toNat) != false) = true ↔ _
  simp
  omega

/-- A negative number is less than a small one, also where the difference overflows. -/
theorem subFlags_of_negative (ha : 2147483648 ≤ a.toNat) (hb : b.toNat < 2147483648) :
    (subFlags a b).n = !(subFlags a b).v := by
  have hbound : (0x80000000 : UInt32).toNat = 2147483648 := rfl
  have hnegative : isNegative a = true := by
    rw [isNegative, decide_eq_true_iff, UInt32.le_iff_toNat_le, hbound]
    exact ha
  rw [subFlags, hnegative, isNegative_of_lt hb]
  cases isNegative (a - b) with
  | true => rfl
  | false => rfl

theorem holds_of_negative (ha : 2147483648 ≤ a.toNat) (hb : b.toNat < 2147483648) :
    Cond.lt.holds (subFlags a b) = true ∧ Cond.ge.holds (subFlags a b) = false ∧
      Cond.gt.holds (subFlags a b) = false := by
  change ((subFlags a b).n != (subFlags a b).v) = true ∧
    ((subFlags a b).n == (subFlags a b).v) = false ∧
      (!(subFlags a b).z && (subFlags a b).n == (subFlags a b).v) = false
  rw [subFlags_of_negative ha hb]
  simp

theorem holds_eq : Cond.eq.holds (subFlags a b) = decide (a.toNat = b.toNat) := by
  exact sub_beq_zero a b

/-- A bit that is tested. -/
theorem holds_ne_logic (w : UInt32) : Cond.ne.holds (logicFlags w old) = !(w == 0) := rfl

/-- Whether a bit of a word is set, from the remainders of the word. -/
theorem and_two_pow_beq_zero (w : UInt32) {j : Nat} (hj : j < 32) :
    (w &&& UInt32.ofNat (2 ^ j) == 0) = decide (w.toNat % (2 ^ j * 2) < 2 ^ j) := by
  have hpow : 2 ^ j < 2 ^ 32 := Nat.pow_lt_pow_right (by decide) hj
  have hpos : 0 < 2 ^ j := Nat.two_pow_pos j
  rw [Bool.eq_iff_iff, beq_iff_eq, decide_eq_true_iff, ← UInt32.toNat_inj, UInt32.toNat_and,
    UInt32.toNat_ofNat', Nat.mod_eq_of_lt hpow, Nat.and_two_pow, Nat.testBit_eq_decide_div_mod_eq,
    Nat.mod_mul]
  have hlow : w.toNat % 2 ^ j < 2 ^ j := Nat.mod_lt _ hpos
  rcases Nat.mod_two_eq_zero_or_one (w.toNat / 2 ^ j) with hbit | hbit
  · rw [hbit, Nat.mul_zero, Nat.add_zero]
    simp [hlow]
  · rw [hbit, Nat.mul_one]
    simp

end Comparison

end Library.Arm
