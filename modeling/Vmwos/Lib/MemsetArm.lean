import Vmwos.Lib.Blocks
import Vmwos.Library.Arm

/-!
# `memset` in assembler

The instruction sequence of `memset`. It saves registers on the stack, stores single bytes up to an
address that is a multiple of 4, then 64 bytes in each round of a loop whose last round leaves a
negative count, and what is left after that by the bits of the count.

`memset_arm_eq` compares it with `memset_byte`, for every address, length and byte. What it saves
on the stack it does not clear again.
-/

set_option autoImplicit false

namespace Vmwos

open Library Library.Arm

/-! ## The listing -/

/-- The labels, without `asm_memset_`. -/
inductive MemsetLabel where
  | aligned4
  | loop
  | lessthan4
  | done
  deriving DecidableEq, Repr

/-- `{r4-r8, lr}` -/
def savedRegs : List Reg := [.r4, .r5, .r6, .r7, .r8, .lr]

/-- `{r1, r3-r8, lr}` -/
def patternRegs : List Reg := [.r1, .r3, .r4, .r5, .r6, .r7, .r8, .lr]

/-- Up to the label `asm_memset_4bytealigned`. -/
def memsetEntry : List (Line MemsetLabel) :=
  [.op .al (.stmfd .sp savedRegs),
    .op .al (.ands .r3 .r0 3),
    .op .al (.mov .ip .r0),
    .branch .eq .aligned4,
    .op .al (.subs .r2 .r2 4),
    .branch .lt .lessthan4,
    .op .al (.cmp .r3 2),
    .op .lt (.strb .r1 .ip 1),
    .op .le (.strb .r1 .ip 1),
    .op .al (.strb .r1 .ip 1),
    .op .al (.add .r2 .r2 .r3)]

/-- Four copies of the byte, in all registers that are stored. -/
def memsetPattern : List (Line MemsetLabel) :=
  [.label .aligned4,
    .op .al (.orr .r1 .r1 .r1 8),
    .op .al (.orr .r1 .r1 .r1 16),
    .op .al (.mov .r3 .r1),
    .op .al (.mov .r4 .r1),
    .op .al (.mov .r5 .r1),
    .op .al (.mov .r6 .r1),
    .op .al (.mov .r7 .r1),
    .op .al (.mov .r8 .r1),
    .op .al (.mov .lr .r1)]

/-- 64 bytes in a round. -/
def memsetLoop : List (Line MemsetLabel) :=
  [.label .loop,
    .op .al (.subs .r2 .r2 64),
    .op .ge (.stmia .ip patternRegs),
    .op .ge (.stmia .ip patternRegs),
    .branch .gt .loop]

/-- What is left, down to 4 bytes. -/
def memsetWords : List (Line MemsetLabel) :=
  [.branch .eq .done,
    .op .al (.tst .r2 32),
    .op .ne (.stmia .ip patternRegs),
    .op .al (.tst .r2 16),
    .op .ne (.stmia .ip [.r4, .r5, .r6, .r7]),
    .op .al (.tst .r2 8),
    .op .ne (.stmia .ip [.r1, .r3]),
    .op .al (.tst .r2 4),
    .op .ne (.str .r1 .ip 4)]

/-- Less than 4 bytes are left. -/
def memsetBytes : List (Line MemsetLabel) :=
  [.label .lessthan4,
    .op .al (.tst .r2 2),
    .op .ne (.strb .r1 .ip 1),
    .op .ne (.strb .r1 .ip 1),
    .op .al (.tst .r2 1),
    .op .ne (.strb .r1 .ip 1)]

def memsetDone : List (Line MemsetLabel) :=
  [.label .done,
    .op .al (.ldmfd .sp savedRegs)]

/-- The instructions of `memset`. -/
def memsetCode : List (Line MemsetLabel) :=
  memsetEntry ++ (memsetPattern ++ (memsetLoop ++ (memsetWords ++ (memsetBytes ++ memsetDone))))

theorem codeAt_aligned4 : codeAt memsetCode .aligned4 =
    memsetPattern ++ (memsetLoop ++ (memsetWords ++ (memsetBytes ++ memsetDone))) := rfl

theorem codeAt_loop : codeAt memsetCode .loop =
    memsetLoop ++ (memsetWords ++ (memsetBytes ++ memsetDone)) := rfl

theorem codeAt_lessthan4 : codeAt memsetCode .lessthan4 = memsetBytes ++ memsetDone := rfl

theorem codeAt_done : codeAt memsetCode .done = memsetDone := rfl

/-! ## The state while a block is filled -/

/-- Where the registers are saved. -/
def saveArea (start : ArmState) : UInt32 := start.regs .sp - 24

/-- The memory into which the registers have been saved. -/
def pushed (start : ArmState) : Memory :=
  start.memory.storeWords (saveArea start) (savedRegs.map start.regs)

/-- The call `memset(s, c, n)`: the arguments are in registers, and the stack is aligned. -/
structure MemsetCall (start : ArmState) (s n : UInt32) (c : UInt8) : Prop where
  r0 : start.regs .r0 = s
  r1 : start.regs .r1 = c.toUInt32
  r2 : start.regs .r2 = n
  sp : start.regs .sp % 4 = 0

/-- The first `k` bytes have been stored. -/
structure Filling (start : ArmState) (s n : UInt32) (c : UInt8) (k : Nat) (st : ArmState) :
    Prop where
  r0 : st.regs .r0 = s
  ip : st.regs .ip = s + UInt32.ofNat k
  byte : (st.regs .r1).toUInt8 = c
  sp : st.regs .sp = saveArea start
  memory : st.memory = (pushed start).fill s k c
  le : k ≤ n.toNat

/-- A store changes `ip` and the memory only. -/
structure SameButIp (st st' : ArmState) : Prop where
  flags : st'.flags = st.flags
  regs : ∀ r, r ≠ .ip → st'.regs r = st.regs r

/-- All registers that are stored together hold four copies of the byte. -/
def HoldPattern (c : UInt8) (st : ArmState) : Prop :=
  ∀ r ∈ patternRegs, ∀ k < 4, wordByte (st.regs r) k = c

/-- What `memset` has done when it returns. -/
structure MemsetDone (start : ArmState) (s n : UInt32) (c : UInt8) (st : ArmState) : Prop where
  memory : st.memory = memsetByte (pushed start) s c.toUInt32 n
  r0 : st.regs .r0 = s
  sp : st.regs .sp = start.regs .sp
  restored : (∀ a, InBlock s n a → ¬ distance (saveArea start) a < 24) →
    ∀ r ∈ savedRegs, st.regs r = start.regs r

section Stores

variable {start st st' : ArmState} {s n : UInt32} {c : UInt8} {k : Nat}

theorem SameButIp.trans {st'' : ArmState} (h : SameButIp st st') (h' : SameButIp st' st'') :
    SameButIp st st'' :=
  ⟨h'.flags.trans h.flags, fun r hr => (h'.regs r hr).trans (h.regs r hr)⟩

theorem HoldPattern.same (h : HoldPattern c st) (hsame : ∀ r, r ≠ .ip → st'.regs r = st.regs r) :
    HoldPattern c st' := by
  intro r hr
  have hne : r ≠ .ip := by
    rintro rfl
    exact absurd hr (by decide)
  rw [hsame r hne]
  exact h r hr

/-- The count is in none of these registers. -/
theorem HoldPattern.counted (h : HoldPattern c st) (w : UInt32) (flags : Flags) :
    HoldPattern c { st.set .r2 w with flags := flags } := by
  intro r hr
  have hne : r ≠ .r2 := by
    rintro rfl
    exact absurd hr (by decide)
  have hkept : ({ st.set .r2 w with flags := flags } : ArmState).regs r = st.regs r :=
    Function.update_of_ne hne _ _
  rw [hkept]
  exact h r hr

/-- The flags do not matter for what has been stored. -/
theorem Filling.withFlags (h : Filling start s n c k st) (flags : Flags) :
    Filling start s n c k { st with flags := flags } :=
  ⟨h.r0, h.ip, h.byte, h.sp, h.memory, h.le⟩

theorem ip_add (s : UInt32) (k m : Nat) :
    s + UInt32.ofNat k + UInt32.ofNat m = s + UInt32.ofNat (k + m) :=
  Memory.add_ofNat_add s k m

/-- One more byte. -/
theorem Filling.strb (h : Filling start s n c k st) (hk : k < n.toNat) :
    ∃ st', (Op.strb .r1 .ip 1).exec st = some st' ∧ Filling start s n c (k + 1) st' ∧
      SameButIp st st' := by
  refine ⟨_, rfl, ⟨h.r0, ?_, h.byte, h.sp, ?_, hk⟩, ⟨rfl, ?_⟩⟩
  · show st.regs .ip + 1 = _
    rw [h.ip]
    exact ip_add s k 1
  · show st.memory.store (st.regs .ip) (st.regs .r1).toUInt8 = _
    rw [h.memory, h.ip, h.byte]
    exact Memory.store_fill (Nat.lt_trans hk n.toNat_lt)
  · intro r hr
    exact Function.update_of_ne hr _ _

/-- The address after `k` bytes is a multiple of 4. -/
def AlignedAt (s : UInt32) (k : Nat) : Prop := (s.toNat + k) % 4 = 0

theorem AlignedAt.mod (h : AlignedAt s k) : (s + UInt32.ofNat k) % 4 = 0 := by
  have hfour : (4 : UInt32).toNat = 4 := rfl
  have hzero : (0 : UInt32).toNat = 0 := rfl
  unfold AlignedAt at h
  rw [← UInt32.toNat_inj, UInt32.toNat_mod, UInt32.toNat_add, UInt32.toNat_ofNat', hfour, hzero]
  omega

theorem AlignedAt.add (h : AlignedAt s k) (m : Nat) : AlignedAt s (k + 4 * m) := by
  unfold AlignedAt at *
  omega

/-- Some more words. -/
theorem Filling.stmia (h : Filling start s n c k st) (hpattern : HoldPattern c st)
    (haligned : AlignedAt s k) {regs : List Reg} (hregs : ∀ r ∈ regs, r ∈ patternRegs)
    (hk : k + 4 * regs.length ≤ n.toNat) :
    ∃ st', (Op.stmia .ip regs).exec st = some st' ∧
      Filling start s n c (k + 4 * regs.length) st' ∧ SameButIp st st' := by
  have hmod : ¬ st.regs .ip % 4 ≠ 0 := by
    rw [h.ip, haligned.mod]
    exact fun h => h rfl
  have hlt := n.toNat_lt
  refine ⟨_, if_neg hmod, ⟨h.r0, ?_, h.byte, h.sp, ?_, hk⟩, ⟨rfl, ?_⟩⟩
  · show st.regs .ip + bytesOf regs = _
    rw [h.ip]
    exact ip_add s k _
  · show st.memory.storeWords (st.regs .ip) (regs.map st.regs) = _
    have hwords : ∀ w ∈ regs.map st.regs, ∀ k < 4, wordByte w k = c := by
      intro w hw
      obtain ⟨r, hr, rfl⟩ := List.mem_map.1 hw
      exact hpattern r (hregs r hr)
    have hlength : (regs.map st.regs).length = regs.length := List.length_map _
    have hfill := @Memory.storeWords_fill (pushed start) s k c (regs.map st.regs)
      (by rw [hlength]; omega) hwords
    rwa [hlength, ← h.memory, ← h.ip] at hfill
  · intro r hr
    exact Function.update_of_ne hr _ _

end Stores

/-! ## The parts of the routine, from the last one -/

section Parts

variable {start st : ArmState} {s n : UInt32} {c : UInt8} {k : Nat}

theorem saveArea_mod (hsp : start.regs .sp % 4 = 0) : saveArea start % 4 = 0 := by
  have hfour : (4 : UInt32).toNat = 4 := rfl
  have harea : (24 : UInt32).toNat = 24 := rfl
  have hzero : (0 : UInt32).toNat = 0 := rfl
  rw [← UInt32.toNat_inj, UInt32.toNat_mod, hfour, hzero] at hsp ⊢
  rw [saveArea, UInt32.toNat_sub, harea]
  omega

/-- The registers are read back from the stack. -/
theorem ensures_done (hsp : start.regs .sp % 4 = 0) (h : Filling start s n c n.toNat st) :
    Ensures memsetCode memsetDone st (MemsetDone start s n c) := by
  have hmod : ¬ st.regs .sp % 4 ≠ 0 := by
    rw [h.sp, saveArea_mod hsp]
    exact fun h => h rfl
  have hexec : (Op.ldmfd .sp savedRegs).exec st =
      some ((st.set .sp (st.regs .sp + 24)).setAll savedRegs
        (st.memory.loadWords (st.regs .sp) 6)) := if_neg hmod
  apply ensures_label
  apply ensures_op rfl hexec
  apply ensures_nil
  have hmemory : st.memory = memsetByte (pushed start) s c.toUInt32 n := by
    rw [h.memory, memsetByte_eq, UInt8.toUInt8_toUInt32]
  refine ⟨hmemory, h.r0, ?_, ?_⟩
  · show st.regs .sp + 24 = _
    rw [h.sp, saveArea, UInt32.sub_add_cancel]
  · intro hapart
    have hloaded : st.memory.loadWords (st.regs .sp) 6 = savedRegs.map start.regs := by
      have hstored : (pushed start).loadWords (saveArea start) 6 = savedRegs.map start.regs :=
        Memory.loadWords_storeWords (by rw [List.length_map]; decide)
      rw [h.sp, ← hstored]
      refine Memory.loadWords_congr (by decide) fun a ha => ?_
      rw [h.memory]
      exact if_neg fun hin => hapart a hin ha
    intro r hr
    rw [hloaded]
    revert r
    simp only [savedRegs, List.forall_mem_cons, List.not_mem_nil, false_implies, implies_true,
      and_true]
    exact ⟨rfl, rfl, rfl, rfl, rfl, rfl⟩

/-- A byte is stored under a condition. -/
theorem ensures_strb {rest : List (Line MemsetLabel)} {cond : Cond} {b : Bool}
    (hcond : cond.holds st.flags = b) (h : Filling start s n c k st) (hk : b = true → k < n.toNat)
    (hrest : ∀ st', Filling start s n c (k + b.toNat) st' → SameButIp st st' →
      Ensures memsetCode rest st' (MemsetDone start s n c)) :
    Ensures memsetCode (.op cond (.strb .r1 .ip 1) :: rest) st (MemsetDone start s n c) := by
  cases b with
  | false =>
      apply ensures_skip hcond
      exact hrest st h ⟨rfl, fun _ _ => rfl⟩
  | true =>
      obtain ⟨st', hexec, h', hsame⟩ := h.strb (hk rfl)
      apply ensures_op hcond hexec
      exact hrest st' h' hsame

/-- The last three bytes at most, by the two lowest bits of the count. -/
theorem ensures_bytes (hsp : start.regs .sp % 4 = 0) (h : Filling start s n c k st)
    (hcount : (st.regs .r2).toNat % 4 = n.toNat - k) :
    Ensures memsetCode (memsetBytes ++ memsetDone) st (MemsetDone start s n c) := by
  have hle := h.le
  -- whether a bit is set, and a byte for it is left
  generalize hq : st.regs .r2 = q at hcount
  have htwo : (!(q &&& 2 == 0)) = !decide (q.toNat % 4 < 2) :=
    congrArg _ (and_two_pow_beq_zero q (j := 1) (by decide))
  have hone : (!(q &&& 1 == 0)) = !decide (q.toNat % 2 < 1) :=
    congrArg _ (and_two_pow_beq_zero q (j := 0) (by decide))
  have hset {r m : Nat} (hbit : (!decide (r < m)) = true) : m ≤ r :=
    Nat.le_of_not_lt (of_decide_eq_false (Bool.not_eq_true' _ ▸ hbit))
  apply ensures_label
  -- two bytes hang on one test
  apply ensures_op rfl rfl
  have hflags : Cond.ne.holds (logicFlags (st.regs .r2 &&& 2) st.flags) =
      !decide (q.toNat % 4 < 2) := by
    rw [holds_ne_logic, hq, htwo]
  apply ensures_strb hflags (h.withFlags _)
  · intro hbit
    have := hset hbit
    omega
  intro st₁ h₁ hsame₁
  apply ensures_strb (hflags ▸ congrArg Cond.ne.holds hsame₁.flags) h₁
  · intro hbit
    have := hset hbit
    rw [hbit, Bool.toNat_true]
    omega
  intro st₂ h₂ hsame₂
  have hr2 : st₂.regs .r2 = q := by
    rw [hsame₂.regs .r2 (by decide), hsame₁.regs .r2 (by decide)]
    exact hq
  -- what is left for the last bit
  have hlast : q.toNat % 2 = n.toNat - (k + (!decide (q.toNat % 4 < 2)).toNat +
      (!decide (q.toNat % 4 < 2)).toNat) := by
    by_cases hbit : q.toNat % 4 < 2
    · rw [decide_eq_true hbit, Bool.not_true, Bool.toNat_false]
      omega
    · rw [decide_eq_false hbit, Bool.not_false, Bool.toNat_true]
      omega
  have hle₂ := h₂.le
  have hflag : Cond.ne.holds (logicFlags (st₂.regs .r2 &&& 1) st₂.flags) =
      !decide (q.toNat % 2 < 1) := by
    rw [holds_ne_logic, hr2, hone]
  apply ensures_op rfl rfl
  apply ensures_strb hflag (h₂.withFlags _)
  · intro hbit
    have := hset hbit
    omega
  intro st₃ h₃ _
  have hall : k + (!decide (q.toNat % 4 < 2)).toNat + (!decide (q.toNat % 4 < 2)).toNat +
      (!decide (q.toNat % 2 < 1)).toNat = n.toNat := by
    by_cases hbit : q.toNat % 2 < 1
    · rw [decide_eq_true hbit, Bool.not_true, Bool.toNat_false]
      omega
    · rw [decide_eq_false hbit, Bool.not_false, Bool.toNat_true]
      omega
  rw [hall] at h₃
  exact ensures_done hsp h₃

/-- A test of a bit of the count, and a store of as many bytes when it is set. -/
theorem ensures_tested {rest : List (Line MemsetLabel)} {i : Op} {j : Nat} {imm w : UInt32}
    (hj : j < 32) (hfour : 2 ≤ j) (himm : imm = UInt32.ofNat (2 ^ j))
    (hi : ∀ k st, Filling start s n c k st → HoldPattern c st → AlignedAt s k →
      k + 2 ^ j ≤ n.toNat → ∃ st', i.exec st = some st' ∧ Filling start s n c (k + 2 ^ j) st' ∧
        SameButIp st st')
    (h : Filling start s n c k st) (hpattern : HoldPattern c st) (haligned : AlignedAt s k)
    (hr2 : st.regs .r2 = w) (hcount : w.toNat % (2 ^ j * 2) = n.toNat - k)
    (hrest : ∀ k' st', Filling start s n c k' st' → HoldPattern c st' → AlignedAt s k' →
      st'.regs .r2 = w → w.toNat % 2 ^ j = n.toNat - k' →
        Ensures memsetCode rest st' (MemsetDone start s n c)) :
    Ensures memsetCode (.op .al (.tst .r2 imm) :: .op .ne i :: rest) st
      (MemsetDone start s n c) := by
  have hle := h.le
  have hbitEq : (st.regs .r2 &&& imm == 0) = decide (w.toNat % (2 ^ j * 2) < 2 ^ j) := by
    rw [hr2, himm]
    exact and_two_pow_beq_zero w hj
  have hsplit : w.toNat % 2 ^ j = w.toNat % (2 ^ j * 2) % 2 ^ j :=
    (Nat.mod_mul_right_mod _ _ _).symm
  apply ensures_op rfl rfl
  by_cases hbit : w.toNat % (2 ^ j * 2) < 2 ^ j
  · apply ensures_skip
    · show Cond.ne.holds (logicFlags _ _) = false
      rw [holds_ne_logic, hbitEq, decide_eq_true hbit]
      rfl
    · refine hrest k _ (h.withFlags _) hpattern haligned hr2 ?_
      rw [hsplit, Nat.mod_eq_of_lt hbit, hcount]
  · have hlt : w.toNat % (2 ^ j * 2) < 2 ^ j * 2 :=
      Nat.mod_lt _ (Nat.mul_pos (Nat.two_pow_pos j) (by decide))
    obtain ⟨st', hexec, h', hsame⟩ := hi k _ (h.withFlags (logicFlags (st.regs .r2 &&& imm)
      st.flags)) hpattern haligned (by omega)
    have hpattern' : HoldPattern c st' := hpattern.same hsame.regs
    apply ensures_op _ hexec
    · refine hrest (k + 2 ^ j) st' h' hpattern' ?_ ?_ ?_
      · obtain ⟨m, hm⟩ := Nat.pow_dvd_pow 2 hfour
        rw [hm]
        exact haligned.add m
      · rw [hsame.regs _ (by decide)]
        exact hr2
      · have hrem : w.toNat % (2 ^ j * 2) - 2 ^ j < 2 ^ j := by omega
        rw [hsplit, Nat.mod_eq_sub_mod (Nat.le_of_not_lt hbit), Nat.mod_eq_of_lt hrem, hcount,
          Nat.sub_sub]
    · show Cond.ne.holds (logicFlags _ _) = true
      rw [holds_ne_logic, hbitEq, decide_eq_false hbit]
      rfl

/-- What is left after the loop, by the bits of the count; it has become negative by 64, which its
bits below do not show. -/
theorem ensures_words (hsp : start.regs .sp % 4 = 0) (h : Filling start s n c k st)
    (hpattern : HoldPattern c st) (haligned : AlignedAt s k)
    (hcount : (st.regs .r2).toNat % 64 = n.toNat - k) (heq : Cond.eq.holds st.flags = false) :
    Ensures memsetCode (memsetWords ++ (memsetBytes ++ memsetDone)) st (MemsetDone start s n c) := by
  have hstm (m : Nat) (regs : List Reg) (hregs : ∀ r ∈ regs, r ∈ patternRegs)
      (hlength : 4 * regs.length = m) : ∀ k st, Filling start s n c k st → HoldPattern c st →
        AlignedAt s k → k + m ≤ n.toNat → ∃ st', (Op.stmia .ip regs).exec st = some st' ∧
          Filling start s n c (k + m) st' ∧ SameButIp st st' := by
    subst hlength
    intro k st h hpattern haligned hle
    exact h.stmia hpattern haligned hregs hle
  apply ensures_pass heq
  refine ensures_tested (j := 5) (by decide) (by decide) (by decide)
    (hstm 32 patternRegs (by decide) (by decide)) h hpattern haligned rfl hcount ?_
  intro k₅ st₅ h₅ hpattern₅ haligned₅ hr2₅ hcount₅
  refine ensures_tested (j := 4) (by decide) (by decide) (by decide)
    (hstm 16 [.r4, .r5, .r6, .r7] (by decide) (by decide)) h₅ hpattern₅ haligned₅ hr2₅ hcount₅ ?_
  intro k₄ st₄ h₄ hpattern₄ haligned₄ hr2₄ hcount₄
  refine ensures_tested (j := 3) (by decide) (by decide) (by decide)
    (hstm 8 [.r1, .r3] (by decide) (by decide)) h₄ hpattern₄ haligned₄ hr2₄ hcount₄ ?_
  intro k₃ st₃ h₃ hpattern₃ haligned₃ hr2₃ hcount₃
  -- a single word is stored as one of several
  refine ensures_tested (j := 2) (by decide) (by decide) (by decide)
    (hstm 4 [.r1] (by decide) (by decide)) h₃ hpattern₃ haligned₃ hr2₃ hcount₃ ?_
  intro k₂ st₂ h₂ _ _ hr2₂ hcount₂
  apply ensures_bytes hsp h₂
  rw [hr2₂]
  exact hcount₂

theorem toNat_sixtyFour : (64 : UInt32).toNat = 64 := rfl

/-- The loop, by induction on the number of bytes that are left. -/
theorem ensures_loop (hsp : start.regs .sp % 4 = 0) (hn : n.toNat < 2147483648)
    (h : Filling start s n c k st) (hpattern : HoldPattern c st) (haligned : AlignedAt s k)
    (hcount : (st.regs .r2).toNat = n.toNat - k) :
    Ensures memsetCode (memsetLoop ++ (memsetWords ++ (memsetBytes ++ memsetDone))) st
      (MemsetDone start s n c) := by
  induction hleft : n.toNat - k using Nat.strongRecOn generalizing k st with
  | ind left ih =>
      have hle := h.le
      have hsmall : (st.regs .r2).toNat < 2147483648 := by omega
      have hbound : (64 : UInt32).toNat < 2147483648 := by decide
      have hge : Cond.ge.holds (subFlags (st.regs .r2) 64) = decide (64 ≤ left) := by
        rw [holds_ge hsmall hbound, hcount, hleft, toNat_sixtyFour]
      have hgt : Cond.gt.holds (subFlags (st.regs .r2) 64) = decide (64 < left) := by
        rw [holds_gt hsmall hbound, hcount, hleft, toNat_sixtyFour]
      have heq : Cond.eq.holds (subFlags (st.regs .r2) 64) = decide (left = 64) := by
        rw [holds_eq, hcount, hleft, toNat_sixtyFour]
      have hnext : (st.regs .r2 - 64).toNat = (left + 4294967232) % 4294967296 := by
        rw [UInt32.toNat_sub, hcount, hleft, toNat_sixtyFour, Nat.add_comm]
      have hcounted : Filling start s n c k
          { st.set .r2 (st.regs .r2 - 64) with flags := subFlags (st.regs .r2) 64 } :=
        ⟨h.r0, h.ip, h.byte, h.sp, h.memory, h.le⟩
      have hpattern' : HoldPattern c
          { st.set .r2 (st.regs .r2 - 64) with flags := subFlags (st.regs .r2) 64 } :=
        hpattern.counted _ _
      apply ensures_label
      apply ensures_op rfl rfl
      by_cases hround : 64 ≤ left
      · -- two stores of 32 bytes
        obtain ⟨st₁, hexec₁, h₁, hsame₁⟩ := hcounted.stmia hpattern' haligned
          (fun r hr => hr) (show k + 4 * patternRegs.length ≤ n.toNat by
            show k + 32 ≤ n.toNat
            omega)
        have haligned₁ : AlignedAt s (k + 32) := haligned.add 8
        obtain ⟨st₂, hexec₂, h₂, hsame₂⟩ := h₁.stmia (hpattern'.same hsame₁.regs) haligned₁
          (fun r hr => hr) (show k + 32 + 4 * patternRegs.length ≤ n.toNat by
            show k + 32 + 32 ≤ n.toNat
            omega)
        have hflags₂ : st₂.flags = subFlags (st.regs .r2) 64 := hsame₂.flags.trans hsame₁.flags
        have hr2₂ : st₂.regs .r2 = st.regs .r2 - 64 := by
          rw [hsame₂.regs _ (by decide), hsame₁.regs _ (by decide)]
          rfl
        have hfilled : Filling start s n c (k + 32 + 32) st₂ := h₂
        have hpattern₂ : HoldPattern c st₂ :=
          (hpattern'.same hsame₁.regs).same hsame₂.regs
        apply ensures_op (hge.trans (decide_eq_true hround)) hexec₁
        apply ensures_op _ hexec₂
        · by_cases hmore : 64 < left
          · apply ensures_branch
            · rw [hflags₂, hgt, decide_eq_true hmore]
            · rw [codeAt_loop]
              refine ih (n.toNat - (k + 32 + 32)) (by omega) hfilled hpattern₂ (haligned₁.add 8) ?_
                rfl
              rw [hr2₂, hnext]
              omega
          · -- the count has become 0
            have hlast : left = 64 := by omega
            apply ensures_pass
            · rw [hflags₂, hgt, decide_eq_false hmore]
            · apply ensures_branch
              · rw [hflags₂, heq, decide_eq_true hlast]
              · rw [codeAt_done]
                have hall : k + 32 + 32 = n.toNat := by omega
                rw [hall] at hfilled
                exact ensures_done hsp hfilled
        · rw [hsame₁.flags]
          exact hge.trans (decide_eq_true hround)
      · apply ensures_skip (hge.trans (decide_eq_false hround))
        apply ensures_skip (hge.trans (decide_eq_false hround))
        apply ensures_pass
        · rw [hgt, decide_eq_false (by omega)]
        · apply ensures_words hsp hcounted hpattern' haligned
          · show (st.regs .r2 - 64).toNat % 64 = _
            rw [hnext]
            omega
          · rw [heq, decide_eq_false (by omega)]

/-- The pattern is made from a register that holds the byte alone. -/
theorem ensures_copies {rest : List (Line MemsetLabel)} {post : ArmState → Prop}
    (h : Filling start s n c k st) (hr1 : st.regs .r1 = c.toUInt32)
    (hrest : ∀ st', Filling start s n c k st' → HoldPattern c st' →
      st'.regs .r2 = st.regs .r2 → Ensures memsetCode rest st' post) :
    Ensures memsetCode (memsetPattern ++ rest) st post := by
  let w := st.regs .r1 ||| st.regs .r1 <<< 8 ||| (st.regs .r1 ||| st.regs .r1 <<< 8) <<< 16
  have hbytes : ∀ j < 4, wordByte w j = c := by
    intro j hj
    have hword : w = Memory.loadWord (fun _ => c) 0 := by
      show st.regs .r1 ||| st.regs .r1 <<< 8 ||| (st.regs .r1 ||| st.regs .r1 <<< 8) <<< 16 = _
      rw [hr1, Memory.loadWord]
      apply UInt32.toBitVec_inj.1
      apply BitVec.eq_of_getLsbD_eq
      intro i hi
      simp [hi]
      grind
    rw [hword]
    exact Memory.wordByte_loadWord hj
  apply ensures_label
  apply ensures_op rfl rfl
  apply ensures_op rfl rfl
  apply ensures_op rfl rfl
  apply ensures_op rfl rfl
  apply ensures_op rfl rfl
  apply ensures_op rfl rfl
  apply ensures_op rfl rfl
  apply ensures_op rfl rfl
  apply ensures_op rfl rfl
  have hbyte : w.toUInt8 = c := hbytes 0 (by decide)
  refine hrest _ ⟨h.r0, h.ip, hbyte, h.sp, h.memory, h.le⟩ ?_ rfl
  simp only [HoldPattern, patternRegs, List.forall_mem_cons, List.not_mem_nil, false_implies,
    implies_true, and_true]
  exact ⟨hbytes, hbytes, hbytes, hbytes, hbytes, hbytes, hbytes, hbytes⟩

/-- From the pattern on. -/
theorem ensures_pattern (hsp : start.regs .sp % 4 = 0) (hn : n.toNat < 2147483648)
    (h : Filling start s n c k st) (hr1 : st.regs .r1 = c.toUInt32) (haligned : AlignedAt s k)
    (hcount : (st.regs .r2).toNat = n.toNat - k) :
    Ensures memsetCode (memsetPattern ++ (memsetLoop ++ (memsetWords ++ (memsetBytes ++
      memsetDone)))) st (MemsetDone start s n c) := by
  refine ensures_copies h hr1 fun st' h' hpattern hr2 => ?_
  exact ensures_loop hsp hn h' hpattern haligned ((congrArg UInt32.toNat hr2).trans hcount)

/-- The bytes up to a multiple of 4: as many as the address is short of it. -/
theorem ensures_head (hsp : start.regs .sp % 4 = 0) (hn : n.toNat < 2147483648)
    (h : Filling start s n c 0 st) (hr1 : st.regs .r1 = c.toUInt32)
    (hr2 : st.regs .r2 = n - 4) (hr3 : (st.regs .r3).toNat = s.toNat % 4)
    (hoffset : s.toNat % 4 ≠ 0) (hfour : 4 ≤ n.toNat) :
    Ensures memsetCode ([.op .al (.cmp .r3 2), .op .lt (.strb .r1 .ip 1),
      .op .le (.strb .r1 .ip 1), .op .al (.strb .r1 .ip 1), .op .al (.add .r2 .r2 .r3)] ++
        (memsetPattern ++ (memsetLoop ++ (memsetWords ++ (memsetBytes ++ memsetDone))))) st
      (MemsetDone start s n c) := by
  have htwo : (2 : UInt32).toNat = 2 := rfl
  have hsmall : (st.regs .r3).toNat < 2147483648 := by omega
  have hlt : Cond.lt.holds (subFlags (st.regs .r3) 2) = decide (s.toNat % 4 < 2) := by
    rw [holds_lt hsmall (by decide), hr3, htwo]
  have hle : Cond.le.holds (subFlags (st.regs .r3) 2) = decide (s.toNat % 4 ≤ 2) := by
    rw [holds_le hsmall (by decide), hr3, htwo]
  apply ensures_op rfl rfl
  apply ensures_strb hlt (h.withFlags _) (fun _ => by omega)
  intro st₁ h₁ hsame₁
  have hflags₁ : st₁.flags = subFlags (st.regs .r3) 2 := hsame₁.flags
  have hone₁ : (decide (s.toNat % 4 < 2)).toNat ≤ 1 := Bool.toNat_le _
  apply ensures_strb (hflags₁ ▸ hle) h₁ (fun _ => by omega)
  intro st₂ h₂ hsame₂
  have hone₂ : (decide (s.toNat % 4 ≤ 2)).toNat ≤ 1 := Bool.toNat_le _
  apply ensures_strb (b := true) rfl h₂ (fun _ => by omega)
  intro st₃ h₃ hsame₃
  -- the three conditions count the bytes
  have hstored : 0 + (decide (s.toNat % 4 < 2)).toNat + (decide (s.toNat % 4 ≤ 2)).toNat +
      true.toNat = 4 - s.toNat % 4 := by
    have hcases : s.toNat % 4 = 1 ∨ s.toNat % 4 = 2 ∨ s.toNat % 4 = 3 := by omega
    rcases hcases with h | h | h
    · rw [h]; rfl
    · rw [h]; rfl
    · rw [h]; rfl
  rw [hstored] at h₃
  have hkept (r : Reg) (hr : r ≠ .ip) : st₃.regs r = st.regs r := by
    rw [hsame₃.regs r hr, hsame₂.regs r hr, hsame₁.regs r hr]
  apply ensures_op rfl rfl
  refine ensures_pattern hsp hn ⟨h₃.r0, h₃.ip, h₃.byte, h₃.sp, h₃.memory, h₃.le⟩ ?_ ?_ ?_
  · exact (hkept .r1 (by decide)).trans hr1
  · unfold AlignedAt
    omega
  · show (st₃.regs .r2 + st₃.regs .r3).toNat = _
    have hfourNat : (4 : UInt32).toNat = 4 := rfl
    rw [hkept .r2 (by decide), hkept .r3 (by decide), hr2, UInt32.toNat_add, UInt32.toNat_sub, hr3,
      hfourNat]
    omega

/-- The registers have been saved, and the address is known to be a multiple of 4 or not. -/
theorem ensures_entry {post : ArmState → Prop} (h : MemsetCall start s n c) (m : UInt32)
    (haligned : s.toNat % 4 = 0 → ∀ st, Filling start s m c 0 st → st.regs .r1 = c.toUInt32 →
      st.regs .r2 = n → Ensures memsetCode (memsetPattern ++ (memsetLoop ++ (memsetWords ++
        (memsetBytes ++ memsetDone)))) st post)
    (hoffset : s.toNat % 4 ≠ 0 → ∀ st, Filling start s m c 0 st → st.regs .r1 = c.toUInt32 →
      st.regs .r2 = n - 4 → (st.regs .r3).toNat = s.toNat % 4 → st.flags = subFlags n 4 →
      Ensures memsetCode (memsetEntry.drop 5 ++ (memsetPattern ++ (memsetLoop ++ (memsetWords ++
        (memsetBytes ++ memsetDone))))) st post) :
    Ensures memsetCode memsetCode start post := by
  have hmod : ¬ (start.regs .sp - bytesOf savedRegs) % 4 ≠ 0 := fun hne =>
    hne (saveArea_mod h.sp)
  have hexec : (Op.stmfd .sp savedRegs).exec start =
      some { start.set .sp (saveArea start) with memory := pushed start } := if_neg hmod
  have hthree : (3 : UInt32).toNat = 2 ^ 2 - 1 := rfl
  have hlow : (start.regs .r0 &&& 3).toNat = s.toNat % 4 := by
    rw [h.r0, UInt32.toNat_and, hthree, Nat.and_two_pow_sub_one_eq_mod]
  have hip : start.regs .r0 = s + UInt32.ofNat 0 := h.r0.trans (UInt32.add_zero s).symm
  have hbyte : (start.regs .r1).toUInt8 = c := by rw [h.r1, UInt8.toUInt8_toUInt32]
  apply ensures_op rfl hexec
  apply ensures_op rfl rfl
  apply ensures_op rfl rfl
  by_cases haligned' : s.toNat % 4 = 0
  · -- aligned already
    apply ensures_branch
    · show (start.regs .r0 &&& 3 == 0) = true
      rw [beq_iff_eq, ← UInt32.toNat_inj, hlow]
      exact haligned'
    · rw [codeAt_aligned4]
      exact haligned haligned' _
        ⟨h.r0, hip, hbyte, rfl, Memory.fill_zero.symm, Nat.zero_le _⟩ h.r1 h.r2
  · apply ensures_pass
    · show (start.regs .r0 &&& 3 == 0) = false
      rw [beq_eq_false_iff_ne, ne_eq, ← UInt32.toNat_inj, hlow]
      exact haligned'
    · apply ensures_op rfl rfl
      exact hoffset haligned' _
        ⟨h.r0, hip, hbyte, rfl, Memory.fill_zero.symm, Nat.zero_le _⟩ h.r1
        (congrArg (· - 4) h.r2) hlow (congrArg (subFlags · 4) h.r2)

/-- The whole routine. -/
theorem ensures_memset (h : MemsetCall start s n c) (hn : n.toNat < 2147483648) :
    Ensures memsetCode memsetCode start (MemsetDone start s n c) := by
  have hfourNat : (4 : UInt32).toNat = 4 := rfl
  refine ensures_entry h n (fun haligned st h' hr1 hr2 => ?_)
    fun hoffset st h' hr1 hr2 hr3 hflags => ?_
  · exact ensures_pattern h.sp hn h' hr1 haligned (congrArg UInt32.toNat hr2)
  · have hlt : Cond.lt.holds st.flags = decide (n.toNat < 4) := by
      rw [hflags, holds_lt hn (by decide), hfourNat]
    by_cases hshort : n.toNat < 4
    · apply ensures_branch (hlt.trans (decide_eq_true hshort))
      rw [codeAt_lessthan4]
      refine ensures_bytes h.sp h' ?_
      rw [hr2, UInt32.toNat_sub, hfourNat]
      omega
    · apply ensures_pass (hlt.trans (decide_eq_false hshort))
      exact ensures_head h.sp hn h' hr1 hr2 hr3 hoffset (Nat.le_of_not_lt hshort)

/-- The bytes that are stored. A length from 2^31 on is negative in the comparisons: the routine
comes to its tail at once, which only looks at the lowest bits. -/
def memsetCount (s n : Nat) : Nat :=
  if n < 2147483648 then n else if s % 4 = 0 then n % 64 else n % 4

/-- A length from 2^31 on. -/
theorem ensures_memset_long (h : MemsetCall start s n c) (hn : 2147483648 ≤ n.toNat) :
    Ensures memsetCode memsetCode start
      (MemsetDone start s (UInt32.ofNat (memsetCount s.toNat n.toNat)) c) := by
  have hlt := n.toNat_lt
  have hfourNat : (4 : UInt32).toNat = 4 := rfl
  obtain ⟨m, hm⟩ : ∃ m, m = UInt32.ofNat (memsetCount s.toNat n.toNat) := ⟨_, rfl⟩
  have hcount : m.toNat = if s.toNat % 4 = 0 then n.toNat % 64 else n.toNat % 4 := by
    rw [hm, memsetCount, if_neg (Nat.not_lt.2 hn), UInt32.toNat_ofNat']
    split <;> omega
  rw [← hm]
  refine ensures_entry h m (fun haligned st h' hr1 hr2 => ?_)
    fun hoffset st h' hr1 hr2 hr3 hflags => ?_
  · rw [if_pos haligned] at hcount
    refine ensures_copies h' hr1 fun st' h' hpattern hr2' => ?_
    have hnext : st'.regs .r2 = n := hr2'.trans hr2
    obtain ⟨-, hge, hgt⟩ : Cond.lt.holds (subFlags (st'.regs .r2) 64) = true ∧
        Cond.ge.holds (subFlags (st'.regs .r2) 64) = false ∧
        Cond.gt.holds (subFlags (st'.regs .r2) 64) = false := by
      rw [hnext]
      exact holds_of_negative hn (by decide)
    -- no round of the loop
    apply ensures_label
    apply ensures_op rfl rfl
    apply ensures_skip hge
    apply ensures_skip hge
    apply ensures_pass hgt
    refine ensures_words h.sp ⟨h'.r0, h'.ip, h'.byte, h'.sp, h'.memory, h'.le⟩ ?_ haligned ?_ ?_
    · exact hpattern.counted _ _
    · show (st'.regs .r2 - 64).toNat % 64 = _
      rw [hnext, UInt32.toNat_sub, toNat_sixtyFour, hcount]
      omega
    · show Cond.eq.holds (subFlags (st'.regs .r2) 64) = false
      rw [hnext, holds_eq, toNat_sixtyFour, decide_eq_false]
      omega
  · rw [if_neg hoffset] at hcount
    apply ensures_branch
    · rw [hflags]
      exact (holds_of_negative hn (by decide)).1
    · rw [codeAt_lessthan4]
      refine ensures_bytes h.sp h' ?_
      rw [hr2, UInt32.toNat_sub, hfourNat, hcount]
      omega

/-- For every length the routine stores as many bytes as `memsetCount` says. -/
theorem ensures_memsetCount (h : MemsetCall start s n c) :
    Ensures memsetCode memsetCode start
      (MemsetDone start s (UInt32.ofNat (memsetCount s.toNat n.toNat)) c) := by
  by_cases hn : n.toNat < 2147483648
  · have hcount : UInt32.ofNat (memsetCount s.toNat n.toNat) = n := by
      rw [memsetCount, if_pos hn, UInt32.ofNat_toNat]
    rw [hcount]
    exact ensures_memset h hn
  · exact ensures_memset_long h (Nat.le_of_not_lt hn)

end Parts

/-- `memset` returns, and has left memory as `memset_byte` leaves a memory into which the registers
have been saved: the block holds the byte, and outside the block and the 24 bytes below the stack
pointer nothing has changed. -/
theorem memset_arm_eq {start : ArmState} {s n : UInt32} {c : UInt8} (h : MemsetCall start s n c)
    (hn : n.toNat < 2147483648) :
    ∃ fuel st, run memsetCode fuel memsetCode start = some st ∧ MemsetDone start s n c st ∧
      (∀ a, InBlock s n a → st.memory a = c) ∧
      ∀ a, ¬ InBlock s n a → ¬ distance (saveArea start) a < 24 →
        st.memory a = start.memory a := by
  obtain ⟨fuel, st, hrun, hdone⟩ := ensures_memset h hn
  have hmemory : st.memory = (pushed start).fill s n.toNat c := by
    rw [hdone.memory, memsetByte_eq, UInt8.toUInt8_toUInt32]
  refine ⟨fuel, st, hrun, hdone, ?_, ?_⟩
  · intro a ha
    rw [hmemory]
    exact if_pos ha
  · intro a ha hsaved
    have hlength : 4 * (savedRegs.map start.regs).length = 24 := by
      rw [List.length_map]
      rfl
    have hkept : (pushed start).fill s n.toNat c a = pushed start a := if_neg ha
    rw [hmemory, hkept]
    exact Memory.storeWords_outside (by rw [hlength]; decide) (by rwa [hlength])

/-- A call that fills 5 bytes at an odd address. -/
def fiveBytes : ArmState where
  regs r := match r with
    | .r0 => 0x1001
    | .r1 => 7
    | .r2 => 5
    | .r4 => 1
    | .sp => 0x8000
    | _ => 0
  flags := ⟨false, false, false, false⟩
  memory := fun _ => 0

theorem memsetCall_fiveBytes : MemsetCall fiveBytes 0x1001 5 7 := ⟨rfl, rfl, rfl, by decide⟩

theorem memset_arm_eq_five : ∃ fuel st, run memsetCode fuel memsetCode fiveBytes = some st ∧
    MemsetDone fiveBytes 0x1001 5 7 st ∧ (∀ a, InBlock 0x1001 5 a → st.memory a = 7) ∧
    ∀ a, ¬ InBlock 0x1001 5 a → ¬ distance (saveArea fiveBytes) a < 24 →
      st.memory a = fiveBytes.memory a :=
  memset_arm_eq memsetCall_fiveBytes (by decide)

/-- The registers that are saved stay behind in the memory below the stack pointer. -/
theorem not_memset_arm_eq_memsetByte : ¬ ∀ (start : ArmState) (s n : UInt32) (c : UInt8),
    MemsetCall start s n c → n.toNat < 2147483648 → NoWrap s n →
      ∃ fuel st, run memsetCode fuel memsetCode start = some st ∧
        st.memory = memsetByte start.memory s c.toUInt32 n := by
  intro hall
  obtain ⟨fuel, st, hrun, hmemory⟩ :=
    hall fiveBytes 0x1001 5 7 memsetCall_fiveBytes (by decide) (by decide)
  obtain ⟨fuel', st', hrun', hdone⟩ := ensures_memset memsetCall_fiveBytes (by decide)
  obtain rfl := run_unique hrun hrun'
  have hsaved := congrFun (hmemory.symm.trans hdone.memory) 0x7fe8
  rw [memsetByte_eq, memsetByte_eq] at hsaved
  revert hsaved
  decide

end Vmwos
