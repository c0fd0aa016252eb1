import Vmwos.Library.ArmArithmetic
import Vmwos.Library.ShiftSubtract

/-!
# Division in assembler

The division routines of the C library, for processors without an instruction for it:
`__aeabi_uidiv`, `__umodsi3`, `__aeabi_idiv`, `__modsi3`, `__aeabi_uidivmod` and `__aeabi_idivmod`.
-/

set_option autoImplicit false

namespace Vmwos

namespace DivisionArm

open Library Library.ArmArithmetic
open Library.Arm (Reg Flags ArmState subFlags)

/-! ## The listing -/

/-- The routines and the labels in them. -/
inductive DivLabel where
  | uidiv | uidivLoop | uidiv11 | uidiv12
  | umod | umod1 | umod2 | umod3 | umod4 | umod5
  | idiv | idivLoop | idiv10 | idiv11 | idiv12
  | mod | mod1 | mod2 | mod3 | mod4 | mod5 | mod10
  | uidivmod
  | idivmod
  | ldiv0
  | div0
  deriving DecidableEq, Repr

section Macros

variable (dividend divisor result curbit order spare : Reg)

/-- The first part of `ARM_DIV_BODY` -/
def divAlign : List (Line DivLabel) :=
  [.op .al (.clz curbit divisor),
    .op .al (.clz result dividend),
    .op .al (.sub result curbit (.reg result)),
    .op .al (.mov curbit (.imm 1)),
    .op .al (.mov divisor (.lslBy divisor result)),
    .op .al (.mov curbit (.lslBy curbit result)),
    .op .al (.mov result (.imm 0))]

/-- The loop of `ARM_DIV_BODY` -/
def divLoop (again : DivLabel) : List (Line DivLabel) :=
  [.op .al (.cmp dividend (.reg divisor)),
    .op .hs (.sub dividend dividend (.reg divisor)),
    .op .hs (.orr result result (.reg curbit)),
    .op .al (.cmp dividend (.lsr divisor 1)),
    .op .hs (.sub dividend dividend (.lsr divisor 1)),
    .op .hs (.orr result result (.lsr curbit 1)),
    .op .al (.cmp dividend (.lsr divisor 2)),
    .op .hs (.sub dividend dividend (.lsr divisor 2)),
    .op .hs (.orr result result (.lsr curbit 2)),
    .op .al (.cmp dividend (.lsr divisor 3)),
    .op .hs (.sub dividend dividend (.lsr divisor 3)),
    .op .hs (.orr result result (.lsr curbit 3)),
    .op .al (.cmp dividend (.imm 0)),
    .op .ne (.movs curbit (.lsr curbit 4)),
    .op .ne (.mov divisor (.lsr divisor 4)),
    .branch .ne again]

/-- `ARM_DIV_BODY` -/
def armDivBody (again : DivLabel) : List (Line DivLabel) :=
  divAlign dividend divisor result curbit ++
    .label again :: divLoop dividend divisor result curbit again

/-- `ARM_DIV2_ORDER` -/
def armDiv2Order : List (Line DivLabel) :=
  [.op .al (.clz order divisor),
    .op .al (.rsb order order (.imm 31))]

/-- The first part of `ARM_MOD_BODY` -/
def modAlign (two : DivLabel) : List (Line DivLabel) :=
  [.op .al (.clz order divisor),
    .op .al (.clz spare dividend),
    .op .al (.sub order order (.reg spare)),
    .op .al (.mov divisor (.lslBy divisor order)),
    .op .al (.subs order order (.imm 3)),
    .branch .lt two]

/-- The loop of `ARM_MOD_BODY` -/
def modLoop (one five : DivLabel) : List (Line DivLabel) :=
  [.op .al (.cmp dividend (.reg divisor)),
    .op .hs (.sub dividend dividend (.reg divisor)),
    .op .al (.cmp dividend (.lsr divisor 1)),
    .op .hs (.sub dividend dividend (.lsr divisor 1)),
    .op .al (.cmp dividend (.lsr divisor 2)),
    .op .hs (.sub dividend dividend (.lsr divisor 2)),
    .op .al (.cmp dividend (.lsr divisor 3)),
    .op .hs (.sub dividend dividend (.lsr divisor 3)),
    .op .al (.cmp dividend (.imm 1)),
    .op .al (.mov divisor (.lsr divisor 4)),
    .op .ge (.subs order order (.imm 4)),
    .branch .ge one,
    .op .al (.tst order (.imm 3)),
    .op .ne (.teq dividend (.imm 0)),
    .branch .eq five]

/-- The last part of `ARM_MOD_BODY` -/
def modTail (three four five : DivLabel) : List (Line DivLabel) :=
  [.op .al (.cmn order (.imm 2)),
    .branch .lt four,
    .branch .eq three,
    .op .al (.cmp dividend (.reg divisor)),
    .op .hs (.sub dividend dividend (.reg divisor)),
    .op .al (.mov divisor (.lsr divisor 1)),
    .label three,
    .op .al (.cmp dividend (.reg divisor)),
    .op .hs (.sub dividend dividend (.reg divisor)),
    .op .al (.mov divisor (.lsr divisor 1)),
    .label four,
    .op .al (.cmp dividend (.reg divisor)),
    .op .hs (.sub dividend dividend (.reg divisor)),
    .label five]

/-- `ARM_MOD_BODY` -/
def armModBody (one two three four five : DivLabel) : List (Line DivLabel) :=
  modAlign dividend divisor order spare two ++
    .label one :: modLoop dividend divisor order one five ++
    .label two :: modTail dividend divisor order three four five

end Macros

/-! `link` is the address behind the call in a routine. -/

section Routines

variable (link : DivLabel → UInt32)

/-- `__aeabi_uidiv`, which is `__udivsi3` -/
def aeabiUidiv : List (Line DivLabel) :=
  [.label .uidiv,
    .op .al (.subs .r2 .r1 (.imm 1)),
    .ret .eq,
    .branch .lo .ldiv0,
    .op .al (.cmp .r0 (.reg .r1)),
    .branch .ls .uidiv11,
    .op .al (.tst .r1 (.reg .r2)),
    .branch .eq .uidiv12] ++
  armDivBody .r0 .r1 .r2 .r3 .uidivLoop ++
  [.op .al (.mov .r0 (.reg .r2)),
    .ret .al,
    .label .uidiv11,
    .op .eq (.mov .r0 (.imm 1)),
    .op .ne (.mov .r0 (.imm 0)),
    .ret .al,
    .label .uidiv12] ++
  armDiv2Order .r1 .r2 ++
  [.op .al (.mov .r0 (.lsrBy .r0 .r2)),
    .ret .al]

/-- `__umodsi3` -/
def umodsi3 : List (Line DivLabel) :=
  [.label .umod,
    .op .al (.subs .r2 .r1 (.imm 1)),
    .branch .lo .ldiv0,
    .op .ne (.cmp .r0 (.reg .r1)),
    .op .eq (.mov .r0 (.imm 0)),
    .op .hi (.tst .r1 (.reg .r2)),
    .op .eq (.and .r0 .r0 (.reg .r2)),
    .ret .ls] ++
  armModBody .r0 .r1 .r2 .r3 .umod1 .umod2 .umod3 .umod4 .umod5 ++
  [.ret .al]

/-- `__aeabi_idiv`, which is `__divsi3` -/
def aeabiIdiv : List (Line DivLabel) :=
  [.label .idiv,
    .op .al (.cmp .r1 (.imm 0)),
    .op .al (.eor .ip .r0 (.reg .r1)),
    .branch .eq .ldiv0,
    .op .mi (.rsb .r1 .r1 (.imm 0)),
    .op .al (.subs .r2 .r1 (.imm 1)),
    .branch .eq .idiv10,
    .op .al (.movs .r3 (.reg .r0)),
    .op .mi (.rsb .r3 .r0 (.imm 0)),
    .op .al (.cmp .r3 (.reg .r1)),
    .branch .ls .idiv11,
    .op .al (.tst .r1 (.reg .r2)),
    .branch .eq .idiv12] ++
  armDivBody .r3 .r1 .r0 .r2 .idivLoop ++
  [.op .al (.cmp .ip (.imm 0)),
    .op .mi (.rsb .r0 .r0 (.imm 0)),
    .ret .al,
    .label .idiv10,
    .op .al (.teq .ip (.reg .r0)),
    .op .mi (.rsb .r0 .r0 (.imm 0)),
    .ret .al,
    .label .idiv11,
    .op .lo (.mov .r0 (.imm 0)),
    .op .eq (.mov .r0 (.asr .ip 31)),
    .op .eq (.orr .r0 .r0 (.imm 1)),
    .ret .al,
    .label .idiv12] ++
  armDiv2Order .r1 .r2 ++
  [.op .al (.cmp .ip (.imm 0)),
    .op .al (.mov .r0 (.lsrBy .r3 .r2)),
    .op .mi (.rsb .r0 .r0 (.imm 0)),
    .ret .al]

/-- `__modsi3` -/
def modsi3 : List (Line DivLabel) :=
  [.label .mod,
    .op .al (.cmp .r1 (.imm 0)),
    .branch .eq .ldiv0,
    .op .mi (.rsb .r1 .r1 (.imm 0)),
    .op .al (.movs .ip (.reg .r0)),
    .op .mi (.rsb .r0 .r0 (.imm 0)),
    .op .al (.subs .r2 .r1 (.imm 1)),
    .op .ne (.cmp .r0 (.reg .r1)),
    .op .eq (.mov .r0 (.imm 0)),
    .op .hi (.tst .r1 (.reg .r2)),
    .op .eq (.and .r0 .r0 (.reg .r2)),
    .branch .ls .mod10] ++
  armModBody .r0 .r1 .r2 .r3 .mod1 .mod2 .mod3 .mod4 .mod5 ++
  [.label .mod10,
    .op .al (.cmp .ip (.imm 0)),
    .op .mi (.rsb .r0 .r0 (.imm 0)),
    .ret .al]

/-- `__aeabi_uidivmod` and `__aeabi_idivmod` -/
def divmod (name division : DivLabel) : List (Line DivLabel) :=
  [.label name,
    .op .al (.push [.r0, .r1, .ip, .lr]),
    .call division (link name),
    .op .al (.pop [.r1, .r2, .ip, .lr]),
    .op .al (.mul .r3 .r0 .r2),
    .op .al (.sub .r1 .r1 (.reg .r3)),
    .ret .al]

/-- `Ldiv0` and `__div0`, which forces a fault. -/
def divideByZero : List (Line DivLabel) :=
  [.label .ldiv0,
    .op .al (.strDown .lr 8),
    .call .div0 (link .ldiv0),
    .op .al (.mov .r0 (.imm 0)),
    .op .al (.ldrUp .lr 8),
    .ret .al,
    .label .div0,
    .op .al (.mov .r0 (.imm 0)),
    .op .al (.ldr .r0 .r0),
    .ret .al]

/-- `idiv.s` -/
def idivCode : List (Line DivLabel) :=
  aeabiUidiv ++ umodsi3 ++ aeabiIdiv ++ modsi3 ++ divmod link .uidivmod .uidiv ++
    divmod link .idivmod .idiv ++ divideByZero link

end Routines

/-! ## The loop of `ARM_DIV_BODY` -/

section DivBody

variable {program rest : List (Line DivLabel)} {post : ArmState → Prop} {s : ArmState}
  {dividend divisor result curbit : Reg} {again : DivLabel} {A d k t j : Nat} {o o' : Operand}

theorem two_pow_div_ne_zero {k j : Nat} : ¬ 2 ^ k / 2 ^ j = 0 ↔ j ≤ k := by
  rw [Nat.div_eq_zero_iff_lt (Nat.two_pow_pos j), Nat.pow_lt_pow_iff_right (by decide), Nat.not_lt]

/-- What the registers hold when `t` bits of the quotient have not been found: the divisor and a bit
are shifted by `k`. -/
structure DivRegs (dividend divisor result curbit : Reg) (A d k t : Nat) (s : ArmState) : Prop where
  fits : d * 2 ^ k < 4294967296
  divisor : (s.regs divisor).toNat = d * 2 ^ k
  curbit : (s.regs curbit).toNat = 2 ^ k
  found : QuotientFound A d (s.regs dividend).toNat (s.regs result).toNat t

theorem two_pow_div {k j : Nat} (hj : j ≤ k) : 2 ^ k / 2 ^ j = 2 ^ (k - j) :=
  Nat.pow_div hj (by decide)

theorem mul_two_pow_div (d : Nat) {k j : Nat} (hj : j ≤ k) : d * 2 ^ k / 2 ^ j = d * 2 ^ (k - j) := by
  rw [Nat.mul_div_assoc d (Nat.pow_dvd_pow 2 hj), two_pow_div hj]

/-- One bit of the quotient, or none when the bit has been shifted out. -/
theorem found_step {n q : Nat} (hd : 0 < d) (h : QuotientFound A d n q (k + 1 - j)) :
    QuotientFound A d (if d * 2 ^ k / 2 ^ j ≤ n then n - d * 2 ^ k / 2 ^ j else n)
      (if d * 2 ^ k / 2 ^ j ≤ n then q ||| 2 ^ k / 2 ^ j else q) (k - j) := by
  by_cases hj : j ≤ k
  · have hleft : k + 1 - j = k - j + 1 := by omega
    rw [hleft] at h
    rw [mul_two_pow_div d hj, two_pow_div hj]
    exact h.next_bit hd
  · have hleft : k + 1 - j = 0 := by omega
    have hnone : k - j = 0 := by omega
    have hout : 2 ^ k / 2 ^ j = 0 :=
      Nat.div_eq_of_lt (Nat.pow_lt_pow_right (by decide) (by omega))
    rw [hleft] at h
    rw [hout, Nat.or_zero, ite_self, hnone]
    exact h

/-- The comparison with the divisor, shifted back by `j`, and what depends on it. -/
theorem DivRegs.step (hd : 0 < d) (hnodup : [dividend, divisor, result, curbit].Nodup) (hj : j < 4)
    (ho : ∀ regs f, o.value regs f = shiftRight (regs divisor) j)
    (ho' : ∀ regs f, o'.value regs f = shiftRight (regs curbit) j)
    (h : DivRegs dividend divisor result curbit A d k (k + 1 - j) s)
    (hrest : ∀ s', Kept [dividend, divisor, result, curbit] s s' →
      DivRegs dividend divisor result curbit A d k (k - j) s' → Ensures program rest s' post) :
    Ensures program (.op .al (.cmp dividend o) :: .op .hs (.sub dividend dividend o) ::
      .op .hs (.orr result result o') :: rest) s post := by
  simp only [List.nodup_cons, List.mem_cons, List.not_mem_nil, or_false, not_or] at hnodup
  obtain ⟨⟨hne₁, hne₂, hne₃⟩, ⟨hne₄, hne₅⟩, hne₆, -⟩ := hnodup
  obtain ⟨hfits, hdivisor, hcurbit, hfound⟩ := h
  have hshifted : (shiftRight (s.regs divisor) j).toNat = d * 2 ^ k / 2 ^ j := by
    rw [toNat_shiftRight (by omega), hdivisor]
  have hbit : (shiftRight (s.regs curbit) j).toNat = 2 ^ k / 2 ^ j := by
    rw [toNat_shiftRight (by omega), hcurbit]
  have hstep := found_step hd hfound
  have hkept := Kept.refl [dividend, divisor, result, curbit] s
  refine ensures_op rfl exec_test ?_
  rw [ho]
  by_cases hle : shiftRight (s.regs divisor) j ≤ s.regs dividend
  · have hle' : d * 2 ^ k / 2 ^ j ≤ (s.regs dividend).toNat := by
      rw [← hshifted]
      exact UInt32.le_iff_toNat_le.1 hle
    rw [if_pos hle', if_pos hle'] at hstep
    have hc : Cond.hs.holds (subFlags (s.regs dividend) (shiftRight (s.regs divisor) j)) = true :=
      decide_eq_true hle
    refine ensures_op hc exec_data (ensures_op hc exec_data (hrest _ ?_ ?_))
    · exact ((hkept.setFlags _).put (by simp) _ _).put (by simp) _ _
    · refine ⟨hfits, ?_, ?_, ?_⟩
      · simpa [hne₁, Ne.symm hne₁, hne₄, Ne.symm hne₄] using hdivisor
      · simpa [hne₆, Ne.symm hne₆, hne₃, Ne.symm hne₃] using hcurbit
      · have hsub := UInt32.toNat_sub_of_le _ _ hle
        rw [hshifted] at hsub
        simpa [Data.result, ho, ho', hne₁, hne₂, hne₃, Ne.symm hne₁, Ne.symm hne₂, Ne.symm hne₃,
          hsub, hbit] using hstep
  · have hle' : ¬ d * 2 ^ k / 2 ^ j ≤ (s.regs dividend).toNat := by
      rw [← hshifted]
      exact mt UInt32.le_iff_toNat_le.2 hle
    rw [if_neg hle', if_neg hle'] at hstep
    have hc : Cond.hs.holds (subFlags (s.regs dividend) (shiftRight (s.regs divisor) j)) = false :=
      decide_eq_false hle
    exact ensures_skip hc (ensures_skip hc (hrest _ (hkept.setFlags _)
      ⟨hfits, hdivisor, hcurbit, hstep⟩))

/-- The loop finds the quotient. -/
theorem ensures_divLoop (hd : 0 < d) (hnodup : [dividend, divisor, result, curbit].Nodup)
    (hcode : codeAt program again =
      .label again :: (divLoop dividend divisor result curbit again ++ rest))
    (h : DivRegs dividend divisor result curbit A d k (k + 1) s)
    (hrest : ∀ s', Kept [dividend, divisor, result, curbit] s s' →
      (s'.regs result).toNat = A / d → Ensures program rest s' post) :
    Ensures program (divLoop dividend divisor result curbit again ++ rest) s post := by
  have hregs := hnodup
  simp only [List.nodup_cons, List.mem_cons, List.not_mem_nil, or_false, not_or] at hregs
  obtain ⟨⟨hne₁, hne₂, hne₃⟩, ⟨hne₄, hne₅⟩, hne₆, -⟩ := hregs
  induction k using Nat.strong_induction_on generalizing s with
  | h k ih =>
      have hzero (w : UInt32) : w = shiftRight w 0 := UInt32.shiftRight_zero.symm
      refine h.step hd hnodup (j := 0) (by decide) (fun _ _ => hzero _) (fun _ _ => hzero _)
        fun s₁ hk₁ h₁ => ?_
      refine h₁.step hd hnodup (j := 1) (by decide) (fun _ _ => rfl) (fun _ _ => rfl)
        fun s₂ hk₂ h₂ => ?_
      refine DivRegs.step hd hnodup (j := 2) (by decide) (fun _ _ => rfl) (fun _ _ => rfl) h₂
        fun s₃ hk₃ h₃ => ?_
      refine h₃.step hd hnodup (j := 3) (by decide) (fun _ _ => rfl) (fun _ _ => rfl)
        fun s₄ hk₄ h₄ => ?_
      have hk := ((hk₁.trans hk₂).trans hk₃).trans hk₄
      obtain ⟨hfits, hdivisor, hcurbit, hfound⟩ := h₄
      refine ensures_op rfl exec_test ?_
      by_cases hn : s₄.regs dividend = 0
      · -- nothing is left
        have hc : Cond.ne.holds (subFlags (s₄.regs dividend) 0) = false := by
          simp [Cond.holds, subFlags, hn]
        refine ensures_skip hc (ensures_skip hc (ensures_pass hc (hrest _ (hk.setFlags _) ?_)))
        rw [hn] at hfound
        exact hfound.exhausted hd
      · have hc : Cond.ne.holds (subFlags (s₄.regs dividend) 0) = true := by
          simp [Cond.holds, subFlags, hn]
        refine ensures_op hc exec_move_flags ?_
        have hbit : (shiftRight (s₄.regs curbit) 4).toNat = 2 ^ k / 2 ^ 4 := by
          rw [toNat_shiftRight (by decide), hcurbit]
        have hne : Cond.ne.holds (Arm.logicFlags (shiftRight (s₄.regs curbit) 4) s₄.flags) =
            decide (4 ≤ k) := by
          rw [Bool.eq_iff_iff, decide_eq_true_iff]
          change (!(shiftRight (s₄.regs curbit) 4 == 0)) = true ↔ 4 ≤ k
          rw [Bool.not_eq_true', beq_eq_false_iff_ne, ne_eq, ← UInt32.toNat_inj, hbit]
          exact two_pow_div_ne_zero
        have hkept (f : Flags) : Kept [dividend, divisor, result, curbit] s (put (setFlags s₄
            (subFlags (s₄.regs dividend) 0)) curbit (shiftRight (s₄.regs curbit) 4) f) :=
          (hk.setFlags _).put (by simp) _ _
        by_cases hk4 : 4 ≤ k
        · rw [decide_eq_true hk4] at hne
          refine ensures_op hne exec_move (ensures_branch hne ?_)
          rw [hcode]
          refine ensures_label (ih (k - 4) (by omega) ?_ fun s' hk' hq => ?_)
          · have hleft : k - 4 + 1 = k - 3 := by omega
            have hshifted : (shiftRight (s₄.regs divisor) 4).toNat = d * 2 ^ (k - 4) := by
              rw [toNat_shiftRight (by decide), hdivisor, mul_two_pow_div d hk4]
            rw [two_pow_div hk4] at hbit
            refine ⟨?_, ?_, ?_, ?_⟩
            · refine Nat.lt_of_le_of_lt (Nat.mul_le_mul_left d ?_) hfits
              exact Nat.pow_le_pow_right (by decide) (Nat.sub_le k 4)
            · simpa [Operand.value, hne₅] using hshifted
            · simpa [Operand.value, Ne.symm hne₅] using hbit
            · rw [hleft]
              simpa [hne₁, hne₃, Ne.symm hne₄, hne₆] using hfound
          · exact hrest s' (((hkept _).put (by simp) _ _).trans hk') hq
        · -- the bit has been shifted out
          rw [decide_eq_false hk4] at hne
          refine ensures_skip hne (ensures_pass hne (hrest _ (hkept _) ?_))
          have hnone : k - 3 = 0 := by omega
          rw [hnone] at hfound
          simpa [QuotientFound, hne₆] using hfound

/-- By how much the divisor is shifted. -/
theorem exists_align {a b : UInt32} (hb : b ≠ 0) (hle : b ≤ a) :
    ∃ k < 32, clz b - clz a = UInt32.ofNat k ∧ b.toNat * 2 ^ k < 4294967296 ∧
      a.toNat < b.toNat * 2 ^ (k + 1) := by
  have hd : b.toNat ≠ 0 := fun h => hb (UInt32.toNat_inj.1 h)
  have hle' := UInt32.le_iff_toNat_le.1 hle
  have hlog := log2_mono hd hle'
  have ha : a ≠ 0 := by
    rintro rfl
    exact hd (Nat.le_zero.1 hle')
  have hclz : clz a ≤ clz b := by
    rw [UInt32.le_iff_toNat_le, toNat_clz ha, toNat_clz hb]
    omega
  have hbound := log2_lt a
  refine ⟨a.toNat.log2 - b.toNat.log2, by omega, ?_, ?_, lt_mul_align hd hlog⟩
  · rw [← UInt32.toNat_inj, UInt32.toNat_sub_of_le _ _ hclz, toNat_clz ha, toNat_clz hb,
      UInt32.toNat_ofNat']
    omega
  · exact Nat.lt_of_lt_of_le (mul_align_lt hlog) (Nat.pow_le_pow_right (by decide) hbound)

theorem amount_ofNat {k : Nat} (hk : k < 32) : amount (UInt32.ofNat k) = k := by
  rw [amount, UInt32.toNat_ofNat']
  omega

theorem ensures_divAlign (hnodup : [dividend, divisor, result, curbit].Nodup)
    (hdivisor : s.regs divisor ≠ 0) (hle : s.regs divisor ≤ s.regs dividend)
    (hrest : ∀ s' k, Kept [dividend, divisor, result, curbit] s s' →
      DivRegs dividend divisor result curbit (s.regs dividend).toNat (s.regs divisor).toNat k (k + 1)
        s' → Ensures program rest s' post) :
    Ensures program (divAlign dividend divisor result curbit ++ rest) s post := by
  simp only [List.nodup_cons, List.mem_cons, List.not_mem_nil, or_false, not_or] at hnodup
  obtain ⟨⟨hne₁, hne₂, hne₃⟩, ⟨hne₄, hne₅⟩, hne₆, -⟩ := hnodup
  obtain ⟨k, hk, hclz, hfits, hbelow⟩ := exists_align hdivisor hle
  refine ensures_op rfl exec_clz (ensures_op rfl exec_clz (ensures_op rfl exec_data
    (ensures_op rfl exec_move (ensures_op rfl exec_move (ensures_op rfl exec_move
      (ensures_op rfl exec_move (hrest _ k ?_ ⟨hfits, ?_, ?_, ?_⟩)))))))
  · have hkept := Kept.refl [dividend, divisor, result, curbit] s
    exact (((((((hkept.put (by simp) _ _).put (by simp) _ _).put (by simp) _ _).put (by simp) _
      _).put (by simp) _ _).put (by simp) _ _).put (by simp) _ _)
  · rw [← toNat_shiftLeft hk hfits]
    simp [Operand.value, Data.result, hne₃, hne₄, hne₅, hne₆, Ne.symm hne₆, hclz, amount_ofNat hk]
  · have hpow : 2 ^ k < 4294967296 := @Nat.pow_lt_pow_right 2 k 32 (by decide) hk
    have hone := @toNat_shiftLeft 1 k hk (by rwa [UInt32.toNat_one, Nat.one_mul])
    rw [UInt32.toNat_one, Nat.one_mul] at hone
    rw [← hone]
    simp [Operand.value, Data.result, hne₃, hne₆, Ne.symm hne₄, Ne.symm hne₅, Ne.symm hne₆, hclz,
      amount_ofNat hk]
  · simp only [put_same, put_other hne₁, put_other hne₂, put_other hne₃, Operand.value]
    exact Dividing.start hbelow

/-- `ARM_DIV_BODY` -/
theorem ensures_armDivBody (hnodup : [dividend, divisor, result, curbit].Nodup)
    (hdivisor : s.regs divisor ≠ 0) (hle : s.regs divisor ≤ s.regs dividend)
    (hcode : codeAt program again =
      .label again :: (divLoop dividend divisor result curbit again ++ rest))
    (hrest : ∀ s', Kept [dividend, divisor, result, curbit] s s' →
      s'.regs result = s.regs dividend / s.regs divisor → Ensures program rest s' post) :
    Ensures program (armDivBody dividend divisor result curbit again ++ rest) s post := by
  have hd : 0 < (s.regs divisor).toNat :=
    Nat.pos_of_ne_zero fun h => hdivisor (UInt32.toNat_inj.1 h)
  rw [armDivBody, List.append_assoc, List.cons_append]
  refine ensures_divAlign hnodup hdivisor hle fun s₁ k hk₁ h₁ => ensures_label ?_
  refine ensures_divLoop hd hnodup hcode h₁ fun s₂ hk₂ hq => hrest s₂ (hk₁.trans hk₂) ?_
  rw [← UInt32.toNat_inj, hq, UInt32.toNat_div]

end DivBody

/-! ## `__aeabi_uidiv` -/

section Uidiv

variable {link : DivLabel → UInt32} {s : ArmState}

theorem codeAt_uidiv (link : DivLabel → UInt32) : ∃ rest,
    codeAt (idivCode link) .uidiv = .label .uidiv :: .op .al (.subs .r2 .r1 (.imm 1)) :: .ret .eq ::
      .branch .lo .ldiv0 :: .op .al (.cmp .r0 (.reg .r1)) :: .branch .ls .uidiv11 ::
      .op .al (.tst .r1 (.reg .r2)) :: .branch .eq .uidiv12 ::
      (armDivBody .r0 .r1 .r2 .r3 .uidivLoop ++ .op .al (.mov .r0 (.reg .r2)) :: .ret .al :: rest) ∧
    codeAt (idivCode link) .uidivLoop = .label .uidivLoop ::
      (divLoop .r0 .r1 .r2 .r3 .uidivLoop ++ .op .al (.mov .r0 (.reg .r2)) :: .ret .al :: rest) :=
  ⟨_, rfl, rfl⟩

theorem codeAt_uidiv11 (link : DivLabel → UInt32) : ∃ rest,
    codeAt (idivCode link) .uidiv11 = .label .uidiv11 :: .op .eq (.mov .r0 (.imm 1)) ::
      .op .ne (.mov .r0 (.imm 0)) :: .ret .al :: rest := ⟨_, rfl⟩

theorem codeAt_uidiv12 (link : DivLabel → UInt32) : ∃ rest,
    codeAt (idivCode link) .uidiv12 = .label .uidiv12 :: .op .al (.clz .r2 .r1) ::
      .op .al (.rsb .r2 .r2 (.imm 31)) :: .op .al (.mov .r0 (.lsrBy .r0 .r2)) :: .ret .al :: rest :=
  ⟨_, rfl⟩

/-- `ARM_DIV2_ORDER`: by a power of two it is divided with a shift. -/
theorem shift_order {a b : UInt32} (hb : b ≠ 0) (htwo : b &&& (b - 1) = 0) :
    shiftRight a (amount (31 - clz b)) = a / b := by
  have hclz := toNat_clz hb
  have hlog := log2_lt b
  have hle : clz b ≤ 31 := by
    rw [UInt32.le_iff_toNat_le, hclz]
    exact Nat.sub_le 31 _
  have hamount : amount (31 - clz b) = b.toNat.log2 := by
    rw [amount, UInt32.toNat_sub_of_le _ _ hle, hclz]
    change (31 - (31 - b.toNat.log2)) % 256 = b.toNat.log2
    omega
  rw [hamount, ← UInt32.toNat_inj, toNat_shiftRight hlog, UInt32.toNat_div, ← toNat_of_and_pred hb htwo]

theorem div_self_of_ne {b : UInt32} (hb : b ≠ 0) : b / b = 1 := by
  rw [← UInt32.toNat_inj, UInt32.toNat_div]
  exact Nat.div_self (UInt32.le_iff_toNat_le.1 (one_le_iff.2 hb))

theorem div_of_lt {a b : UInt32} (hlt : a < b) : a / b = 0 := by
  rw [← UInt32.toNat_inj, UInt32.toNat_div]
  exact Nat.div_eq_of_lt (UInt32.lt_iff_toNat_lt.1 hlt)

theorem ensures_uidiv (hb : s.regs .r1 ≠ 0) :
    Ensures (idivCode link) (codeAt (idivCode link) .uidiv) s fun t =>
      t.regs .r0 = s.regs .r0 / s.regs .r1 ∧ Kept [.r0, .r1, .r2, .r3] s t := by
  obtain ⟨rest, hcode, hloop⟩ := codeAt_uidiv link
  obtain ⟨rest₁₁, hcode₁₁⟩ := codeAt_uidiv11 link
  obtain ⟨rest₁₂, hcode₁₂⟩ := codeAt_uidiv12 link
  have hkept := Kept.refl [.r0, .r1, .r2, .r3] s
  have hpos := one_le_iff.2 hb
  rw [hcode]
  refine ensures_label (ensures_op rfl exec_data_flags ?_)
  by_cases hone : s.regs .r1 = 1
  · refine ensures_ret (holds_eq_sub.trans (decide_eq_true hone)) ⟨?_, hkept.put (by simp) _ _⟩
    rw [hone, UInt32.div_one]
    rfl
  refine ensures_stay (holds_eq_sub.trans (decide_eq_false hone)) ?_
  refine ensures_pass (holds_lo_sub.trans (decide_eq_false (UInt32.not_lt.2 hpos))) ?_
  refine ensures_op rfl exec_test ?_
  have hpred : Kept [.r0, .r1, .r2, .r3] s
      (put s .r2 (s.regs .r1 - 1) (subFlags (s.regs .r1) 1)) := hkept.put (by simp) _ _
  have hkept₁ := hpred.setFlags (subFlags (s.regs .r0) (s.regs .r1))
  by_cases hle : s.regs .r0 ≤ s.regs .r1
  · refine ensures_branch (holds_ls_sub.trans (decide_eq_true hle)) ?_
    rw [hcode₁₁]
    refine ensures_label ?_
    by_cases heq : s.regs .r0 = s.regs .r1
    · refine ensures_op (holds_eq_sub.trans (decide_eq_true heq)) exec_move (ensures_skip
        (holds_ne_sub.trans (decide_eq_false (not_not.2 heq))) (ensures_ret rfl ⟨?_, ?_⟩))
      · rw [heq, div_self_of_ne hb]
        rfl
      · exact hkept₁.put (by simp) _ _
    · refine ensures_skip (holds_eq_sub.trans (decide_eq_false heq)) (ensures_op
        (holds_ne_sub.trans (decide_eq_true heq)) exec_move (ensures_ret rfl ⟨?_, ?_⟩))
      · rw [div_of_lt (UInt32.lt_of_le_of_ne hle heq)]
        rfl
      · exact hkept₁.put (by simp) _ _
  refine ensures_pass (holds_ls_sub.trans (decide_eq_false hle)) (ensures_op rfl exec_test ?_)
  have hkept₂ := hkept₁.setFlags
    { Arm.logicFlags (s.regs .r1 &&& (s.regs .r1 - 1)) (subFlags (s.regs .r0) (s.regs .r1)) with
      c := (subFlags (s.regs .r0) (s.regs .r1)).c }
  by_cases htwo : s.regs .r1 &&& (s.regs .r1 - 1) = 0
  · refine ensures_branch (beq_iff_eq.2 htwo) ?_
    rw [hcode₁₂]
    refine ensures_label (ensures_op rfl exec_clz (ensures_op rfl exec_data (ensures_op rfl exec_move
      (ensures_ret rfl ⟨shift_order hb htwo, ?_⟩))))
    exact ((hkept₂.put (by simp) _ _).put (by simp) _ _).put (by simp) _ _
  · refine ensures_pass (beq_eq_false_iff_ne.2 htwo) ?_
    refine ensures_armDivBody (by decide) hb ?_ hloop fun t hk hq => ?_
    · exact UInt32.le_of_lt (UInt32.not_le.1 hle)
    · refine ensures_op rfl exec_move (ensures_ret rfl ⟨?_, ?_⟩)
      · rw [put_same]
        exact hq
      · exact (hkept₂.trans (hk.mono (by simp))).put (by simp) _ _

end Uidiv

/-! ## `ARM_MOD_BODY` -/

section ModBody

variable {program rest : List (Line DivLabel)} {post : ArmState → Prop} {s : ArmState}
  {dividend divisor order spare : Reg} {one two three four five : DivLabel} {A d k t : Nat}
  {o : Operand}

/-- The comparison with the shifted divisor and the subtraction. -/
theorem mod_step (ho : ∀ f, (o.value s.regs f).toNat = d * 2 ^ t)
    (h : Remaining A d (s.regs dividend).toNat (t + 1))
    (hrest : ∀ s', Kept [dividend] s s' → Remaining A d (s'.regs dividend).toNat t →
      Ensures program rest s' post) :
    Ensures program (.op .al (.cmp dividend o) :: .op .hs (.sub dividend dividend o) :: rest) s
      post := by
  have hkept := Kept.refl [dividend] s
  refine ensures_op rfl exec_test ?_
  by_cases hle : o.value s.regs s.flags ≤ s.regs dividend
  · have hvalue := ho (subFlags (s.regs dividend) (o.value s.regs s.flags))
    have hsame := UInt32.toNat_inj.1 (hvalue.trans (ho s.flags).symm)
    have hle' := UInt32.le_iff_toNat_le.1 hle
    rw [ho] at hle'
    refine ensures_op (decide_eq_true hle) exec_data (hrest _ ((hkept.setFlags _).put (by simp) _ _) ?_)
    rw [put_same]
    change Remaining A d (s.regs dividend - o.value s.regs
      (subFlags (s.regs dividend) (o.value s.regs s.flags))).toNat t
    rw [hsame, UInt32.toNat_sub_of_le _ _ hle, ho]
    exact h.subtract hle'
  · have hlt := Nat.lt_of_not_le (mt UInt32.le_iff_toNat_le.2 hle)
    rw [ho] at hlt
    exact ensures_skip (decide_eq_false hle) (hrest _ (hkept.setFlags _) (h.keep hlt))

/-- Before the comparisons of the last part, of which `t` are made. -/
structure TailRegs (dividend divisor order : Reg) (A d t : Nat) (s : ArmState) : Prop where
  few : t = 0 ∨ t = 1 ∨ t = 2
  order : s.regs order = UInt32.ofNat t - 3
  divisor : (s.regs divisor).toNat = d * 2 ^ t
  left : Remaining A d (s.regs dividend).toNat (t + 1)

/-- One comparison, and the shift for the next one. -/
theorem tail_round (hne : dividend ≠ divisor) (hdivisor : (s.regs divisor).toNat = d * 2 ^ (t + 1))
    (h : Remaining A d (s.regs dividend).toNat (t + 2))
    (hrest : ∀ s', Kept [dividend, divisor] s s' → (s'.regs divisor).toNat = d * 2 ^ t →
      Remaining A d (s'.regs dividend).toNat (t + 1) → Ensures program rest s' post) :
    Ensures program (.op .al (.cmp dividend (.reg divisor)) ::
      .op .hs (.sub dividend dividend (.reg divisor)) ::
      .op .al (.mov divisor (.lsr divisor 1)) :: rest) s post := by
  refine mod_step (fun _ => hdivisor) h fun s₁ hk₁ hleft => ensures_op rfl exec_move ?_
  have hsame : s₁.regs divisor = s.regs divisor := hk₁.regs divisor (by simpa using hne.symm)
  refine hrest _ ((hk₁.mono (by simp)).put (by simp) _ _) ?_ ?_
  · rw [put_same, Operand.value, toNat_shiftRight (by decide), hsame, hdivisor, Nat.pow_succ,
      ← Nat.mul_assoc, Nat.pow_one, Nat.mul_div_cancel _ (by decide)]
  · rw [put_other hne]
    exact hleft

/-- The last comparison. -/
theorem tail_last (hd : 0 < d) (hdivisor : (s.regs divisor).toNat = d * 2 ^ 0)
    (h : Remaining A d (s.regs dividend).toNat 1)
    (hrest : ∀ s', Kept [dividend] s s' → (s'.regs dividend).toNat = A % d →
      Ensures program rest s' post) :
    Ensures program (.op .al (.cmp dividend (.reg divisor)) ::
      .op .hs (.sub dividend dividend (.reg divisor)) :: .label five :: rest) s post :=
  mod_step (fun _ => hdivisor) h fun s' hk hleft => ensures_label (hrest s' hk (hleft.done hd))

theorem ensures_modTail (hd : 0 < d) (hne : dividend ≠ divisor)
    (hthree : codeAt program three = .label three :: .op .al (.cmp dividend (.reg divisor)) ::
      .op .hs (.sub dividend dividend (.reg divisor)) :: .op .al (.mov divisor (.lsr divisor 1)) ::
      .label four :: .op .al (.cmp dividend (.reg divisor)) ::
      .op .hs (.sub dividend dividend (.reg divisor)) :: .label five :: rest)
    (hfour : codeAt program four = .label four :: .op .al (.cmp dividend (.reg divisor)) ::
      .op .hs (.sub dividend dividend (.reg divisor)) :: .label five :: rest)
    (h : TailRegs dividend divisor order A d t s)
    (hrest : ∀ s', Kept [dividend, divisor] s s' → (s'.regs dividend).toNat = A % d →
      Ensures program rest s' post) :
    Ensures program (modTail dividend divisor order three four five ++ rest) s post := by
  obtain ⟨hfew, horder, hdivisor, hleft⟩ := h
  have hflags := (Kept.refl [dividend, divisor] s).setFlags (addFlags (s.regs order) 2)
  have hsub : ∀ r ∈ [dividend], r ∈ [dividend, divisor] := by simp
  refine ensures_op rfl exec_test ?_
  rcases hfew with rfl | rfl | rfl
  · have hlt : Cond.lt.holds (addFlags (s.regs order) 2) = true := by
      rw [horder]
      decide
    refine ensures_branch hlt ?_
    rw [hfour]
    exact ensures_label (tail_last hd hdivisor hleft fun s₁ hk₁ =>
      hrest s₁ (hflags.trans (hk₁.mono hsub)))
  · have hlt : Cond.lt.holds (addFlags (s.regs order) 2) = false := by
      rw [horder]
      decide
    have heq : Cond.eq.holds (addFlags (s.regs order) 2) = true := by
      rw [horder]
      decide
    refine ensures_pass hlt (ensures_branch heq ?_)
    rw [hthree]
    exact ensures_label (tail_round hne hdivisor hleft fun s₁ hk₁ hdivisor₁ hleft₁ =>
      ensures_label (tail_last hd hdivisor₁ hleft₁ fun s₂ hk₂ =>
        hrest s₂ ((hflags.trans hk₁).trans (hk₂.mono hsub))))
  · have hlt : Cond.lt.holds (addFlags (s.regs order) 2) = false := by
      rw [horder]
      decide
    have heq : Cond.eq.holds (addFlags (s.regs order) 2) = false := by
      rw [horder]
      decide
    refine ensures_pass hlt (ensures_pass heq ?_)
    exact tail_round hne hdivisor hleft fun s₁ hk₁ hdivisor₁ hleft₁ =>
      ensures_label (tail_round hne hdivisor₁ hleft₁ fun s₂ hk₂ hdivisor₂ hleft₂ =>
        ensures_label (tail_last hd hdivisor₂ hleft₂ fun s₃ hk₃ =>
          hrest s₃ (((hflags.trans hk₁).trans hk₂).trans (hk₃.mono hsub))))

/-- Before a round of the loop. -/
structure ModRegs (dividend divisor order : Reg) (A d k : Nat) (s : ArmState) : Prop where
  fits : d * 2 ^ k < 4294967296
  order : (s.regs order).toNat + 3 = k
  divisor : (s.regs divisor).toNat = d * 2 ^ k
  left : Remaining A d (s.regs dividend).toNat (k + 1)

/-- The four comparisons of a round. -/
theorem mod_batch {m : Nat} (hne : dividend ≠ divisor)
    (hdivisor : (s.regs divisor).toNat = d * 2 ^ (m + 3))
    (hleft : Remaining A d (s.regs dividend).toNat (m + 4))
    (hrest : ∀ s', Kept [dividend] s s' → Remaining A d (s'.regs dividend).toNat m →
      Ensures program rest s' post) :
    Ensures program (.op .al (.cmp dividend (.reg divisor)) ::
      .op .hs (.sub dividend dividend (.reg divisor)) ::
      .op .al (.cmp dividend (.lsr divisor 1)) ::
      .op .hs (.sub dividend dividend (.lsr divisor 1)) ::
      .op .al (.cmp dividend (.lsr divisor 2)) ::
      .op .hs (.sub dividend dividend (.lsr divisor 2)) ::
      .op .al (.cmp dividend (.lsr divisor 3)) ::
      .op .hs (.sub dividend dividend (.lsr divisor 3)) :: rest) s post := by
  have hshift {s' : ArmState} (hk : Kept [dividend] s s') {j : Nat} (hj : j ≤ 3) :
      (shiftRight (s'.regs divisor) j).toNat = d * 2 ^ (m + 3 - j) := by
    rw [hk.regs divisor (by simpa using hne.symm), toNat_shiftRight (by omega), hdivisor,
      mul_two_pow_div d (by omega)]
  refine mod_step (fun _ => hdivisor) hleft fun s₁ hk₁ h₁ => ?_
  refine mod_step (fun _ => hshift hk₁ (by decide)) h₁ fun s₂ hk₂ h₂ => ?_
  refine mod_step (fun _ => hshift (hk₁.trans hk₂) (by decide)) h₂ fun s₃ hk₃ h₃ => ?_
  refine mod_step (fun _ => hshift ((hk₁.trans hk₂).trans hk₃) (by decide)) h₃ fun s₄ hk₄ h₄ => ?_
  exact hrest s₄ (((hk₁.trans hk₂).trans hk₃).trans hk₄) h₄

theorem tst_order : ∀ m < 4, (UInt32.ofNat m - 4 &&& 3 == 0) = decide (m = 0) := by decide

/-- The end of a round: the next one, the last part or nothing. -/
theorem mod_decide {m : Nat} (hd : 0 < d) (hne : dividend ≠ order) (hm : (s.regs order).toNat = m)
    (hm31 : m < 2147483648) (hsmall : (s.regs dividend).toNat < 2147483648)
    (hflags : s.flags = subFlags (s.regs dividend) 1)
    (h : Remaining A d (s.regs dividend).toNat m)
    (hagain : ∀ s', 4 ≤ m → Kept [order] s s' → (s'.regs order).toNat = m - 4 →
      Ensures program (codeAt program one) s' post)
    (hdone : ∀ s', Kept [order] s s' → (s'.regs dividend).toNat = A % d →
      Ensures program (codeAt program five) s' post)
    (hrest : ∀ s', 1 ≤ m → m ≤ 3 → Kept [order] s s' → s'.regs order = UInt32.ofNat m - 4 →
      Ensures program rest s' post) :
    Ensures program (.op .ge (.subs order order (.imm 4)) :: .branch .ge one ::
      .op .al (.tst order (.imm 3)) :: .op .ne (.teq dividend (.imm 0)) :: .branch .eq five :: rest)
      s post := by
  have hkept := Kept.refl [order] s
  have horder : s.regs order = UInt32.ofNat m := by rw [← hm, UInt32.ofNat_toNat]
  have hge : Cond.ge.holds s.flags = decide (1 ≤ (s.regs dividend).toNat) := by
    rw [hflags]
    exact Arm.holds_ge hsmall (by decide)
  by_cases hn : 1 ≤ (s.regs dividend).toNat
  · rw [decide_eq_true hn] at hge
    refine ensures_op hge exec_data_flags ?_
    have hmore : Cond.ge.holds (subFlags (s.regs order) 4) = decide (4 ≤ m) := by
      rw [← hm]
      exact Arm.holds_ge (by omega) (by decide)
    by_cases hm4 : 4 ≤ m
    · rw [decide_eq_true hm4] at hmore
      refine ensures_branch hmore (hagain _ hm4 (hkept.put (by simp) _ _) ?_)
      have hle : 4 ≤ s.regs order := by
        rw [UInt32.le_iff_toNat_le, hm]
        exact hm4
      rw [put_same, ← hm]
      exact UInt32.toNat_sub_of_le _ _ hle
    · rw [decide_eq_false hm4] at hmore
      refine ensures_pass hmore (ensures_op rfl exec_test ?_)
      have hkept₁ : Kept [order] s (put s order (s.regs order - 4) (subFlags (s.regs order) 4)) :=
        hkept.put (by simp) _ _
      have htst : (s.regs order - 4 &&& 3 == 0) = decide (m = 0) := by
        rw [horder]
        exact tst_order m (by omega)
      by_cases hzero : m = 0
      · -- all bits have been found
        subst hzero
        rw [decide_eq_true rfl] at htst
        refine ensures_skip ?_ (ensures_branch ?_ (hdone _ (hkept₁.setFlags _) ?_))
        · simpa [Cond.holds, Data.flags, Data.result, Operand.value] using htst
        · simpa [Cond.holds, Data.flags, Data.result, Operand.value] using htst
        · rw [setFlags_regs, put_other hne]
          exact h.done hd
      · rw [decide_eq_false hzero] at htst
        refine ensures_op ?_ exec_test (ensures_pass ?_ (hrest _ (by omega) (by omega)
          ((hkept₁.setFlags _).setFlags _) ?_))
        · simpa [Cond.holds, Data.flags, Data.result, Operand.value] using htst
        · have hdividend : s.regs dividend ≠ 0 := by
            intro hzero
            rw [hzero] at hn
            exact absurd hn (by decide)
          simpa [Cond.holds, Data.flags, Operand.value, hne] using hdividend
        · rw [setFlags_regs, setFlags_regs, put_same, horder]
          rfl
  · rw [decide_eq_false hn] at hge
    have hnone : s.regs dividend = 0 := by
      rw [← UInt32.toNat_inj]
      exact Nat.eq_zero_of_not_pos hn
    have hzero : (s.regs dividend).toNat = A % d := by
      rw [hnone] at h ⊢
      exact h.exhausted hd
    refine ensures_skip hge (ensures_pass hge (ensures_op rfl exec_test ?_))
    by_cases htst : s.regs order &&& 3 = 0
    · refine ensures_skip ?_ (ensures_branch ?_ (hdone _ (hkept.setFlags _) hzero))
      · simpa [Cond.holds, Data.flags, Operand.value] using htst
      · simpa [Cond.holds, Data.flags, Operand.value] using htst
    · refine ensures_op ?_ exec_test (ensures_branch ?_
        (hdone _ ((hkept.setFlags _).setFlags _) hzero))
      · simpa [Cond.holds, Data.flags, Operand.value] using htst
      · simpa [Cond.holds, Data.flags, Operand.value] using hnone

theorem ensures_modLoop (hd : 0 < d) (hnodup : [dividend, divisor, order, spare].Nodup)
    (hone : codeAt program one =
      .label one :: (modLoop dividend divisor order one five ++ rest))
    (h : ModRegs dividend divisor order A d k s)
    (hdone : ∀ s', Kept [dividend, divisor, order, spare] s s' →
      (s'.regs dividend).toNat = A % d → Ensures program (codeAt program five) s' post)
    (hrest : ∀ s' t, Kept [dividend, divisor, order, spare] s s' →
      TailRegs dividend divisor order A d t s' → Ensures program rest s' post) :
    Ensures program (modLoop dividend divisor order one five ++ rest) s post := by
  have hregs := hnodup
  simp only [List.nodup_cons, List.mem_cons, List.not_mem_nil, or_false, not_or] at hregs
  obtain ⟨⟨hne₁, hne₂, hne₃⟩, ⟨hne₄, hne₅⟩, hne₆, -⟩ := hregs
  have hsub : ∀ r ∈ [dividend], r ∈ [dividend, divisor, order, spare] := by simp
  have hsub' : ∀ r ∈ [order], r ∈ [dividend, divisor, order, spare] := by simp
  induction k using Nat.strong_induction_on generalizing s with
  | h k ih =>
      obtain ⟨hfits, horder, hdivisor, hleft⟩ := h
      obtain ⟨m, rfl⟩ : ∃ m, k = m + 3 := ⟨_, horder.symm⟩
      refine mod_batch hne₁ hdivisor hleft fun s₁ hk₁ h₁ => ?_
      have hdivisor₁ : s₁.regs divisor = s.regs divisor :=
        hk₁.regs divisor (by simpa using Ne.symm hne₁)
      have horder₁ : s₁.regs order = s.regs order := hk₁.regs order (by simpa using Ne.symm hne₂)
      have hbelow := h₁.below
      have hshifted : (shiftRight (s.regs divisor) 4).toNat = d * 2 ^ (m + 3) / 2 ^ 4 := by
        rw [toNat_shiftRight (by decide), hdivisor]
      refine ensures_op rfl exec_test (ensures_op rfl exec_move ?_)
      generalize hs₂ : put (setFlags s₁ _) divisor _ _ = s₂
      have hk₂ : Kept [dividend, divisor, order, spare] s s₂ := by
        rw [← hs₂]
        exact ((hk₁.mono hsub).setFlags _).put (by simp) _ _
      have hdividend₂ : s₂.regs dividend = s₁.regs dividend := by
        rw [← hs₂, put_other hne₁, setFlags_regs]
      have horder₂ : s₂.regs order = s.regs order := by
        rw [← hs₂, put_other (Ne.symm hne₄), setFlags_regs, horder₁]
      have hdivisor₂ : s₂.regs divisor = shiftRight (s.regs divisor) 4 := by
        rw [← hs₂, put_same, ← hdivisor₁]
        rfl
      have hflags₂ : s₂.flags = subFlags (s₂.regs dividend) 1 := by
        rw [hdividend₂, ← hs₂]
        rfl
      rw [← hdividend₂] at h₁
      -- what the next comparison finds
      have hnext {s₃ : ArmState} (hm1 : 1 ≤ m) (hk₃ : Kept [order] s₂ s₃) :
          (s₃.regs divisor).toNat = d * 2 ^ (m - 1) ∧
            Remaining A d (s₃.regs dividend).toNat (m - 1 + 1) := by
        have hleft : m - 1 + 1 = m := Nat.sub_add_cancel hm1
        have hpow : m + 3 - 4 = m - 1 := by omega
        rw [hk₃.regs divisor (by simpa using hne₄), hk₃.regs dividend (by simpa using hne₂),
          hdivisor₂, hshifted, mul_two_pow_div d (by omega), hpow, hleft]
        exact ⟨rfl, h₁⟩
      have hfits' := hfits
      rw [Nat.pow_add, ← Nat.mul_assoc] at hfits'
      refine @mod_decide _ rest _ _ _ _ _ _ A d m hd hne₂ ?_ ?_ ?_ hflags₂ h₁ ?_ ?_ ?_
      · rw [horder₂]
        exact Nat.add_right_cancel horder
      · have hpow : m < 2 ^ m := Nat.lt_two_pow_self
        have hpow' : 1 * 2 ^ m ≤ d * 2 ^ m := Nat.mul_le_mul_right _ hd
        omega
      · rw [hdividend₂]
        omega
      · intro s₃ hm4 hk₃ horder₃
        obtain ⟨hdivisor₃, hleft₃⟩ := hnext (by omega) hk₃
        have hk₃' := hk₂.trans (hk₃.mono hsub')
        rw [hone]
        refine ensures_label (ih (m - 1) (by omega) ⟨?_, ?_, hdivisor₃, hleft₃⟩ (fun s' hk' => ?_)
          fun s' t hk' => ?_)
        · refine Nat.lt_of_le_of_lt (Nat.mul_le_mul_left d ?_) hfits
          exact Nat.pow_le_pow_right (by decide) (by omega)
        · omega
        · exact hdone s' (hk₃'.trans hk')
        · exact hrest s' t (hk₃'.trans hk')
      · intro s₃ hk₃ hleft₃
        exact hdone s₃ (hk₂.trans (hk₃.mono hsub')) hleft₃
      · intro s₃ hm1 hm3 hk₃ horder₃
        obtain ⟨hdivisor₃, hleft₃⟩ := hnext hm1 hk₃
        refine hrest s₃ (m - 1) (hk₂.trans (hk₃.mono hsub')) ⟨by omega, ?_, hdivisor₃, hleft₃⟩
        rw [horder₃]
        obtain rfl | rfl | rfl : m = 1 ∨ m = 2 ∨ m = 3 := by omega
        all_goals rfl

/-- The shift of the divisor, and where the code goes on. -/
theorem ensures_modAlign (hnodup : [dividend, divisor, order, spare].Nodup)
    (hdivisor : s.regs divisor ≠ 0) (hle : s.regs divisor ≤ s.regs dividend)
    (htail : ∀ s' t, Kept [dividend, divisor, order, spare] s s' →
      TailRegs dividend divisor order (s.regs dividend).toNat (s.regs divisor).toNat t s' →
      Ensures program (codeAt program two) s' post)
    (hrest : ∀ s' k, Kept [dividend, divisor, order, spare] s s' →
      ModRegs dividend divisor order (s.regs dividend).toNat (s.regs divisor).toNat k s' →
      Ensures program rest s' post) :
    Ensures program (modAlign dividend divisor order spare two ++ rest) s post := by
  simp only [List.nodup_cons, List.mem_cons, List.not_mem_nil, or_false, not_or] at hnodup
  obtain ⟨⟨hne₁, hne₂, hne₃⟩, ⟨hne₄, hne₅⟩, hne₆, -⟩ := hnodup
  obtain ⟨k, hk, hclz, hfits, hbelow⟩ := exists_align hdivisor hle
  refine ensures_op rfl exec_clz (ensures_op rfl exec_clz (ensures_op rfl exec_data
    (ensures_op rfl exec_move ?_)))
  generalize hs₁ : put _ divisor _ _ = s₁
  have hk₁ : Kept [dividend, divisor, order, spare] s s₁ := by
    rw [← hs₁]
    have hkept := Kept.refl [dividend, divisor, order, spare] s
    exact ((((hkept.put (by simp) _ _).put (by simp) _ _).put (by simp) _ _).put (by simp) _ _)
  have hdividend₁ : s₁.regs dividend = s.regs dividend := by
    rw [← hs₁]
    simp [hne₁, hne₂, hne₃]
  have horder₁ : s₁.regs order = UInt32.ofNat k := by
    rw [← hs₁, ← hclz]
    simp [Data.result, Operand.value, hne₂, hne₆, Ne.symm hne₄]
  have hdivisor₁ : (s₁.regs divisor).toNat = (s.regs divisor).toNat * 2 ^ k := by
    rw [← hs₁, ← toNat_shiftLeft hk hfits]
    simp [Data.result, Operand.value, hne₂, hne₄, hne₅, hne₆, hclz, amount_ofNat hk]
  have hleft₁ : Remaining (s.regs dividend).toNat (s.regs divisor).toNat (s₁.regs dividend).toNat
      (k + 1) := by
    rw [hdividend₁]
    exact ⟨0, Dividing.start hbelow⟩
  refine ensures_op rfl exec_data_flags ?_
  have hlt : Cond.lt.holds (subFlags (s₁.regs order) 3) = decide (k < 3) := by
    have hsmall : (UInt32.ofNat k).toNat = k := by
      rw [UInt32.toNat_ofNat']
      omega
    have hsigned := @Arm.holds_lt (UInt32.ofNat k) 3 (by omega) (by decide)
    rw [hsmall] at hsigned
    rw [horder₁]
    exact hsigned
  by_cases hk3 : k < 3
  · rw [decide_eq_true hk3] at hlt
    refine ensures_branch hlt (htail _ k (hk₁.put (by simp) _ _) ⟨by omega, ?_, ?_, ?_⟩)
    · rw [put_same, ← horder₁]
      rfl
    · rw [put_other hne₄, hdivisor₁]
    · rw [put_other hne₂]
      exact hleft₁
  · rw [decide_eq_false hk3] at hlt
    refine ensures_pass hlt (hrest _ k (hk₁.put (by simp) _ _) ⟨hfits, ?_, ?_, ?_⟩)
    · have hthree : (3 : UInt32) ≤ UInt32.ofNat k := by
        rw [UInt32.le_iff_toNat_le, UInt32.toNat_ofNat']
        change 3 ≤ k % 4294967296
        omega
      rw [put_same, horder₁]
      change (UInt32.ofNat k - 3).toNat + 3 = k
      rw [UInt32.toNat_sub_of_le _ _ hthree, UInt32.toNat_ofNat']
      change k % 4294967296 - 3 + 3 = k
      omega
    · rw [put_other hne₄, hdivisor₁]
    · rw [put_other hne₂]
      exact hleft₁

/-- Where the labels of `ARM_MOD_BODY` are. -/
structure ModCode (program rest : List (Line DivLabel)) (dividend divisor order : Reg)
    (one two three four five : DivLabel) : Prop where
  one : codeAt program one = .label one :: (modLoop dividend divisor order one five ++
    .label two :: (modTail dividend divisor order three four five ++ rest))
  two : codeAt program two =
    .label two :: (modTail dividend divisor order three four five ++ rest)
  three : codeAt program three = .label three :: .op .al (.cmp dividend (.reg divisor)) ::
    .op .hs (.sub dividend dividend (.reg divisor)) :: .op .al (.mov divisor (.lsr divisor 1)) ::
    .label four :: .op .al (.cmp dividend (.reg divisor)) ::
    .op .hs (.sub dividend dividend (.reg divisor)) :: .label five :: rest
  four : codeAt program four = .label four :: .op .al (.cmp dividend (.reg divisor)) ::
    .op .hs (.sub dividend dividend (.reg divisor)) :: .label five :: rest
  five : codeAt program five = .label five :: rest

/-- `ARM_MOD_BODY` -/
theorem ensures_armModBody (hnodup : [dividend, divisor, order, spare].Nodup)
    (hdivisor : s.regs divisor ≠ 0) (hle : s.regs divisor ≤ s.regs dividend)
    (hcode : ModCode program rest dividend divisor order one two three four five)
    (hrest : ∀ s', Kept [dividend, divisor, order, spare] s s' →
      s'.regs dividend = s.regs dividend % s.regs divisor → Ensures program rest s' post) :
    Ensures program (armModBody dividend divisor order spare one two three four five ++ rest) s
      post := by
  have hd : 0 < (s.regs divisor).toNat :=
    Nat.pos_of_ne_zero fun h => hdivisor (UInt32.toNat_inj.1 h)
  have hne : dividend ≠ divisor := fun heq => by simp [heq] at hnodup
  have hsub : ∀ r ∈ [dividend, divisor], r ∈ [dividend, divisor, order, spare] := by simp
  have hend : ∀ s', Kept [dividend, divisor, order, spare] s s' →
      (s'.regs dividend).toNat = (s.regs dividend).toNat % (s.regs divisor).toNat →
      Ensures program rest s' post := by
    intro s' hk hleft
    refine hrest s' hk ?_
    rw [← UInt32.toNat_inj, hleft, UInt32.toNat_mod]
  have htail : ∀ s' t, Kept [dividend, divisor, order, spare] s s' →
      TailRegs dividend divisor order (s.regs dividend).toNat (s.regs divisor).toNat t s' →
      Ensures program (.label two :: (modTail dividend divisor order three four five ++ rest)) s'
        post := by
    intro s' t hk ht
    exact ensures_label (ensures_modTail hd hne hcode.three hcode.four ht fun s₂ hk₂ =>
      hend s₂ (hk.trans (hk₂.mono hsub)))
  rw [armModBody, List.append_assoc, List.append_assoc, List.cons_append, List.cons_append]
  refine ensures_modAlign hnodup hdivisor hle (fun s₁ t hk₁ ht => ?_) fun s₁ k hk₁ h₁ => ?_
  · rw [hcode.two]
    exact htail s₁ t hk₁ ht
  · refine ensures_label (ensures_modLoop hd hnodup hcode.one h₁ (fun s₂ hk₂ hleft => ?_)
      fun s₂ t hk₂ => htail s₂ t (hk₁.trans hk₂))
    rw [hcode.five]
    exact ensures_label (hend s₂ (hk₁.trans hk₂) hleft)

end ModBody

/-! ## `__umodsi3` -/

section Umod

variable {link : DivLabel → UInt32} {program rest : List (Line DivLabel)}
  {post : ArmState → Prop} {s : ArmState}

/-- By a power of two the remainder is made of the low bits. -/
theorem and_pred {a b : UInt32} (hb : b ≠ 0) (htwo : b &&& (b - 1) = 0) :
    a &&& (b - 1) = a % b := by
  have hpow := toNat_of_and_pred hb htwo
  rw [← UInt32.toNat_inj, UInt32.toNat_and, UInt32.toNat_mod,
    UInt32.toNat_sub_of_le _ _ (one_le_iff.2 hb)]
  generalize b.toNat.log2 = k at hpow
  rw [hpow]
  exact Nat.and_two_pow_sub_one_eq_mod a.toNat k

theorem mod_self (a : UInt32) : a % a = 0 := by
  rw [← UInt32.toNat_inj, UInt32.toNat_mod]
  exact Nat.mod_self a.toNat

/-- The cases in which the remainder is found at once: the divisor is 1, the dividend, more than the
dividend or a power of two. -/
theorem ensures_modQuick (hb : s.regs .r1 ≠ 0) (hpred : s.regs .r2 = s.regs .r1 - 1)
    (hflags : s.flags = subFlags (s.regs .r1) 1)
    (hquick : ∀ s', Kept [.r0] s s' → s'.regs .r0 = s.regs .r0 % s.regs .r1 →
      Cond.ls.holds s'.flags = true → Ensures program rest s' post)
    (hlong : ∀ s', Kept [] s s' → s.regs .r1 ≤ s.regs .r0 →
      Cond.ls.holds s'.flags = false → Ensures program rest s' post) :
    Ensures program (.op .ne (.cmp .r0 (.reg .r1)) :: .op .eq (.mov .r0 (.imm 0)) ::
      .op .hi (.tst .r1 (.reg .r2)) :: .op .eq (.and .r0 .r0 (.reg .r2)) :: rest) s post := by
  have hkept := Kept.refl [.r0] s
  by_cases hone : s.regs .r1 = 1
  · have heq : Cond.eq.holds s.flags = true := by
      rw [hflags]
      exact holds_eq_sub.trans (decide_eq_true hone)
    have hne : Cond.ne.holds s.flags = false := by
      rw [hflags]
      exact holds_ne_sub.trans (decide_eq_false (not_not.2 hone))
    have hhi : Cond.hi.holds s.flags = false := by
      rw [hflags]
      exact holds_hi_sub.trans (decide_eq_false (by rw [hone]; decide))
    have hls : Cond.ls.holds s.flags = true := by
      rw [hflags]
      exact holds_ls_sub.trans (decide_eq_true (by rw [hone]; decide))
    refine ensures_skip hne (ensures_op heq exec_move (ensures_skip hhi (ensures_op heq exec_data
      (hquick _ ((hkept.put (by simp) _ _).put (by simp) _ _) ?_ hls))))
    rw [put_same, hone, UInt32.mod_one]
    exact UInt32.zero_and
  · have hne : Cond.ne.holds s.flags = true := by
      rw [hflags]
      exact holds_ne_sub.trans (decide_eq_true hone)
    refine ensures_op hne exec_test ?_
    have hkept₁ := hkept.setFlags (subFlags (s.regs .r0) (s.regs .r1))
    have heq := @holds_eq_sub (s.regs .r0) (s.regs .r1)
    have hhi := @holds_hi_sub (s.regs .r0) (s.regs .r1)
    have hls := @holds_ls_sub (s.regs .r0) (s.regs .r1)
    rcases Nat.lt_trichotomy (s.regs .r0).toNat (s.regs .r1).toNat with hlt | hsame | hgt
    · rw [← UInt32.lt_iff_toNat_lt] at hlt
      rw [decide_eq_false (UInt32.ne_of_lt hlt)] at heq
      rw [decide_eq_false (UInt32.lt_asymm hlt)] at hhi
      rw [decide_eq_true (UInt32.le_of_lt hlt)] at hls
      refine ensures_skip heq (ensures_skip hhi (ensures_skip heq (hquick _ hkept₁ ?_ hls)))
      rw [← UInt32.toNat_inj, UInt32.toNat_mod]
      exact (Nat.mod_eq_of_lt (UInt32.lt_iff_toNat_lt.1 hlt)).symm
    · rw [UInt32.toNat_inj] at hsame
      rw [decide_eq_true hsame] at heq
      rw [decide_eq_false (by rw [hsame]; exact UInt32.lt_irrefl _)] at hhi
      rw [decide_eq_true (by rw [hsame]; exact UInt32.le_refl _)] at hls
      refine ensures_op heq exec_move (ensures_skip hhi (ensures_op heq exec_data
        (hquick _ ((hkept₁.put (by simp) _ _).put (by simp) _ _) ?_ hls)))
      rw [put_same, hsame, mod_self]
      exact UInt32.zero_and
    · rw [← UInt32.lt_iff_toNat_lt] at hgt
      rw [decide_eq_false (UInt32.ne_of_lt hgt).symm] at heq
      rw [decide_eq_true hgt] at hhi
      have hle := UInt32.le_of_lt hgt
      refine ensures_skip heq (ensures_op hhi exec_test ?_)
      by_cases htwo : s.regs .r1 &&& (s.regs .r1 - 1) = 0
      · refine ensures_op ?_ exec_data (hquick _ (((hkept₁.setFlags _).put (by simp) _ _)) ?_ ?_)
        · simpa [Cond.holds, Data.flags, Operand.value, hpred] using htwo
        · rw [put_same, ← and_pred hb htwo, ← hpred]
          rfl
        · simp [Cond.holds, Data.flags, Operand.value, hpred, htwo]
      · refine ensures_skip ?_ (hlong _ ?_ hle ?_)
        · simpa [Cond.holds, Data.flags, Operand.value, hpred] using htwo
        · exact ((Kept.refl [] s).setFlags _).setFlags _
        · simp [Cond.holds, Data.flags, Operand.value, Operand.carry, hpred, htwo, hle]

theorem codeAt_umod (link : DivLabel → UInt32) : ∃ rest,
    codeAt (idivCode link) .umod = .label .umod :: .op .al (.subs .r2 .r1 (.imm 1)) ::
      .branch .lo .ldiv0 :: .op .ne (.cmp .r0 (.reg .r1)) :: .op .eq (.mov .r0 (.imm 0)) ::
      .op .hi (.tst .r1 (.reg .r2)) :: .op .eq (.and .r0 .r0 (.reg .r2)) :: .ret .ls ::
      (armModBody .r0 .r1 .r2 .r3 .umod1 .umod2 .umod3 .umod4 .umod5 ++ .ret .al :: rest) ∧
    ModCode (idivCode link) (.ret .al :: rest) .r0 .r1 .r2 .umod1 .umod2 .umod3 .umod4 .umod5 :=
  ⟨_, rfl, rfl, rfl, rfl, rfl, rfl⟩

theorem ensures_umod (hb : s.regs .r1 ≠ 0) :
    Ensures (idivCode link) (codeAt (idivCode link) .umod) s fun t =>
      t.regs .r0 = s.regs .r0 % s.regs .r1 ∧ Kept [.r0, .r1, .r2, .r3] s t := by
  obtain ⟨rest, hcode, hmod⟩ := codeAt_umod link
  have hkept : Kept [.r0, .r1, .r2, .r3] s
      (put s .r2 (s.regs .r1 - 1) (subFlags (s.regs .r1) 1)) := (Kept.refl _ s).put (by simp) _ _
  rw [hcode]
  refine ensures_label (ensures_op rfl exec_data_flags (ensures_pass ?_ ?_))
  · exact holds_lo_sub.trans (decide_eq_false (UInt32.not_lt.2 (one_le_iff.2 hb)))
  refine ensures_modQuick hb rfl rfl (fun s₁ hk₁ hleft hls => ?_) fun s₁ hk₁ hle hls => ?_
  · exact ensures_ret hls ⟨hleft, hkept.trans (hk₁.mono (by simp))⟩
  · have hdividend : s₁.regs .r0 = s.regs .r0 := hk₁.regs .r0 (by simp)
    have hdivisor : s₁.regs .r1 = s.regs .r1 := hk₁.regs .r1 (by simp)
    refine ensures_stay hls (ensures_armModBody (by decide) ?_ ?_ hmod fun s₂ hk₂ hleft => ?_)
    · rw [hdivisor]
      exact hb
    · rw [hdivisor, hdividend]
      exact hle
    · rw [hdivisor, hdividend] at hleft
      exact ensures_ret rfl ⟨hleft, (hkept.trans (hk₁.mono (by simp))).trans hk₂⟩

end Umod

/-! ## Signs -/

section Signed

variable {link : DivLabel → UInt32} {program rest : List (Line DivLabel)}
  {post : ArmState → Prop} {s : ArmState} {rd rn : Reg}

/-- `rsbmi rd, rn, #0` -/
theorem ensures_rsbmi (hsame : s.regs rn = s.regs rd)
    (hrest : ∀ s', Kept [rd] s s' → s'.flags = s.flags →
      s'.regs rd = withSign s.flags.n (s.regs rd) → Ensures program rest s' post) :
    Ensures program (.op .mi (.rsb rd rn (.imm 0)) :: rest) s post := by
  have hkept := Kept.refl [rd] s
  by_cases hn : s.flags.n = true
  · refine ensures_op hn exec_data (hrest _ (hkept.put (by simp) _ _) rfl ?_)
    rw [put_same, hn, ← hsame]
    rfl
  · rw [Bool.not_eq_true] at hn
    refine ensures_skip hn (hrest s hkept rfl ?_)
    rw [hn]
    rfl

/-- All bits of a negative word and none of another one, and the lowest bit. -/
theorem shiftSigned_or_one (w : UInt32) :
    shiftSigned w 31 ||| 1 = withSign (Arm.isNegative w) 1 := by
  have hzero {v : UInt32} (hv : v.toNat < 2147483648) : shiftRight v 31 = 0 := by
    rw [← UInt32.toNat_inj, toNat_shiftRight (by decide)]
    exact Nat.div_eq_of_lt hv
  have hsign : Arm.isNegative w = decide (2147483648 ≤ w.toNat) := by
    rw [Arm.isNegative, decide_eq_decide, UInt32.le_iff_toNat_le]
    exact Iff.rfl
  by_cases hw : 2147483648 ≤ w.toNat
  · have hnot : (~~~w).toNat < 2147483648 := by
      rw [UInt32.toNat_not]
      change 4294967296 - 1 - w.toNat < 2147483648
      omega
    rw [shiftSigned, hsign, decide_eq_true hw, if_pos rfl, hzero hnot]
    rfl
  · rw [shiftSigned, hsign, decide_eq_false hw, if_neg Bool.false_ne_true,
      hzero (Nat.lt_of_not_le hw)]
    rfl

theorem codeAt_idiv (link : DivLabel → UInt32) : ∃ rest,
    codeAt (idivCode link) .idiv = .label .idiv :: .op .al (.cmp .r1 (.imm 0)) ::
      .op .al (.eor .ip .r0 (.reg .r1)) :: .branch .eq .ldiv0 :: .op .mi (.rsb .r1 .r1 (.imm 0)) ::
      .op .al (.subs .r2 .r1 (.imm 1)) :: .branch .eq .idiv10 :: .op .al (.movs .r3 (.reg .r0)) ::
      .op .mi (.rsb .r3 .r0 (.imm 0)) :: .op .al (.cmp .r3 (.reg .r1)) :: .branch .ls .idiv11 ::
      .op .al (.tst .r1 (.reg .r2)) :: .branch .eq .idiv12 ::
      (armDivBody .r3 .r1 .r0 .r2 .idivLoop ++ .op .al (.cmp .ip (.imm 0)) ::
        .op .mi (.rsb .r0 .r0 (.imm 0)) :: .ret .al :: rest) ∧
    codeAt (idivCode link) .idivLoop = .label .idivLoop ::
      (divLoop .r3 .r1 .r0 .r2 .idivLoop ++ .op .al (.cmp .ip (.imm 0)) ::
        .op .mi (.rsb .r0 .r0 (.imm 0)) :: .ret .al :: rest) := ⟨_, rfl, rfl⟩

theorem codeAt_idiv10 (link : DivLabel → UInt32) : ∃ rest,
    codeAt (idivCode link) .idiv10 = .label .idiv10 :: .op .al (.teq .ip (.reg .r0)) ::
      .op .mi (.rsb .r0 .r0 (.imm 0)) :: .ret .al :: rest := ⟨_, rfl⟩

theorem codeAt_idiv11 (link : DivLabel → UInt32) : ∃ rest,
    codeAt (idivCode link) .idiv11 = .label .idiv11 :: .op .lo (.mov .r0 (.imm 0)) ::
      .op .eq (.mov .r0 (.asr .ip 31)) :: .op .eq (.orr .r0 .r0 (.imm 1)) :: .ret .al :: rest :=
  ⟨_, rfl⟩

theorem codeAt_idiv12 (link : DivLabel → UInt32) : ∃ rest,
    codeAt (idivCode link) .idiv12 = .label .idiv12 :: .op .al (.clz .r2 .r1) ::
      .op .al (.rsb .r2 .r2 (.imm 31)) :: .op .al (.cmp .ip (.imm 0)) ::
      .op .al (.mov .r0 (.lsrBy .r3 .r2)) :: .op .mi (.rsb .r0 .r0 (.imm 0)) :: .ret .al :: rest :=
  ⟨_, rfl⟩

variable {a b : UInt32}

/-- The divisor is 1 or -1. -/
theorem ensures_idiv10 (hone : magnitude b = 1) (hr0 : s.regs .r0 = a)
    (hip : s.regs .ip = a ^^^ b) :
    Ensures (idivCode link) (codeAt (idivCode link) .idiv10) s fun t =>
      t.regs .r0 = withSign (Arm.isNegative (a ^^^ b)) (magnitude a / magnitude b) ∧
        Kept [.r0, .r1, .r2, .r3] s t := by
  obtain ⟨rest, hcode⟩ := codeAt_idiv10 link
  rw [hcode, hone, UInt32.div_one, magnitude, withSign_withSign, ← isNegative_xor, ← hip, ← hr0]
  refine ensures_label (ensures_op rfl exec_test (ensures_rsbmi rfl fun s₂ hk₂ _ hr0₂ =>
    ensures_ret rfl ⟨hr0₂, ?_⟩))
  exact ((Kept.refl _ s).setFlags _).trans (hk₂.mono (by simp))

/-- The dividend is not more than the divisor. -/
theorem ensures_idiv11 (hb : magnitude b ≠ 0) (hle : magnitude a ≤ magnitude b)
    (hip : s.regs .ip = a ^^^ b) (hflags : s.flags = subFlags (magnitude a) (magnitude b)) :
    Ensures (idivCode link) (codeAt (idivCode link) .idiv11) s fun t =>
      t.regs .r0 = withSign (Arm.isNegative (a ^^^ b)) (magnitude a / magnitude b) ∧
        Kept [.r0, .r1, .r2, .r3] s t := by
  obtain ⟨rest, hcode⟩ := codeAt_idiv11 link
  have hkept := Kept.refl [.r0, .r1, .r2, .r3] s
  have hlo := @holds_lo_sub (magnitude a) (magnitude b)
  have heq := @holds_eq_sub (magnitude a) (magnitude b)
  rw [← hflags] at hlo heq
  rw [hcode]
  refine ensures_label ?_
  by_cases hsame : magnitude a = magnitude b
  · rw [decide_eq_true hsame] at heq
    rw [decide_eq_false (by rw [hsame]; exact UInt32.lt_irrefl _)] at hlo
    refine ensures_skip hlo (ensures_op heq exec_move (ensures_op heq exec_data (ensures_ret rfl
      ⟨?_, (hkept.put (by simp) _ _).put (by simp) _ _⟩)))
    rw [hsame, div_self_of_ne hb, ← shiftSigned_or_one, ← hip]
    rfl
  · have hlt := UInt32.lt_of_le_of_ne hle hsame
    rw [decide_eq_false hsame] at heq
    rw [decide_eq_true hlt] at hlo
    refine ensures_op hlo exec_move (ensures_skip heq (ensures_skip heq (ensures_ret rfl
      ⟨?_, hkept.put (by simp) _ _⟩)))
    rw [div_of_lt hlt, put_same]
    cases Arm.isNegative (a ^^^ b) with
    | false => rfl
    | true => rfl

/-- The divisor is a power of two. -/
theorem ensures_idiv12 (hb : magnitude b ≠ 0) (htwo : magnitude b &&& (magnitude b - 1) = 0)
    (hr1 : s.regs .r1 = magnitude b) (hr3 : s.regs .r3 = magnitude a)
    (hip : s.regs .ip = a ^^^ b) :
    Ensures (idivCode link) (codeAt (idivCode link) .idiv12) s fun t =>
      t.regs .r0 = withSign (Arm.isNegative (a ^^^ b)) (magnitude a / magnitude b) ∧
        Kept [.r0, .r1, .r2, .r3] s t := by
  obtain ⟨rest, hcode⟩ := codeAt_idiv12 link
  rw [hcode]
  refine ensures_label (ensures_op rfl exec_clz (ensures_op rfl exec_data (ensures_op rfl exec_test
    (ensures_op rfl exec_move ?_))))
  generalize hs₁ : put (setFlags (put _ _ _ _) _) .r0 _ _ = s₁
  refine ensures_rsbmi rfl fun s₂ hk₂ _ hr0₂ => ensures_ret rfl ⟨?_, ?_⟩
  · have hn₁ : s₁.flags.n = Arm.isNegative (a ^^^ b) := by
      rw [← hs₁, ← hip]
      exact holds_mi_sub
    have hr0₁ : s₁.regs .r0 = magnitude a / magnitude b := by
      rw [← shift_order hb htwo, ← hs₁, ← hr1, ← hr3]
      rfl
    rw [hr0₂, hn₁, hr0₁]
  · rw [← hs₁] at hk₂
    exact ((((((Kept.refl _ s).put (by simp) _ _).put (by simp) _ _).setFlags _).put (by simp) _
      _).trans (hk₂.mono (by simp)))

/-- The division of the absolute values, when there is no shorter way. -/
theorem ensures_idivLong (hb : magnitude b ≠ 0) (hle : magnitude b ≤ magnitude a)
    (hcode : codeAt program .idivLoop = .label .idivLoop ::
      (divLoop .r3 .r1 .r0 .r2 .idivLoop ++ .op .al (.cmp .ip (.imm 0)) ::
        .op .mi (.rsb .r0 .r0 (.imm 0)) :: .ret .al :: rest))
    (hr1 : s.regs .r1 = magnitude b) (hr3 : s.regs .r3 = magnitude a)
    (hip : s.regs .ip = a ^^^ b) :
    Ensures program (armDivBody .r3 .r1 .r0 .r2 .idivLoop ++ .op .al (.cmp .ip (.imm 0)) ::
        .op .mi (.rsb .r0 .r0 (.imm 0)) :: .ret .al :: rest) s fun t =>
      t.regs .r0 = withSign (Arm.isNegative (a ^^^ b)) (magnitude a / magnitude b) ∧
        Kept [.r0, .r1, .r2, .r3] s t := by
  rw [← hr1] at hb
  rw [← hr1, ← hr3] at hle ⊢
  refine ensures_armDivBody (by decide) hb hle hcode fun s₁ hk₁ hq => ensures_op rfl exec_test ?_
  refine ensures_rsbmi rfl fun s₂ hk₂ _ hr0₂ => ensures_ret rfl ⟨?_, ?_⟩
  · have hip₁ : s₁.regs .ip = a ^^^ b := (hk₁.regs .ip (by simp)).trans hip
    rw [hr0₂, ← hip₁, ← hq]
    exact congrArg (withSign · _) holds_mi_sub
  · exact ((hk₁.mono (by simp)).setFlags _).trans (hk₂.mono (by simp))

theorem ensures_idiv (hb : s.regs .r1 ≠ 0) :
    Ensures (idivCode link) (codeAt (idivCode link) .idiv) s fun t =>
      t.regs .r0 = ((s.regs .r0).toInt32 / (s.regs .r1).toInt32).toUInt32 ∧
        Kept [.r0, .r1, .r2, .r3, .ip] s t := by
  obtain ⟨rest, hcode, hloop⟩ := codeAt_idiv link
  have hmb := magnitude_ne_zero hb
  rw [hcode, signed_div]
  refine ensures_label (ensures_op rfl exec_test (ensures_op rfl exec_data (ensures_pass ?_ ?_)))
  · exact holds_eq_sub.trans (decide_eq_false hb)
  generalize hs₁ : put (setFlags s _) .ip _ _ = s₁
  have hk₁ : Kept [.r0, .r1, .r2, .r3, .ip] s s₁ := by
    rw [← hs₁]
    exact ((Kept.refl _ s).setFlags _).put (by simp) _ _
  obtain ⟨hr0₁, hr1₁, hip₁, hn₁⟩ : s₁.regs .r0 = s.regs .r0 ∧ s₁.regs .r1 = s.regs .r1 ∧
      s₁.regs .ip = s.regs .r0 ^^^ s.regs .r1 ∧ s₁.flags.n = Arm.isNegative (s.regs .r1) := by
    rw [← hs₁]
    exact ⟨rfl, rfl, rfl, holds_mi_sub⟩
  refine ensures_rsbmi rfl fun s₂ hk₂ _ hr1₂ => ensures_op rfl exec_data_flags ?_
  rw [hn₁, hr1₁] at hr1₂
  generalize hs₃ : put s₂ .r2 _ _ = s₃
  have hk₃ : Kept [.r0, .r1, .r2, .r3, .ip] s s₃ := by
    rw [← hs₃]
    exact (hk₁.trans (hk₂.mono (by simp))).put (by simp) _ _
  have hr0₃ : s₃.regs .r0 = s.regs .r0 := by
    rw [← hs₃, ← hr0₁]
    exact hk₂.regs .r0 (by simp)
  have hip₃ : s₃.regs .ip = s.regs .r0 ^^^ s.regs .r1 := by
    rw [← hs₃, ← hip₁]
    exact hk₂.regs .ip (by simp)
  obtain ⟨hr1₃, hr2₃, hflags₃⟩ : s₃.regs .r1 = magnitude (s.regs .r1) ∧
      s₃.regs .r2 = magnitude (s.regs .r1) - 1 ∧
      s₃.flags = subFlags (magnitude (s.regs .r1)) 1 := by
    rw [← hs₃, magnitude, ← hr1₂]
    exact ⟨rfl, rfl, rfl⟩
  by_cases hone : magnitude (s.regs .r1) = 1
  · refine ensures_branch ?_ ((ensures_idiv10 hone hr0₃ hip₃).mono fun t ht =>
      ⟨ht.1, hk₃.trans (ht.2.mono (by simp))⟩)
    rw [hflags₃]
    exact holds_eq_sub.trans (decide_eq_true hone)
  refine ensures_pass ?_ (ensures_op rfl exec_move_flags (ensures_rsbmi rfl
    fun s₄ hk₄ _ hr3₄ => ensures_op rfl exec_test ?_))
  · rw [hflags₃]
    exact holds_eq_sub.trans (decide_eq_false hone)
  have hr3₄' : s₄.regs .r3 = magnitude (s.regs .r0) := by
    rw [hr3₄, magnitude, ← hr0₃]
    rfl
  have hr1₄ : s₄.regs .r1 = magnitude (s.regs .r1) := (hk₄.regs .r1 (by simp)).trans hr1₃
  have hr2₄ : s₄.regs .r2 = magnitude (s.regs .r1) - 1 := (hk₄.regs .r2 (by simp)).trans hr2₃
  have hip₄ : s₄.regs .ip = s.regs .r0 ^^^ s.regs .r1 := (hk₄.regs .ip (by simp)).trans hip₃
  generalize hs₅ : setFlags s₄ _ = s₅
  have hk₅ : Kept [.r0, .r1, .r2, .r3, .ip] s s₅ := by
    rw [← hs₅]
    exact ((hk₃.put (by simp) _ _).trans (hk₄.mono (by simp))).setFlags _
  have hregs₅ : s₅.regs = s₄.regs := by
    rw [← hs₅]
    rfl
  have hflags₅ : s₅.flags = subFlags (magnitude (s.regs .r0)) (magnitude (s.regs .r1)) := by
    rw [← hs₅, ← hr3₄', ← hr1₄]
    rfl
  rw [← hregs₅] at hr3₄' hr1₄ hr2₄ hip₄
  by_cases hle : magnitude (s.regs .r0) ≤ magnitude (s.regs .r1)
  · refine ensures_branch ?_ ((ensures_idiv11 hmb hle hip₄ hflags₅).mono fun t ht =>
      ⟨ht.1, hk₅.trans (ht.2.mono (by simp))⟩)
    rw [hflags₅]
    exact holds_ls_sub.trans (decide_eq_true hle)
  refine ensures_pass ?_ (ensures_op rfl exec_test ?_)
  · rw [hflags₅]
    exact holds_ls_sub.trans (decide_eq_false hle)
  generalize hs₆ : setFlags s₅ _ = s₆
  have hk₆ : Kept [.r0, .r1, .r2, .r3, .ip] s s₆ := by
    rw [← hs₆]
    exact hk₅.setFlags _
  have hregs₆ : s₆.regs = s₅.regs := by
    rw [← hs₆]
    rfl
  have hz₆ : s₆.flags.z = (magnitude (s.regs .r1) &&& (magnitude (s.regs .r1) - 1) == 0) := by
    rw [← hs₆, ← hr2₄, ← hr1₄]
    rfl
  rw [← hregs₆] at hr3₄' hr1₄ hip₄
  by_cases htwo : magnitude (s.regs .r1) &&& (magnitude (s.regs .r1) - 1) = 0
  · exact ensures_branch (hz₆.trans (beq_iff_eq.2 htwo))
      ((ensures_idiv12 hmb htwo hr1₄ hr3₄' hip₄).mono fun t ht =>
        ⟨ht.1, hk₆.trans (ht.2.mono (by simp))⟩)
  · exact ensures_pass (hz₆.trans (beq_eq_false_iff_ne.2 htwo))
      ((ensures_idivLong hmb (UInt32.le_of_lt (UInt32.not_le.1 hle)) hloop hr1₄ hr3₄' hip₄).mono
        fun t ht => ⟨ht.1, hk₆.trans (ht.2.mono (by simp))⟩)

/-! ### `__modsi3` -/

theorem codeAt_mod (link : DivLabel → UInt32) : ∃ rest,
    codeAt (idivCode link) .mod = .label .mod :: .op .al (.cmp .r1 (.imm 0)) ::
      .branch .eq .ldiv0 :: .op .mi (.rsb .r1 .r1 (.imm 0)) :: .op .al (.movs .ip (.reg .r0)) ::
      .op .mi (.rsb .r0 .r0 (.imm 0)) :: .op .al (.subs .r2 .r1 (.imm 1)) ::
      .op .ne (.cmp .r0 (.reg .r1)) :: .op .eq (.mov .r0 (.imm 0)) ::
      .op .hi (.tst .r1 (.reg .r2)) :: .op .eq (.and .r0 .r0 (.reg .r2)) :: .branch .ls .mod10 ::
      (armModBody .r0 .r1 .r2 .r3 .mod1 .mod2 .mod3 .mod4 .mod5 ++ .label .mod10 ::
        .op .al (.cmp .ip (.imm 0)) :: .op .mi (.rsb .r0 .r0 (.imm 0)) :: .ret .al :: rest) ∧
    ModCode (idivCode link) (.label .mod10 :: .op .al (.cmp .ip (.imm 0)) ::
      .op .mi (.rsb .r0 .r0 (.imm 0)) :: .ret .al :: rest) .r0 .r1 .r2 .mod1 .mod2 .mod3 .mod4
        .mod5 ∧
    codeAt (idivCode link) .mod10 = .label .mod10 :: .op .al (.cmp .ip (.imm 0)) ::
      .op .mi (.rsb .r0 .r0 (.imm 0)) :: .ret .al :: rest :=
  ⟨_, rfl, ⟨rfl, rfl, rfl, rfl, rfl⟩, rfl⟩

/-- The sign of the dividend. -/
theorem ensures_mod10 (hip : s.regs .ip = a) :
    Ensures program (.label .mod10 :: .op .al (.cmp .ip (.imm 0)) ::
        .op .mi (.rsb .r0 .r0 (.imm 0)) :: .ret .al :: rest) s fun t =>
      t.regs .r0 = withSign (Arm.isNegative a) (s.regs .r0) ∧ Kept [.r0] s t := by
  refine ensures_label (ensures_op rfl exec_test (ensures_rsbmi rfl fun s₂ hk₂ _ hr0₂ =>
    ensures_ret rfl ⟨?_, ((Kept.refl _ s).setFlags _).trans hk₂⟩))
  rw [hr0₂, ← hip]
  exact congrArg (withSign · _) holds_mi_sub

theorem ensures_mod (hb : s.regs .r1 ≠ 0) :
    Ensures (idivCode link) (codeAt (idivCode link) .mod) s fun t =>
      t.regs .r0 = ((s.regs .r0).toInt32 % (s.regs .r1).toInt32).toUInt32 ∧
        Kept [.r0, .r1, .r2, .r3, .ip] s t := by
  obtain ⟨rest, hcode, hmod, hmod10⟩ := codeAt_mod link
  have hmb := magnitude_ne_zero hb
  rw [hcode, signed_mod]
  refine ensures_label (ensures_op rfl exec_test (ensures_pass ?_ ?_))
  · exact holds_eq_sub.trans (decide_eq_false hb)
  have hk₁ := (Kept.refl [.r0, .r1, .r2, .r3, .ip] s).setFlags (subFlags (s.regs .r1) 0)
  refine ensures_rsbmi rfl fun s₂ hk₂ _ hr1₂ => ensures_op rfl exec_move_flags
    (ensures_rsbmi rfl fun s₃ hk₃ _ hr0₃ => ensures_op rfl exec_data_flags ?_)
  have hr1₂' : s₂.regs .r1 = magnitude (s.regs .r1) := by
    rw [hr1₂]
    exact congrArg (withSign · _) holds_mi_sub
  have hr0₃' : s₃.regs .r0 = magnitude (s.regs .r0) := by
    have hr0₂ : s₂.regs .r0 = s.regs .r0 := hk₂.regs .r0 (by simp)
    rw [hr0₃, magnitude, ← hr0₂]
    rfl
  have hr1₃ : s₃.regs .r1 = magnitude (s.regs .r1) := (hk₃.regs .r1 (by simp)).trans hr1₂'
  have hip₃ : s₃.regs .ip = s.regs .r0 := (hk₃.regs .ip (by simp)).trans (hk₂.regs .r0 (by simp))
  generalize hs₄ : put s₃ .r2 _ _ = s₄
  have hk₄ : Kept [.r0, .r1, .r2, .r3, .ip] s s₄ := by
    rw [← hs₄]
    exact (((hk₁.trans (hk₂.mono (by simp))).put (by simp) _ _).trans (hk₃.mono (by simp))).put
      (by simp) _ _
  obtain ⟨hr0₄, hr1₄, hip₄⟩ : s₄.regs .r0 = magnitude (s.regs .r0) ∧
      s₄.regs .r1 = magnitude (s.regs .r1) ∧ s₄.regs .ip = s.regs .r0 := by
    rw [← hs₄]
    exact ⟨hr0₃', hr1₃, hip₃⟩
  have hr2₄ : s₄.regs .r2 = s₄.regs .r1 - 1 := by
    rw [← hs₄]
    rfl
  have hflags₄ : s₄.flags = subFlags (s₄.regs .r1) 1 := by
    rw [← hs₄]
    rfl
  have hb₄ : s₄.regs .r1 ≠ 0 := by
    rw [hr1₄]
    exact hmb
  refine ensures_modQuick hb₄ hr2₄ hflags₄ (fun s₅ hk₅ hleft hls => ?_) fun s₅ hk₅ hle hls => ?_
  · have hip₅ : s₅.regs .ip = s.regs .r0 := (hk₅.regs .ip (by simp)).trans hip₄
    refine ensures_branch hls ?_
    rw [hmod10]
    refine (ensures_mod10 hip₅).mono fun t ht => ⟨?_, ?_⟩
    · rw [ht.1, hleft, hr0₄, hr1₄]
    · exact (hk₄.trans (hk₅.mono (by simp))).trans (ht.2.mono (by simp))
  · have hdividend : s₅.regs .r0 = s₄.regs .r0 := hk₅.regs .r0 (by simp)
    have hdivisor : s₅.regs .r1 = s₄.regs .r1 := hk₅.regs .r1 (by simp)
    rw [← hdivisor] at hb₄ hle
    rw [← hdividend] at hle
    refine ensures_pass hls (ensures_armModBody (by decide) hb₄ hle hmod fun s₆ hk₆ hleft => ?_)
    have hip₆ : s₆.regs .ip = s.regs .r0 :=
      (hk₆.regs .ip (by simp)).trans ((hk₅.regs .ip (by simp)).trans hip₄)
    refine (ensures_mod10 hip₆).mono fun t ht => ⟨?_, ?_⟩
    · rw [ht.1, hleft, hdividend, hdivisor, hr0₄, hr1₄]
    · exact ((hk₄.trans (hk₅.mono (by simp))).trans (hk₆.mono (by simp))).trans
        (ht.2.mono (by simp))

end Signed

/-! ## Quotient and remainder -/

section Divmod

variable {link : DivLabel → UInt32} {program rest : List (Line DivLabel)} {s : ArmState}
  {name division : DivLabel} {q : UInt32}

theorem codeAt_uidivmod (link : DivLabel → UInt32) : ∃ rest,
    codeAt (idivCode link) .uidivmod = divmod link .uidivmod .uidiv ++ rest := ⟨_, rfl⟩

theorem codeAt_idivmod (link : DivLabel → UInt32) : ∃ rest,
    codeAt (idivCode link) .idivmod = divmod link .idivmod .idiv ++ rest := ⟨_, rfl⟩

/-- What a caller relies on: the registers that it keeps values in are as before, and of the memory
only 16 bytes below the stack have changed. -/
structure Returned (s t : ArmState) : Prop where
  regs : ∀ r, r ∉ [Reg.r0, .r1, .r2, .r3] → t.regs r = s.regs r
  memory : ∀ a, ¬ distance (s.regs .sp - 16) a < 16 → t.memory a = s.memory a

/-- The dividend and the divisor are read back from the stack, and the product is subtracted. -/
theorem ensures_divmod (hcode : codeAt program name = divmod link name division ++ rest)
    (hsp : s.regs .sp % 4 = 0)
    (hdivision : ∀ s', s'.regs .r0 = s.regs .r0 → s'.regs .r1 = s.regs .r1 →
      Ensures program (codeAt program division) s' fun t =>
        t.regs .r0 = q ∧ Kept [.r0, .r1, .r2, .r3, .ip] s' t) :
    Ensures program (codeAt program name) s fun t =>
      t.regs .r0 = q ∧ t.regs .r1 = s.regs .r0 - q * s.regs .r1 ∧ Returned s t := by
  have hmod : (s.regs .sp - 16) % 4 = 0 := by
    rw [← UInt32.toNat_inj, UInt32.toNat_mod] at hsp ⊢
    rw [UInt32.toNat_sub]
    change (s.regs .sp).toNat % 4 = 0 at hsp
    change (4294967296 - 16 + (s.regs .sp).toNat) % 4294967296 % 4 = 0
    omega
  rw [hcode]
  refine ensures_label (ensures_op rfl (if_neg (not_not.2 hmod)) (ensures_call ?_))
  generalize hs₁ : ArmState.set _ .lr _ = s₁
  obtain ⟨hr0₁, hr1₁, hsp₁, hlr₁, hregs₁, hmemory₁⟩ : s₁.regs .r0 = s.regs .r0 ∧
      s₁.regs .r1 = s.regs .r1 ∧ s₁.regs .sp = s.regs .sp - 16 ∧ s₁.regs .lr = link name ∧
      (∀ r, r ∉ [Reg.sp, .lr] → s₁.regs r = s.regs r) ∧
      s₁.memory = s.memory.storeWords (s.regs .sp - 16)
        [s.regs .r0, s.regs .r1, s.regs .ip, s.regs .lr] := by
    rw [← hs₁]
    refine ⟨rfl, rfl, rfl, rfl, fun r hr => ?_, rfl⟩
    simp only [List.mem_cons, List.not_mem_nil, or_false, not_or] at hr
    simp [ArmState.set, hr.1, hr.2]
  refine (hdivision s₁ hr0₁ hr1₁).mono fun s₂ ⟨hq, hk₂⟩ => ⟨?_, ?_⟩
  · exact (hk₂.regs .lr (by decide)).trans hlr₁
  have hsp₂ : s₂.regs .sp = s.regs .sp - 16 := (hk₂.regs .sp (by decide)).trans hsp₁
  have hmod₂ : s₂.regs .sp % 4 = 0 := by
    rw [hsp₂]
    exact hmod
  have hload : s₂.memory.loadWords (s₂.regs .sp) 4 =
      [s.regs .r0, s.regs .r1, s.regs .ip, s.regs .lr] := by
    rw [hk₂.memory, hmemory₁, hsp₂]
    exact Memory.loadWords_storeWords (by simp)
  refine ensures_op rfl (if_neg (not_not.2 hmod₂)) (ensures_op rfl exec_mul
    (ensures_op rfl exec_data (ensures_ret rfl ?_)))
  have hcount : [Reg.r1, .r2, .ip, .lr].length = 4 := rfl
  generalize hs₃ : ArmState.setAll _ _ _ = s₃
  obtain ⟨hr0₃, hr1₃, hr2₃⟩ : s₃.regs .r0 = q ∧ s₃.regs .r1 = s.regs .r0 ∧
      s₃.regs .r2 = s.regs .r1 := by
    rw [← hs₃, ← hq, hcount, hload]
    exact ⟨rfl, rfl, rfl⟩
  have hreturned : Returned s s₃ := by
    rw [← hs₃, hcount, hload, hsp₂]
    refine ⟨fun r hr => ?_, fun a ha => ?_⟩
    · cases r with
      | ip => rfl
      | lr => rfl
      | sp => exact UInt32.sub_add_cancel (s.regs .sp) 16
      | r0 => exact absurd (by decide) hr
      | r1 => exact absurd (by decide) hr
      | r2 => exact absurd (by decide) hr
      | r3 => exact absurd (by decide) hr
      | r4 => exact (hk₂.regs .r4 (by decide)).trans (hregs₁ .r4 (by decide))
      | r5 => exact (hk₂.regs .r5 (by decide)).trans (hregs₁ .r5 (by decide))
      | r6 => exact (hk₂.regs .r6 (by decide)).trans (hregs₁ .r6 (by decide))
      | r7 => exact (hk₂.regs .r7 (by decide)).trans (hregs₁ .r7 (by decide))
      | r8 => exact (hk₂.regs .r8 (by decide)).trans (hregs₁ .r8 (by decide))
    · change s₂.memory a = s.memory a
      rw [hk₂.memory, hmemory₁]
      exact Memory.storeWords_outside (by simp) ha
  refine ⟨?_, ?_, fun r hr => ?_, hreturned.memory⟩
  · rw [← hr0₃]
    rfl
  · rw [← hr0₃, ← hr1₃, ← hr2₃]
    rfl
  · rw [← hreturned.regs r hr]
    simp only [List.mem_cons, List.not_mem_nil, or_false, not_or] at hr
    rw [put_other hr.2.1, put_other hr.2.2.2]

end Divmod

/-! ## The routines -/

section Division

variable {s : ArmState}

/-- A call with two arguments. -/
def called (a b : UInt32) : ArmState where
  regs
    | .r0 => a
    | .r1 => b
    | .sp => 0x8000
    | _ => 0
  flags := ⟨false, false, false, false⟩
  memory := fun _ => 0

/-- The unsigned routines return what they are named after. -/
theorem division_unsigned (link : DivLabel → UInt32) (hb : s.regs .r1 ≠ 0)
    (hsp : s.regs .sp % 4 = 0) :
    Ensures (idivCode link) (codeAt (idivCode link) .uidiv) s (fun t =>
      t.regs .r0 = s.regs .r0 / s.regs .r1 ∧ Kept [.r0, .r1, .r2, .r3] s t) ∧
    Ensures (idivCode link) (codeAt (idivCode link) .umod) s (fun t =>
      t.regs .r0 = s.regs .r0 % s.regs .r1 ∧ Kept [.r0, .r1, .r2, .r3] s t) ∧
    Ensures (idivCode link) (codeAt (idivCode link) .uidivmod) s (fun t =>
      t.regs .r0 = s.regs .r0 / s.regs .r1 ∧ t.regs .r1 = s.regs .r0 % s.regs .r1 ∧
        Returned s t) := by
  obtain ⟨rest, hcode⟩ := codeAt_uidivmod link
  refine ⟨ensures_uidiv hb, ensures_umod hb, ?_⟩
  rw [← sub_div_mul]
  refine ensures_divmod hcode hsp fun s' hr0 hr1 => ?_
  rw [← hr1] at hb
  rw [← hr0, ← hr1]
  exact (ensures_uidiv hb).mono fun t ht => ⟨ht.1, ht.2.mono (by simp)⟩

theorem division_unsigned_hundred :
    Ensures (idivCode fun _ => 0x100) (codeAt (idivCode fun _ => 0x100) .uidivmod) (called 100 7)
      fun t => t.regs .r0 = 14 ∧ t.regs .r1 = 2 ∧ Returned (called 100 7) t :=
  (@division_unsigned (called 100 7) (fun _ => 0x100) (by decide) (by decide)).2.2

/-- The signed routines divide toward 0, and the remainder has the sign of the dividend. -/
theorem division_signed (link : DivLabel → UInt32) (hb : s.regs .r1 ≠ 0)
    (hsp : s.regs .sp % 4 = 0) :
    Ensures (idivCode link) (codeAt (idivCode link) .idiv) s (fun t =>
      t.regs .r0 = ((s.regs .r0).toInt32 / (s.regs .r1).toInt32).toUInt32 ∧
        Kept [.r0, .r1, .r2, .r3, .ip] s t) ∧
    Ensures (idivCode link) (codeAt (idivCode link) .mod) s (fun t =>
      t.regs .r0 = ((s.regs .r0).toInt32 % (s.regs .r1).toInt32).toUInt32 ∧
        Kept [.r0, .r1, .r2, .r3, .ip] s t) ∧
    Ensures (idivCode link) (codeAt (idivCode link) .idivmod) s (fun t =>
      t.regs .r0 = ((s.regs .r0).toInt32 / (s.regs .r1).toInt32).toUInt32 ∧
        t.regs .r1 = ((s.regs .r0).toInt32 % (s.regs .r1).toInt32).toUInt32 ∧ Returned s t) := by
  obtain ⟨rest, hcode⟩ := codeAt_idivmod link
  refine ⟨ensures_idiv hb, ensures_mod hb, ?_⟩
  rw [← signed_sub_div_mul]
  refine ensures_divmod hcode hsp fun s' hr0 hr1 => ?_
  rw [← hr1] at hb
  rw [← hr0, ← hr1]
  exact ensures_idiv hb

/-- -7 divided by 2 -/
theorem division_signed_negative :
    Ensures (idivCode fun _ => 0x100) (codeAt (idivCode fun _ => 0x100) .idivmod)
      (called 0xfffffff9 2) fun t =>
        t.regs .r0 = 0xfffffffd ∧ t.regs .r1 = 0xffffffff ∧ Returned (called 0xfffffff9 2) t :=
  (@division_signed (called 0xfffffff9 2) (fun _ => 0x100) (by decide) (by decide)).2.2

end Division

end DivisionArm

end Vmwos
