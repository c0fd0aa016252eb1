import Mathlib.Data.Nat.Bitwise

/-!
# Division with shifts and subtractions

The quotient is found from its highest bit on: at each bit the divisor, shifted to this bit, is
subtracted from what is left of the dividend when it is not more than that.
-/

set_option autoImplicit false

namespace Library

/-- What is known of the dividend `A` and the divisor `d` when the bits of the quotient from `s` on
have been found: `n` is left, and `q` is made of these bits. -/
structure Dividing (A d n q s : Nat) : Prop where
  value : q * d + n = A
  below : n < d * 2 ^ s
  multiple : 2 ^ s ∣ q

namespace Dividing

variable {A d n q s : Nat}

theorem start (h : A < d * 2 ^ s) : Dividing A d A 0 s :=
  ⟨by omega, h, Nat.dvd_zero _⟩

/-- The next bit is set. -/
theorem subtract (h : Dividing A d n q (s + 1)) (hle : d * 2 ^ s ≤ n) :
    Dividing A d (n - d * 2 ^ s) (q + 2 ^ s) s := by
  obtain ⟨hvalue, hbelow, hmultiple⟩ := h
  rw [Nat.pow_succ, ← Nat.mul_assoc] at hbelow
  refine ⟨?_, by omega, ?_⟩
  · rw [Nat.add_mul, Nat.mul_comm (2 ^ s) d]
    omega
  · exact Nat.dvd_add ((Nat.pow_dvd_pow 2 (Nat.le_succ s)).trans hmultiple) (Nat.dvd_refl _)

/-- The next bit is not set. -/
theorem keep (h : Dividing A d n q (s + 1)) (hlt : n < d * 2 ^ s) : Dividing A d n q s :=
  ⟨h.value, hlt, (Nat.pow_dvd_pow 2 (Nat.le_succ s)).trans h.multiple⟩

/-- Adding the next bit is setting it. -/
theorem or_bit (h : Dividing A d n q (s + 1)) : q ||| 2 ^ s = q + 2 ^ s := by
  obtain ⟨k, rfl⟩ := h.multiple
  exact (Nat.two_pow_add_eq_or_of_lt (Nat.pow_lt_pow_right (by decide) (Nat.lt_succ_self s)) k).symm

theorem done (h : Dividing A d n q 0) (hd : 0 < d) : q = A / d ∧ n = A % d := by
  have hn : n < d := by simpa using h.below
  have hvalue := h.value
  constructor
  · rw [← hvalue, Nat.add_comm, Nat.add_mul_div_right n q hd, Nat.div_eq_of_lt hn, Nat.zero_add]
  · rw [← hvalue, Nat.add_comm, Nat.add_mul_mod_self_right, Nat.mod_eq_of_lt hn]

/-- Nothing is left: the other bits are not set. -/
theorem exhausted (h : Dividing A d 0 q s) (hd : 0 < d) : Dividing A d 0 q 0 := by
  refine ⟨h.value, ?_, ?_⟩
  · rwa [Nat.pow_zero, Nat.mul_one]
  · rw [Nat.pow_zero]
    exact Nat.one_dvd q

end Dividing

/-- Where only the quotient is wanted, what is left does not matter once all bits have been found. -/
def QuotientFound (A d n q : Nat) : Nat → Prop
  | 0 => q = A / d
  | s + 1 => Dividing A d n q (s + 1)

section Quotient

variable {A d n q s : Nat}

theorem Dividing.quotientFound (hd : 0 < d) (h : Dividing A d n q s) : QuotientFound A d n q s := by
  cases s with
  | zero => exact (h.done hd).1
  | succ s => exact h

theorem QuotientFound.next_bit (hd : 0 < d) (h : QuotientFound A d n q (s + 1)) :
    QuotientFound A d (if d * 2 ^ s ≤ n then n - d * 2 ^ s else n)
      (if d * 2 ^ s ≤ n then q ||| 2 ^ s else q) s := by
  by_cases hle : d * 2 ^ s ≤ n
  · rw [if_pos hle, if_pos hle, Dividing.or_bit h]
    exact (Dividing.subtract h hle).quotientFound hd
  · rw [if_neg hle, if_neg hle]
    exact (Dividing.keep h (Nat.not_le.1 hle)).quotientFound hd

theorem QuotientFound.exhausted (hd : 0 < d) (h : QuotientFound A d 0 q s) : q = A / d := by
  cases s with
  | zero => exact h
  | succ s => exact ((Dividing.exhausted h hd).done hd).1

end Quotient

/-- Where only what is left is wanted, there is no quotient. -/
def Remaining (A d n s : Nat) : Prop := ∃ q, Dividing A d n q s

section Remainder

variable {A d n s : Nat}

theorem Remaining.below (h : Remaining A d n s) : n < d * 2 ^ s := h.elim fun _ h => h.below

theorem Remaining.subtract (h : Remaining A d n (s + 1)) (hle : d * 2 ^ s ≤ n) :
    Remaining A d (n - d * 2 ^ s) s :=
  h.elim fun _ h => ⟨_, h.subtract hle⟩

theorem Remaining.keep (h : Remaining A d n (s + 1)) (hlt : n < d * 2 ^ s) : Remaining A d n s :=
  h.elim fun _ h => ⟨_, h.keep hlt⟩

theorem Remaining.done (h : Remaining A d n 0) (hd : 0 < d) : n = A % d :=
  h.elim fun _ h => (h.done hd).2

theorem Remaining.exhausted (h : Remaining A d 0 s) (hd : 0 < d) : 0 = A % d :=
  h.elim fun _ h => ((h.exhausted hd).done hd).2

end Remainder

/-! ## The first bit -/

section Align

variable {A d : Nat}

theorem log2_mono (hd : d ≠ 0) (hle : d ≤ A) : d.log2 ≤ A.log2 :=
  (Nat.le_log2 (by omega)).2 ((Nat.log2_self_le hd).trans hle)

/-- The divisor is shifted so that its highest bit stands where that of the dividend is. -/
theorem lt_mul_align (hd : d ≠ 0) (hle : d.log2 ≤ A.log2) :
    A < d * 2 ^ (A.log2 - d.log2 + 1) := by
  calc
    A < 2 ^ (A.log2 + 1) := Nat.lt_log2_self
    _ = 2 ^ d.log2 * 2 ^ (A.log2 - d.log2 + 1) := by
        rw [← Nat.pow_add]
        congr 1
        omega
    _ ≤ d * 2 ^ (A.log2 - d.log2 + 1) := Nat.mul_le_mul_right _ (Nat.log2_self_le hd)

theorem mul_align_lt (hle : d.log2 ≤ A.log2) : d * 2 ^ (A.log2 - d.log2) < 2 ^ (A.log2 + 1) := by
  calc
    d * 2 ^ (A.log2 - d.log2) < 2 ^ (d.log2 + 1) * 2 ^ (A.log2 - d.log2) :=
        Nat.mul_lt_mul_of_pos_right Nat.lt_log2_self (Nat.two_pow_pos _)
    _ = 2 ^ (A.log2 + 1) := by
        rw [← Nat.pow_add]
        congr 1
        omega

end Align

end Library
