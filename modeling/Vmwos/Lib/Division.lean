import Mathlib.Algebra.Order.Ring.Nat

/-!
# Division in software

`__aeabi_uidiv` for processors without a division instruction. It counts the multiples of the
divisor up to the dividend, in a variable of 32 bits. A multiple that does not fit wraps around and
is small again, so the loop goes on: `aeabiUidiv_returns_iff` says for which operands the quotient
is returned.
-/

set_option autoImplicit false

namespace Vmwos

/-- The loop of `__aeabi_uidiv`, for at most `fuel` rounds. -/
def uidivLoop (dividend divisor : UInt32) : (fuel : Nat) → (q newD : UInt32) → Option UInt32
  | 0, _, _ => none
  | fuel + 1, q, newD =>
      if dividend < newD then some q
      else uidivLoop dividend divisor fuel (q + 1) (newD + divisor)

/-- `__aeabi_uidiv`, for at most `fuel` rounds of its loop. -/
def aeabiUidiv (fuel : Nat) (dividend divisor : UInt32) : Option UInt32 :=
  if divisor = 0 then some 0
  else uidivLoop dividend divisor fuel 0 divisor

/-- The division ends and returns the quotient. -/
def ReturnsQuotient (dividend divisor : UInt32) : Prop :=
  ∃ fuel q, aeabiUidiv fuel dividend divisor = some q ∧
    q.toNat = dividend.toNat / divisor.toNat

section Multiples

variable {a b : UInt32} {fuel k t : Nat} {r : UInt32}

/-- `new_d` in round `k`: the multiple `k+1` of the divisor, as far as it fits. -/
def multiple (b : UInt32) (k : Nat) : UInt32 := UInt32.ofNat ((k + 1) * b.toNat)

theorem multiple_zero (b : UInt32) : multiple b 0 = b := by
  rw [multiple, Nat.zero_add, Nat.one_mul, UInt32.ofNat_toNat]

theorem multiple_succ (b : UInt32) (k : Nat) : multiple b k + b = multiple b (k + 1) := by
  rw [multiple, multiple, Nat.succ_mul (k + 1), UInt32.ofNat_add, UInt32.ofNat_toNat]

theorem toNat_multiple (b : UInt32) (k : Nat) :
    (multiple b k).toNat = (k + 1) * b.toNat % 4294967296 := by
  rw [multiple, UInt32.toNat_ofNat']

/-- The multiples come round after all numbers of 32 bits. -/
theorem multiple_add_period (b : UInt32) (k : Nat) : multiple b (k + 4294967296) = multiple b k := by
  apply UInt32.toNat_inj.1
  rw [toNat_multiple, toNat_multiple, Nat.add_right_comm, Nat.add_mul, Nat.add_mul_mod_self_left]

/-- The loop ends in the first round whose multiple exceeds the dividend, and returns the number of
that round. -/
theorem uidivLoop_eq_some_iff :
    uidivLoop a b fuel (UInt32.ofNat k) (multiple b k) = some r ↔
      ∃ t, k ≤ t ∧ t < k + fuel ∧ (∀ j, k ≤ j → j < t → ¬ a < multiple b j) ∧
        a < multiple b t ∧ r = UInt32.ofNat t := by
  induction fuel generalizing k with
  | zero =>
      refine iff_of_false (fun h => by cases h) ?_
      rintro ⟨t, hle, hlt, -⟩
      exact absurd hle (Nat.not_le.2 hlt)
  | succ fuel ih =>
      have hq : UInt32.ofNat k + 1 = UInt32.ofNat (k + 1) := (UInt32.ofNat_add k 1).symm
      rw [uidivLoop, hq, multiple_succ]
      by_cases hexit : a < multiple b k
      · rw [if_pos hexit]
        constructor
        · intro h
          refine ⟨k, Nat.le_refl k, Nat.lt_add_of_pos_right (Nat.succ_pos fuel), ?_, hexit,
            (Option.some.inj h).symm⟩
          intro j hj hlt
          exact absurd hj (Nat.not_le.2 hlt)
        · rintro ⟨t, hle, -, hbefore, -, rfl⟩
          -- no later round is reached
          have hround : t = k := by
            by_contra hne
            exact hbefore k (Nat.le_refl k) (Nat.lt_of_le_of_ne hle (Ne.symm hne)) hexit
          rw [hround]
      · rw [if_neg hexit, ih]
        constructor
        · rintro ⟨t, hle, hlt, hbefore, ht, hr⟩
          refine ⟨t, Nat.le_of_succ_le hle, by omega, ?_, ht, hr⟩
          intro j hj hjt
          rcases Nat.eq_or_lt_of_le hj with rfl | hlater
          · exact hexit
          · exact hbefore j hlater hjt
        · rintro ⟨t, hle, hlt, hbefore, ht, hr⟩
          have hne : k ≠ t := by
            rintro rfl
            exact hexit ht
          refine ⟨t, Nat.lt_of_le_of_ne hle hne, by omega, ?_, ht, hr⟩
          intro j hj hjt
          exact hbefore j (Nat.le_of_succ_le hj) hjt

/-- The first round that ends the loop comes before the multiples repeat themselves. -/
theorem first_exit_lt (hbefore : ∀ j < t, ¬ a < multiple b j) (ht : a < multiple b t) :
    t < 4294967296 := by
  by_contra hge
  obtain ⟨j, rfl⟩ := Nat.exists_eq_add_of_le' (Nat.le_of_not_lt hge)
  rw [multiple_add_period] at ht
  exact hbefore j (Nat.lt_add_of_pos_right (by decide)) ht

/-- Up to the quotient no multiple exceeds the dividend, and none has wrapped around. -/
theorem not_lt_multiple {j : Nat} (hj : j < a.toNat / b.toNat) : ¬ a < multiple b j := by
  have hle : (j + 1) * b.toNat ≤ a.toNat :=
    Nat.le_trans (Nat.mul_le_mul_right _ hj) (Nat.div_mul_le_self _ _)
  rw [UInt32.lt_iff_toNat_lt, toNat_multiple,
    Nat.mod_eq_of_lt (Nat.lt_of_le_of_lt hle a.toNat_lt)]
  exact Nat.not_lt.2 hle

/-- The multiple behind the quotient exceeds the dividend unless it wraps around. -/
theorem lt_multiple_div_iff (hb : b ≠ 0) : a < multiple b (a.toNat / b.toNat) ↔
    (a.toNat / b.toNat + 1) * b.toNat < 4294967296 := by
  have hpos : 0 < b.toNat := Nat.pos_of_ne_zero fun h => hb (UInt32.toNat_inj.1 h)
  have hexceeds : a.toNat < (a.toNat / b.toNat + 1) * b.toNat := by
    rw [Nat.mul_comm]
    exact Nat.lt_mul_div_succ a.toNat hpos
  have hclose : (a.toNat / b.toNat + 1) * b.toNat ≤ a.toNat + b.toNat := by
    rw [Nat.succ_mul]
    exact Nat.add_le_add_right (Nat.div_mul_le_self _ _) _
  have ha := a.toNat_lt
  have hb' := b.toNat_lt
  rw [UInt32.lt_iff_toNat_lt, toNat_multiple]
  omega

end Multiples

/-- The quotient is returned exactly when the multiple of the divisor behind it fits into 32 bits. -/
theorem aeabiUidiv_returns_iff {dividend divisor : UInt32} (hdivisor : divisor ≠ 0) :
    ReturnsQuotient dividend divisor ↔
      (dividend.toNat / divisor.toNat + 1) * divisor.toNat < 4294967296 := by
  rw [← lt_multiple_div_iff hdivisor]
  have hloop (fuel : Nat) : aeabiUidiv fuel dividend divisor =
      uidivLoop dividend divisor fuel (UInt32.ofNat 0) (multiple divisor 0) := by
    rw [multiple_zero, aeabiUidiv, if_neg hdivisor]
    rfl
  have hquotient : dividend.toNat / divisor.toNat < 4294967296 :=
    Nat.lt_of_le_of_lt (Nat.div_le_self _ _) dividend.toNat_lt
  constructor
  · rintro ⟨fuel, q, h, hq⟩
    rw [hloop] at h
    obtain ⟨t, -, -, hbefore, ht, rfl⟩ := uidivLoop_eq_some_iff.1 h
    -- the count has not wrapped around either, so the round is the quotient
    have hlt := first_exit_lt (fun j hj => hbefore j (Nat.zero_le j) hj) ht
    rw [UInt32.toNat_ofNat', Nat.mod_eq_of_lt hlt] at hq
    rwa [← hq]
  · intro h
    refine ⟨dividend.toNat / divisor.toNat + 1, UInt32.ofNat (dividend.toNat / divisor.toNat), ?_, ?_⟩
    · rw [hloop]
      exact uidivLoop_eq_some_iff.2 ⟨_, Nat.zero_le _, by omega,
        fun j _ hj => not_lt_multiple hj, h, rfl⟩
    · rw [UInt32.toNat_ofNat', Nat.mod_eq_of_lt hquotient]

theorem aeabiUidiv_returns_iff_seven : ReturnsQuotient 7 2 :=
  (aeabiUidiv_returns_iff (by decide)).2 (by decide)

/-- Nothing exceeds the greatest number. -/
theorem uidivLoop_max (b q newD : UInt32) (fuel : Nat) :
    uidivLoop 0xffffffff b fuel q newD = none := by
  induction fuel generalizing q newD with
  | zero => rfl
  | succ fuel ih =>
      have hnot : ¬ (0xffffffff : UInt32) < newD := by
        have hlt := newD.toNat_lt
        rw [UInt32.lt_iff_toNat_lt]
        exact Nat.not_lt.2 (Nat.le_of_lt_succ hlt)
      rw [uidivLoop, if_neg hnot]
      exact ih _ _

/-- The greatest number is not divided by 1. -/
theorem not_returnsQuotient : ¬ ∀ dividend divisor : UInt32,
    divisor ≠ 0 → ReturnsQuotient dividend divisor := by
  intro hall
  obtain ⟨fuel, q, h, -⟩ := hall 0xffffffff 1 (by decide)
  rw [aeabiUidiv, if_neg (by decide), uidivLoop_max] at h
  cases h

end Vmwos
