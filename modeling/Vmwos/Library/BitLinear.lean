import Mathlib.Data.Nat.Bitwise
import Mathlib.Dynamics.PeriodicPts.Lemmas
import Mathlib.Tactic.Ring

/-!
# Linear steps on words

A step of a generator that is made of shifts and exclusive ors is linear over the bits of a word. It
is known by what it does to the words of one bit (`columns`), and its iterates are reached by squaring
(`forward`), so that a period of `2 ^ w - 1` steps can be computed. A word whose period under a step
is that long passes every word but one (`existsUnique_iterate`).
-/

set_option autoImplicit false

namespace Library.BitLinear

open Function

/-! ## Linear steps -/

section Linear

variable {w : Nat} {f g : BitVec w → BitVec w}

def Linear (f : BitVec w → BitVec w) : Prop := ∀ a b, f (a ^^^ b) = f a ^^^ f b

theorem Linear.zero (hf : Linear f) : f 0#w = 0#w := by
  have h := hf 0#w 0#w
  rwa [BitVec.xor_self, BitVec.xor_self] at h

theorem Linear.comp (hf : Linear f) (hg : Linear g) : Linear (f ∘ g) := fun a b => by
  rw [comp_apply, hg, hf]
  rfl

theorem linear_id : Linear (id : BitVec w → BitVec w) := fun _ _ => rfl

theorem Linear.xor (hf : Linear f) (hg : Linear g) : Linear fun x => f x ^^^ g x := fun a b => by
  dsimp only
  rw [hf, hg]
  ac_rfl

theorem linear_shiftLeft (k : Nat) : Linear fun x : BitVec w => x <<< k := fun a b =>
  BitVec.shiftLeft_xor_distrib a b k

theorem linear_ushiftRight (k : Nat) : Linear fun x : BitVec w => x >>> k := fun a b =>
  BitVec.ushiftRight_xor_distrib a b k

end Linear

/-! ## Columns -/

/-- The exclusive or of the columns at the bits of `n`. -/
def combine : List Nat → Nat → Nat
  | [], _ => 0
  | c :: cs, n => if n % 2 = 1 then c ^^^ combine cs (n / 2) else combine cs (n / 2)

/-- The columns of a step after itself. -/
def square (cs : List Nat) : List Nat := cs.map (combine cs)

/-- `n` steps, with the columns squared at each bit of `n`. -/
def forward : (bits : Nat) → List Nat → (n x : Nat) → Nat
  | 0, _, _, x => x
  | bits + 1, cs, n, x => forward bits (square cs) (n / 2) (if n % 2 = 1 then combine cs x else x)

section Columns

variable {w : Nat} {f g : BitVec w → BitVec w}

/-- What a step makes of the words with one bit. -/
def columns (f : BitVec w → BitVec w) : List Nat :=
  (List.range w).map fun i => (f (BitVec.ofNat w (2 ^ i))).toNat

/-- A bit and the bits above it. -/
theorem two_pow_xor (k q : Nat) : 2 ^ k ^^^ 2 ^ (k + 1) * q = 2 ^ k * (1 + 2 * q) := by
  have hone : 1 ^^^ 2 * q = 1 + 2 * q := by
    rw [Nat.xor_comm, Nat.xor_one_of_even (even_two_mul q), add_comm]
  calc 2 ^ k ^^^ 2 ^ (k + 1) * q = 1 <<< k ^^^ (2 * q) <<< k := by
        rw [Nat.shiftLeft_eq, Nat.shiftLeft_eq, one_mul, pow_succ]
        congr 1
        ring
    _ = 2 ^ k * (1 + 2 * q) := by rw [← Nat.shiftLeft_xor_distrib, hone, Nat.shiftLeft_eq, mul_comm]

/-- The bits from `k` on. -/
theorem combine_range' (hf : Linear f) (k length m : Nat) :
    combine ((List.range' k length).map fun i => (f (BitVec.ofNat w (2 ^ i))).toNat) m =
      (f (BitVec.ofNat w (2 ^ k * (m % 2 ^ length)))).toNat := by
  induction length generalizing k m with
  | zero =>
      rw [pow_zero, Nat.mod_one, mul_zero, hf.zero]
      rfl
  | succ length ih =>
      rw [List.range'_succ, List.map_cons, combine, ih]
      have hmod : m % 2 ^ (length + 1) = m % 2 + 2 * (m / 2 % 2 ^ length) := by
        rw [pow_succ', Nat.mod_mul]
      rcases Nat.mod_two_eq_zero_or_one m with heven | hodd
      · rw [if_neg (by omega), hmod, heven, zero_add, pow_succ, mul_assoc]
      · rw [if_pos hodd, ← BitVec.toNat_xor, ← hf, ← BitVec.ofNat_xor, two_pow_xor, hmod, hodd]

theorem combine_columns (hf : Linear f) (x : BitVec w) :
    combine (columns f) x.toNat = (f x).toNat := by
  rw [columns, List.range_eq_range', combine_range' hf, pow_zero, one_mul,
    Nat.mod_eq_of_lt x.isLt, BitVec.ofNat_toNat, BitVec.setWidth_eq]

theorem square_columns (hf : Linear f) : square (columns f) = columns (f ∘ f) := by
  rw [square]
  nth_rewrite 2 [columns]
  rw [columns, List.map_map]
  refine List.map_congr_left fun i _ => ?_
  exact combine_columns hf _

theorem forward_columns {bits n : Nat} (hf : Linear f) (hn : n < 2 ^ bits) (x : BitVec w) :
    forward bits (columns f) n x.toNat = (f^[n] x).toNat := by
  induction bits generalizing f n x with
  | zero =>
      have hzero : n = 0 := by omega
      rw [hzero]
      rfl
  | succ bits ih =>
      have hhalf : n / 2 < 2 ^ bits := by
        rw [pow_succ] at hn
        omega
      have hiterate : f^[n] x = (f ∘ f)^[n / 2] (f^[n % 2] x) := by
        have htwice : f ∘ f = f^[2] := rfl
        rw [htwice, ← iterate_mul, ← iterate_add_apply, Nat.div_add_mod]
      have hbit : (if n % 2 = 1 then combine (columns f) x.toNat else x.toNat) =
          (f^[n % 2] x).toNat := by
        rcases Nat.mod_two_eq_zero_or_one n with heven | hodd
        · rw [heven]
          rfl
        · rw [hodd, if_pos rfl, combine_columns hf]
          rfl
      rw [forward, square_columns hf, hbit, ih (hf.comp hf) hhalf, hiterate]

end Columns

/-! ## Orbits -/

section Orbits

variable {α : Type*} {f : α → α} {x : α} {n : Nat}

/-- A period that no prime factor can be left out of. -/
theorem minimalPeriod_eq (hperiod : IsPeriodicPt f n x)
    (hprime : ∀ p, p.Prime → p ∣ n → ¬ IsPeriodicPt f (n / p) x) : minimalPeriod f x = n := by
  by_contra hne
  obtain ⟨k, hk⟩ := hperiod.minimalPeriod_dvd
  have hk1 : k ≠ 1 := fun h1 => hne (by rw [hk, h1, mul_one])
  obtain ⟨p, hp, q, rfl⟩ := Nat.exists_prime_and_dvd hk1
  refine hprime p hp ⟨minimalPeriod f x * q, by rw [hk]; ring⟩ ?_
  have hquotient : n / p = minimalPeriod f x * q := by
    refine Nat.div_eq_of_eq_mul_left hp.pos ?_
    rw [hk]
    ring
  rw [hquotient]
  exact (isPeriodicPt_minimalPeriod f x).mul_const q

/-- An orbit that has as many elements as there are besides a fixed point `z`. -/
theorem existsUnique_iterate [Fintype α] [DecidableEq α] {z y : α} (hz : f z = z) (hx : x ≠ z)
    (hcard : minimalPeriod f x + 1 = Fintype.card α) (hy : y ≠ z) :
    ∃! k, k < minimalPeriod f x ∧ f^[k] x = y := by
  have hpos : 0 < minimalPeriod f x := by
    have htwo := Fintype.one_lt_card_iff.2 ⟨x, z, hx⟩
    omega
  have hne (k : Nat) : f^[k] x ≠ z := by
    intro hk
    have hreturn := (isPeriodicPt_minimalPeriod f x).mul_const k
    have hle : k ≤ minimalPeriod f x * k := Nat.le_mul_of_pos_left k hpos
    rw [← Nat.sub_add_cancel hle, IsPeriodicPt, IsFixedPt, iterate_add_apply, hk,
      iterate_fixed hz] at hreturn
    exact hx hreturn.symm
  have hinj := @iterate_injOn_Iio_minimalPeriod _ f x
  -- the orbit has as many elements as there are besides `z`
  have hall : (Finset.range (minimalPeriod f x)).image (f^[·] x) = Finset.univ.erase z := by
    refine Finset.eq_of_subset_of_card_le (fun y hy => ?_) ?_
    · obtain ⟨k, -, rfl⟩ := Finset.mem_image.1 hy
      exact Finset.mem_erase.2 ⟨hne k, Finset.mem_univ _⟩
    · rw [Finset.card_image_of_injOn (by rwa [Finset.coe_range]), Finset.card_range,
        Finset.card_erase_of_mem (Finset.mem_univ z), Finset.card_univ, ← hcard, Nat.add_sub_cancel]
  have hmem : y ∈ (Finset.range (minimalPeriod f x)).image (f^[·] x) :=
    hall ▸ Finset.mem_erase.2 ⟨hy, Finset.mem_univ y⟩
  obtain ⟨k, hk, rfl⟩ := Finset.mem_image.1 hmem
  rw [Finset.mem_range] at hk
  exact ⟨k, ⟨hk, rfl⟩, fun j hj => hinj hj.1 hk hj.2⟩

end Orbits

end Library.BitLinear
