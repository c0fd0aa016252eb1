import Mathlib.Data.FinEnum
import Mathlib.Tactic.NormNum.Prime
import Vmwos.Library.BitLinear

/-!
# Pseudo-random numbers

`rand` with its static `x`. Its step is linear over the bits, and its period is as long as it can be
(`period_eq`), so that it returns every value but 0 once before it returns one again.
-/

set_option autoImplicit false

namespace Vmwos

namespace Random

open Function Library.BitLinear

/-- `x` before the first call. -/
def seed : BitVec 32 := 0xfeb13#32

/-- `rand`: what it returns, and `x` after it. -/
def rand (x : BitVec 32) : Int × BitVec 32 :=
  let x := x ^^^ (x <<< 13)
  let x := x ^^^ (x >>> 17)
  let x := x ^^^ (x <<< 5)
  (x.toInt, x)

/-- `x` after `n` calls. -/
def stateAfter (n : Nat) : BitVec 32 := (fun x => (rand x).2)^[n] seed

/-- What the call after `n` others returns. -/
def call (n : Nat) : Int := (rand (stateAfter n)).1

/-- How many values there are besides 0. -/
abbrev period : Nat := 4294967295

/-! ## The step -/

theorem call_eq (n : Nat) : call n = (stateAfter (n + 1)).toInt := by
  rw [stateAfter, iterate_succ_apply']
  rfl

theorem rand_linear : Linear fun x => (rand x).2 := by
  have h₁ : Linear fun x : BitVec 32 => x ^^^ (x <<< 13) := linear_id.xor (linear_shiftLeft 13)
  have h₂ : Linear fun x : BitVec 32 => x ^^^ (x >>> 17) := linear_id.xor (linear_ushiftRight 17)
  have h₃ : Linear fun x : BitVec 32 => x ^^^ (x <<< 5) := linear_id.xor (linear_shiftLeft 5)
  exact h₃.comp (h₂.comp h₁)

/-- After `period` calls `x` is again what it was, after a part of them by a prime factor it is
not. -/
theorem forward_period : [1, 3, 5, 17, 257, 65537].map (fun p =>
      decide (forward 32 (columns fun x => (rand x).2) (period / p) seed.toNat = seed.toNat)) =
    [true, false, false, false, false, false] := by
  decide +kernel

theorem isPeriodicPt_iff {n : Nat} (hn : n < 2 ^ 32) :
    IsPeriodicPt (fun x => (rand x).2) n seed ↔
      forward 32 (columns fun x => (rand x).2) n seed.toNat = seed.toNat := by
  rw [forward_columns rand_linear hn, BitVec.toNat_inj]
  rfl

theorem prime_dvd_period {p : Nat} (hp : p.Prime) (hdvd : p ∣ period) :
    p = 3 ∨ p = 5 ∨ p = 17 ∨ p = 257 ∨ p = 65537 := by
  have hfactors : period = 3 * (5 * (17 * (257 * 65537))) := rfl
  have heq {q : Nat} (hq : q.Prime) : p ∣ q → p = q := (Nat.prime_dvd_prime_iff_eq hp hq).1
  rw [hfactors, hp.dvd_mul, hp.dvd_mul, hp.dvd_mul, hp.dvd_mul] at hdvd
  exact hdvd.imp (heq (by norm_num)) (.imp (heq (by norm_num)) (.imp (heq (by norm_num))
    (.imp (heq (by norm_num)) (heq (by norm_num)))))

theorem period_eq : minimalPeriod (fun x => (rand x).2) seed = period := by
  have hforward := forward_period
  simp only [List.map_cons, List.map_nil, List.cons.injEq, decide_eq_true_eq, decide_eq_false_iff_not,
    and_true] at hforward
  obtain ⟨h1, h3, h5, h17, h257, h65537⟩ := hforward
  refine minimalPeriod_eq ((isPeriodicPt_iff (by decide)).2 h1) fun p hp hdvd => ?_
  rcases prime_dvd_period hp hdvd with rfl | rfl | rfl | rfl | rfl
  · exact fun h => h3 ((isPeriodicPt_iff (by decide)).1 h)
  · exact fun h => h5 ((isPeriodicPt_iff (by decide)).1 h)
  · exact fun h => h17 ((isPeriodicPt_iff (by decide)).1 h)
  · exact fun h => h257 ((isPeriodicPt_iff (by decide)).1 h)
  · exact fun h => h65537 ((isPeriodicPt_iff (by decide)).1 h)

/-! ## What is returned -/

/-- From any state that a run gets to, every word but 0 comes up once. -/
theorem existsUnique_state (start : Nat) {y : BitVec 32} (hy : y ≠ 0#32) :
    ∃! k, k < period ∧ stateAfter (start + k) = y := by
  have hperiodic : seed ∈ periodicPts (fun x => (rand x).2) := by
    rw [← minimalPeriod_pos_iff_mem_periodicPts, period_eq]
    decide
  have hsame : minimalPeriod (fun x => (rand x).2) (stateAfter start) = period :=
    (minimalPeriod_apply_iterate hperiodic start).trans period_eq
  have hstart : stateAfter start ≠ 0#32 := by
    intro hzero
    have hone : minimalPeriod (fun x => (rand x).2) (0#32) = 1 :=
      minimalPeriod_eq_one_iff_isFixedPt.2 rand_linear.zero
    rw [hzero, hone] at hsame
    exact absurd hsame (by decide)
  have hcard : minimalPeriod (fun x => (rand x).2) (stateAfter start) + 1 =
      Fintype.card (BitVec 32) := by
    rw [hsame, ← FinEnum.card_eq_fintypeCard, FinEnum.card_bitVec]
    rfl
  have hall := existsUnique_iterate rand_linear.zero hstart hcard hy
  rw [hsame] at hall
  have hiterate (k : Nat) : stateAfter (start + k) = (fun x => (rand x).2)^[k] (stateAfter start) := by
    rw [add_comm, stateAfter, iterate_add_apply]
    rfl
  obtain ⟨k, ⟨hk, hk'⟩, hunique⟩ := hall
  exact ⟨k, ⟨hk, (hiterate k).trans hk'⟩, fun j hj => hunique j ⟨hj.1, (hiterate j).symm.trans hj.2⟩⟩

theorem stateAfter_ne_zero (n : Nat) : stateAfter n ≠ 0#32 := by
  intro hzero
  -- from 0 on `x` would stay 0, and every other word comes up
  obtain ⟨k, ⟨-, hk⟩, -⟩ := existsUnique_state n (show 1#32 ≠ 0#32 by decide)
  rw [stateAfter, add_comm, iterate_add_apply, ← stateAfter, hzero,
    iterate_fixed rand_linear.zero] at hk
  exact absurd hk (by decide)

/-- `rand` never returns 0, and of any `period` calls in a row exactly one returns each other
value. -/
theorem rand_each_once : (∀ n, call n ≠ 0) ∧ ∀ (start : Nat) (v : Int),
    -2147483648 ≤ v → v < 2147483648 → v ≠ 0 → ∃! k, k < period ∧ call (start + k) = v := by
  constructor
  · intro n hzero
    rw [call_eq] at hzero
    exact stateAfter_ne_zero (n + 1) (BitVec.toInt_inj.1 hzero)
  · intro start v hlow hhigh hne
    have hv : (BitVec.ofInt 32 v).toInt = v := by
      rw [BitVec.toInt_ofInt]
      exact Int.bmod_eq_of_le hlow hhigh
    have hy : BitVec.ofInt 32 v ≠ 0#32 := by
      intro hzero
      rw [hzero] at hv
      exact hne hv.symm
    have hcall (k : Nat) : call (start + k) = v ↔ stateAfter (start + 1 + k) = BitVec.ofInt 32 v := by
      rw [call_eq, add_right_comm, ← BitVec.toInt_inj, hv]
    obtain ⟨k, ⟨hk, hk'⟩, hunique⟩ := existsUnique_state (start + 1) hy
    exact ⟨k, ⟨hk, (hcall k).2 hk'⟩, fun j hj => hunique j ⟨hj.1, (hcall j).1 hj.2⟩⟩

theorem rand_each_once_one : (∀ n, call n ≠ 0) ∧ ∃! k, k < period ∧ call (0 + k) = 1 :=
  ⟨rand_each_once.1, rand_each_once.2 0 1 (by decide) (by decide) (by decide)⟩

end Random

end Vmwos
