import Mathlib.Data.Nat.Digits.Lemmas

/-!
# Numerals

The numeral of a number in a base, most significant digit first; zero has the one digit 0. A loop
that divides by the base until nothing is left makes the digits from the last one on
(`numeral_of_lt`, `numeral_of_le`). `numeral_canonical` says what makes it the numeral.
-/

set_option autoImplicit false

namespace Library

/-- The digits of a number, most significant first. -/
def numeral (base x : Nat) : List Nat := if x = 0 then [0] else (Nat.digits base x).reverse

section Numeral

variable {base x : Nat}

theorem numeral_of_lt (hx : x < base) : numeral base x = [x] := by
  unfold numeral
  split
  · rename_i hzero
    rw [hzero]
  · rename_i hne
    rw [Nat.digits_of_lt base x hne hx, List.reverse_singleton]

theorem numeral_of_le (hbase : 1 < base) (hx : base ≤ x) :
    numeral base x = numeral base (x / base) ++ [x % base] := by
  have hpos : 0 < x := Nat.lt_of_lt_of_le (Nat.lt_trans Nat.zero_lt_one hbase) hx
  have hdiv : x / base ≠ 0 := (Nat.div_pos hx (Nat.lt_trans Nat.zero_lt_one hbase)).ne'
  rw [numeral, numeral, if_neg hpos.ne', if_neg hdiv, Nat.digits_def' hbase hpos, List.reverse_cons]

theorem numeral_ne_nil : numeral base x ≠ [] := by
  unfold numeral
  split
  · exact List.cons_ne_nil _ _
  · rename_i hne
    rw [Ne, List.reverse_eq_nil_iff]
    exact Nat.digits_ne_nil_iff_ne_zero.2 hne

theorem length_numeral_le {k : Nat} (hbase : 1 < base) (hk : 0 < k) (hx : x < base ^ k) :
    (numeral base x).length ≤ k := by
  unfold numeral
  split
  · exact hk
  · rw [List.length_reverse]
    exact (Nat.digits_length_le_iff hbase x).2 hx

/-! ## What numerals stand for -/

/-- The number that digits stand for. -/
def ofNumeral (base : Nat) (ds : List Nat) : Nat := ds.foldl (fun n d => n * base + d) 0

/-- Digits below the base that stand for a number, without leading zeros. -/
structure IsNumeral (base x : Nat) (ds : List Nat) : Prop where
  value : ofNumeral base ds = x
  lt : ∀ d ∈ ds, d < base
  leading : ds.head? = some 0 → ds = [0]
  ne_nil : ds ≠ []

theorem ofNumeral_append_singleton (ds : List Nat) (d : Nat) :
    ofNumeral base (ds ++ [d]) = ofNumeral base ds * base + d := by
  rw [ofNumeral, List.foldl_append]
  rfl

theorem ofNumeral_singleton (d : Nat) : ofNumeral base [d] = d := by
  simp [ofNumeral]

/-- The numeral is the numeral, by induction on the number: the last digit is its remainder. -/
theorem numeral_canonical (hbase : 1 < base) (x : Nat) : IsNumeral base x (numeral base x) := by
  induction x using Nat.strongRecOn with
  | ind x ih =>
      by_cases hx : x < base
      · rw [numeral_of_lt hx]
        refine ⟨ofNumeral_singleton x, List.forall_mem_singleton.2 hx, ?_, ?_⟩
        · intro hzero
          rw [Option.some.inj hzero]
        · exact List.cons_ne_nil _ _
      · have hle : base ≤ x := Nat.le_of_not_lt hx
        have hzero : 0 < base := Nat.lt_trans Nat.zero_lt_one hbase
        have hpos : 0 < x := Nat.lt_of_lt_of_le hzero hle
        have hrest := ih (x / base) (Nat.div_lt_self hpos hbase)
        rw [numeral_of_le hbase hle]
        refine ⟨?_, ?_, ?_, List.append_ne_nil_of_left_ne_nil hrest.ne_nil _⟩
        · rw [ofNumeral_append_singleton, hrest.value]
          exact Nat.div_add_mod' x base
        · intro d hd
          rcases List.mem_append.1 hd with hd | hd
          · exact hrest.lt d hd
          · rw [List.mem_singleton.1 hd]
            exact Nat.mod_lt x hzero
        · intro hhead
          rw [List.head?_append_of_ne_nil _ hrest.ne_nil] at hhead
          -- the digits before would stand for zero
          have hvalue := hrest.value
          rw [hrest.leading hhead, ofNumeral_singleton] at hvalue
          have hquotient : 0 < x / base := Nat.div_pos hle hzero
          exact absurd hvalue.symm (Nat.ne_of_gt hquotient)

end Numeral

end Library
