import Mathlib.Algebra.BigOperators.Fin
import Mathlib.Algebra.Order.BigOperators.Group.Finset
import Mathlib.Data.Fintype.BigOperators

/-!
# References

Holders have references to resources, any number of each. `references` counts those that all the
holders have to one resource; when one holder changes, the sum changes by the difference
(`references_update`). A holder is often a pointer that stands for a number of references
(`through`): a table of pointers is a family of such holders, and the table is itself a holder of
what its pointers have together.
-/

set_option autoImplicit false

namespace Library

variable {ι ρ M : Type*}

/-- A sum in which one term has been replaced. -/
theorem sum_update_add [Fintype ι] [DecidableEq ι] [AddCommMonoid M] (f : ι → M) (i : ι) (b : M) :
    ∑ j, Function.update f i b j + f i = ∑ j, f j + b := by
  rw [Finset.sum_update_of_mem (Finset.mem_univ i), Finset.sdiff_singleton_eq_erase,
    ← Finset.add_sum_erase Finset.univ f (Finset.mem_univ i), add_comm b, add_comm (f i),
    add_right_comm]

/-- The references that all holders have to a resource. -/
def references [Fintype ι] (held : ι → ρ → Nat) (r : ρ) : Nat := ∑ i, held i r

/-- One holder changes. -/
theorem references_update [Fintype ι] [DecidableEq ι] (held : ι → ρ → Nat) (i : ι) (held' : ρ → Nat)
    (r : ρ) :
    references (Function.update held i held') r + held i r = references held r + held' r := by
  have hterm : ∀ j, Function.update held i held' j r =
      Function.update (fun j => held j r) i (held' r) j := by
    intro j
    by_cases hj : j = i
    · subst hj
      simp
    · simp [hj]
  simp only [references, hterm]
  exact sum_update_add (fun j => held j r) i (held' r)

/-- A holder has no more references than all have together. -/
theorem held_le_references [Fintype ι] (held : ι → ρ → Nat) (i : ι) (r : ρ) :
    held i r ≤ references held r :=
  Finset.single_le_sum (f := fun j => held j r) (fun _ _ => Nat.zero_le _) (Finset.mem_univ i)

/-- A pointer that stands for `n` references. -/
def through [DecidableEq ρ] (n : Nat) (pointer : Option ρ) (r : ρ) : Nat :=
  if pointer = some r then n else 0

variable [DecidableEq ρ]

@[simp] theorem through_none (n : Nat) (r : ρ) : through n none r = 0 := rfl

@[simp] theorem through_zero (pointer : Option ρ) (r : ρ) : through 0 pointer r = 0 :=
  ite_self 0

@[simp] theorem through_some (n : Nat) (r r' : ρ) :
    through n (some r) r' = if r = r' then n else 0 := by
  simp [through]

/-- What a table of pointers has, one reference each. -/
def tableReferences [Fintype ι] (table : ι → Option ρ) : ρ → Nat :=
  references fun i => through 1 (table i)

/-- One pointer of a table changes. -/
theorem tableReferences_update [Fintype ι] [DecidableEq ι] (table : ι → Option ρ) (i : ι)
    (pointer : Option ρ) (r : ρ) :
    tableReferences (Function.update table i pointer) r + through 1 (table i) r =
      tableReferences table r + through 1 pointer r := by
  have hupdate : (fun j => through 1 (Function.update table i pointer j)) =
      Function.update (fun j => through 1 (table j)) i (through 1 pointer) := by
    funext j
    by_cases hj : j = i
    · subst hj
      simp
    · simp [hj]
  rw [tableReferences, hupdate, references_update]
  rfl

/-- A pointer of a table is counted. -/
theorem tableReferences_pos [Fintype ι] {table : ι → Option ρ} {i : ι} {r : ρ}
    (h : table i = some r) : 0 < tableReferences table r := by
  have hle := held_le_references (fun i => through 1 (table i)) i r
  simp only [h, through_some, if_true] at hle
  exact hle

/-- What the pointers at some places of a table have. -/
def listReferences (table : ι → Option ρ) (places : List ι) (r : ρ) : Nat :=
  (places.map fun i => through 1 (table i) r).sum

@[simp] theorem listReferences_nil (table : ι → Option ρ) (r : ρ) : listReferences table [] r = 0 :=
  rfl

@[simp] theorem listReferences_cons (table : ι → Option ρ) (i : ι) (places : List ι) (r : ρ) :
    listReferences table (i :: places) r = through 1 (table i) r + listReferences table places r := by
  simp [listReferences]

/-- All the places of a table. -/
theorem listReferences_finRange {n : Nat} (table : Fin n → Option ρ) (r : ρ) :
    listReferences table (List.finRange n) r = tableReferences table r :=
  (Fin.sum_univ_def fun i => through 1 (table i) r).symm

/-- One of many tables is exchanged. -/
theorem references_tables_update {κ : Type*} [Fintype ι] [Fintype κ] [DecidableEq κ]
    (tables : κ → ι → Option ρ) (k : κ) (table : ι → Option ρ) (r : ρ) :
    references (fun j => tableReferences (Function.update tables k table j)) r +
        tableReferences (tables k) r =
      references (fun j => tableReferences (tables j)) r + tableReferences table r := by
  have hupdate : (fun j => tableReferences (Function.update tables k table j)) =
      Function.update (fun j => tableReferences (tables j)) k (tableReferences table) := by
    funext j
    by_cases hj : j = k
    · subst hj
      simp
    · simp [hj]
  rw [hupdate, references_update]

@[simp] theorem tableReferences_empty [Fintype ι] (r : ρ) :
    tableReferences (fun _ : ι => none) r = 0 := by
  simp [tableReferences, references]

/-! ## Counting -/

/-- The references of the tables of all holders, counted. -/
theorem references_tables_eq_card {κ : Type*} [Fintype ι] [Fintype κ] (tables : κ → ι → Option ρ)
    (r : ρ) : references (fun k => tableReferences (tables k)) r =
      (Finset.univ.filter fun q : κ × ι => tables q.1 q.2 = some r).card := by
  rw [Finset.card_filter, Fintype.sum_prod_type]
  rfl

/-- The references through pointers, summed over those that lead there. -/
theorem references_through_eq_sum [Fintype ι] (n : ι → Nat) (pointer : ι → Option ρ) (r : ρ) :
    references (fun i => through (n i) (pointer i)) r = ∑ i with pointer i = some r, n i := by
  simp [references, through, Finset.sum_filter]

end Library
