import Mathlib.Data.Fintype.Card

/-!
# Linked chains

A chain of cells is given by where it starts and by the successor of each cell;
`none` is the end. `chainAt next start k` is the `k`-th cell. A chain depends
only on the successors of its own cells (`chainAt_congr`), which is what lets a
store be changed elsewhere. A walk that takes the next pointer from the cell it is
leaving goes along two chains in turn (`crossAt`).
-/

set_option autoImplicit false

namespace Library

variable {α : Type*}

/-- The `k`-th cell of the chain from `start`. -/
def chainAt (next : α → Option α) (start : Option α) : Nat → Option α
  | 0 => start
  | k + 1 => (chainAt next start k).bind next

@[simp] theorem chainAt_zero (next : α → Option α) (start : Option α) :
    chainAt next start 0 = start := rfl

theorem chainAt_succ (next : α → Option α) (start : Option α) (k : Nat) :
    chainAt next start (k + 1) = (chainAt next start k).bind next := rfl

@[simp] theorem chainAt_none (next : α → Option α) (k : Nat) :
    chainAt next none k = none := by
  induction k with
  | zero => rfl
  | succ k ih => rw [chainAt_succ, ih, Option.bind_none]

/-- The rest of a chain is the chain from its second cell. -/
theorem chainAt_succ' (next : α → Option α) (start : Option α) (k : Nat) :
    chainAt next start (k + 1) = chainAt next (start.bind next) k := by
  induction k with
  | zero => rfl
  | succ k ih => rw [chainAt_succ, ih, chainAt_succ]

theorem chainAt_add (next : α → Option α) (start : Option α) (j k : Nat) :
    chainAt next start (j + k) = chainAt next (chainAt next start j) k := by
  induction k with
  | zero => rfl
  | succ k ih => rw [← Nat.add_assoc, chainAt_succ, ih, chainAt_succ]

/-- Every cell before a cell of the chain exists. -/
theorem chainAt_isSome_of_le {next : α → Option α} {start : Option α} {j k : Nat} {x : α}
    (h : chainAt next start k = some x) (hjk : j ≤ k) : ∃ y, chainAt next start j = some y := by
  obtain ⟨m, rfl⟩ := Nat.exists_eq_add_of_le hjk
  rw [chainAt_add] at h
  cases hj : chainAt next start j with
  | none =>
      rw [hj, chainAt_none] at h
      cases h
  | some y => exact ⟨y, rfl⟩

theorem chainAt_eq_none_of_le {next : α → Option α} {start : Option α} {j k : Nat}
    (h : chainAt next start j = none) (hjk : j ≤ k) : chainAt next start k = none := by
  obtain ⟨m, rfl⟩ := Nat.exists_eq_add_of_le hjk
  rw [chainAt_add, h, chainAt_none]

/-- A chain up to cell `k` is unchanged when the successors of the cells before
`k` are. -/
theorem chainAt_congr_of_lt {next next' : α → Option α} {start : Option α} {k : Nat}
    (h : ∀ j < k, ∀ x, chainAt next start j = some x → next' x = next x) :
    chainAt next' start k = chainAt next start k := by
  induction k with
  | zero => rfl
  | succ k ih =>
      have hk : chainAt next' start k = chainAt next start k :=
        ih fun j hj x hx => h j (Nat.lt_succ_of_lt hj) x hx
      rw [chainAt_succ, chainAt_succ, hk]
      cases hx : chainAt next start k with
      | none => rfl
      | some x => exact h k (Nat.lt_succ_self k) x hx

/-- A chain is unchanged when the successors of its cells are. -/
theorem chainAt_congr {next next' : α → Option α} {start : Option α}
    (h : ∀ j x, chainAt next start j = some x → next' x = next x) (k : Nat) :
    chainAt next' start k = chainAt next start k :=
  chainAt_congr_of_lt fun j _ x hx => h j x hx

/-- A chain that visits no cell twice, with cells numbered below `n`, has at most
`n` cells. -/
theorem chainAt_eq_none_of_bounded {next : α → Option α} {start : Option α} (f : α → Nat) {n : Nat}
    (hlt : ∀ k x, chainAt next start k = some x → f x < n)
    (hinj : ∀ i j x y, chainAt next start i = some x → chainAt next start j = some y →
      f x = f y → i = j) : chainAt next start n = none := by
  cases hn : chainAt next start n with
  | none => rfl
  | some y =>
      have hex : ∀ i : Fin (n + 1), ∃ x, chainAt next start i = some x := fun i =>
        chainAt_isSome_of_le hn (Nat.le_of_lt_succ i.isLt)
      choose g hg using hex
      have hcard := Fintype.card_le_of_injective
        (fun i : Fin (n + 1) => (⟨f (g i), hlt i (g i) (hg i)⟩ : Fin n))
        (fun i j hij => Fin.ext (hinj i j (g i) (g j) (hg i) (hg j) (Fin.mk.inj hij)))
      simp only [Fintype.card_fin] at hcard
      exact absurd hcard (Nat.not_succ_le_self n)

/-! ## Two chains at once -/

/-- The cells visited from cell `x` with pointer `p` in hand, when the pointer for the time
after is the link of the cell being left. -/
def crossAt (next : α → Option α) : α → Option α → Nat → Option α
  | _, p, 0 => p
  | x, p, n + 1 => p.bind fun y => crossAt next y (next x) n

/-- Such a walk alternates between the chain of the pointer and that of the cell. -/
theorem crossAt_eq_some {next : α → Option α} {x m : α} {p : Option α} {n : Nat}
    (h : crossAt next x p n = some m) :
    chainAt next (if n % 2 = 0 then p else next x) (n / 2) = some m := by
  induction n generalizing x p with
  | zero => exact h
  | succ n ih =>
      rw [crossAt] at h
      cases p with
      | none => cases h
      | some y =>
          have key := ih h
          rcases Nat.mod_two_eq_zero_or_one n with heven | hodd
          · rw [if_pos heven] at key
            rw [if_neg (by omega), show (n + 1) / 2 = n / 2 by omega, key]
          · rw [if_neg (by omega)] at key
            rw [if_pos (by omega), show (n + 1) / 2 = n / 2 + 1 by omega, chainAt_succ',
              Option.bind_some, key]

end Library
