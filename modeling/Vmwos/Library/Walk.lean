import Vmwos.Library.Chain
import Mathlib.Data.List.Range
import Mathlib.Order.Basic

/-!
# Walks along a chain

A walk follows a chain until a cell stops it or the chain ends. With finitely many cells a chain
that ends visits none of them twice, so a walk that has not come to an end after as many rounds
as there are cells never does (`walk_eq_none_iff`). On a chain that ends the result is the first
stop among its cells (`walk_eq_findSome`).
-/

set_option autoImplicit false

namespace Library

variable {α β : Type*}

/-- Follow a chain for so many rounds: `some (some b)` when a cell stops the walk, `some none` at
the end of the chain, `none` when the rounds are used up. -/
def walk (stop : α → Option β) (next : α → Option α) : Nat → α → Option (Option β)
  | 0, _ => none
  | n + 1, x =>
      match stop x with
      | some b => some (some b)
      | none =>
          match next x with
          | none => some none
          | some y => walk stop next n y

/-- The first `n` cells of a chain, as far as there are any. -/
def cells (next : α → Option α) (start : Option α) (n : Nat) : List α :=
  (List.range n).filterMap (chainAt next start)

/-- The successor, except that a cell that stops the walk has none. -/
def halting (stop : α → Option β) (next : α → Option α) (x : α) : Option α :=
  if (stop x).isSome then none else next x

variable {stop : α → Option β} {next : α → Option α}

theorem cells_succ (x : α) (n : Nat) :
    cells next (some x) (n + 1) = x :: cells next (next x) n := by
  have h : (fun k => chainAt next (some x) (k + 1)) = chainAt next (next x) := by
    funext k
    rw [chainAt_succ', Option.bind_some]
  rw [cells, List.range_succ_eq_map, List.filterMap_cons, chainAt_zero, List.filterMap_map, cells]
  exact congrArg (fun f => x :: (List.range n).filterMap f) h

/-! ## Chains that end -/

/-- A cell that comes back comes back for ever. -/
theorem chainAt_add_mul {start : Option α} {i p : Nat}
    (h : chainAt next start (i + p) = chainAt next start i) (m : Nat) :
    chainAt next start (i + m * p) = chainAt next start i := by
  induction m with
  | zero => rw [Nat.zero_mul, Nat.add_zero]
  | succ m ih =>
      have hstep : i + (m + 1) * p = (i + m * p) + p := by rw [Nat.succ_mul, Nat.add_assoc]
      rw [hstep, chainAt_add, ih, ← chainAt_add, h]

/-- A chain that ends visits no cell twice. -/
theorem chainAt_injective {start : Option α} {k : Nat} (hend : chainAt next start k = none)
    {i j : Nat} {x : α} (hi : chainAt next start i = some x) (hj : chainAt next start j = some x) :
    i = j := by
  have key (i p : Nat) (hi : chainAt next start i = some x)
      (hp : chainAt next start (i + p) = some x) : p = 0 := by
    by_contra hpos
    have hback : chainAt next start (i + k * p) = some x := by
      rw [chainAt_add_mul (by rw [hp, hi]) k, hi]
    have hle : k ≤ i + k * p :=
      Nat.le_trans (Nat.le_mul_of_pos_right k (Nat.pos_of_ne_zero hpos)) (Nat.le_add_left _ _)
    rw [chainAt_eq_none_of_le hend hle] at hback
    cases hback
  rcases Nat.le_total i j with hle | hle
  · obtain ⟨p, rfl⟩ := Nat.exists_eq_add_of_le hle
    rw [key i p hi hj, Nat.add_zero]
  · obtain ⟨p, rfl⟩ := Nat.exists_eq_add_of_le hle
    rw [key j p hj hi, Nat.add_zero]

/-- Nothing comes behind the end. -/
theorem cells_eq_of_ends {start : Option α} {k n : Nat} (hend : chainAt next start k = none)
    (hkn : k ≤ n) : cells next start n = cells next start k := by
  induction n, hkn using Nat.le_induction with
  | base => rfl
  | succ n hkn ih =>
      have hn : chainAt next start n = none := chainAt_eq_none_of_le hend hkn
      rw [← ih, cells, List.range_succ, List.filterMap_append, cells]
      simp [hn]

/-- With at most `n` cells a chain that ends is at its end after `n` cells. -/
theorem chainAt_eq_none_of_ends {start : Option α} {f : α → Nat} (hf : Function.Injective f)
    {n : Nat} (hlt : ∀ x, f x < n) (hend : ∃ k, chainAt next start k = none) :
    chainAt next start n = none := by
  obtain ⟨k, hk⟩ := hend
  refine chainAt_eq_none_of_bounded f (fun _ x _ => hlt x) fun i j x y hx hy hxy => ?_
  rw [← hf hxy] at hy
  exact chainAt_injective hk hx hy

/-- From some cell on a chain of finitely many cells, the next cell of a kind that comes up again
and again is never far. -/
theorem exists_cell_of_recurs {f : α → Nat} (hf : Function.Injective f) {n : Nat}
    (hlt : ∀ x, f x < n) {x : α} {p : α → Prop}
    (h : ∃ k y, chainAt next (some x) k = some y ∧ p y) :
    ∃ k < n, ∃ y, chainAt next (some x) k = some y ∧ p y := by
  classical
  -- the first cell of the kind; before it no cell comes twice
  let hex : ∃ k, ∃ y, chainAt next (some x) k = some y ∧ p y := h
  obtain ⟨y, hy, hp⟩ := Nat.find_spec hex
  refine ⟨Nat.find hex, ?_, y, hy, hp⟩
  have hinj (i j : Nat) (hij : i < j) (hj : j ≤ Nat.find hex) {z : α}
      (hi : chainAt next (some x) i = some z) : chainAt next (some x) j ≠ some z := by
    intro hjz
    obtain ⟨m, hm⟩ := Nat.exists_eq_add_of_le hj
    have hsame : chainAt next (some x) (i + m) = some y := by
      rw [chainAt_add, hi, ← hjz, ← chainAt_add, ← hm, hy]
    exact Nat.find_min hex (by omega) ⟨y, hsame, hp⟩
  have hsome (i : Fin (Nat.find hex + 1)) : ∃ z, chainAt next (some x) i = some z :=
    chainAt_isSome_of_le hy (Nat.le_of_lt_succ i.isLt)
  choose g hg using hsome
  have hcard := Fintype.card_le_of_injective
    (fun i : Fin (Nat.find hex + 1) => (⟨f (g i), hlt (g i)⟩ : Fin n)) (by
      intro i j hij
      have hcell : g i = g j := hf (Fin.mk.inj hij)
      have hgi := hg i
      rw [hcell] at hgi
      rcases Nat.lt_trichotomy i.val j.val with hlt | heq | hgt
      · exact absurd (hg j) (hinj i j hlt (Nat.le_of_lt_succ j.isLt) hgi)
      · exact Fin.ext heq
      · exact absurd hgi (hinj j i hgt (Nat.le_of_lt_succ i.isLt) (hg j)))
  simp only [Fintype.card_fin] at hcard
  omega

/-! ## Walks -/

/-- The rounds are used up when the chain that stops with the walk has not ended. -/
theorem walk_eq_none_iff_halting (n : Nat) (x : α) :
    walk stop next n x = none ↔ chainAt (halting stop next) (some x) n ≠ none := by
  induction n generalizing x with
  | zero => simp [walk]
  | succ n ih =>
      rw [walk, chainAt_succ', Option.bind_some, halting]
      cases stop x with
      | some b => simp
      | none =>
          cases hnext : next x with
          | none => simp
          | some y => simp [ih y]

/-- The halting chain is the chain as long as no cell has stopped it. -/
theorem chainAt_halting {start : Option α} {k : Nat}
    (h : ∀ j < k, ∀ y, chainAt next start j = some y → stop y = none) :
    chainAt (halting stop next) start k = chainAt next start k := by
  apply chainAt_congr_of_lt
  intro j hj y hy
  rw [halting, h j hj y hy]
  rfl

/-- The halting chain ends exactly when the chain ends or a cell of it stops the walk. -/
theorem halting_ends_iff {start : Option α} :
    (∃ k, chainAt (halting stop next) start k = none) ↔
      (∃ k, chainAt next start k = none) ∨
        ∃ k y, chainAt next start k = some y ∧ stop y ≠ none := by
  classical
  constructor
  · rintro ⟨k, hk⟩
    by_cases hstop : ∃ j y, chainAt next start j = some y ∧ stop y ≠ none
    · exact Or.inr hstop
    · push Not at hstop
      exact Or.inl ⟨k, by rw [← chainAt_halting fun j _ y hy => hstop j y hy, hk]⟩
  · by_cases hstop : ∃ j y, chainAt next start j = some y ∧ stop y ≠ none
    · intro _
      -- the first cell that stops the walk is the last of the halting chain
      obtain ⟨y, hy, hne⟩ := Nat.find_spec hstop
      have hfirst : chainAt (halting stop next) start (Nat.find hstop) = some y := by
        rw [chainAt_halting, hy]
        intro j hj z hz
        by_contra hz'
        exact Nat.find_min hstop hj ⟨z, hz, hz'⟩
      refine ⟨Nat.find hstop + 1, ?_⟩
      rw [chainAt_succ, hfirst, Option.bind_some, halting, if_pos (Option.isSome_iff_ne_none.2 hne)]
    · rintro (⟨k, hk⟩ | h)
      · push Not at hstop
        exact ⟨k, by rw [chainAt_halting fun j _ y hy => hstop j y hy, hk]⟩
      · exact absurd h hstop

/-- A walk of so many rounds that a halting chain is at its end then, if it has one, does not come
to an end exactly when the chain never ends and no cell of it stops the walk. -/
theorem walk_eq_none_iff_of_ends {n : Nat} {x : α}
    (hends : (∃ k, chainAt (halting stop next) (some x) k = none) →
      chainAt (halting stop next) (some x) n = none) :
    walk stop next n x = none ↔
      (∀ k, chainAt next (some x) k ≠ none) ∧
        ∀ k y, chainAt next (some x) k = some y → stop y = none := by
  have hiff : chainAt (halting stop next) (some x) n ≠ none ↔
      ¬ ∃ k, chainAt (halting stop next) (some x) k = none := by
    constructor
    · exact fun h hex => h (hends hex)
    · exact fun h hn => h ⟨n, hn⟩
  rw [walk_eq_none_iff_halting, hiff, halting_ends_iff]
  push Not
  rfl

/-- With at most `n` cells, a walk of `n` rounds does not come to an end exactly when the chain
never ends and no cell of it stops the walk. -/
theorem walk_eq_none_iff {f : α → Nat} (hf : Function.Injective f) {n : Nat} (hlt : ∀ x, f x < n)
    (x : α) :
    walk stop next n x = none ↔
      (∀ k, chainAt next (some x) k ≠ none) ∧
        ∀ k y, chainAt next (some x) k = some y → stop y = none :=
  walk_eq_none_iff_of_ends (chainAt_eq_none_of_ends hf hlt)

/-- Where a walk is stopped: at the first cell of the chain that stops one. -/
theorem walk_eq_some_some {n : Nat} {x : α} {b : β} (h : walk stop next n x = some (some b)) :
    ∃ k y, chainAt next (some x) k = some y ∧ stop y = some b ∧
      ∀ j < k, ∀ z, chainAt next (some x) j = some z → stop z = none := by
  induction n generalizing x with
  | zero => cases h
  | succ n ih =>
      rw [walk] at h
      cases hstop : stop x with
      | some c =>
          rw [hstop] at h
          cases h
          exact ⟨0, x, rfl, hstop, fun j hj => absurd hj (Nat.not_lt_zero j)⟩
      | none =>
          rw [hstop] at h
          cases hnext : next x with
          | none =>
              rw [hnext] at h
              cases h
          | some y =>
              rw [hnext] at h
              obtain ⟨k, z, hz, hb, hbefore⟩ := ih h
              refine ⟨k + 1, z, ?_, hb, ?_⟩
              · rw [chainAt_succ', Option.bind_some, hnext, hz]
              · intro j hj w hw
                cases j with
                | zero =>
                    cases hw
                    exact hstop
                | succ j =>
                    rw [chainAt_succ', Option.bind_some, hnext] at hw
                    exact hbefore j (Nat.lt_of_succ_lt_succ hj) w hw

/-- A walk that comes to the end of the chain has been stopped by no cell. -/
theorem walk_eq_some_none {n : Nat} {x : α} (h : walk stop next n x = some none) (k : Nat) (y : α)
    (hy : chainAt next (some x) k = some y) : stop y = none := by
  induction n generalizing x k with
  | zero => cases h
  | succ n ih =>
      rw [walk] at h
      cases hstop : stop x with
      | some c =>
          rw [hstop] at h
          cases h
      | none =>
          rw [hstop] at h
          cases k with
          | zero =>
              cases hy
              exact hstop
          | succ k =>
              rw [chainAt_succ', Option.bind_some] at hy
              cases hnext : next x with
              | none =>
                  rw [hnext, chainAt_none] at hy
                  cases hy
              | some z =>
                  rw [hnext] at h hy
                  exact ih h k hy

/-! ## Chains of numbers -/

/-- A chain of numbers that are all below `n`, save perhaps the first, is at its end after `n + 1`
of them if it ends. -/
theorem chainAt_eq_none_of_lt {next : Nat → Option Nat} {n : Nat}
    (hlt : ∀ x y, next x = some y → y < n) {x : Nat}
    (hend : ∃ k, chainAt next (some x) k = none) : chainAt next (some x) (n + 1) = none := by
  obtain ⟨k, hk⟩ := hend
  -- only the first cell can be `n` or more
  have hcell : ∀ i y, chainAt next (some x) i = some y → i = 0 ∨ y < n := by
    intro i y hy
    cases i with
    | zero => exact Or.inl rfl
    | succ i =>
        rw [chainAt_succ] at hy
        obtain ⟨z, -, hz⟩ := Option.bind_eq_some_iff.1 hy
        exact Or.inr (hlt z y hz)
  refine chainAt_eq_none_of_bounded (fun y => min y n) ?_ ?_
  · intro _ y _
    exact Nat.lt_succ_of_le (Nat.min_le_right y n)
  · intro i j y z hy hz heq
    have heq : min y n = min z n := heq
    have hsame : (i = 0 ∧ j = 0) ∨ y = z := by
      have hi := hcell i y hy
      have hj := hcell j z hz
      omega
    rcases hsame with ⟨rfl, rfl⟩ | rfl
    · rfl
    · exact chainAt_injective hk hy hz

/-- A walk along numbers below `n`. -/
theorem walk_eq_none_iff_of_lt {stop : Nat → Option β} {next : Nat → Option Nat} {n : Nat}
    (hlt : ∀ x y, next x = some y → y < n) (x : Nat) :
    walk stop next (n + 1) x = none ↔
      (∀ k, chainAt next (some x) k ≠ none) ∧
        ∀ k y, chainAt next (some x) k = some y → stop y = none := by
  apply walk_eq_none_iff_of_ends
  apply chainAt_eq_none_of_lt
  intro y z hz
  unfold halting at hz
  split at hz
  · cases hz
  · exact hlt y z hz

/-- On a chain that ends the walk finds the first stop among its cells. -/
theorem walk_eq_findSome {n : Nat} {x : α} (hend : chainAt next (some x) n = none) :
    walk stop next n x = some ((cells next (some x) n).findSome? stop) := by
  induction n generalizing x with
  | zero => cases hend
  | succ n ih =>
      rw [chainAt_succ', Option.bind_some] at hend
      rw [walk, cells_succ, List.findSome?_cons]
      cases stop x with
      | some b => rfl
      | none =>
          cases hnext : next x with
          | none =>
              have hnil : cells next none n = [] := by simp [cells]
              rw [hnil]
              rfl
          | some y =>
              rw [hnext] at hend
              exact ih hend

end Library
