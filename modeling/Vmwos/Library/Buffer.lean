import Mathlib.Data.List.Basic

/-!
# Buffers

A block of allocated memory is the list of its cells. A new block holds whatever it holds
(`junk`), and an access reaches every cell it names or fails. The lemmas describe an access to a
buffer that is put together from the parts before, at and after the cells it names.
-/

set_option autoImplicit false

namespace Library

namespace Buffer

variable {α : Type*} (junk : Nat → α)

/-- A new buffer of `n` cells. -/
def alloc (n : Nat) : List α := (List.range n).map junk

/-- The buffer with at least `n` cells. -/
def grow (b : List α) (n : Nat) : List α := b ++ (alloc junk n).drop b.length

/-- The `n` cells from `i` on. -/
def load (b : List α) (i n : Nat) : Option (List α) :=
  if i + n ≤ b.length then some ((b.drop i).take n) else none

/-- Store cells from `i` on. -/
def store (b : List α) (i : Nat) (xs : List α) : Option (List α) :=
  if i + xs.length ≤ b.length then some (b.take i ++ xs ++ b.drop (i + xs.length)) else none

/-- Copy `n` cells within a buffer, where the two places may overlap. -/
def move (b : List α) (dst src n : Nat) : Option (List α) := (load b src n).bind (store b dst)

theorem length_alloc (n : Nat) : (alloc junk n).length = n := by
  rw [alloc, List.length_map, List.length_range]

theorem length_grow (b : List α) (n : Nat) : (grow junk b n).length = max b.length n := by
  rw [grow, List.length_append, List.length_drop, length_alloc]
  omega

/-- A buffer that is grown keeps its cells, and has room for as many as asked for. -/
theorem exists_grow (b pre rest xs : List α) (n : Nat) (hb : b = pre ++ rest)
    (hn : pre.length + xs.length ≤ n) :
    ∃ ys post, grow junk b n = pre ++ ys ++ post ∧ ys.length = xs.length := by
  subst hb
  have hlen : pre.length + xs.length ≤ (grow junk (pre ++ rest) n).length := by
    rw [length_grow]
    exact Nat.le_trans hn (Nat.le_max_right _ _)
  have hpre : grow junk (pre ++ rest) n = pre ++ (grow junk (pre ++ rest) n).drop pre.length := by
    rw [grow, List.append_assoc, List.drop_left]
  refine ⟨((grow junk (pre ++ rest) n).drop pre.length).take xs.length,
    ((grow junk (pre ++ rest) n).drop pre.length).drop xs.length, ?_, ?_⟩
  · rw [List.append_assoc, List.take_append_drop]
    exact hpre
  · rw [List.length_take, List.length_drop]
    omega

variable {junk}

theorem load_append (pre xs post : List α) :
    load (pre ++ xs ++ post) pre.length xs.length = some xs := by
  rw [load, if_pos (by simp only [List.length_append]; omega), List.append_assoc, List.drop_left,
    List.take_left]

theorem store_append (xs ys pre post : List α) (h : ys.length = xs.length) :
    store (pre ++ ys ++ post) pre.length xs = some (pre ++ xs ++ post) := by
  have hdrop : (pre ++ ys ++ post).drop (pre.length + xs.length) = post := by
    rw [← h, ← List.length_append, List.drop_left]
  rw [store, if_pos (by simp only [List.length_append]; omega), hdrop, List.append_assoc pre,
    List.take_left]

/-- The cells after some others are stored over. -/
theorem store_over (pre rest xs : List α) (h : xs.length ≤ rest.length) :
    store (pre ++ rest) pre.length xs = some (pre ++ xs ++ rest.drop xs.length) := by
  have hstore := store_append xs (rest.take xs.length) pre (rest.drop xs.length)
    (by rw [List.length_take, Nat.min_eq_left h])
  rwa [List.append_assoc, List.take_append_drop] at hstore

/-- One cell is stored. -/
theorem store_cell (pre : List α) (x y : α) (post : List α) :
    store (pre ++ y :: post) pre.length [x] = some (pre ++ x :: post) := by
  have := store_append [x] [y] pre post rfl
  rwa [List.append_assoc, List.append_assoc, List.singleton_append, List.singleton_append] at this

/-- Making room for a cell. -/
theorem exists_move_right (pre xs : List α) (y : α) (post : List α) :
    ∃ c, move (pre ++ xs ++ y :: post) (pre.length + 1) pre.length xs.length =
      some (pre ++ [c] ++ xs ++ post) := by
  obtain ⟨c, ys, hcons⟩ : ∃ c ys, xs ++ [y] = c :: ys := by
    cases xs with
    | nil => exact ⟨y, [], rfl⟩
    | cons x xs => exact ⟨x, xs ++ [y], rfl⟩
  have hlen : ys.length = xs.length := by
    have := congrArg List.length hcons
    simpa using this.symm
  have hsame : pre ++ xs ++ y :: post = (pre ++ [c]) ++ ys ++ post := by
    simp only [List.append_assoc, List.singleton_append, ← hcons]
  refine ⟨c, ?_⟩
  have hpre : pre.length + 1 = (pre ++ [c]).length := by
    rw [List.length_append, List.length_singleton]
  rw [move, load_append, Option.bind_some, hsame, hpre, store_append _ _ _ _ hlen]

/-- Taking a cell out. -/
theorem exists_move_left (pre xs : List α) (x : α) (post : List α) :
    ∃ c, move (pre ++ x :: xs ++ post) pre.length (pre.length + 1) xs.length =
      some (pre ++ xs ++ c :: post) := by
  obtain ⟨c, ys, hcons⟩ : ∃ c ys, x :: xs = ys ++ [c] :=
    ⟨_, _, (List.dropLast_append_getLast (List.cons_ne_nil x xs)).symm⟩
  have hlen : ys.length = xs.length := by
    have := congrArg List.length hcons
    simpa using this.symm
  have hload : load (pre ++ x :: xs ++ post) (pre.length + 1) xs.length = some xs := by
    have := load_append (pre ++ [x]) xs post
    rwa [List.length_append, List.length_singleton, List.append_assoc pre,
      List.singleton_append] at this
  have hsame : pre ++ x :: xs ++ post = pre ++ ys ++ c :: post := by
    rw [hcons, List.append_assoc, List.append_assoc, List.append_assoc, List.singleton_append]
  refine ⟨c, ?_⟩
  rw [move, hload, Option.bind_some, hsame, store_append _ _ _ _ hlen]

end Buffer

end Library
