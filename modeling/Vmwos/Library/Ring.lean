import Mathlib.Data.List.Basic
import Mathlib.Data.Fin.Basic
import Mathlib.Logic.Function.Basic

/-!
# Ring buffers

A ring of `size` slots with the slot that is filled next (`head`) and the slot that is emptied next
(`tail`). The ring is empty when the two are the same, so that one slot always stays free. The
operations are described by the list of what the ring holds, oldest first (`contents`): `push` puts
an element at its end unless it holds `size - 1` of them, `pop` takes the first one.
-/

set_option autoImplicit false

namespace Library

/-- A ring buffer. -/
structure Ring (α : Type*) (size : Nat) where
  slots : Fin size → α
  head : Fin size
  tail : Fin size

namespace Ring

variable {α : Type*} {size : Nat}

/-- The slot behind a slot. -/
def next (i : Fin size) : Fin size := if h : i.val + 1 < size then ⟨i.val + 1, h⟩ else ⟨0, i.pos⟩

/-- Put an element at the head; no ring when there is no room. -/
def push (r : Ring α size) (a : α) : Option (Ring α size) :=
  if next r.head = r.tail then none
  else some ⟨Function.update r.slots r.head a, next r.head, r.tail⟩

/-- Take the element at the tail. -/
def pop (r : Ring α size) : Option (α × Ring α size) :=
  if r.head = r.tail then none else some (r.slots r.tail, { r with tail := next r.tail })

/-- The slot `n` places behind a slot. -/
def after (i : Fin size) : Nat → Fin size
  | 0 => i
  | n + 1 => next (after i n)

/-- The number of elements. -/
def used (r : Ring α size) : Nat :=
  if r.tail.val ≤ r.head.val then r.head.val - r.tail.val else r.head.val + size - r.tail.val

/-- The elements, oldest first. -/
def contents (r : Ring α size) : List α :=
  (List.range r.used).map fun k => r.slots (after r.tail k)

theorem val_next (i : Fin size) : (next i).val = if i.val + 1 < size then i.val + 1 else 0 := by
  unfold next
  split <;> rfl

theorem val_after (i : Fin size) {n : Nat} (hn : n < size) :
    (after i n).val = if i.val + n < size then i.val + n else i.val + n - size := by
  have hi := i.isLt
  induction n with
  | zero => rw [after, if_pos (by omega), Nat.add_zero]
  | succ n ih =>
    rw [after, val_next, ih (Nat.lt_of_succ_lt hn)]
    split <;> split <;> split <;> omega

theorem after_next (i : Fin size) (n : Nat) : after (next i) n = after i (n + 1) := by
  induction n with
  | zero => rfl
  | succ n ih => exact congrArg next ih

@[simp] theorem length_contents (r : Ring α size) : r.contents.length = r.used := by
  rw [contents, List.length_map, List.length_range]

theorem used_lt (r : Ring α size) : r.used < size := by
  have hhead := r.head.isLt
  have htail := r.tail.isLt
  unfold used
  split <;> omega

/-- The head lies behind the last element. -/
theorem after_used (r : Ring α size) : after r.tail r.used = r.head := by
  have hhead := r.head.isLt
  have htail := r.tail.isLt
  apply Fin.ext
  rw [val_after _ r.used_lt, used]
  split <;> split <;> omega

theorem after_ne_head {r : Ring α size} {k : Nat} (hk : k < r.used) : after r.tail k ≠ r.head := by
  have hused := r.used_lt
  have hlast := congrArg Fin.val r.after_used
  rw [val_after _ hused] at hlast
  intro h
  have hval := congrArg Fin.val h
  rw [val_after _ (Nat.lt_trans hk hused), ← hlast] at hval
  split at hval <;> split at hval <;> omega

theorem used_eq_zero (r : Ring α size) : r.used = 0 ↔ r.head = r.tail := by
  have hhead := r.head.isLt
  have htail := r.tail.isLt
  rw [used, Fin.ext_iff]
  split <;> omega

theorem contents_eq_nil (r : Ring α size) : r.contents = [] ↔ r.head = r.tail := by
  rw [← List.length_eq_zero_iff, length_contents, used_eq_zero]

/-- There is no room exactly when all slots but one are filled. -/
theorem next_head_eq_tail (r : Ring α size) : next r.head = r.tail ↔ r.used + 1 = size := by
  have hhead := r.head.isLt
  have htail := r.tail.isLt
  rw [Fin.ext_iff, val_next, used]
  split <;> split <;> omega

theorem push_eq_none (r : Ring α size) (a : α) : r.push a = none ↔ r.used + 1 = size := by
  rw [← next_head_eq_tail, push]
  split <;> simp_all

/-- An element that is put in comes last. -/
theorem contents_push {r r' : Ring α size} {a : α} (h : r.push a = some r') :
    r'.contents = r.contents ++ [a] := by
  have hroom : next r.head ≠ r.tail := fun h' => by rw [push, if_pos h'] at h; cases h
  rw [push, if_neg hroom] at h
  obtain rfl := Option.some.inj h
  have hused : used ⟨Function.update r.slots r.head a, next r.head, r.tail⟩ = r.used + 1 := by
    have hhead := r.head.isLt
    have htail := r.tail.isLt
    have hne : (next r.head).val ≠ r.tail.val := fun h' => hroom (Fin.ext h')
    by_cases hwrap : r.head.val + 1 < size
    · have hnext : (next r.head).val = r.head.val + 1 := by rw [val_next, if_pos hwrap]
      rw [hnext] at hne
      simp only [used, hnext]
      split <;> split <;> omega
    · have hnext : (next r.head).val = 0 := by rw [val_next, if_neg hwrap]
      rw [hnext] at hne
      simp only [used, hnext]
      split <;> split <;> omega
  rw [contents, hused, List.range_succ, List.map_append, List.map_singleton]
  show _ ++ [Function.update r.slots r.head a (after r.tail r.used)] = _
  rw [after_used, Function.update_self]
  congr 1
  refine List.map_congr_left fun k hk => ?_
  exact Function.update_of_ne (after_ne_head (List.mem_range.1 hk)) _ _

theorem pop_eq_none (r : Ring α size) : r.pop = none ↔ r.contents = [] := by
  rw [contents_eq_nil, pop]
  split <;> simp_all

/-- The element that is taken out is the first one. -/
theorem contents_pop {r r' : Ring α size} {a : α} (h : r.pop = some (a, r')) :
    r.contents = a :: r'.contents := by
  have hne : r.head ≠ r.tail := fun h' => by rw [pop, if_pos h'] at h; cases h
  rw [pop, if_neg hne] at h
  obtain ⟨rfl, rfl⟩ := Prod.mk.inj (Option.some.inj h)
  have hused : r.used = used { r with tail := next r.tail } + 1 := by
    have hhead := r.head.isLt
    have htail := r.tail.isLt
    have hne' : r.head.val ≠ r.tail.val := fun h' => hne (Fin.ext h')
    by_cases hwrap : r.tail.val + 1 < size
    · have hnext : (next r.tail).val = r.tail.val + 1 := by rw [val_next, if_pos hwrap]
      simp only [used, hnext]
      split <;> split <;> omega
    · have hnext : (next r.tail).val = 0 := by rw [val_next, if_neg hwrap]
      simp only [used, hnext]
      split <;> split <;> omega
  rw [contents, hused, List.range_succ_eq_map, List.map_cons, List.map_map, contents]
  congr 1
  refine List.map_congr_left fun k _ => ?_
  rw [Function.comp_apply]
  exact congrArg r.slots (after_next r.tail k).symm

/-- An empty ring. -/
theorem contents_empty (slots : Fin size → α) (i : Fin size) :
    contents ⟨slots, i, i⟩ = [] := (contents_eq_nil _).2 rfl

end Ring

end Library
