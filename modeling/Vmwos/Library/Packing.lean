import Mathlib.Data.List.Basic

/-!
# Packing a list into buffers

Items of given sizes go into a buffer in order, as long as they fit; the rest goes into the next
buffer (`pack`). When every item fits into every buffer, each buffer takes at least one item, and
`lastRoom` is the room that is left in the buffer with the last item.
-/

set_option autoImplicit false

namespace Library

variable {α : Type*}

/-- What a buffer takes of a list, what is left of the list and the room left in the buffer. -/
structure Packed (α : Type*) where
  taken : List α
  left : List α
  room : Nat

/-- Fill a buffer from the front of a list. -/
def pack (size : α → Nat) : Nat → List α → Packed α
  | room, [] => ⟨[], [], room⟩
  | room, a :: l =>
      if size a ≤ room then
        let p := pack size (room - size a) l
        ⟨a :: p.taken, p.left, p.room⟩
      else ⟨[], a :: l, room⟩

/-- The room in the buffer with the last item, when buffer `k` has `room` bytes left and the
buffers after it have the given sizes. -/
def lastRoom (size : α → Nat) (sizes : Nat → Nat) : (k room : Nat) → List α → Nat
  | _, room, [] => room
  | k, room, a :: l =>
      if size a ≤ room then lastRoom size sizes k (room - size a) l
      else lastRoom size sizes (k + 1) (sizes (k + 1) - size a) l

variable {size : α → Nat} {room : Nat} {a : α} {l : List α}

theorem pack_nil (size : α → Nat) (room : Nat) : pack size room [] = ⟨[], [], room⟩ := rfl

theorem pack_cons_of_le (h : size a ≤ room) : pack size room (a :: l) =
    ⟨a :: (pack size (room - size a) l).taken, (pack size (room - size a) l).left,
      (pack size (room - size a) l).room⟩ := by
  rw [pack, if_pos h]

theorem pack_cons_of_not_le (h : ¬ size a ≤ room) : pack size room (a :: l) = ⟨[], a :: l, room⟩ := by
  rw [pack, if_neg h]

/-- Nothing is lost and nothing changes its place. -/
theorem pack_append (room : Nat) (l : List α) :
    (pack size room l).taken ++ (pack size room l).left = l := by
  induction l generalizing room with
  | nil => rfl
  | cons a l ih =>
      by_cases h : size a ≤ room
      · rw [pack_cons_of_le h, List.cons_append, ih]
      · rw [pack_cons_of_not_le h, List.nil_append]

/-- A buffer into which the first item fits takes it. -/
theorem length_pack_left (h : size a ≤ room) :
    (pack size room (a :: l)).left.length ≤ l.length := by
  rw [pack_cons_of_le h]
  have happend : (pack size (room - size a) l).taken ++ (pack size (room - size a) l).left = l :=
    pack_append (room - size a) l
  calc (pack size (room - size a) l).left.length
      ≤ ((pack size (room - size a) l).taken ++ (pack size (room - size a) l).left).length := by
        rw [List.length_append]
        exact Nat.le_add_left _ _
    _ = l.length := by rw [happend]

/-- What has been taken is gone from the room. -/
theorem pack_room_le (room : Nat) (l : List α) : (pack size room l).room ≤ room := by
  induction l generalizing room with
  | nil => exact Nat.le_refl room
  | cons a l ih =>
      by_cases h : size a ≤ room
      · rw [pack_cons_of_le h]
        exact Nat.le_trans (ih _) (Nat.sub_le _ _)
      · exact Nat.le_of_eq (by rw [pack_cons_of_not_le h])

/-- A buffer into which the first item fits has lost the room for it. -/
theorem pack_room_add_le (h : size a ≤ room) :
    (pack size room (a :: l)).room + size a ≤ room := by
  rw [pack_cons_of_le h]
  exact Nat.add_le_of_le_sub h (pack_room_le _ _)

/-- What is left behind a full buffer has not been taken by any other item. -/
theorem lastRoom_eq (sizes : Nat → Nat) (k room : Nat) {l : List α}
    (hsizes : ∀ a ∈ l, size a ≤ sizes (k + 1)) :
    lastRoom size sizes k room l =
      if (pack size room l).left = [] then (pack size room l).room
      else lastRoom size sizes (k + 1) (sizes (k + 1)) (pack size room l).left := by
  induction l generalizing room with
  | nil => rfl
  | cons a l ih =>
      have hrest := ih (room - size a) fun b hb => hsizes b (List.mem_cons_of_mem a hb)
      by_cases h : size a ≤ room
      · rw [lastRoom, if_pos h, hrest, pack_cons_of_le h]
      · -- the item opens the next buffer
        rw [lastRoom, if_neg h, pack_cons_of_not_le h, if_neg (List.cons_ne_nil a l), lastRoom,
          if_pos (hsizes a List.mem_cons_self)]

end Library
