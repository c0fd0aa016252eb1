import Mathlib.Data.List.GetD

/-!
# Byte arrays as file contents

The contents of a file as a list of bytes, with reading, writing and truncating.
A write past the end and a truncation to a larger size fill the gap with zeros.
Every operation is described by its length and its bytes, where a byte past the
end counts as 0 (`byteAt`), and two arrays with the same length and bytes are
equal (`ext_byteAt`).
-/

set_option autoImplicit false

namespace Library

/-- The contents of a file. -/
abbrev FileBytes := List UInt8

namespace FileBytes

/-- Byte `i`, 0 past the end. -/
def byteAt (a : FileBytes) (i : Nat) : UInt8 := a.getD i 0

/-- Cut the array off at `n`, or extend it with zeros up to `n`. -/
def resize (a : FileBytes) (n : Nat) : FileBytes :=
  a.take n ++ List.replicate (n - a.length) 0

/-- Store `buf` at `offset`, extending the array to hold it. -/
def write (a : FileBytes) (offset : Nat) (buf : List UInt8) : FileBytes :=
  let b := a.resize (max a.length (offset + buf.length))
  b.take offset ++ buf ++ b.drop (offset + buf.length)

/-- At most `count` bytes from `offset` on. -/
def read (a : FileBytes) (offset count : Nat) : List UInt8 := (a.drop offset).take count

theorem byteAt_of_le {a : FileBytes} {i : Nat} (h : a.length ≤ i) : byteAt a i = 0 :=
  List.getD_eq_default a 0 h

theorem byteAt_of_lt {a : FileBytes} {i : Nat} (h : i < a.length) : byteAt a i = a[i] :=
  List.getD_eq_getElem a 0 h

theorem byteAt_append (a b : FileBytes) (i : Nat) :
    byteAt (a ++ b) i = if i < a.length then byteAt a i else byteAt b (i - a.length) := by
  by_cases hi : i < a.length
  · rw [if_pos hi]
    exact List.getD_append a b 0 i hi
  · rw [if_neg hi]
    exact List.getD_append_right a b 0 i (Nat.le_of_not_lt hi)

theorem byteAt_take (a : FileBytes) (n i : Nat) :
    byteAt (a.take n) i = if i < n then byteAt a i else 0 := by
  simp only [byteAt, List.getD_eq_getElem?_getD, List.getElem?_take]
  split <;> rfl

theorem byteAt_drop (a : FileBytes) (n i : Nat) : byteAt (a.drop n) i = byteAt a (n + i) := by
  simp only [byteAt, List.getD_eq_getElem?_getD, List.getElem?_drop]

theorem byteAt_replicate_zero (n i : Nat) : byteAt (List.replicate n 0) i = 0 := by
  by_cases hi : i < n
  · rw [byteAt_of_lt (by rwa [List.length_replicate]), List.getElem_replicate]
  · exact byteAt_of_le (by rw [List.length_replicate]; omega)

/-- Two arrays are equal when their lengths and bytes are. -/
theorem ext_byteAt {a b : FileBytes} (hlen : a.length = b.length)
    (h : ∀ i < a.length, byteAt a i = byteAt b i) : a = b := by
  apply List.ext_getElem hlen
  intro i ha hb
  rw [← byteAt_of_lt ha, ← byteAt_of_lt hb]
  exact h i ha

@[simp] theorem length_resize (a : FileBytes) (n : Nat) : (resize a n).length = n := by
  simp only [resize, List.length_append, List.length_take, List.length_replicate]
  omega

theorem byteAt_resize (a : FileBytes) (n i : Nat) :
    byteAt (resize a n) i = if i < n then byteAt a i else 0 := by
  rw [resize, byteAt_append, byteAt_take, byteAt_replicate_zero, List.length_take]
  by_cases hn : i < n
  · rw [if_pos hn]
    by_cases ha : i < a.length
    · rw [if_pos (by omega)]
    · rw [if_neg (by omega), byteAt_of_le (by omega)]
  · rw [if_neg hn]
    split <;> rfl

@[simp] theorem length_write (a : FileBytes) (offset : Nat) (buf : List UInt8) :
    (write a offset buf).length = max a.length (offset + buf.length) := by
  simp only [write, List.length_append, List.length_take, List.length_drop, length_resize]
  omega

theorem byteAt_write (a : FileBytes) (offset : Nat) (buf : List UInt8) (i : Nat) :
    byteAt (write a offset buf) i =
      if offset ≤ i ∧ i < offset + buf.length then byteAt buf (i - offset) else byteAt a i := by
  have hb := byteAt_resize a (max a.length (offset + buf.length)) i
  have hlen := length_resize a (max a.length (offset + buf.length))
  have ha : ¬ i < a.length → byteAt a i = 0 := fun h => byteAt_of_le (by omega)
  rw [write, List.append_assoc, byteAt_append, byteAt_append, byteAt_take, byteAt_drop,
    List.length_take, hlen]
  by_cases h1 : i < offset
  · rw [if_pos (by omega), if_pos h1, if_neg (by omega), hb, if_pos (by omega)]
  · have hmin : min offset (max a.length (offset + buf.length)) = offset := by omega
    rw [hmin, if_neg h1]
    by_cases h2 : i < offset + buf.length
    · rw [if_pos (by omega), if_pos (by omega)]
    · have hi : offset + buf.length + (i - offset - buf.length) = i := by omega
      rw [if_neg (by omega), if_neg (by omega), hi, hb]
      split
      · rfl
      · exact (ha (by omega)).symm

@[simp] theorem length_read (a : FileBytes) (offset count : Nat) :
    (read a offset count).length = min count (a.length - offset) := by
  simp only [read, List.length_take, List.length_drop]

theorem byteAt_read (a : FileBytes) (offset count i : Nat) :
    byteAt (read a offset count) i = if i < count then byteAt a (offset + i) else 0 := by
  rw [read, byteAt_take, byteAt_drop]

/-- As many bytes are read as there are. -/
theorem read_length_read (a : FileBytes) (offset count : Nat) :
    read a offset (read a offset count).length = read a offset count := by
  rw [length_read, read, read, ← List.length_drop, List.take_eq_take_iff]
  omega

/-- What is read in two parts. -/
theorem read_add (a : FileBytes) (offset m n : Nat) :
    read a offset (m + n) = read a offset m ++ read a (offset + m) n := by
  rw [read, read, read, List.take_add, List.drop_drop]

/-! ## Writing without filling -/

/-- Exactly the bytes `data` are written at `offset`: the others stay, and the array does not get
longer than that takes. What stands between the old end and the offset is left open. -/
structure WrittenAt (before : FileBytes) (offset : Nat) (data : List UInt8) (after : FileBytes) :
    Prop where
  inside : after.read offset data.length = data
  outside : ∀ p < before.length, ¬ (offset ≤ p ∧ p < offset + data.length) →
    byteAt after p = byteAt before p
  length_le : before.length ≤ after.length
  le_length : after.length ≤ max before.length (offset + data.length)

/-- The same, byte for byte. -/
theorem WrittenAt.of_byteAt {before after : FileBytes} {offset : Nat} {data : List UInt8}
    (hlen : after.length = max before.length (offset + data.length))
    (hinside : ∀ i < data.length, byteAt after (offset + i) = byteAt data i)
    (houtside : ∀ p < before.length, ¬ (offset ≤ p ∧ p < offset + data.length) →
      byteAt after p = byteAt before p) : WrittenAt before offset data after where
  inside := by
    have hread : (after.read offset data.length).length = data.length := by
      rw [length_read, hlen]
      omega
    apply ext_byteAt hread
    intro i hi
    rw [hread] at hi
    rw [byteAt_read, if_pos hi, hinside i hi]
  outside := houtside
  length_le := by omega
  le_length := Nat.le_of_eq hlen

/-- Nothing is written. -/
theorem WrittenAt.nil (a : FileBytes) (offset : Nat) : WrittenAt a offset [] a where
  inside := List.take_zero
  outside _ _ _ := rfl
  length_le := Nat.le_refl _
  le_length := Nat.le_max_left _ _

/-- Behind what is there up to the offset comes what is written. -/
theorem WrittenAt.read_append {before after : FileBytes} {offset : Nat} {data : List UInt8}
    (h : WrittenAt before offset data after) (hoffset : offset ≤ before.length) :
    after.read 0 (offset + data.length) = before.read 0 offset ++ data := by
  have hkept : after.read 0 offset = before.read 0 offset := by
    apply ext_byteAt
    · have hle := h.length_le
      rw [length_read, length_read]
      omega
    · intro i hi
      rw [length_read] at hi
      have hlt : i < offset := by omega
      rw [byteAt_read, byteAt_read, if_pos hlt, if_pos hlt, Nat.zero_add,
        h.outside i (by omega) (by omega)]
  rw [read_add, Nat.zero_add, hkept, h.inside]

/-- What has been written lies in the array. -/
theorem WrittenAt.end_le_length {before after : FileBytes} {offset : Nat}
    {data : List UInt8} (h : WrittenAt before offset data after)
    (hoffset : offset ≤ before.length) : offset + data.length ≤ after.length := by
  have hlen := congrArg List.length (h.read_append hoffset)
  rw [List.length_append, length_read, length_read] at hlen
  omega

end FileBytes

end Library
