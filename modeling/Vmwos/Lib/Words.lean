import Vmwos.Library.ByteArray

/-!
# Words in memory

Memory is a function from addresses to bytes. Words are stored with the low byte first; a word that
is stored is read back, and changes no word that does not overlap with it.
-/

set_option autoImplicit false

namespace Vmwos

open Library FileBytes

/-- `memcpy` -/
def memcpy (bytes : Nat → UInt8) (location : Nat) (data : List UInt8) : Nat → UInt8 :=
  fun i => if location ≤ i ∧ i < location + data.length then byteAt data (i - location) else bytes i

/-- A word in memory. -/
def wordAt (bytes : Nat → UInt8) (location : Nat) : Nat :=
  (bytes location).toNat + (bytes (location + 1)).toNat <<< 8 +
    (bytes (location + 2)).toNat <<< 16 + (bytes (location + 3)).toNat <<< 24

theorem shifts_eq (a b c d : Nat) :
    a + b <<< 8 + c <<< 16 + d <<< 24 = a + b * 256 + c * 65536 + d * 16777216 := by
  rw [Nat.shiftLeft_eq, Nat.shiftLeft_eq, Nat.shiftLeft_eq]

theorem wordAt_eq (bytes : Nat → UInt8) (location : Nat) :
    wordAt bytes location =
      (bytes location).toNat + (bytes (location + 1)).toNat * 256 +
        (bytes (location + 2)).toNat * 65536 + (bytes (location + 3)).toNat * 16777216 :=
  shifts_eq _ _ _ _

/-- The bytes of a word in memory. -/
def wordBytes (n : Nat) : List UInt8 :=
  [UInt8.ofNat n, UInt8.ofNat (n >>> 8), UInt8.ofNat (n >>> 16), UInt8.ofNat (n >>> 24)]

theorem memcpy_outside {bytes : Nat → UInt8} {location a : Nat} {data : List UInt8}
    (h : ¬ (location ≤ a ∧ a < location + data.length)) : memcpy bytes location data a = bytes a :=
  if_neg h

theorem memcpy_inside {bytes : Nat → UInt8} {location i : Nat} {data : List UInt8}
    (h : i < data.length) : memcpy bytes location data (location + i) = byteAt data i := by
  rw [memcpy, if_pos ⟨Nat.le_add_right location i, Nat.add_lt_add_left h location⟩,
    Nat.add_sub_cancel_left]

/-- A word only depends on its four bytes. -/
theorem wordAt_congr {bytes bytes' : Nat → UInt8} {location : Nat}
    (h : ∀ i < 4, bytes' (location + i) = bytes (location + i)) :
    wordAt bytes' location = wordAt bytes location := by
  have h0 : bytes' location = bytes location := h 0 (by decide)
  have h1 := h 1 (by decide)
  have h2 := h 2 (by decide)
  have h3 := h 3 (by decide)
  unfold wordAt
  simp only [h0, h1, h2, h3]

/-- Store a word. -/
def setWord (bytes : Nat → UInt8) (location n : Nat) : Nat → UInt8 :=
  memcpy bytes location (wordBytes n)

theorem setWord_outside {bytes : Nat → UInt8} {location n a : Nat}
    (h : a < location ∨ location + 4 ≤ a) : setWord bytes location n a = bytes a := by
  refine memcpy_outside ?_
  rintro ⟨hlow, hhigh⟩
  exact h.elim (Nat.not_lt.2 hlow) (Nat.not_le.2 hhigh)

/-- The four bytes of a number make up the number. -/
theorem bytes_sum {n : Nat} (h : n < 4294967296) :
    n % 256 + n / 256 % 256 * 256 + n / 65536 % 256 * 65536 + n / 16777216 % 256 * 16777216 =
      n := by
  omega

theorem wordAt_setWord {bytes : Nat → UInt8} {location n : Nat} (h : n < 4294967296) :
    wordAt (setWord bytes location n) location = n := by
  have hbyte (i : Nat) (hi : i < 4) :
      setWord bytes location n (location + i) = byteAt (wordBytes n) i := memcpy_inside hi
  have h0 : setWord bytes location n location = UInt8.ofNat n := hbyte 0 (by decide)
  have h1 : setWord bytes location n (location + 1) = UInt8.ofNat (n >>> 8) := hbyte 1 (by decide)
  have h2 : setWord bytes location n (location + 2) = UInt8.ofNat (n >>> 16) := hbyte 2 (by decide)
  have h3 : setWord bytes location n (location + 3) = UInt8.ofNat (n >>> 24) := hbyte 3 (by decide)
  unfold wordAt
  simp only [h0, h1, h2, h3, UInt8.toNat_ofNat', Nat.shiftRight_eq_div_pow, Nat.shiftLeft_eq]
  exact bytes_sum h

theorem wordAt_setWord_of_ne {bytes : Nat → UInt8} {location location' n : Nat}
    (h : location' + 4 ≤ location ∨ location + 4 ≤ location') :
    wordAt (setWord bytes location n) location' = wordAt bytes location' :=
  wordAt_congr fun i hi => setWord_outside (by omega)

/-- A list of bytes in memory. -/
def Stored (bytes : Nat → UInt8) (location : Nat) (data : List UInt8) : Prop :=
  ∀ i < data.length, bytes (location + i) = byteAt data i

instance (bytes : Nat → UInt8) (location : Nat) (data : List UInt8) :
    Decidable (Stored bytes location data) :=
  inferInstanceAs (Decidable (∀ i < data.length, bytes (location + i) = byteAt data i))

theorem stored_append {bytes : Nat → UInt8} {location : Nat} {a b : List UInt8} :
    Stored bytes location (a ++ b) ↔
      Stored bytes location a ∧ Stored bytes (location + a.length) b := by
  constructor
  · intro h
    refine ⟨fun i hi => ?_, fun i hi => ?_⟩
    · rw [h i (by rw [List.length_append]; omega), byteAt_append, if_pos hi]
    · rw [Nat.add_assoc, h (a.length + i) (by rw [List.length_append]; omega), byteAt_append,
        if_neg (Nat.not_lt.2 (Nat.le_add_right a.length i)), Nat.add_sub_cancel_left]
  · rintro ⟨ha, hb⟩ i hi
    rw [byteAt_append]
    by_cases hlow : i < a.length
    · rw [if_pos hlow, ha i hlow]
    · rw [if_neg hlow]
      have hrest : i - a.length < b.length := by rw [List.length_append] at hi; omega
      have h := hb (i - a.length) hrest
      rwa [Nat.add_assoc, Nat.add_sub_of_le (Nat.le_of_not_lt hlow)] at h

end Vmwos
