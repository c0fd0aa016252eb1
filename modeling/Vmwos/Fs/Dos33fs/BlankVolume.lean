import Vmwos.Fs.Dos33fs.References

/-!
# A freshly formatted volume

A volume of 35 tracks without files: its catalog has the two sectors 17/15 and 17/14,
the tracks behind the catalog track are free. It is well formed
(`blankVolume_wellFormed`), so there are well-formed volumes to run on.
-/

set_option autoImplicit false

namespace Vmwos

open Library

/-- The VTOC: the catalog starts at 17/15, allocation goes up from track 18, tracks 18
to 34 are free. -/
def blankVtoc : Block := fun i =>
  if i = 0x01 then 17 else if i = 0x02 then 15
  else if i = 0x30 then 18 else if i = 0x31 then 1
  else if i = 0x34 then 35 else if i = 0x35 then 16
  else if 128 ≤ i ∧ i < 196 ∧ i % 4 < 2 then 0xff else 0

/-- The sectors: the VTOC in 17/0, the catalog in 17/15 and 17/14. -/
def blankDisk : Disk := fun n i =>
  if n = 272 then blankVtoc i
  else if n = 287 ∧ i = 1 then 17 else if n = 287 ∧ i = 2 then 14 else 0

/-- A freshly formatted volume. -/
def blankVolume : Dos33Volume := ⟨blankVtoc, blankDisk, 560, 272⟩

/-- The sector its catalog starts in. -/
def blankRoot : Nat := 287

/-- The inode of its directory. -/
def blankDirInode : Inode := { Inode.zeroed with number := inodeNumber 17 15 0xff }

/-- The bits of the bitmap that are set. -/
theorem freeIn_blankVolume {n : Nat} (h : FreeIn blankVolume n) : 288 ≤ n ∧ n < 560 := by
  by_contra hout
  have hlt : n / 16 < 18 ∨ 35 ≤ n / 16 := by omega
  have hbyte : blankVtoc (bitmapByte (n / 16) (n % 16)) = 0 := by
    have hge := bitmapByte_ge (n / 16) (n % 16)
    have heq := bitmapByte_eq (n / 16) (n % 16)
    have hrange : ¬ (128 ≤ bitmapByte (n / 16) (n % 16) ∧ bitmapByte (n / 16) (n % 16) < 196 ∧
        bitmapByte (n / 16) (n % 16) % 4 < 2) := by
      split_ifs at heq <;> omega
    rw [blankVtoc, if_neg (by omega), if_neg (by omega), if_neg (by omega), if_neg (by omega),
      if_neg (by omega), if_neg (by omega), if_neg hrange]
  have hfree : isFree blankVtoc n = true := h
  rw [isFree, hbyte] at hfree
  simp at hfree

theorem catalogAt_blankDisk (k : Nat) :
    catalogAt blankDisk blankRoot k =
      if k = 0 then some 287 else if k = 1 then some 286 else none := by
  have hend : catalogAt blankDisk blankRoot 2 = none := by decide
  by_cases h0 : k = 0
  · rw [if_pos h0, h0]
    rfl
  · rw [if_neg h0]
    by_cases h1 : k = 1
    · rw [if_pos h1, h1]
      decide
    · rw [if_neg h1]
      exact chainAt_eq_none_of_le hend (by omega)

theorem not_isFile_blankDisk (c e : Nat) : ¬ IsFile blankDisk blankRoot c e := by
  rintro ⟨⟨k, hk⟩, he, hused⟩
  apply hused.1
  rw [catalogAt_blankDisk] at hk
  have hc : c = 287 ∨ c = 286 := by
    split_ifs at hk
    · exact Or.inl (Option.some.inj hk).symm
    · exact Or.inr (Option.some.inj hk).symm
  have hoff := catOffset_eq e 0
  rw [blankDisk, if_neg (by omega), if_neg (by omega), if_neg (by omega)]

/-- Nothing but the catalog is referred to. -/
theorem refers_blankDisk {u : SectorUse} {n : Nat} (h : Refers blankDisk blankRoot u n) :
    (u = .catalog 0 ∧ n = 287) ∨ (u = .catalog 1 ∧ n = 286) := by
  cases u with
  | catalog k =>
      rw [Refers, catalogAt_blankDisk] at h
      split_ifs at h with h0 h1
      · exact Or.inl ⟨by rw [h0], (Option.some.inj h).symm⟩
      · exact Or.inr ⟨by rw [h1], (Option.some.inj h).symm⟩
  | tsList c e k => exact absurd h.1 (not_isFile_blankDisk c e)
  | data c e s => exact absurd h.1 (not_isFile_blankDisk c e)

theorem blankVolume_wellFormed : WellFormed blankVolume blankRoot where
  vtoc := ⟨by decide, by decide, by decide, Or.inl rfl⟩
  account := by
    constructor
    · intro i j n hi hj
      rcases refers_blankDisk hi with ⟨rfl, rfl⟩ | ⟨rfl, rfl⟩ <;>
        rcases refers_blankDisk hj with ⟨rfl, hn⟩ | ⟨rfl, hn⟩ <;> first | rfl | cases hn
    · intro u n hu hfree
      have hge := (freeIn_blankVolume hfree).1
      rcases refers_blankDisk hu with ⟨-, rfl⟩ | ⟨-, rfl⟩ <;> omega
  range u n hu := by
    have htracks : numTracks blankVolume.vtoc = 35 := rfl
    rw [htracks]
    rcases refers_blankDisk hu with ⟨-, rfl⟩ | ⟨-, rfl⟩ <;> omega
  reserved n hn := by
    have hge := (freeIn_blankVolume hn).1
    omega
  catalog_ends := ⟨2, by rw [show blankVolume.disk = blankDisk from rfl, catalogAt_blankDisk]; rfl⟩
  catalog_link k c hk := by
    rcases refers_blankDisk (u := .catalog k) hk with ⟨-, rfl⟩ | ⟨-, rfl⟩
    · show (blankDisk 287 2).toNat < 16
      decide
    · show (blankDisk 286 2).toNat < 16
      decide
  head c e hf := absurd hf (not_isFile_blankDisk c e)
  head_sector c e hf := absurd hf (not_isFile_blankDisk c e)

end Vmwos
