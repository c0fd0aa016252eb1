import Vmwos.Fs.Dos33fs.Allocator
import Vmwos.Library.Run

/-!
# The count of free sectors

`dos33_mark_blocks_free` and `dos33_mark_blocks_used` change one bit of the free bitmap and count
the free sectors again, a nibble at a time. After every call the count in the superblock is the
number of bits that are set in the bitmap bytes of all tracks.
-/

set_option autoImplicit false

namespace Vmwos

open Library

/-! ## Bits -/

/-- Bit `k` of a byte. -/
abbrev bitOf (byte : UInt8) (k : Nat) : Bool := byte.toBitVec.getLsbD k

/-- The number of bits set in a byte. -/
def setBits (byte : UInt8) : Nat := byte.toBitVec.cpop.toNat

/-- The number of bits set in the two bitmap bytes of all tracks. -/
def freeBits (vtoc : Block) : Nat :=
  ((List.range (numTracks vtoc)).map fun track =>
    setBits (vtoc (dos33VtocFreeBitmaps + track * 4)) +
      setBits (vtoc (dos33VtocFreeBitmaps + track * 4 + 1))).sum

theorem onesInByte_eq_setBits (byte : UInt8) : onesInByte byte = setBits byte := by
  have hall : ∀ n : Fin 256, onesInByte (UInt8.ofNat n) = setBits (UInt8.ofNat n) := by
    decide +kernel
  have := hall ⟨byte.toNat, byte.toNat_lt⟩
  rwa [UInt8.ofNat_toNat] at this

/-- Counting nibble by nibble counts the bits. -/
theorem dos33UpdateBlocksFree_blocksFree (v : Dos33Volume) :
    (dos33UpdateBlocksFree v).blocksFree = freeBits v.vtoc := by
  simp only [dos33UpdateBlocksFree, onesInByte_eq_setBits, freeBits, numTracks]

theorem freeBits_congr {vtoc vtoc' : Block} (htracks : numTracks vtoc' = numTracks vtoc)
    (h : ∀ i, dos33VtocFreeBitmaps ≤ i → vtoc' i = vtoc i) : freeBits vtoc' = freeBits vtoc := by
  rw [freeBits, freeBits, htracks]
  congr 1
  apply List.map_congr_left
  intro track _
  rw [h _ (Nat.le_add_right _ _), h _ (Nat.le_trans (Nat.le_add_right _ _) (Nat.le_add_right _ _))]

/-! ## One call -/

/-- What a call on a sector does: its bit has the value, and no other bit changes. -/
def BitStored (vtoc vtoc' : Block) (track sector : Nat) (value : Bool) : Prop :=
  ∀ i k, k < 8 → bitOf (vtoc' i) k =
    if i = bitmapByte track sector ∧ k = bitmapBit sector then value else bitOf (vtoc i) k

theorem bitStored_update {vtoc : Block} {t s : Nat} {byte : BitVec 8} {value : Bool}
    (h : ∀ k < 8, byte.getLsbD k =
      if k = bitmapBit s then value else bitOf (vtoc (bitmapByte t s)) k) :
    BitStored vtoc (Function.update vtoc (bitmapByte t s) (UInt8.ofBitVec byte)) t s value := by
  intro i k hk
  by_cases hi : i = bitmapByte t s
  · subst hi
    rw [Function.update_self]
    simpa using h k hk
  · rw [Function.update_of_ne hi, if_neg (fun h => hi h.1)]

/-- The bit that is shifted to its place. -/
theorem getLsbD_one_shiftLeft {n k : Nat} (hk : k < 8) :
    (1#8 <<< n).getLsbD k = decide (k = n) := by
  rw [BitVec.getLsbD_shiftLeft, BitVec.getLsbD_one]
  by_cases hkn : k = n
  · simp [hkn, hkn ▸ hk]
  · by_cases hlt : k < n
    · simp [hkn, hlt]
    · have hpos : k - n ≠ 0 := by omega
      simp [hkn, hpos]

theorem dos33MarkBlocksFree_bitStored (v : Dos33Volume) (t : Nat) {s : Nat} (hs : s < 16) :
    BitStored v.vtoc (dos33MarkBlocksFree v t s).vtoc t s true ∧
      (dos33MarkBlocksFree v t s).blocksFree = freeBits (dos33MarkBlocksFree v t s).vtoc := by
  rw [dos33MarkBlocksFree, if_pos hs]
  refine ⟨bitStored_update ?_, dos33UpdateBlocksFree_blocksFree _⟩
  intro k hk
  rw [BitVec.getLsbD_or, getLsbD_one_shiftLeft hk]
  by_cases hbit : k = bitmapBit s
  · rw [if_pos hbit, decide_eq_true hbit, Bool.or_true]
  · rw [if_neg hbit, decide_eq_false hbit, Bool.or_false]

theorem dos33MarkBlocksUsed_bitStored (v : Dos33Volume) (t : Nat) {s : Nat} (hs : s < 16) :
    BitStored v.vtoc (dos33MarkBlocksUsed v t s).vtoc t s false ∧
      (dos33MarkBlocksUsed v t s).blocksFree = freeBits (dos33MarkBlocksUsed v t s).vtoc := by
  rw [dos33MarkBlocksUsed, if_pos hs]
  refine ⟨bitStored_update ?_, dos33UpdateBlocksFree_blocksFree _⟩
  intro k hk
  rw [BitVec.getLsbD_and, BitVec.getLsbD_not, getLsbD_one_shiftLeft hk, decide_eq_true hk,
    Bool.true_and]
  by_cases hbit : k = bitmapBit s
  · rw [if_pos hbit, decide_eq_true hbit, Bool.not_true, Bool.and_false]
  · rw [if_neg hbit, decide_eq_false hbit, Bool.not_false, Bool.and_true]

/-! ## Runs -/

/-- The calls that mark a sector. An allocation marks the sector it finds. -/
inductive MarkCall where
  | free (track sector : Nat)
  | used (track sector : Nat)
  | allocate

/-- The value a call gives to the bit. -/
def MarkCall.value : MarkCall → Bool
  | .free _ _ => true
  | .used _ _ => false
  | .allocate => false

/-- A call: the track and the sector that are marked. -/
def markStep (v : Dos33Volume) : MarkCall → Except Stuck ((Nat × Nat) × Dos33Volume)
  | .free track sector => .ok ((track, sector), dos33MarkBlocksFree v track sector)
  | .used track sector => .ok ((track, sector), dos33MarkBlocksUsed v track sector)
  | .allocate => do
      let (track, sector, v) ← dos33AllocateSector v
      .ok ((track, sector), v)

/-- The track is one of the disk's and the sector is below 16. -/
def MarkLegal (v : Dos33Volume) : MarkCall → Prop
  | .free track sector => track < numTracks v.vtoc ∧ sector < 16
  | .used track sector => track < numTracks v.vtoc ∧ sector < 16
  | .allocate => ∀ track sector v', dos33AllocateSector v = .ok (track, sector, v') →
      track < numTracks v.vtoc

/-- What a call does to the VTOC, apart from the bytes in which an allocation records where it
was, and the count it leaves. -/
structure MarkEffect (v : Dos33Volume) (call : MarkCall) (marked : Nat × Nat) (v' : Dos33Volume) :
    Prop where
  inside : bitmapByte marked.1 marked.2 < dos33BlockSize ∧ bitmapBit marked.2 < 8
  bits : ∃ vtoc, BitStored v.vtoc vtoc marked.1 marked.2 call.value ∧
    ∀ i, v'.vtoc i ≠ vtoc i →
      call = .allocate ∧ (i = dos33VtocLastTrackAllocated ∨ i = dos33VtocAllocDirection)
  count : v'.blocksFree = freeBits v'.vtoc

theorem bitmap_inside {n t s : Nat} (hn : n ≤ 50) (ht : t < n) (hs : s < 16) :
    bitmapByte t s < dos33BlockSize ∧ bitmapBit s < 8 := by
  refine ⟨?_, bitmapBit_lt hs⟩
  have hlt : 0x38 + t * 4 + 1 < 256 := by omega
  rw [bitmapByte_eq]
  split
  · exact hlt
  · exact Nat.lt_of_succ_lt hlt

/-- The sector an allocation finds is below 16. -/
theorem allocateLoop_sector_lt {vtoc : Block} {tracks t s : Nat} {dir' : Int} (fuel : Nat) :
    ∀ {track dir : Int}, allocateLoop vtoc tracks fuel track dir = some (t, s, dir') → s < 16 := by
  induction fuel with
  | zero =>
      intro track dir h
      cases h
  | succ fuel ih =>
      intro track dir h
      rw [allocateLoop] at h
      cases hfound : findFreeInTrack vtoc track.toNat with
      | some sector =>
          rw [hfound] at h
          cases h
          exact (findFreeInTrack_eq_some hfound).1
      | none =>
          rw [hfound] at h
          exact ih h

theorem dos33AllocateSector_effect {v v' : Dos33Volume} {t s : Nat}
    (h : dos33AllocateSector v = .ok (t, s, v')) :
    s < 16 ∧ ∃ dir : Int, v' = dos33fsWriteSuperblock
      { dos33MarkBlocksUsed v t s with vtoc := takenVtoc v t s dir } := by
  simp only [dos33AllocateSector] at h
  split at h
  · cases h
  · rename_i hloop
    cases h
    exact ⟨allocateLoop_sector_lt _ hloop, _, rfl⟩

/-- One call keeps the relation, whatever the bitmap was before. -/
theorem markStep_effect {v v' : Dos33Volume} {call : MarkCall} {marked : Nat × Nat}
    (hmax : numTracks v.vtoc ≤ 50) (hlegal : MarkLegal v call)
    (h : markStep v call = .ok (marked, v')) :
    MarkEffect v call marked v' ∧ numTracks v'.vtoc = numTracks v.vtoc := by
  cases call with
  | free t s =>
      obtain ⟨ht, hs⟩ := hlegal
      cases h
      obtain ⟨hbits, hcount⟩ := dos33MarkBlocksFree_bitStored v t hs
      refine ⟨⟨bitmap_inside hmax ht hs, ⟨_, hbits, fun i hi => absurd rfl hi⟩, hcount⟩, ?_⟩
      rw [numTracks, dos33MarkBlocksFree_vtoc_of_lt v t s (by decide), numTracks]
  | used t s =>
      obtain ⟨ht, hs⟩ := hlegal
      cases h
      obtain ⟨hbits, hcount⟩ := dos33MarkBlocksUsed_bitStored v t hs
      refine ⟨⟨bitmap_inside hmax ht hs, ⟨_, hbits, fun i hi => absurd rfl hi⟩, hcount⟩, ?_⟩
      rw [numTracks, dos33MarkBlocksUsed_vtoc_of_lt v t s (by decide), numTracks]
  | allocate =>
      rw [markStep] at h
      cases ha : dos33AllocateSector v with
      | error e =>
          rw [ha] at h
          cases h
      | ok found =>
          obtain ⟨t, s, v₁⟩ := found
          rw [ha] at h
          cases h
          obtain ⟨hs, dir, rfl⟩ := dos33AllocateSector_effect ha
          obtain ⟨hbits, hcount⟩ := dos33MarkBlocksUsed_bitStored v t hs
          have htracks : numTracks (takenVtoc v t s dir) =
              numTracks (dos33MarkBlocksUsed v t s).vtoc := by
            rw [numTracks, takenVtoc_other v t s dir (by decide) (by decide), numTracks]
          refine ⟨⟨bitmap_inside hmax (hlegal t s _ ha) hs, ⟨_, hbits, ?_⟩, ?_⟩, ?_⟩
          · intro i hi
            refine ⟨rfl, ?_⟩
            by_contra hne
            rw [not_or] at hne
            exact hi (takenVtoc_other v t s dir hne.1 hne.2)
          · -- the bytes that are recorded are not in the bitmap
            refine hcount.trans (freeBits_congr htracks fun i hi => ?_).symm
            apply takenVtoc_other
            · exact Nat.ne_of_gt (Nat.lt_of_lt_of_le (by decide) hi)
            · exact Nat.ne_of_gt (Nat.lt_of_lt_of_le (by decide) hi)
          · refine htracks.trans ?_
            rw [numTracks, dos33MarkBlocksUsed_vtoc_of_lt v t s (by decide), numTracks]

/-- In every run of calls on a disk of at most 50 tracks, each call stores the one bit it is
about, and leaves the number of bits set as the count of free sectors. -/
theorem marks_countFree (v : Dos33Volume) (hmax : numTracks v.vtoc ≤ 50) (calls : List MarkCall)
    (hlegal : Along markStep MarkLegal v calls) : Throughout markStep MarkEffect v calls :=
  throughout_of_along (fun v => numTracks v.vtoc ≤ 50)
    (fun _ _ _ _ hmax hlegal hstep =>
      ⟨(markStep_effect hmax hlegal hstep).1, (markStep_effect hmax hlegal hstep).2 ▸ hmax⟩)
    hmax hlegal

/-- A sector is allocated, and one of track 0 is freed twice. -/
theorem marks_countFree_twice :
    Throughout markStep MarkEffect ⟨oneFreeVtoc, fun _ _ => 0, 560, 1⟩
      [.allocate, .free 0 15, .free 0 15] := by
  have hok : VtocOk oneFreeVtoc := ⟨by decide, by decide, by decide, Or.inr rfl⟩
  have hfirst : MarkLegal ⟨oneFreeVtoc, fun _ _ => 0, 560, 1⟩ .allocate := fun t s v' ha =>
    (dos33AllocateSector_inv hok ha).1
  have hzero {v v' : Dos33Volume} {call : MarkCall} {marked : Nat × Nat}
      (hmax : numTracks v.vtoc ≤ 50) (hpos : 0 < numTracks v.vtoc) (hlegal : MarkLegal v call)
      (h : markStep v call = .ok (marked, v')) :
      numTracks v'.vtoc ≤ 50 ∧ 0 < numTracks v'.vtoc := by
    rw [(markStep_effect hmax hlegal h).2]
    exact ⟨hmax, hpos⟩
  refine marks_countFree ⟨oneFreeVtoc, fun _ _ => 0, 560, 1⟩ (by decide) _ ⟨hfirst, ?_⟩
  intro r₁ v₁ h₁
  obtain ⟨hmax₁, hpos₁⟩ := hzero (by decide) (by decide) hfirst h₁
  refine ⟨⟨hpos₁, by decide⟩, ?_⟩
  intro r₂ v₂ h₂
  obtain ⟨-, hpos₂⟩ := @hzero _ _ (.free 0 15) _ hmax₁ hpos₁ ⟨hpos₁, by decide⟩ h₂
  exact ⟨⟨hpos₂, by decide⟩, fun _ _ _ => trivial⟩

end Vmwos
