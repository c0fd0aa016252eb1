import Vmwos.Fs.Dos33fs.Volume
import Mathlib.Tactic.SplitIfs

/-!
# The sector allocator finds a free sector

The free bitmap as a predicate on sector numbers (`isFree`; sector `s` of track
`t` is number `16 * t + s`), what marking a sector free or used does to it, and
the allocator: on a VTOC in order it takes a free sector of the disk
(`dos33AllocateSector_taken`), and it searches for ever exactly when no sector of
the disk is free (`dos33AllocateSector_eq_error_iff`).
-/

set_option autoImplicit false

namespace Vmwos

/-- The bit of sector `n` in the free bitmap. -/
def isFree (vtoc : Block) (n : Nat) : Bool :=
  (vtoc (bitmapByte (n / 16) (n % 16))).toBitVec.getLsbD (bitmapBit (n % 16))

/-- The number of tracks recorded in a VTOC. -/
def numTracks (vtoc : Block) : Nat := (vtoc dos33VtocNumTracks).toNat

/-- What the allocator relies on: the catalog track is on the disk, the search
starts on the disk and goes up or down. -/
structure VtocOk (vtoc : Block) : Prop where
  tracks_ge : 18 ≤ numTracks vtoc
  tracks_le : numTracks vtoc ≤ 50
  last_lt : (vtoc dos33VtocLastTrackAllocated).toNat < numTracks vtoc
  direction : vtoc dos33VtocAllocDirection = 1 ∨ vtoc dos33VtocAllocDirection = 0xff

/-- The tracks, and all the allocator relies on, lie before the bitmap. -/
theorem numTracks_congr {vtoc vtoc' : Block} (h : ∀ i < 0x38, vtoc' i = vtoc i) :
    numTracks vtoc' = numTracks vtoc := by
  rw [numTracks, numTracks, h dos33VtocNumTracks (by decide)]

theorem VtocOk.congr {vtoc vtoc' : Block} (hok : VtocOk vtoc) (h : ∀ i < 0x38, vtoc' i = vtoc i) :
    VtocOk vtoc' where
  tracks_ge := by rw [numTracks_congr h]; exact hok.tracks_ge
  tracks_le := by rw [numTracks_congr h]; exact hok.tracks_le
  last_lt := by rw [numTracks_congr h, h _ (by decide)]; exact hok.last_lt
  direction := by rw [h _ (by decide)]; exact hok.direction

theorem bitmapByte_eq (t s : Nat) :
    bitmapByte t s = if s < 8 then 0x38 + t * 4 + 1 else 0x38 + t * 4 := rfl

theorem bitmapBit_eq (s : Nat) : bitmapBit s = if s < 8 then s else s - 8 := rfl

theorem bitmapByte_ge (t s : Nat) : 0x38 ≤ bitmapByte t s := by
  rw [bitmapByte_eq]
  split <;> omega

/-- A sector is determined by its byte and bit in the bitmap. -/
theorem bitmap_inj {n m : Nat} (hbyte : bitmapByte (n / 16) (n % 16) = bitmapByte (m / 16) (m % 16))
    (hbit : bitmapBit (n % 16) = bitmapBit (m % 16)) : n = m := by
  rw [bitmapByte_eq, bitmapByte_eq] at hbyte
  rw [bitmapBit_eq, bitmapBit_eq] at hbit
  split_ifs at hbyte hbit <;> omega

theorem bitmapBit_lt {s : Nat} (hs : s < 16) : bitmapBit s < 8 := by
  rw [bitmapBit_eq]
  split <;> omega

/-! ## Marking sectors -/

@[simp] theorem dos33UpdateBlocksFree_vtoc (v : Dos33Volume) :
    (dos33UpdateBlocksFree v).vtoc = v.vtoc := rfl

@[simp] theorem dos33UpdateBlocksFree_disk (v : Dos33Volume) :
    (dos33UpdateBlocksFree v).disk = v.disk := rfl

@[simp] theorem dos33MarkBlocksFree_disk (v : Dos33Volume) (t s : Nat) :
    (dos33MarkBlocksFree v t s).disk = v.disk := by
  unfold dos33MarkBlocksFree
  split <;> rfl

@[simp] theorem dos33MarkBlocksUsed_disk (v : Dos33Volume) (t s : Nat) :
    (dos33MarkBlocksUsed v t s).disk = v.disk := by
  unfold dos33MarkBlocksUsed
  split <;> rfl

/-- Marking changes bitmap bytes only. -/
theorem dos33MarkBlocksFree_vtoc_of_lt (v : Dos33Volume) (t s : Nat) {i : Nat} (hi : i < 0x38) :
    (dos33MarkBlocksFree v t s).vtoc i = v.vtoc i := by
  have hge := bitmapByte_ge t s
  unfold dos33MarkBlocksFree
  split
  · exact Function.update_of_ne (by omega) _ _
  · rfl

theorem dos33MarkBlocksUsed_vtoc_of_lt (v : Dos33Volume) (t s : Nat) {i : Nat} (hi : i < 0x38) :
    (dos33MarkBlocksUsed v t s).vtoc i = v.vtoc i := by
  have hge := bitmapByte_ge t s
  unfold dos33MarkBlocksUsed
  split
  · exact Function.update_of_ne (by omega) _ _
  · rfl

/-- One bit of a bitmap byte is set, seen from any sector. -/
theorem isFree_update (vtoc : Block) (n m : Nat) (byte : BitVec 8)
    (hbyte : ∀ i, i ≠ bitmapBit (n % 16) → byte.getLsbD i =
      (vtoc (bitmapByte (n / 16) (n % 16))).toBitVec.getLsbD i) :
    isFree (Function.update vtoc (bitmapByte (n / 16) (n % 16)) (UInt8.ofBitVec byte)) m =
      if m = n then byte.getLsbD (bitmapBit (n % 16)) else isFree vtoc m := by
  unfold isFree
  by_cases hmn : m = n
  · subst hmn
    simp
  · rw [if_neg hmn]
    by_cases hb : bitmapByte (m / 16) (m % 16) = bitmapByte (n / 16) (n % 16)
    · have hbit : bitmapBit (m % 16) ≠ bitmapBit (n % 16) := fun h => hmn (bitmap_inj hb h)
      rw [hb, Function.update_self]
      exact hbyte _ hbit
    · rw [Function.update_of_ne hb]

theorem isFree_dos33MarkBlocksFree (v : Dos33Volume) {t s : Nat} (hs : s < 16) (m : Nat) :
    isFree (dos33MarkBlocksFree v t s).vtoc m = (decide (m = 16 * t + s) || isFree v.vtoc m) := by
  have ht : (16 * t + s) / 16 = t := by omega
  have hs' : (16 * t + s) % 16 = s := by omega
  have hlt := bitmapBit_lt hs
  have key := isFree_update v.vtoc (16 * t + s) m
    ((v.vtoc (bitmapByte t s)).toBitVec ||| 1#8 <<< bitmapBit s)
    (by intro i hi; rw [hs'] at hi; rw [ht, hs']; simp; omega)
  rw [ht, hs'] at key
  simp only [dos33MarkBlocksFree, hs, if_true, dos33UpdateBlocksFree_vtoc, key]
  by_cases hm : m = 16 * t + s
  · simp [hm, hlt]
  · simp [hm]

theorem isFree_dos33MarkBlocksUsed (v : Dos33Volume) {t s : Nat} (hs : s < 16) (m : Nat) :
    isFree (dos33MarkBlocksUsed v t s).vtoc m = (decide (m ≠ 16 * t + s) && isFree v.vtoc m) := by
  have ht : (16 * t + s) / 16 = t := by omega
  have hs' : (16 * t + s) % 16 = s := by omega
  have hlt := bitmapBit_lt hs
  have key := isFree_update v.vtoc (16 * t + s) m
    ((v.vtoc (bitmapByte t s)).toBitVec &&& ~~~(1#8 <<< bitmapBit s))
    (by intro i hi; rw [hs'] at hi; rw [ht, hs']; simp; intro h; have := BitVec.lt_of_getLsbD h; omega)
  rw [ht, hs'] at key
  simp only [dos33MarkBlocksUsed, hs, if_true, dos33UpdateBlocksFree_vtoc, key]
  by_cases hm : m = 16 * t + s
  · simp [hm, hlt]
  · simp [hm]

/-! ## The search -/

theorem findFirstOne_go {byte : UInt8} (fuel : Nat) {i j : Nat} (hij : i ≤ j) (hj : j < i + fuel)
    (hbit : byte.toBitVec.getLsbD j = true) :
    byte.toBitVec.getLsbD (findFirstOne.go byte fuel i) = true := by
  induction fuel generalizing i with
  | zero => omega
  | succ fuel ih =>
      rw [findFirstOne.go]
      split
      · assumption
      · rename_i hi
        have hne : i ≠ j := by
          rintro rfl
          exact hi hbit
        exact ih (by omega) (by omega)

/-- In a byte that is not 0 a set bit is found. -/
theorem findFirstOne_spec {byte : UInt8} (h : byte ≠ 0) :
    findFirstOne byte < 8 ∧ byte.toBitVec.getLsbD (findFirstOne byte) = true := by
  have hex : ∃ j, byte.toBitVec.getLsbD j = true := by
    by_contra hno
    push Not at hno
    apply h
    apply UInt8.eq_of_toBitVec_eq
    apply BitVec.eq_of_getLsbD_eq
    intro i _
    simpa using hno i
  obtain ⟨j, hj⟩ := hex
  have hbit := findFirstOne_go 8 (Nat.zero_le j)
    (by have := BitVec.lt_of_getLsbD hj; omega) hj
  exact ⟨BitVec.lt_of_getLsbD hbit, hbit⟩

theorem isFree_low {vtoc : Block} {t s : Nat} (hs : s < 8) :
    isFree vtoc (16 * t + s) = (vtoc (0x38 + t * 4 + 1)).toBitVec.getLsbD s := by
  have ht : (16 * t + s) / 16 = t := by omega
  have hs' : (16 * t + s) % 16 = s := by omega
  rw [isFree, ht, hs', bitmapByte_eq, bitmapBit_eq, if_pos hs, if_pos hs]

theorem isFree_high {vtoc : Block} {t s : Nat} (hs : s < 8) :
    isFree vtoc (16 * t + (s + 8)) = (vtoc (0x38 + t * 4)).toBitVec.getLsbD s := by
  have ht : (16 * t + (s + 8)) / 16 = t := by omega
  have hs' : (16 * t + (s + 8)) % 16 = s + 8 := by omega
  rw [isFree, ht, hs', bitmapByte_eq, bitmapBit_eq, if_neg (by omega), if_neg (by omega),
    Nat.add_sub_cancel]

/-- The sector found in a track is free. -/
theorem findFreeInTrack_eq_some {vtoc : Block} {t s : Nat} (h : findFreeInTrack vtoc t = some s) :
    s < 16 ∧ isFree vtoc (16 * t + s) = true := by
  simp only [findFreeInTrack] at h
  split at h
  · rename_i h1
    obtain rfl := Option.some.inj h
    obtain ⟨hlt, hbit⟩ := findFirstOne_spec h1
    exact ⟨by omega, by rwa [isFree_low hlt]⟩
  · split at h
    · rename_i h0
      obtain rfl := Option.some.inj h
      obtain ⟨hlt, hbit⟩ := findFirstOne_spec h0
      exact ⟨by omega, by rwa [isFree_high hlt]⟩
    · cases h

/-- Nothing is found only in a track without free sectors. -/
theorem findFreeInTrack_eq_none {vtoc : Block} {t : Nat} (h : findFreeInTrack vtoc t = none)
    {s : Nat} (hs : s < 16) : isFree vtoc (16 * t + s) = false := by
  simp only [findFreeInTrack] at h
  split at h
  · cases h
  · rename_i h1
    split at h
    · cases h
    · rename_i h0
      by_cases hlow : s < 8
      · rw [isFree_low hlow, not_not.1 h1]
        simp
      · obtain ⟨s', rfl⟩ : ∃ s', s = s' + 8 := ⟨s - 8, by omega⟩
        rw [isFree_high (by omega), not_not.1 h0]
        simp

theorem nextTrack_eq (tracks : Nat) (track dir : Int) :
    nextTrack tracks track dir =
      if track + dir < 0 then (if 17 ≥ (tracks : Int) then (17, -1) else (17, 1))
      else if track + dir ≥ tracks then (17, -1) else (track + dir, dir) := by
  by_cases h : track + dir < 0
  · simp only [nextTrack, h, if_true, dos33VtocTrack]
    rfl
  · simp only [nextTrack, h, if_false, dos33VtocTrack]
    rfl

/-- The search stays on the disk and goes up or down. -/
theorem nextTrack_range {tracks : Nat} (htr : 18 ≤ tracks) {track dir : Int}
    (hdir : dir = 1 ∨ dir = -1) :
    0 ≤ (nextTrack tracks track dir).1 ∧ (nextTrack tracks track dir).1 < tracks ∧
      ((nextTrack tracks track dir).2 = 1 ∨ (nextTrack tracks track dir).2 = -1) := by
  rw [nextTrack_eq, if_neg (by omega : ¬ 17 ≥ (tracks : Int))]
  split_ifs
  · exact ⟨by decide, by show (17 : Int) < tracks; omega, Or.inl rfl⟩
  · exact ⟨by decide, by show (17 : Int) < tracks; omega, Or.inr rfl⟩
  · exact ⟨by show 0 ≤ track + dir; omega, by show track + dir < tracks; omega, hdir⟩

theorem allocateLoop_succ (vtoc : Block) (tracks fuel : Nat) (track dir : Int) :
    allocateLoop vtoc tracks (fuel + 1) track dir =
      match findFreeInTrack vtoc track.toNat with
      | some sector => some (track.toNat, sector, dir)
      | none => allocateLoop vtoc tracks fuel (nextTrack tracks track dir).1
          (nextTrack tracks track dir).2 := rfl

/-- The search ends at a free sector of the disk. -/
theorem allocateLoop_eq_some {vtoc : Block} {tracks : Nat} (htr : 18 ≤ tracks) {fuel : Nat}
    {track dir dir' : Int} {t s : Nat} (h0 : 0 ≤ track) (hlt : track < tracks)
    (hdir : dir = 1 ∨ dir = -1)
    (h : allocateLoop vtoc tracks fuel track dir = some (t, s, dir')) :
    t < tracks ∧ s < 16 ∧ isFree vtoc (16 * t + s) = true ∧ (dir' = 1 ∨ dir' = -1) := by
  induction fuel generalizing track dir with
  | zero => cases h
  | succ fuel ih =>
      rw [allocateLoop_succ] at h
      cases hf : findFreeInTrack vtoc track.toNat with
      | some sector =>
          rw [hf] at h
          simp only [Option.some.injEq, Prod.mk.injEq] at h
          obtain ⟨rfl, rfl, rfl⟩ := h
          obtain ⟨hs, hfree⟩ := findFreeInTrack_eq_some hf
          exact ⟨by omega, hs, hfree, hdir⟩
      | none =>
          rw [hf] at h
          obtain ⟨hge, hlt', hdir'⟩ := nextTrack_range htr hdir
          exact ih hge hlt' hdir' h

/-- On a disk without free sectors the search goes on for ever. -/
theorem allocateLoop_eq_none {vtoc : Block} {tracks : Nat} (htr : 18 ≤ tracks)
    (hnone : ∀ n < 16 * tracks, isFree vtoc n = false) (fuel : Nat) {track dir : Int}
    (h0 : 0 ≤ track) (hlt : track < tracks) (hdir : dir = 1 ∨ dir = -1) :
    allocateLoop vtoc tracks fuel track dir = none := by
  cases h : allocateLoop vtoc tracks fuel track dir with
  | none => rfl
  | some r =>
      obtain ⟨t, s, dir'⟩ := r
      obtain ⟨ht, hs, hfree, -⟩ := allocateLoop_eq_some htr h0 hlt hdir h
      rw [hnone _ (by omega)] at hfree
      cases hfree

section Search

variable {vtoc : Block} {tracks f s : Nat}

/-- The search has found a sector by the time it has scanned track `f`. -/
theorem allocateLoop_isSome_at (hs : s < 16) (hfree : isFree vtoc (16 * f + s) = true)
    (fuel : Nat) (dir : Int) : (allocateLoop vtoc tracks (fuel + 1) f dir).isSome := by
  rw [allocateLoop_succ]
  cases h : findFreeInTrack vtoc (f : Int).toNat with
  | some sector => rfl
  | none =>
      rw [findFreeInTrack_eq_none (t := f) h hs] at hfree
      cases hfree

/-- Either the track under the search has a free sector or the search moves on. -/
theorem allocateLoop_isSome_of_next {fuel : Nat} {track dir : Int}
    (h : (allocateLoop vtoc tracks fuel (nextTrack tracks track dir).1
      (nextTrack tracks track dir).2).isSome) :
    (allocateLoop vtoc tracks (fuel + 1) track dir).isSome := by
  rw [allocateLoop_succ]
  cases findFreeInTrack vtoc track.toNat with
  | some sector => rfl
  | none => exact h

theorem nextTrack_down {t : Nat} (ht : t < tracks) :
    nextTrack tracks ((t + 1 : Nat) : Int) (-1) = ((t : Int), -1) := by
  rw [nextTrack_eq, if_neg (by omega), if_neg (by omega)]
  congr 1
  omega

theorem nextTrack_up {t : Nat} (ht : t + 1 < tracks) :
    nextTrack tracks (t : Int) 1 = (((t + 1 : Nat) : Int), 1) := by
  rw [nextTrack_eq, if_neg (by omega), if_neg (by omega)]
  congr 1

theorem nextTrack_bottom (htr : 18 ≤ tracks) : nextTrack tracks (0 : Nat) (-1) = (17, 1) := by
  rw [nextTrack_eq, if_pos (by omega), if_neg (by omega)]

theorem nextTrack_top {t : Nat} (ht : t + 1 = tracks) : nextTrack tracks (t : Int) 1 = (17, -1) := by
  rw [nextTrack_eq, if_neg (by omega), if_pos (by omega)]

variable (hs : s < 16) (hfree : isFree vtoc (16 * f + s) = true)

include hs hfree

/-- Going down from track `f + k`. -/
theorem allocateLoop_isSome_down (k fuel : Nat) (hk : f + k < tracks) (hfuel : k < fuel) :
    (allocateLoop vtoc tracks fuel ((f + k : Nat) : Int) (-1)).isSome := by
  induction k generalizing fuel with
  | zero =>
      obtain ⟨fuel, rfl⟩ : ∃ m, fuel = m + 1 := ⟨fuel - 1, by omega⟩
      exact allocateLoop_isSome_at hs hfree fuel (-1)
  | succ k ih =>
      obtain ⟨fuel, rfl⟩ : ∃ m, fuel = m + 1 := ⟨fuel - 1, by omega⟩
      apply allocateLoop_isSome_of_next
      rw [show f + (k + 1) = (f + k) + 1 by omega, nextTrack_down (by omega)]
      exact ih fuel (by omega) (by omega)

/-- Going up from track `f - k`. -/
theorem allocateLoop_isSome_up (k fuel t : Nat) (htk : t + k = f) (hf : f < tracks)
    (hfuel : k < fuel) : (allocateLoop vtoc tracks fuel (t : Int) 1).isSome := by
  induction k generalizing fuel t with
  | zero =>
      obtain ⟨fuel, rfl⟩ : ∃ m, fuel = m + 1 := ⟨fuel - 1, by omega⟩
      obtain rfl : t = f := by omega
      exact allocateLoop_isSome_at hs hfree fuel 1
  | succ k ih =>
      obtain ⟨fuel, rfl⟩ : ∃ m, fuel = m + 1 := ⟨fuel - 1, by omega⟩
      apply allocateLoop_isSome_of_next
      rw [nextTrack_up (by omega)]
      exact ih fuel (t + 1) (by omega) (by omega)

omit hs hfree in
/-- Passing the bottom end turns the search round at the catalog track. -/
theorem allocateLoop_isSome_past_bottom (htr : 18 ≤ tracks) (k fuel : Nat) (hk : k < tracks)
    (h : (allocateLoop vtoc tracks fuel 17 1).isSome) :
    (allocateLoop vtoc tracks (fuel + k + 1) (k : Int) (-1)).isSome := by
  induction k with
  | zero =>
      apply allocateLoop_isSome_of_next
      rw [nextTrack_bottom htr]
      exact h
  | succ k ih =>
      apply allocateLoop_isSome_of_next
      rw [nextTrack_down (by omega)]
      exact ih (by omega)

omit hs hfree in
/-- Passing the top end turns the search round at the catalog track. -/
theorem allocateLoop_isSome_past_top (vtoc : Block) (k fuel t : Nat) (htk : t + k + 1 = tracks)
    (h : (allocateLoop vtoc tracks fuel 17 (-1)).isSome) :
    (allocateLoop vtoc tracks (fuel + k + 1) (t : Int) 1).isSome := by
  induction k generalizing t with
  | zero =>
      apply allocateLoop_isSome_of_next
      rw [nextTrack_top (by omega)]
      exact h
  | succ k ih =>
      apply allocateLoop_isSome_of_next
      rw [nextTrack_up (by omega)]
      exact ih (t + 1) (by omega)

/-- From any track and in either direction a free sector is found before the
rounds are used up. -/
theorem allocateLoop_isSome (htr : 18 ≤ tracks) (hmax : tracks ≤ 50) (hf : f < tracks) {t : Nat}
    (ht : t < tracks) {dir : Int} (hdir : dir = 1 ∨ dir = -1) :
    (allocateLoop vtoc tracks allocateRounds (t : Int) dir).isSome := by
  have up (t fuel : Nat) (htf : t ≤ f) (hfuel : 50 < fuel) :
      (allocateLoop vtoc tracks fuel (t : Int) 1).isSome :=
    allocateLoop_isSome_up hs hfree (f - t) fuel t (by omega) hf (by omega)
  have down (t fuel : Nat) (htf : f ≤ t) (ht : t < tracks) (hfuel : 50 < fuel) :
      (allocateLoop vtoc tracks fuel (t : Int) (-1)).isSome := by
    have key : (allocateLoop vtoc tracks fuel ((f + (t - f) : Nat) : Int) (-1)).isSome :=
      allocateLoop_isSome_down hs hfree (t - f) fuel (by omega) (by omega)
    rwa [show f + (t - f) = t by omega] at key
  have fromTop (fuel : Nat) (hfuel : 100 < fuel) :
      (allocateLoop vtoc tracks fuel 17 (-1)).isSome := by
    by_cases h17 : f ≤ 17
    · exact down 17 fuel h17 (by omega) (by omega)
    · have key := allocateLoop_isSome_past_bottom htr 17 (fuel - 18) (by omega)
        (up 17 (fuel - 18) (by omega) (by omega))
      rwa [show fuel - 18 + 17 + 1 = fuel by omega] at key
  have fromBottom (fuel : Nat) (hfuel : 100 < fuel) :
      (allocateLoop vtoc tracks fuel 17 1).isSome := by
    by_cases h17 : 17 ≤ f
    · exact up 17 fuel h17 (by omega)
    · have key := allocateLoop_isSome_past_top vtoc (tracks - 18)
        (fuel - (tracks - 17)) 17 (by omega) (down 17 _ (by omega) (by omega) (by omega))
      rwa [show fuel - (tracks - 17) + (tracks - 18) + 1 = fuel by omega] at key
  rcases hdir with rfl | rfl
  · by_cases htf : t ≤ f
    · exact up t _ htf (by decide)
    · have key := allocateLoop_isSome_past_top vtoc (tracks - 1 - t)
        (allocateRounds - (tracks - t)) t (by omega)
        (fromTop _ (by unfold allocateRounds; omega))
      rwa [show allocateRounds - (tracks - t) + (tracks - 1 - t) + 1 = allocateRounds by
        unfold allocateRounds; omega] at key
  · by_cases htf : f ≤ t
    · exact down t _ htf ht (by decide)
    · have key := allocateLoop_isSome_past_bottom htr t (allocateRounds - (t + 1)) (by omega)
        (fromBottom _ (by unfold allocateRounds; omega))
      rwa [show allocateRounds - (t + 1) + t + 1 = allocateRounds by
        unfold allocateRounds; omega] at key

end Search

/-! ## Allocation -/

/-- What a successful allocation of sector `n` does: it was free and on the disk,
it is used afterwards, and the VTOC is written back. -/
structure Taken (v v' : Dos33Volume) (n : Nat) : Prop where
  lt : n < 16 * numTracks v.vtoc
  free : isFree v.vtoc n = true
  isFree_iff : ∀ m, isFree v'.vtoc m = true ↔ isFree v.vtoc m = true ∧ m ≠ n
  ok : VtocOk v'.vtoc
  tracks : numTracks v'.vtoc = numTracks v.vtoc
  disk : v'.disk = Function.update v.disk 272 v'.vtoc

theorem dos33AllocateSector_direction {vtoc : Block} (h : VtocOk vtoc) {dir : Int}
    (hdir : dir = (if ((vtoc dos33VtocAllocDirection).toNat : Int) = 0xff then -1
      else ((vtoc dos33VtocAllocDirection).toNat : Int))) : dir = 1 ∨ dir = -1 := by
  rcases h.direction with h1 | h1 <;> rw [h1] at hdir
  · exact Or.inl hdir
  · exact Or.inr hdir

theorem isFree_setByte {vtoc : Block} {i : Nat} (hi : i < 0x38) (b m : Nat) :
    isFree (setByte vtoc i b) m = isFree vtoc m := by
  have hge := bitmapByte_ge (m / 16) (m % 16)
  rw [isFree, setByte, Function.update_of_ne (by omega), isFree]

/-- The VTOC once sector `s` of track `t` is taken, with the direction of the search recorded. -/
def takenVtoc (v : Dos33Volume) (t s : Nat) (dir : Int) : Block :=
  setByte (setByte (dos33MarkBlocksUsed v t s).vtoc dos33VtocLastTrackAllocated t)
    dos33VtocAllocDirection (dir % 256).toNat

/-- What a successful allocation does: a free sector is found and the VTOC that records it is
written back. -/
theorem dos33AllocateSector_inv {v v' : Dos33Volume} (h : VtocOk v.vtoc) {t s : Nat}
    (ha : dos33AllocateSector v = .ok (t, s, v')) :
    t < numTracks v.vtoc ∧ s < 16 ∧ isFree v.vtoc (16 * t + s) = true ∧
      ∃ dir : Int, (dir = 1 ∨ dir = -1) ∧
        v' = dos33fsWriteSuperblock
          { dos33MarkBlocksUsed v t s with vtoc := takenVtoc v t s dir } := by
  simp only [dos33AllocateSector] at ha
  generalize hdir : (if ((v.vtoc dos33VtocAllocDirection).toNat : Int) = 0xff then (-1 : Int)
    else ((v.vtoc dos33VtocAllocDirection).toNat : Int)) = dir at ha
  have hdir' := dos33AllocateSector_direction h hdir.symm
  have htracks : (v.vtoc dos33VtocNumTracks).toNat = numTracks v.vtoc := rfl
  have hlast := h.last_lt
  rw [htracks] at ha
  split at ha
  · cases ha
  · rename_i ft fs dir' hloop
    simp only [Except.ok.injEq, Prod.mk.injEq] at ha
    obtain ⟨rfl, rfl, rfl⟩ := ha
    obtain ⟨hft, hfs, hfree, hd⟩ :=
      allocateLoop_eq_some h.tracks_ge (by omega) (by omega) hdir' hloop
    exact ⟨hft, hfs, hfree, dir', hd, rfl⟩

theorem takenVtoc_last (v : Dos33Volume) (t s : Nat) (dir : Int) :
    takenVtoc v t s dir dos33VtocLastTrackAllocated = UInt8.ofNat t := by
  rw [takenVtoc, setByte, Function.update_of_ne (by decide), setByte, Function.update_self]

theorem takenVtoc_direction (v : Dos33Volume) (t s : Nat) {dir : Int} (hdir : dir = 1 ∨ dir = -1) :
    takenVtoc v t s dir dos33VtocAllocDirection = 1 ∨
      takenVtoc v t s dir dos33VtocAllocDirection = 0xff := by
  rw [takenVtoc, setByte, Function.update_self]
  rcases hdir with rfl | rfl
  · exact Or.inl rfl
  · exact Or.inr rfl

theorem takenVtoc_other (v : Dos33Volume) (t s : Nat) (dir : Int) {i : Nat}
    (hlast : i ≠ dos33VtocLastTrackAllocated) (hdir : i ≠ dos33VtocAllocDirection) :
    takenVtoc v t s dir i = (dos33MarkBlocksUsed v t s).vtoc i := by
  rw [takenVtoc, setByte, Function.update_of_ne hdir, setByte, Function.update_of_ne hlast]

theorem isFree_takenVtoc (v : Dos33Volume) (t : Nat) {s : Nat} (dir : Int) (hs : s < 16) (m : Nat) :
    isFree (takenVtoc v t s dir) m = (decide (m ≠ 16 * t + s) && isFree v.vtoc m) := by
  rw [takenVtoc, isFree_setByte (by decide), isFree_setByte (by decide),
    isFree_dos33MarkBlocksUsed v hs]

/-- The allocator takes a free sector of the disk. -/
theorem dos33AllocateSector_taken {v v' : Dos33Volume} (h : VtocOk v.vtoc) {t s : Nat}
    (ha : dos33AllocateSector v = .ok (t, s, v')) : s < 16 ∧ Taken v v' (16 * t + s) := by
  obtain ⟨ht, hs, hfree, dir, hdir, rfl⟩ := dos33AllocateSector_inv h ha
  have hnum : numTracks (takenVtoc v t s dir) = numTracks v.vtoc := by
    rw [numTracks, takenVtoc_other v t s dir (by decide) (by decide),
      dos33MarkBlocksUsed_vtoc_of_lt v t s (by decide), numTracks]
  have hmax := h.tracks_le
  refine ⟨hs, ⟨by omega, hfree, ?_, ⟨?_, ?_, ?_, ?_⟩, hnum, ?_⟩⟩
  · intro m
    show isFree (takenVtoc v t s dir) m = true ↔ _
    rw [isFree_takenVtoc v t dir hs]
    simp [and_comm]
  · show 18 ≤ numTracks (takenVtoc v t s dir)
    rw [hnum]
    exact h.tracks_ge
  · show numTracks (takenVtoc v t s dir) ≤ 50
    rw [hnum]
    exact hmax
  · show (takenVtoc v t s dir dos33VtocLastTrackAllocated).toNat < numTracks (takenVtoc v t s dir)
    rw [hnum, takenVtoc_last, UInt8.toNat_ofNat']
    omega
  · exact takenVtoc_direction v t s hdir
  · show writeBlock (dos33MarkBlocksUsed v t s).disk (ts 17 0) (takenVtoc v t s dir) = _
    rw [dos33MarkBlocksUsed_disk]
    rfl

/-- The allocator searches for ever exactly when no sector of the disk is free. -/
theorem dos33AllocateSector_eq_error_iff {v : Dos33Volume} (h : VtocOk v.vtoc) :
    dos33AllocateSector v = .error .noFreeSector ↔
      ∀ n < 16 * numTracks v.vtoc, isFree v.vtoc n = false := by
  simp only [dos33AllocateSector]
  generalize hdir : (if ((v.vtoc dos33VtocAllocDirection).toNat : Int) = 0xff then (-1 : Int)
    else ((v.vtoc dos33VtocAllocDirection).toNat : Int)) = dir
  have hdir' := dos33AllocateSector_direction h hdir.symm
  have hlast := h.last_lt
  have hge := h.tracks_ge
  constructor
  · intro herr n hn
    by_contra hfree
    rw [Bool.not_eq_false, show n = 16 * (n / 16) + n % 16 by omega] at hfree
    have hsome := allocateLoop_isSome (by omega) hfree hge h.tracks_le (by omega) hlast hdir'
    obtain ⟨r, hr⟩ := Option.isSome_iff_exists.1 hsome
    rw [show (v.vtoc dos33VtocNumTracks).toNat = numTracks v.vtoc from rfl, hr] at herr
    cases herr
  · intro hnone
    rw [show (v.vtoc dos33VtocNumTracks).toNat = numTracks v.vtoc from rfl,
      allocateLoop_eq_none hge hnone allocateRounds (by omega) (by omega) hdir']

/-- The allocator either takes a sector or searches for ever. -/
theorem dos33AllocateSector_cases (v : Dos33Volume) :
    dos33AllocateSector v = .error .noFreeSector ∨
      ∃ t s v', dos33AllocateSector v = .ok (t, s, v') := by
  simp only [dos33AllocateSector]
  split
  · exact Or.inl rfl
  · exact Or.inr ⟨_, _, _, rfl⟩

/-! ## One sector at a time -/

/-- Marking a sector used clears its bit and changes nothing else of its byte. -/
theorem dos33MarkBlocksUsed_byte (v : Dos33Volume) (t : Nat) {s : Nat} (hs : s < 16) {k : Nat}
    (hk : k < 8) :
    ((dos33MarkBlocksUsed v t s).vtoc (bitmapByte t s)).toBitVec.getLsbD k =
      (decide (k ≠ bitmapBit s) && (v.vtoc (bitmapByte t s)).toBitVec.getLsbD k) := by
  simp only [dos33MarkBlocksUsed, if_pos hs, dos33UpdateBlocksFree_vtoc, Function.update_self,
    BitVec.getLsbD_and, BitVec.getLsbD_not, BitVec.getLsbD_shiftLeft, BitVec.getLsbD_one]
  by_cases hkb : k = bitmapBit s
  · simp [hkb, bitmapBit_lt hs]
  · have hne : ¬ (¬ k < bitmapBit s ∧ k - bitmapBit s = 0) := by omega
    by_cases hlow : k < bitmapBit s
    · simp [hk, hlow, hkb]
    · have hpos : k - bitmapBit s ≠ 0 := fun h => hne ⟨hlow, h⟩
      simp [hk, hlow, hkb, hpos]

theorem dos33MarkBlocksUsed_other (v : Dos33Volume) {t s i : Nat} (hi : i ≠ bitmapByte t s) :
    (dos33MarkBlocksUsed v t s).vtoc i = v.vtoc i := by
  unfold dos33MarkBlocksUsed
  split
  · exact Function.update_of_ne hi _ _
  · rfl

/-- A track with a bitmap byte that is not 0 has a free sector. -/
theorem exists_isFree {vtoc : Block} {t : Nat}
    (h : vtoc (dos33VtocFreeBitmaps + t * 4 + 1) ≠ 0 ∨ vtoc (dos33VtocFreeBitmaps + t * 4) ≠ 0) :
    ∃ s < 16, isFree vtoc (16 * t + s) = true := by
  cases hfound : findFreeInTrack vtoc t with
  | some s =>
      obtain ⟨hs, hfree⟩ := findFreeInTrack_eq_some hfound
      exact ⟨s, hs, hfree⟩
  | none =>
      simp only [findFreeInTrack] at hfound
      rcases h with h | h
      · rw [if_pos h] at hfound
        cases hfound
      · rw [if_pos h] at hfound
        split at hfound <;> cases hfound

/-- With a free bit on some track the search ends; one bit is cleared, the track and the direction
are recorded, and the sector of the VTOC on the disk is what is in memory. -/
theorem dos33AllocateSector_allocates (v : Dos33Volume) (h : VtocOk v.vtoc)
    (hfree : ∃ t < numTracks v.vtoc,
      v.vtoc (dos33VtocFreeBitmaps + t * 4 + 1) ≠ 0 ∨ v.vtoc (dos33VtocFreeBitmaps + t * 4) ≠ 0) :
    ∃ t s v', dos33AllocateSector v = .ok (t, s, v') ∧
      t < numTracks v.vtoc ∧ s < 16 ∧
      (v.vtoc (bitmapByte t s)).toBitVec.getLsbD (bitmapBit s) = true ∧
      (∀ k < 8, (v'.vtoc (bitmapByte t s)).toBitVec.getLsbD k =
        (decide (k ≠ bitmapBit s) && (v.vtoc (bitmapByte t s)).toBitVec.getLsbD k)) ∧
      (∀ i, i ≠ bitmapByte t s → i ≠ dos33VtocLastTrackAllocated → i ≠ dos33VtocAllocDirection →
        v'.vtoc i = v.vtoc i) ∧
      (v'.vtoc dos33VtocLastTrackAllocated).toNat = t ∧
      (v'.vtoc dos33VtocAllocDirection = 1 ∨ v'.vtoc dos33VtocAllocDirection = 0xff) ∧
      readBlock v'.disk (ts 17 0) = v'.vtoc := by
  obtain ⟨f, hf, hbytes⟩ := hfree
  obtain ⟨g, hg, hfg⟩ := exists_isFree hbytes
  -- the search does not go on for ever
  have hsome : dos33AllocateSector v ≠ .error .noFreeSector := by
    intro herr
    have hnone := (dos33AllocateSector_eq_error_iff h).1 herr (16 * f + g) (by omega)
    rw [hnone] at hfg
    cases hfg
  obtain ⟨t, s, v', ha⟩ := (dos33AllocateSector_cases v).resolve_left hsome
  obtain ⟨ht, hs, hfree, dir, hdir, rfl⟩ := dos33AllocateSector_inv h ha
  have hmax := h.tracks_le
  have hge := bitmapByte_ge t s
  refine ⟨t, s, _, ha, ht, hs, ?_, ?_, ?_, ?_, takenVtoc_direction v t s hdir, ?_⟩
  · have hdiv : (16 * t + s) / 16 = t := by omega
    have hmod : (16 * t + s) % 16 = s := by omega
    rw [isFree, hdiv, hmod] at hfree
    exact hfree
  · intro k hk
    show (takenVtoc v t s dir (bitmapByte t s)).toBitVec.getLsbD k = _
    have hlast : bitmapByte t s ≠ dos33VtocLastTrackAllocated :=
      Nat.ne_of_gt (Nat.lt_of_lt_of_le (by decide) hge)
    have hdirection : bitmapByte t s ≠ dos33VtocAllocDirection :=
      Nat.ne_of_gt (Nat.lt_of_lt_of_le (by decide) hge)
    rw [takenVtoc_other v t s dir hlast hdirection, dos33MarkBlocksUsed_byte v t hs hk]
  · intro i hbyte hlast hdirection
    show takenVtoc v t s dir i = _
    rw [takenVtoc_other v t s dir hlast hdirection, dos33MarkBlocksUsed_other v hbyte]
  · show (takenVtoc v t s dir dos33VtocLastTrackAllocated).toNat = t
    rw [takenVtoc_last, UInt8.toNat_ofNat']
    omega
  · show writeBlock (dos33MarkBlocksUsed v t s).disk (ts 17 0) (takenVtoc v t s dir)
      (ts 17 0 / dos33BlockSize) = _
    rw [writeBlock, Function.update_self]
    rfl

/-- A VTOC of 35 tracks on which one sector of track 3 is free. -/
def oneFreeVtoc : Block := fun i =>
  if i = dos33VtocNumTracks then 35
  else if i = dos33VtocAllocDirection then 0xff
  else if i = dos33VtocLastTrackAllocated then 20
  else if i = dos33VtocFreeBitmaps + 3 * 4 then 4
  else 0

theorem dos33AllocateSector_allocates_one :
    ∃ t s v', dos33AllocateSector ⟨oneFreeVtoc, fun _ _ => 0, 560, 1⟩ = .ok (t, s, v') ∧
      readBlock v'.disk (ts 17 0) = v'.vtoc := by
  obtain ⟨t, s, v', ha, -, -, -, -, -, -, -, hdisk⟩ :=
    dos33AllocateSector_allocates ⟨oneFreeVtoc, fun _ _ => 0, 560, 1⟩
      ⟨by decide, by decide, by decide, Or.inr rfl⟩ ⟨3, by decide, Or.inr (by decide)⟩
  exact ⟨t, s, v', ha, hdisk⟩

end Vmwos
