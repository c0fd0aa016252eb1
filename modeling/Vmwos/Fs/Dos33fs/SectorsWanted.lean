import Vmwos.Fs.Dos33fs.Operations
import Mathlib.Data.Finset.Card
import Mathlib.Data.Finset.Range

/-!
# How many sectors a call takes

The allocator takes one free sector off the disk, whichever it is, and it searches for ever
when there is none. So whether a call gets to its end depends on how many sectors it asks for:
growing asks for a T/S list each time the last sector passes the end of one
(`listsAppended`), writing for a data sector at each hole it comes to (`holesMet`). Here the
counts are defined, and each function is shown to end with that many sectors taken, or not to
end because there are not that many (`Takes`). Shrinking asks for none, and its loop always
ends.
-/

set_option autoImplicit false

namespace Vmwos

/-! ## Counts -/

/-- The T/S lists that `dos33fs_grow_file` appends. -/
def listsAppended (v : Dos33Volume) (inode : Inode) (newSize : Nat) : Nat :=
  let current := endIndex v inode inode.size
  let last := endIndex v inode newSize
  if current = last then 0
  else
    match advanceTs v.disk ((current / dos33MaxTsEntries).toNat + 1)
      ((loadCatalogEntry v.disk inode.number).walk 0) with
    | none => 0
    | some _ =>
        (((if current < dos33MaxTsEntries then current else current % dos33MaxTsEntries) +
          (last - current).toNat) / dos33MaxTsEntries).toNat

/-- A T/S entry without a sector counts 1. -/
def holeAt (w : TsWalk) (which : Nat) : Nat :=
  if tsEntryT w.currentBlock which = 0 ∧ tsEntryS w.currentBlock which = 0 then 1 else 0

/-- The T/S entries without a sector that the loop of `dos33fs_write_file` comes to, up to
where it ends or stops for want of a sector. -/
def holesMet : Nat → Dos33Volume → TsWalk → (advance which sectorOffset : Nat) → List UInt8 → Nat
  | 0, _, _, _, _, _, _ => 0
  | fuel + 1, v, w, advance, which, sectorOffset, buf =>
      match advanceTs v.disk advance w with
      | none => 0
      | some w =>
          match writeSector v w which sectorOffset buf with
          | .error _ => holeAt w which
          | .ok (v, w', rest) =>
              if rest.length = 0 then holeAt w which
              else holeAt w which +
                holesMet fuel v w' (nextEntry which).1 (nextEntry which).2 0 rest

/-- The holes that `dos33fs_write_file` comes to, in a file that is large enough. -/
def writeHoles (v : Dos33Volume) (inode : Inode) (buf : List UInt8) (fileOffset : Nat) : Nat :=
  let c := loadCatalogEntry v.disk inode.number
  let adjustedOffset := uint32 (fileOffset + headerLength c.type)
  let sector := adjustedOffset / dos33BlockSize
  holesMet (buf.length + 1) v (c.walk 0) (sector / dos33MaxTsEntries + 1)
    (sector % dos33MaxTsEntries) (adjustedOffset % dos33BlockSize) buf

/-- The sectors that `dos33fs_write_file` asks for: the lists appended when the file has to
grow, and then the holes. -/
def writeWants (v : Dos33Volume) (inode : Inode) (buf : List UInt8) (fileOffset : Nat) : Nat :=
  let wanted := uint64 (fileOffset + buf.length)
  if wanted > inode.size then
    listsAppended v inode wanted +
      match dos33fsGrowFile v inode wanted with
      | .error _ => 0
      | .ok (result, v, inode) => if result < 0 then 0 else writeHoles v inode buf fileOffset
  else writeHoles v inode buf fileOffset

/-- The sectors that `dos33fs_truncate_inode` asks for. -/
def truncateWants (v : Dos33Volume) (inode : Inode) (size : Nat) : Nat :=
  if size > inode.size then listsAppended v inode size else 0

/-! ## Free sectors -/

/-- The sectors of the disk that are marked free. -/
def freeSectors (v : Dos33Volume) : Finset Nat :=
  (Finset.range (16 * numTracks v.vtoc)).filter fun n => FreeIn v n

section Free

variable {v v' v'' : Dos33Volume} {k k' n : Nat}

theorem mem_freeSectors : n ∈ freeSectors v ↔ n < 16 * numTracks v.vtoc ∧ FreeIn v n := by
  rw [freeSectors, Finset.mem_filter, Finset.mem_range]

/-- An allocation takes one sector out of the free ones. -/
theorem Taken.freeSectors (ha : Taken v v' n) : freeSectors v' = (freeSectors v).erase n := by
  ext m
  rw [Finset.mem_erase, mem_freeSectors, mem_freeSectors, ha.tracks, FreeIn, ha.isFree_iff]
  constructor
  · rintro ⟨hlt, hfree, hne⟩
    exact ⟨hne, hlt, hfree⟩
  · rintro ⟨hne, hlt, hfree⟩
    exact ⟨hlt, hfree, hne⟩

theorem freeSectors_eq_empty :
    freeSectors v = ∅ ↔ ∀ n < 16 * numTracks v.vtoc, isFree v.vtoc n = false := by
  rw [Finset.eq_empty_iff_forall_notMem]
  constructor
  · intro h n hn
    rw [Bool.eq_false_iff]
    exact fun hfree => h n (mem_freeSectors.2 ⟨hn, hfree⟩)
  · intro h n hn
    obtain ⟨hlt, hfree⟩ := mem_freeSectors.1 hn
    rw [FreeIn, h n hlt] at hfree
    cases hfree

/-- `k` sectors have been taken. -/
structure Took (v v' : Dos33Volume) (k : Nat) : Prop where
  vtoc : VtocOk v'.vtoc
  card : (freeSectors v').card + k = (freeSectors v).card

theorem Took.refl (h : VtocOk v.vtoc) : Took v v 0 := ⟨h, rfl⟩

theorem Took.trans (h1 : Took v v' k) (h2 : Took v' v'' k') : Took v v'' (k + k') := by
  refine ⟨h2.vtoc, ?_⟩
  have hcard1 := h1.card
  have hcard2 := h2.card
  omega

/-- The free sectors depend on the VTOC alone. -/
theorem freeSectors_congr (hvtoc : v'.vtoc = v.vtoc) : freeSectors v' = freeSectors v := by
  simp only [freeSectors, FreeIn, hvtoc]

theorem Took.congr (h : Took v v' k) (hvtoc : v''.vtoc = v'.vtoc) : Took v v'' k := by
  refine ⟨hvtoc ▸ h.vtoc, ?_⟩
  rw [freeSectors_congr hvtoc]
  exact h.card

theorem Taken.took (ha : Taken v v' n) : Took v v' 1 := by
  refine ⟨ha.ok, ?_⟩
  rw [ha.freeSectors]
  exact Finset.card_erase_add_one (mem_freeSectors.2 ⟨ha.lt, ha.free⟩)

/-- The computation asks for `k` sectors: it ends with `k` taken, or there are not that many
and it does not end. -/
def Takes {α : Type*} (v : Dos33Volume) (volume : α → Dos33Volume) (x : Except Stuck α) (k : Nat) :
    Prop :=
  (k ≤ (freeSectors v).card ∧ ∃ a, x = .ok a ∧ Took v (volume a) k) ∨
    ((freeSectors v).card < k ∧ x = .error .noFreeSector)

theorem takes_ok {α : Type*} {volume : α → Dos33Volume} (h : VtocOk v.vtoc) {a : α}
    (hvtoc : (volume a).vtoc = v.vtoc) : Takes v volume (.ok a) 0 :=
  Or.inl ⟨Nat.zero_le _, a, rfl, (Took.refl h).congr hvtoc⟩

theorem Takes.congr {α : Type*} {volume : α → Dos33Volume} {x : Except Stuck α}
    (hx : Takes v' volume x k) (hvtoc : v'.vtoc = v.vtoc) : Takes v volume x k := by
  have hfree := freeSectors_congr hvtoc
  rcases hx with ⟨hle, a, ha, htook⟩ | ⟨hlt, herr⟩
  · exact Or.inl ⟨hfree ▸ hle, a, ha, htook.vtoc, hfree ▸ htook.card⟩
  · exact Or.inr ⟨hfree ▸ hlt, herr⟩

/-- First `k` sectors, and then as many as the rest asks for. -/
theorem Takes.bind {α β : Type*} {volume : α → Dos33Volume} {volume' : β → Dos33Volume}
    {x : Except Stuck α} {y : Except Stuck β} {m : Nat} (hx : Takes v volume x k)
    (herror : x = .error .noFreeSector → y = .error .noFreeSector)
    (hok : ∀ a, x = .ok a → VtocOk (volume a).vtoc → Takes (volume a) volume' y m) :
    Takes v volume' y (k + m) := by
  rcases hx with ⟨hle, a, ha, htook⟩ | ⟨hlt, hx⟩
  · have hcard := htook.card
    rcases hok a ha htook.vtoc with ⟨hle', b, hb, htook'⟩ | ⟨hlt', hy⟩
    · exact Or.inl ⟨by omega, b, hb, htook.trans htook'⟩
    · exact Or.inr ⟨by omega, hy⟩
  · exact Or.inr ⟨by omega, herror hx⟩

/-- What is done to the result changes no count. -/
theorem Takes.map {α β : Type*} {volume : α → Dos33Volume} {volume' : β → Dos33Volume}
    {x : Except Stuck α} (hx : Takes v volume x k) {y : Except Stuck β}
    (herror : x = .error .noFreeSector → y = .error .noFreeSector)
    (hok : ∀ a, x = .ok a → ∃ b, y = .ok b ∧ (volume' b).vtoc = (volume a).vtoc) :
    Takes v volume' y k := by
  rcases hx with ⟨hle, a, ha, htook⟩ | ⟨hlt, hx⟩
  · obtain ⟨b, hb, hvtoc⟩ := hok a ha
    exact Or.inl ⟨hle, b, hb, htook.congr hvtoc⟩
  · exact Or.inr ⟨hlt, herror hx⟩

/-- The computation ends exactly if there are as many free sectors as it asks for. -/
theorem Takes.ends_iff {α : Type*} {volume : α → Dos33Volume} {x : Except Stuck α}
    (hx : Takes v volume x k) : (∃ a, x = .ok a) ↔ k ≤ (freeSectors v).card := by
  rcases hx with ⟨hle, a, ha, -⟩ | ⟨hlt, hx⟩
  · exact iff_of_true ⟨a, ha⟩ hle
  · refine iff_of_false ?_ (Nat.not_le.2 hlt)
    rintro ⟨a, ha⟩
    rw [hx] at ha
    cases ha

/-- One allocation. -/
theorem dos33AllocateSector_takes (h : VtocOk v.vtoc) :
    Takes v (fun a => a.2.2) (dos33AllocateSector v) 1 := by
  rcases dos33AllocateSector_cases v with herr | ⟨t, s, v', ha⟩
  · refine Or.inr ⟨?_, herr⟩
    rw [freeSectors_eq_empty.2 ((dos33AllocateSector_eq_error_iff h).1 herr), Finset.card_empty]
    exact Nat.one_pos
  · have htook := (dos33AllocateSector_taken h ha).2.took
    have hcard := htook.card
    exact Or.inl ⟨by omega, _, ha, htook⟩

end Free

/-! ## Growing -/

section Grow

variable {v : Dos33Volume} {inode : Inode}

/-- A list each time the offset passes the end of one. The induction is on the rounds. -/
theorem growLoop_takes (n : Nat) {v : Dos33Volume} (h : VtocOk v.vtoc) (w : TsWalk) {off : Int}
    (hoff : off < 122) : Takes v id (growLoop n v w off) ((off + n) / 122).toNat := by
  induction n generalizing v w off with
  | zero =>
      have hnone : ((off + (0 : Nat)) / 122).toNat = 0 := by omega
      rw [hnone]
      exact takes_ok h rfl
  | succ n ih =>
      rw [growLoop]
      by_cases hend : off + 1 ≥ dos33MaxTsEntries
      · have hcount : ((off + (n + 1 : Nat)) / 122).toNat =
            1 + ((off + 1 - dos33MaxTsEntries + n) / 122).toNat := by
          have hge : off + 1 ≥ (122 : Int) := hend
          have hlast : off = 121 := by omega
          rw [hlast]
          show ((121 + (n + 1 : Nat) : Int) / 122).toNat = 1 + ((121 + 1 - 122 + n : Int) / 122).toNat
          omega
        rw [if_pos hend, hcount]
        refine (dos33AllocateSector_takes h).bind ?_ ?_
        · intro herr
          rw [herr]
        · rintro ⟨t, s, v'⟩ ha hok
          rw [ha]
          have hoff' : off + 1 - dos33MaxTsEntries < 122 := by
            show off + 1 - 122 < 122
            omega
          -- the list is put on disk and linked, which leaves the VTOC alone
          generalize hv1 : ({ dos33ZeroOutSector v' t s with
            disk := writeBlock (dos33ZeroOutSector v' t s).disk w.blockLocation
              (setTsNext w.currentBlock t s) } : Dos33Volume) = v1
          have hvtoc : v1.vtoc = v'.vtoc := by rw [← hv1]; rfl
          simp only [hv1]
          exact (ih (hvtoc ▸ hok) _ hoff').congr hvtoc
      · have hcount : ((off + (n + 1 : Nat)) / 122).toNat = ((off + 1 + n) / 122).toNat := by omega
        have hoff' : off + 1 < 122 := by
          have hlt : ¬ off + 1 ≥ (122 : Int) := hend
          omega
        rw [if_neg hend, hcount]
        exact ih h w hoff'

/-- `dos33fs_grow_file` asks for the lists it appends. -/
theorem dos33fsGrowFile_takes (h : VtocOk v.vtoc) (inode : Inode) (newSize : Nat) :
    Takes v (fun r => r.2.1) (dos33fsGrowFile v inode newSize)
      (listsAppended v inode newSize) := by
  obtain ⟨current, hcurrent⟩ : ∃ i, endIndex v inode inode.size = i := ⟨_, rfl⟩
  obtain ⟨last, hlast⟩ : ∃ i, endIndex v inode newSize = i := ⟨_, rfl⟩
  rw [dos33fsGrowFile_eq v inode newSize hcurrent hlast, listsAppended]
  simp only [hcurrent, hlast]
  clear hcurrent hlast
  by_cases hsame : current = last
  · rw [if_pos hsame, if_pos hsame]
    exact takes_ok h rfl
  · rw [if_neg hsame, if_neg hsame]
    cases advanceTs v.disk ((current / dos33MaxTsEntries).toNat + 1)
        ((loadCatalogEntry v.disk inode.number).walk 0) with
    | none => exact takes_ok h rfl
    | some w =>
        have hoff : (if current < dos33MaxTsEntries then current
            else current % dos33MaxTsEntries) < 122 := by
          split
          · assumption
          · exact Int.emod_lt_of_pos _ (by decide)
        refine (growLoop_takes (last - current).toNat h w hoff).map ?_ ?_
        · intro herr
          simp only [herr]
        · intro v' hv'
          simp only [hv']
          exact ⟨_, rfl, rfl⟩

end Grow

/-! ## Writing -/

section Write

variable {v : Dos33Volume}

/-- One data sector: a hole asks for a sector. -/
theorem writeSector_takes (h : VtocOk v.vtoc) (w : TsWalk) (which off : Nat) (buf : List UInt8) :
    Takes v (fun r => r.1) (writeSector v w which off buf) (holeAt w which) := by
  rw [writeSector, fillHole, holeAt]
  by_cases hhole : tsEntryT w.currentBlock which = 0 ∧ tsEntryS w.currentBlock which = 0
  · simp only [if_pos hhole]
    refine (dos33AllocateSector_takes h).map ?_ ?_
    · intro herr
      simp only [herr]
    · rintro ⟨t, s, v'⟩ ha
      simp only [ha]
      exact ⟨_, rfl, rfl⟩
  · simp only [if_neg hhole]
    exact takes_ok h rfl

/-- The loop asks for a sector at each hole. The induction is on the rounds. -/
theorem writeLoop_takes (fuel : Nat) {v : Dos33Volume} (h : VtocOk v.vtoc) (w : TsWalk)
    (advance which off : Nat) (buf : List UInt8) :
    Takes v (fun r => r.2) (writeLoop fuel v w advance which off buf)
      (holesMet fuel v w advance which off buf) := by
  induction fuel generalizing v w advance which off buf with
  | zero => exact takes_ok h rfl
  | succ fuel ih =>
      rw [writeLoop, holesMet]
      cases advanceTs v.disk advance w with
      | none => exact takes_ok h rfl
      | some w =>
          have hsector := writeSector_takes h w which off buf
          simp only
          cases hw : writeSector v w which off buf with
          | error err =>
              refine hsector.map ?_ ?_
              · intro herr
                rw [hw] at herr
                cases herr
                rfl
              · intro a ha
                rw [hw] at ha
                cases ha
          | ok q =>
              obtain ⟨v', w', rest⟩ := q
              simp only
              by_cases hrest : rest.length = 0
              · rw [if_pos hrest, if_pos hrest]
                refine hsector.map ?_ ?_
                · intro herr
                  rw [hw] at herr
                  cases herr
                · intro a ha
                  rw [hw] at ha
                  cases ha
                  exact ⟨_, rfl, rfl⟩
              · rw [if_neg hrest, if_neg hrest]
                refine hsector.bind ?_ ?_
                · intro herr
                  rw [hw] at herr
                  cases herr
                · intro a ha hok
                  rw [hw] at ha
                  cases ha
                  exact ih hok w' (nextEntry which).1 (nextEntry which).2 0 rest

/-- The transfer of a file that is large enough. -/
theorem writeHoles_takes (h : VtocOk v.vtoc) (inode : Inode) (buf : List UInt8) (off : Nat) :
    Takes v (fun r : Int × Dos33Volume × Inode × Nat => r.2.1)
      (match writeLoop (buf.length + 1) v ((loadCatalogEntry v.disk inode.number).walk 0)
          (uint32 (off + headerLength (loadCatalogEntry v.disk inode.number).type) /
            dos33BlockSize / dos33MaxTsEntries + 1)
          (uint32 (off + headerLength (loadCatalogEntry v.disk inode.number).type) /
            dos33BlockSize % dos33MaxTsEntries)
          (uint32 (off + headerLength (loadCatalogEntry v.disk inode.number).type) %
            dos33BlockSize) buf with
        | .error e => .error e
        | .ok (result, v) =>
            if result < 0 then .ok (result, v, inode, off)
            else .ok (buf.length, v, inode, off + buf.length))
      (writeHoles v inode buf off) := by
  refine (writeLoop_takes (buf.length + 1) h _ _ _ _ buf).map ?_ ?_
  · intro herr
    simp only [herr]
  · rintro ⟨result, v'⟩ hok
    simp only [hok]
    split
    · exact ⟨_, rfl, rfl⟩
    · exact ⟨_, rfl, rfl⟩

/-- `dos33fs_write_file` asks for the lists it appends and the holes it fills. -/
theorem dos33fsWriteFile_takes (h : VtocOk v.vtoc) (inode : Inode) (buf : List UInt8) (off : Nat) :
    Takes v (fun r => r.2.1) (dos33fsWriteFile v inode buf off) (writeWants v inode buf off) := by
  rw [dos33fsWriteFile, writeWants]
  simp only
  by_cases hgrow : uint64 (off + buf.length) > inode.size
  · rw [if_pos hgrow, if_pos hgrow]
    refine (dos33fsGrowFile_takes h inode _).bind ?_ ?_
    · intro herr
      rw [herr]
    · rintro ⟨result, v', inode'⟩ hok hvtoc
      rw [hok]
      simp only
      by_cases hneg : result < 0
      · rw [if_pos hneg, if_pos hneg]
        exact takes_ok hvtoc rfl
      · rw [if_neg hneg, if_neg hneg]
        exact writeHoles_takes hvtoc inode' buf off
  · rw [if_neg hgrow, if_neg hgrow]
    simp only [if_neg (by decide : ¬ (0 : Int) < 0)]
    exact writeHoles_takes h inode buf off

end Write

/-! ## Shrinking -/

section Shrink

variable {last : Int}

/-- A link set to 0/0 leads nowhere. -/
theorem ts_setTsNext_zero (b : Block) :
    ts (setTsNext b 0 0 dos33TsNextT).toNat (setTsNext b 0 0 dos33TsNextS).toNat = 0 := by
  have hzero : UInt8.ofNat 0 = 0 := rfl
  have ht : setTsNext b 0 0 1 = 0 := by
    rw [setTsNext, setByte, Function.update_of_ne (by decide), setByte, Function.update_self, hzero]
  have hs : setTsNext b 0 0 2 = 0 := by rw [setTsNext, setByte, Function.update_self, hzero]
  rw [ht, hs]
  rfl

/-- A list whose link has been set to 0/0 is the last: the loop ends in it or on leaving it. -/
theorem shrinkLoop_ends_last (fuel : Nat) {v : Dos33Volume} {w : TsWalk} {which : Nat} (off : Nat)
    (current : Int) (delete : Bool) (hw : ts w.nextT w.nextS = 0) (hwhich : which < 122)
    (hfuel : 122 - which < fuel) :
    ∃ q, shrinkLoop last fuel v w 0 which off current delete = .ok q := by
  induction fuel generalizing v w which off current with
  | zero => exact absurd hfuel (Nat.not_lt_zero _)
  | succ fuel ih =>
      obtain ⟨-, hnt, hns⟩ := shrinkSector_walk v w which off
      rw [shrinkLoop, shrinkAdvanceTs]
      simp only
      split
      · exact ⟨_, rfl⟩
      · split
        · -- leaving the list: there is no next one
          rename_i hend
          have hend' : which + 1 ≥ 122 := hend
          obtain ⟨fuel', rfl⟩ : ∃ m, fuel = m + 1 := ⟨fuel - 1, by omega⟩
          rw [nextEntry, if_pos hend, shrinkLoop_leave_block, hnt, hns, if_pos hw]
          exact ⟨_, rfl⟩
        · rename_i hend
          have hlt : which + 1 < 122 := Nat.not_le.1 hend
          rw [nextEntry_of_lt hlt]
          exact ih 0 _ (by rw [hnt, hns, hw]) hlt (by omega)

/-- From any list the loop gets to the end of the next one at most. -/
theorem shrinkLoop_ends (fuel : Nat) {v : Dos33Volume} {w : TsWalk} {which : Nat} (off : Nat)
    (current : Int) (delete : Bool) (hwhich : which < 122) (hfuel : 245 - which ≤ fuel) :
    ∃ q, shrinkLoop last fuel v w 0 which off current delete = .ok q := by
  induction fuel generalizing v w which off current with
  | zero => omega
  | succ fuel ih =>
      rw [shrinkLoop, shrinkAdvanceTs]
      simp only
      split
      · exact ⟨_, rfl⟩
      · split
        · -- leaving the list: its link is set to 0/0 first
          rename_i hend
          have hend' : which + 1 ≥ 122 := hend
          obtain rfl : which = 121 := by omega
          obtain ⟨fuel', rfl⟩ : ∃ m, fuel = m + 1 := ⟨fuel - 1, by omega⟩
          have hnext : nextEntry 121 = (1, 0) := rfl
          rw [hnext, shrinkLoop_leave_block]
          split
          · exact ⟨_, rfl⟩
          · exact shrinkLoop_ends_last (fuel' + 1) 0 _ true
              (ts_setTsNext_zero (shrinkSector v w 121 off).2.currentBlock) (by decide) (by omega)
        · rename_i hend
          have hlt : which + 1 < 122 := Nat.not_le.1 hend
          rw [nextEntry_of_lt hlt]
          exact ih 0 _ hlt (by omega)

/-- `dos33fs_shrink_file` always ends. -/
theorem dos33fsShrinkFile_ends (v : Dos33Volume) (inode : Inode) (size : Nat) :
    ∃ r, dos33fsShrinkFile v inode size = .ok r := by
  rw [dos33fsShrinkFile]
  generalize loadCatalogEntry v.disk inode.number = c
  generalize headerLength c.type = header
  simp only
  obtain ⟨last, hlast⟩ : ∃ i, int32 ((uint64 (inode.size + header) / dos33BlockSize : Nat) : Int) = i :=
    ⟨_, rfl⟩
  rw [hlast]
  clear hlast
  generalize uint32 (size + header) = x
  split
  · exact ⟨_, rfl⟩
  · generalize hn : x / dos33BlockSize / dos33MaxTsEntries + 1 = n
    have hwhich : x / dos33BlockSize % dos33MaxTsEntries < 122 := Nat.mod_lt _ (by decide)
    generalize x / dos33BlockSize % dos33MaxTsEntries = which at hwhich
    have hloop : ∃ q, shrinkLoop last shrinkLimit v (c.walk 0) n which (x % dos33BlockSize)
        (x / dos33BlockSize : Nat) false = .ok q := by
      cases hadv : advanceTs v.disk n (c.walk 0) with
      | none =>
          have hlimit : shrinkLimit = 245 + 1 := rfl
          rw [hlimit, shrinkLoop, shrinkAdvanceTs_false, hadv]
          exact ⟨_, rfl⟩
      | some w =>
          rw [shrinkLoop_advance hadv]
          exact shrinkLoop_ends shrinkLimit _ _ false hwhich (by rw [shrinkLimit]; omega)
    obtain ⟨⟨result, v'⟩, hq⟩ := hloop
    rw [hq]
    simp only
    split
    · exact ⟨_, rfl⟩
    · exact ⟨_, rfl⟩

/-- `dos33fs_truncate_inode` ends exactly if there are as many free sectors as it asks for. -/
theorem dos33fsTruncateInode_ends_iff {v : Dos33Volume} (h : VtocOk v.vtoc) (inode : Inode)
    (size : Nat) : (∃ r, dos33fsTruncateInode v inode size = .ok r) ↔
      truncateWants v inode size ≤ (freeSectors v).card := by
  rw [dos33fsTruncateInode, truncateWants]
  rcases Nat.lt_trichotomy size inode.size with hlt | rfl | hgt
  · rw [if_neg (Nat.ne_of_lt hlt), if_pos hlt, if_neg (Nat.not_lt_of_lt hlt)]
    exact iff_of_true (dos33fsShrinkFile_ends v inode size) (Nat.zero_le _)
  · rw [if_pos rfl, if_neg (Nat.lt_irrefl _)]
    exact iff_of_true ⟨_, rfl⟩ (Nat.zero_le _)
  · rw [if_neg (Nat.ne_of_gt hgt), if_neg (Nat.not_lt_of_lt hgt), if_pos hgt]
    exact (dos33fsGrowFile_takes h inode size).ends_iff

end Shrink

end Vmwos
