import Vmwos.Fs.Dos33fs.WriteThrough
import Vmwos.Fs.Dos33fs.DiskFull
import Vmwos.Library.Interleaving

/-!
# Two volumes

The rows of `vtoc_list` overlap in all but two bytes, so what a call on one volume does to its
VTOC it does to the VTOC of the other. A call leaves the VTOC alone if it asks for no sector
(`Store.wants`) and marks none free that was not (`Store.gives`). When the calls on the other
volume are of this kind, a volume is served in any interleaving as it is with the other volume
idle (`Mounts.run_independent`); a file made on the other volume changes its VTOC
(`Mounts.not_independent`).
-/

set_option autoImplicit false

namespace Vmwos

open Library

/-! ## Calls that ask for no sector -/

section Wants

variable {v v' : Dos33Volume} {inode inode' : Inode}

/-- No list is appended: the loop passes no end of a list. The induction is on the rounds. -/
theorem growLoop_vtoc (n : Nat) {v v' : Dos33Volume} (w : TsWalk) {off : Int}
    (hnone : ((off + n) / 122).toNat = 0) (hok : growLoop n v w off = .ok v') :
    v'.vtoc = v.vtoc := by
  induction n generalizing v w off with
  | zero =>
      cases hok
      rfl
  | succ n ih =>
      have hoff : ¬ off + 1 ≥ dos33MaxTsEntries := by
        show ¬ off + 1 ≥ (122 : Int)
        omega
      rw [growLoop, if_neg hoff] at hok
      exact ih w (by omega) hok

/-- `dos33fs_grow_file` that appends no list. -/
theorem dos33fsGrowFile_vtoc {size : Nat} {r : Int} (hnone : listsAppended v inode size = 0)
    (hok : dos33fsGrowFile v inode size = .ok (r, v', inode')) : v'.vtoc = v.vtoc := by
  obtain ⟨current, hcurrent⟩ : ∃ i, endIndex v inode inode.size = i := ⟨_, rfl⟩
  obtain ⟨last, hlast⟩ : ∃ i, endIndex v inode size = i := ⟨_, rfl⟩
  rw [listsAppended] at hnone
  simp only [hcurrent, hlast] at hnone
  rw [dos33fsGrowFile_eq v inode size hcurrent hlast] at hok
  clear hcurrent hlast
  split at hok
  · have hv := congrArg (fun q => q.2.1) (Except.ok.inj hok)
    simp only at hv
    rw [← hv]
    rfl
  · rename_i hne
    rw [if_neg hne] at hnone
    split at hok
    · have hv := congrArg (fun q => q.2.1) (Except.ok.inj hok)
      simp only at hv
      rw [← hv]
    · rename_i w hw
      rw [hw] at hnone
      split at hok
      · cases hok
      · rename_i v1 hloop
        have hv := congrArg (fun q => q.2.1) (Except.ok.inj hok)
        simp only at hv
        rw [← hv]
        exact (growLoop_vtoc _ w hnone hloop : v1.vtoc = v.vtoc)

/-- A data sector that is there already. -/
theorem writeSector_vtoc {w w' : TsWalk} {which off : Nat} {buf rest : List UInt8}
    (hnone : holeAt w which = 0) (hok : writeSector v w which off buf = .ok (v', w', rest)) :
    v'.vtoc = v.vtoc := by
  have hhole : ¬ (tsEntryT w.currentBlock which = 0 ∧ tsEntryS w.currentBlock which = 0) := by
    intro hhole
    rw [holeAt, if_pos hhole] at hnone
    cases hnone
  rw [writeSector, fillHole] at hok
  simp only [if_neg hhole] at hok
  cases hok
  rfl

/-- The loop comes to no hole. The induction is on the rounds. -/
theorem writeLoop_vtoc (fuel : Nat) {v v' : Dos33Volume} (w : TsWalk)
    (advance which off : Nat) (buf : List UInt8) {r : Int}
    (hnone : holesMet fuel v w advance which off buf = 0)
    (hok : writeLoop fuel v w advance which off buf = .ok (r, v')) : v'.vtoc = v.vtoc := by
  induction fuel generalizing v w advance which off buf with
  | zero =>
      cases hok
      rfl
  | succ fuel ih =>
      rw [writeLoop] at hok
      rw [holesMet] at hnone
      cases hadv : advanceTs v.disk advance w with
      | none =>
          rw [hadv] at hok
          cases hok
          rfl
      | some w =>
          rw [hadv] at hok hnone
          simp only at hok hnone
          cases hw : writeSector v w which off buf with
          | error e =>
              rw [hw] at hok
              cases hok
          | ok q =>
              obtain ⟨v1, w1, rest⟩ := q
              rw [hw] at hok hnone
              simp only at hok hnone
              by_cases hrest : rest.length = 0
              · rw [if_pos hrest] at hok hnone
                cases hok
                exact writeSector_vtoc hnone hw
              · rw [if_neg hrest] at hok hnone
                obtain ⟨hhole, hmore⟩ := Nat.add_eq_zero_iff.1 hnone
                rw [ih w1 _ _ 0 rest hmore hok]
                exact writeSector_vtoc hhole hw

/-- The transfer of a file that is large enough. -/
theorem writeHoles_vtoc {buf : List UInt8} {off off' : Nat} {r : Int}
    (hnone : writeHoles v inode buf off = 0)
    (hok : (match writeLoop (buf.length + 1) v ((loadCatalogEntry v.disk inode.number).walk 0)
          (uint32 (off + headerLength (loadCatalogEntry v.disk inode.number).type) /
            dos33BlockSize / dos33MaxTsEntries + 1)
          (uint32 (off + headerLength (loadCatalogEntry v.disk inode.number).type) /
            dos33BlockSize % dos33MaxTsEntries)
          (uint32 (off + headerLength (loadCatalogEntry v.disk inode.number).type) %
            dos33BlockSize) buf with
        | .error e => .error e
        | .ok (result, v) =>
            if result < 0 then .ok (result, v, inode, off)
            else .ok (buf.length, v, inode, off + buf.length) :
              Except Stuck (Int × Dos33Volume × Inode × Nat)) = .ok (r, v', inode', off')) :
    v'.vtoc = v.vtoc := by
  split at hok
  · cases hok
  · rename_i result v1 hloop
    have hv1 : v1.vtoc = v.vtoc := writeLoop_vtoc (buf.length + 1) _ _ _ _ buf hnone hloop
    split at hok
    · cases hok
      exact hv1
    · cases hok
      exact hv1

/-- `dos33fs_write_file` that asks for no sector. -/
theorem dos33fsWriteFile_vtoc {buf : List UInt8} {off off' : Nat} {r : Int}
    (hnone : writeWants v inode buf off = 0)
    (hok : dos33fsWriteFile v inode buf off = .ok (r, v', inode', off')) : v'.vtoc = v.vtoc := by
  rw [dos33fsWriteFile] at hok
  rw [writeWants] at hnone
  simp only at hok hnone
  by_cases hgrow : uint64 (off + buf.length) > inode.size
  · rw [if_pos hgrow] at hok hnone
    cases hg : dos33fsGrowFile v inode (uint64 (off + buf.length)) with
    | error e =>
        rw [hg] at hok
        cases hok
    | ok q =>
        obtain ⟨result, v1, inode1⟩ := q
        rw [hg] at hok hnone
        simp only at hok hnone
        obtain ⟨hlists, hholes⟩ := Nat.add_eq_zero_iff.1 hnone
        have hv1 := dos33fsGrowFile_vtoc hlists hg
        by_cases hneg : result < 0
        · rw [if_pos hneg] at hok
          cases hok
          exact hv1
        · rw [if_neg hneg] at hok hholes
          rw [writeHoles_vtoc hholes hok, hv1]
  · rw [if_neg hgrow] at hok hnone
    simp only [if_neg (by decide : ¬ (0 : Int) < 0)] at hok
    exact writeHoles_vtoc hnone hok

/-- `dos33fs_make_inode` that finds no entry. -/
theorem dos33fsMakeInode_vtoc {dirInode : Inode} {r : Int} (hnone : makeWants v dirInode = 0)
    (hok : dos33fsMakeInode v dirInode inode = .ok (r, v', inode')) : v'.vtoc = v.vtoc := by
  rw [dos33fsMakeInode] at hok
  rw [makeWants] at hnone
  split at hok
  · cases hok
  · cases hok
    rfl
  · rename_i hfound
    rw [hfound] at hnone
    cases hnone

end Wants

/-! ## Calls that give no sector back -/

/-- A sector that is marked free and was not counts 1. -/
def newlyFree (v : Dos33Volume) (track sector : Nat) : Nat :=
  if sector < 16 ∧ isFree v.vtoc (16 * track + sector) = false then 1 else 0

/-- The sectors that `while (advance_ts)` of `dos33fs_shrink_file` gives back. -/
def advanceGives (v : Dos33Volume) (delete : Bool) : Nat → TsWalk → Nat
  | 0, _ => 0
  | n + 1, w =>
      let given := if delete then newlyFree v (getT w.blockLocation) (getS w.blockLocation) else 0
      let v :=
        if delete then dos33MarkBlocksFree v (getT w.blockLocation) (getS w.blockLocation) else v
      let location := ts w.nextT w.nextS
      given +
        if location = 0 then 0
        else advanceGives v delete n
          { blockLocation := location
            nextT := (w.currentBlock dos33TsNextT).toNat
            nextS := (w.currentBlock dos33TsNextS).toNat
            currentBlock := readBlock v.disk location }

/-- Whether the data sector that `dos33fs_shrink_file` comes to is given back. -/
def sectorGives (v : Dos33Volume) (w : TsWalk) (which sectorOffset : Nat) : Nat :=
  let dataT := tsEntryT w.currentBlock which
  let dataS := tsEntryS w.currentBlock which
  if dataT = 0 ∧ dataS = 0 then 0
  else if sectorOffset = 0 then newlyFree v (getT (ts dataT dataS)) (getS (ts dataT dataS))
  else 0

/-- The sectors that the loop of `dos33fs_shrink_file` gives back. -/
def loopGives (lastSector : Int) : Nat → Dos33Volume → TsWalk →
    (advance which sectorOffset : Nat) → (currentSector : Int) → (delete : Bool) → Nat
  | 0, _, _, _, _, _, _, _ => 0
  | fuel + 1, v, w, advance, which, sectorOffset, currentSector, delete =>
      advanceGives v delete advance w +
        match shrinkAdvanceTs v delete advance w with
        | (_, none) => 0
        | (v, some w) =>
            sectorGives v w which sectorOffset +
              let (v, w) := shrinkSector v w which sectorOffset
              if currentSector = lastSector then
                if delete then newlyFree v (getT w.blockLocation) (getS w.blockLocation) else 0
              else if which + 1 ≥ dos33MaxTsEntries then
                let b := setTsNext w.currentBlock 0 0
                let v := { v with disk := writeBlock v.disk w.blockLocation b }
                loopGives lastSector fuel v { w with currentBlock := b } (nextEntry which).1
                  (nextEntry which).2 0 (currentSector + 1) true
              else loopGives lastSector fuel v w (nextEntry which).1 (nextEntry which).2 0
                (currentSector + 1) delete

/-- The sectors that `dos33fs_truncate_inode` gives back. -/
def truncateGives (v : Dos33Volume) (inode : Inode) (size : Nat) : Nat :=
  if size < inode.size then
    let c := loadCatalogEntry v.disk inode.number
    let adjustedOffset := uint32 (size + headerLength c.type)
    let sector := adjustedOffset / dos33BlockSize
    loopGives (endIndex v inode inode.size) shrinkLimit v (c.walk 0)
      (sector / dos33MaxTsEntries + 1) (sector % dos33MaxTsEntries)
      (adjustedOffset % dos33BlockSize) sector false
  else 0

/-- The sectors that `dos33fs_destroy_inode` gives back: those of its truncation, and then the
first T/S list. -/
def destroyGives (v : Dos33Volume) (inode : Inode) : Nat :=
  truncateGives v inode 0 +
    match dos33fsTruncateInode v inode 0 with
    | .error _ => 0
    | .ok (result, v, inode) =>
        let entry := inodeEntry inode.number
        if result < 0 ∨ entry ≥ dos33CatMaxEntries then 0
        else
          let b := readBlock v.disk (inodeToBlock inode.number)
          let firstT := (b (catOffset entry dos33CatOffsetFirstT)).toNat
          let oldTrack :=
            if firstT = 0xfe then (b (catOffset entry dos33CatOffsetEndFileName)).toNat else firstT
          newlyFree v oldTrack (b (catOffset entry dos33CatOffsetFirstS)).toNat

section Gives

variable {v v' : Dos33Volume} {inode inode' : Inode}

/-- A sector that is free already, or one out of range, is marked free: no bit changes. -/
theorem dos33MarkBlocksFree_vtoc {t s : Nat} (hnone : newlyFree v t s = 0) :
    (dos33MarkBlocksFree v t s).vtoc = v.vtoc := by
  rw [dos33MarkBlocksFree]
  split
  · rename_i hs
    have hfree : isFree v.vtoc (16 * t + s) = true := by
      rw [← Bool.not_eq_false]
      intro hused
      rw [newlyFree, if_pos ⟨hs, hused⟩] at hnone
      cases hnone
    have ht : (16 * t + s) / 16 = t := by omega
    have hs' : (16 * t + s) % 16 = s := by omega
    rw [isFree, ht, hs'] at hfree
    rw [dos33UpdateBlocksFree_vtoc]
    refine Function.update_eq_self_iff.2 ?_
    apply UInt8.eq_of_toBitVec_eq
    apply BitVec.eq_of_getLsbD_eq
    intro i hi
    by_cases hbit : i = bitmapBit s
    · have hlt := bitmapBit_lt hs
      rw [hbit, hfree]
      simp [hlt]
    · simp
      omega
  · rfl

/-- What is marked free on the way along the lists was free. -/
theorem shrinkAdvanceTs_vtoc (n : Nat) {v : Dos33Volume} {delete : Bool} (w : TsWalk)
    (hnone : advanceGives v delete n w = 0) :
    (shrinkAdvanceTs v delete n w).1.vtoc = v.vtoc := by
  induction n generalizing v w with
  | zero => rfl
  | succ n ih =>
      rw [advanceGives] at hnone
      rw [shrinkAdvanceTs]
      obtain ⟨hgiven, hmore⟩ := Nat.add_eq_zero_iff.1 hnone
      have hv : (if delete then dos33MarkBlocksFree v (getT w.blockLocation) (getS w.blockLocation)
          else v).vtoc = v.vtoc := by
        split
        · rename_i hdelete
          rw [if_pos hdelete] at hgiven
          exact dos33MarkBlocksFree_vtoc hgiven
        · rfl
      split
      · exact hv
      · rename_i hnext
        rw [if_neg hnext] at hmore
        rw [ih _ hmore, hv]

theorem shrinkSector_vtoc {w : TsWalk} {which off : Nat} (hnone : sectorGives v w which off = 0) :
    (shrinkSector v w which off).1.vtoc = v.vtoc := by
  rw [sectorGives] at hnone
  rw [shrinkSector]
  simp only at hnone ⊢
  split
  · rfl
  · rename_i hhole
    rw [if_neg hhole] at hnone
    split
    · rename_i hoff
      rw [if_pos hoff] at hnone
      -- the data and the list are written first
      exact dos33MarkBlocksFree_vtoc hnone
    · rfl

/-- The loop gives nothing back. The induction is on the rounds. -/
theorem shrinkLoop_vtoc {last : Int} (fuel : Nat) {v : Dos33Volume} (w : TsWalk)
    (advance which off : Nat) (current : Int) (delete : Bool) {r : Int}
    (hnone : loopGives last fuel v w advance which off current delete = 0)
    (hok : shrinkLoop last fuel v w advance which off current delete = .ok (r, v')) :
    v'.vtoc = v.vtoc := by
  induction fuel generalizing v w advance which off current delete with
  | zero => cases hok
  | succ fuel ih =>
      rw [shrinkLoop] at hok
      rw [loopGives] at hnone
      obtain ⟨hadvance, hmore⟩ := Nat.add_eq_zero_iff.1 hnone
      have hv1 := shrinkAdvanceTs_vtoc advance w hadvance
      cases hadv : shrinkAdvanceTs v delete advance w with
      | mk v1 w1 =>
          rw [hadv] at hok hmore hv1
          simp only at hv1
          cases w1 with
          | none =>
              cases hok
              exact hv1
          | some w1 =>
              simp only at hok hmore
              obtain ⟨hsector, hrest⟩ := Nat.add_eq_zero_iff.1 hmore
              have hv2 := shrinkSector_vtoc hsector
              obtain ⟨v2, hv2eq⟩ : ∃ x, (shrinkSector v1 w1 which off).1 = x := ⟨_, rfl⟩
              obtain ⟨w2, hw2eq⟩ : ∃ x, (shrinkSector v1 w1 which off).2 = x := ⟨_, rfl⟩
              rw [hv2eq, hw2eq] at hok hrest
              rw [hv2eq, hv1] at hv2
              split at hok
              · rename_i hlast
                rw [if_pos hlast] at hrest
                cases hok
                split
                · rename_i hdelete
                  rw [if_pos hdelete] at hrest
                  rw [dos33MarkBlocksFree_vtoc hrest, hv2]
                · exact hv2
              · rename_i hlast
                rw [if_neg hlast] at hrest
                split at hok
                · rename_i hend
                  rw [if_pos hend] at hrest
                  exact (ih _ _ _ _ _ _ hrest hok).trans hv2
                · rename_i hend
                  rw [if_neg hend] at hrest
                  exact (ih _ _ _ _ _ _ hrest hok).trans hv2

/-- `dos33fs_truncate_inode` that asks for nothing and gives nothing back. -/
theorem dos33fsTruncateInode_vtoc {size : Nat} {r : Int} (hwants : truncateWants v inode size = 0)
    (hgives : truncateGives v inode size = 0)
    (hok : dos33fsTruncateInode v inode size = .ok (r, v', inode')) : v'.vtoc = v.vtoc := by
  rw [dos33fsTruncateInode] at hok
  rw [truncateWants] at hwants
  rw [truncateGives] at hgives
  split at hok
  · cases hok
    rfl
  · rename_i hne
    split at hok
    · rename_i hlt
      rw [if_pos hlt] at hgives
      simp only at hgives
      rw [dos33fsShrinkFile] at hok
      simp only [if_neg (Nat.not_lt_of_lt hlt)] at hok
      split at hok
      · cases hok
      · rename_i result v1 hloop
        have hv1 := shrinkLoop_vtoc shrinkLimit _ _ _ _ _ _ hgives hloop
        split at hok
        · cases hok
          exact hv1
        · have hv := congrArg (fun q => q.2.1) (Except.ok.inj hok)
          simp only at hv
          rw [← hv]
          exact hv1
    · rename_i hge
      rw [if_pos (by omega)] at hwants
      exact dos33fsGrowFile_vtoc hwants hok

/-- What is written to the entry of a file that is destroyed lies outside the sector of its
first list. -/
theorem destroyEntry_firstS (b : Block) (e n : Nat) (p : Prop) [Decidable p] :
    setByte (if p then b else setByte b (catOffset e dos33CatOffsetEndFileName) n)
      (catOffset e dos33CatOffsetFirstT) 0xff (catOffset e dos33CatOffsetFirstS) =
        b (catOffset e dos33CatOffsetFirstS) := by
  rw [setByte, Function.update_of_ne (catOffset_ne (by decide) (by decide) (Or.inr (by decide)))]
  split
  · rfl
  · rw [setByte, Function.update_of_ne (catOffset_ne (by decide) (by decide) (Or.inr (by decide)))]

/-- `dos33fs_destroy_inode` that gives nothing back. -/
theorem dos33fsDestroyInode_vtoc {r : Int} (hgives : destroyGives v inode = 0)
    (hok : dos33fsDestroyInode v inode = .ok (r, v', inode')) : v'.vtoc = v.vtoc := by
  rw [destroyGives] at hgives
  rw [dos33fsDestroyInode] at hok
  obtain ⟨htruncate, hlist⟩ := Nat.add_eq_zero_iff.1 hgives
  cases htr : dos33fsTruncateInode v inode 0 with
  | error e =>
      rw [htr] at hok
      cases hok
  | ok q =>
      obtain ⟨result, v1, inode1⟩ := q
      have hwants : truncateWants v inode 0 = 0 := if_neg (Nat.not_lt_zero _)
      have hv1 := dos33fsTruncateInode_vtoc hwants htruncate htr
      rw [htr] at hok hlist
      simp only at hok hlist
      split at hok
      · cases hok
        exact hv1
      · rename_i hres
        split at hok
        · cases hok
          exact hv1
        · split at hok
          · cases hok
            exact hv1
          · -- the entry is marked, and then the first list
            rename_i hentry
            have hinside : ¬ (result < 0 ∨ inodeEntry inode1.number ≥ dos33CatMaxEntries) := by
              rintro (hneg | hge)
              · exact hres hneg
              · exact hentry hge
            rw [if_neg hinside] at hlist
            cases hok
            refine (dos33MarkBlocksFree_vtoc ?_).trans hv1
            rw [destroyEntry_firstS]
            exact hlist

end Gives

/-! ## Calls that leave the VTOC alone -/

/-- The sectors that a call gives back. -/
def Store.gives (s : Store) : FileOp → Nat
  | .truncate f size =>
      match s.inode f with
      | none => 0
      | some inode => truncateGives s.volume inode size
  | .destroy f =>
      match s.inode f with
      | none => 0
      | some inode => destroyGives s.volume inode
  | _ => 0

theorem dos33fsLinkInode_vtoc (v : Dos33Volume) (inode : Inode) (name : CString) :
    (dos33fsLinkInode v inode name).2.1.vtoc = v.vtoc := by
  unfold dos33fsLinkInode
  split <;> rfl

theorem dos33fsUnlinkInode_vtoc (v : Dos33Volume) (inode : Inode) :
    (dos33fsUnlinkInode v inode).2.vtoc = v.vtoc := by
  unfold dos33fsUnlinkInode
  simp only
  split
  · rfl
  · split <;> rfl

/-- A call that asks for no sector and gives none back leaves the VTOC alone. -/
theorem Store.step_vtoc {dirInode : Inode} {s s' : Store} {op : FileOp} {r : Reply}
    (hwants : s.wants dirInode op = 0) (hgives : s.gives op = 0)
    (hstep : Store.step dirInode s op = .ok (r, s')) : s'.volume.vtoc = s.volume.vtoc := by
  cases Store.returns_of_step hstep with
  | make hmake => exact dos33fsMakeInode_vtoc hwants hmake
  | «open» => rfl
  | @link f name inode inode' r v hheld hlink =>
      have hvtoc := dos33fsLinkInode_vtoc s.volume inode name
      rw [hlink] at hvtoc
      exact hvtoc
  | write hheld hwrite =>
      rw [Store.wants, hheld] at hwants
      exact dos33fsWriteFile_vtoc hwants hwrite
  | read => rfl
  | truncate hheld htruncate =>
      rw [Store.wants, hheld] at hwants
      rw [Store.gives, hheld] at hgives
      exact dos33fsTruncateInode_vtoc hwants hgives htruncate
  | @unlink f inode r v hheld hunlink =>
      have hvtoc := dos33fsUnlinkInode_vtoc s.volume inode
      rw [hunlink] at hvtoc
      exact hvtoc
  | destroy hheld hdestroy =>
      rw [Store.gives, hheld] at hgives
      exact dos33fsDestroyInode_vtoc hgives hdestroy

/-! ## Two mounted volumes -/

namespace Mounts

/-- Two devices are mounted, nothing has been called yet. -/
def bootTwo (disk : Nat → Disk) (a b : Nat) : Mounts :=
  (dos33fsMount (dos33fsMount (boot disk) a).2 b).2

/-- A call through superblock `k`. -/
def callsOn (k : Nat) : MountOp → Bool
  | .mount _ => false
  | .call j _ => j == k

/-- A call through another superblock than `k` asks for no sector and gives none back. -/
def OthersLeaveVtoc (k : Nat) (m : Mounts) : MountOp → Prop
  | .mount _ => True
  | .call j op => j ≠ k → ∀ sb, m.sbs[j]? = some sb →
      (m.store j sb).wants sb.dirInode op = 0 ∧ (m.store j sb).gives op = 0

/-- Volume `k` is the same in both: its superblock, its device, its VTOC in memory and the
inodes of its files. -/
def SameVolume (k : Nat) (m m' : Mounts) : Prop :=
  ∃ sb, m.sbs[k]? = some sb ∧ m'.sbs[k]? = some sb ∧ m'.store k sb = m.store k sb

/-- What two runs have in common that only differ in the calls on the volumes other than `k`:
all of `vtoc_list`, and volume `k`. No other superblock has its device. -/
structure Alike (k : Nat) (m m' : Mounts) (sb : Dos33Superblock) : Prop where
  vtocList : m'.vtocList = m.vtocList
  left : m.sbs[k]? = some sb
  right : m'.sbs[k]? = some sb
  disk : m'.disk sb.block = m.disk sb.block
  inode : m'.inode k = m.inode k
  device : ∀ j sb₁, k ≠ j → m.sbs[j]? = some sb₁ → sb₁.block ≠ sb.block
  full : dos33MaxVtocs ≤ m.nextVtoc

section Alike

variable {k : Nat} {m m' m₁ : Mounts} {sb : Dos33Superblock} {i : MountOp} {r : Reply}

theorem Alike.store_eq (h : Alike k m m' sb) : m'.store k sb = m.store k sb := by
  simp only [store, volume, h.vtocList, h.disk, h.inode]

theorem Alike.sameVolume (h : Alike k m m' sb) : SameVolume k m m' :=
  ⟨sb, h.left, h.right, h.store_eq⟩

/-- A call on volume `k` finds the same in both and leaves the same in both. -/
theorem Alike.call (h : Alike k m m' sb) (hi : callsOn k i = true)
    (hstep : m.step i = .ok (r, m₁)) :
    ∃ m₁' sb₁, m'.step i = .ok (r, m₁') ∧ Alike k m₁ m₁' sb₁ := by
  cases i with
  | mount block => cases hi
  | call j op =>
      obtain rfl : j = k := by simpa [callsOn] using hi
      obtain ⟨sb', s, hsb, hcall, rfl⟩ := step_call_eq_ok.1 hstep
      obtain rfl : sb' = sb := Option.some.inj (hsb.symm.trans h.left)
      have hcall' : Store.step sb'.dirInode (m'.store j sb') op = .ok (r, s) := by
        rw [h.store_eq]
        exact hcall
      refine ⟨m'.putStore j sb' s, _, step_call_eq_ok.2 ⟨sb', s, h.right, hcall', rfl⟩,
        ?_, sbs_putStore_self h.left, sbs_putStore_self h.right, ?_, ?_, ?_, h.full⟩
      · simp only [putStore, h.vtocList]
      · rw [putStore_disk_self, putStore_disk_self]
      · rw [putStore_inode_self, putStore_inode_self]
      · intro l sb₁ hne hl
        rw [sbs_putStore_of_ne hne] at hl
        exact h.device l sb₁ hne hl

/-- A call on another volume that leaves the VTOC alone, and a mount that finds no room. -/
theorem Alike.other (h : Alike k m m' sb) (hi : ¬ callsOn k i = true) (hothers : OthersLeaveVtoc k m i)
    (hstep : m.step i = .ok (r, m₁)) : Alike k m₁ m' sb := by
  cases i with
  | mount block =>
      rcases dos33fsMount_spec m block with ⟨-, hfull⟩ | ⟨m₂, sb₂, hmount, -⟩
      · rw [step, hfull] at hstep
        cases hstep
        exact h
      · -- both rows of `vtoc_list` are taken
        rw [dos33fsMount, if_pos h.full] at hmount
        cases hmount
  | call j op =>
      have hne : j ≠ k := by
        rintro rfl
        exact hi (by simp [callsOn])
      obtain ⟨sb₁, s, hsb₁, hcall, rfl⟩ := step_call_eq_ok.1 hstep
      obtain ⟨hwants, hgives⟩ := hothers hne sb₁ hsb₁
      have hvtoc := Store.step_vtoc hwants hgives hcall
      refine ⟨?_, ?_, h.right, ?_, ?_, ?_, h.full⟩
      · funext n
        rw [h.vtocList, putStore]
        simp only
        split
        · rfl
        · rename_i hge
          rw [hvtoc]
          show m.vtocList n = m.vtocList (sb₁.vtoc + (n - sb₁.vtoc))
          rw [Nat.add_sub_cancel' (Nat.not_lt.1 hge)]
      · rw [sbs_putStore_of_ne hne, h.left]
      · rw [h.disk, putStore_disk_of_ne (h.device j sb₁ hne.symm hsb₁).symm]
      · rw [h.inode, putStore_inode_of_ne hne.symm]
      · intro l sb₂ hl hsb₂
        by_cases hj : j = l
        · subst hj
          rw [sbs_putStore_self hsb₁] at hsb₂
          obtain rfl := Option.some.inj hsb₂
          exact h.device j sb₁ hl hsb₁
        · rw [sbs_putStore_of_ne hj] at hsb₂
          exact h.device l sb₂ hl hsb₂

end Alike

/-- Both devices get a superblock of their own. -/
theorem bootTwo_alike (disk : Nat → Disk) {a b k : Nat} (hab : a ≠ b) (hk : k < 2) :
    ∃ sb, Alike k (bootTwo disk a b) (bootTwo disk a b) sb := by
  have hnext₀ : (boot disk).nextVtoc = 0 := rfl
  rcases dos33fsMount_spec (boot disk) a with ⟨hfull, -⟩ | ⟨m₁, sb₁, hmount₁, h₁⟩
  · rw [hnext₀] at hfull
    exact absurd hfull (by decide)
  have hnext₁ : m₁.nextVtoc = 1 := h₁.nextVtoc
  rcases dos33fsMount_spec m₁ b with ⟨hfull, -⟩ | ⟨m₂, sb₂, hmount₂, h₂⟩
  · rw [hnext₁] at hfull
    exact absurd hfull (by decide)
  have hsbs : m₂.sbs = [sb₁, sb₂] := by
    rw [h₂.sbs, h₁.sbs]
    rfl
  have hboot : bootTwo disk a b = m₂ := by rw [bootTwo, hmount₁, hmount₂]
  have hfull : dos33MaxVtocs ≤ m₂.nextVtoc := by
    rw [h₂.nextVtoc, hnext₁]
  rw [hboot]
  have hdevices : sb₁.block ≠ sb₂.block := by
    rw [h₁.device, h₂.device]
    exact hab
  obtain rfl | rfl : k = 0 ∨ k = 1 := by omega
  · refine ⟨sb₁, rfl, by rw [hsbs]; rfl, by rw [hsbs]; rfl, rfl, rfl, ?_, hfull⟩
    intro j sb hj hsb
    rw [hsbs] at hsb
    obtain ⟨l, rfl⟩ : ∃ l, j = l + 1 := ⟨j - 1, by omega⟩
    rw [List.getElem?_cons_succ] at hsb
    obtain rfl := List.mem_singleton.1 (List.mem_of_getElem? hsb)
    exact hdevices.symm
  · refine ⟨sb₂, rfl, by rw [hsbs]; rfl, by rw [hsbs]; rfl, rfl, rfl, ?_, hfull⟩
    intro j sb hj hsb
    rw [hsbs] at hsb
    cases j with
    | zero =>
        cases hsb
        exact hdevices
    | succ l =>
        cases l with
        | zero => exact absurd rfl hj
        | succ l => cases hsb

end Mounts

/-- Two volumes on different devices, and calls on both in any order, where those on the other
volume ask for no sector and give none back: volume `k` ends as with its own calls alone, and
these have the same answers. -/
theorem Mounts.run_independent {disk : Nat → Disk} {a b k : Nat} {ops : List MountOp}
    {rs : List Reply} {m : Mounts} (hab : a ≠ b) (hk : k < 2)
    (hothers : Along Mounts.step (Mounts.OthersLeaveVtoc k) (Mounts.bootTwo disk a b) ops)
    (hrun : Mounts.run (Mounts.bootTwo disk a b) ops = .ok (rs, m)) :
    ∃ m', Mounts.run (Mounts.bootTwo disk a b) (ops.filter (Mounts.callsOn k)) =
        .ok (answersTo (Mounts.callsOn k) ops rs, m') ∧ Mounts.SameVolume k m m' := by
  obtain ⟨sb, halike⟩ := Mounts.bootTwo_alike disk hab hk
  obtain ⟨m', hrun', sb', halike'⟩ := run_filter
    (R := fun m m' => ∃ sb, Mounts.Alike k m m' sb) (P := Mounts.OthersLeaveVtoc k)
    (fun m₁ m₂ i r m₁' ⟨sb, h⟩ hi hstep =>
      have ⟨m₂', sb', hstep', h'⟩ := h.call hi hstep
      ⟨m₂', hstep', sb', h'⟩)
    (fun m₁ m₂ i r m₁' ⟨sb, h⟩ hi hothers hstep => ⟨sb, h.other hi hothers hstep⟩)
    ⟨sb, halike⟩ hothers hrun
  exact ⟨m', hrun', halike'.sameVolume⟩

/-- A file is made and looked at on the second volume, and the first one is asked for a file
that is not there. -/
theorem Mounts.run_independent_blankDevices :
    ∃ m m', Mounts.run (Mounts.bootTwo blankDevices 0 1)
        [.call 1 (.make 0 Inode.zeroed), .call 0 (.open 0 Inode.zeroed), .call 1 (.read 0 1 0)] =
          .ok ([.result 0, .result 0, .bytes 0 [] 0], m) ∧
      Mounts.run (Mounts.bootTwo blankDevices 0 1)
        [.call 1 (.make 0 Inode.zeroed), .call 1 (.read 0 1 0)] =
          .ok ([.result 0, .bytes 0 [] 0], m') ∧ Mounts.SameVolume 1 m m' := by
  obtain ⟨⟨rs, m⟩, hrun, hrs⟩ := map_eq_ok.1 (by decide :
    (Mounts.run (Mounts.bootTwo blankDevices 0 1) [.call 1 (.make 0 Inode.zeroed),
      .call 0 (.open 0 Inode.zeroed), .call 1 (.read 0 1 0)]).map (fun q => q.1) =
        .ok [.result 0, .result 0, .bytes 0 [] 0])
  simp only at hrs
  subst hrs
  have hothers : Along Mounts.step (Mounts.OthersLeaveVtoc 1) (Mounts.bootTwo blankDevices 0 1)
      [.call 1 (.make 0 Inode.zeroed), .call 0 (.open 0 Inode.zeroed), .call 1 (.read 0 1 0)] :=
    ⟨fun hne => absurd rfl hne, fun _ _ _ => ⟨fun _ _ _ => ⟨rfl, rfl⟩, fun _ _ _ =>
      ⟨fun hne => absurd rfl hne, fun _ _ _ => trivial⟩⟩⟩
  obtain ⟨m', hrun', hsame⟩ := Mounts.run_independent (by decide) (by decide) hothers hrun
  exact ⟨m, m', hrun, hrun', hsame⟩

/-- A file is made on the second volume: the VTOC of the first one, which has not been called
at all, changes in memory. Byte 131 of it is byte 129 of the other, with the bits of track 18. -/
theorem Mounts.not_independent :
    ¬ ∀ (disk : Nat → Disk) (a b k : Nat) (ops : List MountOp) (rs : List Reply) (m : Mounts),
      a ≠ b → k < 2 →
      (∀ n, WellFormed ⟨disk n 272, disk n, 0, 0⟩ (catalogRoot (disk n 272))) →
      Mounts.run (Mounts.bootTwo disk a b) ops = .ok (rs, m) →
        ∃ m', Mounts.run (Mounts.bootTwo disk a b) (ops.filter (Mounts.callsOn k)) =
          .ok (answersTo (Mounts.callsOn k) ops rs, m') ∧ Mounts.SameVolume k m m' := by
  intro hclaim
  obtain ⟨⟨rs, m⟩, hrun, hbyte⟩ := map_eq_ok.1 (by decide :
    (Mounts.run (Mounts.bootTwo blankDevices 0 1) [.call 1 (.make 0 Inode.zeroed)]).map
      (fun q => q.2.vtocList 131) = .ok 0xfc)
  obtain ⟨m', hrun', sb, hsb, hsb', hsame⟩ := hclaim blankDevices 0 1 0 _ rs m (by decide)
    (by decide) (fun _ => blankVolume_wellFormed.congr_vtoc rfl fun _ _ => rfl) hrun
  -- with its own calls alone, that is none, nothing happens
  have hidle : Mounts.bootTwo blankDevices 0 1 = m' := congrArg Prod.snd (Except.ok.inj hrun')
  subst hidle
  -- row 0 starts where the array does
  have hrow : sb.vtoc = 0 := by
    obtain rfl := Option.some.inj (show some _ = some sb from hsb')
    rfl
  have hvtoc := congrFun (congrArg (fun s => s.volume.vtoc) hsame) 131
  simp only [Mounts.store, Mounts.volume, hrow, Nat.zero_add] at hvtoc
  rw [hbyte] at hvtoc
  revert hvtoc
  decide

end Vmwos
