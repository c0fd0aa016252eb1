import Vmwos.Fs.Dos33fs.BlankVolume
import Vmwos.Fs.Dos33fs.Store
import Vmwos.Fs.Pathnames

/-!
# Listing a DOS 3.3 directory

`dos33fs_getdents` fills a buffer with records and remembers an inode number to go on from.
The records of `.` and `..` carry the numbers `0xff` and `0xfe`, while looking either name up
leaves the number of the directory as it is, so no listing agrees with
`dos33fs_lookup_inode` (`not_listsFaithfully`). A call that goes on in the middle of a catalog
sector counts the entries from there but reads them from the first one on
(`listing_repeatsEntries`).
-/

set_option autoImplicit false

namespace Vmwos

open Library

/-! ## Looking a path up -/

/-- The loop of `dos33fs_lookup_inode`: the result and the inode number reached. -/
def lookupComponents (d : Disk) : Nat → Nat → CString → Except Stuck (Int × Nat)
  | 0, _, _ => .error .endless
  | fuel + 1, number, path =>
      let (dir, rest) := splitFilename path maxFilenameSize
      match dos33LookupInodeDir d number dir with
      | .error e => .error e
      | .ok none => .ok (-1, number)
      | .ok (some number) =>
          match rest with
          | none => .ok (0, number)
          | some rest => lookupComponents d fuel number rest

/-- `dos33fs_lookup_inode` -/
def dos33fsLookupInode (d : Disk) (inode : Inode) (name : CString) :
    Except Stuck (Int × Inode) :=
  if name = [] then .ok (dos33ReadInode d inode)
  else
    match lookupComponents d (name.length + 1) inode.number name with
    | .error e => .error e
    | .ok (result, number) =>
        if result < 0 then .ok (result, { inode with number := number })
        else .ok (dos33ReadInode d { inode with number := number })

/-! ## Reading directory entries -/

/-- `struct vmwos_dirent` -/
structure Dirent where
  dIno : Nat
  dOff : Nat
  dReclen : Nat
  dName : CString
  deriving DecidableEq, Repr

/-- The length of a record: three integers, the name and its terminator, padded to a multiple
of four. -/
def direntLength (nameLength : Nat) : Nat :=
  let length := 12 + nameLength + 1
  if length % 4 ≠ 0 then length + (4 - length % 4) else length

/-- The record of a name that takes `nameLength` bytes. -/
def dirent (number nameLength : Nat) (name : CString) : Dirent :=
  ⟨number, direntLength nameLength, direntLength nameLength, name⟩

/-- The name in the entry at `catOffset`: 30 bytes, trailing `0xa0` padding removed, high bits
cleared. The bytes before the first 0 count for the length. -/
def filenameBytes (b : Block) (catOffset : Nat) : List UInt8 :=
  let raw := (List.range dos33MaxFilenameSize).map fun i =>
    b (catOffset + dos33CatOffsetFileName + i)
  let raw := (raw.reverse.dropWhile (· = 0xa0)).reverse
  (raw.takeWhile (· ≠ 0)).map (· &&& 0x7f)

/-- What a call of `dos33fs_getdents` keeps track of: the records written, `total_length`,
`current_length` and `inode`. -/
structure DentState where
  records : List Dirent
  totalLength : Nat
  currentLength : Nat
  inode : Nat

/-- One entry of a catalog sector: the state behind it, and whether the loop goes on. It ends at
a record that does not fit. -/
def getdentsEntry (b : Block) (number size catOffset : Nat) (st : DentState) :
    DentState × Bool :=
  let st := { st with inode := number }
  if entryHidden (b catOffset) then (st, true)
  else
    let filename := filenameBytes b catOffset
    let st := { st with currentLength := direntLength filename.length }
    if st.currentLength + st.totalLength > size then (st, false)
    else
      ({ st with
          records := st.records ++ [dirent number filename.length (filename.takeWhile (· ≠ 0))]
          totalLength := st.totalLength + st.currentLength }, true)

/-- The loop over the entries of one catalog sector. -/
def getdentsSector (b : Block) (nextT nextS size : Nat) :
    Nat → (i catOffset : Nat) → DentState → DentState
  | 0, _, _, st => st
  | n + 1, i, catOffset, st =>
      let r := getdentsEntry b (inodeNumber nextT nextS i) size catOffset st
      if r.2 then
        getdentsSector b nextT nextS size n (i + 1) (catOffset + dos33CatEntrySize) r.1
      else r.1

/-- The loop over the catalog sectors. The length of the last record is compared with the room
left once more after each sector. -/
def getdentsLoop (d : Disk) (size : Nat) :
    Nat → (nextT nextS nextI : Nat) → DentState → Except Stuck DentState
  | 0, _, _, _, _ => .error .endless
  | fuel + 1, nextT, nextS, nextI, st =>
      let b := readBlock d (ts nextT nextS)
      let st := getdentsSector b nextT nextS size (dos33CatMaxEntries - nextI) nextI
        dos33CatFirstEntry st
      if st.currentLength + st.totalLength > size then .ok st
      else
        let t := (b dos33CatNextTrack).toNat
        let s := (b dos33CatNextSector).toNat
        if t = 0 ∧ s = 0 then .ok { st with inode := 0xffffffff }
        else getdentsLoop d size fuel t s 0 st

/-- Rounds after which the loop over the catalog sectors has filled the buffer or is in a circle
without records. -/
def getdentsRounds (size : Nat) : Nat := chainRounds * (size + 2)

/-- `dos33fs_getdents`: the result, the records in the buffer and the new progress. -/
def dos33fsGetdents (d : Disk) (dirNumber progress size : Nat) :
    Except Stuck (Int × List Dirent × Nat) :=
  let inode := uint32 progress
  if progress = 0xffffffff then .ok (0, [], progress)
  else
    let dot := dirent (inode ||| 0xff) 1 [0x2e]
    let dotdot := dirent (inode ||| 0xfe) 2 [0x2e, 0x2e]
    if progress = 0 ∧ dot.dReclen > size then .ok (-e2big, [], progress)
    else if progress = 0 ∧ dotdot.dReclen + dot.dReclen > size then .ok (-e2big, [dot], progress)
    else
      let start : Nat := if progress = 0 then dirNumber else progress
      let nextI := if progress = 0 then 0 else inodeEntry progress
      let st : DentState :=
        if progress = 0 then
          ⟨[dot, dotdot], dot.dReclen + dotdot.dReclen, dotdot.dReclen, inode⟩
        else ⟨[], 0, 0, inode⟩
      match getdentsLoop d size (getdentsRounds size) (inodeTrack start) (inodeSector start) nextI
          st with
      | .error e => .error e
      | .ok st => .ok (st.totalLength, st.records, st.inode)

/-! ## Whole listings -/

/-- The records that repeated calls deliver, from the `k`-th buffer size on, until one returns
0; `none` when `n` calls are not enough or one fails. -/
def listing (d : Disk) (dirNumber : Nat) (sizes : Nat → Nat) :
    Nat → (k progress : Nat) → Option (List Dirent)
  | 0, _, _ => none
  | n + 1, k, progress =>
      match dos33fsGetdents d dirNumber progress (sizes k) with
      | .error _ => none
      | .ok (result, records, progress) =>
          if result < 0 then none
          else if result = 0 then some []
          else (listing d dirNumber sizes n (k + 1) progress).map (records ++ ·)

/-- Entry `e` of catalog sector `c` names a file. -/
def IsLiveEntry (d : Disk) (root c e : Nat) : Prop :=
  (∃ k, catalogAt d root k = some c) ∧ e < dos33CatMaxEntries ∧
    entryHidden (d c (catOffset e dos33CatOffsetFirstT)) = false

/-- Reading the directory until a call returns 0 delivers `.`, `..` and each live entry once,
each with its name and the number under which the name is found. -/
def ListsFaithfully (d : Disk) (dirInode : Inode) (sizes : Nat → Nat) : Prop :=
  ∃ (n : Nat) (records : List Dirent) (dotIno dotdotIno : Nat) (live : List (Nat × Nat)),
    listing d dirInode.number sizes n 0 0 = some records ∧
      live.Nodup ∧
      (∀ c e, (c, e) ∈ live ↔ IsLiveEntry d
        (inodeTrack dirInode.number * 16 + inodeSector dirInode.number) c e) ∧
      (records.map fun r => (r.dIno, r.dName)).Perm
        ((dotIno, [0x2e]) :: (dotdotIno, [0x2e, 0x2e]) ::
          live.map fun ce => (inodeNumber (ce.1 / 16) (ce.1 % 16) ce.2,
            decodeFilename (d ce.1) ce.2)) ∧
      ∀ r ∈ records, ∃ inode, dos33fsLookupInode d dirInode r.dName = .ok (0, inode) ∧
        inode.number = r.dIno

/-- Looking `.` or `..` up does not change the number. -/
theorem dos33fsLookupInode_dots {d : Disk} {dirInode inode : Inode} {name : CString} {r : Int}
    (hname : name = [0x2e] ∨ name = [0x2e, 0x2e])
    (h : dos33fsLookupInode d dirInode name = .ok (r, inode)) : inode.number = dirInode.number := by
  have hread : dos33fsLookupInode d dirInode name = .ok (dos33ReadInode d dirInode) := by
    rcases hname with rfl | rfl
    · rfl
    · rfl
  rw [hread] at h
  have hnumber := dos33ReadInode_number d dirInode
  rw [Except.ok.inj h] at hnumber
  exact hnumber

/-- Records in the buffer stay there. -/
theorem records_getdentsEntry {b : Block} {number size catOffset : Nat} {st : DentState}
    {r : Dirent} (hr : r ∈ st.records) :
    r ∈ (getdentsEntry b number size catOffset st).1.records := by
  unfold getdentsEntry
  simp only
  split
  · exact hr
  · split
    · exact hr
    · exact List.mem_append_left _ hr

theorem records_getdentsSector (b : Block) (nextT nextS size n i catOffset : Nat) (st : DentState)
    {r : Dirent} (hr : r ∈ st.records) :
    r ∈ (getdentsSector b nextT nextS size n i catOffset st).records := by
  induction n generalizing i catOffset st with
  | zero => exact hr
  | succ n ih =>
      rw [getdentsSector]
      split
      · exact ih _ _ _ (records_getdentsEntry hr)
      · exact records_getdentsEntry hr

theorem records_getdentsLoop {d : Disk} {size fuel nextT nextS nextI : Nat} {st st' : DentState}
    {r : Dirent} (h : getdentsLoop d size fuel nextT nextS nextI st = .ok st')
    (hr : r ∈ st.records) : r ∈ st'.records := by
  induction fuel generalizing nextT nextS nextI st with
  | zero => cases h
  | succ fuel ih =>
      rw [getdentsLoop] at h
      simp only at h
      have hr' := records_getdentsSector (readBlock d (ts nextT nextS)) nextT nextS size
        (dos33CatMaxEntries - nextI) nextI dos33CatFirstEntry st hr
      split at h
      · cases h
        exact hr'
      · split at h
        · cases h
          exact hr'
        · exact ih h hr'

/-- The first call of a listing delivers `.` as `0xff` and `..` as `0xfe`. -/
theorem mem_dos33fsGetdents_zero {d : Disk} {dirNumber size progress : Nat} {result : Int}
    {records : List Dirent} (h : dos33fsGetdents d dirNumber 0 size = .ok (result, records, progress))
    (hresult : ¬result < 0) :
    dirent 0xff 1 [0x2e] ∈ records ∧ dirent 0xfe 2 [0x2e, 0x2e] ∈ records := by
  rw [dos33fsGetdents, if_neg (by decide)] at h
  simp only [true_and, if_true] at h
  split at h
  · cases h
    exact absurd (by decide) hresult
  · split at h
    · cases h
      exact absurd (by decide) hresult
    · split at h
      · cases h
      · rename_i st hloop
        cases h
        exact ⟨records_getdentsLoop hloop List.mem_cons_self,
          records_getdentsLoop hloop (List.mem_cons_of_mem _ List.mem_cons_self)⟩

/-- No listing agrees with `dos33fs_lookup_inode` on both `.` and `..`, whatever the volume and
the buffers. -/
theorem not_listsFaithfully (d : Disk) (dirInode : Inode) (sizes : Nat → Nat) :
    ¬ListsFaithfully d dirInode sizes := by
  rintro ⟨n, records, dotIno, dotdotIno, live, hlisting, -, -, hperm, hfound⟩
  cases n with
  | zero => cases hlisting
  | succ n =>
      rw [listing] at hlisting
      split at hlisting
      · cases hlisting
      · rename_i result first progress hfirst
        split at hlisting
        · cases hlisting
        · rename_i hneg
          obtain ⟨hdot, hdotdot⟩ := mem_dos33fsGetdents_zero hfirst hneg
          split at hlisting
          · -- nothing at all would be delivered
            cases hlisting
            cases hperm.length_eq
          · obtain ⟨rest, -, rfl⟩ := Option.map_eq_some_iff.1 hlisting
            obtain ⟨inode, hlookup, hnumber⟩ := hfound _ (List.mem_append_left _ hdot)
            obtain ⟨inode', hlookup', hnumber'⟩ := hfound _ (List.mem_append_left _ hdotdot)
            rw [dos33fsLookupInode_dots (Or.inl rfl) hlookup] at hnumber
            rw [dos33fsLookupInode_dots (Or.inr rfl) hlookup', hnumber] at hnumber'
            exact absurd hnumber' (by decide)

/-- A volume with the two files `A` and `B`, read with buffers of 48 bytes: the third record has
the number of `A`, the fourth the name of `A` and the number of `B`, and the fifth the name of
`B` and the number of an entry that was never used. -/
theorem listing_repeatsEntries :
    ∃ rs s, Store.run blankDirInode ⟨blankVolume, fun _ => none⟩
        [.make 0 Inode.zeroed, .link 0 [0x41], .make 1 Inode.zeroed, .link 1 [0x42]] = .ok (rs, s) ∧
      (listing s.volume.disk blankDirInode.number (fun _ => 48) 4 0 0).map
          (List.map fun r => (r.dIno, r.dName)) =
        some [(0xff, [0x2e]), (0xfe, [0x2e, 0x2e]), (0x110f00, [0x41]), (0x110f01, [0x41]),
          (0x110f02, [0x42])] ∧
      (dos33fsLookupInode s.volume.disk blankDirInode [0x2e]).map (fun r => r.2.number) =
        .ok 0x110fff ∧
      (dos33fsLookupInode s.volume.disk blankDirInode [0x41]).map (fun r => r.2.number) =
        .ok 0x110f00 ∧
      (dos33fsLookupInode s.volume.disk blankDirInode [0x42]).map (fun r => r.2.number) =
        .ok 0x110f01 := by
  obtain ⟨⟨rs, s⟩, hrun, hs⟩ := map_eq_ok.1 (by decide :
    (Store.run blankDirInode ⟨blankVolume, fun _ => none⟩
      [.make 0 Inode.zeroed, .link 0 [0x41], .make 1 Inode.zeroed, .link 1 [0x42]]).map (fun r =>
        (decide ((listing r.2.volume.disk blankDirInode.number (fun _ => 48) 4 0 0).map
            (List.map fun r => (r.dIno, r.dName)) =
          some [(0xff, [0x2e]), (0xfe, [0x2e, 0x2e]), (0x110f00, [0x41]), (0x110f01, [0x41]),
            (0x110f02, [0x42])]),
          [[0x2e], [0x41], [0x42]].map fun name =>
            decide ((dos33fsLookupInode r.2.volume.disk blankDirInode name).map
              (fun r => r.2.number) = .ok (if name = [0x2e] then 0x110fff else
                if name = [0x41] then 0x110f00 else 0x110f01)))) =
      .ok (true, [true, true, true]))
  simp only [Prod.mk.injEq, List.map_cons, List.map_nil, List.cons.injEq, decide_eq_true_eq] at hs
  obtain ⟨hlisting, hdot, ha, hb, -⟩ := hs
  exact ⟨rs, s, hrun, hlisting, hdot, ha, hb⟩
end Vmwos
