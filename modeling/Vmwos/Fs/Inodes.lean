import Vmwos.Fs.Superblock
import Vmwos.Fs.Dos33fs.Directory
import Vmwos.Fs.Pathnames

/-!
# In-core inodes

`inodes.c`: the table of the inodes in use, the lookup of a path in the mounted file systems and
the calls that take a path. The operations of a file system are called through the superblock
that the inode points to.

A slot is in use while its count is not 0. `inode_free` fills the record with the letter V when
the count gets there, so a slot that was used before points to no superblock.
-/

set_option autoImplicit false

namespace Vmwos

open Library

/-- A pointer to a slot of `inodes`. -/
abbrev InodeId := Fin numInodes

/-- What `inode_free` leaves in a slot: every byte but those of the count is a `V`. -/
def Inode.cleared : Inode :=
  ⟨0x56565656, 0x56565656, 0, 0x56565656, 0x56565656, 0x56565656, 0x56565656, 0x56565656,
    0x5656565656565656, 0x56565656, 0x56565656, 0x5656565656565656, 0x5656565656565656,
    0x5656565656565656, none⟩

namespace FileSystems

/-! ## The operations of the file systems -/

/-- A file system as its functions find it: the device and, for DOS 3.3, the VTOC. -/
inductive Driver where
  | romfs (block : Fin blockDevMax)
  | dos33fs (block : Fin blockDevMax) (vtoc : Nat)
  deriving DecidableEq, Repr

/-- `sb->sb_ops` behind a pointer to a superblock. -/
def driver (s : FileSystems) (sb : Option (Fin maxMounts)) :
    Except Stuck (Fin maxMounts × Driver) :=
  match sb with
  | none => .error .badAccess
  | some k =>
      match (s.superblockTable k).sbOps, (s.superblockTable k).block, (s.superblockTable k).vtoc with
      | some .romfs, some block, _ => .ok (k, .romfs block)
      | some .dos33fs, some block, some vtoc => .ok (k, .dos33fs block vtoc)
      | _, _, _ => .error .badAccess

/-- What the functions of `dos33fs.c` work on. -/
def volume (s : FileSystems) (k : Fin maxMounts) (block : Fin blockDevMax) (vtoc : Nat) :
    Dos33Volume :=
  ⟨fun i => s.vtocList (vtoc + i), s.disk block, (s.superblockTable k).blocks,
    (s.superblockTable k).blocksFree⟩

/-- What a function of `dos33fs.c` leaves behind. -/
def putVolume (s : FileSystems) (k : Fin maxMounts) (block : Fin blockDevMax) (vtoc : Nat)
    (v : Dos33Volume) : FileSystems :=
  { s.setSuperblock k
      { s.superblockTable k with blocks := v.blocks, blocksFree := v.blocksFree } with
    vtocList := fun i => if i < vtoc then s.vtocList i else v.vtoc (i - vtoc)
    disk := Function.update s.disk block v.disk }

/-- `sb_ops.lookup_inode`: the result and the inode as it is filled in. -/
def lookupInode (s : FileSystems) (inode : Inode) (path : CString) : Except Stuck (Int × Inode) :=
  match s.driver inode.sb with
  | .error e => .error e
  | .ok (_, .romfs block) => Romfs.lookupInode (s.disk block).image inode path
  | .ok (_, .dos33fs block _) => dos33fsLookupInode (s.disk block) inode path

/-- `sb_ops.write_inode` -/
def writeInode (s : FileSystems) (inode : Inode) : Except Stuck FileSystems :=
  match s.driver inode.sb with
  | .error e => .error e
  | .ok (_, .romfs _) => .ok s
  | .ok (_, .dos33fs block _) =>
      .ok { s with disk := Function.update s.disk block (dos33fsWriteInode (s.disk block) inode) }

/-- `sb_ops.truncate_inode`: the result, the inode and the file systems. -/
def truncateInode (s : FileSystems) (inode : Inode) (size : Nat) :
    Except Stuck (Int × Inode × FileSystems) :=
  match s.driver inode.sb with
  | .error e => .error e
  | .ok (_, .romfs _) => .ok (-erofs, inode, s)
  | .ok (k, .dos33fs block vtoc) =>
      match dos33fsTruncateInode (s.volume k block vtoc) inode size with
      | .error e => .error e
      | .ok (result, v, inode) => .ok (result, inode, s.putVolume k block vtoc v)

/-- `sb_ops.destroy_inode`. Its one caller looks neither at the result nor at the inode again. -/
def destroyInode (s : FileSystems) (inode : Inode) : Except Stuck FileSystems :=
  match s.driver inode.sb with
  | .error e => .error e
  | .ok (_, .romfs _) => .ok s
  | .ok (k, .dos33fs block vtoc) =>
      match dos33fsDestroyInode (s.volume k block vtoc) inode with
      | .error e => .error e
      | .ok (_, v, _) => .ok (s.putVolume k block vtoc v)

/-- `sb_ops.unlink_inode` -/
def unlinkInode (s : FileSystems) (inode : Inode) : Except Stuck (Int × FileSystems) :=
  match s.driver inode.sb with
  | .error e => .error e
  | .ok (_, .romfs _) => .ok (-erofs, s)
  | .ok (k, .dos33fs block vtoc) =>
      let (result, v) := dos33fsUnlinkInode (s.volume k block vtoc) inode
      .ok (result, s.putVolume k block vtoc v)

/-- `sb_ops.make_inode` of a directory, on a new inode. -/
def makeInode (s : FileSystems) (dirInode inode : Inode) :
    Except Stuck (Int × Inode × FileSystems) :=
  match s.driver dirInode.sb with
  | .error e => .error e
  | .ok (_, .romfs _) => .ok (-erofs, inode, s)
  | .ok (k, .dos33fs block vtoc) =>
      match dos33fsMakeInode (s.volume k block vtoc) dirInode inode with
      | .error e => .error e
      | .ok (result, v, inode) => .ok (result, inode, s.putVolume k block vtoc v)

/-- `sb_ops.link_inode`, taken from the superblock `sb` of the directory. -/
def linkInode (s : FileSystems) (sb : Option (Fin maxMounts)) (inode : Inode) (name : CString) :
    Except Stuck (Int × Inode × FileSystems) :=
  match s.driver sb with
  | .error e => .error e
  | .ok (_, .romfs _) => .ok (-erofs, inode, s)
  | .ok (k, .dos33fs block vtoc) =>
      let (result, v, inode) := dos33fsLinkInode (s.volume k block vtoc) inode name
      .ok (result, inode, s.putVolume k block vtoc v)

end FileSystems

/-! ## The table -/

/-- The mounted file systems and the table of the inodes in use. -/
structure Vfs extends FileSystems where
  inodes : InodeId → Inode

namespace Vfs

/-- Change one slot of the table. -/
def setInode (s : Vfs) (i : InodeId) (inode : Inode) : Vfs :=
  { s with inodes := Function.update s.inodes i inode }

/-- `inode_allocate` -/
def inodeAllocate (s : Vfs) : Option (InodeId × Vfs) :=
  ((List.finRange numInodes).find? fun i => (s.inodes i).count = 0).map fun i =>
    (i, s.setInode i { s.inodes i with count := 1 })

/-- `inode_find_existing`. The count of a slot is not looked at. -/
def inodeFindExisting (s : Vfs) (sb : Option (Fin maxMounts)) (number : Nat) : Option InodeId :=
  (List.finRange numInodes).find? fun i => (s.inodes i).sb = sb ∧ (s.inodes i).number = number

/-- `inode_free` -/
def inodeFree (s : Vfs) (i : InodeId) : Except Stuck (Int × Vfs) :=
  if (s.inodes i).count = 0 then .ok (-1, s)
  else
    let inode := { s.inodes i with count := (s.inodes i).count - 1 }
    if inode.count ≠ 0 then .ok (0, s.setInode i inode)
    else if inode.hardLinks = 0 then
      match s.destroyInode inode with
      | .error e => .error e
      | .ok fs => .ok (0, { s.setInode i Inode.cleared with toFileSystems := fs })
    else .ok (0, s.setInode i Inode.cleared)

/-- The path as `full_path` holds it: `strncpy` of an absolute path, without a terminator when
the buffer is full, or `snprintf` of the current directory, a slash and the path. -/
def expandPath (currentDir pathname : CString) : Except Stuck CString :=
  if pathname.head? = some 0x2f then
    if pathname.length ≥ maxPathLen then .error .badAccess else .ok pathname
  else if currentDir.length ≥ maxPathLen then .error .badAccess
  else .ok ((currentDir ++ 0x2f :: pathname).take (maxPathLen - 1))

/-- `inode_lookup_and_alloc`: the result, the inode unless the result is an error, and the
state. -/
def inodeLookupAndAlloc (s : Vfs) (currentDir pathname : CString) :
    Except Stuck ((Int × Option InodeId) × Vfs) :=
  match s.inodeAllocate with
  | none => .ok ((-enomem, none), s)
  | some (temp, s) =>
      match expandPath currentDir pathname with
      | .error e => .error e
      | .ok fullPath =>
          match superblockLookup s.superblockTable fullPath with
          | none => .ok ((-enoent, none), s)
          | some k =>
              let inode := { s.inodes temp with
                number := (s.superblockTable k).rootDir, sb := some k }
              let path := (fullPath.drop (s.superblockTable k).mountpoint.length).dropWhile
                (· = 0x2f)
              match s.lookupInode inode path with
              | .error e => .error e
              | .ok (result, inode) =>
                  let s := s.setInode temp inode
                  if result < 0 then
                    (s.inodeFree temp).map fun (_, s) => ((-enoent, none), s)
                  else
                    match s.inodeFindExisting inode.sb inode.number with
                    | none => .ok ((result, some temp), s)
                    | some i =>
                        let s := s.setInode i { s.inodes i with count := (s.inodes i).count + 1 }
                        (s.inodeFree temp).map fun (_, s) => ((result, some i), s)

/-! ## The calls that take a path -/

/-- What `stat_syscall` copies into the `struct vmwos_stat` of its caller. -/
structure VmwosStat where
  stDev : Nat
  stIno : Nat
  stMode : Nat
  stNlink : Int
  stUid : Int
  stGid : Int
  stRdev : Int
  stSize : Nat
  stBlksize : Nat
  stBlocks : Nat
  stAtime : Nat
  stMtime : Nat
  stCtime : Nat
  deriving DecidableEq, Repr

/-- `stat_syscall` -/
def statSyscall (s : Vfs) (currentDir pathname : CString) :
    Except Stuck ((Int × Option VmwosStat) × Vfs) :=
  match s.inodeLookupAndAlloc currentDir pathname with
  | .error e => .error e
  | .ok ((_, none), s) => .ok ((-enoent, none), s)
  | .ok ((result, some i), s) =>
      let n := s.inodes i
      let buf : VmwosStat := ⟨n.device, n.number, n.mode, n.hardLinks, n.uid, n.gid, n.rdev, n.size,
        n.blocksize, n.blocks, n.atime, n.mtime, n.ctime⟩
      (s.inodeFree i).map fun (_, s) => ((result, some buf), s)

/-- `chmod_syscall`. The mode is a 32-bit word. -/
def chmodSyscall (s : Vfs) (currentDir pathname : CString) (mode : Nat) :
    Except Stuck (Int × Vfs) :=
  match s.inodeLookupAndAlloc currentDir pathname with
  | .error e => .error e
  | .ok ((_, none), s) => .ok (-enoent, s)
  | .ok ((result, some i), s) =>
      let inode := { s.inodes i with
        mode := (s.inodes i).mode &&& 0xfffffe00 ||| mode &&& 0x1ff }
      match s.writeInode inode with
      | .error e => .error e
      | .ok fs =>
          (inodeFree { s.setInode i inode with toFileSystems := fs } i).map fun (_, s) => (result, s)

/-- `truncate_inode` -/
def truncateInode (s : Vfs) (i : InodeId) (size : Nat) : Except Stuck (Int × Vfs) :=
  match s.toFileSystems.truncateInode (s.inodes i) size with
  | .error e => .error e
  | .ok (result, inode, fs) =>
      let s := { s.setInode i inode with toFileSystems := fs }
      if result ≥ 0 then
        (s.writeInode inode).map fun fs => (result, { s with toFileSystems := fs })
      else .ok (result, s)

/-- `truncate64_syscall` -/
def truncate64Syscall (s : Vfs) (currentDir pathname : CString) (size : Nat) :
    Except Stuck (Int × Vfs) :=
  match s.inodeLookupAndAlloc currentDir pathname with
  | .error e => .error e
  | .ok ((_, none), s) => .ok (-enoent, s)
  | .ok ((_, some i), s) =>
      match s.truncateInode i size with
      | .error e => .error e
      | .ok (result, s) => (s.inodeFree i).map fun (_, s) => (result, s)

/-- `unlink_syscall` -/
def unlinkSyscall (s : Vfs) (currentDir pathname : CString) : Except Stuck (Int × Vfs) :=
  match s.inodeLookupAndAlloc currentDir pathname with
  | .error e => .error e
  | .ok ((_, none), s) => .ok (-enoent, s)
  | .ok ((_, some i), s) =>
      if (s.inodes i).mode &&& sIfdir ≠ 0 then (s.inodeFree i).map fun (_, s) => (-eisdir, s)
      else
        match s.unlinkInode (s.inodes i) with
        | .error e => .error e
        | .ok (result, fs) =>
            let inode := if result ≥ 0 then
                { s.inodes i with hardLinks := (s.inodes i).hardLinks - 1 }
              else s.inodes i
            (inodeFree { s.setInode i inode with toFileSystems := fs } i).map fun (_, s) =>
              (result, s)

end Vfs

/-! ## Giving an inode back -/

section Free

variable {s s' : Vfs} {i : InodeId} {r : Int}

/-- What `inode_free` does: nothing to a free slot, and the last reference clears the slot, after
the file has been destroyed if it has no links. -/
theorem inodeFree_cases (h : s.inodeFree i = .ok (r, s')) :
    ((s.inodes i).count = 0 ∧ r = -1 ∧ s' = s) ∨
      (2 ≤ (s.inodes i).count ∧ r = 0 ∧
        s' = s.setInode i { s.inodes i with count := (s.inodes i).count - 1 }) ∨
      ((s.inodes i).count = 1 ∧ r = 0 ∧ (s.inodes i).hardLinks ≠ 0 ∧
        s' = s.setInode i Inode.cleared) ∨
      ((s.inodes i).count = 1 ∧ r = 0 ∧ (s.inodes i).hardLinks = 0 ∧
        ∃ fs, s.destroyInode { s.inodes i with count := 0 } = .ok fs ∧
          s' = { s.setInode i Inode.cleared with toFileSystems := fs }) := by
  rw [Vfs.inodeFree] at h
  rcases Nat.lt_trichotomy (s.inodes i).count 1 with hlt | heq | hgt
  · rw [if_pos (Nat.lt_one_iff.1 hlt)] at h
    cases h
    exact Or.inl ⟨Nat.lt_one_iff.1 hlt, rfl, rfl⟩
  · simp only [heq, Nat.one_ne_zero, if_false, Nat.sub_self, ne_eq, not_true_eq_false] at h
    split at h
    · rename_i hlinks
      split at h
      · cases h
      · rename_i fs hfs
        cases h
        exact Or.inr (Or.inr (Or.inr ⟨heq, rfl, hlinks, fs, hfs, rfl⟩))
    · rename_i hlinks
      cases h
      exact Or.inr (Or.inr (Or.inl ⟨heq, rfl, hlinks, rfl⟩))
  · have hne : (s.inodes i).count - 1 ≠ 0 := Nat.sub_ne_zero_of_lt hgt
    rw [if_neg (Nat.ne_of_gt (Nat.lt_trans Nat.zero_lt_one hgt))] at h
    simp only [if_pos hne] at h
    cases h
    exact Or.inr (Or.inl ⟨hgt, rfl, rfl⟩)

/-- It comes back unless destroying the file does not. -/
theorem inodeFree_returns : (∃ r s', s.inodeFree i = .ok (r, s')) ↔
    ((s.inodes i).count = 1 → (s.inodes i).hardLinks = 0 →
      ∃ fs, s.destroyInode { s.inodes i with count := 0 } = .ok fs) := by
  constructor
  · rintro ⟨r, s', h⟩ hcount hlinks
    rcases inodeFree_cases h with ⟨h0, -⟩ | ⟨h2, -⟩ | ⟨-, -, hne, -⟩ | ⟨-, -, -, fs, hfs, -⟩
    · rw [hcount] at h0
      cases h0
    · rw [hcount] at h2
      exact absurd h2 (Nat.not_succ_le_self 1)
    · exact absurd hlinks hne
    · exact ⟨fs, hfs⟩
  · intro h
    rw [Vfs.inodeFree]
    by_cases h0 : (s.inodes i).count = 0
    · exact ⟨_, _, if_pos h0⟩
    · rw [if_neg h0]
      by_cases h1 : (s.inodes i).count = 1
      · simp only [h1, Nat.sub_self, ne_eq, not_true_eq_false, if_false]
        by_cases hlinks : (s.inodes i).hardLinks = 0
        · obtain ⟨fs, hfs⟩ := h h1 hlinks
          rw [if_pos hlinks, hfs]
          exact ⟨_, _, rfl⟩
        · rw [if_neg hlinks]
          exact ⟨_, _, rfl⟩
      · have hne : (s.inodes i).count - 1 ≠ 0 := fun h => h1 (Nat.le_antisymm
          (Nat.sub_eq_zero_iff_le.1 h) (Nat.pos_of_ne_zero h0))
        simp only [if_pos hne]
        exact ⟨_, _, rfl⟩

end Free

/-! ## Looking a path up -/

/-- What a file system may do to an inode that it fills in. -/
structure FilledIn (inode inode' : Inode) (r : Int) : Prop where
  count : inode'.count = inode.count
  sb : inode'.sb = inode.sb
  hardLinks : 0 ≤ r → inode'.hardLinks = 1

theorem dos33ReadInode_filledIn (d : Disk) (inode : Inode) :
    FilledIn inode (dos33ReadInode d inode).2 (dos33ReadInode d inode).1 := by
  unfold dos33ReadInode
  simp only
  split
  · exact ⟨rfl, rfl, fun _ => rfl⟩
  · split
    · exact ⟨rfl, rfl, fun h => absurd (show (0 : Int) ≤ -enoent from h) (by decide)⟩
    · exact ⟨rfl, rfl, fun _ => rfl⟩

/-- The number may change on the way. -/
theorem FilledIn.of_number {inode inode' : Inode} {r : Int} {number : Nat}
    (h : FilledIn { inode with number := number } inode' r) : FilledIn inode inode' r :=
  ⟨h.count, h.sb, h.hardLinks⟩

theorem dos33fsLookupInode_filledIn {d : Disk} {inode inode' : Inode} {name : CString} {r : Int}
    (h : dos33fsLookupInode d inode name = .ok (r, inode')) : FilledIn inode inode' r := by
  rw [dos33fsLookupInode] at h
  split at h
  · obtain ⟨rfl, rfl⟩ := Prod.mk.inj (Except.ok.inj h)
    exact dos33ReadInode_filledIn d inode
  · split at h
    · cases h
    · split at h
      · rename_i hneg
        cases h
        exact ⟨rfl, rfl, fun h0 => absurd h0 (Int.not_le.2 hneg)⟩
      · obtain ⟨rfl, rfl⟩ := Prod.mk.inj (Except.ok.inj h)
        exact (dos33ReadInode_filledIn d _).of_number

theorem romfsReadInodeLoop_filledIn {image : Romfs.Image} {fuel : Nat} {inode inode' : Inode}
    {r : Int} (h : Romfs.readInodeLoop image fuel inode = .ok (r, inode')) :
    FilledIn inode inode' r := by
  induction fuel generalizing inode with
  | zero => cases h
  | succ fuel ih =>
      rw [Romfs.readInodeLoop] at h
      split at h
      · exact (ih h).of_number
      · cases h
        exact ⟨rfl, rfl, fun _ => rfl⟩

theorem romfsLookupInode_filledIn {image : Romfs.Image} {inode inode' : Inode} {name : CString}
    {r : Int} (h : Romfs.lookupInode image inode name = .ok (r, inode')) :
    FilledIn inode inode' r := by
  rw [Romfs.lookupInode] at h
  split at h
  · exact romfsReadInodeLoop_filledIn h
  · split at h
    · cases h
    · split at h
      · rename_i hneg
        cases h
        exact ⟨rfl, rfl, fun h0 => absurd h0 (Int.not_le.2 hneg)⟩
      · exact (romfsReadInodeLoop_filledIn h).of_number

/-- Looking a path up fills the inode in, whichever file system it is. -/
theorem lookupInode_filledIn {s : FileSystems} {inode inode' : Inode} {path : CString} {r : Int}
    (h : s.lookupInode inode path = .ok (r, inode')) : FilledIn inode inode' r := by
  rw [FileSystems.lookupInode] at h
  split at h
  · cases h
  · exact romfsLookupInode_filledIn h
  · exact dos33fsLookupInode_filledIn h

/-- A free slot points to no superblock. -/
def Vfs.FreeSlots (s : Vfs) : Prop := ∀ i, (s.inodes i).count = 0 → (s.inodes i).sb = none

section Lookup

variable {s s' : Vfs} {i temp : InodeId} {r : Int} {currentDir pathname : CString}

theorem inodeAllocate_eq_some (h : s.inodeAllocate = some (i, s')) :
    (s.inodes i).count = 0 ∧ s' = s.setInode i { s.inodes i with count := 1 } := by
  obtain ⟨j, hj, heq⟩ := Option.map_eq_some_iff.1 h
  obtain ⟨rfl, rfl⟩ := Prod.mk.inj heq
  exact ⟨by simpa using List.find?_some hj, rfl⟩

theorem inodeFindExisting_eq_some {sb : Option (Fin maxMounts)} {number : Nat}
    (h : s.inodeFindExisting sb number = some i) :
    (s.inodes i).sb = sb ∧ (s.inodes i).number = number := by
  simpa using List.find?_some h

/-- What a successful lookup leaves: the file systems as they were, and in the slot of the inode
at least one reference, the only one to a link that is on disk. -/
structure Found (s s' : Vfs) (i : InodeId) : Prop where
  fileSystems : s'.toFileSystems = s.toFileSystems
  count : 1 ≤ (s'.inodes i).count
  hardLinks : s.FreeSlots → (s'.inodes i).count = 1 → (s'.inodes i).hardLinks ≠ 0

/-- Giving the temporary inode back after a success. -/
theorem found_inodeFree {s₀ : Vfs} {inode : Inode} {k : Fin maxMounts}
    (hfs : s.toFileSystems = s₀.toFileSystems) (htemp : s.inodes temp = inode)
    (hcount : inode.count = 1) (hlinks : inode.hardLinks = 1) (hsb : inode.sb = some k)
    (hother : ∀ j ≠ temp, s.inodes j = s₀.inodes j)
    (hexisting : s.inodeFindExisting inode.sb inode.number = some i)
    (hfree : (s.setInode i { s.inodes i with count := (s.inodes i).count + 1 }).inodeFree temp =
      .ok (r, s')) : Found s₀ s' i := by
  by_cases hi : i = temp
  · -- the temporary inode has found itself
    subst hi
    have hslot : (s.setInode i { s.inodes i with count := (s.inodes i).count + 1 }).inodes i =
        { inode with count := 2 } := by
      show Function.update s.inodes i _ i = _
      rw [Function.update_self, htemp, hcount]
    rcases inodeFree_cases hfree with ⟨h0, -⟩ | ⟨-, -, rfl⟩ | ⟨h1, -⟩ | ⟨h1, -⟩
    · rw [hslot] at h0
      cases h0
    · have hself : ((s.setInode i { s.inodes i with count := (s.inodes i).count + 1 }).setInode i
          { (s.setInode i { s.inodes i with count := (s.inodes i).count + 1 }).inodes i with
            count := ((s.setInode i { s.inodes i with
              count := (s.inodes i).count + 1 }).inodes i).count - 1 }).inodes i =
            { inode with count := 1 } := by
        rw [hslot]
        exact Function.update_self _ _ _
      refine ⟨hfs, ?_, fun _ _ => ?_⟩
      · rw [hself]
      · rw [hself]
        show inode.hardLinks ≠ 0
        rw [hlinks]
        exact Int.one_ne_zero
    · rw [hslot] at h1
      cases h1
    · rw [hslot] at h1
      cases h1
  · have hslot : (s.setInode i { s.inodes i with count := (s.inodes i).count + 1 }).inodes temp =
        inode := by
      show Function.update s.inodes i _ temp = _
      rw [Function.update_of_ne (Ne.symm hi), htemp]
    have hfound : Found s₀ ((s.setInode i { s.inodes i with
        count := (s.inodes i).count + 1 }).setInode temp Inode.cleared) i := by
      have hself : ((s.setInode i { s.inodes i with count := (s.inodes i).count + 1 }).setInode temp
          Inode.cleared).inodes i = { s.inodes i with count := (s.inodes i).count + 1 } := by
        show Function.update (Function.update s.inodes i _) temp _ i = _
        rw [Function.update_of_ne hi, Function.update_self]
      refine ⟨hfs, ?_, ?_⟩
      · rw [hself]
        exact Nat.le_add_left 1 _
      · -- the slot found has been in use
        intro hslots hone
        rw [hself] at hone
        have hzero : (s₀.inodes i).count = 0 := by
          rw [← hother i hi]
          exact Nat.succ.inj hone
        have hnone := hslots i hzero
        rw [← hother i hi, (inodeFindExisting_eq_some hexisting).1, hsb] at hnone
        cases hnone
    rcases inodeFree_cases hfree with ⟨h0, -⟩ | ⟨h2, -⟩ | ⟨-, -, -, rfl⟩ | ⟨-, -, h0, -⟩
    · rw [hslot, hcount] at h0
      cases h0
    · rw [hslot, hcount] at h2
      exact absurd h2 (Nat.not_succ_le_self 1)
    · exact hfound
    · rw [hslot, hlinks] at h0
      cases h0

/-- A lookup that succeeds. -/
theorem inodeLookupAndAlloc_found
    (h : s.inodeLookupAndAlloc currentDir pathname = .ok ((r, some i), s')) : Found s s' i := by
  rw [Vfs.inodeLookupAndAlloc] at h
  split at h
  · cases h
  · rename_i temp s₁ halloc
    obtain ⟨-, rfl⟩ := inodeAllocate_eq_some halloc
    split at h
    · cases h
    · split at h
      · cases h
      · rename_i k hk
        simp only at h
        split at h
        · cases h
        · rename_i result inode hlookup
          have hfill := lookupInode_filledIn hlookup
          have hcount : inode.count = 1 := by
            rw [hfill.count]
            show (Function.update s.inodes temp _ temp).count = 1
            rw [Function.update_self]
          have hother : ∀ j ≠ temp, ((s.setInode temp { s.inodes temp with count := 1 }).setInode
              temp inode).inodes j = s.inodes j := by
            intro j hj
            show Function.update (Function.update s.inodes temp _) temp _ j = _
            rw [Function.update_of_ne hj, Function.update_of_ne hj]
          split at h
          · obtain ⟨⟨r', s₂⟩, -, heq⟩ := map_eq_ok.1 h
            cases heq
          · rename_i hneg
            have hlinks := hfill.hardLinks (Int.not_lt.1 hneg)
            have hself : ((s.setInode temp { s.inodes temp with count := 1 }).setInode temp
                inode).inodes temp = inode := Function.update_self _ _ _
            split at h
            · cases h
              refine ⟨rfl, ?_, fun _ _ => ?_⟩
              · rw [hself, hcount]
              · rw [hself, hlinks]
                exact Int.one_ne_zero
            · rename_i j hexisting
              obtain ⟨⟨r', s₂⟩, hfree, heq⟩ := map_eq_ok.1 h
              cases heq
              have hfs : ((s.setInode temp { s.inodes temp with count := 1 }).setInode temp
                inode).toFileSystems = s.toFileSystems := rfl
              exact found_inodeFree hfs hself hcount hlinks hfill.sb hother hexisting hfree

end Lookup

/-! ## Free slots stay empty -/

section FreeSlots

variable {s s' : Vfs} {i : InodeId} {inode : Inode} {r : Int} {currentDir pathname : CString}

theorem Vfs.FreeSlots.setInode (h : s.FreeSlots) (hi : inode.count = 0 → inode.sb = none) :
    (s.setInode i inode).FreeSlots := by
  intro j hj
  by_cases hij : j = i
  · subst hij
    have hself : (s.setInode j inode).inodes j = inode := Function.update_self _ _ _
    rw [hself] at hj ⊢
    exact hi hj
  · have hother : (s.setInode i inode).inodes j = s.inodes j := Function.update_of_ne hij _ _
    rw [hother] at hj ⊢
    exact h j hj

/-- What the file systems hold does not matter. -/
theorem Vfs.FreeSlots.congr (h : s.FreeSlots) (heq : s'.inodes = s.inodes) : s'.FreeSlots := by
  intro i hi
  rw [heq] at hi ⊢
  exact h i hi

theorem Vfs.FreeSlots.inodeFree (h : s.FreeSlots) (hok : s.inodeFree i = .ok (r, s')) :
    s'.FreeSlots := by
  rcases inodeFree_cases hok with ⟨-, -, rfl⟩ | ⟨h2, -, rfl⟩ | ⟨-, -, -, rfl⟩ |
    ⟨-, -, -, fs, -, rfl⟩
  · exact h
  · refine h.setInode fun h0 => ?_
    have hzero : (s.inodes i).count - 1 = 0 := h0
    omega
  · exact h.setInode fun _ => rfl
  · have hset : (s.setInode i Inode.cleared).FreeSlots := h.setInode fun _ => rfl
    exact hset.congr rfl

theorem Vfs.FreeSlots.inodeLookupAndAlloc (h : s.FreeSlots) {found : Int × Option InodeId}
    (hok : s.inodeLookupAndAlloc currentDir pathname = .ok (found, s')) : s'.FreeSlots := by
  rw [Vfs.inodeLookupAndAlloc] at hok
  split at hok
  · cases hok
    exact h
  · rename_i temp s₁ halloc
    obtain ⟨-, rfl⟩ := inodeAllocate_eq_some halloc
    have h₁ : (s.setInode temp { s.inodes temp with count := 1 }).FreeSlots :=
      h.setInode fun h0 => absurd h0 Nat.one_ne_zero
    split at hok
    · cases hok
    · split at hok
      · cases hok
        exact h₁
      · simp only at hok
        split at hok
        · cases hok
        · rename_i result inode hlookup
          have hcount : inode.count = 1 := by
            rw [(lookupInode_filledIn hlookup).count]
            show (Function.update s.inodes temp _ temp).count = 1
            rw [Function.update_self]
          have h₂ : ((s.setInode temp { s.inodes temp with count := 1 }).setInode temp
              inode).FreeSlots := by
            refine h₁.setInode fun h0 => ?_
            rw [hcount] at h0
            cases h0
          split at hok
          · obtain ⟨⟨r', s₂⟩, hfree, heq⟩ := map_eq_ok.1 hok
            cases heq
            exact h₂.inodeFree hfree
          · split at hok
            · cases hok
              exact h₂
            · obtain ⟨⟨r', s₂⟩, hfree, heq⟩ := map_eq_ok.1 hok
              cases heq
              exact (h₂.setInode fun h0 => absurd h0 (Nat.succ_ne_zero _)).inodeFree hfree

/-- The end of a call: an inode of the table is changed, and given back. -/
theorem Vfs.FreeSlots.putBack (h : s.FreeSlots) (hcount : inode.count = (s.inodes i).count)
    (hsb : inode.sb = (s.inodes i).sb) {fs : FileSystems}
    (hok : Vfs.inodeFree { s.setInode i inode with toFileSystems := fs } i = .ok (r, s')) :
    s'.FreeSlots := by
  have hset : (s.setInode i inode).FreeSlots := by
    refine h.setInode fun h0 => ?_
    rw [hsb]
    exact h i (hcount.symm.trans h0)
  have hfs : Vfs.FreeSlots { s.setInode i inode with toFileSystems := fs } := hset.congr rfl
  exact hfs.inodeFree hok

theorem Vfs.FreeSlots.chmodSyscall (h : s.FreeSlots) {mode : Nat}
    (hok : s.chmodSyscall currentDir pathname mode = .ok (r, s')) : s'.FreeSlots := by
  rw [Vfs.chmodSyscall] at hok
  split at hok
  · cases hok
  · rename_i hlookup
    cases hok
    exact h.inodeLookupAndAlloc hlookup
  · rename_i hlookup
    simp only at hok
    split at hok
    · cases hok
    · obtain ⟨⟨r', s₂⟩, hfree, heq⟩ := map_eq_ok.1 hok
      cases heq
      refine (h.inodeLookupAndAlloc hlookup).putBack ?_ ?_ hfree
      · rfl
      · rfl

end FreeSlots

end Vmwos
