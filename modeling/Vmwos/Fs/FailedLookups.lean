import Vmwos.Fs.Calls
import Vmwos.Fs.Dos33fs.CatalogWalk
import Vmwos.Fs.Dos33fs.WriteThrough
import Vmwos.Fs.PerProcess

/-!
# Lookups that fail

`inode_lookup_and_alloc` takes a slot of the table of the inodes before it looks for the mount, and
without a mount it does not give the slot back. When a component is missing, the slot goes to
`inode_free` with the links that its last use left there: in a slot that was never used there are
none, and the inode that the walk has reached is destroyed. At the root that does nothing, and
below it deletes a file (`lookup_unaffected_iff`).
-/

set_option autoImplicit false

namespace Vmwos

open Library

/-! ## Where a walk stops -/

/-- A component that a walk skips: what stands before its end is that of `..` or `.`. -/
def SkipsName (name : CString) : Prop :=
  strncmp name [0x2e, 0x2e] name.length = 0 ∨ strncmp name [0x2e] name.length = 0

instance (name : CString) : Decidable (SkipsName name) :=
  inferInstanceAs (Decidable (_ ∨ _))

/-- The first component of a path that is looked for in a catalog. -/
def firstName : Nat → CString → Option CString
  | 0, _ => none
  | fuel + 1, path =>
      let (dir, rest) := splitFilename path maxFilenameSize
      if SkipsName dir then rest.bind (firstName fuel) else some dir

/-- The inode number is that of an entry that holds a file. -/
def NamesLive (d : Disk) (number : Nat) : Prop :=
  ∃ c e, Names number c e ∧ e < dos33CatMaxEntries ∧
    entryHidden (d c (catOffset e dos33CatOffsetFirstT)) = false

section Walk

variable {d : Disk} {n n' r : Nat} {name path : CString} {i : Nat}

theorem dos33LookupInodeDir_skips (h : SkipsName name) :
    dos33LookupInodeDir d n name = .ok (some n) := by
  rw [dos33LookupInodeDir]
  rcases h with h | h
  · rw [if_pos h]
  · rw [if_pos h, ite_self]

theorem findInSector_live {b : Block} {fuel : Nat} (h : findInSector b name fuel i = some n) :
    n < i + fuel ∧ entryHidden (b (catOffset n dos33CatOffsetFirstT)) = false := by
  induction fuel generalizing i with
  | zero => cases h
  | succ fuel ih =>
      rw [findInSector] at h
      split at h
      · have hrest := ih h
        exact ⟨by omega, hrest.2⟩
      · rename_i hlive
        split at h
        · cases h
          exact ⟨Nat.lt_add_of_pos_right (Nat.succ_pos fuel), Bool.eq_false_iff.2 hlive⟩
        · have hrest := ih h
          exact ⟨by omega, hrest.2⟩

/-- A name is found in an entry that holds a file, whatever the catalog looks like. -/
theorem findFilenameLoop_live {fuel t s : Nat} (ht : t < 256) (hs : s < 256)
    (h : findFilenameLoop d name fuel t s = .ok (some n)) : NamesLive d n := by
  induction fuel generalizing t s with
  | zero => cases h
  | succ fuel ih =>
      rw [findFilenameLoop, ts_eq, readBlock_mul] at h
      dsimp only at h
      split at h
      · rename_i i hfind
        cases h
        obtain ⟨hi, hlive⟩ := findInSector_live hfind
        have hlt : i < 7 := by
          rw [Nat.zero_add] at hi
          exact hi
        exact ⟨16 * t + s, i, names_inodeNumber ht hs (Nat.lt_trans hlt (by decide)), hlt, hlive⟩
      · split at h
        · cases h
        · exact ih (UInt8.toNat_lt _) (UInt8.toNat_lt _) h

theorem dos33LookupInodeDir_live (hskips : ¬ SkipsName name)
    (h : dos33LookupInodeDir d n name = .ok (some n')) : NamesLive d n' := by
  rw [SkipsName, not_or] at hskips
  rw [dos33LookupInodeDir, if_neg hskips.1, if_neg hskips.2, dos33fsFindFilename,
    if_neg hskips.2, if_neg hskips.1] at h
  exact findFilenameLoop_live (inodeTrack_lt n) (inodeSector_lt n) h

/-- A walk stays where it starts or gets to an entry that holds a file. -/
theorem lookupComponents_reaches {fuel : Nat} {result : Int}
    (h : lookupComponents d fuel n path = .ok (result, n')) : n' = n ∨ NamesLive d n' := by
  induction fuel generalizing n path with
  | zero => cases h
  | succ fuel ih =>
      rw [lookupComponents] at h
      dsimp only at h
      split at h
      · cases h
      · cases h
        exact Or.inl rfl
      · rename_i m hdir
        have hm : m = n ∨ NamesLive d m := by
          by_cases hskips : SkipsName (splitFilename path maxFilenameSize).1
          · rw [dos33LookupInodeDir_skips hskips] at hdir
            cases hdir
            exact Or.inl rfl
          · exact Or.inr (dos33LookupInodeDir_live hskips hdir)
        split at h
        · cases h
          exact hm
        · rcases ih h with rfl | hlive
          · exact hm
          · exact Or.inr hlive

/-- A walk that fails stops where it starts if the first name is missing, and at a file if that
name is there. -/
theorem lookupComponents_stops {fuel : Nat} {result : Int}
    (h : lookupComponents d fuel n path = .ok (result, n')) (hneg : result < 0) :
    (n' = n ∧ ∀ first, firstName fuel path = some first →
        dos33LookupInodeDir d n first = .ok none) ∨
      (NamesLive d n' ∧ ∃ first m, firstName fuel path = some first ∧
        dos33LookupInodeDir d n first = .ok (some m)) := by
  induction fuel generalizing path with
  | zero => cases h
  | succ fuel ih =>
      rw [lookupComponents] at h
      dsimp only at h
      simp only [firstName]
      by_cases hskips : SkipsName (splitFilename path maxFilenameSize).1
      · simp only [dos33LookupInodeDir_skips hskips] at h
        simp only [if_pos hskips]
        cases hrest : (splitFilename path maxFilenameSize).2 with
        | none =>
            rw [hrest] at h
            cases h
            exact absurd hneg (by decide)
        | some rest =>
            rw [hrest] at h
            exact ih h
      · simp only [if_neg hskips]
        split at h
        · cases h
        · rename_i hdir
          cases h
          refine Or.inl ⟨rfl, fun first hfirst => ?_⟩
          rw [← Option.some.inj hfirst]
          exact hdir
        · rename_i m hdir
          have hm := dos33LookupInodeDir_live hskips hdir
          refine Or.inr ⟨?_, _, m, rfl, hdir⟩
          split at h
          · cases h
            exact hm
          · rcases lookupComponents_reaches h with rfl | hlive
            · exact hm
            · exact hlive

/-- A lookup from a root that fails has failed on a component, and has changed the number alone. -/
theorem dos33fsLookupInode_fails {inode inode' : Inode} {result : Int}
    (h : dos33fsLookupInode d inode path = .ok (result, inode')) (hneg : result < 0)
    (hroot : inodeEntry inode.number = 0xff) :
    ∃ n, inode' = { inode with number := n } ∧
      lookupComponents d (path.length + 1) inode.number path = .ok (result, n) := by
  have hread : ∀ inode : Inode, (inodeEntry inode.number = 0xff ∨ NamesLive d inode.number) →
      (dos33ReadInode d inode).1 = 0 := by
    intro inode hinode
    rw [dos33ReadInode]
    dsimp only
    rcases hinode with hroot | ⟨c, e, hn, he, -⟩
    · rw [if_pos (Or.inl hroot)]
    · have he7 : e < 7 := he
      have hspecial : ¬ (e = 0xff ∨ e = 0xfe) := by omega
      rw [hn.entry, if_neg hspecial, if_neg (Nat.not_le_of_lt he)]
  rw [dos33fsLookupInode] at h
  split at h
  · have hzero := hread inode (Or.inl hroot)
    rw [Except.ok.inj h] at hzero
    exact absurd hneg (by rw [show result = 0 from hzero]; decide)
  · split at h
    · cases h
    · rename_i result' n hcomponents
      split at h
      · cases h
        exact ⟨n, rfl, hcomponents⟩
      · -- the number that is read is the root's or that of a file
        have hzero := hread { inode with number := n } (by
          rcases lookupComponents_reaches hcomponents with rfl | hlive
          · exact Or.inl hroot
          · exact Or.inr hlive)
        rw [Except.ok.inj h] at hzero
        exact absurd hneg (by rw [show result = 0 from hzero]; decide)

end Walk

/-! ## What destroying does there -/

section Destroy

variable {v v' : Dos33Volume} {inode inode' : Inode} {r : Int}

theorem dos33fsTruncateInode_same (hsize : inode.size = 0) :
    dos33fsTruncateInode v inode 0 = .ok (0, v, inode) := by
  rw [dos33fsTruncateInode, if_pos hsize.symm]

/-- The root is refused. -/
theorem dos33fsDestroyInode_root (hok : dos33fsDestroyInode v inode = .ok (r, v', inode'))
    (hsize : inode.size = 0) (hroot : inodeEntry inode.number = 0xff) : v' = v := by
  have hneg : ¬ ((0 : Int) < 0) := by decide
  simp only [dos33fsDestroyInode, dos33fsTruncateInode_same hsize, if_neg hneg] at hok
  rw [if_pos (Or.inl hroot)] at hok
  cases hok
  rfl

/-- A file is deleted. -/
theorem dos33fsDestroyInode_live (hok : dos33fsDestroyInode v inode = .ok (r, v', inode'))
    (hsize : inode.size = 0) (hlive : NamesLive v.disk inode.number) : v'.disk ≠ v.disk := by
  obtain ⟨c, e, hn, he, hhidden⟩ := hlive
  have he7 : e < 7 := he
  have hneg : ¬ ((0 : Int) < 0) := by decide
  have hspecial : ¬ (e = 0xff ∨ e = 0xfe) := by omega
  have hrange : ¬ e ≥ dos33CatMaxEntries := Nat.not_le_of_lt he
  simp only [dos33fsDestroyInode, dos33fsTruncateInode_same hsize, if_neg hneg, hn.entry, hn.block,
    if_neg hspecial, if_neg hrange, readBlock_mul, writeBlock_mul] at hok
  cases hok
  intro h
  -- the first byte of the entry says that it is deleted, and said that it is not
  have hbyte : v.disk c (catOffset e dos33CatOffsetFirstT) = 0xff := by
    rw [← congrFun (congrFun h c) (catOffset e dos33CatOffsetFirstT), dos33MarkBlocksFree_disk]
    simp only [Function.update_self]
    exact Function.update_self _ _ _
  rw [hbyte] at hhidden
  cases hhidden

end Destroy

/-! ## The call -/

namespace Vfs

/-- No disk, no free bitmap and no count of an inode is another. -/
structure Unaffected (s s' : Vfs) : Prop where
  disk : s'.disk = s.disk
  vtocList : s'.vtocList = s.vtocList
  counts : ∀ i, (s'.inodes i).count = (s.inodes i).count

/-- A lookup that fails in mount `k` leaves no file behind that it has reached: the mount is
read-only, or the first name of the path is not in the root directory. -/
def StopsAtRoot (s : Vfs) (k : Fin maxMounts) (path : CString) : Prop :=
  match s.driver (some k) with
  | .error _ => False
  | .ok (_, .romfs _) => True
  | .ok (_, .dos33fs block _) => ∀ first, firstName (path.length + 1) path = some first →
      dos33LookupInodeDir (s.disk block) (s.superblockTable k).rootDir first = .ok none

/-- If a slot is free, there is a mount for the path, and the slot was used before or the lookup
reaches no file. -/
def HarmlessLookup (s : Vfs) (d p : CString) : Prop :=
  ∀ temp, s.freeInode = some temp → ∃ k path, s.resolve d p = .ok (some (k, path)) ∧
    ((s.inodes temp).hardLinks ≠ 0 ∨ s.StopsAtRoot k path)

end Vfs

section Call

variable {s s' : Vfs} {d p path : CString} {k : Fin maxMounts} {temp : InodeId} {inode : Inode}
  {block : Fin blockDevMax} {vtoc : Nat} {result : Int} {fs : FileSystems}

theorem FileSystems.putVolume_volume (s : FileSystems) (k : Fin maxMounts)
    (block : Fin blockDevMax) (vtoc : Nat) :
    s.putVolume k block vtoc (s.volume k block vtoc) = s := by
  have hvtoc : (fun i => if i < vtoc then s.vtocList i else s.vtocList (vtoc + (i - vtoc))) =
      s.vtocList := by
    funext i
    split
    · rfl
    · rename_i hlt
      rw [Nat.add_sub_cancel' (Nat.le_of_not_lt hlt)]
  simp only [putVolume, volume, setSuperblock, Function.update_eq_self, hvtoc]

/-- The driver of a mount. -/
theorem FileSystems.driver_dos33fs {s : FileSystems} {k' : Fin maxMounts}
    (h : s.driver (some k) = .ok (k', .dos33fs block vtoc)) :
    k' = k ∧ (s.superblockTable k).sbOps = some .dos33fs := by
  simp only [driver] at h
  split at h
  · cases h
  · rename_i hops _ _
    cases h
    exact ⟨rfl, hops⟩
  · cases h

theorem FileSystems.destroyInode_dos33fs {s : FileSystems}
    (hdriver : s.driver inode.sb = .ok (k, .dos33fs block vtoc)) :
    s.destroyInode inode = (dos33fsDestroyInode (s.volume k block vtoc) inode).map fun r =>
      s.putVolume k block vtoc r.2.1 := by
  simp only [destroyInode, hdriver]
  cases dos33fsDestroyInode (s.volume k block vtoc) inode with
  | error e => rfl
  | ok r => rfl

theorem romfsReadInodeLoop_ok {image : Romfs.Image} {fuel : Nat} {inode inode' : Inode} {r : Int}
    (h : Romfs.readInodeLoop image fuel inode = .ok (r, inode')) : r = 0 := by
  induction fuel generalizing inode with
  | zero => cases h
  | succ fuel ih =>
      rw [Romfs.readInodeLoop] at h
      split at h
      · exact ih h
      · cases h
        rfl

theorem dos33ReadInode_hardLinks {d : Disk} {inode inode' : Inode} {r : Int}
    (h : dos33ReadInode d inode = (r, inode')) (hneg : r < 0) :
    inode'.hardLinks = inode.hardLinks := by
  rw [dos33ReadInode] at h
  dsimp only at h
  split at h
  · cases h
    cases hneg
  · split at h
    · cases h
      rfl
    · cases h
      cases hneg

/-- Where a file is missing, the links of the slot are left as they are. -/
theorem lookupInode_hardLinks {s : FileSystems} {inode inode' : Inode} {path : CString} {r : Int}
    (h : s.lookupInode inode path = .ok (r, inode')) (hneg : r < 0) :
    inode'.hardLinks = inode.hardLinks := by
  have hzero : ∀ {r : Int}, r = 0 → ¬ r < 0 := fun h => h ▸ Int.lt_irrefl 0
  rw [FileSystems.lookupInode] at h
  split at h
  · cases h
  · rw [Romfs.lookupInode] at h
    split at h
    · exact absurd hneg (hzero (romfsReadInodeLoop_ok h))
    · split at h
      · cases h
      · split at h
        · cases h
          rfl
        · exact absurd hneg (hzero (romfsReadInodeLoop_ok h))
  · rw [dos33fsLookupInode] at h
    split at h
    · exact dos33ReadInode_hardLinks (Except.ok.inj h) hneg
    · split at h
      · cases h
      · split at h
        · cases h
          rfl
        · have hlinks := dos33ReadInode_hardLinks (Except.ok.inj h) hneg
          exact hlinks

/-- What is destroyed where a lookup has failed, from a root and without a size: nothing if the
lookup has not left the root, and a file if it has. -/
theorem destroyInode_cases {start : Inode}
    (hlookup : s.lookupInode start path = .ok (result, inode)) (hneg : result < 0)
    (hslots : s.SlotsInv) (hsb : start.sb = some k)
    (hnumber : start.number = (s.superblockTable k).rootDir)
    (hsize : start.hardLinks = 0 → start.size = 0)
    (hlinks : inode.hardLinks = 0) (hdestroy : s.destroyInode { inode with count := 0 } = .ok fs) :
    (s.StopsAtRoot k path ∧ fs = s.toFileSystems) ∨
      (¬ s.StopsAtRoot k path ∧ fs.disk ≠ s.disk) := by
  have hsb' : inode.sb = some k := (lookupInode_filledIn hlookup).sb.trans hsb
  rw [FileSystems.lookupInode, hsb] at hlookup
  rw [Vfs.StopsAtRoot]
  cases hdriver : s.driver (some k) with
  | error e =>
      rw [hdriver] at hlookup
      cases hlookup
  | ok q =>
      obtain ⟨k', driver⟩ := q
      cases driver with
      | romfs block =>
          rw [FileSystems.destroyInode, hsb', hdriver] at hdestroy
          cases hdestroy
          exact Or.inl ⟨trivial, rfl⟩
      | dos33fs block vtoc =>
          obtain ⟨rfl, hops⟩ := FileSystems.driver_dos33fs hdriver
          rw [hdriver] at hlookup
          rw [FileSystems.destroyInode_dos33fs (by rw [hsb', hdriver])] at hdestroy
          have hroot : inodeEntry start.number = 0xff := by
            rw [hnumber]
            exact hslots.roots k' hops
          obtain ⟨n, rfl, hcomponents⟩ := dos33fsLookupInode_fails hlookup hneg hroot
          obtain ⟨⟨r, v', inode'⟩, hok, rfl⟩ := map_eq_ok.1 hdestroy
          rw [← hnumber]
          rcases lookupComponents_stops hcomponents hneg with ⟨rfl, hmissing⟩ |
            ⟨hlive, first, m, hfirst, hfound⟩
          · refine Or.inl ⟨hmissing, ?_⟩
            rw [dos33fsDestroyInode_root hok (hsize hlinks) hroot, FileSystems.putVolume_volume]
          · refine Or.inr ⟨fun hmissing => ?_, fun hdisk => ?_⟩
            · rw [hmissing first hfirst] at hfound
              cases hfound
            · refine dos33fsDestroyInode_live hok (hsize hlinks) hlive ?_
              have hblock : Function.update s.disk block v'.disk block = s.disk block :=
                congrFun hdisk block
              rwa [Function.update_self] at hblock

/-- What a lookup that fails leaves: the slot taken where no mount has the path; else the slot
cleared, and with it a file destroyed unless the lookup is harmless. -/
theorem lookup_fails {r : Int} (hslots : s.SlotsInv)
    (hlookup : s.inodeLookupAndAlloc d p = .ok ((r, none), s')) :
    (s.freeInode = none ∧ s' = s) ∨ ∃ temp, s.freeInode = some temp ∧
      ((s.resolve d p = .ok none ∧ s' = s.setInode temp { s.inodes temp with count := 1 }) ∨
        (s.HarmlessLookup d p ∧ s' = s.setInode temp Inode.cleared) ∨
        (¬ s.HarmlessLookup d p ∧ (s.inodes temp).hardLinks = 0 ∧
          ∃ fs : FileSystems, fs.disk ≠ s.disk ∧
            s' = { s.setInode temp Inode.cleared with toFileSystems := fs })) := by
  cases lookedUp hlookup with
  | full hfree => exact Or.inl ⟨hfree, rfl⟩
  | noMount hfree hresolve => exact Or.inr ⟨_, hfree, Or.inl ⟨hresolve, rfl⟩⟩
  | missing hfree hresolve hfound hneg hlinks =>
      -- the lookup has not touched the links of the slot
      refine Or.inr ⟨_, hfree, Or.inr (Or.inl ⟨fun temp' htemp => ?_, rfl⟩)⟩
      rw [hfree] at htemp
      cases htemp
      refine ⟨_, _, hresolve, Or.inl ?_⟩
      rwa [lookupInode_hardLinks hfound hneg] at hlinks
  | destroyed hfree hresolve hfound hneg hlinks hdestroy =>
      rename_i temp k path inode result fs
      have hslot : (s.inodes temp).hardLinks = 0 := by
        rwa [lookupInode_hardLinks hfound hneg] at hlinks
      have hsize := (hslots.slots temp (count_of_freeInode hfree)).2
      refine Or.inr ⟨_, hfree, Or.inr ?_⟩
      rcases destroyInode_cases hfound hneg hslots rfl rfl hsize hlinks hdestroy with
        ⟨hstops, rfl⟩ | ⟨hstops, hdisk⟩
      · refine Or.inl ⟨fun temp' htemp => ?_, rfl⟩
        rw [hfree] at htemp
        cases htemp
        exact ⟨k, path, hresolve, Or.inr hstops⟩
      · refine Or.inr ⟨fun h => ?_, hslot, fs, hdisk, rfl⟩
        obtain ⟨k', path', hresolve', hor⟩ := h temp hfree
        rw [hresolve] at hresolve'
        cases hresolve'
        exact hstops (hor.resolve_left (not_not.2 hslot))

theorem unaffected_cleared (hfree : s.freeInode = some temp) :
    s.Unaffected (s.setInode temp Inode.cleared) := by
  refine ⟨rfl, rfl, fun i => ?_⟩
  by_cases hi : i = temp
  · subst hi
    rw [setInode_self, count_of_freeInode hfree]
    rfl
  · rw [setInode_of_ne s _ hi]

/-- A lookup that fails affects nothing exactly if it is harmless. -/
theorem lookup_unaffected_iff {r : Int} (hslots : s.SlotsInv)
    (hlookup : s.inodeLookupAndAlloc d p = .ok ((r, none), s')) :
    s.Unaffected s' ↔ s.HarmlessLookup d p := by
  rcases lookup_fails hslots hlookup with ⟨hfree, rfl⟩ | ⟨temp, hfree, hcases⟩
  · refine iff_of_true ⟨rfl, rfl, fun _ => rfl⟩ fun temp htemp => ?_
    rw [hfree] at htemp
    cases htemp
  · rcases hcases with ⟨hresolve, rfl⟩ | ⟨hharmless, rfl⟩ | ⟨hharmful, -, fs, hdisk, rfl⟩
    · refine iff_of_false (fun h => ?_) fun h => ?_
      · have hcount := h.counts temp
        rw [setInode_self, count_of_freeInode hfree] at hcount
        cases hcount
      · obtain ⟨k, path, hresolve', -⟩ := h temp hfree
        rw [hresolve] at hresolve'
        cases hresolve'
    · exact iff_of_true (unaffected_cleared hfree) hharmless
    · exact iff_of_false (fun h => hdisk h.disk) hharmful

end Call

/-! ## In every run -/

namespace FileUse

variable {δ : Type} {dev : Devices δ} {s s₀ : FileUse δ} {s' : Vfs} {d p : CString}

/-- Whatever calls came before, a lookup that fails leaves the disks, the free bitmaps and the
counts of the inodes as they are exactly if it is harmless. -/
theorem run_lookup_unaffected_iff {stack text : Nat} {image : Image}
    {blockDevs : Fin blockDevMax → BlockDev} {disk : Nat → Disk} {chars : δ} {ops : List FsOp}
    {replies : List IoReply} {r : Int}
    (hstart : start stack text image (FileSystems.boot blockDevs disk) chars = .ok s₀)
    (hrun : run (fsStep dev) s₀ ops = .ok (replies, s))
    (hlookup : s.openFiles.inodeLookupAndAlloc d p = .ok ((r, none), s')) :
    s.openFiles.Unaffected s' ↔ s.openFiles.HarmlessLookup d p :=
  lookup_unaffected_iff (slotsInv_run hstart hrun) hlookup

/-- A volume whose one file is `A`. -/
def oneFileDisk : Disk := fun n i =>
  if n = 272 then
    if i = dos33VtocFirstCatTrack then 17 else if i = dos33VtocFirstCatSector then 15 else 0
  else oneNameDisk [0x41] n i

/-- The volume on the only device. -/
def oneFileSystems : FileSystems := FileSystems.boot (fun _ => ⟨[0x64], true⟩) fun _ => oneFileDisk

/-- Mounting it at the root. -/
def mountOneFile : FsOp := .mount ⟨[0x64], [0x2f], dos33fsName⟩

/-- The name `B` is not in the root directory, and looking it up there affects nothing. -/
theorem run_lookup_unaffected_missing : ∃ s₀ replies s s',
    start 0 0 noImage oneFileSystems () = .ok s₀ ∧
      run (fsStep noDevices) s₀ [mountOneFile] = .ok (replies, s) ∧
      s.openFiles.inodeLookupAndAlloc [0x2f] [0x2f, 0x42] = .ok ((-enoent, none), s') ∧
      (s.openFiles.Unaffected s' ↔ s.openFiles.HarmlessLookup [0x2f] [0x2f, 0x42]) := by
  have h : (match start 0 0 noImage oneFileSystems () with
      | .error _ => false
      | .ok s₀ => match run (fsStep noDevices) s₀ [mountOneFile] with
        | .error _ => false
        | .ok (_, s) => match s.openFiles.inodeLookupAndAlloc [0x2f] [0x2f, 0x42] with
          | .error _ => false
          | .ok (found, _) => decide (found = (-enoent, none))) = true := by decide
  split at h
  · cases h
  · rename_i s₀ hstart
    split at h
    · cases h
    · rename_i replies s hrun
      split at h
      · cases h
      · rename_i found s' hlookup
        cases of_decide_eq_true h
        exact ⟨s₀, replies, s, s', hstart, hrun, hlookup,
          run_lookup_unaffected_iff hstart hrun hlookup⟩

/-- Looking `/A/B` up on the same volume deletes `A`. -/
theorem not_run_lookup_unaffected : ∃ s₀ replies s s',
    start 0 0 noImage oneFileSystems () = .ok s₀ ∧
      run (fsStep noDevices) s₀ [mountOneFile] = .ok (replies, s) ∧
      s.openFiles.inodeLookupAndAlloc [0x2f] [0x2f, 0x41, 0x2f, 0x42] =
        .ok ((-enoent, none), s') ∧
      ¬ s.openFiles.Unaffected s' := by
  have h : (match start 0 0 noImage oneFileSystems () with
      | .error _ => false
      | .ok s₀ => match run (fsStep noDevices) s₀ [mountOneFile] with
        | .error _ => false
        | .ok (_, s) =>
            match s.openFiles.inodeLookupAndAlloc [0x2f] [0x2f, 0x41, 0x2f, 0x42] with
            | .error _ => false
            | .ok (found, s') => decide (found = (-enoent, none) ∧
                s'.disk 0 287 (catOffset 0 dos33CatOffsetFirstT) ≠
                  s.openFiles.disk 0 287 (catOffset 0 dos33CatOffsetFirstT))) = true := by
    decide
  split at h
  · cases h
  · rename_i s₀ hstart
    split at h
    · cases h
    · rename_i replies s hrun
      split at h
      · cases h
      · rename_i found s' hlookup
        obtain ⟨rfl, hbyte⟩ := of_decide_eq_true h
        refine ⟨s₀, replies, s, s', hstart, hrun, hlookup, fun hunaffected => hbyte ?_⟩
        rw [hunaffected.disk]

end FileUse

end Vmwos
