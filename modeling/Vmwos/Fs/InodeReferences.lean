import Vmwos.Fs.Lookups
import Vmwos.Fs.Open
import Vmwos.Fs.Dos33fs.Operations

/-!
# References to inodes

What the calls that get hold of an inode do to the counts of the table: a lookup that succeeds, and
`create_file_object`, give one reference to the inode they return (`TakesRef`); a lookup that fails
gives none, unless no mount has the path. In between, a slot in use keeps its superblock and its
number.
-/

set_option autoImplicit false

namespace Vmwos

open Library

/-! ## What the file systems keep -/

section Kept

variable {s fs : FileSystems} {inode inode' : Inode} {size : Nat} {result : Int}

/-- The mounts are the same, up to the numbers of their blocks. -/
def SameMounts (s s' : FileSystems) : Prop :=
  ∀ k, ∃ blocks blocksFree, s'.superblockTable k =
    { s.superblockTable k with blocks := blocks, blocksFree := blocksFree }

theorem SameMounts.refl (s : FileSystems) : SameMounts s s := fun _ => ⟨_, _, rfl⟩

theorem SameMounts.trans {s₁ s₂ s₃ : FileSystems} (h : SameMounts s₁ s₂) (h' : SameMounts s₂ s₃) :
    SameMounts s₁ s₃ := by
  intro k
  obtain ⟨blocks, blocksFree, hk⟩ := h k
  obtain ⟨blocks', blocksFree', hk'⟩ := h' k
  refine ⟨blocks', blocksFree', ?_⟩
  rw [hk', hk]

theorem putVolume_sameMounts (s : FileSystems) (k : Fin maxMounts) (block : Fin blockDevMax)
    (vtoc : Nat) (v : Dos33Volume) : SameMounts s (s.putVolume k block vtoc v) := by
  intro j
  simp only [FileSystems.putVolume, FileSystems.setSuperblock]
  by_cases hj : j = k
  · subst hj
    exact ⟨v.blocks, v.blocksFree, Function.update_self _ _ _⟩
  · exact ⟨_, _, Function.update_of_ne hj _ _⟩

theorem writeInode_sameMounts (h : s.writeInode inode = .ok fs) : SameMounts s fs := by
  rw [FileSystems.writeInode] at h
  split at h
  · cases h
  · cases h
    exact SameMounts.refl s
  · cases h
    exact SameMounts.refl s

theorem destroyInode_sameMounts (h : s.destroyInode inode = .ok fs) : SameMounts s fs := by
  rw [FileSystems.destroyInode] at h
  split at h
  · cases h
  · cases h
    exact SameMounts.refl s
  · split at h
    · cases h
    · cases h
      apply putVolume_sameMounts

theorem unlinkInode_sameMounts (h : s.unlinkInode inode = .ok (result, fs)) : SameMounts s fs := by
  rw [FileSystems.unlinkInode] at h
  split at h
  · cases h
  · cases h
    exact SameMounts.refl s
  · cases h
    apply putVolume_sameMounts

theorem truncateInode_sameMounts (h : s.truncateInode inode size = .ok (result, inode', fs)) :
    SameMounts s fs := by
  rw [FileSystems.truncateInode] at h
  split at h
  · cases h
  · cases h
    exact SameMounts.refl s
  · split at h
    · cases h
    · cases h
      apply putVolume_sameMounts

theorem makeInode_sameMounts {dirInode : Inode}
    (h : s.makeInode dirInode inode = .ok (result, inode', fs)) : SameMounts s fs := by
  rw [FileSystems.makeInode] at h
  split at h
  · cases h
  · cases h
    exact SameMounts.refl s
  · split at h
    · cases h
    · cases h
      apply putVolume_sameMounts

theorem linkInode_sameMounts {sb : Option (Fin maxMounts)} {name : CString}
    (h : s.linkInode sb inode name = .ok (result, inode', fs)) : SameMounts s fs := by
  rw [FileSystems.linkInode] at h
  split at h
  · cases h
  · cases h
    exact SameMounts.refl s
  · cases h
    apply putVolume_sameMounts

/-- The mount points are the same. -/
def SameMountpoints (s s' : FileSystems) : Prop :=
  ∀ k, (s'.superblockTable k).mountpoint = (s.superblockTable k).mountpoint

theorem SameMountpoints.refl (s : FileSystems) : SameMountpoints s s := fun _ => rfl

theorem SameMountpoints.trans {s₁ s₂ s₃ : FileSystems} (h : SameMountpoints s₁ s₂)
    (h' : SameMountpoints s₂ s₃) : SameMountpoints s₁ s₃ := fun k => (h' k).trans (h k)

theorem SameMounts.mountpoints {s s' : FileSystems} (h : SameMounts s s') :
    SameMountpoints s s' := by
  intro k
  obtain ⟨blocks, blocksFree, hk⟩ := h k
  rw [hk]

/-- Which file an inode in use stands for, and its count. -/
def Inode.SameFile (inode inode' : Inode) : Prop :=
  inode'.sb = inode.sb ∧ inode'.number = inode.number ∧ inode'.count = inode.count

theorem dos33fsGrowFile_sameFile {v v' : Dos33Volume}
    (h : dos33fsGrowFile v inode size = .ok (result, v', inode')) : inode.SameFile inode' := by
  obtain ⟨current, hcurrent⟩ : ∃ i, endIndex v inode inode.size = i := ⟨_, rfl⟩
  obtain ⟨last, hlast⟩ : ∃ i, endIndex v inode size = i := ⟨_, rfl⟩
  rw [dos33fsGrowFile_eq v inode size hcurrent hlast] at h
  split at h
  · cases h
    exact ⟨rfl, rfl, rfl⟩
  · split at h
    · cases h
      exact ⟨rfl, rfl, rfl⟩
    · split at h
      · cases h
      · cases h
        exact ⟨rfl, rfl, rfl⟩

theorem dos33fsShrinkFile_sameFile {v v' : Dos33Volume}
    (h : dos33fsShrinkFile v inode size = .ok (result, v', inode')) : inode.SameFile inode' := by
  rw [dos33fsShrinkFile] at h
  generalize loadCatalogEntry v.disk inode.number = c at h
  generalize headerLength c.type = header at h
  simp only at h
  obtain ⟨last, hlast⟩ : ∃ i, int32 ((uint64 (inode.size + header) / dos33BlockSize : Nat) : Int) = i :=
    ⟨_, rfl⟩
  rw [hlast] at h
  generalize uint32 (size + header) = x at h
  split at h
  · cases h
    exact ⟨rfl, rfl, rfl⟩
  · split at h
    · cases h
    · split at h
      · cases h
        exact ⟨rfl, rfl, rfl⟩
      · cases h
        exact ⟨rfl, rfl, rfl⟩

/-- Truncating an inode changes its size only. -/
theorem truncateInode_sameFile (h : s.truncateInode inode size = .ok (result, inode', fs)) :
    inode.SameFile inode' := by
  rw [FileSystems.truncateInode] at h
  split at h
  · cases h
  · cases h
    exact ⟨rfl, rfl, rfl⟩
  · split at h
    · cases h
    · rename_i hok
      cases h
      rw [dos33fsTruncateInode] at hok
      split at hok
      · cases hok
        exact ⟨rfl, rfl, rfl⟩
      · split at hok
        · exact dos33fsShrinkFile_sameFile hok
        · exact dos33fsGrowFile_sameFile hok

theorem dos33ReadInode_count (d : Disk) (inode : Inode) :
    (dos33ReadInode d inode).2.count = inode.count :=
  (dos33ReadInode_filledIn d inode).count

theorem makeInode_count {dirInode : Inode}
    (h : s.makeInode dirInode inode = .ok (result, inode', fs)) : inode'.count = inode.count := by
  rw [FileSystems.makeInode] at h
  split at h
  · cases h
  · cases h
    rfl
  · split at h
    · cases h
    · rename_i hok
      cases h
      simp only [dos33fsMakeInode] at hok
      split at hok
      · cases hok
      · cases hok
        rfl
      · split at hok
        · cases hok
        · split at hok
          · cases hok
          · cases hok
            rw [dos33ReadInode_count]

theorem dos33fsLinkInode_count (v : Dos33Volume) (inode : Inode) (name : CString) :
    (dos33fsLinkInode v inode name).2.2.count = inode.count := by
  rw [dos33fsLinkInode]
  split
  · rfl
  · rfl

theorem linkInode_count {sb : Option (Fin maxMounts)} {name : CString}
    (h : s.linkInode sb inode name = .ok (result, inode', fs)) : inode'.count = inode.count := by
  rw [FileSystems.linkInode] at h
  split at h
  · cases h
  · cases h
    rfl
  · cases h
    apply dos33fsLinkInode_count

end Kept

/-! ## Taking and giving references -/

/-- One reference is given to the inode in slot `i`, and no inode in use is exchanged. -/
structure Vfs.TakesRef (s s' : Vfs) (i : InodeId) : Prop where
  count : ∀ j, (s'.inodes j).count = (s.inodes j).count + if j = i then 1 else 0
  file : ∀ j, (s.inodes j).count ≠ 0 → (s'.inodes j).sb = (s.inodes j).sb ∧
    (s'.inodes j).number = (s.inodes j).number
  mountpoints : SameMountpoints s.toFileSystems s'.toFileSystems

/-- No references are given, and no inode in use is exchanged. -/
structure Vfs.KeepsRefs (s s' : Vfs) : Prop where
  count : ∀ j, (s'.inodes j).count = (s.inodes j).count
  file : ∀ j, (s.inodes j).count ≠ 0 → (s'.inodes j).sb = (s.inodes j).sb ∧
    (s'.inodes j).number = (s.inodes j).number
  mountpoints : SameMountpoints s.toFileSystems s'.toFileSystems

section Refs

variable {s s₁ s' : Vfs} {d p : CString} {i j : InodeId} {r : Int}

theorem Vfs.KeepsRefs.takesRef (h : s.KeepsRefs s₁) (h' : s₁.TakesRef s' i) : s.TakesRef s' i where
  count j := by rw [h'.count, h.count]
  file j hj := by
    have hj₁ : (s₁.inodes j).count ≠ 0 := by
      rw [h.count]
      exact hj
    exact ⟨(h'.file j hj₁).1.trans (h.file j hj).1, (h'.file j hj₁).2.trans (h.file j hj).2⟩
  mountpoints := h.mountpoints.trans h'.mountpoints

/-- Changing a slot that is not in use and leaving it so. -/
theorem keepsRefs_setInode {inode : Inode} (hcount : (s.inodes i).count = 0)
    (hinode : inode.count = 0) : s.KeepsRefs (s.setInode i inode) where
  count j := by
    by_cases hj : j = i
    · subst hj
      rw [setInode_self, hcount, hinode]
    · rw [setInode_of_ne s inode hj]
  file j hj := by
    have hji : j ≠ i := by
      rintro rfl
      exact hj hcount
    rw [setInode_of_ne s inode hji]
    exact ⟨rfl, rfl⟩
  mountpoints := SameMountpoints.refl _

/-- Taking a slot that is not in use. -/
theorem takesRef_setInode {inode : Inode} (hcount : (s.inodes i).count = 0)
    (hinode : inode.count = 1) : s.TakesRef (s.setInode i inode) i where
  count j := by
    by_cases hj : j = i
    · subst hj
      rw [setInode_self, hcount, hinode, if_pos rfl]
    · rw [setInode_of_ne s inode hj, if_neg hj, Nat.add_zero]
  file j hj := by
    have hji : j ≠ i := by
      rintro rfl
      exact hj hcount
    rw [setInode_of_ne s inode hji]
    exact ⟨rfl, rfl⟩
  mountpoints := SameMountpoints.refl _

/-- Counting a slot once more. -/
theorem takesRef_increment (s : Vfs) (i : InodeId) :
    s.TakesRef (s.setInode i { s.inodes i with count := (s.inodes i).count + 1 }) i where
  count j := by
    by_cases hj : j = i
    · subst hj
      rw [setInode_self, if_pos rfl]
    · rw [setInode_of_ne s _ hj, if_neg hj, Nat.add_zero]
  file j _ := by
    by_cases hj : j = i
    · subst hj
      rw [setInode_self]
      exact ⟨rfl, rfl⟩
    · rw [setInode_of_ne s _ hj]
      exact ⟨rfl, rfl⟩
  mountpoints := SameMountpoints.refl _

/-- What the file systems hold does not matter, up to the mount points. -/
theorem Vfs.KeepsRefs.withFileSystems (h : s.KeepsRefs s') {fs : FileSystems}
    (hfs : SameMountpoints s.toFileSystems fs) : s.KeepsRefs { s' with toFileSystems := fs } :=
  ⟨h.count, h.file, hfs⟩

/-- A lookup that succeeds gives one reference. -/
theorem takesRef_lookup (h : s.inodeLookupAndAlloc d p = .ok ((r, some i), s')) :
    s.TakesRef s' i := by
  cases lookedUp h with
  | fresh hfree hresolve hlookup hpos hexisting =>
      exact takesRef_setInode (count_of_freeInode hfree) (temporary_filledIn hlookup).1
  | shared hfree hresolve hlookup hpos hexisting hi =>
      rename_i temp k path inode
      have htemp := count_of_freeInode hfree
      -- the temporary inode is cleared in a slot that was free before
      have hcleared : s.KeepsRefs (s.setInode temp Inode.cleared) := keepsRefs_setInode htemp rfl
      have hinc := takesRef_increment (s.setInode temp Inode.cleared) i
      rw [setInode_of_ne s _ hi] at hinc
      rw [setInode_comm _ _ _ hi]
      exact hcleared.takesRef hinc

/-- A lookup that fails gives none, as long as there is a mount for the path. -/
theorem keepsRefs_lookup (h : s.inodeLookupAndAlloc d p = .ok ((r, none), s'))
    (hmount : s.resolve d p ≠ .ok none) : s.KeepsRefs s' := by
  cases lookedUp h with
  | full hfree => exact ⟨fun _ => rfl, fun _ _ => ⟨rfl, rfl⟩, SameMountpoints.refl _⟩
  | noMount hfree hresolve => exact absurd hresolve hmount
  | missing hfree hresolve hlookup hneg hlinks =>
      exact keepsRefs_setInode (count_of_freeInode hfree) rfl
  | destroyed hfree hresolve hlookup hneg hlinks hdestroy =>
      have hcleared := @keepsRefs_setInode _ _ Inode.cleared (count_of_freeInode hfree) rfl
      exact hcleared.withFileSystems (destroyInode_sameMounts hdestroy).mountpoints

/-- Giving back a reference that has been taken. -/
theorem inodeFree_takesRef (h : s.inodeFree i = .ok (r, s')) (hi : (s.inodes i).count ≠ 0) :
    (∀ j, (s'.inodes j).count + (if j = i then 1 else 0) = (s.inodes j).count) ∧
      (∀ j, (s'.inodes j).count ≠ 0 → (s'.inodes j).sb = (s.inodes j).sb ∧
        (s'.inodes j).number = (s.inodes j).number) ∧
      SameMountpoints s.toFileSystems s'.toFileSystems := by
  -- in all cases slot `i` alone is changed
  have hset : ∀ {inode : Inode} {fs : FileSystems}, inode.count + 1 = (s.inodes i).count →
      (inode.count ≠ 0 → inode.sb = (s.inodes i).sb ∧ inode.number = (s.inodes i).number) →
      SameMountpoints s.toFileSystems fs → s' = s.putInode i inode fs →
      (∀ j, (s'.inodes j).count + (if j = i then 1 else 0) = (s.inodes j).count) ∧
      (∀ j, (s'.inodes j).count ≠ 0 → (s'.inodes j).sb = (s.inodes j).sb ∧
        (s'.inodes j).number = (s.inodes j).number) ∧
      SameMountpoints s.toFileSystems s'.toFileSystems := by
    rintro inode fs hcount hsame hfs rfl
    refine ⟨fun j => ?_, fun j hj => ?_, hfs⟩
    · show ((s.setInode i inode).inodes j).count + _ = _
      by_cases hji : j = i
      · subst hji
        rw [setInode_self, if_pos rfl, hcount]
      · rw [setInode_of_ne s inode hji, if_neg hji, Nat.add_zero]
    · have hslot : ((s.setInode i inode).inodes j).count ≠ 0 := hj
      show ((s.setInode i inode).inodes j).sb = _ ∧ ((s.setInode i inode).inodes j).number = _
      by_cases hji : j = i
      · subst hji
        rw [setInode_self] at hslot ⊢
        exact hsame hslot
      · rw [setInode_of_ne s inode hji]
        exact ⟨rfl, rfl⟩
  rcases inodeFree_cases h with ⟨h0, -⟩ | ⟨h2, -, rfl⟩ | ⟨h1, -, -, rfl⟩ | ⟨h1, -, -, fs, hfs, rfl⟩
  · exact absurd h0 hi
  · exact @hset { s.inodes i with count := (s.inodes i).count - 1 } s.toFileSystems
      (Nat.sub_add_cancel (Nat.le_of_succ_le h2)) (fun _ => ⟨rfl, rfl⟩) (SameMountpoints.refl _) rfl
  · exact hset h1.symm (fun h0 => absurd rfl h0) (SameMountpoints.refl _) rfl
  · exact hset h1.symm (fun h0 => absurd rfl h0) (destroyInode_sameMounts hfs).mountpoints rfl

end Refs

/-! ## The mount of a path and the mount of its directory -/

section Paths

variable {table : SuperblockTable} {mountpoint dir full d p : CString}

/-- A mount point is compared as a whole, so a path that has it begins with it. -/
theorem strncmp_mountpoint_eq_zero_iff (hnul : 0 ∉ mountpoint) :
    strncmp mountpoint full mountpoint.length = 0 ↔ mountpoint <+: full := by
  induction mountpoint generalizing full with
  | nil => simp [strncmp]
  | cons a mountpoint ih =>
      have ha : a ≠ 0 := fun h => hnul (by simp [h])
      have hrest : 0 ∉ mountpoint := fun h => hnul (List.mem_cons_of_mem a h)
      cases full with
      | nil =>
          have ha' : a.toNat ≠ 0 := fun h => ha (UInt8.toNat_inj.1 h)
          simp [strncmp, ha']
      | cons b full =>
          by_cases hab : a = b
          · subst hab
            simp [strncmp, ha, ih hrest]
          · have hne : (a.toNat : Int) - b.toNat ≠ 0 := by
              intro h
              apply hab
              exact UInt8.toNat_inj.1 (Int.ofNat_inj.1 (Int.sub_eq_zero.1 h))
            simp [strncmp, hab, hne]

/-- No mount has the beginning of a path that no mount has. -/
theorem superblockLookup_of_prefix (hnul : ∀ k, 0 ∉ (table k).mountpoint) (hdir : dir <+: full)
    (h : superblockLookup table full = none) : superblockLookup table dir = none := by
  rw [superblockLookup] at h ⊢
  split at h
  · cases h
  · rename_i hother
    have hnone : (List.finRange maxMounts).find? (fun i =>
        i ≠ (rootSlot table).getD 0 ∧ (table i).valid ∧
          strncmp (table i).mountpoint dir (table i).mountpoint.length = 0) = none := by
      apply List.find?_eq_none.2
      intro i hi hmatch
      apply List.find?_eq_none.1 hother i hi
      simp only [decide_eq_true_eq] at hmatch ⊢
      refine ⟨hmatch.1, hmatch.2.1, ?_⟩
      rw [strncmp_mountpoint_eq_zero_iff (hnul i)] at hmatch ⊢
      exact hmatch.2.2.trans hdir
    rw [hnone]
    exact h

/-- The directory that `split_pathname` leaves is the beginning of the path. -/
theorem splitPathname_initial (full : CString) : (splitPathname full).1 <+: full := by
  have hloop : ∀ ptr, (splitPathnameLoop full ptr).1 <+: full := by
    intro ptr
    induction ptr with
    | zero => exact List.prefix_refl full
    | succ ptr ih =>
        rw [splitPathnameLoop]
        split
        · exact List.take_prefix _ _
        · exact ih
  exact hloop full.length

/-- An absolute path stays absolute. -/
theorem splitPathname_head (full : CString) : (splitPathname full).1.head? = full.head? := by
  have hloop : ∀ ptr, (splitPathnameLoop full ptr).1.head? = full.head? := by
    intro ptr
    induction ptr with
    | zero => rfl
    | succ ptr ih =>
        rw [splitPathnameLoop]
        split
        · cases full with
          | nil => rfl
          | cons a rest => rfl
        · exact ih
  exact hloop full.length

/-- A current directory as a process can have it: the one it starts with, or an absolute path. -/
def StartsAtRoot (d : CString) : Prop := d = [] ∨ d.head? = some 0x2f

/-- What `create_file_object` splits is what the lookup before it has looked up. -/
theorem createPath_eq_ok (hd : StartsAtRoot d) (h : createPath d p = .ok full) :
    Vfs.expandPath d p = .ok full ∧
      Vfs.expandPath d (splitPathname full).1 = .ok (splitPathname full).1 := by
  rw [createPath] at h
  split at h
  · cases h
  · rename_i hrelative
    split at h
    · cases h
    · rename_i hlength
      cases h
      have hshort : (d ++ 0x2f :: p).length < 256 := Nat.not_le.1 hlength
      have hdir : d.length < maxPathLen := by
        have hle : d.length ≤ (d ++ 0x2f :: p).length := by simp
        exact Nat.lt_of_le_of_lt hle (Nat.lt_trans hshort (by decide))
      have hhead : (d ++ 0x2f :: p).head? = some 0x2f := by
        rcases hd with rfl | hd
        · rfl
        · cases d with
          | nil => cases hd
          | cons a d => exact hd
      constructor
      · rw [expandPath_relative hrelative hdir, List.take_of_length_le]
        exact Nat.le_of_lt (Nat.lt_trans hshort (by decide))
      · have hle := (splitPathname_initial (d ++ 0x2f :: p)).length_le
        have hnot : ¬ (splitPathname (d ++ 0x2f :: p)).1.length ≥ maxPathLen :=
          Nat.not_le.2 (Nat.lt_of_le_of_lt hle (Nat.lt_trans hshort (by decide)))
        rw [Vfs.expandPath, if_pos ((splitPathname_head _).trans hhead), if_neg hnot]

/-- A file is created only where there is a mount for its path. -/
theorem resolve_ne_none_of_create {s s' : Vfs} {r : Int} {i : InodeId} (hd : StartsAtRoot d)
    (hnul : ∀ k, 0 ∉ (s.superblockTable k).mountpoint)
    (h : s.createFileObject d p = .ok ((r, some i), s')) : s.resolve d p ≠ .ok none := by
  intro hnone
  rw [Vfs.createFileObject] at h
  split at h
  · cases h
  · rename_i full hfull
    obtain ⟨hpath, hdir⟩ := createPath_eq_ok hd hfull
    -- the directory has no mount either, so its lookup fails
    rw [FileSystems.resolve, hpath] at hnone
    have hlookup : superblockLookup s.superblockTable full = none := by
      simpa [Except.map] using hnone
    have hlookupDir := superblockLookup_of_prefix hnul (splitPathname_initial full) hlookup
    have hresolve : s.resolve d (splitPathname full).1 = .ok none := by
      rw [FileSystems.resolve, hdir]
      simp [Except.map, hlookupDir]
    split at h
    · cases h
    · cases h
    · rename_i hok
      cases lookedUp hok with
      | fresh hfree hsome hlookup hpos hexisting =>
          rw [hresolve] at hsome
          cases hsome
      | shared hfree hsome hlookup hpos hexisting hi =>
          rw [hresolve] at hsome
          cases hsome

end Paths

/-! ## Creating a file -/

section Create

variable {s s' : Vfs} {d p : CString} {i dir : InodeId} {r : Int}

theorem takesRef_putInode {inode : Inode} {fs : FileSystems} (hcount : (s.inodes i).count = 0)
    (hinode : inode.count = 1) (hfs : SameMountpoints s.toFileSystems fs) :
    s.TakesRef (s.putInode i inode fs) i := by
  have hset := takesRef_setInode hcount hinode
  exact ⟨hset.count, hset.file, hfs⟩

/-- The new inode gets its reference, and the one to the directory is given back. -/
theorem takesRef_createIn {s₁ : Vfs} {name : Option CString} (hdir : s.TakesRef s₁ dir)
    (h : s₁.createIn dir name = .ok ((r, some i), s')) : s.TakesRef s' i := by
  rw [Vfs.createIn, inodeAllocate_eq] at h
  cases hfree : s₁.freeInode with
  | none =>
      rw [hfree] at h
      cases h
  | some j =>
      have hj := count_of_freeInode hfree
      simp only [hfree, Option.map_some] at h
      split at h
      · cases h
      · rename_i result inode fs hmake
        have hinode : inode.count = 1 := by
          rw [makeInode_count hmake, setInode_self]
        split at h
        · cases h
        · split at h
          · cases h
          · rename_i filename
            rw [Vfs.linkNew] at h
            split at h
            · cases h
            · rename_i result' inode' fs' hlink
              split at h
              · cases h
              · obtain ⟨⟨r', s₂⟩, hback, heq⟩ := map_eq_ok.1 h
                cases heq
                -- only the slot of the new inode differs before the directory is given back
                have hslot : ((s₁.setInode i { s₁.inodes i with count := 1 }).putInode i inode
                    fs).putInode i inode' fs' = s₁.putInode i inode' fs' := by
                  simp [Vfs.putInode, Vfs.setInode]
                have hinode' : inode'.count = 1 := by
                  rw [linkInode_count hlink]
                  simp [Vfs.putInode, hinode]
                have hfs : SameMountpoints s₁.toFileSystems fs' :=
                  (makeInode_sameMounts hmake).mountpoints.trans (linkInode_sameMounts hlink).mountpoints
                have hnew := takesRef_putInode hj hinode' hfs
                rw [hslot] at hback
                have hdirCount : ((s₁.putInode i inode' fs').inodes dir).count ≠ 0 := by
                  have h₁ := hdir.count dir
                  have h₂ := hnew.count dir
                  rw [if_pos rfl] at h₁
                  rw [h₂, h₁]
                  exact Nat.ne_of_gt (Nat.add_pos_left (Nat.succ_pos _) _)
                obtain ⟨hcount, hfile, hmounts⟩ := inodeFree_takesRef hback hdirCount
                refine ⟨fun j => ?_, fun j hjs => ?_, ?_⟩
                · have h₁ := hdir.count j
                  have h₂ := hnew.count j
                  have h₃ := hcount j
                  omega
                · have h₁ : (s₁.inodes j).count ≠ 0 := by
                    rw [hdir.count]
                    exact Nat.ne_of_gt (Nat.add_pos_left (Nat.pos_of_ne_zero hjs) _)
                  have h₂ : (s'.inodes j).count ≠ 0 := by
                    have h₁ := hdir.count j
                    have h₂ := hnew.count j
                    have h₃ := hcount j
                    omega
                  have hf₁ := hdir.file j hjs
                  have hf₂ := hnew.file j h₁
                  have hf₃ := hfile j h₂
                  exact ⟨hf₃.1.trans (hf₂.1.trans hf₁.1), hf₃.2.trans (hf₂.2.trans hf₁.2)⟩
                · exact (hdir.mountpoints.trans hnew.mountpoints).trans hmounts

/-- The file that `create_file_object` makes has one reference. -/
theorem takesRef_create (h : s.createFileObject d p = .ok ((r, some i), s')) :
    s.TakesRef s' i := by
  rw [Vfs.createFileObject] at h
  split at h
  · cases h
  · split at h
    · cases h
    · cases h
    · rename_i hlookup
      exact takesRef_createIn (takesRef_lookup hlookup) h

end Create

end Vmwos
