import Vmwos.Fs.RelativePaths

/-!
# What a lookup can do

`inode_lookup_and_alloc` fills a slot of the table in and then looks for a slot with the same
superblock and number, in a table that has the new slot in it already. `LookedUp` lists what can
come of a call that returns, with the state it leaves; everything about lookups is proved from it.
-/

set_option autoImplicit false

namespace Vmwos

open Library

namespace Vfs

/-- The slot that `inode_allocate` takes. -/
def freeInode (s : Vfs) : Option InodeId :=
  (List.finRange numInodes).find? fun i => (s.inodes i).count = 0

/-- The inode that a lookup hands to the file system: the root of a mount, in a slot whose other
fields are left from its last use. -/
def temporary (s : Vfs) (temp : InodeId) (k : Fin maxMounts) : Inode :=
  { s.inodes temp with count := 1, number := (s.superblockTable k).rootDir, sb := some k }

end Vfs

/-- What a lookup that returns has done. -/
inductive LookedUp (s : Vfs) (d p : CString) : Int × Option InodeId → Vfs → Prop
  /-- No slot is free. -/
  | full (hfree : s.freeInode = none) : LookedUp s d p (-enomem, none) s
  /-- No mount has the path. The slot stays taken. -/
  | noMount {temp : InodeId} (hfree : s.freeInode = some temp) (hresolve : s.resolve d p = .ok none) :
      LookedUp s d p (-enoent, none) (s.setInode temp { s.inodes temp with count := 1 })
  /-- There is no such file. The slot is cleared. -/
  | missing {temp : InodeId} {k : Fin maxMounts} {path : CString} {inode : Inode} {result : Int}
      (hfree : s.freeInode = some temp) (hresolve : s.resolve d p = .ok (some (k, path)))
      (hlookup : s.lookupInode (s.temporary temp k) path = .ok (result, inode)) (hneg : result < 0)
      (hlinks : inode.hardLinks ≠ 0) :
      LookedUp s d p (-enoent, none) (s.setInode temp Inode.cleared)
  /-- There is no such file, and the slot has no links: what it names is destroyed. -/
  | destroyed {temp : InodeId} {k : Fin maxMounts} {path : CString} {inode : Inode} {result : Int}
      {fs : FileSystems}
      (hfree : s.freeInode = some temp) (hresolve : s.resolve d p = .ok (some (k, path)))
      (hlookup : s.lookupInode (s.temporary temp k) path = .ok (result, inode)) (hneg : result < 0)
      (hlinks : inode.hardLinks = 0) (hdestroy : s.destroyInode { inode with count := 0 } = .ok fs) :
      LookedUp s d p (-enoent, none) { s.setInode temp Inode.cleared with toFileSystems := fs }
  /-- The slot itself is the first one with this inode. -/
  | fresh {temp : InodeId} {k : Fin maxMounts} {path : CString} {inode : Inode} {result : Int}
      (hfree : s.freeInode = some temp) (hresolve : s.resolve d p = .ok (some (k, path)))
      (hlookup : s.lookupInode (s.temporary temp k) path = .ok (result, inode)) (hpos : 0 ≤ result)
      (hexisting : (s.setInode temp inode).inodeFindExisting inode.sb inode.number = some temp) :
      LookedUp s d p (result, some temp) (s.setInode temp inode)
  /-- Another slot is. -/
  | shared {temp i : InodeId} {k : Fin maxMounts} {path : CString} {inode : Inode} {result : Int}
      (hfree : s.freeInode = some temp) (hresolve : s.resolve d p = .ok (some (k, path)))
      (hlookup : s.lookupInode (s.temporary temp k) path = .ok (result, inode)) (hpos : 0 ≤ result)
      (hexisting : (s.setInode temp inode).inodeFindExisting inode.sb inode.number = some i)
      (hi : i ≠ temp) :
      LookedUp s d p (result, some i)
        ((s.setInode i { s.inodes i with count := (s.inodes i).count + 1 }).setInode temp
          Inode.cleared)

section Lookups

variable {s s' : Vfs} {d p : CString} {i j temp : InodeId} {k : Fin maxMounts} {inode : Inode}
  {found : Int × Option InodeId}

theorem inodeAllocate_eq : s.inodeAllocate =
    s.freeInode.map fun i => (i, s.setInode i { s.inodes i with count := 1 }) := rfl

theorem count_of_freeInode (h : s.freeInode = some temp) : (s.inodes temp).count = 0 := by
  simpa using List.find?_some h

@[simp] theorem setInode_self (s : Vfs) (i : InodeId) (inode : Inode) :
    (s.setInode i inode).inodes i = inode := Function.update_self _ _ _

theorem setInode_of_ne (s : Vfs) (inode : Inode) (h : j ≠ i) :
    (s.setInode i inode).inodes j = s.inodes j := Function.update_of_ne h _ _

@[simp] theorem setInode_setInode (s : Vfs) (i : InodeId) (inode inode' : Inode) :
    (s.setInode i inode).setInode i inode' = s.setInode i inode' := by
  simp [Vfs.setInode]

theorem setInode_comm (s : Vfs) (inode inode' : Inode) (h : i ≠ j) :
    (s.setInode i inode).setInode j inode' = (s.setInode j inode').setInode i inode := by
  simp only [Vfs.setInode, Function.update_comm h]

/-- The slot filled in is one with its superblock and number. -/
theorem inodeFindExisting_isSome (s : Vfs) (temp : InodeId) (inode : Inode) :
    ∃ i, (s.setInode temp inode).inodeFindExisting inode.sb inode.number = some i := by
  refine Option.isSome_iff_exists.1 (List.find?_isSome.2 ⟨temp, List.mem_finRange temp, ?_⟩)
  simp

/-- What filling in the slot keeps. -/
theorem temporary_filledIn {path : CString} {result : Int}
    (h : s.lookupInode (s.temporary temp k) path = .ok (result, inode)) :
    inode.count = 1 ∧ inode.sb = some k ∧ (0 ≤ result → inode.hardLinks = 1) := by
  have hfill := lookupInode_filledIn h
  exact ⟨hfill.count, hfill.sb, hfill.hardLinks⟩

/-- A call that returns has done one of these. -/
theorem lookedUp (h : s.inodeLookupAndAlloc d p = .ok (found, s')) : LookedUp s d p found s' := by
  rw [inodeLookupAndAlloc_eq, inodeAllocate_eq] at h
  cases hfree : s.freeInode with
  | none =>
      rw [hfree] at h
      cases h
      exact .full hfree
  | some temp =>
      rw [hfree] at h
      cases hresolve : s.resolve d p with
      | error e =>
          rw [hresolve] at h
          cases h
      | ok resolved =>
          rw [hresolve] at h
          cases resolved with
          | none =>
              cases h
              exact .noMount hfree hresolve
          | some kp =>
              obtain ⟨k, path⟩ := kp
              simp only [Option.map_some, Vfs.lookupFrom] at h
              -- the inode is filled in, in the slot taken
              have htemp : { (s.setInode temp { s.inodes temp with count := 1 }).inodes temp with
                  number := ((s.setInode temp { s.inodes temp with count := 1 }).superblockTable
                    k).rootDir
                  sb := some k } = s.temporary temp k := by
                rw [setInode_self]
                rfl
              rw [htemp] at h
              split at h
              · cases h
              · rename_i result inode hlookup
                have hlookup' : s.lookupInode (s.temporary temp k) path = .ok (result, inode) :=
                  hlookup
                obtain ⟨hcount, hsb, hlinks⟩ := temporary_filledIn hlookup'
                rw [setInode_setInode] at h
                have hfreed : ((s.setInode temp inode).inodes temp) = inode := setInode_self _ _ _
                split at h
                · rename_i hneg
                  obtain ⟨⟨r, s₂⟩, hok, heq⟩ := map_eq_ok.1 h
                  cases heq
                  rcases inodeFree_cases hok with ⟨h0, -⟩ | ⟨h2, -⟩ | ⟨-, -, hne, rfl⟩ |
                    ⟨-, -, h0, fs, hfs, rfl⟩
                  · rw [hfreed, hcount] at h0
                    cases h0
                  · rw [hfreed, hcount] at h2
                    exact absurd h2 (Nat.not_succ_le_self 1)
                  · rw [setInode_setInode]
                    rw [hfreed] at hne
                    exact .missing hfree hresolve hlookup' hneg hne
                  · rw [setInode_setInode]
                    rw [hfreed] at h0 hfs
                    exact .destroyed hfree hresolve hlookup' hneg h0 hfs
                · rename_i hpos
                  obtain ⟨i, hexisting⟩ := inodeFindExisting_isSome s temp inode
                  rw [hexisting] at h
                  obtain ⟨⟨r, s₂⟩, hok, heq⟩ := map_eq_ok.1 h
                  cases heq
                  have hlinks := hlinks (Int.not_lt.1 hpos)
                  by_cases hi : i = temp
                  · -- the slot has found itself: one reference more, and one less
                    subst hi
                    rw [setInode_setInode, setInode_self, hcount] at hok
                    have hslot : ((s.setInode i { inode with count := 1 + 1 }).inodes i) =
                      { inode with count := 1 + 1 } := setInode_self _ _ _
                    have hback : ({ inode with count := 1 } : Inode) = inode := by
                      rw [← hcount]
                    rcases inodeFree_cases hok with ⟨h0, -⟩ | ⟨-, -, rfl⟩ | ⟨h1, -⟩ | ⟨h1, -⟩
                    · rw [hslot] at h0
                      cases h0
                    · rw [hslot, setInode_setInode]
                      simp only [Nat.add_sub_cancel, hback]
                      exact .fresh hfree hresolve hlookup' (Int.not_lt.1 hpos) hexisting
                    · rw [hslot] at h1
                      cases h1
                    · rw [hslot] at h1
                      cases h1
                  · have hslot : ((s.setInode temp inode).setInode i
                        { (s.setInode temp inode).inodes i with
                          count := ((s.setInode temp inode).inodes i).count + 1 }).inodes temp =
                        inode := by
                      rw [setInode_of_ne _ _ (Ne.symm hi), setInode_self]
                    rcases inodeFree_cases hok with ⟨h0, -⟩ | ⟨h2, -⟩ | ⟨-, -, -, rfl⟩ |
                      ⟨-, -, h0, -⟩
                    · rw [hslot, hcount] at h0
                      cases h0
                    · rw [hslot, hcount] at h2
                      exact absurd h2 (Nat.not_succ_le_self 1)
                    · rw [setInode_of_ne s inode hi, setInode_comm _ _ _ (Ne.symm hi),
                        setInode_setInode]
                      exact .shared hfree hresolve hlookup' (Int.not_lt.1 hpos) hexisting hi
                    · rw [hslot, hlinks] at h0
                      cases h0

end Lookups

end Vmwos
