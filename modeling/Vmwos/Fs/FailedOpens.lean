import Vmwos.Fs.FailedLookups

/-!
# Opens that fail

`open_syscall` takes a reference to the inode that it finds, or references to the directory and to
a new inode, before it finds out that no file object is left or that the file cannot be made, and
gives none of them back. A call that fails leaves everything as it was exactly if it gets no
further than its lookups and these are harmless (`run_open_untouched_iff`).
-/

set_option autoImplicit false

namespace Vmwos

open Library

/-! ## What a failed call is to leave -/

/-- The disks, the free bitmaps, the counts of the inodes, the file objects and the descriptors of
the caller are as before. -/
structure FileTables.Untouched (s : FileTables) (files : FdTable) (s' : FileTables)
    (files' : FdTable) : Prop where
  vfs : s.toVfs.Unaffected s'.toVfs
  fileObjects : s'.fileObjects = s.fileObjects
  files : files' = files

namespace Vfs

/-- There is no inode where the path leads to. -/
def LeadsNowhere (s : Vfs) (d p : CString) : Prop := ∀ x, ¬ s.LeadsTo d p x

/-- The directory of the path is missing: some mount has it, and there is no inode there. -/
def DirectoryMissing (s : Vfs) (d p : CString) : Prop :=
  ∃ full, createPath d p = .ok full ∧ s.resolve d (splitPathname full).1 ≠ .ok none ∧
    s.LeadsNowhere d (splitPathname full).1

/-- No slot is left for a lookup, or there is no file and looking for it does no harm, and with
`O_CREAT` its directory is missing as well. -/
def StopsAtLookup (s : Vfs) (d p : CString) (flags : Nat) : Prop :=
  s.freeInode = none ∨ (s.LeadsNowhere d p ∧ s.HarmlessLookup d p ∧
    (flags &&& oCreat = 0 ∨ s.DirectoryMissing d p))

end Vfs

/-! ## References that are left -/

section Lookups

variable {s s' : Vfs} {d p : CString} {i dir temp : InodeId} {r : Int}

theorem leadsNowhere_of_lookup (h : s.inodeLookupAndAlloc d p = .ok ((r, none), s')) :
    s.LeadsNowhere d p := by
  rintro x ⟨r', i, s₁, hok, -⟩
  rw [h] at hok
  cases hok

theorem not_leadsNowhere (h : s.inodeLookupAndAlloc d p = .ok ((r, some i), s')) :
    ¬ s.LeadsNowhere d p :=
  fun hnowhere => hnowhere _ ⟨r, i, s', h, rfl⟩

theorem freeInode_of_lookup (h : s.inodeLookupAndAlloc d p = .ok ((r, some i), s')) :
    s.freeInode ≠ none := by
  intro hfull
  rw [inodeLookupAndAlloc_eq, inodeAllocate_eq, hfull] at h
  cases h

/-- Nothing can be looked up when no slot is free. -/
theorem lookup_of_full (hfull : s.freeInode = none) :
    s.inodeLookupAndAlloc d p = .ok ((-enomem, none), s) := by
  rw [inodeLookupAndAlloc_eq, inodeAllocate_eq, hfull]
  rfl

/-- A lookup that fails takes no reference away. -/
theorem count_le_of_lookup (hslots : s.SlotsInv)
    (h : s.inodeLookupAndAlloc d p = .ok ((r, none), s')) (j : InodeId) :
    (s.inodes j).count ≤ (s'.inodes j).count := by
  rcases lookup_fails hslots h with ⟨-, rfl⟩ | ⟨temp, hfree, hcases⟩
  · exact Nat.le_refl _
  · rcases hcases with ⟨-, rfl⟩ | ⟨-, rfl⟩ | ⟨-, -, fs, -, rfl⟩
    · by_cases hj : j = temp
      · subst hj
        rw [count_of_freeInode hfree]
        exact Nat.zero_le _
      · rw [setInode_of_ne s _ hj]
    · exact Nat.le_of_eq ((unaffected_cleared hfree).counts j).symm
    · exact Nat.le_of_eq ((unaffected_cleared hfree).counts j).symm

/-- Neither does `create_file_object` when it fails behind the lookup of the directory. -/
theorem count_le_of_createIn {name : Option CString}
    (h : s.createIn dir name = .ok ((r, none), s')) (j : InodeId) :
    (s.inodes j).count ≤ (s'.inodes j).count := by
  rw [Vfs.createIn, inodeAllocate_eq] at h
  cases hfree : s.freeInode with
  | none =>
      rw [hfree] at h
      cases h
      exact Nat.le_refl _
  | some i =>
      -- a slot that was free is changed, once or twice
      have hput (t : Vfs) (inode : Inode) (fs : FileSystems)
          (ht : ∀ j, j ≠ i → t.inodes j = s.inodes j) :
          (s.inodes j).count ≤ ((t.putInode i inode fs).inodes j).count := by
        show _ ≤ ((t.setInode i inode).inodes j).count
        by_cases hj : j = i
        · subst hj
          rw [count_of_freeInode hfree]
          exact Nat.zero_le _
        · rw [setInode_of_ne t _ hj, ht j hj]
      simp only [hfree, Option.map_some] at h
      split at h
      · cases h
      · split at h
        · cases h
          exact hput _ _ _ fun j hj => setInode_of_ne s _ hj
        · split at h
          · cases h
          · rw [Vfs.linkNew] at h
            split at h
            · cases h
            · split at h
              · cases h
                refine hput _ _ _ fun j hj => ?_
                exact (setInode_of_ne _ _ hj).trans (setInode_of_ne s _ hj)
              · obtain ⟨q, -, heq⟩ := map_eq_ok.1 h
                cases heq

/-- A reference that is taken, between steps that take none away. -/
theorem not_unaffected_of_takesRef {s₁ s₂ : Vfs}
    (hbefore : ∀ j, (s.inodes j).count ≤ (s₁.inodes j).count) (htakes : s₁.TakesRef s₂ i)
    (hbehind : ∀ j, (s₂.inodes j).count ≤ (s'.inodes j).count) : ¬ s.Unaffected s' := by
  intro h
  have hcount := htakes.count i
  rw [if_pos rfl] at hcount
  have hle : (s₂.inodes i).count ≤ (s₁.inodes i).count := by
    calc (s₂.inodes i).count ≤ (s'.inodes i).count := hbehind i
      _ = (s.inodes i).count := h.counts i
      _ ≤ (s₁.inodes i).count := hbefore i
  rw [hcount] at hle
  exact Nat.not_succ_le_self _ hle

end Lookups

/-! ## The two lookups -/

section Directory

variable {s s₁ s' : Vfs} {d p full : CString} {dir temp : InodeId} {r r' : Int} {flags : Nat}

/-- A lookup that fails in a slot that has been cleared before leaves everything as it was, unless
no mount has the path. -/
theorem lookup_cleared_fails (hslots : s.SlotsInv) (hfree : s.freeInode = some temp)
    (hcleared : s.inodes temp = Inode.cleared)
    (h : s.inodeLookupAndAlloc d p = .ok ((r, none), s')) :
    (s.resolve d p = .ok none ∧ s' = s.setInode temp { Inode.cleared with count := 1 }) ∨
      (s.resolve d p ≠ .ok none ∧ s' = s) := by
  rcases lookup_fails hslots h with ⟨hfull, -⟩ | ⟨temp', hfree', hcases⟩
  · rw [hfree] at hfull
    cases hfull
  · rw [hfree] at hfree'
    cases hfree'
    rcases hcases with ⟨hresolve, rfl⟩ | ⟨hharmless, rfl⟩ | ⟨-, hlinks, -⟩
    · rw [hcleared]
      exact Or.inl ⟨hresolve, rfl⟩
    · obtain ⟨k, path, hresolve, -⟩ := hharmless temp hfree
      refine Or.inr ⟨?_, ?_⟩
      · rw [hresolve]
        exact fun h => by cases h
      · rw [← hcleared]
        simp [Vfs.setInode]
    · -- the letters that clear a slot are no empty link count
      rw [hcleared] at hlinks
      cases hlinks

/-- Both lookups of a call with `O_CREAT` have failed. -/
theorem lookups_unaffected_iff (hslots : s.SlotsInv) (hcreat : flags &&& oCreat ≠ 0)
    (hfirst : s.inodeLookupAndAlloc d p = .ok ((r, none), s₁))
    (hpath : createPath d p = .ok full)
    (hsecond : s₁.inodeLookupAndAlloc d (splitPathname full).1 = .ok ((r', none), s')) :
    s.Unaffected s' ↔ s.StopsAtLookup d p flags := by
  have hslots₁ := hslots.lookup hfirst
  rcases lookup_fails hslots hfirst with ⟨hfull, rfl⟩ | ⟨temp, hfree, hcases⟩
  · -- there is no slot for the second one either
    rw [lookup_of_full hfull] at hsecond
    cases hsecond
    exact iff_of_true ⟨rfl, rfl, fun _ => rfl⟩ (Or.inl hfull)
  · have hsome : s.freeInode ≠ none := by
      rw [hfree]
      exact Option.some_ne_none temp
    rcases hcases with ⟨hresolve, rfl⟩ | ⟨hharmless, rfl⟩ | ⟨hharmful, -, fs, hdisk, rfl⟩
    · -- the slot that the first one has left taken stays taken
      refine iff_of_false (fun h => ?_) ?_
      · have hle := count_le_of_lookup hslots₁ hsecond temp
        rw [h.counts, setInode_self, count_of_freeInode hfree] at hle
        exact Nat.not_succ_le_zero 0 hle
      · rintro (hfull | ⟨-, hharmless, -⟩)
        · exact hsome hfull
        · obtain ⟨k, path, hsome, -⟩ := hharmless temp hfree
          rw [hresolve] at hsome
          cases hsome
    · have hfree₁ := @freeInode_setInode s temp Inode.cleared hfree rfl
      rcases lookup_cleared_fails hslots₁ hfree₁ (setInode_self s temp _) hsecond with
        ⟨hnone, rfl⟩ | ⟨hmount, rfl⟩
      · refine iff_of_false (fun h => ?_) ?_
        · have hcount := h.counts temp
          rw [setInode_self, count_of_freeInode hfree] at hcount
          cases hcount
        · rintro (hfull | ⟨-, -, hcreat' | ⟨full', hpath', hmount, -⟩⟩)
          · exact hsome hfull
          · exact hcreat hcreat'
          · rw [hpath] at hpath'
            cases hpath'
            exact hmount hnone
      · refine iff_of_true (unaffected_cleared hfree) (Or.inr ⟨leadsNowhere_of_lookup hfirst,
          hharmless, Or.inr ⟨full, hpath, hmount, fun x hx => ?_⟩⟩)
        exact leadsNowhere_of_lookup hsecond x ((leadsTo_cleared_iff hfree).2 hx)
    · -- the second one finds its slot cleared, and brings nothing back
      have hfree₁ := @freeInode_setInode s temp Inode.cleared hfree rfl
      refine iff_of_false (fun h => hdisk ?_) ?_
      · rw [← h.disk]
        rcases lookup_cleared_fails hslots₁ hfree₁ (setInode_self s temp _) hsecond with
          ⟨-, rfl⟩ | ⟨-, rfl⟩
        · rfl
        · rfl
      · rintro (hfull | ⟨-, hharmless, -⟩)
        · exact hsome hfull
        · exact hharmful hharmless

/-- The directory has been found. -/
theorem not_stopsAtLookup (hslots : s.SlotsInv) (hcreat : flags &&& oCreat ≠ 0)
    (hfirst : s.inodeLookupAndAlloc d p = .ok ((r, none), s₁))
    (hpath : createPath d p = .ok full)
    (hsecond : s₁.inodeLookupAndAlloc d (splitPathname full).1 = .ok ((r', some dir), s')) :
    ¬ s.StopsAtLookup d p flags := by
  intro hstops
  rcases lookup_fails hslots hfirst with ⟨hfull, rfl⟩ | ⟨temp, hfree, hcases⟩
  · exact freeInode_of_lookup hsecond hfull
  · rcases hstops with hfull | ⟨-, hharmless, hcreat' | ⟨full', hpath', -, hnowhere⟩⟩
    · rw [hfree] at hfull
      cases hfull
    · exact hcreat hcreat'
    · rw [hpath] at hpath'
      cases hpath'
      rcases hcases with ⟨hresolve, -⟩ | ⟨-, rfl⟩ | ⟨hharmful, -⟩
      · obtain ⟨k, path, hsome, -⟩ := hharmless temp hfree
        rw [hresolve] at hsome
        cases hsome
      · exact hnowhere _ ((leadsTo_cleared_iff hfree).1 ⟨r', dir, s', hsecond, rfl⟩)
      · exact hharmful hharmless

end Directory

/-! ## The call -/

section Call

variable {s s' : FileTables} {files files' : FdTable} {d p : CString} {i : InodeId} {flags : Nat}
  {r : Int}

/-- No file object is left. -/
theorem openInode_error (h : s.openInode i flags = .ok (.error r, s')) : s' = s := by
  rw [FileTables.openInode] at h
  split at h
  · cases h
    rfl
  · split at h
    · cases h
    · dsimp only at h
      split at h
      · cases h
      · cases h

/-- `open_file_object` changes the file objects only when it succeeds, and the rest unless it stops
at its lookups. -/
theorem openFileObject_unaffected_iff (hslots : s.SlotsInv)
    (h : s.openFileObject d p flags = .ok (.error r, s')) :
    s'.fileObjects = s.fileObjects ∧
      (s.toVfs.Unaffected s'.toVfs ↔ s.StopsAtLookup d p flags) := by
  rw [FileTables.openFileObject] at h
  split at h
  · cases h
  · -- the file is there
    rename_i hlookup
    obtain rfl := openInode_error h
    refine ⟨rfl, iff_of_false ?_ ?_⟩
    · exact not_unaffected_of_takesRef (fun _ => Nat.le_refl _) (takesRef_lookup hlookup)
        fun _ => Nat.le_refl _
    · rintro (hfull | ⟨hnowhere, -⟩)
      · exact freeInode_of_lookup hlookup hfull
      · exact not_leadsNowhere hlookup hnowhere
  · rename_i result vfs hlookup
    split at h
    · rename_i hcreat
      cases h
      refine ⟨rfl, (lookup_unaffected_iff hslots hlookup).trans ⟨fun hharmless => ?_, ?_⟩⟩
      · exact Or.inr ⟨leadsNowhere_of_lookup hlookup, hharmless, Or.inl hcreat⟩
      · rintro (hfull | ⟨-, hharmless, -⟩)
        · intro temp htemp
          rw [hfull] at htemp
          cases htemp
        · exact hharmless
    · rename_i hcreat
      have hle := count_le_of_lookup hslots hlookup
      have hslots₁ := hslots.lookup hlookup
      split at h
      · cases h
      · -- the file has been created
        rename_i hcreated
        obtain rfl := openInode_error h
        refine ⟨rfl, iff_of_false (not_unaffected_of_takesRef hle (takesRef_create hcreated)
          fun _ => Nat.le_refl _) ?_⟩
        rw [Vfs.createFileObject] at hcreated
        split at hcreated
        · cases hcreated
        · rename_i hpath
          split at hcreated
          · cases hcreated
          · cases hcreated
          · rename_i hdir
            exact not_stopsAtLookup hslots hcreat hlookup hpath hdir
      · rename_i hcreated
        cases h
        refine ⟨rfl, ?_⟩
        rw [Vfs.createFileObject] at hcreated
        split at hcreated
        · cases hcreated
        · rename_i hpath
          split at hcreated
          · cases hcreated
          · rename_i hdir
            cases hcreated
            exact lookups_unaffected_iff hslots hcreat hlookup hpath hdir
          · -- the directory keeps the reference that its lookup has taken
            rename_i hdir
            exact iff_of_false
              (not_unaffected_of_takesRef hle (takesRef_lookup hdir) (count_le_of_createIn hcreated))
              (not_stopsAtLookup hslots hcreat hlookup hpath hdir)

/-- A call that fails leaves everything as it was exactly if the caller has no descriptor left or
the call stops at its lookups. -/
theorem openSyscall_untouched_iff (hslots : s.SlotsInv)
    (h : s.openSyscall files d p flags = .ok (r, s', files')) (hneg : r < 0) :
    s.Untouched files s' files' ↔
      FileTables.freeFd files = none ∨ s.StopsAtLookup d p flags := by
  rw [FileTables.openSyscall] at h
  split at h
  · rename_i hfd
    cases h
    exact iff_of_true ⟨⟨rfl, rfl, fun _ => rfl⟩, rfl, rfl⟩ (Or.inl hfd)
  · rename_i fd hfd
    split at h
    · cases h
    · rename_i hopen
      cases h
      obtain ⟨hobjects, hiff⟩ := openFileObject_unaffected_iff hslots hopen
      rw [hfd, ← hiff]
      constructor
      · intro huntouched
        exact Or.inr huntouched.vfs
      · rintro (hnone | hvfs)
        · cases hnone
        · exact ⟨hvfs, hobjects, rfl⟩
    · -- a descriptor is no error
      cases h
      exact absurd hneg (Int.not_lt.2 (Int.natCast_nonneg _))

end Call

/-! ## In every run -/

namespace FileUse

variable {δ : Type} {dev : Devices δ} {s s₀ : FileUse δ} {s' : FileTables} {files' : FdTable}
  {p : CString} {flags : Nat} {caller : ProcId}

/-- Whatever calls came before, an `open` that fails leaves the disks, the free bitmaps, the counts
of the inodes, the file objects and the descriptors as they are exactly if the caller has no
descriptor left or the call stops at its lookups. -/
theorem run_open_untouched_iff {stack text : Nat} {image : Image}
    {blockDevs : Fin blockDevMax → BlockDev} {disk : Nat → Disk} {chars : δ} {ops : List FsOp}
    {replies : List IoReply} {r : Int}
    (hstart : start stack text image (FileSystems.boot blockDevs disk) chars = .ok s₀)
    (hrun : run (fsStep dev) s₀ ops = .ok (replies, s))
    (hopen : s.openFiles.openSyscall (s.files caller) (s.currentDir caller) p flags =
      .ok (r, s', files'))
    (hneg : r < 0) :
    s.openFiles.Untouched (s.files caller) s' files' ↔
      FileTables.freeFd (s.files caller) = none ∨
        s.openFiles.StopsAtLookup (s.currentDir caller) p flags :=
  openSyscall_untouched_iff (slotsInv_run hstart hrun) hopen hneg

/-- The name `B` is missing, and is not to be created. -/
theorem run_open_untouched_missing : ∃ s₀ replies s s' files',
    start 0 0 noImage oneFileSystems () = .ok s₀ ∧
      run (fsStep noDevices) s₀ [mountOneFile] = .ok (replies, s) ∧
      s.openFiles.openSyscall (s.files 1) (s.currentDir 1) [0x42] 0 = .ok (-enoent, s', files') ∧
      (s.openFiles.Untouched (s.files 1) s' files' ↔
        FileTables.freeFd (s.files 1) = none ∨
          s.openFiles.StopsAtLookup (s.currentDir 1) [0x42] 0) := by
  have h : (match start 0 0 noImage oneFileSystems () with
      | .error _ => false
      | .ok s₀ => match run (fsStep noDevices) s₀ [mountOneFile] with
        | .error _ => false
        | .ok (_, s) =>
            match s.openFiles.openSyscall (s.files 1) (s.currentDir 1) [0x42] 0 with
            | .error _ => false
            | .ok (r, _, _) => decide (r = -enoent)) = true := by
    decide
  split at h
  · cases h
  · rename_i s₀ hstart
    split at h
    · cases h
    · rename_i replies s hrun
      split at h
      · cases h
      · rename_i r s' files' hopen
        cases of_decide_eq_true h
        exact ⟨s₀, replies, s, s', files', hstart, hrun, hopen,
          run_open_untouched_iff hstart hrun hopen (by decide)⟩

/-- A volume whose catalog is one sector, with all its entries in use. -/
def fullCatalogDisk : Disk := fun n i =>
  if n = 272 then
    if i = dos33VtocFirstCatTrack then 17 else if i = dos33VtocFirstCatSector then 15 else 0
  else if n = 287 ∧ 11 ≤ i then 1 else 0

/-- The volume on the only device. -/
def fullCatalogSystems : FileSystems :=
  FileSystems.boot (fun _ => ⟨[0x64], true⟩) fun _ => fullCatalogDisk

/-- Where no entry is left for the file `B`, the directory and a new inode stay in use. -/
theorem not_run_open_untouched : ∃ s₀ replies s s' files',
    start 0 0 noImage fullCatalogSystems () = .ok s₀ ∧
      run (fsStep noDevices) s₀ [mountOneFile] = .ok (replies, s) ∧
      s.openFiles.openSyscall (s.files 1) (s.currentDir 1) [0x42] oCreat =
        .ok (-e2big, s', files') ∧
      ¬ s.openFiles.Untouched (s.files 1) s' files' := by
  have h : (match start 0 0 noImage fullCatalogSystems () with
      | .error _ => false
      | .ok s₀ => match run (fsStep noDevices) s₀ [mountOneFile] with
        | .error _ => false
        | .ok (_, s) =>
            match s.openFiles.openSyscall (s.files 1) (s.currentDir 1) [0x42] oCreat with
            | .error _ => false
            | .ok (r, s', _) => decide (r = -e2big ∧
                (s'.inodes 3).count ≠ (s.openFiles.inodes 3).count)) = true := by
    decide
  split at h
  · cases h
  · rename_i s₀ hstart
    split at h
    · cases h
    · rename_i replies s hrun
      split at h
      · cases h
      · rename_i r s' files' hopen
        obtain ⟨rfl, hcount⟩ := of_decide_eq_true h
        refine ⟨s₀, replies, s, s', files', hstart, hrun, hopen, fun huntouched => hcount ?_⟩
        exact huntouched.vfs.counts 3

end FileUse

end Vmwos
