import Vmwos.Fs.Chdir
import Vmwos.Fs.InodeReferences
import Vmwos.Fs.ProcessFiles

/-!
# The calls that reach the table of the inodes

The calls of `ProcessFiles`, those that take a path, and `mount`, as the steps of one system
(`FsUse.step`). What a lookup finds in the slot it takes depends on the calls before it, and so
does where it starts: `SlotsInv` holds in every state that the calls lead to.
-/

set_option autoImplicit false

namespace Vmwos

open Library

/-- A call of a process, or a call of `mount`. -/
inductive FsOp where
  | mount (call : MountCall)
  | stat (proc : ProcId) (pathname : CString)
  | chmod (proc : ProcId) (pathname : CString) (mode : Nat)
  | truncate64 (proc : ProcId) (pathname : CString) (size : Nat)
  | unlink (proc : ProcId) (pathname : CString)
  | chdir (proc : ProcId) (path : CString)
  | descriptors (proc : ProcId) (op : FdOp)

namespace FileUse

variable {δ : Type}

/-- The current directory of a process. -/
def currentDir (s : FileUse δ) (p : ProcId) : CString := (s.procs.allProcesses p).currentDir

/-- Change the inodes or the file systems. -/
def setVfs (s : FileUse δ) (vfs : Vfs) : FileUse δ :=
  { s with openFiles := { s.openFiles with toVfs := vfs } }

/-- One call. Of `stat` the result only is answered. -/
def fsStep (dev : Devices δ) (s : FileUse δ) : FsOp → Except Stuck (IoReply × FileUse δ)
  | .mount call => (s.openFiles.mountStep call).map fun (result, fs) =>
      (.ofResult result, s.setVfs { s.openFiles.toVfs with toFileSystems := fs })
  | .stat p pathname => (s.openFiles.statSyscall (s.currentDir p) pathname).map
      fun ((result, _), vfs) => (.ofResult result, s.setVfs vfs)
  | .chmod p pathname mode => (s.openFiles.chmodSyscall (s.currentDir p) pathname mode).map
      fun (result, vfs) => (.ofResult result, s.setVfs vfs)
  | .truncate64 p pathname size =>
      (s.openFiles.truncate64Syscall (s.currentDir p) pathname size).map
        fun (result, vfs) => (.ofResult result, s.setVfs vfs)
  | .unlink p pathname => (s.openFiles.unlinkSyscall (s.currentDir p) pathname).map
      fun (result, vfs) => (.ofResult result, s.setVfs vfs)
  | .chdir p path => (s.openFiles.chdirSyscall (s.currentDir p) path).map
      fun (result, vfs, dir) => (.ofResult result,
        { s.setVfs vfs with procs := s.procs.modify p fun proc => { proc with currentDir := dir } })
  | .descriptors p op => step dev s (p, op)

end FileUse

/-! ## The slots and the roots -/

/-- A slot that is not in use points to no superblock, and has no size unless it has links: it has
never been used, or was cleared. -/
def Inode.SlotOk (inode : Inode) : Prop :=
  inode.count = 0 → inode.sb = none ∧ (inode.hardLinks = 0 → inode.size = 0)

/-- The root of a DOS 3.3 volume is no entry of a catalog sector. -/
def Superblock.RootOk (sb : Superblock) : Prop :=
  sb.sbOps = some .dos33fs → inodeEntry sb.rootDir = 0xff

/-- All slots and all roots. -/
structure Vfs.SlotsInv (s : Vfs) : Prop where
  slots : ∀ i, (s.inodes i).SlotOk
  roots : ∀ k, (s.superblockTable k).RootOk

section Slots

variable {s s' : Vfs} {fs : FileSystems} {i : InodeId} {inode : Inode} {d p : CString} {r : Int}

theorem slotOk_zeroed : Inode.zeroed.SlotOk := fun _ => ⟨rfl, fun _ => rfl⟩

theorem slotOk_cleared : Inode.cleared.SlotOk := fun _ => ⟨rfl, fun h => absurd h (by decide)⟩

theorem slotOk_of_count (h : inode.count ≠ 0) : inode.SlotOk := fun h0 => absurd h0 h

theorem SameMounts.rootOk {s s' : FileSystems} (h : SameMounts s s') {k : Fin maxMounts}
    (hk : (s.superblockTable k).RootOk) : (s'.superblockTable k).RootOk := by
  obtain ⟨blocks, blocksFree, hsame⟩ := h k
  rw [hsame]
  exact hk

namespace Vfs

theorem SlotsInv.setInode (h : s.SlotsInv) (hinode : inode.SlotOk) :
    (s.setInode i inode).SlotsInv where
  slots j := by
    by_cases hj : j = i
    · subst hj
      rw [setInode_self]
      exact hinode
    · rw [setInode_of_ne s inode hj]
      exact h.slots j
  roots := h.roots

theorem SlotsInv.withFileSystems (h : s.SlotsInv) (hfs : SameMounts s.toFileSystems fs) :
    ({ s with toFileSystems := fs } : Vfs).SlotsInv where
  slots := h.slots
  roots k := hfs.rootOk (h.roots k)

/-- An inode that a file system works on is in use. -/
theorem SlotsInv.inUse (h : s.SlotsInv) {q : Fin maxMounts × FileSystems.Driver}
    (hdriver : s.driver (s.inodes i).sb = .ok q) : (s.inodes i).count ≠ 0 := by
  intro h0
  rw [(h.slots i h0).1] at hdriver
  cases hdriver

theorem SlotsInv.inodeFree (h : s.SlotsInv) (hok : s.inodeFree i = .ok (r, s')) : s'.SlotsInv := by
  rcases inodeFree_cases hok with ⟨-, -, rfl⟩ | ⟨h2, -, rfl⟩ | ⟨-, -, -, rfl⟩ |
    ⟨-, -, -, fs, hfs, rfl⟩
  · exact h
  · exact h.setInode (slotOk_of_count (Nat.ne_of_gt (Nat.sub_pos_of_lt h2)))
  · exact h.setInode slotOk_cleared
  · exact (h.setInode slotOk_cleared).withFileSystems (destroyInode_sameMounts hfs)

theorem SlotsInv.lookup {found : Int × Option InodeId} (h : s.SlotsInv)
    (hok : s.inodeLookupAndAlloc d p = .ok (found, s')) : s'.SlotsInv := by
  cases lookedUp hok with
  | full => exact h
  | noMount => exact h.setInode (slotOk_of_count Nat.one_ne_zero)
  | missing => exact h.setInode slotOk_cleared
  | destroyed hfree hresolve hlookup hneg hlinks hdestroy =>
      exact (h.setInode slotOk_cleared).withFileSystems (destroyInode_sameMounts hdestroy)
  | fresh hfree hresolve hlookup =>
      refine h.setInode (slotOk_of_count ?_)
      rw [(temporary_filledIn hlookup).1]
      exact Nat.one_ne_zero
  | shared =>
      exact (h.setInode (slotOk_of_count (Nat.succ_ne_zero _))).setInode slotOk_cleared

/-! ## The calls that take a path -/

theorem SlotsInv.statSyscall {buf : Option VmwosStat} (h : s.SlotsInv)
    (hok : s.statSyscall d p = .ok ((r, buf), s')) : s'.SlotsInv := by
  rw [Vfs.statSyscall] at hok
  split at hok
  · cases hok
  · rename_i hlookup
    cases hok
    exact h.lookup hlookup
  · rename_i hlookup
    obtain ⟨⟨r', s₁⟩, hfree, heq⟩ := map_eq_ok.1 hok
    cases heq
    exact (h.lookup hlookup).inodeFree hfree

/-- Only an inode in use finds a driver that truncates it, and stays in use. -/
theorem SlotsInv.truncated (h : s.SlotsInv) {size : Nat}
    (htruncate : s.toFileSystems.truncateInode (s.inodes i) size = .ok (r, inode, fs)) :
    inode.count ≠ 0 := by
  rw [(truncateInode_sameFile htruncate).2.2]
  rw [FileSystems.truncateInode] at htruncate
  cases hdriver : s.driver (s.inodes i).sb with
  | error e =>
      rw [hdriver] at htruncate
      cases htruncate
  | ok q => exact h.inUse hdriver

theorem SlotsInv.truncateInode {size : Nat} (h : s.SlotsInv)
    (hok : s.truncateInode i size = .ok (r, s')) : s'.SlotsInv := by
  rw [Vfs.truncateInode] at hok
  split at hok
  · cases hok
  · rename_i result inode fs htruncate
    have hset := (h.setInode (i := i) (slotOk_of_count (h.truncated htruncate))).withFileSystems
      (truncateInode_sameMounts htruncate)
    split at hok
    · obtain ⟨fs', hwrite, heq⟩ := map_eq_ok.1 hok
      cases heq
      exact hset.withFileSystems (writeInode_sameMounts hwrite)
    · cases hok
      exact hset

theorem SlotsInv.chmodSyscall {mode : Nat} (h : s.SlotsInv)
    (hok : s.chmodSyscall d p mode = .ok (r, s')) : s'.SlotsInv := by
  rw [Vfs.chmodSyscall] at hok
  split at hok
  · cases hok
  · rename_i hlookup
    cases hok
    exact h.lookup hlookup
  · rename_i result i s₁ hlookup
    dsimp only at hok
    split at hok
    · cases hok
    · rename_i fs hwrite
      obtain ⟨⟨r', s₂⟩, hfree, heq⟩ := map_eq_ok.1 hok
      cases heq
      have h₁ := h.lookup hlookup
      refine SlotsInv.inodeFree (SlotsInv.withFileSystems (h₁.setInode (i := i) ?_) ?_) hfree
      · exact h₁.slots i
      · exact writeInode_sameMounts hwrite

theorem SlotsInv.truncate64Syscall {size : Nat} (h : s.SlotsInv)
    (hok : s.truncate64Syscall d p size = .ok (r, s')) : s'.SlotsInv := by
  rw [Vfs.truncate64Syscall] at hok
  split at hok
  · cases hok
  · rename_i hlookup
    cases hok
    exact h.lookup hlookup
  · rename_i result i s₁ hlookup
    split at hok
    · cases hok
    · rename_i hcut
      obtain ⟨⟨r', s₂⟩, hfree, heq⟩ := map_eq_ok.1 hok
      cases heq
      exact ((h.lookup hlookup).truncateInode hcut).inodeFree hfree

theorem SlotsInv.unlinkSyscall (h : s.SlotsInv) (hok : s.unlinkSyscall d p = .ok (r, s')) :
    s'.SlotsInv := by
  rw [Vfs.unlinkSyscall] at hok
  split at hok
  · cases hok
  · rename_i hlookup
    cases hok
    exact h.lookup hlookup
  · rename_i result i s₁ hlookup
    have h₁ := h.lookup hlookup
    split at hok
    · obtain ⟨⟨r', s₂⟩, hfree, heq⟩ := map_eq_ok.1 hok
      cases heq
      exact h₁.inodeFree hfree
    · split at hok
      · cases hok
      · rename_i result' fs hunlink
        obtain ⟨⟨r', s₂⟩, hfree, heq⟩ := map_eq_ok.1 hok
        cases heq
        -- the inode is in use, so its links do not matter
        have hcount : (s₁.inodes i).count ≠ 0 := by
          rw [FileSystems.unlinkInode] at hunlink
          cases hdriver : s₁.driver (s₁.inodes i).sb with
          | error e =>
              rw [hdriver] at hunlink
              cases hunlink
          | ok q => exact h₁.inUse hdriver
        refine SlotsInv.inodeFree (SlotsInv.withFileSystems (h₁.setInode (i := i)
          (slotOk_of_count ?_)) (unlinkInode_sameMounts hunlink)) hfree
        split
        · exact hcount
        · exact hcount

theorem SlotsInv.chdirSyscall {path dir : CString} (h : s.SlotsInv)
    (hok : s.chdirSyscall d path = .ok (r, s', dir)) : s'.SlotsInv := by
  rw [Vfs.chdirSyscall] at hok
  split at hok
  · cases hok
    exact h
  · split at hok
    · cases hok
    · split at hok
      · cases hok
      · rename_i hlookup
        cases hok
        exact h.lookup hlookup
      · rename_i hlookup
        split at hok
        · obtain ⟨⟨r', s₂⟩, hfree, heq⟩ := map_eq_ok.1 hok
          cases heq
          exact (h.lookup hlookup).inodeFree hfree
        · obtain ⟨⟨r', s₂⟩, hfree, heq⟩ := map_eq_ok.1 hok
          cases heq
          exact (h.lookup hlookup).inodeFree hfree

/-! ## Creating a file -/

theorem SlotsInv.putInode (h : s.SlotsInv) (hinode : inode.SlotOk)
    (hfs : SameMounts s.toFileSystems fs) : (s.putInode i inode fs).SlotsInv :=
  (h.setInode hinode).withFileSystems hfs

theorem SlotsInv.createIn {dir : InodeId} {name : Option CString}
    {found : Int × Option InodeId} (h : s.SlotsInv)
    (hok : s.createIn dir name = .ok (found, s')) : s'.SlotsInv := by
  rw [Vfs.createIn, inodeAllocate_eq] at hok
  cases hfree : s.freeInode with
  | none =>
      rw [hfree] at hok
      cases hok
      exact h
  | some i =>
      simp only [hfree, Option.map_some] at hok
      split at hok
      · cases hok
      · rename_i result inode fs hmake
        have hone : inode.count = 1 := by rw [makeInode_count hmake, setInode_self]
        have hslot : inode.SlotOk := slotOk_of_count (by rw [hone]; exact Nat.one_ne_zero)
        have hnew : ((s.setInode i { s.inodes i with count := 1 }).putInode i inode fs).SlotsInv :=
          (h.setInode (slotOk_of_count Nat.one_ne_zero)).putInode hslot (makeInode_sameMounts hmake)
        split at hok
        · cases hok
          exact hnew
        · split at hok
          · cases hok
          · rw [Vfs.linkNew] at hok
            split at hok
            · cases hok
            · rename_i result' inode' fs' hlink
              have hone' : inode'.count = 1 := by
                rw [linkInode_count hlink]
                simp [Vfs.putInode, hone]
              have hlinked := hnew.putInode (i := i)
                (slotOk_of_count (by rw [hone']; exact Nat.one_ne_zero)) (linkInode_sameMounts hlink)
              split at hok
              · cases hok
                exact hlinked
              · obtain ⟨⟨r', s₂⟩, hback, heq⟩ := map_eq_ok.1 hok
                cases heq
                exact hlinked.inodeFree hback

theorem SlotsInv.createFileObject {found : Int × Option InodeId} (h : s.SlotsInv)
    (hok : s.createFileObject d p = .ok (found, s')) : s'.SlotsInv := by
  rw [Vfs.createFileObject] at hok
  split at hok
  · cases hok
  · split at hok
    · cases hok
    · rename_i hlookup
      cases hok
      exact h.lookup hlookup
    · rename_i hlookup
      exact (h.lookup hlookup).createIn hok

end Vfs

end Slots

/-! ## The calls with descriptors -/

namespace FileTables

variable {s s' : FileTables} {files files' : FdTable} {f : FileId} {i : InodeId} {d p : CString}
  {flags : Nat}

theorem slotsInv_filesIncrementCount (h : s.SlotsInv) (hok : s.filesIncrementCount f = .ok s') :
    s'.SlotsInv := by
  cases hi : (s.fileObjects f).inode with
  | none =>
      rw [filesIncrementCount_of_none hi] at hok
      cases hok
  | some i =>
      rw [filesIncrementCount_of_inode hi] at hok
      cases hok
      exact h.setInode (slotOk_of_count (Nat.succ_ne_zero _))

theorem slotsInv_fileObjectFree (h : s.SlotsInv) (hok : s.fileObjectFree f = .ok s') :
    s'.SlotsInv := by
  rw [fileObjectFree] at hok
  dsimp only at hok
  split at hok
  · cases hok
    exact h
  · obtain ⟨⟨r, vfs⟩, hfree, heq⟩ := map_eq_ok.1 hok
    cases heq
    have hfree' : s.toVfs.inodeFree _ = .ok (r, vfs) := hfree
    exact h.inodeFree hfree'

theorem slotsInv_eachFile {call : FileTables → FileId → Except Stuck FileTables}
    (hcall : ∀ {t t' : FileTables} {f : FileId}, t.SlotsInv → call t f = .ok t' → t'.SlotsInv)
    {is : List (Fin maxFdPerProc)} (h : s.SlotsInv) (hok : eachFile call files is s = .ok s') :
    s'.SlotsInv := by
  induction is generalizing s with
  | nil =>
      cases hok
      exact h
  | cons fd is ih =>
      rw [eachFile] at hok
      split at hok
      · exact ih h hok
      · split at hok
        · cases hok
        · rename_i hf
          exact ih (hcall h hf) hok

theorem slotsInv_truncateOpened (h : s.SlotsInv) (hok : s.truncateOpened f i flags = .ok s') :
    s'.SlotsInv := by
  rw [truncateOpened] at hok
  split at hok
  · cases hok
    exact h
  · split at hok
    · cases hok
    · rename_i result inode fs htruncate
      cases hok
      exact h.putInode (slotOk_of_count (Vfs.SlotsInv.truncated h htruncate))
        (truncateInode_sameMounts htruncate)

theorem slotsInv_openInode {found : Except Int FileId} (h : s.SlotsInv)
    (hok : s.openInode i flags = .ok (found, s')) : s'.SlotsInv := by
  rw [openInode, fileObjectAllocate] at hok
  cases hfind : (List.finRange maxOpenFiles).find? fun f => (s.fileObjects f).count = 0 with
  | none =>
      rw [hfind] at hok
      cases hok
      exact h
  | some g =>
      simp only [hfind, Option.map_some] at hok
      split at hok
      · cases hok
      · split at hok
        · cases hok
        · rename_i s₂ htruncate
          cases hok
          have h₂ : s₂.SlotsInv := slotsInv_truncateOpened (by exact h) htruncate
          exact h₂

theorem slotsInv_openFileObject {found : Except Int FileId} (h : s.SlotsInv)
    (hok : s.openFileObject d p flags = .ok (found, s')) : s'.SlotsInv := by
  rw [openFileObject] at hok
  split at hok
  · cases hok
  · rename_i hlookup
    exact slotsInv_openInode (h.lookup hlookup) hok
  · rename_i hlookup
    have h₁ := h.lookup hlookup
    split at hok
    · cases hok
      exact h₁
    · split at hok
      · cases hok
      · rename_i hcreate
        exact slotsInv_openInode (h₁.createFileObject hcreate) hok
      · rename_i hcreate
        cases hok
        exact h₁.createFileObject hcreate

theorem slotsInv_openSyscall {result : Int} (h : s.SlotsInv)
    (hok : s.openSyscall files d p flags = .ok (result, s', files')) : s'.SlotsInv := by
  rw [openSyscall] at hok
  split at hok
  · cases hok
    exact h
  · split at hok
    · cases hok
    · rename_i hopen
      cases hok
      exact slotsInv_openFileObject h hopen
    · rename_i hopen
      cases hok
      exact slotsInv_openFileObject h hopen

theorem slotsInv_dup2Point {oldfd newfd result : Int} (h : s.SlotsInv)
    (hok : s.dup2Point files oldfd newfd = .ok (result, s', files')) : s'.SlotsInv := by
  rw [dup2Point] at hok
  split at hok
  · cases hok
    exact h
  · split at hok
    · cases hok
    · rename_i hincrement
      split at hok
      · cases hok
      · cases hok
        exact slotsInv_filesIncrementCount h hincrement

theorem slotsInv_dup2Syscall {oldfd newfd result : Int} {beyond : Int → Bool} (h : s.SlotsInv)
    (hok : s.dup2Syscall files beyond oldfd newfd = .ok (result, s', files')) : s'.SlotsInv := by
  rw [dup2Syscall] at hok
  split at hok
  · split at hok
    · cases hok
      exact h
    · split at hok
      · cases hok
      · rename_i hfree
        exact slotsInv_dup2Point (slotsInv_fileObjectFree h hfree) hok
  · exact slotsInv_dup2Point h hok

theorem slotsInv_fileSpecial {which : FileId} (h : s.SlotsInv) (hok : s.fileSpecial which = .ok s') :
    s'.SlotsInv := by
  rw [fileSpecial, inodeAllocate_eq] at hok
  cases hfree : s.freeInode with
  | none =>
      rw [hfree] at hok
      cases hok
  | some i =>
      simp only [hfree, Option.map_some] at hok
      cases hok
      exact Vfs.SlotsInv.setInode (h.setInode (slotOk_of_count Nat.one_ne_zero))
        (slotOk_of_count Nat.one_ne_zero)

theorem slotsInv_start (h : s.SlotsInv) (hok : s.start = .ok s') : s'.SlotsInv := by
  rw [start] at hok
  split at hok
  · cases hok
  · rename_i h₁
    have hs₁ := slotsInv_fileSpecial h h₁
    split at hok
    · cases hok
    · rename_i h₂
      exact slotsInv_fileSpecial (slotsInv_fileSpecial hs₁ h₂) hok

theorem slotsInv_closeSyscall {fd result : Int} (h : s.SlotsInv)
    (hok : s.closeSyscall files fd = .ok (result, s', files')) : s'.SlotsInv := by
  rw [closeSyscall] at hok
  split at hok
  · obtain ⟨s₁, hfree, heq⟩ := map_eq_ok.1 hok
    cases heq
    exact slotsInv_fileObjectFree h hfree
  · cases hok
  · cases hok
    exact h

end FileTables

section FileCalls

variable {δ : Type} {dev : Devices δ} {s s' : Vfs} {file file' : FileObject} {reply : IoReply}
  {c c' : δ}

theorem dos33fsWriteFile_sameFile {v v' : Dos33Volume} {inode inode' : Inode} {buf : List UInt8}
    {offset offset' : Nat} {result : Int}
    (h : dos33fsWriteFile v inode buf offset = .ok (result, v', inode', offset')) :
    inode.SameFile inode' := by
  have hgrown : ∀ {result : Int} {v₁ : Dos33Volume} {inode₁ : Inode},
      (if uint64 (offset + buf.length) > inode.size then
        dos33fsGrowFile v inode (uint64 (offset + buf.length)) else .ok (0, v, inode)) =
        .ok (result, v₁, inode₁) → inode.SameFile inode₁ := by
    intro result v₁ inode₁ hgrow
    split at hgrow
    · exact dos33fsGrowFile_sameFile hgrow
    · cases hgrow
      exact ⟨rfl, rfl, rfl⟩
  rw [dos33fsWriteFile] at h
  dsimp only at h
  generalize hgrow : (if uint64 (offset + buf.length) > inode.size then
    dos33fsGrowFile v inode (uint64 (offset + buf.length)) else .ok (0, v, inode)) = grown at h
  cases grown with
  | error e => cases h
  | ok q =>
      obtain ⟨result₁, v₁, inode₁⟩ := q
      have hsame := hgrown hgrow
      dsimp only at h
      split at h
      · cases h
        exact hsame
      · split at h
        · cases h
        · split at h
          · cases h
            exact hsame
          · cases h
            exact hsame

theorem fileOpsWrite_spec {inode inode' : Inode} {fs : FileSystems} {buf : List UInt8} {result : Int}
    {offset : Nat} (h : fileOpsWrite file inode s buf = .ok (result, inode', fs, offset)) :
    (∃ q, s.driver inode.sb = .ok q) ∧ inode.SameFile inode' ∧ SameMounts s.toFileSystems fs := by
  rw [fileOpsWrite] at h
  split at h
  · rename_i hdriver
    cases h
    exact ⟨⟨_, hdriver⟩, ⟨rfl, rfl, rfl⟩, SameMounts.refl _⟩
  · rename_i hdriver
    split at h
    · cases h
    · rename_i hwrite
      cases h
      exact ⟨⟨_, hdriver⟩, dos33fsWriteFile_sameFile hwrite, putVolume_sameMounts _ _ _ _ _⟩
  · cases h

namespace Vfs

theorem SlotsInv.readFileObject {count : Nat} (h : s.SlotsInv)
    (hok : readFileObject dev count file s c = .ok (reply, file', s', c')) : s'.SlotsInv := by
  rw [Vmwos.readFileObject] at hok
  split at hok
  · cases hok
    exact h
  · split at hok
    · cases hok
    · dsimp only at hok
      split at hok
      · split at hok
        · cases hok
        · split at hok
          · cases hok
          · cases hok
            exact h
      · split at hok
        · split at hok
          · cases hok
          · obtain ⟨q, -, heq⟩ := map_eq_ok.1 hok
            cases heq
            exact h
        · split at hok
          · obtain ⟨q, -, heq⟩ := map_eq_ok.1 hok
            cases heq
            exact h
          · split at hok
            · cases hok
              exact h
            · cases hok
              exact h

theorem SlotsInv.writeFileObject {buf : List UInt8} (h : s.SlotsInv)
    (hok : writeFileObject dev buf file s c = .ok (reply, file', s', c')) : s'.SlotsInv := by
  rw [Vmwos.writeFileObject] at hok
  split at hok
  · cases hok
    exact h
  · split at hok
    · cases hok
    · rename_i i _
      dsimp only at hok
      split at hok
      · split at hok
        · cases hok
        · split at hok
          · cases hok
          · cases hok
            exact ⟨h.slots, h.roots⟩
      · split at hok
        · split at hok
          · cases hok
          · obtain ⟨q, -, heq⟩ := map_eq_ok.1 hok
            cases heq
            exact h
        · split at hok
          · obtain ⟨⟨result, inode, fs, offset⟩, hwrite, heq⟩ := map_eq_ok.1 hok
            cases heq
            obtain ⟨⟨q, hdriver⟩, hsame, hmounts⟩ := fileOpsWrite_spec hwrite
            refine SlotsInv.withFileSystems (h.setInode (i := i) (slotOk_of_count ?_)) hmounts
            rw [hsame.2.2]
            exact h.inUse hdriver
          · split at hok
            · cases hok
              exact h
            · cases hok
              exact h

theorem SlotsInv.llseekFileObject {offset whence : Int} (h : s.SlotsInv)
    (hok : llseekFileObject offset whence file s c = .ok (reply, file', s', c')) : s'.SlotsInv := by
  rw [Vmwos.llseekFileObject] at hok
  split at hok
  · cases hok
  · dsimp only at hok
    split at hok
    · cases hok
      exact h
    · split at hok
      · cases hok
        exact h
      · split at hok
        · split at hok
          · cases hok
          · cases hok
            exact h
        · split at hok
          · cases hok
            exact h
          · cases hok
            exact h

theorem SlotsInv.fcntlFileObject {cmd : Int} {third : Nat} (h : s.SlotsInv)
    (hok : fcntlFileObject cmd third file s c = .ok (reply, file', s', c')) : s'.SlotsInv := by
  rw [Vmwos.fcntlFileObject] at hok
  split at hok
  · simp only [Except.ok.injEq, Prod.mk.injEq] at hok
    obtain ⟨-, -, rfl, -⟩ := hok
    exact h
  · split at hok
    · cases hok
      exact h
    · cases hok
      exact h

theorem SlotsInv.ioctlFileObject {cmd : Int} {third fourth : Nat} (h : s.SlotsInv)
    (hok : ioctlFileObject dev cmd third fourth file s c = .ok (reply, file', s', c')) :
    s'.SlotsInv := by
  rw [Vmwos.ioctlFileObject] at hok
  split at hok
  · cases hok
  · dsimp only at hok
    split at hok
    · split at hok
      · cases hok
      · split at hok
        · cases hok
        · cases hok
          exact h
    · split at hok
      · split at hok
        · cases hok
          exact h
        · split at hok
          · cases hok
          · obtain ⟨q, -, heq⟩ := map_eq_ok.1 hok
            cases heq
            exact h
      · cases hok
        exact h

theorem SlotsInv.ftruncateFileObject {size : Nat} (h : s.SlotsInv)
    (hok : ftruncateFileObject size file s c = .ok (reply, file', s', c')) : s'.SlotsInv := by
  rw [Vmwos.ftruncateFileObject] at hok
  split at hok
  · cases hok
    exact h
  · split at hok
    · cases hok
    · obtain ⟨⟨result, s₁⟩, hcut, heq⟩ := map_eq_ok.1 hok
      cases heq
      exact h.truncateInode hcut

theorem SlotsInv.getdentsFileObject {count : Nat} (h : s.SlotsInv)
    (hok : getdentsFileObject count file s c = .ok (reply, file', s', c')) : s'.SlotsInv := by
  rw [Vmwos.getdentsFileObject] at hok
  split at hok
  · cases hok
  · obtain ⟨q, -, heq⟩ := map_eq_ok.1 hok
    cases heq
    exact h

end Vfs

end FileCalls

/-! ## `mount` -/

section Mount

variable {s s' : FileSystems} {c : MountCall} {r : Int}

/-- Every root is as `RootOk` says. -/
def FileSystems.RootsOk (s : FileSystems) : Prop := ∀ k, (s.superblockTable k).RootOk

theorem FileSystems.RootsOk.setSuperblock {i : Fin maxMounts} {sb : Superblock} (h : s.RootsOk)
    (hsb : sb.RootOk) : (s.setSuperblock i sb).RootsOk := by
  intro k
  by_cases hk : k = i
  · subst hk
    simp only [FileSystems.setSuperblock, Function.update_self]
    exact hsb
  · simp only [FileSystems.setSuperblock, Function.update_of_ne hk]
    exact h k

theorem rootOk_romfsMount {i : Fin maxMounts} {block : Fin blockDevMax} (h : s.RootsOk)
    (hok : romfsMount s i block = .ok (r, s')) : s'.RootsOk := by
  rw [romfsMount] at hok
  dsimp only at hok
  split at hok
  · cases hok
  · split at hok
    · cases hok
    · cases hok
      exact h.setSuperblock (h i)
    · cases hok
      exact h.setSuperblock fun hops => by cases hops

theorem inodeEntry_root (track sector : UInt8) :
    inodeEntry (inodeNumber track.toNat sector.toNat 0xff) = 0xff := by
  rw [inodeEntry, inodeNumber_eq (UInt8.toNat_lt sector) (by decide), and_ff]
  omega

theorem rootOk_dos33fsMountAt {i : Fin maxMounts} {block : Fin blockDevMax} (h : s.RootsOk)
    (hok : dos33fsMountAt s i block = .ok (r, s')) : s'.RootsOk := by
  rw [dos33fsMountAt] at hok
  dsimp only at hok
  split at hok
  · cases hok
    exact h.setSuperblock (h i)
  · rename_i sb hsb
    split at hok
    · cases hok
    · cases hok
      -- the root is numbered by the catalog pointer of the VTOC
      have hroot : inodeEntry sb.rootDir = 0xff := by
        rw [dos33fsMount] at hsb
        split at hsb
        · cases hsb
        · simp only [FileSystems.mounts, List.nil_append, List.head?_cons, Option.some.injEq] at hsb
          rw [← hsb]
          exact inodeEntry_root _ _
      exact h.setSuperblock fun _ => hroot

theorem rootOk_mountSyscall {source target filesystemtype : CString} (h : s.RootsOk)
    (hok : mountSyscall s source target filesystemtype = .ok (r, s')) : s'.RootsOk := by
  have hmountpoint : ∀ {s : FileSystems} {i : Fin maxMounts}, s.RootsOk →
      (setMountpoint s i target).RootsOk := fun h => h.setSuperblock (h _)
  rw [mountSyscall] at hok
  split at hok
  · cases hok
    exact h
  · rename_i i table halloc
    obtain ⟨j, -, hj⟩ := Option.map_eq_some_iff.1 halloc
    cases hj
    -- taking a slot changes no root
    have htable : (s.setSuperblock i { s.superblockTable i with valid := true }).RootsOk :=
      h.setSuperblock (h i)
    dsimp only at hok
    split at hok
    · cases hok
      exact htable
    · split at hok
      · split at hok
        · cases hok
        · rename_i hromfs
          have hmounted := rootOk_romfsMount htable hromfs
          split at hok
          · cases hok
            exact hmounted
          · cases hok
            exact hmountpoint hmounted
      · split at hok
        · split at hok
          · cases hok
          · rename_i hdos33
            have hmounted := rootOk_dos33fsMountAt htable hdos33
            split at hok
            · cases hok
              exact hmounted
            · cases hok
              exact hmountpoint hmounted
        · cases hok
          exact hmountpoint htable

end Mount

/-! ## Runs -/

namespace FileUse

variable {δ : Type} {dev : Devices δ} {s s' : FileUse δ} {p : ProcId} {reply : IoReply}

theorem slotsInv_onFile {t t' : OpenFiles δ} {f : FileId} {call : FileCall δ}
    (hcall : ∀ {file file' : FileObject} {v v' : Vfs} {c c' : δ}, v.SlotsInv →
      call file v c = .ok (reply, file', v', c') → v'.SlotsInv)
    (h : t.SlotsInv) (hok : t.onFile f call = .ok (reply, t')) : t'.SlotsInv := by
  rw [OpenFiles.onFile] at hok
  obtain ⟨⟨reply', file, vfs, c⟩, hok', heq⟩ := map_eq_ok.1 hok
  simp only [Prod.mk.injEq] at heq
  obtain ⟨rfl, rfl⟩ := heq
  exact hcall h hok'

theorem slotsInv_onFd {t t' : OpenFiles δ} {files : FdTable} {fd : Int} {call : FileCall δ}
    (hcall : ∀ {file file' : FileObject} {v v' : Vfs} {c c' : δ}, v.SlotsInv →
      call file v c = .ok (reply, file', v', c') → v'.SlotsInv)
    (h : t.SlotsInv) (hok : t.onFd files fd call = .ok (reply, t')) : t'.SlotsInv := by
  rw [OpenFiles.onFd] at hok
  split at hok
  · cases hok
    exact h
  · exact slotsInv_onFile hcall h hok

theorem slotsInv_ioCall {t t' : OpenFiles δ} {files files' : FdTable} {fd : Int} {call : IoCall}
    (h : t.SlotsInv) (hok : t.ioCall dev files fd call = .ok ((reply, files'), t')) :
    t'.SlotsInv := by
  cases call with
  | close =>
      obtain ⟨⟨result, tables, files₁⟩, hclose, heq⟩ := map_eq_ok.1 hok
      cases heq
      exact FileTables.slotsInv_closeSyscall h hclose
  | getdents count =>
      obtain ⟨⟨reply', t₁⟩, hcall, heq⟩ := map_eq_ok.1 hok
      cases heq
      rw [OpenFiles.getdentsSyscall] at hcall
      split at hcall
      · cases hcall
        exact h
      · split at hcall
        · cases hcall
          exact h
        · exact slotsInv_onFile (fun h hok => h.getdentsFileObject hok) h hcall
  | read count =>
      obtain ⟨⟨reply', t₁⟩, hcall, heq⟩ := map_eq_ok.1 hok
      cases heq
      exact slotsInv_onFd (fun h hok => h.readFileObject hok) h hcall
  | write buf =>
      obtain ⟨⟨reply', t₁⟩, hcall, heq⟩ := map_eq_ok.1 hok
      cases heq
      exact slotsInv_onFd (fun h hok => h.writeFileObject hok) h hcall
  | llseek offset whence =>
      obtain ⟨⟨reply', t₁⟩, hcall, heq⟩ := map_eq_ok.1 hok
      cases heq
      exact slotsInv_onFd (fun h hok => h.llseekFileObject hok) h hcall
  | fcntl cmd third =>
      obtain ⟨⟨reply', t₁⟩, hcall, heq⟩ := map_eq_ok.1 hok
      cases heq
      exact slotsInv_onFd (fun h hok => h.fcntlFileObject hok) h hcall
  | ioctl cmd third fourth =>
      obtain ⟨⟨reply', t₁⟩, hcall, heq⟩ := map_eq_ok.1 hok
      cases heq
      exact slotsInv_onFd (fun h hok => h.ioctlFileObject hok) h hcall
  | ftruncate64 size =>
      obtain ⟨⟨reply', t₁⟩, hcall, heq⟩ := map_eq_ok.1 hok
      cases heq
      exact slotsInv_onFd (fun h hok => h.ftruncateFileObject hok) h hcall

/-- The calls that change descriptors. -/
theorem slotsInv_step {op : ProcId × FdOp} (h : s.openFiles.SlotsInv)
    (hok : step dev s op = .ok (reply, s')) : s'.openFiles.SlotsInv := by
  obtain ⟨p, op⟩ := op
  cases op with
  | openFile pathname flags =>
      obtain ⟨⟨result, tables, files⟩, hopen, heq⟩ := map_eq_ok.1 hok
      cases heq
      exact FileTables.slotsInv_openSyscall h hopen
  | dup2 oldfd newfd beyond =>
      obtain ⟨⟨result, tables, files⟩, hdup2, heq⟩ := map_eq_ok.1 hok
      cases heq
      exact FileTables.slotsInv_dup2Syscall h hdup2
  | vfork =>
      have hvfork : s.vfork p = .ok (reply, s') := hok
      rw [vfork] at hvfork
      split at hvfork
      · cases hvfork
      · obtain ⟨tables, heach, heq⟩ := map_eq_ok.1 hvfork
        cases heq
        exact FileTables.slotsInv_eachFile FileTables.slotsInv_filesIncrementCount h heach
      · cases hvfork
        exact h
  | destroy proc =>
      have hdestroy : s.processDestroy proc = .ok (reply, s') := hok
      rw [processDestroy] at hdestroy
      split at hdestroy
      · cases hdestroy
      · obtain ⟨tables, heach, heq⟩ := map_eq_ok.1 hdestroy
        cases heq
        exact FileTables.slotsInv_eachFile FileTables.slotsInv_fileObjectFree h heach
  | io fd call =>
      obtain ⟨⟨⟨reply', files⟩, openFiles⟩, hio, heq⟩ := map_eq_ok.1 hok
      cases heq
      exact slotsInv_ioCall h hio

/-- Every call. -/
theorem slotsInv_fsStep {op : FsOp} (h : s.openFiles.SlotsInv)
    (hok : fsStep dev s op = .ok (reply, s')) : s'.openFiles.SlotsInv := by
  cases op with
  | mount call =>
      obtain ⟨⟨result, fs⟩, hmount, heq⟩ := map_eq_ok.1 hok
      cases heq
      exact ⟨h.slots, rootOk_mountSyscall h.roots hmount⟩
  | stat p pathname =>
      obtain ⟨⟨⟨result, buf⟩, vfs⟩, hstat, heq⟩ := map_eq_ok.1 hok
      cases heq
      exact h.statSyscall hstat
  | chmod p pathname mode =>
      obtain ⟨⟨result, vfs⟩, hchmod, heq⟩ := map_eq_ok.1 hok
      cases heq
      exact h.chmodSyscall hchmod
  | truncate64 p pathname size =>
      obtain ⟨⟨result, vfs⟩, hcut, heq⟩ := map_eq_ok.1 hok
      cases heq
      exact h.truncate64Syscall hcut
  | unlink p pathname =>
      obtain ⟨⟨result, vfs⟩, hunlink, heq⟩ := map_eq_ok.1 hok
      cases heq
      exact h.unlinkSyscall hunlink
  | chdir p path =>
      obtain ⟨⟨result, vfs, dir⟩, hchdir, heq⟩ := map_eq_ok.1 hok
      cases heq
      exact h.chdirSyscall hchdir
  | descriptors p op => exact slotsInv_step h hok

/-- The state in which init starts. -/
theorem slotsInv_start {stack text : Nat} {image : Image}
    {blockDevs : Fin blockDevMax → BlockDev} {disk : Nat → Disk} {chars : δ}
    (hok : start stack text image (FileSystems.boot blockDevs disk) chars = .ok s) :
    s.openFiles.SlotsInv := by
  obtain ⟨tables, htables, heq⟩ := map_eq_ok.1 hok
  cases heq
  have hboot : (FileTables.boot (FileSystems.boot blockDevs disk)).SlotsInv :=
    ⟨fun _ => slotOk_zeroed, fun _ hops => by cases hops⟩
  exact FileTables.slotsInv_start hboot htables

/-- The calls lead to no other states. -/
theorem slotsInv_run {stack text : Nat} {image : Image}
    {blockDevs : Fin blockDevMax → BlockDev} {disk : Nat → Disk} {chars : δ} {ops : List FsOp}
    {replies : List IoReply} {s₀ : FileUse δ}
    (hstart : start stack text image (FileSystems.boot blockDevs disk) chars = .ok s₀)
    (hrun : run (fsStep dev) s₀ ops = .ok (replies, s)) : s.openFiles.SlotsInv :=
  run_preserves (P := fun _ _ => True) (fun s => s.openFiles.SlotsInv)
    (fun _ _ _ _ h _ hok => slotsInv_fsStep h hok) (slotsInv_start hstart)
    (along_of_forall (fun _ _ => trivial) _ _) hrun

end FileUse

end Vmwos
