import Vmwos.Fs.Inodes
import Vmwos.Processes.Process

/-!
# Open files and descriptors

The table of the open files of `files.c`, and the calls that open, close and duplicate the
descriptors of a process. A descriptor is an index into the table of its process, which points to
the file object; the file object points to the inode. Both keep a count.

The numbers of descriptors are integers: `map_fd_to_file` takes a `uint32_t`, so a negative number
is a large one and gets the same error.
-/

set_option autoImplicit false

namespace Vmwos

open Library

/-- `O_RDONLY` -/
abbrev oRdonly : Nat := 0x0000
/-- `O_WRONLY` -/
abbrev oWronly : Nat := 0x0001
/-- `CONSOLE_MAJOR` -/
abbrev consoleMajor : Nat := 1

/-- A pointer to a slot of `file_objects`. -/
abbrev FileId := Fin maxOpenFiles

/-- The descriptors of a process. -/
abbrev FdTable := Fin maxFdPerProc → Option FileId

/-- `struct file_object`, without the name that nothing sets. The operations are those of a file
system, or NULL. -/
structure FileObject where
  fileOffset : Nat
  fileOps : Option FsType
  inode : Option InodeId
  count : Nat
  flags : Nat
  deriving DecidableEq, Repr

/-- A slot that has never been used. -/
def FileObject.zeroed : FileObject := ⟨0, none, none, 0, 0⟩

/-- The file systems, the inodes and the open files. -/
structure FileTables extends Vfs where
  fileObjects : FileId → FileObject

namespace FileTables

/-- Nothing is open. -/
def boot (fs : FileSystems) : FileTables where
  toFileSystems := fs
  inodes := fun _ => Inode.zeroed
  fileObjects := fun _ => FileObject.zeroed

end FileTables

/-- No file system is mounted. -/
def noFileSystems : FileSystems := FileSystems.boot (fun _ => ⟨[], false⟩) fun _ _ _ => 0

/-- The table of `init` as `start_userspace` fills it. -/
def initFiles : FdTable := fun fd =>
  if fd.val < 3 then some (fd.castLE maxFdPerProc_le_maxOpenFiles) else none

/-- The slot of a descriptor within the table. -/
def fdIndex (fd : Int) : Option (Fin maxFdPerProc) :=
  if h : 0 ≤ fd ∧ fd < 8 then some ⟨fd.toNat, (Int.toNat_lt h.1).2 h.2⟩ else none

namespace FileTables

/-- Change one file object. -/
def setFile (s : FileTables) (f : FileId) (file : FileObject) : FileTables :=
  { s with fileObjects := Function.update s.fileObjects f file }

/-- Change the inodes or the file systems. -/
def setVfs (s : FileTables) (vfs : Vfs) : FileTables := { s with toVfs := vfs }

/-- `files_increment_count`. A file object without an inode is not checked for. -/
def filesIncrementCount (s : FileTables) (f : FileId) : Except Stuck FileTables :=
  let file := s.fileObjects f
  match file.inode with
  | none => .error .badAccess
  | some i =>
      let inode := { s.inodes i with count := (s.inodes i).count + 1 }
      .ok ((s.setFile f { file with count := file.count + 1 }).setVfs (s.setInode i inode))

/-- `file_object_free` -/
def fileObjectFree (s : FileTables) (f : FileId) : Except Stuck FileTables :=
  let file := s.fileObjects f
  let s := s.setFile f { file with count := file.count - 1 }
  match file.inode with
  | none => .ok s
  | some i => (s.inodeFree i).map fun (_, vfs) => s.setVfs vfs

/-- `file_object_allocate` -/
def fileObjectAllocate (s : FileTables) (inode : InodeId) : Option (FileId × FileTables) :=
  ((List.finRange maxOpenFiles).find? fun f => (s.fileObjects f).count = 0).map fun f =>
    (f, s.setFile f
      { s.fileObjects f with count := 1, inode := some inode, fileOffset := 0 })

/-- `file_special`: the file object and the inode of one of the descriptors of the console. That
there is an inode left is not checked. -/
def fileSpecial (s : FileTables) (which : FileId) : Except Stuck FileTables :=
  match s.inodeAllocate with
  | none => .error .badAccess
  | some (i, vfs) =>
      let inode := { vfs.inodes i with
        number := which, count := 1, hardLinks := 1, uid := 0, gid := 0
        device := consoleMajor <<< 16, mode := sIfchr ||| 0o666 }
      let file := { s.fileObjects which with count := 1, inode := some i }
      let file :=
        if which = 0 then { file with flags := oRdonly }
        else if which = 1 ∨ which = 2 then { file with flags := oWronly }
        else file
      .ok ((s.setFile which file).setVfs (vfs.setInode i inode))

/-- The descriptors of the console that `start_userspace` sets up. -/
def start (s : FileTables) : Except Stuck FileTables :=
  match s.fileSpecial 0 with
  | .error e => .error e
  | .ok s =>
      match s.fileSpecial 1 with
      | .error e => .error e
      | .ok s => s.fileSpecial 2

/-- `map_fd_to_file`: the file object, or the error. -/
def mapFdToFile (s : FileTables) (files : FdTable) (fd : Int) : Except Int FileId :=
  match fdIndex fd with
  | none => .error (-enfile)
  | some i =>
      match files i with
      | none => .error (-enfile)
      | some f => if (s.fileObjects f).count = 0 then .error (-ebadf) else .ok f

/-- `close_syscall` -/
def closeSyscall (s : FileTables) (files : FdTable) (fd : Int) :
    Except Stuck (Int × FileTables × FdTable) :=
  match fdIndex fd, s.mapFdToFile files fd with
  | some i, .ok f => (s.fileObjectFree f).map fun s => (0, s, Function.update files i none)
  | none, .ok _ => .error .badAccess
  | _, .error result => .ok (result, s, files)

/-- The word `files[fd]` is not NULL. Outside the table that is what else is in memory there. -/
def fdUsed (files : FdTable) (beyond : Int → Bool) (fd : Int) : Bool :=
  match fdIndex fd with
  | none => beyond fd
  | some i => (files i).isSome

/-- The end of `dup2_syscall`: `files[newfd]` is pointed to the file of `oldfd`, also where it is
no word of the table. -/
def dup2Point (s : FileTables) (files : FdTable) (oldfd newfd : Int) :
    Except Stuck (Int × FileTables × FdTable) :=
  match s.mapFdToFile files oldfd with
  | .error result => .ok (result, s, files)
  | .ok file =>
      match s.filesIncrementCount file with
      | .error e => .error e
      | .ok s =>
          match fdIndex newfd with
          | none => .error .badAccess
          | some i => .ok (0, s, Function.update files i (some file))

/-- `dup2_syscall`: the result, the tables and the descriptors. What is at `newfd` is closed
before `oldfd` is looked at. -/
def dup2Syscall (s : FileTables) (files : FdTable) (beyond : Int → Bool) (oldfd newfd : Int) :
    Except Stuck (Int × FileTables × FdTable) :=
  if fdUsed files beyond newfd then
    match s.mapFdToFile files newfd with
    | .error result => .ok (result, s, files)
    | .ok file =>
        match s.fileObjectFree file with
        | .error e => .error e
        | .ok s => s.dup2Point files oldfd newfd
  else s.dup2Point files oldfd newfd

end FileTables

/-! ## What the steps do -/

section Steps

theorem fdIndex_eq_some {fd : Int} {i : Fin maxFdPerProc} : fdIndex fd = some i ↔ fd = i.val := by
  rw [fdIndex]
  constructor
  · intro h
    split at h
    · rename_i hrange
      rw [← Option.some.inj h]
      exact (Int.toNat_of_nonneg hrange.1).symm
    · cases h
  · rintro rfl
    rw [dif_pos ⟨Int.natCast_nonneg _, Int.ofNat_lt.2 i.isLt⟩]
    rfl

variable {s s' : FileTables} {files : FdTable} {fd : Int} {f g : FileId} {i : InodeId}

theorem mapFdToFile_eq_ok : s.mapFdToFile files fd = .ok f ↔
    ∃ i, fdIndex fd = some i ∧ files i = some f ∧ (s.fileObjects f).count ≠ 0 := by
  rw [FileTables.mapFdToFile]
  cases hi : fdIndex fd with
  | none => simp
  | some i =>
      cases hf : files i with
      | none => simp [hf]
      | some g =>
          by_cases hcount : (s.fileObjects g).count = 0
          · simp only [hf, if_pos hcount]
            constructor
            · intro h
              cases h
            · rintro ⟨j, hj, hfj, hne⟩
              cases hj
              rw [hf] at hfj
              cases hfj
              exact absurd hcount hne
          · simp only [hf, if_neg hcount]
            constructor
            · intro h
              cases h
              exact ⟨i, rfl, hf, hcount⟩
            · rintro ⟨j, hj, hfj, -⟩
              cases hj
              rw [hf] at hfj
              cases hfj
              rfl

/-- The errors of `map_fd_to_file` are negative. -/
theorem mapFdToFile_neg {result : Int} (h : s.mapFdToFile files fd = .error result) :
    result < 0 := by
  rw [FileTables.mapFdToFile] at h
  split at h
  · cases h
    decide
  · split at h
    · cases h
      decide
    · split at h
      · cases h
        decide
      · cases h

/-- The last reference to an inode without links can be given back. -/
def Releasable (s : FileTables) (f : FileId) : Prop :=
  ∀ i, (s.fileObjects f).inode = some i → (s.inodes i).count = 1 → (s.inodes i).hardLinks = 0 →
    ∃ fs, s.destroyInode { s.inodes i with count := 0 } = .ok fs

theorem fileObjectFree_returns : (∃ s', s.fileObjectFree f = .ok s') ↔ Releasable s f := by
  rw [FileTables.fileObjectFree, Releasable]
  cases hi : (s.fileObjects f).inode with
  | none => simp
  | some i =>
      have hfree := inodeFree_returns (s := s.toVfs) (i := i)
      constructor
      · rintro ⟨s', h⟩ j hj
        cases hj
        obtain ⟨⟨r, vfs⟩, hok, -⟩ := map_eq_ok.1 h
        exact hfree.1 ⟨r, vfs, hok⟩
      · intro h
        obtain ⟨r, vfs, hok⟩ := hfree.2 (h i rfl)
        exact ⟨_, map_eq_ok.2 ⟨(r, vfs), hok, rfl⟩⟩

theorem fileObjectFree_fileObjects (h : s.fileObjectFree f = .ok s') :
    s'.fileObjects = Function.update s.fileObjects f
      { s.fileObjects f with count := (s.fileObjects f).count - 1 } := by
  rw [FileTables.fileObjectFree] at h
  split at h
  · cases h
    rfl
  · obtain ⟨_, -, rfl⟩ := map_eq_ok.1 h
    rfl

theorem filesIncrementCount_of_inode (h : (s.fileObjects f).inode = some i) :
    s.filesIncrementCount f = .ok
      ((s.setFile f { s.fileObjects f with count := (s.fileObjects f).count + 1 }).setVfs
        (s.setInode i { s.inodes i with count := (s.inodes i).count + 1 })) := by
  simp only [FileTables.filesIncrementCount, h]

theorem filesIncrementCount_of_none (h : (s.fileObjects f).inode = none) :
    s.filesIncrementCount f = .error .badAccess := by
  rw [FileTables.filesIncrementCount, h]

end Steps

end Vmwos
