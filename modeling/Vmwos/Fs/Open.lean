import Vmwos.Fs.Files

/-!
# Opening files

`open_syscall` of `files.c`. A path that is not found is created when `O_CREAT` is set:
`create_file_object` expands the path a second time, into a buffer of `MAX_FILENAME_SIZE` bytes,
splits it at its last slash and looks the first part up.

An absolute path is copied with `strncpy`, which clears the buffer up to the length it is given,
and that is `MAX_PATH_LEN`: the call writes behind `full_path` whatever the path is.
-/

set_option autoImplicit false

namespace Vmwos

open Library

/-- `O_CREAT` -/
abbrev oCreat : Nat := 0x0040
/-- `O_TRUNC` -/
abbrev oTrunc : Nat := 0x0200
/-- `O_APPEND` -/
abbrev oAppend : Nat := 0x0400

/-- The loop of `split_pathname`, from position `ptr` down. -/
def splitPathnameLoop (fullpath : CString) : Nat → CString × Option CString
  | 0 => (fullpath, none)
  | ptr + 1 =>
      if fullpath[ptr + 1]? = some 0x2f then
        (fullpath.take (ptr + 1), some (fullpath.drop (ptr + 2)))
      else splitPathnameLoop fullpath ptr

/-- `split_pathname`: what is before the last slash and what follows it, or the path and NULL when
there is no slash behind the first character. -/
def splitPathname (fullpath : CString) : CString × Option CString :=
  splitPathnameLoop fullpath fullpath.length

/-- The path as `full_path` of `create_file_object` holds it. -/
def createPath (currentDir pathname : CString) : Except Stuck CString :=
  if pathname.head? = some 0x2f then .error .badAccess
  else if (currentDir ++ 0x2f :: pathname).length ≥ maxFilenameSize then .error .badAccess
  else .ok (currentDir ++ 0x2f :: pathname)

namespace Vfs

/-- Change an inode and what the file systems hold. -/
def putInode (s : Vfs) (i : InodeId) (inode : Inode) (fs : FileSystems) : Vfs :=
  { s.setInode i inode with toFileSystems := fs }

/-- The end of `create_file_object`, from `link_inode` on. -/
def linkNew (s : Vfs) (dir i : InodeId) (filename : CString) :
    Except Stuck ((Int × Option InodeId) × Vfs) :=
  match s.linkInode (s.inodes dir).sb (s.inodes i) filename with
  | .error e => .error e
  | .ok (result, inode, fs) =>
      let s := s.putInode i inode fs
      if result < 0 then .ok ((result, none), s)
      else (s.inodeFree dir).map fun (_, s) => ((0, some i), s)

/-- `create_file_object` once the directory has been looked up. -/
def createIn (s : Vfs) (dir : InodeId) (filename : Option CString) :
    Except Stuck ((Int × Option InodeId) × Vfs) :=
  match s.inodeAllocate with
  | none => .ok ((-enomem, none), s)
  | some (i, s) =>
      match s.makeInode (s.inodes dir) (s.inodes i) with
      | .error e => .error e
      | .ok (result, inode, fs) =>
          let s := s.putInode i inode fs
          if result < 0 then .ok ((result, none), s)
          else
            match filename with
            | none => .error .badAccess
            | some filename => s.linkNew dir i filename

/-- `create_file_object`: the result, the new inode unless the result is an error, and the
state. -/
def createFileObject (s : Vfs) (currentDir pathname : CString) :
    Except Stuck ((Int × Option InodeId) × Vfs) :=
  match createPath currentDir pathname with
  | .error e => .error e
  | .ok fullPath =>
      match s.inodeLookupAndAlloc currentDir (splitPathname fullPath).1 with
      | .error e => .error e
      | .ok ((result, none), s) => .ok ((result, none), s)
      | .ok ((_, some dir), s) => s.createIn dir (splitPathname fullPath).2

end Vfs

/-- The operations that `setup_fileops` of a file system sets. -/
def FileSystems.Driver.fsType : FileSystems.Driver → FsType
  | .romfs _ => .romfs
  | .dos33fs _ _ => .dos33fs

namespace FileTables

/-- `inode->sb->sb_ops.truncate_inode(inode,0)` of `open_file_object`, if `O_TRUNC` is set. -/
def truncateOpened (s : FileTables) (f : FileId) (i : InodeId) (flags : Nat) :
    Except Stuck FileTables :=
  if flags &&& oTrunc = 0 then .ok s
  else
    match s.toFileSystems.truncateInode (s.inodes i) 0 with
    | .error e => .error e
    | .ok (_, inode, fs) =>
        .ok ((s.setVfs (s.putInode i inode fs)).setFile f { s.fileObjects f with fileOffset := 0 })

/-- The end of `open_file_object`, for the inode that has been found or made. -/
def openInode (s : FileTables) (i : InodeId) (flags : Nat) :
    Except Stuck (Except Int FileId × FileTables) :=
  match s.fileObjectAllocate i with
  | none => .ok (.error (-enfile), s)
  | some (f, s) =>
      match s.driver (s.inodes i).sb with
      | .error e => .error e
      | .ok (_, driver) =>
          let s := s.setFile f
            { s.fileObjects f with flags := flags, fileOps := some driver.fsType }
          match s.truncateOpened f i flags with
          | .error e => .error e
          | .ok s =>
              let file := s.fileObjects f
              let offset := if flags &&& oAppend = 0 then file.fileOffset else (s.inodes i).size
              .ok (.ok f, s.setFile f { file with fileOffset := offset })

/-- `open_file_object`: the file object or the error. The mode is not used. -/
def openFileObject (s : FileTables) (currentDir pathname : CString) (flags : Nat) :
    Except Stuck (Except Int FileId × FileTables) :=
  match s.inodeLookupAndAlloc currentDir pathname with
  | .error e => .error e
  | .ok ((_, some i), vfs) => (s.setVfs vfs).openInode i flags
  | .ok ((_, none), vfs) =>
      if flags &&& oCreat = 0 then .ok (.error (-enoent), s.setVfs vfs)
      else
        match vfs.createFileObject currentDir pathname with
        | .error e => .error e
        | .ok ((_, some i), vfs) => (s.setVfs vfs).openInode i flags
        | .ok ((result, none), vfs) => .ok (.error result, s.setVfs vfs)

/-- The descriptor that `open_syscall` takes. -/
def freeFd (files : FdTable) : Option (Fin maxFdPerProc) :=
  (List.finRange maxFdPerProc).find? fun i => (files i).isNone

/-- `open_syscall`: the descriptor or the error, the tables and the descriptors. -/
def openSyscall (s : FileTables) (files : FdTable) (currentDir pathname : CString) (flags : Nat) :
    Except Stuck (Int × FileTables × FdTable) :=
  match freeFd files with
  | none => .ok (-enfile, s, files)
  | some i =>
      match s.openFileObject currentDir pathname flags with
      | .error e => .error e
      | .ok (.error result, s) => .ok (result, s, files)
      | .ok (.ok f, s) => .ok (i.val, s, Function.update files i (some f))

end FileTables

end Vmwos
