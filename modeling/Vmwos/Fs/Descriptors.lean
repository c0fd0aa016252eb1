import Vmwos.Fs.Files

/-!
# The calls that take a descriptor

`read_syscall`, `write_syscall`, `llseek_syscall`, `fcntl_syscall`, `ioctl_syscall`,
`ftruncate64_syscall`, `getdents_syscall` and `close_syscall`. All but `getdents_syscall` get their
file object from `map_fd_to_file`; what they do with it is a function of the file object, the file
systems and the devices (`FileCall`).

Block devices are ramdisks, whose contents are in `FileSystems.disk`. The character devices are
parameters: a driver gets the file object and changes a state of its own.
-/

set_option autoImplicit false

namespace Vmwos

open Library

/-- `O_RW_MASK` -/
abbrev oRwMask : Nat := 0x0003
/-- `CHAR_DEV_MAX` -/
abbrev charDevMax : Nat := 8
/-- `SEEK_SET` -/
abbrev seekSet : Int := 0
/-- `SEEK_CUR` -/
abbrev seekCur : Int := 1
/-- `SEEK_END` -/
abbrev seekEnd : Int := 2
/-- `F_GETFL` -/
abbrev fGetfl : Int := 3
/-- `F_SETFL` -/
abbrev fSetfl : Int := 4

/-- Conversion to `int64_t`. -/
def int64 (n : Int) : Int := (n + 9223372036854775808) % 18446744073709551616 - 9223372036854775808

/-! ## Devices -/

/-- `struct char_operations` of a driver with the state `δ`: the result, the bytes read and the
new state. -/
structure CharOps (δ : Type) where
  read : FileObject → (count : Nat) → δ → Except Stuck (Int × List UInt8 × δ)
  write : FileObject → (buf : List UInt8) → δ → Except Stuck (Int × δ)
  ioctl : FileObject → (cmd : Int) → (third fourth : Nat) → δ → Except Stuck (Int × δ)

/-- `struct char_dev_type` -/
structure CharDev (δ : Type) where
  major : Nat
  minor : Nat
  charOps : Option (CharOps δ)

/-- The numbers of a block device and its length in bytes. -/
structure Ramdisk where
  major : Nat
  minor : Nat
  length : Nat

/-- The tables of the devices. -/
structure Devices (δ : Type) where
  blockDevs : Fin blockDevMax → Ramdisk
  charDevs : Fin charDevMax → CharDev δ

namespace Devices

variable {δ : Type} (dev : Devices δ)

/-- `block_dev_lookup` -/
def blockDevLookup (devnum : Nat) : Option (Fin blockDevMax) :=
  (List.finRange blockDevMax).find? fun i =>
    (dev.blockDevs i).major = devnum >>> 16 ∧ (dev.blockDevs i).minor = devnum &&& 0xffff

/-- `char_dev_lookup` -/
def charDevLookup (devnum : Nat) : Option (CharDev δ) :=
  ((List.finRange charDevMax).find? fun i =>
    (dev.charDevs i).major = devnum >>> 16 ∧ (dev.charDevs i).minor = devnum &&& 0xffff).map
      dev.charDevs

end Devices

/-- `ramdisk_write`. The offset is not looked at, as in `ramdisk_read`. -/
def ramdiskWrite (d : Disk) (deviceLength offset : Nat) (src : List UInt8) : Int × Disk :=
  if src.length > deviceLength then (-erange, d)
  else (int32 src.length, fun n i =>
    let a := n * 256 + i
    if i < 256 ∧ offset ≤ a then (src[a - offset]?).getD (d n i) else d n i)

/-! ## What the calls do with a file object -/

/-- The result of a call and what it leaves in the buffer of its caller: bytes, or directory
entries. -/
structure IoReply where
  result : Int
  bytes : List UInt8
  dents : List Dirent
  deriving DecidableEq, Repr

/-- A reply without a buffer. -/
def IoReply.ofResult (result : Int) : IoReply := ⟨result, [], []⟩

/-- What a call does with its file object: the reply, the file object, the inodes with the file
systems, and the state of the character devices. -/
abbrev FileCall (δ : Type) : Type :=
  FileObject → Vfs → δ → Except Stuck (IoReply × FileObject × Vfs × δ)

section Calls

variable {δ : Type} (dev : Devices δ)

/-- `file_ops->read` -/
def fileOpsRead (file : FileObject) (inode : Inode) (s : Vfs) (count : Nat) :
    Except Stuck (Int × List UInt8 × Nat) :=
  match file.fileOps, s.driver inode.sb with
  | some .romfs, .ok (_, .romfs block) =>
      Romfs.readFile (s.disk block).image (dev.blockDevs block).length inode.number count
        file.fileOffset
  | some .dos33fs, .ok (_, .dos33fs block _) =>
      .ok (dos33fsReadFile (s.disk block) inode count file.fileOffset)
  | _, _ => .error .badAccess

/-- `file_ops->write`: the result, the inode, the file systems and the new offset. -/
def fileOpsWrite (file : FileObject) (inode : Inode) (s : Vfs) (buf : List UInt8) :
    Except Stuck (Int × Inode × FileSystems × Nat) :=
  match file.fileOps, s.driver inode.sb with
  | some .romfs, .ok (_, .romfs _) => .ok (-erofs, inode, s.toFileSystems, file.fileOffset)
  | some .dos33fs, .ok (k, .dos33fs block vtoc) =>
      match dos33fsWriteFile (s.volume k block vtoc) inode buf file.fileOffset with
      | .error e => .error e
      | .ok (result, v, inode, offset) => .ok (result, inode, s.putVolume k block vtoc v, offset)
  | _, _ => .error .badAccess

/-- `file_ops->getdents`: the result, the entries and the new offset. -/
def fileOpsGetdents (file : FileObject) (inode : Inode) (s : Vfs) (count : Nat) :
    Except Stuck (Int × List Dirent × Nat) :=
  match file.fileOps, s.driver inode.sb with
  | some .romfs, .ok (_, .romfs block) =>
      Romfs.getdents (s.disk block).image inode.number file.fileOffset count
  | some .dos33fs, .ok (_, .dos33fs block _) =>
      dos33fsGetdents (s.disk block) inode.number file.fileOffset count
  | _, _ => .error .badAccess

/-- `llseek_generic`: the result and the file object. -/
def llseekGeneric (file : FileObject) (offset whence : Int) : Int × FileObject :=
  if whence = seekSet then
    let file := { file with fileOffset := uint64OfInt offset }
    (int64 file.fileOffset, file)
  else if whence = seekCur then
    let file := { file with fileOffset := uint64OfInt (file.fileOffset + offset) }
    (int64 file.fileOffset, file)
  else if whence = seekEnd then (-enosys, file)
  else (-einval, file)

/-- `read_syscall` on its file object. -/
def readFileObject (count : Nat) : FileCall δ := fun file s d =>
  if file.flags &&& oRwMask = oWronly then .ok (.ofResult (-ebadf), file, s, d)
  else
    match file.inode with
    | none => .error .badAccess
    | some i =>
        let inode := s.inodes i
        let mode := inode.mode &&& sIfmt
        if mode = sIfblk then
          match dev.blockDevLookup inode.device with
          | none => .error .badAccess
          | some block =>
              if (s.blockDevs block).hasOps = false then .error .badAccess
              else
                let (result, bytes) := Romfs.ramdiskRead (s.disk block).image
                  (dev.blockDevs block).length (uint32 file.fileOffset) count
                let offset := if result ≥ 0 then uint64OfInt (file.fileOffset + result)
                  else file.fileOffset
                .ok (⟨result, bytes, []⟩, { file with fileOffset := offset }, s, d)
        else if mode = sIfchr then
          match (dev.charDevLookup inode.device).bind CharDev.charOps with
          | none => .error .badAccess
          | some ops =>
              (ops.read file count d).map fun (result, bytes, d) => (⟨result, bytes, []⟩, file, s, d)
        else if mode = sIfreg then
          (fileOpsRead dev file inode s count).map fun (result, bytes, offset) =>
            (⟨result, bytes, []⟩, { file with fileOffset := offset }, s, d)
        else if mode = sIfdir then .ok (.ofResult (-eisdir), file, s, d)
        else .ok (.ofResult (-einval), file, s, d)

/-- `write_syscall` on its file object. The offset of a block device stays where it is. -/
def writeFileObject (buf : List UInt8) : FileCall δ := fun file s d =>
  if file.flags &&& oRwMask = oRdonly then .ok (.ofResult (-ebadf), file, s, d)
  else
    match file.inode with
    | none => .error .badAccess
    | some i =>
        let inode := s.inodes i
        let mode := inode.mode &&& sIfmt
        if mode = sIfblk then
          match dev.blockDevLookup inode.device with
          | none => .error .badAccess
          | some block =>
              if (s.blockDevs block).hasOps = false then .error .badAccess
              else
                let (result, disk) := ramdiskWrite (s.disk block) (dev.blockDevs block).length
                  (uint32 file.fileOffset) buf
                .ok (.ofResult result, file,
                  { s with disk := Function.update s.disk block disk }, d)
        else if mode = sIfchr then
          match (dev.charDevLookup inode.device).bind CharDev.charOps with
          | none => .error .badAccess
          | some ops => (ops.write file buf d).map fun (result, d) => (.ofResult result, file, s, d)
        else if mode = sIfreg then
          (fileOpsWrite file inode s buf).map fun (result, inode, fs, offset) =>
            (.ofResult result, { file with fileOffset := offset },
              { s.setInode i inode with toFileSystems := fs }, d)
        else if mode = sIfdir then .ok (.ofResult (-eisdir), file, s, d)
        else .ok (.ofResult (-einval), file, s, d)

/-- `llseek_syscall` on its file object. -/
def llseekFileObject (offset whence : Int) : FileCall δ := fun file s d =>
  match file.inode with
  | none => .error .badAccess
  | some i =>
      let mode := (s.inodes i).mode &&& sIfmt
      if mode = sIfblk then
        let (result, file) := llseekGeneric file offset whence
        .ok (.ofResult result, file, s, d)
      else if mode = sIfchr then .ok (.ofResult 0, file, s, d)
      else if mode = sIfreg then
        match file.fileOps with
        | none => .error .badAccess
        | some _ =>
            let (result, file) := llseekGeneric file offset whence
            .ok (.ofResult result, file, s, d)
      else if mode = sIfdir then .ok (.ofResult (-eisdir), file, s, d)
      else .ok (.ofResult (-einval), file, s, d)

/-- `fcntl_syscall` on its file object. -/
def fcntlFileObject (cmd : Int) (third : Nat) : FileCall δ := fun file s d =>
  if cmd = fGetfl then .ok (.ofResult (int32 file.flags), file, s, d)
  else if cmd = fSetfl then .ok (.ofResult 0, { file with flags := third }, s, d)
  else .ok (.ofResult (-enosys), file, s, d)

/-- `ioctl_syscall` on its file object. -/
def ioctlFileObject (cmd : Int) (third fourth : Nat) : FileCall δ := fun file s d =>
  match file.inode with
  | none => .error .badAccess
  | some i =>
      let inode := s.inodes i
      let mode := inode.mode &&& sIfmt
      if mode = sIfblk then
        match dev.blockDevLookup inode.device with
        | none => .error .badAccess
        | some block =>
            if (s.blockDevs block).hasOps = false then .error .badAccess
            else .ok (.ofResult (-enotty), file, s, d)
      else if mode = sIfchr then
        match dev.charDevLookup inode.device with
        | none => .ok (.ofResult (-enotty), file, s, d)
        | some c =>
            match c.charOps with
            | none => .error .badAccess
            | some ops =>
                (ops.ioctl file cmd third fourth d).map fun (result, d) =>
                  (.ofResult result, file, s, d)
      else .ok (.ofResult (-enotty), file, s, d)

/-- `ftruncate64_syscall` on its file object. -/
def ftruncateFileObject (size : Nat) : FileCall δ := fun file s d =>
  if file.flags &&& oRwMask = oRdonly then .ok (.ofResult (-ebadf), file, s, d)
  else
    match file.inode with
    | none => .error .badAccess
    | some i => (s.truncateInode i size).map fun (result, s) => (.ofResult result, file, s, d)

/-- `getdents_syscall` on its file object. -/
def getdentsFileObject (count : Nat) : FileCall δ := fun file s d =>
  match file.inode with
  | none => .error .badAccess
  | some i =>
      (fileOpsGetdents file (s.inodes i) s count).map fun (result, dents, offset) =>
        (⟨result, [], dents⟩, { file with fileOffset := offset }, s, d)

end Calls

/-! ## The calls -/

/-- The open files and the state of the character devices. -/
structure OpenFiles (δ : Type) extends FileTables where
  chars : δ

/-- A file object by its number. -/
def fileIndex (fd : Int) : Option FileId :=
  if h : 0 ≤ fd ∧ fd < 64 then some ⟨fd.toNat, (Int.toNat_lt h.1).2 h.2⟩ else none

namespace OpenFiles

variable {δ : Type} (s : OpenFiles δ)

/-- A call on a file object. -/
def onFile (f : FileId) (call : FileCall δ) : Except Stuck (IoReply × OpenFiles δ) :=
  (call (s.fileObjects f) s.toVfs s.chars).map fun (reply, file, vfs, d) =>
    (reply, ⟨(s.setVfs vfs).setFile f file, d⟩)

/-- A call on the file object that `map_fd_to_file` finds. -/
def onFd (files : FdTable) (fd : Int) (call : FileCall δ) :
    Except Stuck (IoReply × OpenFiles δ) :=
  match s.mapFdToFile files fd with
  | .error result => .ok (.ofResult result, s)
  | .ok f => s.onFile f call

/-- `read_syscall` -/
def readSyscall (dev : Devices δ) (files : FdTable) (fd : Int) (count : Nat) :
    Except Stuck (IoReply × OpenFiles δ) :=
  s.onFd files fd (readFileObject dev count)

/-- `write_syscall` -/
def writeSyscall (dev : Devices δ) (files : FdTable) (fd : Int) (buf : List UInt8) :
    Except Stuck (IoReply × OpenFiles δ) :=
  s.onFd files fd (writeFileObject dev buf)

/-- `llseek_syscall` -/
def llseekSyscall (files : FdTable) (fd offset whence : Int) :
    Except Stuck (IoReply × OpenFiles δ) :=
  s.onFd files fd (llseekFileObject offset whence)

/-- `fcntl_syscall` -/
def fcntlSyscall (files : FdTable) (fd cmd : Int) (third : Nat) :
    Except Stuck (IoReply × OpenFiles δ) :=
  s.onFd files fd (fcntlFileObject cmd third)

/-- `ioctl_syscall` -/
def ioctlSyscall (dev : Devices δ) (files : FdTable) (fd cmd : Int) (third fourth : Nat) :
    Except Stuck (IoReply × OpenFiles δ) :=
  s.onFd files fd (ioctlFileObject dev cmd third fourth)

/-- `ftruncate64_syscall` -/
def ftruncate64Syscall (files : FdTable) (fd : Int) (size : Nat) :
    Except Stuck (IoReply × OpenFiles δ) :=
  s.onFd files fd (ftruncateFileObject size)

/-- `getdents_syscall`. The descriptor is the number of the file object. -/
def getdentsSyscall (fd : Int) (count : Nat) : Except Stuck (IoReply × OpenFiles δ) :=
  match fileIndex fd with
  | none => .ok (.ofResult (-enfile), s)
  | some f =>
      if (s.fileObjects f).count = 0 then .ok (.ofResult (-ebadf), s)
      else s.onFile f (getdentsFileObject count)

/-- A call on an open descriptor leaves the file object, the inodes and the file systems as the call
on its file object does. -/
theorem onFd_eq_ok {δ : Type} {s s' : OpenFiles δ} {files : FdTable} {fd : Int} {f : FileId}
    {call : FileCall δ} {reply : IoReply} (hf : s.mapFdToFile files fd = .ok f)
    (hok : s.onFd files fd call = .ok (reply, s')) :
    ∃ d', call (s.fileObjects f) s.toVfs s.chars = .ok (reply, s'.fileObjects f, s'.toVfs, d') := by
  rw [onFd, hf] at hok
  obtain ⟨⟨reply', file, vfs, d'⟩, hcall, heq⟩ := map_eq_ok.1 hok
  simp only [Prod.mk.injEq] at heq
  obtain ⟨rfl, rfl⟩ := heq
  have hfile : ((s.setVfs vfs).setFile f file).fileObjects f = file := Function.update_self _ _ _
  refine ⟨d', ?_⟩
  rw [hcall, hfile]
  rfl

end OpenFiles

/-- A call that takes a descriptor, with its other arguments. -/
inductive IoCall where
  | read (count : Nat)
  | write (buf : List UInt8)
  | llseek (offset whence : Int)
  | fcntl (cmd : Int) (third : Nat)
  | ioctl (cmd : Int) (third fourth : Nat)
  | ftruncate64 (size : Nat)
  | getdents (count : Nat)
  | close
  deriving DecidableEq, Repr

namespace OpenFiles

variable {δ : Type}

/-- A call of a process with the descriptors `files`: the reply and the descriptors, and the open
files. -/
def ioCall (dev : Devices δ) (s : OpenFiles δ) (files : FdTable) (fd : Int) (call : IoCall) :
    Except Stuck ((IoReply × FdTable) × OpenFiles δ) :=
  let same : IoReply × OpenFiles δ → (IoReply × FdTable) × OpenFiles δ := fun (reply, s) =>
    ((reply, files), s)
  match call with
  | .read count => (s.readSyscall dev files fd count).map same
  | .write buf => (s.writeSyscall dev files fd buf).map same
  | .llseek offset whence => (s.llseekSyscall files fd offset whence).map same
  | .fcntl cmd third => (s.fcntlSyscall files fd cmd third).map same
  | .ioctl cmd third fourth => (s.ioctlSyscall dev files fd cmd third fourth).map same
  | .ftruncate64 size => (s.ftruncate64Syscall files fd size).map same
  | .getdents count => (s.getdentsSyscall fd count).map same
  | .close => (s.closeSyscall files fd).map fun (result, tables, files) =>
      ((.ofResult result, files), { s with toFileTables := tables })

end OpenFiles

end Vmwos
