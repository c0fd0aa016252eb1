import Vmwos.Fs.Descriptors
import Vmwos.Fs.Dos33fs.Contents
import Vmwos.Fs.Romfs.Reading
import Vmwos.Fs.Open
import Vmwos.Fs.Lookups

/-!
# File offsets

Reading and writing through a descriptor of a block device, a ROMFS file or a DOS 3.3 file. The
offset is kept in three places: `read_syscall` moves it on for a block device, the file systems for
their files, and for writing to a block device nobody does. `InReach` says which calls keep within
what the code gets right; in a run of those, each call transfers exactly the bytes from the offset
on and moves it behind them, and chunks that have been written are read back
(`throughout_transfers`).
-/

set_option autoImplicit false

namespace Vmwos

open Library FileBytes

/-! ## The contents of what is open -/

section Contents

variable {δ : Type} (dev : Devices δ)

/-- The file object is open on a block device. Lengths and offsets are 32 and 64 bits wide. -/
structure OnBlock (file : FileObject) (s : Vfs) (i : InodeId) (block : Fin blockDevMax) : Prop where
  inode : file.inode = some i
  mode : (s.inodes i).mode &&& sIfmt = sIfblk
  device : dev.blockDevLookup (s.inodes i).device = some block
  length_lt : (dev.blockDevs block).length < 4294967296
  offset_lt : file.fileOffset < 18446744073709551616

/-- The file object is open on a regular file of a ROMFS image. -/
structure OnRomfs (file : FileObject) (s : Vfs) (i : InodeId) (block : Fin blockDevMax)
    (name : CString) (bytes : FileBytes) : Prop where
  inode : file.inode = some i
  mode : (s.inodes i).mode &&& sIfmt = sIfreg
  ops : file.fileOps = some .romfs
  driver : ∃ k, s.driver (s.inodes i).sb = .ok (k, .romfs block)
  file : Romfs.FileAt (s.disk block).image (dev.blockDevs block).length (s.inodes i).number name bytes

/-- The file object is open on a file of a DOS 3.3 volume. -/
structure OnDos33 (file : FileObject) (s : Vfs) (i : InodeId) (k : Fin maxMounts)
    (block : Fin blockDevMax) (vtoc root c e : Nat) : Prop where
  inode : file.inode = some i
  mode : (s.inodes i).mode &&& sIfmt = sIfreg
  ops : file.fileOps = some .dos33fs
  driver : s.driver (s.inodes i).sb = .ok (k, .dos33fs block vtoc)
  wf : WellFormed (s.volume k block vtoc) root
  file : IsFile (s.disk block) root c e
  names : Names (s.inodes i).number c e

/-- The bytes of what is open: those of the device, or of the file. -/
inductive Contents (file : FileObject) (s : Vfs) : FileBytes → Prop
  | block {i : InodeId} {block : Fin blockDevMax} (h : OnBlock dev file s i block) :
      Contents file s (Romfs.readNoinc (s.disk block).image 0 (dev.blockDevs block).length)
  | romfs {i : InodeId} {block : Fin blockDevMax} {name : CString} {bytes : FileBytes}
      (h : OnRomfs dev file s i block name bytes) : Contents file s bytes
  | dos33fs {i : InodeId} {k : Fin maxMounts} {block : Fin blockDevMax} {vtoc root c e : Nat}
      (h : OnDos33 file s i k block vtoc root c e) :
      Contents file s (fileContents (s.disk block) c e (s.inodes i))

end Contents

/-! ## The calls -/

/-- A call that moves the offset, or goes by it. A count is a register. -/
inductive OffsetCall where
  | read (count : UInt32)
  | write (buf : List UInt8)
  | llseek (offset whence : Int)
  deriving DecidableEq, Repr

namespace OffsetCall

variable {δ : Type} (dev : Devices δ)

/-- What the call does with its file object. -/
def fileCall : OffsetCall → FileCall δ
  | read count => readFileObject dev count.toNat
  | write buf => writeFileObject dev buf
  | llseek offset whence => llseekFileObject offset whence

/-- The system call on a descriptor. -/
def step (files : FdTable) (fd : Int) (s : OpenFiles δ) :
    OffsetCall → Except Stuck (IoReply × OpenFiles δ)
  | read count => s.readSyscall dev files fd count.toNat
  | write buf => s.writeSyscall dev files fd buf
  | llseek offset whence => s.llseekSyscall files fd offset whence

/-- What the call is to do that returns `r ≥ 0`: it transfers exactly the `r` bytes at the offset,
and moves the offset on by `r`. -/
def Transfers (before : FileBytes) (offset : Nat) (reply : IoReply) (after : FileBytes)
    (offset' : Nat) : OffsetCall → Prop
  | read _ => reply.bytes = before.read offset reply.result.toNat ∧
      (reply.bytes.length : Int) = reply.result ∧ after = before ∧
        offset' = offset + reply.result.toNat
  | write buf => reply.result ≤ buf.length ∧
      before.WrittenAt offset (buf.take reply.result.toNat) after ∧
        offset' = offset + reply.result.toNat
  | llseek _ _ => after = before

/-- In any file that the descriptor is open on. -/
def TransfersExactly (files : FdTable) (fd : Int) (s : OpenFiles δ) (call : OffsetCall)
    (reply : IoReply) (s' : OpenFiles δ) : Prop :=
  ∀ f before, s.mapFdToFile files fd = .ok f → Contents dev (s.fileObjects f) s.toVfs before →
    ∃ after, Contents dev (s'.fileObjects f) s'.toVfs after ∧
      (0 ≤ reply.result → call.Transfers before (s.fileObjects f).fileOffset reply after
        (s'.fileObjects f).fileOffset)

/-- Chunks that are written from the start on are read back when the offset has been set to the
start again. -/
def ReadsBack (files : FdTable) (fd : Int) (s : OpenFiles δ) (calls : List OffsetCall) : Prop :=
  ∀ f (chunks : List (List UInt8)) count rs s', s.mapFdToFile files fd = .ok f →
    (s.fileObjects f).fileOffset = 0 → count.toNat = chunks.flatten.length →
    calls = chunks.map write ++ [llseek 0 seekSet, read count] →
    run (step dev files fd) s calls = .ok (rs, s') → (∀ r ∈ rs, 0 ≤ r.result) →
    ∃ r, rs.getLast? = some r ∧ r.result = chunks.flatten.length ∧ r.bytes = chunks.flatten

/-- A read that the flags refuse, or one that stays in reach: on a block device it ends before the
end of the device; in a ROMFS file it starts before its end, or there; in a DOS 3.3 file it or the
file ends in the first T/S list. -/
def ReadInReach (file : FileObject) (s : Vfs) (count : Nat) : Prop :=
  file.flags &&& oRwMask = oWronly ∨
    ((∀ i block, OnBlock dev file s i block →
        count = 0 ∨ (dev.blockDevs block).length < count ∨ int32 count < 0 ∨
          file.fileOffset + count ≤ (dev.blockDevs block).length) ∧
      (∀ i block name bytes, OnRomfs dev file s i block name bytes →
        count = 0 ∨ file.fileOffset ≤ bytes.length) ∧
      ∀ i k block vtoc root c e, OnDos33 file s i k block vtoc root c e →
        (s.inodes i).size + 4 < 2147483648 ∧
          (endSector (s.disk block) c e (s.inodes i).size < 122 ∨
            file.fileOffset + headerLength (fileType (s.disk block) c e) + max 1 count ≤ 31232))

/-- A write that the flags refuse, or one that stays in reach: to a block device nothing is written
or an error returned; in a DOS 3.3 file the write ends in the first T/S list, and does not raise the
size of a program. -/
def WriteInReach (file : FileObject) (s : Vfs) (count : Nat) : Prop :=
  file.flags &&& oRwMask = oRdonly ∨
    ((∀ i block, OnBlock dev file s i block →
        count = 0 ∨ (dev.blockDevs block).length < count ∨ int32 count < 0) ∧
      ∀ i k block vtoc root c e, OnDos33 file s i k block vtoc root c e →
        file.fileOffset + headerLength (fileType (s.disk block) c e) + max 1 count ≤ 31232 ∧
          MayGrow (s.disk block) c e (s.inodes i).size (file.fileOffset + count))

/-- The call keeps within what the code gets right. -/
def FileInReach (file : FileObject) (s : Vfs) : OffsetCall → Prop
  | read count => ReadInReach dev file s count.toNat
  | write buf => WriteInReach dev file s buf.length
  | llseek _ _ => True

/-- The same for the file object of a descriptor. -/
def InReach (files : FdTable) (fd : Int) (s : OpenFiles δ) (call : OffsetCall) : Prop :=
  ∀ f, s.mapFdToFile files fd = .ok f → FileInReach dev (s.fileObjects f) s.toVfs call

/-- What a call in reach does that returns no error: a read takes all there is, and a write leaves
nothing over. -/
def Moves (before : FileBytes) (offset : Nat) (reply : IoReply) (after : FileBytes)
    (offset' : Nat) : OffsetCall → Prop
  | read count => reply.bytes = before.read offset count.toNat ∧
      reply.result = reply.bytes.length ∧ after = before ∧ offset' = offset + reply.bytes.length
  | write buf => reply.result = buf.length ∧ before.WrittenAt offset buf after ∧
      offset' = offset + buf.length
  | llseek offset whence => after = before ∧
      (whence = seekSet → offset' = uint64OfInt offset)

/-- So it transfers the bytes it is to. -/
theorem Moves.transfers {call : OffsetCall} {before after : FileBytes} {offset offset' : Nat}
    {reply : IoReply} (h : call.Moves before offset reply after offset') :
    call.Transfers before offset reply after offset' := by
  cases call with
  | read count =>
      obtain ⟨hbytes, hresult, hafter, hoffset⟩ := h
      rw [Transfers, hresult, Int.toNat_natCast]
      refine ⟨?_, rfl, hafter, hoffset⟩
      rw [hbytes, read_length_read]
  | write buf =>
      obtain ⟨hresult, hwritten, hoffset⟩ := h
      rw [Transfers, hresult, Int.toNat_natCast, List.take_length]
      exact ⟨Int.le_refl _, hwritten, hoffset⟩
  | llseek offset whence => exact h.1

end OffsetCall

/-! ## Reading -/

section Read

variable {δ : Type} {dev : Devices δ} {file file' : FileObject} {s s' : Vfs} {i : InodeId}
  {k : Fin maxMounts} {block : Fin blockDevMax} {vtoc root c e count : Nat} {name : CString}
  {bytes : FileBytes} {d d' : δ} {reply : IoReply}

/-- The flags refuse to read: nothing is changed. -/
theorem readFileObject_refused (hflags : file.flags &&& oRwMask = oWronly)
    (hok : readFileObject dev count file s d = .ok (reply, file', s', d')) :
    file' = file ∧ s' = s ∧ reply.result < 0 := by
  rw [readFileObject, if_pos hflags] at hok
  cases hok
  exact ⟨rfl, rfl, by decide⟩

theorem readFileObject_block (h : OnBlock dev file s i block)
    (hflags : file.flags &&& oRwMask ≠ oWronly)
    (hok : readFileObject dev count file s d = .ok (reply, file', s', d')) :
    ∃ result read, Romfs.ramdiskRead (s.disk block).image (dev.blockDevs block).length
        (uint32 file.fileOffset) count = (result, read) ∧ reply = ⟨result, read, []⟩ ∧ s' = s ∧
      file' = { file with fileOffset := if result ≥ 0 then uint64OfInt (file.fileOffset + result)
        else file.fileOffset } := by
  obtain ⟨result, read, hread⟩ : ∃ result read, Romfs.ramdiskRead (s.disk block).image
      (dev.blockDevs block).length (uint32 file.fileOffset) count = (result, read) := ⟨_, _, rfl⟩
  refine ⟨result, read, hread, ?_⟩
  rw [readFileObject, if_neg hflags, h.inode] at hok
  simp only [h.mode, if_true, h.device, hread] at hok
  split at hok
  · cases hok
  · cases hok
    exact ⟨rfl, rfl, by rw [h.inode]⟩

/-- On a regular file the file system reads. -/
theorem readFileObject_regular (hinode : file.inode = some i)
    (hmode : (s.inodes i).mode &&& sIfmt = sIfreg) (hflags : file.flags &&& oRwMask ≠ oWronly)
    (hok : readFileObject dev count file s d = .ok (reply, file', s', d')) :
    ∃ result read offset, fileOpsRead dev file (s.inodes i) s count = .ok (result, read, offset) ∧
      reply = ⟨result, read, []⟩ ∧ s' = s ∧ file' = { file with fileOffset := offset } := by
  have hblk : ¬ (sIfreg = sIfblk) := by decide
  have hchr : ¬ (sIfreg = sIfchr) := by decide
  rw [readFileObject, if_neg hflags, hinode] at hok
  simp only [hmode, if_neg hblk, if_neg hchr, if_true] at hok
  obtain ⟨⟨result, read, offset⟩, hread, heq⟩ := map_eq_ok.1 hok
  cases heq
  exact ⟨result, read, offset, hread, rfl, rfl, by rw [hinode]⟩

/-- Where the offset goes nothing else of the file object changes. -/
theorem OnBlock.withOffset (h : OnBlock dev file s i block) {offset : Nat}
    (hoffset : offset < 18446744073709551616) :
    OnBlock dev { file with fileOffset := offset } s i block :=
  ⟨h.inode, h.mode, h.device, h.length_lt, hoffset⟩

theorem OnRomfs.withOffset (h : OnRomfs dev file s i block name bytes) (offset : Nat) :
    OnRomfs dev { file with fileOffset := offset } s i block name bytes :=
  ⟨h.inode, h.mode, h.ops, h.driver, h.file⟩

theorem OnDos33.withOffset (h : OnDos33 file s i k block vtoc root c e) (offset : Nat) :
    OnDos33 { file with fileOffset := offset } s i k block vtoc root c e :=
  ⟨h.inode, h.mode, h.ops, h.driver, h.wf, h.file, h.names⟩

/-- Wherever the offset is moved to, the contents are the same. -/
theorem Contents.withOffset (h : Contents dev file s bytes) {offset : Nat}
    (hoffset : offset < 18446744073709551616) :
    Contents dev { file with fileOffset := offset } s bytes := by
  cases h with
  | block h => exact .block (h.withOffset hoffset)
  | romfs h => exact .romfs (h.withOffset offset)
  | dos33fs h => exact .dos33fs (h.withOffset offset)

theorem uint64OfInt_lt (n : Int) : uint64OfInt n < 18446744073709551616 := by
  unfold uint64OfInt
  omega

/-- Reading from a block device. -/
theorem OnBlock.moves_read (h : OnBlock dev file s i block) {count : UInt32}
    (hflags : file.flags &&& oRwMask ≠ oWronly)
    (hreach : count.toNat = 0 ∨ (dev.blockDevs block).length < count.toNat ∨
      int32 count.toNat < 0 ∨ file.fileOffset + count.toNat ≤ (dev.blockDevs block).length)
    (hok : readFileObject dev count.toNat file s d = .ok (reply, file', s', d')) :
    s' = s ∧ OnBlock dev file' s i block ∧ (reply.result < 0 ∨
      OffsetCall.Moves (Romfs.readNoinc (s.disk block).image 0 (dev.blockDevs block).length)
        file.fileOffset reply (Romfs.readNoinc (s.disk block).image 0 (dev.blockDevs block).length)
          file'.fileOffset (.read count)) := by
  obtain ⟨result, read, hread, rfl, rfl, rfl⟩ := readFileObject_block h hflags hok
  have hlt := h.offset_lt
  have hlength := h.length_lt
  refine ⟨rfl, h.withOffset ?_, ?_⟩
  · split
    · exact uint64OfInt_lt _
    · exact hlt
  · rw [Romfs.ramdiskRead] at hread
    split at hread
    · cases hread
      exact Or.inl (by decide)
    · rename_i hfits
      obtain ⟨rfl, rfl⟩ := Prod.mk.inj hread
      by_cases hneg : int32 count.toNat < 0
      · exact Or.inl hneg
      · right
        have hcount : count.toNat < 2147483648 := by
          have hreg := count.toNat_lt
          unfold int32 at hneg
          omega
        have hresult : int32 count.toNat = (count.toNat : Int) := int32_of_lt hcount
        have hbytes : Romfs.readNoinc (s'.disk block).image (uint32 file.fileOffset) count.toNat =
            FileBytes.read (Romfs.readNoinc (s'.disk block).image 0 (dev.blockDevs block).length)
              file.fileOffset count.toNat := by
          rcases hreach with hzero | hlong | hneg' | hin
          · rw [hzero, FileBytes.read, List.take_zero]
            rfl
          · exact absurd hlong hfits
          · exact absurd hneg' hneg
          · have hlow : uint32 file.fileOffset = file.fileOffset := uint32_of_lt (by omega)
            rw [Romfs.read_readNoinc hin, hlow, Nat.zero_add]
        have hlen := Romfs.length_readNoinc (s'.disk block).image (uint32 file.fileOffset) count.toNat
        refine ⟨hbytes, ?_, rfl, ?_⟩
        · rw [hlen]
          exact hresult
        · have hsum : file.fileOffset + count.toNat < 18446744073709551616 := by
            rcases hreach with hzero | hlong | hneg' | hin
            · rw [hzero]
              exact hlt
            · exact absurd hlong hfits
            · exact absurd hneg' hneg
            · omega
          have hpos : int32 count.toNat ≥ 0 := Int.not_lt.1 hneg
          rw [if_pos hpos, hresult, hlen, ← Int.natCast_add]
          exact uint64OfInt_natCast hsum

/-- Reading from a ROMFS file. -/
theorem OnRomfs.moves_read (h : OnRomfs dev file s i block name bytes) {count : UInt32}
    (hflags : file.flags &&& oRwMask ≠ oWronly)
    (hreach : count.toNat = 0 ∨ file.fileOffset ≤ bytes.length)
    (hok : readFileObject dev count.toNat file s d = .ok (reply, file', s', d')) :
    s' = s ∧ OnRomfs dev file' s i block name bytes ∧
      OffsetCall.Moves bytes file.fileOffset reply bytes file'.fileOffset (.read count) := by
  obtain ⟨result, read, offset, hread, rfl, rfl, rfl⟩ :=
    readFileObject_regular h.inode h.mode hflags hok
  obtain ⟨k, hdriver⟩ := h.driver
  refine ⟨rfl, h.withOffset offset, ?_⟩
  have hcontents : Romfs.readFile (s'.disk block).image (dev.blockDevs block).length
      (s'.inodes i).number count.toNat file.fileOffset =
        .ok ((bytes.read file.fileOffset count.toNat).length,
          bytes.read file.fileOffset count.toNat,
          file.fileOffset + (bytes.read file.fileOffset count.toNat).length) := by
    rcases hreach with hzero | hle
    · rw [hzero]
      exact h.file.readFile_nothing file.fileOffset
    · exact h.file.readFile_contents count.toNat_lt hle
  rw [fileOpsRead, h.ops, hdriver] at hread
  simp only [hcontents, Except.ok.injEq, Prod.mk.injEq] at hread
  obtain ⟨rfl, rfl, rfl⟩ := hread
  exact ⟨rfl, rfl, rfl, rfl⟩

/-- Reading from a DOS 3.3 file. -/
theorem OnDos33.moves_read (h : OnDos33 file s i k block vtoc root c e) {count : UInt32}
    (hflags : file.flags &&& oRwMask ≠ oWronly)
    (hsize : (s.inodes i).size + 4 < 2147483648)
    (hreach : endSector (s.disk block) c e (s.inodes i).size < 122 ∨
      file.fileOffset + headerLength (fileType (s.disk block) c e) + max 1 count.toNat ≤ 31232)
    (hok : readFileObject dev count.toNat file s d = .ok (reply, file', s', d')) :
    s' = s ∧ OnDos33 file' s i k block vtoc root c e ∧
      OffsetCall.Moves (fileContents (s.disk block) c e (s.inodes i)) file.fileOffset reply
        (fileContents (s.disk block) c e (s.inodes i)) file'.fileOffset (.read count) := by
  obtain ⟨result, read, offset, hread, rfl, rfl, rfl⟩ :=
    readFileObject_regular h.inode h.mode hflags hok
  have hcontents := @dos33fsReadFile_contents (s'.volume k block vtoc) (s'.inodes i) root c e h.wf
    h.file h.names hsize count.toNat file.fileOffset hreach
  have hdisk : (s'.volume k block vtoc).disk = s'.disk block := rfl
  rw [hdisk] at hcontents
  refine ⟨rfl, h.withOffset offset, ?_⟩
  rw [fileOpsRead, h.ops, h.driver] at hread
  simp only [hcontents, Except.ok.injEq, Prod.mk.injEq] at hread
  obtain ⟨rfl, rfl, rfl⟩ := hread
  exact ⟨rfl, rfl, rfl, rfl⟩

end Read

/-! ## Writing -/

section Write

variable {δ : Type} {dev : Devices δ} {file file' : FileObject} {s s' : Vfs} {i : InodeId}
  {k : Fin maxMounts} {block : Fin blockDevMax} {vtoc root c e : Nat} {name : CString}
  {bytes : FileBytes} {buf : List UInt8} {d d' : δ} {reply : IoReply}

/-- The flags refuse to write: nothing is changed. -/
theorem writeFileObject_refused (hflags : file.flags &&& oRwMask = oRdonly)
    (hok : writeFileObject dev buf file s d = .ok (reply, file', s', d')) :
    file' = file ∧ s' = s ∧ reply.result < 0 := by
  rw [writeFileObject, if_pos hflags] at hok
  cases hok
  exact ⟨rfl, rfl, by decide⟩

theorem writeFileObject_block (h : OnBlock dev file s i block)
    (hflags : file.flags &&& oRwMask ≠ oRdonly)
    (hok : writeFileObject dev buf file s d = .ok (reply, file', s', d')) :
    ∃ result disk, ramdiskWrite (s.disk block) (dev.blockDevs block).length
        (uint32 file.fileOffset) buf = (result, disk) ∧ reply = .ofResult result ∧ file' = file ∧
      s' = { s with disk := Function.update s.disk block disk } := by
  obtain ⟨result, disk, hwrite⟩ : ∃ result disk, ramdiskWrite (s.disk block)
      (dev.blockDevs block).length (uint32 file.fileOffset) buf = (result, disk) := ⟨_, _, rfl⟩
  refine ⟨result, disk, hwrite, ?_⟩
  rw [writeFileObject, if_neg hflags, h.inode] at hok
  simp only [h.mode, if_true, h.device, hwrite] at hok
  split at hok
  · cases hok
  · cases hok
    exact ⟨rfl, rfl, rfl⟩

/-- To a regular file the file system writes. -/
theorem writeFileObject_regular (hinode : file.inode = some i)
    (hmode : (s.inodes i).mode &&& sIfmt = sIfreg) (hflags : file.flags &&& oRwMask ≠ oRdonly)
    (hok : writeFileObject dev buf file s d = .ok (reply, file', s', d')) :
    ∃ result inode fs offset,
      fileOpsWrite file (s.inodes i) s buf = .ok (result, inode, fs, offset) ∧
      reply = .ofResult result ∧ file' = { file with fileOffset := offset } ∧
      s' = { s.setInode i inode with toFileSystems := fs } := by
  have hblk : ¬ (sIfreg = sIfblk) := by decide
  have hchr : ¬ (sIfreg = sIfchr) := by decide
  rw [writeFileObject, if_neg hflags, hinode] at hok
  simp only [hmode, if_neg hblk, if_neg hchr, if_true] at hok
  obtain ⟨⟨result, inode, fs, offset⟩, hwrite, heq⟩ := map_eq_ok.1 hok
  cases heq
  exact ⟨result, inode, fs, offset, hwrite, rfl, by rw [hinode], rfl⟩

/-- What is written to a block device leaves it open there. -/
theorem OnBlock.withDisk (h : OnBlock dev file s i block) (disk : Nat → Disk) :
    OnBlock dev file { s with disk := disk } i block :=
  ⟨h.inode, h.mode, h.device, h.length_lt, h.offset_lt⟩

theorem ramdiskWrite_nil (disk : Disk) (deviceLength offset : Nat) :
    ramdiskWrite disk deviceLength offset [] = (0, disk) := by
  simp [ramdiskWrite, int32]

/-- Writing nothing to a block device, or more than it holds. -/
theorem OnBlock.moves_write (h : OnBlock dev file s i block)
    (hflags : file.flags &&& oRwMask ≠ oRdonly)
    (hreach : buf.length = 0 ∨ (dev.blockDevs block).length < buf.length ∨ int32 buf.length < 0)
    (hok : writeFileObject dev buf file s d = .ok (reply, file', s', d')) :
    OnBlock dev file' s' i block ∧ (reply.result < 0 ∨
      OffsetCall.Moves (Romfs.readNoinc (s.disk block).image 0 (dev.blockDevs block).length)
        file.fileOffset reply (Romfs.readNoinc (s'.disk block).image 0 (dev.blockDevs block).length)
          file'.fileOffset (.write buf)) := by
  obtain ⟨result, disk, hwrite, rfl, rfl, rfl⟩ := writeFileObject_block h hflags hok
  refine ⟨h.withDisk _, ?_⟩
  rcases hreach with hzero | hlong | hneg
  · right
    obtain rfl : buf = [] := List.length_eq_zero_iff.1 hzero
    rw [ramdiskWrite_nil] at hwrite
    obtain ⟨rfl, rfl⟩ := Prod.mk.inj hwrite
    refine ⟨rfl, ?_, rfl⟩
    rw [Function.update_eq_self]
    exact WrittenAt.nil _ _
  · left
    rw [ramdiskWrite, if_pos hlong] at hwrite
    obtain ⟨rfl, -⟩ := Prod.mk.inj hwrite
    decide
  · left
    rw [ramdiskWrite] at hwrite
    split at hwrite
    · obtain ⟨rfl, -⟩ := Prod.mk.inj hwrite
      decide
    · obtain ⟨rfl, -⟩ := Prod.mk.inj hwrite
      exact hneg

/-- A ROMFS file is not written. -/
theorem OnRomfs.write (h : OnRomfs dev file s i block name bytes)
    (hflags : file.flags &&& oRwMask ≠ oRdonly)
    (hok : writeFileObject dev buf file s d = .ok (reply, file', s', d')) :
    OnRomfs dev file' s' i block name bytes ∧ reply.result < 0 := by
  obtain ⟨result, inode, fs, offset, hwrite, rfl, rfl, rfl⟩ :=
    writeFileObject_regular h.inode h.mode hflags hok
  obtain ⟨k, hdriver⟩ := h.driver
  rw [fileOpsWrite, h.ops, hdriver] at hwrite
  simp only [Except.ok.injEq, Prod.mk.injEq] at hwrite
  obtain ⟨rfl, rfl, rfl, rfl⟩ := hwrite
  have hsame : s.setInode i (s.inodes i) = s := by
    simp [Vfs.setInode]
  rw [hsame]
  exact ⟨h.withOffset file.fileOffset, by decide⟩

theorem driver_putVolume (s : FileSystems) (k : Fin maxMounts) (block : Fin blockDevMax)
    (vtoc : Nat) (v : Dos33Volume) (sb : Option (Fin maxMounts)) :
    (s.putVolume k block vtoc v).driver sb = s.driver sb := by
  cases sb with
  | none => rfl
  | some k' =>
      have hfields : ((s.putVolume k block vtoc v).superblockTable k').sbOps =
          (s.superblockTable k').sbOps ∧ ((s.putVolume k block vtoc v).superblockTable k').block =
          (s.superblockTable k').block ∧ ((s.putVolume k block vtoc v).superblockTable k').vtoc =
          (s.superblockTable k').vtoc := by
        by_cases hk : k' = k
        · subst hk
          simp [FileSystems.putVolume, FileSystems.setSuperblock]
        · simp [FileSystems.putVolume, FileSystems.setSuperblock, Function.update_of_ne hk]
      simp only [FileSystems.driver, hfields]

theorem volume_putVolume (s : FileSystems) (k : Fin maxMounts) (block : Fin blockDevMax)
    (vtoc : Nat) (v : Dos33Volume) : (s.putVolume k block vtoc v).volume k block vtoc = v := by
  have hbehind : ∀ i, ¬ vtoc + i < vtoc := fun i => Nat.not_lt.2 (Nat.le_add_right vtoc i)
  simp [hbehind, FileSystems.putVolume, FileSystems.volume, FileSystems.setSuperblock]

/-- Writing to a DOS 3.3 file. -/
theorem OnDos33.moves_write (h : OnDos33 file s i k block vtoc root c e)
    (hflags : file.flags &&& oRwMask ≠ oRdonly)
    (hreach : file.fileOffset + headerLength (fileType (s.disk block) c e) + max 1 buf.length ≤
      31232)
    (hmay : MayGrow (s.disk block) c e (s.inodes i).size (file.fileOffset + buf.length))
    (hok : writeFileObject dev buf file s d = .ok (reply, file', s', d')) :
    OnDos33 file' s' i k block vtoc root c e ∧
      OffsetCall.Moves (fileContents (s.disk block) c e (s.inodes i)) file.fileOffset reply
        (fileContents (s'.disk block) c e (s'.inodes i)) file'.fileOffset (.write buf) := by
  obtain ⟨result, inode, fs, offset, hwrite, rfl, rfl, rfl⟩ :=
    writeFileObject_regular h.inode h.mode hflags hok
  rw [fileOpsWrite, h.ops, h.driver] at hwrite
  simp only at hwrite
  split at hwrite
  · cases hwrite
  · rename_i r v inode' offset' hvolume
    simp only [Except.ok.injEq, Prod.mk.injEq] at hwrite
    obtain ⟨rfl, rfl, rfl, rfl⟩ := hwrite
    obtain ⟨rfl, rfl, rfl, hstep, hwritten⟩ :=
      dos33fsWriteFile_contents h.wf h.file h.names hreach hmay hvolume
    have hdisk : (s.putVolume k block vtoc v).disk block = v.disk :=
      congrArg Dos33Volume.disk (volume_putVolume s.toFileSystems k block vtoc v)
    generalize hinode : ({ s.inodes i with
      size := max (s.inodes i).size (file.fileOffset + buf.length) } : Inode) = inode at hwritten ⊢
    have hslot : ({ s.setInode i inode with
        toFileSystems := s.putVolume k block vtoc v } : Vfs).inodes i = inode :=
      setInode_self s i inode
    constructor
    · refine ⟨h.inode, ?_, h.ops, ?_, ?_, ?_, ?_⟩
      · rw [hslot, ← hinode]
        exact h.mode
      · rw [hslot, ← hinode, driver_putVolume]
        exact h.driver
      · rw [volume_putVolume]
        exact hstep.wf
      · show IsFile ((s.putVolume k block vtoc v).disk block) root c e
        rw [hdisk]
        exact hstep.file
      · rw [hslot, ← hinode]
        exact h.names
    · refine ⟨rfl, ?_, rfl⟩
      rw [hslot]
      show WrittenAt _ _ _ (fileContents ((s.putVolume k block vtoc v).disk block) c e inode)
      rw [hdisk]
      exact hwritten

end Write

/-! ## Any call -/

section Calls

variable {δ : Type} {dev : Devices δ} {file file' : FileObject} {s s' : Vfs} {before : FileBytes}
  {d d' : δ} {reply : IoReply}

theorem llseekGeneric_file (file : FileObject) (offset whence : Int) :
    ∃ offset', (llseekGeneric file offset whence).2 = { file with fileOffset := offset' } ∧
      (offset' = file.fileOffset ∨ offset' < 18446744073709551616) ∧
      (whence = seekSet → offset' = uint64OfInt offset) := by
  rw [llseekGeneric]
  split
  · exact ⟨_, rfl, Or.inr (uint64OfInt_lt _), fun _ => rfl⟩
  · rename_i hset
    split
    · exact ⟨_, rfl, Or.inr (uint64OfInt_lt _), fun h => absurd h hset⟩
    · split <;> exact ⟨file.fileOffset, rfl, Or.inl rfl, fun h => absurd h hset⟩

/-- Seeking moves the offset at most. -/
theorem llseekFileObject_offset {offset whence : Int} (hc : Contents dev file s before)
    (hok : llseekFileObject offset whence file s d = .ok (reply, file', s', d')) :
    s' = s ∧ ∃ offset', file' = { file with fileOffset := offset' } ∧
      (offset' = file.fileOffset ∨ offset' < 18446744073709551616) ∧
      (whence = seekSet → offset' = uint64OfInt offset) := by
  obtain ⟨offset', hfile, hbound, hset⟩ := llseekGeneric_file file offset whence
  obtain ⟨i, hinode, hmode⟩ : ∃ i, file.inode = some i ∧
      ((s.inodes i).mode &&& sIfmt = sIfblk ∨ (s.inodes i).mode &&& sIfmt = sIfreg) := by
    cases hc with
    | block h => exact ⟨_, h.inode, Or.inl h.mode⟩
    | romfs h => exact ⟨_, h.inode, Or.inr h.mode⟩
    | dos33fs h => exact ⟨_, h.inode, Or.inr h.mode⟩
  have hblk : ¬ (sIfreg = sIfblk) := by decide
  have hchr : ¬ (sIfreg = sIfchr) := by decide
  rw [llseekFileObject, hinode] at hok
  rcases hmode with hmode | hmode
  · simp only [hmode, if_true] at hok
    cases hok
    exact ⟨rfl, offset', hfile, hbound, hset⟩
  · simp only [hmode, if_neg hblk, if_neg hchr, if_true] at hok
    split at hok
    · cases hok
    · cases hok
      exact ⟨rfl, offset', hfile, hbound, hset⟩

/-- The file object keeps its count. -/
theorem fileCall_count {call : OffsetCall} (hc : Contents dev file s before)
    (hok : call.fileCall dev file s d = .ok (reply, file', s', d')) : file'.count = file.count := by
  cases call with
  | read count =>
      by_cases hflags : file.flags &&& oRwMask = oWronly
      · obtain ⟨rfl, -, -⟩ := readFileObject_refused hflags hok
        rfl
      · cases hc with
        | block h =>
            obtain ⟨_, _, -, -, -, rfl⟩ := readFileObject_block h hflags hok
            rfl
        | romfs h =>
            obtain ⟨_, _, _, -, -, -, rfl⟩ := readFileObject_regular h.inode h.mode hflags hok
            rfl
        | dos33fs h =>
            obtain ⟨_, _, _, -, -, -, rfl⟩ := readFileObject_regular h.inode h.mode hflags hok
            rfl
  | write buf =>
      by_cases hflags : file.flags &&& oRwMask = oRdonly
      · obtain ⟨rfl, -, -⟩ := writeFileObject_refused hflags hok
        rfl
      · cases hc with
        | block h =>
            obtain ⟨_, _, -, -, rfl, -⟩ := writeFileObject_block h hflags hok
            rfl
        | romfs h =>
            obtain ⟨_, _, _, _, -, -, rfl, -⟩ :=
              writeFileObject_regular h.inode h.mode hflags hok
            rfl
        | dos33fs h =>
            obtain ⟨_, _, _, _, -, -, rfl, -⟩ :=
              writeFileObject_regular h.inode h.mode hflags hok
            rfl
  | llseek offset whence =>
      obtain ⟨-, _, rfl, -, -⟩ := llseekFileObject_offset hc hok
      rfl

/-- A call in reach leaves the file object open on contents that it has moved to, unless it returns
an error. -/
theorem fileCall_moves {call : OffsetCall} (hc : Contents dev file s before)
    (hreach : call.FileInReach dev file s)
    (hok : call.fileCall dev file s d = .ok (reply, file', s', d')) :
    ∃ after, Contents dev file' s' after ∧ (reply.result < 0 ∨
      call.Moves before file.fileOffset reply after file'.fileOffset) := by
  cases call with
  | read count =>
      by_cases hflags : file.flags &&& oRwMask = oWronly
      · obtain ⟨rfl, rfl, hneg⟩ := readFileObject_refused hflags hok
        exact ⟨before, hc, Or.inl hneg⟩
      · obtain ⟨hblock, hromfs, hdos⟩ := hreach.resolve_left hflags
        cases hc with
        | block h =>
            obtain ⟨rfl, hafter, hmoves⟩ := h.moves_read hflags (hblock _ _ h) hok
            exact ⟨_, .block hafter, hmoves⟩
        | romfs h =>
            obtain ⟨rfl, hafter, hmoves⟩ := h.moves_read hflags (hromfs _ _ _ _ h) hok
            exact ⟨_, .romfs hafter, Or.inr hmoves⟩
        | dos33fs h =>
            obtain ⟨hsize, hin⟩ := hdos _ _ _ _ _ _ _ h
            obtain ⟨rfl, hafter, hmoves⟩ := h.moves_read hflags hsize hin hok
            exact ⟨_, .dos33fs hafter, Or.inr hmoves⟩
  | write buf =>
      by_cases hflags : file.flags &&& oRwMask = oRdonly
      · obtain ⟨rfl, rfl, hneg⟩ := writeFileObject_refused hflags hok
        exact ⟨before, hc, Or.inl hneg⟩
      · obtain ⟨hblock, hdos⟩ := hreach.resolve_left hflags
        cases hc with
        | block h =>
            obtain ⟨hafter, hmoves⟩ := h.moves_write hflags (hblock _ _ h) hok
            exact ⟨_, .block hafter, hmoves⟩
        | romfs h =>
            obtain ⟨hafter, hneg⟩ := h.write hflags hok
            exact ⟨_, .romfs hafter, Or.inl hneg⟩
        | dos33fs h =>
            obtain ⟨hin, hmay⟩ := hdos _ _ _ _ _ _ _ h
            obtain ⟨hafter, hmoves⟩ := h.moves_write hflags hin hmay hok
            exact ⟨_, .dos33fs hafter, Or.inr hmoves⟩
  | llseek offset whence =>
      obtain ⟨rfl, offset', rfl, hbound, hset⟩ := llseekFileObject_offset hc hok
      refine ⟨before, ?_, Or.inr ⟨rfl, hset⟩⟩
      rcases hbound with rfl | hlt
      · exact hc
      · exact hc.withOffset hlt

end Calls

/-! ## Runs -/

namespace OffsetCall

section Runs

variable {δ : Type} {dev : Devices δ} {files : FdTable} {fd : Int} {s s' : OpenFiles δ} {f : FileId}
  {call : OffsetCall} {calls rest : List OffsetCall} {before : FileBytes} {reply : IoReply}
  {rs : List IoReply}

theorem step_eq (call : OffsetCall) :
    step dev files fd s call = s.onFd files fd (call.fileCall dev) := by
  cases call <;> rfl

/-- A call in reach leaves the descriptor open on contents that it has moved to, unless it returns
an error. -/
theorem step_moves (hopen : s.mapFdToFile files fd = .ok f)
    (hc : Contents dev (s.fileObjects f) s.toVfs before) (hreach : call.InReach dev files fd s)
    (hok : step dev files fd s call = .ok (reply, s')) :
    s'.mapFdToFile files fd = .ok f ∧ ∃ after, Contents dev (s'.fileObjects f) s'.toVfs after ∧
      (reply.result < 0 ∨ call.Moves before (s.fileObjects f).fileOffset reply after
        (s'.fileObjects f).fileOffset) := by
  rw [step_eq] at hok
  obtain ⟨d', hcall⟩ := OpenFiles.onFd_eq_ok hopen hok
  refine ⟨?_, fileCall_moves hc (hreach f hopen) hcall⟩
  obtain ⟨j, hj, hslot, hcount⟩ := mapFdToFile_eq_ok.1 hopen
  refine mapFdToFile_eq_ok.2 ⟨j, hj, hslot, ?_⟩
  rw [fileCall_count hc hcall]
  exact hcount

/-- Calls in reach transfer exactly the bytes that they return. -/
theorem throughout_exactly (hopen : s.mapFdToFile files fd = .ok f)
    (hc : ∃ before, Contents dev (s.fileObjects f) s.toVfs before)
    (hreach : Along (step dev files fd) (fun s call => call.InReach dev files fd s) s calls) :
    Throughout (step dev files fd) (TransfersExactly dev files fd) s calls := by
  apply throughout_of_along (fun s : OpenFiles δ => s.mapFdToFile files fd = .ok f ∧
    ∃ before, Contents dev (s.fileObjects f) s.toVfs before) _ ⟨hopen, hc⟩ hreach
  rintro s call reply s' ⟨hopen, before, hc⟩ hreach hok
  constructor
  · intro g before' hg hc'
    rw [hopen] at hg
    cases hg
    obtain ⟨-, after, hafter, hmoves⟩ := step_moves hopen hc' hreach hok
    exact ⟨after, hafter, fun hpos => (hmoves.resolve_left (Int.not_lt.2 hpos)).transfers⟩
  · obtain ⟨hopen', after, hafter, -⟩ := step_moves hopen hc hreach hok
    exact ⟨hopen', after, hafter⟩

/-- Chunks that are written one after the other stand one after the other behind what was there up
to the offset. -/
theorem writes_append (chunks : List (List UInt8)) (hopen : s.mapFdToFile files fd = .ok f)
    (hc : Contents dev (s.fileObjects f) s.toVfs before)
    (hle : (s.fileObjects f).fileOffset ≤ before.length)
    (hreach : Along (step dev files fd) (fun s call => call.InReach dev files fd s) s
      (chunks.map write ++ rest))
    (hrun : run (step dev files fd) s (chunks.map write ++ rest) = .ok (rs, s'))
    (hpos : ∀ r ∈ rs, 0 ≤ r.result) :
    ∃ s₁ after rs₁, s₁.mapFdToFile files fd = .ok f ∧
      Contents dev (s₁.fileObjects f) s₁.toVfs after ∧
      after.read 0 ((s.fileObjects f).fileOffset + chunks.flatten.length) =
        before.read 0 (s.fileObjects f).fileOffset ++ chunks.flatten ∧
      Along (step dev files fd) (fun s call => call.InReach dev files fd s) s₁ rest ∧
      run (step dev files fd) s₁ rest = .ok (rs₁, s') ∧ rs₁ <:+ rs := by
  induction chunks generalizing s before rs with
  | nil =>
      refine ⟨s, before, rs, hopen, hc, ?_, hreach, hrun, List.suffix_refl rs⟩
      rw [List.flatten_nil, List.length_nil, Nat.add_zero, List.append_nil]
  | cons chunk chunks ih =>
      rw [List.map_cons, List.cons_append] at hreach hrun
      obtain ⟨r, s₁, rs₁, hstep, hrun₁, rfl⟩ := run_cons_eq_ok.1 hrun
      obtain ⟨hopen₁, after, hafter, hmoves⟩ := step_moves hopen hc hreach.1 hstep
      have hr : ¬ r.result < 0 := Int.not_lt.2 (hpos r List.mem_cons_self)
      obtain ⟨-, hwritten, hoffset⟩ := hmoves.resolve_left hr
      have hend := hwritten.end_le_length hle
      rw [← hoffset] at hend
      obtain ⟨s₂, after₂, rs₂, hopen₂, hafter₂, hread, hreach₂, hrun₂, hsuffix⟩ :=
        ih hopen₁ hafter hend (hreach.2 r s₁ hstep) hrun₁
          fun r' hr' => hpos r' (List.mem_cons_of_mem r hr')
      refine ⟨s₂, after₂, rs₂, hopen₂, hafter₂, ?_, hreach₂, hrun₂,
        hsuffix.trans (List.suffix_cons r rs₁)⟩
      rw [hoffset, hwritten.read_append hle, Nat.add_assoc, List.append_assoc] at hread
      rw [List.flatten_cons, List.length_append, hread]

/-- They are read back from the start. -/
theorem readsBack (hopen : s.mapFdToFile files fd = .ok f)
    (hc : ∃ before, Contents dev (s.fileObjects f) s.toVfs before)
    (hreach : Along (step dev files fd) (fun s call => call.InReach dev files fd s) s calls) :
    ReadsBack dev files fd s calls := by
  rintro g chunks count rs s' hg hzero hcount rfl hrun hpos
  rw [hopen] at hg
  cases hg
  obtain ⟨before, hc⟩ := hc
  obtain ⟨s₁, after, rs₁, hopen₁, hafter, hread, hreach₁, hrun₁, hsuffix⟩ :=
    writes_append chunks hopen hc (by rw [hzero]; exact Nat.zero_le _) hreach hrun hpos
  have hpos₁ : ∀ r ∈ rs₁, 0 ≤ r.result := fun r hr => hpos r (hsuffix.subset hr)
  -- the seek goes to the start
  obtain ⟨r₀, s₂, rs₂, hseek, hrun₂, rfl⟩ := run_cons_eq_ok.1 hrun₁
  obtain ⟨hopen₂, after₂, hafter₂, hmoves⟩ := step_moves hopen₁ hafter hreach₁.1 hseek
  obtain ⟨rfl, hstart⟩ := hmoves.resolve_left (Int.not_lt.2 (hpos₁ r₀ List.mem_cons_self))
  have hoffset : (s₂.fileObjects f).fileOffset = 0 := hstart rfl
  -- and the read returns what is there
  obtain ⟨r₁, hlast, rfl⟩ := run_singleton_eq_ok.1 hrun₂
  obtain ⟨-, after₃, -, hmoves₃⟩ := step_moves hopen₂ hafter₂ (hreach₁.2 r₀ s₂ hseek).1 hlast
  have hr₁ : 0 ≤ r₁.result := hpos₁ r₁ (List.mem_cons_of_mem _ List.mem_cons_self)
  obtain ⟨hbytes, hresult, -, -⟩ := hmoves₃.resolve_left (Int.not_lt.2 hr₁)
  have hall : r₁.bytes = chunks.flatten := by
    rw [hzero, Nat.zero_add, FileBytes.read, FileBytes.read, List.take_zero, List.nil_append] at hread
    rw [hbytes, hoffset, hcount, FileBytes.read, hread]
  refine ⟨r₁, ?_, ?_, hall⟩
  · obtain ⟨rs₀, rfl⟩ := hsuffix
    rw [List.getLast?_append]
    rfl
  · rw [hresult, hall]

/-- In a run of calls that stay in reach, every read or write transfers exactly the bytes from the
offset on that it returns the number of, and moves the offset behind them; and chunks written from
the start on are read back from there. -/
theorem throughout_transfers (hopen : s.mapFdToFile files fd = .ok f)
    (hc : ∃ before, Contents dev (s.fileObjects f) s.toVfs before)
    (hreach : Along (step dev files fd) (fun s call => call.InReach dev files fd s) s calls) :
    Throughout (step dev files fd) (TransfersExactly dev files fd) s calls ∧
      ReadsBack dev files fd s calls :=
  ⟨throughout_exactly hopen hc hreach, readsBack hopen hc hreach⟩

end Runs

/-! ## A file and a device -/

/-- One ramdisk of 147 bytes. -/
def oneRamdisk : Devices Unit := ⟨fun _ => ⟨1, 0, 147⟩, fun _ => ⟨0, 0, none⟩⟩

/-- An image mounted at the root, and nothing open. -/
def romfsTables (image : Romfs.Image) : FileTables where
  superblockTable := Function.update (fun _ => Superblock.zeroed) 0
    ⟨true, 1, 0, 1024, 32, [0x2f], some .romfs, some 0, none⟩
  vtocList := fun _ => 0
  nextVtoc := 0
  blockDevs := fun _ => ⟨[], true⟩
  disk := fun _ n i => image (256 * n + i)
  inodes := fun _ => Inode.zeroed
  fileObjects := fun _ => FileObject.zeroed

/-- The image with one file, open for reading. -/
def oneFileOpen : OpenFiles Unit where
  toFileTables := { romfsTables Romfs.oneFileImage with
    inodes := fun _ => Romfs.fillInode Romfs.oneFileImage
      { Inode.zeroed with number := 96, count := 1, sb := some 0 }
    fileObjects := fun _ => ⟨0, some .romfs, some 0, 1, oRdonly⟩ }
  chars := ()

theorem oneFileOpen_onRomfs : OnRomfs oneRamdisk (oneFileOpen.fileObjects 0) oneFileOpen.toVfs 0 0
    [0x66] [0x61, 0x62, 0x63] := by
  have himage : (oneFileOpen.disk 0).image = Romfs.oneFileImage := by
    funext a
    show Romfs.oneFileImage (256 * (a / 256) + a % 256) = _
    rw [Nat.div_add_mod]
  refine ⟨rfl, by decide, rfl, ⟨0, rfl⟩, ?_⟩
  show Romfs.FileAt (oneFileOpen.disk 0).image 147 96 [0x66] [0x61, 0x62, 0x63]
  rw [himage]
  have h := Romfs.oneFileImage_fileAt
  exact ⟨h.type, h.size, h.nameAt, h.bytes, by decide, h.inRange⟩

theorem throughout_transfers_oneFile :
    Throughout (step oneRamdisk initFiles 0) (TransfersExactly oneRamdisk initFiles 0) oneFileOpen
        [.read 2, .llseek 1 seekSet] ∧
      ReadsBack oneRamdisk initFiles 0 oneFileOpen [.read 2, .llseek 1 seekSet] := by
  refine throughout_transfers (f := 0) rfl ⟨_, .romfs oneFileOpen_onRomfs⟩
    ⟨?_, fun _ _ _ => ⟨fun _ _ => trivial, fun _ _ _ => trivial⟩⟩
  intro f hf
  cases hf
  have hreg : (oneFileOpen.inodes 0).mode &&& sIfmt = sIfreg := oneFileOpen_onRomfs.mode
  refine Or.inr ⟨?_, ?_, ?_⟩
  · rintro i block h
    have hi : i = 0 := (Option.some.inj h.inode).symm
    have hmode := h.mode
    rw [hi, hreg] at hmode
    exact absurd hmode (by decide)
  · exact fun i block name bytes h => Or.inr (Nat.zero_le _)
  · intro i k block vtoc root c e h
    have hops := h.ops
    cases hops

/-- The image with a block device in place of the file: the first one there is. -/
def blockImage : Romfs.Image := fun a =>
  if a = 99 then 4 else if a = 101 then 1 else Romfs.oneFileImage a

/-- A byte written to a ramdisk is counted, and the offset stays where it is. -/
theorem not_throughout_transfers : ∃ tables files before,
    (romfsTables blockImage).openSyscall (fun _ => none) [0x2f] [0x2f, 0x66] 2 =
        .ok (0, tables, files) ∧
      tables.mapFdToFile files 0 = .ok 0 ∧
      Contents oneRamdisk (tables.fileObjects 0) tables.toVfs before ∧
      ¬ Throughout (step oneRamdisk files 0) (TransfersExactly oneRamdisk files 0) ⟨tables, ()⟩
        [.write [1]] := by
  have hobs : ((romfsTables blockImage).openSyscall (fun _ => none) [0x2f] [0x2f, 0x66] 2).map
      (fun q => (q.1, decide (q.2.1.mapFdToFile q.2.2 0 = .ok 0 ∧
        (q.2.1.fileObjects 0).inode = some 0 ∧ (q.2.1.fileObjects 0).fileOffset = 0 ∧
        (q.2.1.inodes 0).mode &&& sIfmt = sIfblk ∧
        oneRamdisk.blockDevLookup (q.2.1.inodes 0).device = some 0 ∧
        (step oneRamdisk q.2.2 0 ⟨q.2.1, ()⟩ (.write [1])).map (fun p =>
          (p.1.result, (p.2.fileObjects 0).fileOffset)) = .ok (1, 0)))) = .ok (0, true) := by
    decide
  obtain ⟨⟨r, tables, files⟩, hok, hseen⟩ := map_eq_ok.1 hobs
  obtain ⟨rfl, hseen⟩ := Prod.mk.inj hseen
  obtain ⟨hopen, hinode, hoffset, hmode, hdevice, hwrite⟩ := of_decide_eq_true hseen
  have hblock : OnBlock oneRamdisk (tables.fileObjects 0) tables.toVfs 0 0 :=
    ⟨hinode, hmode, hdevice, by decide, by rw [hoffset]; decide⟩
  refine ⟨tables, files, _, hok, hopen, .block hblock, fun hall => ?_⟩
  obtain ⟨⟨reply, s'⟩, hstep, hreply⟩ := map_eq_ok.1 hwrite
  obtain ⟨hresult, hstays⟩ := Prod.mk.inj hreply
  obtain ⟨after, -, htransfers⟩ := (hall reply s' hstep).1 0 _ hopen (.block hblock)
  obtain ⟨-, -, hmoved⟩ := htransfers (by rw [hresult]; decide)
  have hone : (s'.fileObjects 0).fileOffset = 0 + 1 := by
    rw [hmoved, hresult, hoffset]
    rfl
  rw [hstays] at hone
  cases hone

end OffsetCall

end Vmwos
