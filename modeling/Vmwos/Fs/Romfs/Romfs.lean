import Vmwos.Fs.Dos33fs.Directory

/-!
# The ROMFS driver

A ROMFS image is read through `romfs_read_noinc`, which ignores the result of the block
device. The devices are longer than the 16 bytes of a header, so its reads of 4, 8 and 16 bytes
succeed; only `romfs_read_file` asks for more, and there the length of the device is a
parameter. The contents of the device are the bytes from `private` on. Offsets and inode
numbers are 32-bit values, kept as `Nat` below 2^32 whatever their sign in the source.

All loops over the image have fuel for one more round than there are offsets.
-/

set_option autoImplicit false

namespace Vmwos

/-- The bytes that `private` of a block device points to. -/
abbrev Romfs.Image := Nat → UInt8

/-- The contents of a block device kept in sectors, byte by byte. -/
def Disk.image (d : Disk) : Romfs.Image := fun a => d (a / 256) (a % 256)

/-- `ROMFS_MAX_FILENAME_SIZE` -/
abbrev romfsMaxFilenameSize : Nat := 256

/-- One more than there are offsets. -/
def romfsRounds : Nat := 4294967297

/-- Conversion of a signed value to `uint64_t`. -/
def uint64OfInt (n : Int) : Nat := (n % 18446744073709551616).toNat

theorem uint64OfInt_natCast {n : Nat} (h : n < 18446744073709551616) : uint64OfInt n = n := by
  unfold uint64OfInt
  omega

namespace Romfs

/-- `romfs_read_noinc` of a buffer of `size` bytes. -/
def readNoinc (image : Image) (offset size : Nat) : List UInt8 :=
  (List.range size).map fun i => image (offset + i)

/-- `romfs_read_noinc` of an integer, and `ntohl`. -/
def readWord (image : Image) (offset : Nat) : Nat :=
  (image offset).toNat <<< 24 + (image (offset + 1)).toNat <<< 16 +
    (image (offset + 2)).toNat <<< 8 + (image (offset + 3)).toNat

/-! ## Header fields -/

/-- The type bits of the header at an offset. -/
def headerType (image : Image) (header : Nat) : Nat := readWord image header &&& 0x7

/-- The offset of the next header, with the type bits cleared. -/
def headerNext (image : Image) (header : Nat) : Nat := readWord image header &&& 0xfffffff0

/-- The field `spec.info`. -/
def headerSpec (image : Image) (header : Nat) : Nat := readWord image (uint32 (header + 4))

/-- The field `size`, an `int32_t`. -/
def headerSize (image : Image) (header : Nat) : Int :=
  int32 (readWord image (uint32 (header + 8)))

/-! ## Strings -/

/-- The loop of `romfs_read_string`: the buffer and the length of the string on the device. -/
def readStringLoop (image : Image) (offset : Nat) :
    Nat → (length : Nat) → (maxStringsize : Int) → CString → Except Stuck (CString × Nat)
  | 0, _, _, _ => .error .endless
  | fuel + 1, length, maxStringsize, buffer =>
      let tempBuffer := readNoinc image (uint32 (offset + length)) 16
      let buffer :=
        if maxStringsize > 0 then
          let maxLength : Nat := if maxStringsize > 16 then 16 else maxStringsize.toNat
          -- `strncat`
          buffer ++ (tempBuffer.take maxLength).takeWhile (· ≠ 0)
        else buffer
      if tempBuffer.getD 15 0 = 0 then .ok (buffer, length + 16)
      else readStringLoop image offset fuel (length + 16) (maxStringsize - 16) buffer

/-- `romfs_read_string` -/
def readString (image : Image) (offset size : Nat) : Except Stuck (CString × Nat) :=
  readStringLoop image offset romfsRounds 0 size []

/-- The loop that `romfs_string_length` and `romfs_string_length_chunks` share: where the last
chunk of a string starts, from the string's offset. -/
def lastChunk (image : Image) (offset : Nat) : Nat → (length : Nat) → Except Stuck Nat
  | 0, _ => .error .endless
  | fuel + 1, length =>
      if (readNoinc image (uint32 (offset + length)) 16).getD 15 0 = 0 then .ok length
      else lastChunk image offset fuel (length + 16)

/-- `romfs_string_length` -/
def stringLength (image : Image) (offset : Nat) : Except Stuck Nat :=
  (lastChunk image offset romfsRounds 0).map fun length =>
    length + ((readNoinc image (uint32 (offset + length)) 16).takeWhile (· ≠ 0)).length

/-- `romfs_string_length_chunks` -/
def stringLengthChunks (image : Image) (offset : Nat) : Except Stuck Nat :=
  (lastChunk image offset romfsRounds 0).map fun length => length + 16

/-! ## Inodes -/

/-- The loop of `romfs_inode_follow_links`. -/
def followLinksLoop (image : Image) : Nat → (inode : Nat) → Except Stuck Nat
  | 0, _ => .error .endless
  | fuel + 1, inode =>
      if headerType image inode = 0 then followLinksLoop image fuel (headerSpec image inode)
      else .ok inode

/-- `romfs_inode_follow_links` -/
def inodeFollowLinks (image : Image) (inode : Nat) : Except Stuck Nat :=
  followLinksLoop image romfsRounds inode

/-- The mode bits of a header type; a hard link has none. -/
def modeOfType (type : Nat) : Nat :=
  match type with
  | 1 => sIfdir
  | 2 => sIfreg
  | 3 => 0xa000
  | 4 => sIfblk
  | 5 => sIfchr
  | 6 => 0xc000
  | 7 => 0x1000
  | _ => 0

/-- One round of `romfs_read_inode`, at a header that is not a hard link. -/
def fillInode (image : Image) (inode : Inode) : Inode :=
  let type := headerType image inode.number
  let executable := readWord image inode.number &&& 0x8
  { inode with
    mode := 438 ||| (if executable ≠ 0 then 73 else 0) ||| modeOfType type
    device := if type = 4 ∨ type = 5 then headerSpec image inode.number else inode.device
    size := uint64OfInt (headerSize image inode.number)
    atime := 256246800
    mtime := 256246800
    ctime := 256246800
    uid := 0
    gid := 0
    rdev := 0
    hardLinks := 1 }

/-- The loop of `romfs_read_inode`. -/
def readInodeLoop (image : Image) : Nat → Inode → Except Stuck (Int × Inode)
  | 0, _ => .error .endless
  | fuel + 1, inode =>
      if headerType image inode.number = 0 then
        readInodeLoop image fuel { inode with number := headerSpec image inode.number }
      else .ok (0, fillInode image inode)

/-- `romfs_read_inode` -/
def readInode (image : Image) (inode : Inode) : Except Stuck (Int × Inode) :=
  readInodeLoop image romfsRounds inode

/-! ## Looking names up -/

/-- The loop of `romfs_lookup_inode_dir` over the headers of a directory: the header with the
name, hard links followed. A name of 256 characters does not fit into `filename` with its
terminator. -/
def lookupInodeDirLoop (image : Image) (name : CString) :
    Nat → (offset : Nat) → Except Stuck (Option Nat)
  | 0, _ => .error .endless
  | fuel + 1, offset =>
      match readString image (uint32 (offset + 16)) romfsMaxFilenameSize with
      | .error e => .error e
      | .ok (filename, _) =>
          if filename.length ≥ romfsMaxFilenameSize then .error .badAccess
          else if strncmp name filename romfsMaxFilenameSize = 0 then
            (inodeFollowLinks image offset).map some
          else if headerNext image offset = 0 then .ok none
          else lookupInodeDirLoop image name fuel (headerNext image offset)

/-- `romfs_lookup_inode_dir`: the result and the inode number reached. -/
def lookupInodeDir (image : Image) (number : Nat) (name : CString) : Except Stuck (Int × Nat) :=
  if headerType image number ≠ 1 then .ok (-enotdir, number)
  else
    match lookupInodeDirLoop image name romfsRounds (headerSpec image number) with
    | .error e => .error e
    | .ok none => .ok (-1, number)
    | .ok (some found) => .ok (0, found)

/-- The loop of `romfs_lookup_inode`: the result and the inode number reached. -/
def lookupComponents (image : Image) : Nat → (number : Nat) → CString → Except Stuck (Int × Nat)
  | 0, _, _ => .error .endless
  | fuel + 1, number, path =>
      let (dir, rest) := splitFilename path maxFilenameSize
      match lookupInodeDir image number dir with
      | .error e => .error e
      | .ok (result, number) =>
          if result < 0 then .ok (result, number)
          else
            match rest with
            | none => .ok (0, number)
            | some rest => lookupComponents image fuel number rest

/-- `romfs_lookup_inode` -/
def lookupInode (image : Image) (inode : Inode) (name : CString) :
    Except Stuck (Int × Inode) :=
  if name = [] then readInode image inode
  else
    match lookupComponents image (name.length + 1) inode.number name with
    | .error e => .error e
    | .ok (result, number) =>
        if result < 0 then .ok (result, { inode with number := number })
        else readInode image { inode with number := number }

/-! ## Reading files and directories -/

/-- `ramdisk_read` into a buffer: `-ERANGE` when more bytes are asked for than the device
has, otherwise the number of bytes copied. -/
def ramdiskRead (image : Image) (deviceLength offset length : Nat) : Int × List UInt8 :=
  if length > deviceLength then (-erange, [])
  else (int32 length, readNoinc image offset length)

/-- `romfs_read_file`: the result, the bytes read and the new file offset. -/
def readFile (image : Image) (deviceLength number count fileOffset : Nat) :
    Except Stuck (Int × List UInt8 × Nat) :=
  let size := headerSize image number
  match stringLengthChunks image (uint32 (number + 16)) with
  | .error e => .error e
  | .ok nameLength =>
      let dataOffset := uint32 (number + 16 + nameLength)
      -- the room before the end of the file, which wraps when the offset lies behind it
      let room := uint64OfInt (uint64OfInt size - fileOffset)
      let maxCount := if uint64OfInt (int32 count) > room then int32 room else int32 count
      let (readCount, bytes) := ramdiskRead image deviceLength (uint32 (dataOffset + fileOffset))
        (uint32 (uint64OfInt maxCount))
      .ok (readCount, bytes,
        if readCount > 0 then uint64 (fileOffset + readCount.toNat) else fileOffset)

/-- The loop of `romfs_getdents`: the records, their length and the new progress. Whether the
record fits is tested before the end of the chain is. -/
def getdentsLoop (image : Image) (size : Nat) :
    Nat → (inode : Nat) → (records : List Dirent) → (totalLength : Nat) →
      Except Stuck (List Dirent × Nat × Nat)
  | 0, _, _, _ => .error .endless
  | fuel + 1, inode, records, totalLength =>
      match stringLength image (uint32 (inode + 16)) with
      | .error e => .error e
      | .ok nameLength =>
          let currentLength := direntLength nameLength
          if currentLength + totalLength > size then .ok (records, totalLength, inode)
          else if inode = 0 then .ok (records, totalLength, 0xffffffff)
          else
            match readString image (uint32 (inode + 16)) nameLength with
            | .error e => .error e
            | .ok (name, _) =>
                getdentsLoop image size fuel (headerNext image inode)
                  (records ++ [dirent inode nameLength name]) (totalLength + currentLength)

/-- `romfs_getdents`: the result, the records in the buffer and the new progress. Every record
has 16 bytes or more, which bounds the number of rounds. -/
def getdents (image : Image) (dirNumber progress size : Nat) :
    Except Stuck (Int × List Dirent × Nat) :=
  let inode := uint32 progress
  if inode = 0xffffffff then .ok (0, [], progress)
  else if inode = 0 ∧ headerType image dirNumber ≠ 1 then .ok (-enotdir, [], progress)
  else
    let inode := if inode = 0 then headerSpec image dirNumber else inode
    match getdentsLoop image size (size + 1) inode [] 0 with
    | .error e => .error e
    | .ok (records, totalLength, progress) => .ok (totalLength, records, progress)

/-! ## Mounting -/

/-- `"-rom1fs-"` -/
def magic : List UInt8 := [0x2d, 0x72, 0x6f, 0x6d, 0x31, 0x66, 0x73, 0x2d]

/-- The fields of the superblock that `romfs_mount` sets: the number of blocks and the root
directory. -/
structure Mounted where
  blocks : Nat
  rootDir : Nat
  deriving DecidableEq, Repr

/-- `romfs_mount`: `none` for the wrong magic number. -/
def mount (image : Image) : Except Stuck (Option Mounted) :=
  if readNoinc image 0 8 ≠ magic then .ok none
  else
    match readString image 16 16 with
    | .error e => .error e
    | .ok (_, length) => .ok (some ⟨readWord image 8, uint32 (16 + length)⟩)

end Romfs

end Vmwos
