import Vmwos.Fs.Dos33fs.Volume

/-!
# DOS 3.3 catalog entries and inodes

An inode number names a catalog entry: the track and sector of its catalog
sector and its index there. The operations of this file read and write that
entry, and the length that a file keeps in its own first data sector.
-/

set_option autoImplicit false

namespace Vmwos

/-- The first half of every operation on a file: the catalog sector is loaded
and the pointer to the first T/S list and the type are taken from the entry. An
unlinked file has `0xfe` for the track and the track itself at the end of the
file name. -/
structure CatPointer where
  nextT : Nat
  nextS : Nat
  type : Nat
  currentBlock : Block

/-- Load the catalog entry of an inode. -/
def loadCatalogEntry (d : Disk) (number : Nat) : CatPointer :=
  let b := readBlock d (inodeToBlock number)
  let entry := inodeEntry number
  let nextT := (b (catOffset entry dos33CatOffsetFirstT)).toNat
  { nextT := if nextT = 0xfe then (b (catOffset entry dos33CatOffsetEndFileName)).toNat else nextT
    nextS := (b (catOffset entry dos33CatOffsetFirstS)).toNat
    type := (b (catOffset entry dos33CatOffsetFileType)).toNat &&& 0x7f
    currentBlock := b }

/-- The types whose length is kept in the file. -/
def hasLength (type : Nat) : Bool :=
  type = dos33FileTypeB || type = dos33FileTypeI || type = dos33FileTypeA

/-- The location of the first data sector: the first entry of the first T/S list. -/
def firstDataLocation (d : Disk) (number : Nat) : Nat :=
  let c := loadCatalogEntry d number
  let b := readBlock d (ts c.nextT c.nextS)
  ts (b dos33TsFirstTsT).toNat (b dos33TsFirstTsS).toNat

/-- `dos33_get_filesize` -/
def dos33GetFilesize (d : Disk) (number type : Nat) : Nat :=
  if hasLength type then
    let b := readBlock d (firstDataLocation d number)
    if type = dos33FileTypeI ∨ type = dos33FileTypeA then
      ((b 0).toNat &&& 0xff ||| ((b 1).toNat &&& 0xff) <<< 8) + 2
    else (b 2).toNat &&& 0xff ||| ((b 3).toNat &&& 0xff) <<< 8
  else 0

/-- `dos33_set_filesize`; `size` is an `int32_t`. -/
def dos33SetFilesize (d : Disk) (number type size : Nat) : Disk :=
  if hasLength type then
    let location := firstDataLocation d number
    let b := readBlock d location
    let b :=
      if type = dos33FileTypeI ∨ type = dos33FileTypeA then
        setByte (setByte b 0 (size &&& 0xff)) 1 (size >>> 8 &&& 0xff)
      else setByte (setByte b 2 (size &&& 0xff)) 3 (size >>> 8 &&& 0xff)
    writeBlock d location b
  else d

/-- The timestamps and owner of every DOS 3.3 inode. -/
def dos33InodeDone (inode : Inode) : Inode :=
  { inode with
    atime := 334939200, mtime := 334939200, ctime := 334939200
    uid := 0, gid := 0, rdev := 0, hardLinks := 1 }

/-- `dos33_read_inode` -/
def dos33ReadInode (d : Disk) (inode : Inode) : Int × Inode :=
  let entry := inodeEntry inode.number
  if entry = 0xff ∨ entry = 0xfe then
    (0, dos33InodeDone { inode with mode := 0o777 ||| sIfdir, size := 0 })
  else if entry ≥ dos33CatMaxEntries then (-enoent, inode)
  else
    let b := readBlock d (inodeToBlock inode.number)
    let type := (b (catOffset entry dos33CatOffsetFileType)).toNat
    let mode := if type &&& 0x80 ≠ 0 then 0o444 else 0o666
    let mode := mode ||| sIfreg
    let mode := if type &&& 0x7f = dos33FileTypeB then mode ||| 0o111 else mode
    let blocks := (b (catOffset entry dos33CatOffsetFileLengthL)).toNat +
      (b (catOffset entry dos33CatOffsetFileLengthH)).toNat <<< 8
    (0, dos33InodeDone
      { inode with
        mode := mode, blocks := blocks, blocksize := dos33BlockSize
        size := dos33GetFilesize d inode.number (type &&& 0x7f) })

theorem dos33ReadInode_number (d : Disk) (inode : Inode) :
    (dos33ReadInode d inode).2.number = inode.number := by
  unfold dos33ReadInode
  simp only
  split
  · rfl
  · split
    · rfl
    · rfl

/-- `dos33fs_write_inode`. The length is written to the first data sector before
the catalog sector goes back to disk. -/
def dos33fsWriteInode (d : Disk) (inode : Inode) : Disk :=
  let entry := inodeEntry inode.number
  if entry = 0xff ∨ entry = 0xfe ∨ entry ≥ dos33CatMaxEntries then d
  else
    let location := inodeToBlock inode.number
    let b := readBlock d location
    let type := (b (catOffset entry dos33CatOffsetFileType)).toNat
    let type := if inode.mode &&& 0o222 ≠ 0 then type &&& 0x7f else type ||| 0x80
    let blocksize := inode.size % dos33BlockSize + 1
    let blocksize := if blocksize > 12 then blocksize + 1 else blocksize
    let blocksize := blocksize + 1
    let b := setByte b (catOffset entry dos33CatOffsetFileType) type
    let b := setByte b (catOffset entry dos33CatOffsetFileLengthL) (blocksize &&& 0xff)
    let b := setByte b (catOffset entry dos33CatOffsetFileLengthH) (blocksize >>> 8)
    writeBlock (dos33SetFilesize d inode.number (type &&& 0x7f) inode.size) location b

/-- `dos33fs_unlink_inode` -/
def dos33fsUnlinkInode (v : Dos33Volume) (inode : Inode) : Int × Dos33Volume :=
  let entry := inodeEntry inode.number
  if entry = 0xff ∨ entry = 0xfe then (-eisdir, v)
  else if entry ≥ dos33CatMaxEntries then (-enoent, v)
  else
    let location := inodeToBlock inode.number
    let b := readBlock v.disk location
    let oldTrack := (b (catOffset entry dos33CatOffsetFirstT)).toNat
    let b := setByte b (catOffset entry dos33CatOffsetFirstT) 0xfe
    let b := setByte b (catOffset entry dos33CatOffsetEndFileName) oldTrack
    (0, { v with disk := writeBlock v.disk location b })

/-- The name as it is stored: padded with spaces to 30 characters, high bits set. -/
def dos33Filename (name : CString) : CString :=
  (name ++ List.replicate (dos33MaxFilenameSize - name.length) 0x20).map fun c => c ||| 0x80

/-- Store a list of bytes in a buffer. -/
def setBytes (b : Block) (i : Nat) : List UInt8 → Block
  | [] => b
  | c :: cs => setBytes (Function.update b i c) (i + 1) cs

/-- `dos33fs_link_inode` -/
def dos33fsLinkInode (v : Dos33Volume) (inode : Inode) (name : CString) :
    Int × Dos33Volume × Inode :=
  if name.length > dos33MaxFilenameSize then (-e2big, v, inode)
  else
    let location := inodeToBlock inode.number
    let b := readBlock v.disk location
    let b := setBytes b (catOffset (inodeEntry inode.number) dos33CatOffsetFileName)
      (dos33Filename name)
    (0, { v with disk := writeBlock v.disk location b },
      { inode with hardLinks := inode.hardLinks + 1 })

/-! ## Looking a name up -/

/-- Rounds after which a walk along a chain of sectors is back at a sector it has
visited: a track byte and a sector byte name the next one. -/
def chainRounds : Nat := 65536

/-- The first byte of an entry that names no file: never used, deleted, unlinked. -/
def entryHidden (firstT : UInt8) : Bool := firstT = 0 || firstT = 0xfe || firstT = 0xff

/-- The name of a catalog entry as a C string: 30 bytes, trailing `0xa0` padding
removed, high bits cleared. Clearing the high bit of `0x80` ends the string. -/
def decodeFilename (b : Block) (entry : Nat) : CString :=
  let raw := (List.range dos33MaxFilenameSize).map fun i =>
    b (catOffset entry dos33CatOffsetFileName + i)
  let raw := (raw.reverse.dropWhile (· = 0xa0)).reverse
  ((raw.takeWhile (· ≠ 0)).map (· &&& 0x7f)).takeWhile (· ≠ 0)

/-- The search of one catalog sector from entry `i` on. -/
def findInSector (b : Block) (searchname : CString) : Nat → Nat → Option Nat
  | 0, _ => none
  | fuel + 1, i =>
      if entryHidden (b (catOffset i dos33CatOffsetFirstT)) then findInSector b searchname fuel (i + 1)
      else if strncmp searchname (decodeFilename b i) searchname.length = 0 then some i
      else findInSector b searchname fuel (i + 1)

/-- The walk along the catalog in `dos33fs_find_filename`. -/
def findFilenameLoop (d : Disk) (searchname : CString) :
    Nat → Nat → Nat → Except Stuck (Option Nat)
  | 0, _, _ => .error .endless
  | fuel + 1, nextT, nextS =>
      let b := readBlock d (ts nextT nextS)
      match findInSector b searchname dos33CatMaxEntries 0 with
      | some i => .ok (some (inodeNumber nextT nextS i))
      | none =>
          let t := (b dos33CatNextTrack).toNat
          let s := (b dos33CatNextSector).toNat
          if t = 0 ∧ s = 0 then .ok none else findFilenameLoop d searchname fuel t s

/-- `dos33fs_find_filename`: the inode number found, or `none` for the result -1. -/
def dos33fsFindFilename (d : Disk) (dirNumber : Nat) (searchname : CString) :
    Except Stuck (Option Nat) :=
  if strncmp searchname [0x2e] searchname.length = 0 then .ok (some (dirNumber ||| 0xff))
  else if strncmp searchname [0x2e, 0x2e] searchname.length = 0 then
    .ok (some (dirNumber - inodeEntry dirNumber ||| 0xfe))
  else findFilenameLoop d searchname chainRounds (inodeTrack dirNumber) (inodeSector dirNumber)

/-- `dos33_lookup_inode_dir`: the inode number after the component, or `none` when
the result is negative. -/
def dos33LookupInodeDir (d : Disk) (dirNumber : Nat) (name : CString) :
    Except Stuck (Option Nat) :=
  if strncmp name [0x2e, 0x2e] name.length = 0 then .ok (some dirNumber)
  else if strncmp name [0x2e] name.length = 0 then .ok (some dirNumber)
  else dos33fsFindFilename d dirNumber name

end Vmwos
