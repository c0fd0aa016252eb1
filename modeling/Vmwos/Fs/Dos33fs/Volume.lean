import Vmwos.Fs.Types

/-!
# DOS 3.3 volumes: sector addresses and the VTOC

The state a DOS 3.3 file system works on is its block device, the VTOC that
`dos33fs_mount` read into memory (`sb->private`) and the two block counts of the
superblock. This file holds the layout constants, the sector addressing and the
operations on the VTOC: the free counts, the free bitmap and the sector
allocator.

`debug` is a static 0 in the source, so the branches it guards are left out. One
of them is the `-ENOSPC` return of `dos33_allocate_sector`: without it the search
for a free sector goes on for ever on a full disk.
-/

set_option autoImplicit false

namespace Vmwos

/-! ## Layout -/

abbrev dos33BlockSize : Nat := 256
abbrev dos33MaxFilenameSize : Nat := 30
abbrev dos33VtocTrack : Nat := 17

abbrev dos33CatNextTrack : Nat := 0x01
abbrev dos33CatNextSector : Nat := 0x02
abbrev dos33CatFirstEntry : Nat := 0xb
abbrev dos33CatEntrySize : Nat := 0x23
abbrev dos33CatMaxEntries : Nat := 7
abbrev dos33CatOffsetFirstT : Nat := 0x0
abbrev dos33CatOffsetFirstS : Nat := 0x1
abbrev dos33CatOffsetFileType : Nat := 0x2
abbrev dos33CatOffsetFileName : Nat := 0x3
abbrev dos33CatOffsetEndFileName : Nat := 0x20
abbrev dos33CatOffsetFileLengthL : Nat := 0x21
abbrev dos33CatOffsetFileLengthH : Nat := 0x22

abbrev dos33VtocLastTrackAllocated : Nat := 0x30
abbrev dos33VtocAllocDirection : Nat := 0x31
abbrev dos33VtocNumTracks : Nat := 0x34
abbrev dos33VtocNumSectors : Nat := 0x35
abbrev dos33VtocFreeBitmaps : Nat := 0x38

abbrev dos33FileTypeI : Nat := 0x01
abbrev dos33FileTypeA : Nat := 0x02
abbrev dos33FileTypeB : Nat := 0x04

abbrev dos33TsNextT : Nat := 0x01
abbrev dos33TsNextS : Nat := 0x02
abbrev dos33TsFirstTsT : Nat := 0x0C
abbrev dos33TsFirstTsS : Nat := 0x0D
abbrev dos33MaxTsEntries : Nat := 122

/-- The state of a mounted DOS 3.3 file system. -/
structure Dos33Volume where
  vtoc : Block
  disk : Disk
  blocks : Nat
  blocksFree : Nat

/-! ## Sector addresses -/

/-- `ts`: the byte location of a sector. -/
def ts (track sector : Nat) : Nat := (track * 16 + sector) * dos33BlockSize

/-- `get_t` -/
def getT (value : Nat) : Nat := (value / dos33BlockSize) >>> 4

/-- `get_s` -/
def getS (value : Nat) : Nat := (value / dos33BlockSize) &&& 0xf

/-- Track byte of an inode number. -/
def inodeTrack (number : Nat) : Nat := number >>> 16 &&& 0xff

/-- Sector byte of an inode number. -/
def inodeSector (number : Nat) : Nat := number >>> 8 &&& 0xff

/-- Entry byte of an inode number. -/
def inodeEntry (number : Nat) : Nat := number &&& 0xff

/-- The lowest byte of a number. -/
theorem and_ff (n : Nat) : n &&& 0xff = n % 256 := Nat.and_two_pow_sub_one_eq_mod n 8

theorem inodeTrack_lt (number : Nat) : inodeTrack number < 256 := by
  rw [inodeTrack, and_ff]
  exact Nat.mod_lt _ (by decide)

theorem inodeSector_lt (number : Nat) : inodeSector number < 256 := by
  rw [inodeSector, and_ff]
  exact Nat.mod_lt _ (by decide)

/-- `TRACK(8bits)Sector(8bits)Entry(8bits)` -/
def inodeNumber (track sector entry : Nat) : Nat := track <<< 16 ||| sector <<< 8 ||| entry

/-- `inode_to_block` -/
def inodeToBlock (number : Nat) : Nat := ts (inodeTrack number) (inodeSector number)

/-- `block_ops->read` of the sector at `location`. -/
def readBlock (d : Disk) (location : Nat) : Block := d (location / dos33BlockSize)

/-- `block_ops->write` of the sector at `location`. -/
def writeBlock (d : Disk) (location : Nat) (b : Block) : Disk :=
  Function.update d (location / dos33BlockSize) b

/-- Offset of a field of catalog entry `entry` in its sector. -/
def catOffset (entry field : Nat) : Nat :=
  dos33CatFirstEntry + entry * dos33CatEntrySize + field

/-- Store an integer in a byte of a buffer. -/
def setByte (b : Block) (i n : Nat) : Block := Function.update b i (UInt8.ofNat n)

/-! ## Free counts and the free bitmap -/

/-- `ones_lookup` -/
def onesLookup : List Nat := [0, 1, 1, 2, 1, 2, 2, 3, 1, 2, 2, 3, 2, 3, 3, 4]

/-- `find_first_one` of a byte that is not 0. -/
def findFirstOne (byte : UInt8) : Nat := go 8 0
where
  go : Nat → Nat → Nat
    | 0, i => i
    | fuel + 1, i => if byte.toBitVec.getLsbD i then i else go fuel (i + 1)

/-- The set bits of one bitmap byte, nibble by nibble. -/
def onesInByte (byte : UInt8) : Nat :=
  onesLookup.getD (byte.toNat &&& 0xf) 0 + onesLookup.getD (byte.toNat >>> 4 &&& 0xf) 0

/-- `dos33_update_blocks_free` -/
def dos33UpdateBlocksFree (v : Dos33Volume) : Dos33Volume :=
  let tracksPerDisk := (v.vtoc dos33VtocNumTracks).toNat
  let sectorsPerDisk := (v.vtoc dos33VtocNumSectors).toNat
  let sectorsFree := ((List.range tracksPerDisk).map fun i =>
    onesInByte (v.vtoc (dos33VtocFreeBitmaps + i * 4)) +
      onesInByte (v.vtoc (dos33VtocFreeBitmaps + i * 4 + 1))).sum
  { v with blocks := tracksPerDisk * sectorsPerDisk, blocksFree := sectorsFree }

/-- The bitmap byte that holds the bit of a sector: byte 1 of the track's four
for sectors 0 to 7, byte 0 for 8 to 15. -/
def bitmapByte (track sector : Nat) : Nat :=
  if sector < 8 then dos33VtocFreeBitmaps + track * 4 + 1 else dos33VtocFreeBitmaps + track * 4

/-- Position of a sector's bit in its bitmap byte. -/
def bitmapBit (sector : Nat) : Nat := if sector < 8 then sector else sector - 8

/-- `dos33_mark_blocks_free`; a sector out of range only prints a message. -/
def dos33MarkBlocksFree (v : Dos33Volume) (track sector : Nat) : Dos33Volume :=
  if sector < 16 then
    let i := bitmapByte track sector
    let byte := UInt8.ofBitVec ((v.vtoc i).toBitVec ||| 1#8 <<< bitmapBit sector)
    dos33UpdateBlocksFree { v with vtoc := Function.update v.vtoc i byte }
  else v

/-- `dos33_mark_blocks_used` -/
def dos33MarkBlocksUsed (v : Dos33Volume) (track sector : Nat) : Dos33Volume :=
  if sector < 16 then
    let i := bitmapByte track sector
    let byte := UInt8.ofBitVec ((v.vtoc i).toBitVec &&& ~~~(1#8 <<< bitmapBit sector))
    dos33UpdateBlocksFree { v with vtoc := Function.update v.vtoc i byte }
  else v

/-- `dos33fs_write_superblock` -/
def dos33fsWriteSuperblock (v : Dos33Volume) : Dos33Volume :=
  { v with disk := writeBlock v.disk (ts 17 0) v.vtoc }

/-- `dos33_zero_out_sector` -/
def dos33ZeroOutSector (v : Dos33Volume) (track sector : Nat) : Dos33Volume :=
  { v with disk := writeBlock v.disk (ts track sector) fun _ => 0 }

/-! ## The sector allocator -/

/-- The search within one track: byte 1 of its bitmap first, then byte 0. -/
def findFreeInTrack (vtoc : Block) (track : Nat) : Option Nat :=
  let byte1 := vtoc (dos33VtocFreeBitmaps + track * 4 + 1)
  let byte0 := vtoc (dos33VtocFreeBitmaps + track * 4)
  if byte1 ≠ 0 then some (findFirstOne byte1)
  else if byte0 ≠ 0 then some (findFirstOne byte0 + 8)
  else none

/-- Move to the next track in the allocation direction, turning round at the
catalog track when an end of the disk is passed. -/
def nextTrack (tracksPerDisk : Nat) (track dir : Int) : Int × Int :=
  let (track, dir) := if track + dir < 0 then ((dos33VtocTrack : Int), (1 : Int)) else (track + dir, dir)
  if track ≥ tracksPerDisk then ((dos33VtocTrack : Int), (-1 : Int)) else (track, dir)

/-- The search loop of `dos33_allocate_sector`. -/
def allocateLoop (vtoc : Block) (tracksPerDisk : Nat) :
    Nat → Int → Int → Option (Nat × Nat × Int)
  | 0, _, _ => none
  | fuel + 1, track, dir =>
      match findFreeInTrack vtoc track.toNat with
      | some sector => some (track.toNat, sector, dir)
      | none =>
          let next := nextTrack tracksPerDisk track dir
          allocateLoop vtoc tracksPerDisk fuel next.1 next.2

/-- Rounds after which the search loop is back in a state it was in before: the
track is below 256 and the direction is 1, -1 or the one it started with. -/
def allocateRounds : Nat := 768

/-- `dos33_allocate_sector`: the track and sector found, and the volume with the
sector marked used and the VTOC written back. -/
def dos33AllocateSector (v : Dos33Volume) : Except Stuck (Nat × Nat × Dos33Volume) :=
  let startTrack : Int := (v.vtoc dos33VtocLastTrackAllocated).toNat
  let direction : Int := (v.vtoc dos33VtocAllocDirection).toNat
  let direction := if direction = 0xff then -1 else direction
  let tracksPerDisk := (v.vtoc dos33VtocNumTracks).toNat
  match allocateLoop v.vtoc tracksPerDisk allocateRounds startTrack direction with
  | none => .error .noFreeSector
  | some (foundTrack, foundSector, direction) =>
      let v := dos33MarkBlocksUsed v foundTrack foundSector
      let vtoc := setByte v.vtoc dos33VtocLastTrackAllocated foundTrack
      let vtoc := setByte vtoc dos33VtocAllocDirection (direction % 256).toNat
      .ok (foundTrack, foundSector, dos33fsWriteSuperblock { v with vtoc := vtoc })

end Vmwos
