import Vmwos.Lib.Base

/-!
# Block devices and in-core inodes

A block device is a byte array whose accesses in range succeed. All DOS 3.3
accesses are to one aligned 256-byte sector, so the array is kept as its
sequence of sectors: byte `a` of the device is byte `a % 256` of sector
`a / 256`.
-/

set_option autoImplicit false

namespace Vmwos

/-- A 256-byte buffer or sector; only the indices below 256 are used. -/
abbrev Block := Nat → UInt8

/-- The contents of a block device. -/
abbrev Disk := Nat → Block

/-- `NUM_INODES` -/
abbrev numInodes : Nat := 64

instance : NeZero numInodes := ⟨by decide⟩

/-- `MAX_MOUNTS` -/
abbrev maxMounts : Nat := 8

instance : NeZero maxMounts := ⟨by decide⟩

/-- `struct inode_type`. The superblock pointer is an index into
`superblock_table`, or `none` for a value that points to no superblock (NULL, or
the fill pattern of a freed slot). -/
structure Inode where
  device : Nat
  number : Nat
  count : Nat
  mode : Nat
  hardLinks : Int
  uid : Int
  gid : Int
  rdev : Int
  size : Nat
  blocksize : Nat
  blocks : Nat
  atime : Nat
  mtime : Nat
  ctime : Nat
  sb : Option (Fin maxMounts)
  deriving DecidableEq, Repr

/-- A slot of the inode table that has never been used. -/
def Inode.zeroed : Inode := ⟨0, 0, 0, 0, 0, 0, 0, 0, 0, 0, 0, 0, 0, 0, none⟩

/-! ## Mode bits -/

/-- `S_IFMT` -/
abbrev sIfmt : Nat := 0xf000
/-- `S_IFREG` -/
abbrev sIfreg : Nat := 0x8000
/-- `S_IFDIR` -/
abbrev sIfdir : Nat := 0x4000
/-- `S_IFCHR` -/
abbrev sIfchr : Nat := 0x2000
/-- `S_IFBLK` -/
abbrev sIfblk : Nat := 0x6000

end Vmwos
