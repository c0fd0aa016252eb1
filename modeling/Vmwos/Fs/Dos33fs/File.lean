import Vmwos.Fs.Dos33fs.Catalog

/-!
# DOS 3.3 file contents

Reading, writing, growing and shrinking a file walk its chain of track/sector
lists; making and destroying an inode set the chain up and give it back.
-/

set_option autoImplicit false

namespace Vmwos

/-- Bytes before the contents in the first data sector: a binary file starts with
its address and length. -/
def headerLength (type : Nat) : Nat := if type = dos33FileTypeB then 4 else 0

/-! ## The walk along the T/S lists -/

/-- The variables of the walk: the list last loaded and its location, and the
pointer the next list is taken from. -/
structure TsWalk where
  blockLocation : Nat
  nextT : Nat
  nextS : Nat
  currentBlock : Block

/-- The walk before any list is loaded: `current_block` holds the catalog sector. -/
def CatPointer.walk (c : CatPointer) (blockLocation : Nat) : TsWalk :=
  ⟨blockLocation, c.nextT, c.nextS, c.currentBlock⟩

/-- `while (advance_ts)`: load the next list `n` times; `none` when the pointer is
0/0 ("Off end"). The pointer for the time after is taken from `current_block`
before the list is read into it. -/
def advanceTs (d : Disk) : Nat → TsWalk → Option TsWalk
  | 0, w => some w
  | n + 1, w =>
      let location := ts w.nextT w.nextS
      if location = 0 then none
      else advanceTs d n
        { blockLocation := location
          nextT := (w.currentBlock dos33TsNextT).toNat
          nextS := (w.currentBlock dos33TsNextS).toNat
          currentBlock := readBlock d location }

/-- Track byte of entry `which` of a T/S list. -/
def tsEntryT (b : Block) (which : Nat) : Nat := (b (dos33TsFirstTsT + 2 * which)).toNat

/-- Sector byte of entry `which` of a T/S list. -/
def tsEntryS (b : Block) (which : Nat) : Nat := (b (dos33TsFirstTsS + 2 * which)).toNat

/-- Store a pointer in entry `which` of a T/S list. -/
def setTsEntry (b : Block) (which t s : Nat) : Block :=
  setByte (setByte b (dos33TsFirstTsT + 2 * which) t) (dos33TsFirstTsS + 2 * which) s

/-- Store the pointer to the next T/S list. -/
def setTsNext (b : Block) (t s : Nat) : Block :=
  setByte (setByte b dos33TsNextT t) dos33TsNextS s

/-! ## Reading -/

/-- The bytes `begin .. begin + length - 1` of a buffer. -/
def copyOut (b : Block) (start length : Nat) : List UInt8 :=
  (List.range length).map fun i => b (start + i)

/-- One data sector of a file; a hole reads as zeros. -/
def loadData (d : Disk) (b : Block) (which : Nat) : Block :=
  if tsEntryT b which = 0 ∧ tsEntryS b which = 0 then fun _ => 0
  else readBlock d (ts (tsEntryT b which) (tsEntryS b which))

/-- `which_sector++`; past the last entry of a list `advance_ts` is raised. -/
def nextEntry (which : Nat) : Nat × Nat :=
  if which + 1 ≥ dos33MaxTsEntries then (1, which + 1 - dos33MaxTsEntries) else (0, which + 1)

/-- What `dos33fs_read_file` copies from one data sector, and the count still
desired. -/
def readSector (d : Disk) (lastSector lastSectorOffset : Int) (w : TsWalk)
    (which sectorOffset : Nat) (currentSector : Int) (desired : Nat) : List UInt8 × Nat :=
  let data := loadData d w.currentBlock which
  let copyLength := min (dos33BlockSize - sectorOffset) desired
  -- at the end of the file the request is cut down to what is left
  let atEnd := currentSector = lastSector ∧
    ((sectorOffset + copyLength : Nat) : Int) > lastSectorOffset
  let copyLength := if atEnd then (lastSectorOffset - sectorOffset).toNat else copyLength
  let desired := if atEnd then copyLength else desired
  (copyOut data sectorOffset copyLength, desired - copyLength)

/-- The transfer loop of `dos33fs_read_file`: the bytes copied, or `none` when the
chain of lists ends too early. -/
def readLoop (d : Disk) (lastSector lastSectorOffset : Int) :
    Nat → TsWalk → (advance which sectorOffset : Nat) → (currentSector : Int) →
      (desired : Nat) → Option (List UInt8)
  | 0, _, _, _, _, _, _ => some []
  | fuel + 1, w, advance, which, sectorOffset, currentSector, desired =>
      match advanceTs d advance w with
      | none => none
      | some w =>
          let r := readSector d lastSector lastSectorOffset w which sectorOffset currentSector desired
          if r.2 = 0 then some r.1
          else (readLoop d lastSector lastSectorOffset fuel w (nextEntry which).1 (nextEntry which).2 0
            (currentSector + 1) r.2).map (r.1 ++ ·)

/-- `dos33fs_read_file`: the result, the bytes copied to `buf` and the new offset. -/
def dos33fsReadFile (d : Disk) (inode : Inode) (count fileOffset : Nat) :
    Int × List UInt8 × Nat :=
  let c := loadCatalogEntry d inode.number
  let header := headerLength c.type
  let adjustedOffset := uint32 (fileOffset + header)
  let lastSector := int32 ((uint64 (inode.size + header) / dos33BlockSize : Nat) : Int)
  let lastSectorOffset := int32 ((inode.size + header : Nat) - lastSector * dos33BlockSize)
  if fileOffset > inode.size then (0, [], fileOffset)
  else
    let sector := adjustedOffset / dos33BlockSize
    match readLoop d lastSector lastSectorOffset (count + 1) (c.walk 0)
        (sector / dos33MaxTsEntries + 1) (sector % dos33MaxTsEntries)
        (adjustedOffset % dos33BlockSize) sector count with
    | none => (-enoent, [], fileOffset)
    | some bytes => (bytes.length, bytes, fileOffset + bytes.length)

/-! ## Growing -/

/-- `grow_file_only_write`: record the new size in the inode, on disk and in the
VTOC sector. -/
def growFileOnlyWrite (v : Dos33Volume) (inode : Inode) (newSize : Nat) :
    Dos33Volume × Inode :=
  let inode := { inode with size := newSize }
  (dos33fsWriteSuperblock { v with disk := dos33fsWriteInode v.disk inode }, inode)

/-- The loop of `dos33fs_grow_file` that appends an empty T/S list each time the
sector index passes the end of the current one. -/
def growLoop : Nat → Dos33Volume → TsWalk → (tsListOffset : Int) →
    Except Stuck Dos33Volume
  | 0, v, _, _ => .ok v
  | n + 1, v, w, tsListOffset =>
      if tsListOffset + 1 ≥ dos33MaxTsEntries then
        match dos33AllocateSector v with
        | .error e => .error e
        | .ok (track, sector, v) =>
            let v := dos33ZeroOutSector v track sector
            let b := setTsNext w.currentBlock track sector
            let v := { v with disk := writeBlock v.disk w.blockLocation b }
            let location := ts track sector
            growLoop n v ⟨location, track, sector, readBlock v.disk location⟩
              (tsListOffset + 1 - dos33MaxTsEntries)
      else growLoop n v w (tsListOffset + 1)

/-- `dos33fs_grow_file` -/
def dos33fsGrowFile (v : Dos33Volume) (inode : Inode) (newSize : Nat) :
    Except Stuck (Int × Dos33Volume × Inode) :=
  let c := loadCatalogEntry v.disk inode.number
  let header := headerLength c.type
  let lastSector := int32 ((uint64 (newSize + header) / dos33BlockSize : Nat) : Int)
  let currentSector := int32 ((uint64 (inode.size + header) / dos33BlockSize : Nat) : Int)
  if currentSector = lastSector then .ok (0, growFileOnlyWrite v inode newSize)
  else
    let tsListOffset :=
      if currentSector < dos33MaxTsEntries then currentSector
      else currentSector % dos33MaxTsEntries
    match advanceTs v.disk ((currentSector / dos33MaxTsEntries).toNat + 1) (c.walk 0) with
    | none => .ok (-enoent, v, inode)
    | some w =>
        match growLoop (lastSector - currentSector).toNat v w tsListOffset with
        | .error e => .error e
        | .ok v => .ok (0, growFileOnlyWrite v inode newSize)

/-! ## Writing -/

/-- The bytes of `buf` copied into a buffer from index `start` on. -/
def copyIn (b : Block) (start : Nat) (buf : List UInt8) : Block :=
  setBytes b start buf

/-- The data sector that `dos33fs_write_file` writes to, with its contents. A hole
gets a sector of its own, which is put into the T/S list. -/
def fillHole (v : Dos33Volume) (w : TsWalk) (which : Nat) :
    Except Stuck (Nat × Block × Dos33Volume × TsWalk) :=
  let dataT := tsEntryT w.currentBlock which
  let dataS := tsEntryS w.currentBlock which
  if dataT = 0 ∧ dataS = 0 then
    match dos33AllocateSector v with
    | .error e => .error e
    | .ok (t, s, v) =>
        let b := setTsEntry w.currentBlock which t s
        .ok (ts t s, fun _ => 0, { v with disk := writeBlock v.disk w.blockLocation b },
          { w with currentBlock := b })
  else .ok (ts dataT dataS, readBlock v.disk (ts dataT dataS), v, w)

/-- What `dos33fs_write_file` does to one data sector; the rest of `buf` is left. -/
def writeSector (v : Dos33Volume) (w : TsWalk) (which sectorOffset : Nat) (buf : List UInt8) :
    Except Stuck (Dos33Volume × TsWalk × List UInt8) :=
  match fillHole v w which with
  | .error e => .error e
  | .ok (location, data, v, w) =>
      let copyLength := min (dos33BlockSize - sectorOffset) buf.length
      let data := copyIn data sectorOffset (buf.take copyLength)
      .ok ({ v with disk := writeBlock v.disk location data }, w, buf.drop copyLength)

/-- The transfer loop of `dos33fs_write_file`: 0, or `-ENOENT` when the chain of
lists ends too early. -/
def writeLoop : Nat → Dos33Volume → TsWalk → (advance which sectorOffset : Nat) →
    List UInt8 → Except Stuck (Int × Dos33Volume)
  | 0, v, _, _, _, _, _ => .ok (0, v)
  | fuel + 1, v, w, advance, which, sectorOffset, buf =>
      match advanceTs v.disk advance w with
      | none => .ok (-enoent, v)
      | some w =>
          match writeSector v w which sectorOffset buf with
          | .error e => .error e
          | .ok (v, w, rest) =>
              if rest.length = 0 then .ok (0, v)
              else writeLoop fuel v w (nextEntry which).1 (nextEntry which).2 0 rest

/-- `dos33fs_write_file`: the result, the volume, the inode and the new offset. -/
def dos33fsWriteFile (v : Dos33Volume) (inode : Inode) (buf : List UInt8) (fileOffset : Nat) :
    Except Stuck (Int × Dos33Volume × Inode × Nat) :=
  let wanted := uint64 (fileOffset + buf.length)
  let grown : Except Stuck (Int × Dos33Volume × Inode) :=
    if wanted > inode.size then dos33fsGrowFile v inode wanted else .ok (0, v, inode)
  match grown with
  | .error e => .error e
  | .ok (result, v, inode) =>
      if result < 0 then .ok (result, v, inode, fileOffset)
      else
        let c := loadCatalogEntry v.disk inode.number
        let adjustedOffset := uint32 (fileOffset + headerLength c.type)
        let sector := adjustedOffset / dos33BlockSize
        match writeLoop (buf.length + 1) v (c.walk 0) (sector / dos33MaxTsEntries + 1)
            (sector % dos33MaxTsEntries) (adjustedOffset % dos33BlockSize) buf with
        | .error e => .error e
        | .ok (result, v) =>
            if result < 0 then .ok (result, v, inode, fileOffset)
            else .ok (buf.length, v, inode, fileOffset + buf.length)

/-! ## Shrinking -/

/-- `while (advance_ts)` of `dos33fs_shrink_file`: as `advanceTs`, but once lists
are to be deleted the list at `block_location` is marked free first. -/
def shrinkAdvanceTs (v : Dos33Volume) (delete : Bool) : Nat → TsWalk →
    Dos33Volume × Option TsWalk
  | 0, w => (v, some w)
  | n + 1, w =>
      let v :=
        if delete then dos33MarkBlocksFree v (getT w.blockLocation) (getS w.blockLocation) else v
      let location := ts w.nextT w.nextS
      if location = 0 then (v, none)
      else shrinkAdvanceTs v delete n
        { blockLocation := location
          nextT := (w.currentBlock dos33TsNextT).toNat
          nextS := (w.currentBlock dos33TsNextS).toNat
          currentBlock := readBlock v.disk location }

/-- What `dos33fs_shrink_file` does to one data sector: zero it from
`sector_offset` on, and give it back when nothing of it is kept. -/
def shrinkSector (v : Dos33Volume) (w : TsWalk) (which sectorOffset : Nat) :
    Dos33Volume × TsWalk :=
  let dataT := tsEntryT w.currentBlock which
  let dataS := tsEntryS w.currentBlock which
  if dataT = 0 ∧ dataS = 0 then (v, w)
  else
    let location := ts dataT dataS
    let data := readBlock v.disk location
    let data : Block := fun i => if sectorOffset ≤ i ∧ i < dos33BlockSize then 0 else data i
    let v := { v with disk := writeBlock v.disk location data }
    if sectorOffset = 0 then
      let b := setTsEntry w.currentBlock which 0 0
      let v := { v with disk := writeBlock v.disk w.blockLocation b }
      (dos33MarkBlocksFree v (getT location) (getS location), { w with currentBlock := b })
    else (v, w)

/-- The loop of `dos33fs_shrink_file` up to the old last sector: 0, or `-ENOENT`. -/
def shrinkLoop (lastSector : Int) : Nat → Dos33Volume → TsWalk →
    (advance which sectorOffset : Nat) → (currentSector : Int) → (delete : Bool) →
      Except Stuck (Int × Dos33Volume)
  | 0, _, _, _, _, _, _, _ => .error .endless
  | fuel + 1, v, w, advance, which, sectorOffset, currentSector, delete =>
      match shrinkAdvanceTs v delete advance w with
      | (v, none) => .ok (-enoent, v)
      | (v, some w) =>
          let (v, w) := shrinkSector v w which sectorOffset
          if currentSector = lastSector then
            .ok (0, if delete then
              dos33MarkBlocksFree v (getT w.blockLocation) (getS w.blockLocation) else v)
          else if which + 1 ≥ dos33MaxTsEntries then
            -- the pointer to the next list goes, and all further lists with it
            let b := setTsNext w.currentBlock 0 0
            let v := { v with disk := writeBlock v.disk w.blockLocation b }
            shrinkLoop lastSector fuel v { w with currentBlock := b } (nextEntry which).1
              (nextEntry which).2 0 (currentSector + 1) true
          else shrinkLoop lastSector fuel v w (nextEntry which).1 (nextEntry which).2 0
            (currentSector + 1) delete

/-- Rounds after which the loop of `dos33fs_shrink_file` has ended: it leaves the list it starts
in and the one behind it at most once each, and the link of the second has been set to 0/0. -/
def shrinkLimit : Nat := 246

/-- `dos33fs_shrink_file` -/
def dos33fsShrinkFile (v : Dos33Volume) (inode : Inode) (size : Nat) :
    Except Stuck (Int × Dos33Volume × Inode) :=
  let c := loadCatalogEntry v.disk inode.number
  let header := headerLength c.type
  let adjustedOffset := uint32 (size + header)
  let lastSector := int32 ((uint64 (inode.size + header) / dos33BlockSize : Nat) : Int)
  if size > inode.size then .ok (-e2big, v, inode)
  else
    let sector := adjustedOffset / dos33BlockSize
    match shrinkLoop lastSector shrinkLimit v (c.walk 0)
        (sector / dos33MaxTsEntries + 1) (sector % dos33MaxTsEntries)
        (adjustedOffset % dos33BlockSize) sector false with
    | .error e => .error e
    | .ok (result, v) =>
        if result < 0 then .ok (result, v, inode)
        else .ok (0, growFileOnlyWrite v inode size)

/-- `dos33fs_truncate_inode` -/
def dos33fsTruncateInode (v : Dos33Volume) (inode : Inode) (size : Nat) :
    Except Stuck (Int × Dos33Volume × Inode) :=
  if size = inode.size then .ok (0, v, inode)
  else if size < inode.size then dos33fsShrinkFile v inode size
  else dos33fsGrowFile v inode size

/-! ## Making and destroying inodes -/

/-- `dos33fs_destroy_inode` -/
def dos33fsDestroyInode (v : Dos33Volume) (inode : Inode) :
    Except Stuck (Int × Dos33Volume × Inode) :=
  match dos33fsTruncateInode v inode 0 with
  | .error e => .error e
  | .ok (result, v, inode) =>
      let entry := inodeEntry inode.number
      if result < 0 then .ok (result, v, inode)
      else if entry = 0xff ∨ entry = 0xfe then .ok (-eisdir, v, inode)
      else if entry ≥ dos33CatMaxEntries then .ok (-enoent, v, inode)
      else
        let location := inodeToBlock inode.number
        let b := readBlock v.disk location
        let firstT := (b (catOffset entry dos33CatOffsetFirstT)).toNat
        let oldTrack :=
          if firstT = 0xfe then (b (catOffset entry dos33CatOffsetEndFileName)).toNat else firstT
        let b :=
          if firstT = 0xfe then b else setByte b (catOffset entry dos33CatOffsetEndFileName) firstT
        let b := setByte b (catOffset entry dos33CatOffsetFirstT) 0xff
        let v := { v with disk := writeBlock v.disk location b }
        let tsSector := (b (catOffset entry dos33CatOffsetFirstS)).toNat
        .ok (0, dos33MarkBlocksFree v oldTrack tsSector, inode)

/-- The entry of a catalog sector that `dos33fs_make_inode` takes: the first never
used or deleted one from index `i` on. -/
def findFreeEntry (b : Block) : Nat → Nat → Option Nat
  | 0, _ => none
  | fuel + 1, i =>
      let firstT := b (catOffset i dos33CatOffsetFirstT)
      if firstT = 0 ∨ firstT = 0xff then some i else findFreeEntry b fuel (i + 1)

/-- The walk along the catalog in `dos33fs_make_inode`: track, sector and index of
the entry to use, or `none` when there is no more room. -/
def makeInodeLoop (d : Disk) : Nat → Nat → Nat → Except Stuck (Option (Nat × Nat × Nat))
  | 0, _, _ => .error .endless
  | fuel + 1, nextT, nextS =>
      let b := readBlock d (ts nextT nextS)
      match findFreeEntry b dos33CatMaxEntries 0 with
      | some i => .ok (some (nextT, nextS, i))
      | none =>
          let t := (b dos33CatNextTrack).toNat
          let s := (b dos33CatNextSector).toNat
          if t = 0 ∧ s = 0 then .ok none else makeInodeLoop d fuel t s

/-- `dos33fs_make_inode`: a new type-B file with an empty T/S list and one data
sector for its length. -/
def dos33fsMakeInode (v : Dos33Volume) (dirInode inode : Inode) :
    Except Stuck (Int × Dos33Volume × Inode) :=
  match makeInodeLoop v.disk chainRounds (inodeTrack dirInode.number)
      (inodeSector dirInode.number) with
  | .error e => .error e
  | .ok none => .ok (-e2big, v, inode)
  | .ok (some (nextT, nextS, entry)) =>
      let inode := { inode with number := inodeNumber nextT nextS entry, sb := dirInode.sb }
      let b := readBlock v.disk (ts nextT nextS)
      match dos33AllocateSector v with
      | .error e => .error e
      | .ok (track, sector, v) =>
          let v := dos33ZeroOutSector v track sector
          let b := setByte b (catOffset entry dos33CatOffsetFirstT) track
          let b := setByte b (catOffset entry dos33CatOffsetFirstS) sector
          let b := setByte b (catOffset entry dos33CatOffsetFileType) dos33FileTypeB
          let v := { v with disk := writeBlock v.disk (ts nextT nextS) b }
          match dos33AllocateSector v with
          | .error e => .error e
          | .ok (dataT, dataS, v) =>
              let v := dos33ZeroOutSector v dataT dataS
              let b := setTsEntry (fun _ => 0) 0 dataT dataS
              let d := writeBlock v.disk (ts track sector) b
              let d := dos33SetFilesize d inode.number dos33FileTypeB 0
              let (result, inode) := dos33ReadInode d inode
              .ok (result, { v with disk := d }, inode)

end Vmwos
