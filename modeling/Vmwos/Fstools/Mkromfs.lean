import Vmwos.Fs.Romfs.Tree
import Mathlib.Data.List.DropRight

/-!
# mkromfs

The tool writes the image front to back and goes back to fill in the fields that it does not
know yet. `Stream` is its output file: the bytes written so far and the position. The file begins
with 16 bytes of an array of which only the first 8 are set; the other 8 are the parameter
`uninit`. Both counters of bytes are `int`s, and a list of files for which one overflows has no
image here.

The second part says what the file contains in the end: `addFile` appends one block for each file,
and `finish` changes bytes 8 to 15 only (`mkromfs_eq`).
-/

set_option autoImplicit false

namespace Library.FileBytes

/-- A write at the end appends. -/
theorem write_length (a : FileBytes) (b : List UInt8) : write a a.length b = a ++ b := by
  apply ext_byteAt
  · rw [length_write, List.length_append]
    omega
  · intro i hi
    rw [length_write] at hi
    rw [byteAt_write, byteAt_append]
    by_cases ha : i < a.length
    · rw [if_neg (fun h => Nat.not_lt.2 h.1 ha), if_pos ha]
    · rw [if_pos ⟨Nat.le_of_not_lt ha, by omega⟩, if_neg ha]

/-- A write in the middle replaces. -/
theorem write_middle (a c : FileBytes) {b b' : List UInt8} (hlen : b'.length = b.length) :
    write (a ++ b ++ c) a.length b' = a ++ b' ++ c := by
  apply ext_byteAt
  · simp only [length_write, List.length_append, hlen]
    omega
  · intro i hi
    simp only [byteAt_write, byteAt_append, List.length_append, hlen]
    by_cases ha : i < a.length
    · have hnot : ¬ (a.length ≤ i ∧ i < a.length + b.length) := fun h => Nat.not_lt.2 h.1 ha
      rw [if_neg hnot, if_pos (Nat.lt_add_right _ ha), if_pos ha, if_pos (Nat.lt_add_right _ ha),
        if_pos ha]
    · by_cases hb : i < a.length + b.length
      · rw [if_pos ⟨Nat.le_of_not_lt ha, hb⟩, if_pos hb, if_neg ha]
      · have hnot : ¬ (a.length ≤ i ∧ i < a.length + b.length) := fun h => hb h.2
        rw [if_neg hnot, if_neg hb, if_neg hb]

end Library.FileBytes

namespace Vmwos.Mkromfs

open Library FileBytes Romfs

/-! ## Input files -/

/-- What follows the last slash of a path. -/
def lastComponent (path : CString) : CString := path.rtakeWhile (· ≠ 0x2f)

/-- A file on the command line. A path that ends in a slash, in `.` or in `..` names no file. -/
structure InputFile where
  name : CString
  contents : List UInt8
  noNul : 0 ∉ name
  short : name.length < 256
  isFile : lastComponent name ∉ [[], [0x2e], [0x2e, 0x2e]]

/-! ## The output file -/

/-- A file that is written: its bytes and the position in it. -/
structure Stream where
  bytes : FileBytes
  position : Nat

/-- `fwrite` -/
def Stream.fwrite (fff : Stream) (data : List UInt8) : Stream :=
  ⟨fff.bytes.write fff.position data, fff.position + data.length⟩

/-- `fseek` with `SEEK_SET`. -/
def Stream.fseek (fff : Stream) (position : Nat) : Stream := { fff with position := position }

/-- `htonl`, as the bytes in memory. -/
def htonl (n : Nat) : List UInt8 :=
  [UInt8.ofNat (n >>> 24), UInt8.ofNat (n >>> 16), UInt8.ofNat (n >>> 8), UInt8.ofNat n]

/-- `affs_checksum` -/
def affsChecksum (fff : Stream) (start stop max : Nat) : Nat :=
  let size := stop - start
  let size := if max ≠ 0 then if size > max then max else size else size
  let checksum := ((List.range (size / 4)).map fun i =>
    readWord (fun a => byteAt fff.bytes a) (start + 4 * i)).sum
  uint32 (0xffffffff - uint32 checksum + 1)

def directory : Nat := 1
def regularFile : Nat := 2
def executable : Nat := 8

/-- The output file and `size`. -/
structure State where
  fff : Stream
  size : Nat

/-- The header of the file system, with a place for the size and the checksum. -/
def header (uninit : Nat → UInt8) : State :=
  let fff : Stream := ⟨[], 0⟩
  let fff := fff.fwrite (magic ++ (List.range 8).map uninit)
  let fff := fff.fwrite ([0x56, 0x4d, 0x57, 0x6f, 0x73] ++ List.replicate 11 0)
  ⟨fff, 32⟩

/-- The entries `.` and `..`: the first word, the second word and the name, and the checksum
over both 16-byte halves. -/
def addDot (info spec : Nat) (name : CString) (s : State) : State :=
  let start := s.size
  let fff := s.fff.fwrite (htonl info ++ htonl spec ++ htonl 0 ++ htonl 0)
  let fff := fff.fwrite (name ++ List.replicate (16 - name.length) 0)
  let size := s.size + 0x20
  let checksum := affsChecksum fff start size 0
  let fff := fff.fseek (fff.position - 20)
  let fff := fff.fwrite (htonl checksum)
  ⟨fff.fseek size, size⟩

/-- One round of the loop over the files: `none` when `file_size` or `size` overflows. The first
word is the type alone, without the offset of the next header. -/
def addFile (s : State) (file : InputFile) : Option State :=
  let lastOffset := s.fff.position
  let fff := s.fff.fwrite (List.replicate 16 0)
  let fff := fff.fwrite file.name
  let padding := 16 - file.name.length % 16
  let fff := fff.fwrite (List.replicate padding 0)
  let blarghOffset := fff.position
  let size := s.size + 16 + (file.name.length + padding)
  let fff := fff.fwrite file.contents
  let fileSize := file.contents.length
  let padding := 16 - fileSize % 16
  let fff := fff.fwrite (List.replicate padding 0)
  let size := size + (fileSize + padding)
  if size > 2147483647 then none
  else
    let nextOffset := fff.position
    let fff := fff.fseek lastOffset
    let fff := fff.fwrite (htonl regularFile)
    let fff := fff.fwrite (htonl 0)
    let fff := fff.fwrite (htonl fileSize)
    let checksum := affsChecksum fff lastOffset blarghOffset 0
    let fff := fff.fwrite (htonl checksum)
    some ⟨fff.fseek nextOffset, size⟩

/-- The size, the checksum and the padding to 1 KiB. -/
def finish (s : State) : FileBytes :=
  let fff := s.fff.fseek 8
  let fff := fff.fwrite (htonl s.size)
  let checksum := affsChecksum fff 0 512 s.size
  let fff := fff.fseek 12
  let fff := fff.fwrite (htonl checksum)
  let fff := if s.size < 1024 then (fff.fseek 1023).fwrite [0] else fff
  fff.bytes

/-- `main`: the contents of `out.romfs`. -/
def mkromfs (uninit : Nat → UInt8) (files : List InputFile) : Option FileBytes :=
  let s := header uninit
  let s := addDot (0x40 ||| directory ||| executable) 0x20 [0x2e] s
  let s := addDot 0x60 0x20 [0x2e, 0x2e] s
  (files.foldlM addFile s).map finish

/-! ## What is written -/

/-- The bytes padded with zeros to a multiple of 16, by 16 when they fill one. -/
def padded (l : List UInt8) : List UInt8 := l ++ List.replicate (16 - l.length % 16) 0

/-- The entry `.` or `..`. -/
def dotBlock (info spec : Nat) (name : CString) (checksum : Nat) : List UInt8 :=
  htonl info ++ htonl spec ++ htonl 0 ++ htonl checksum ++
    (name ++ List.replicate (16 - name.length) 0)

/-- The header of a file, its name and its contents. -/
def fileBlock (file : InputFile) (checksum : Nat) : List UInt8 :=
  htonl regularFile ++ htonl 0 ++ htonl file.contents.length ++ htonl checksum ++
    padded file.name ++ padded file.contents

/-- The superblock before the size and checksum are known, and the volume name. -/
def headerBlock (uninit : Nat → UInt8) : List UInt8 :=
  magic ++ (List.range 8).map uninit ++ ([0x56, 0x4d, 0x57, 0x6f, 0x73] ++ List.replicate 11 0)

/-- The state between two entries: the position is at the end of the file, and `size` is its
length. -/
def atEnd (bytes : FileBytes) : State := ⟨⟨bytes, bytes.length⟩, bytes.length⟩

@[simp] theorem length_htonl (n : Nat) : (htonl n).length = 4 := rfl

theorem length_padded (l : List UInt8) : (padded l).length = paddedLength l.length := by
  simp only [padded, List.length_append, List.length_replicate, paddedLength]
  omega

theorem length_fileBlock (file : InputFile) (checksum : Nat) :
    (fileBlock file checksum).length =
      16 + paddedLength file.name.length + paddedLength file.contents.length := by
  simp only [fileBlock, List.length_append, length_htonl, length_padded]

/-- Writing at the end of the file. -/
theorem fwrite_end (bytes : FileBytes) (data : List UInt8) :
    Stream.fwrite ⟨bytes, bytes.length⟩ data = ⟨bytes ++ data, (bytes ++ data).length⟩ := by
  rw [Stream.fwrite, write_length, List.length_append]

/-- Writing over as many bytes in the middle of the file. -/
theorem fwrite_over (a c : FileBytes) {b data : List UInt8} (h : data.length = b.length) :
    Stream.fwrite ⟨a ++ (b ++ c), a.length⟩ data = ⟨(a ++ data) ++ c, (a ++ data).length⟩ := by
  rw [Stream.fwrite, ← List.append_assoc, write_middle a c h, List.length_append]

theorem header_eq (uninit : Nat → UInt8) : header uninit = atEnd (headerBlock uninit) := by
  have hsize : (headerBlock uninit).length = 32 := rfl
  have hmagic := fwrite_end [] (magic ++ (List.range 8).map uninit)
  rw [List.nil_append] at hmagic
  rw [header, atEnd, hsize, show (⟨[], 0⟩ : Stream) = ⟨[], ([] : FileBytes).length⟩ from rfl, hmagic,
    fwrite_end]
  exact congrArg (fun n => State.mk ⟨headerBlock uninit, n⟩ 32) hsize

theorem addDot_eq (bytes : FileBytes) (info spec : Nat) (name : CString)
    (hname : name.length ≤ 16) :
    ∃ checksum, addDot info spec name (atEnd bytes) =
      atEnd (bytes ++ dotBlock info spec name checksum) := by
  obtain ⟨tail, htail⟩ : ∃ tail, name ++ List.replicate (16 - name.length) 0 = tail := ⟨_, rfl⟩
  have hlength : tail.length = 16 := by
    rw [← htail, List.length_append, List.length_replicate]
    omega
  have hback : (bytes ++ (htonl info ++ htonl spec ++ htonl 0 ++ htonl 0) ++ tail).length - 20 =
      (bytes ++ (htonl info ++ htonl spec ++ htonl 0)).length := by
    simp only [List.length_append, length_htonl, hlength]
    omega
  have hsplit : bytes ++ (htonl info ++ htonl spec ++ htonl 0 ++ htonl 0) ++ tail =
      (bytes ++ (htonl info ++ htonl spec ++ htonl 0)) ++ (htonl 0 ++ tail) := by
    simp only [List.append_assoc]
  -- the checksum replaces the zeros at the end of the header
  have hpatch : ∀ checksum, Stream.fwrite
      ⟨bytes ++ (htonl info ++ htonl spec ++ htonl 0 ++ htonl 0) ++ tail,
        (bytes ++ (htonl info ++ htonl spec ++ htonl 0)).length⟩ (htonl checksum) =
      ⟨bytes ++ dotBlock info spec name checksum,
        (bytes ++ (htonl info ++ htonl spec ++ htonl 0) ++ htonl checksum).length⟩ := by
    intro checksum
    have hlen : (htonl checksum).length = (htonl 0).length := rfl
    rw [hsplit, fwrite_over _ _ hlen, dotBlock, htail]
    simp only [List.append_assoc]
  have hend : ∀ checksum, bytes.length + 32 = (bytes ++ dotBlock info spec name checksum).length := by
    intro checksum
    simp only [dotBlock, htail, List.length_append, length_htonl, hlength]
  rw [addDot, atEnd]
  simp only [fwrite_end, htail, Stream.fseek, hback, hpatch]
  exact ⟨_, by rw [atEnd, ← hend (affsChecksum _ _ _ _)]⟩

theorem addFile_eq (bytes : FileBytes) (file : InputFile) :
    ∃ checksum, addFile (atEnd bytes) file =
      if (bytes ++ fileBlock file checksum).length > 2147483647 then none
      else some (atEnd (bytes ++ fileBlock file checksum)) := by
  obtain ⟨tail, htail⟩ : ∃ tail, padded file.name ++ padded file.contents = tail := ⟨_, rfl⟩
  have hbody : bytes ++ List.replicate 16 0 ++ file.name ++
      List.replicate (16 - file.name.length % 16) 0 ++ file.contents ++
        List.replicate (16 - file.contents.length % 16) 0 =
      bytes ++ (htonl 0 ++ (htonl 0 ++ (htonl 0 ++ (htonl 0 ++ tail)))) := by
    rw [← htail]
    simp only [padded, List.append_assoc]
    rfl
  have hlength : ∀ checksum, (bytes ++ fileBlock file checksum).length =
      bytes.length + 16 + (file.name.length + (16 - file.name.length % 16)) +
        (file.contents.length + (16 - file.contents.length % 16)) := by
    intro checksum
    rw [List.length_append, length_fileBlock]
    simp only [paddedLength]
    omega
  have hbodyLength : (bytes ++ (htonl 0 ++ (htonl 0 ++ (htonl 0 ++ (htonl 0 ++ tail))))).length =
      bytes.length + 16 + (file.name.length + (16 - file.name.length % 16)) +
        (file.contents.length + (16 - file.contents.length % 16)) := by
    rw [← hlength 0, fileBlock, ← htail]
    simp only [List.length_append, length_htonl]
    omega
  have hwritten : ∀ checksum, bytes ++ htonl regularFile ++ htonl 0 ++ htonl file.contents.length ++
      htonl checksum ++ tail = bytes ++ fileBlock file checksum := by
    intro checksum
    rw [fileBlock, ← htail]
    simp only [List.append_assoc]
  have hover : ∀ n m : Nat, (htonl n).length = (htonl m).length := fun _ _ => rfl
  simp only [addFile, atEnd, fwrite_end, hbody, Stream.fseek, fwrite_over _ _ (hover _ _), hwritten,
    hlength, hbodyLength]
  exact ⟨_, rfl⟩

/-- Only the size and the checksum of the superblock change at the end. -/
theorem finish_byteAt (bytes : FileBytes) {i : Nat} (hi : i < 8 ∨ 16 ≤ i) :
    byteAt (finish (atEnd bytes)) i = byteAt bytes i := by
  have hfields : ∀ n c : Nat, byteAt ((bytes.write 8 (htonl n)).write 12 (htonl c)) i =
      byteAt bytes i := by
    intro n c
    rw [byteAt_write, byteAt_write, if_neg, if_neg]
    · rw [length_htonl]
      omega
    · rw [length_htonl]
      omega
  rcases Nat.lt_or_ge (atEnd bytes).size 1024 with hshort | hlong
  · simp only [finish, if_pos hshort]
    simp only [Stream.fseek, Stream.fwrite, atEnd]
    rw [byteAt_write]
    split
    · -- the last byte of the padding lies behind the end
      rename_i hlast
      have hend : i = 1023 := Nat.le_antisymm (Nat.le_of_lt_succ hlast.2) hlast.1
      rw [hend, byteAt_of_le (Nat.le_of_lt_succ hshort)]
      rfl
    · exact hfields _ _
  · simp only [finish, if_neg (Nat.not_lt.2 hlong)]
    exact hfields _ _

theorem length_finish (bytes : FileBytes) :
    (finish (atEnd bytes)).length = max 1024 bytes.length := by
  rcases Nat.lt_or_ge (atEnd bytes).size 1024 with hshort | hlong
  · have hshort' : bytes.length < 1024 := hshort
    simp only [finish, if_pos hshort]
    simp only [Stream.fseek, Stream.fwrite, atEnd, length_write, length_htonl, List.length_singleton]
    omega
  · have hlong' : 1024 ≤ bytes.length := hlong
    simp only [finish, if_neg (Nat.not_lt.2 hlong)]
    simp only [Stream.fseek, Stream.fwrite, atEnd, length_write, length_htonl]
    omega

/-- The superblock, the volume name and the entries `.` and `..`, with their checksums. -/
def rootBlock (uninit : Nat → UInt8) (c c' : Nat) : List UInt8 :=
  headerBlock uninit ++ dotBlock 0x49 0x20 [0x2e] c ++ dotBlock 0x60 0x20 [0x2e, 0x2e] c'

theorem length_rootBlock (uninit : Nat → UInt8) (c c' : Nat) :
    (rootBlock uninit c c').length = 96 := rfl

/-- The loop over the files only appends. -/
theorem foldlM_addFile {files : List InputFile} {bytes : FileBytes} {s : State}
    (h : files.foldlM addFile (atEnd bytes) = some s) : ∃ rest, s = atEnd (bytes ++ rest) := by
  induction files generalizing bytes with
  | nil =>
      cases h
      exact ⟨[], by rw [List.append_nil]⟩
  | cons file files ih =>
      rw [List.foldlM_cons] at h
      obtain ⟨checksum, hfile⟩ := addFile_eq bytes file
      rw [hfile] at h
      split at h
      · cases h
      · obtain ⟨rest, hrest⟩ := ih h
        exact ⟨fileBlock file checksum ++ rest, by rw [hrest, List.append_assoc]⟩

theorem mkromfs_eq (uninit : Nat → UInt8) (files : List InputFile) :
    ∃ c c', mkromfs uninit files =
      (files.foldlM addFile (atEnd (rootBlock uninit c c'))).map finish := by
  obtain ⟨c, hdot⟩ := addDot_eq (headerBlock uninit) (0x40 ||| directory ||| executable) 0x20
    [0x2e] (by decide)
  obtain ⟨c', hdotdot⟩ := addDot_eq (headerBlock uninit ++
    dotBlock (0x40 ||| directory ||| executable) 0x20 [0x2e] c) 0x60 0x20
    [0x2e, 0x2e] (by decide)
  refine ⟨c, c', ?_⟩
  rw [mkromfs, header_eq]
  simp only [hdot, hdotdot]
  rfl

/-- No file. -/
theorem mkromfs_nil (uninit : Nat → UInt8) :
    ∃ c c', mkromfs uninit [] = some (finish (atEnd (rootBlock uninit c c'))) :=
  mkromfs_eq uninit []

/-- The number of bytes written for one file, without the padding to 1 KiB. -/
def imageSize (file : InputFile) : Nat :=
  112 + paddedLength file.name.length + paddedLength file.contents.length

/-- One file. -/
theorem mkromfs_singleton (uninit : Nat → UInt8) (file : InputFile) :
    ∃ c c' checksum, mkromfs uninit [file] =
      if imageSize file > 2147483647 then none
      else some (finish (atEnd (rootBlock uninit c c' ++ fileBlock file checksum))) := by
  obtain ⟨c, c', h⟩ := mkromfs_eq uninit [file]
  obtain ⟨checksum, hfile⟩ := addFile_eq (rootBlock uninit c c') file
  have hsize : (rootBlock uninit c c' ++ fileBlock file checksum).length = imageSize file := by
    rw [List.length_append, length_rootBlock, length_fileBlock, imageSize]
    omega
  refine ⟨c, c', checksum, ?_⟩
  rw [h, List.foldlM_cons, hfile, hsize]
  split <;> rfl

/-- One file or more. -/
theorem mkromfs_cons {uninit : Nat → UInt8} {file : InputFile} {files : List InputFile}
    {out : FileBytes} (h : mkromfs uninit (file :: files) = some out) :
    ∃ c c' checksum rest,
      out = finish (atEnd (rootBlock uninit c c' ++ (fileBlock file checksum ++ rest))) := by
  obtain ⟨c, c', heq⟩ := mkromfs_eq uninit (file :: files)
  rw [heq, List.foldlM_cons, Option.map_eq_some_iff] at h
  obtain ⟨s, hs, rfl⟩ := h
  obtain ⟨checksum, hfile⟩ := addFile_eq (rootBlock uninit c c') file
  rw [hfile] at hs
  split at hs
  · cases hs
  · obtain ⟨rest, rfl⟩ := foldlM_addFile hs
    exact ⟨c, c', checksum, rest, by rw [List.append_assoc]⟩

end Vmwos.Mkromfs
