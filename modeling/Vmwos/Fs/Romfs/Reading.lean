import Vmwos.Fs.Romfs.Lookup

/-!
# Reading files of a ROMFS image

`romfs_read_file` finds the contents of a file behind its name and cuts the count down to the room
that is left before the end. The room is a 64-bit unsigned value, so behind the end there seems to
be a lot of it: `readFile_contents_iff` says that from an offset in the file or at its end the
bytes of the file are read, and from behind the end always others.
-/

set_option autoImplicit false

namespace Vmwos.Romfs

open Library FileBytes

/-- A regular file: its contents, as many bytes as the header says, are on the device behind the
name. -/
structure FileAt (image : Image) (deviceLength number : Nat) (name : CString)
    (contents : FileBytes) : Prop where
  type : headerType image number = 2
  size : headerSize image number = contents.length
  nameAt : NameAt image (number + 16) name
  bytes : readNoinc image (number + 16 + paddedLength name.length) contents.length = contents
  onDevice : number + 16 + paddedLength name.length + contents.length ≤ deviceLength
  inRange : number + 16 + paddedLength name.length + contents.length < 4294967296

variable {image : Image} {deviceLength number count offset : Nat} {name : CString}
  {contents : FileBytes}

theorem length_readNoinc (image : Image) (offset size : Nat) :
    (readNoinc image offset size).length = size := by
  simp [readNoinc]

/-- A part of what is read is what is read from there. -/
theorem read_readNoinc {start length offset count : Nat} (h : offset + count ≤ length) :
    FileBytes.read (readNoinc image start length) offset count =
      readNoinc image (start + offset) count := by
  apply ext_byteAt
  · rw [length_read, length_readNoinc, length_readNoinc]
    omega
  · intro i hi
    rw [length_read, length_readNoinc] at hi
    have hcount : i < count := by omega
    rw [byteAt_read, if_pos hcount, byteAt_of_lt (by rw [length_readNoinc]; omega),
      byteAt_of_lt (by rwa [length_readNoinc])]
    simp [readNoinc, Nat.add_assoc]

theorem headerSize_lt (image : Image) (header : Nat) : headerSize image header < 2147483648 := by
  unfold headerSize int32
  omega

theorem FileAt.length_lt (h : FileAt image deviceLength number name contents) :
    contents.length < 2147483648 := by
  have hlt := headerSize_lt image number
  rw [h.size] at hlt
  omega

/-- The bytes asked for: those before the end of the file, at most `count`. A count that is negative
as an `int32_t` is a large one as a `uint64_t`. -/
theorem maxCount_eq {length : Nat} (hcount : count < 4294967296) (hlength : length < 2147483648)
    (hoffset : offset ≤ length) :
    (if uint64OfInt (int32 count) > uint64OfInt ((length : Int) - offset) then
      int32 (uint64OfInt ((length : Int) - offset) : Nat) else int32 count) =
        ((min count (length - offset) : Nat) : Int) := by
  have hroom : (length : Int) - offset = ((length - offset : Nat) : Int) := by omega
  have hlt : length - offset < 2147483648 := Nat.lt_of_le_of_lt (Nat.sub_le _ _) hlength
  rw [hroom, uint64OfInt_natCast (by omega), int32_of_lt hlt]
  rcases Nat.lt_or_ge count 2147483648 with hpos | hneg
  · rw [int32_of_lt hpos, uint64OfInt_natCast (by omega)]
    split
    · rename_i hmore
      rw [Nat.min_eq_right (Nat.le_of_lt hmore)]
    · rename_i hless
      rw [Nat.min_eq_left (Nat.le_of_not_lt hless)]
  · have hlarge : uint64OfInt (int32 count) > length - offset := by
      unfold uint64OfInt int32
      omega
    rw [if_pos hlarge, Nat.min_eq_right (Nat.le_trans (Nat.le_of_lt hlt) hneg)]

/-- From behind the end of the file some bytes are asked for too. -/
theorem maxCount_behind {length : Nat} (hpos : 0 < count) (hcount : count < 2147483648)
    (hlength : length < 2147483648) (hbehind : length < offset)
    (hoffset : offset < 18446744073709551616) :
    ∃ amount : Nat, 0 < amount ∧ amount < 2147483648 ∧
      (if uint64OfInt (int32 count) > uint64OfInt ((length : Int) - offset) then
        int32 (uint64OfInt ((length : Int) - offset) : Nat) else int32 count) = (amount : Int) := by
  obtain ⟨room, hroom⟩ : ∃ room, uint64OfInt ((length : Int) - offset) = room := ⟨_, rfl⟩
  have hroom_pos : 0 < room := by
    unfold uint64OfInt at hroom
    omega
  rw [hroom, int32_of_lt hcount, uint64OfInt_natCast (by omega)]
  split
  · rename_i hmore
    have hlt : room < 2147483648 := Nat.lt_trans hmore hcount
    exact ⟨room, hroom_pos, hlt, int32_of_lt hlt⟩
  · exact ⟨count, hpos, hcount, rfl⟩

/-- What the driver asks the device for, it returns. -/
theorem FileAt.readFile_eq (h : FileAt image deviceLength number name contents) {amount : Nat}
    (hamount : amount < 2147483648)
    (hmax : (if uint64OfInt (int32 count) > uint64OfInt ((contents.length : Int) - offset) then
      int32 (uint64OfInt ((contents.length : Int) - offset) : Nat) else int32 count) =
        (amount : Int)) {r : Int} {bytes : List UInt8}
    (hanswer : ramdiskRead image deviceLength
      (uint32 (number + 16 + paddedLength name.length + offset)) amount = (r, bytes)) :
    readFile image deviceLength number count offset =
      .ok (r, bytes, if r > 0 then uint64 (offset + r.toNat) else offset) := by
  have hlength := h.length_lt
  have hlt := h.inRange
  have hname : uint32 (number + 16) = number + 16 := uint32_of_lt (by omega)
  have hstart : uint32 (number + 16 + paddedLength name.length) =
      number + 16 + paddedLength name.length := uint32_of_lt (by omega)
  have hasked : uint32 (uint64OfInt (amount : Int)) = amount := by
    rw [uint64OfInt_natCast (by omega)]
    exact uint32_of_lt (by omega)
  obtain ⟨device, hdev⟩ : ∃ device, ramdiskRead image deviceLength = device := ⟨_, rfl⟩
  rw [hdev] at hanswer
  rw [readFile, hdev, hname, h.nameAt.stringLengthChunks, h.size, uint64OfInt_natCast (by omega)]
  simp only [hmax, hstart, hasked, hanswer]

/-- From an offset in the file, or at its end, its bytes are read. -/
theorem FileAt.readFile_contents (h : FileAt image deviceLength number name contents)
    (hcount : count < 4294967296) (hoffset : offset ≤ contents.length) :
    readFile image deviceLength number count offset =
      .ok ((contents.read offset count).length, contents.read offset count,
        offset + (contents.read offset count).length) := by
  have hlength := h.length_lt
  have hdevice := h.onDevice
  have hlt := h.inRange
  have hlen : (contents.read offset count).length = min count (contents.length - offset) :=
    length_read _ _ _
  have hcut : contents.read offset count =
      contents.read offset (min count (contents.length - offset)) := by
    rw [← hlen, read_length_read]
  have hmax := maxCount_eq hcount hlength hoffset
  obtain ⟨amount, hamount⟩ : ∃ amount, min count (contents.length - offset) = amount := ⟨_, rfl⟩
  rw [hamount] at hmax hcut hlen
  have hle : offset + amount ≤ contents.length := by omega
  have hshort : amount < 2147483648 := by omega
  have hfrom : uint32 (number + 16 + paddedLength name.length + offset) =
      number + 16 + paddedLength name.length + offset := uint32_of_lt (by omega)
  -- the device answers with the bytes of the contents
  have hanswer : ramdiskRead image deviceLength
      (uint32 (number + 16 + paddedLength name.length + offset)) amount =
        ((amount : Int), contents.read offset count) := by
    rw [hfrom, ramdiskRead, if_neg (by omega), int32_of_lt hshort, hcut, ← read_readNoinc hle,
      h.bytes]
  rw [h.readFile_eq hshort hmax hanswer, hlen]
  simp only [Except.ok.injEq, Prod.mk.injEq, true_and]
  split
  · rw [Int.toNat_natCast, uint64_of_lt (by omega)]
  · rename_i hzero
    have hzero : amount = 0 := by omega
    rw [hzero, Nat.add_zero]

/-- Behind its end something is read, or an error returned. -/
theorem FileAt.readFile_behind (h : FileAt image deviceLength number name contents)
    (hpos : 0 < count) (hcount : count < 2147483648) (hbehind : contents.length < offset)
    (hoffset : offset < 18446744073709551616) {r : Int} {bytes : List UInt8} {offset' : Nat}
    (hread : readFile image deviceLength number count offset = .ok (r, bytes, offset')) : r ≠ 0 := by
  obtain ⟨amount, hamount, hshort, hmax⟩ :=
    maxCount_behind hpos hcount h.length_lt hbehind hoffset
  obtain ⟨r', bytes', hanswer⟩ : ∃ r' bytes', ramdiskRead image deviceLength
      (uint32 (number + 16 + paddedLength name.length + offset)) amount = (r', bytes') :=
    ⟨_, _, rfl⟩
  rw [h.readFile_eq hshort hmax hanswer] at hread
  simp only [Except.ok.injEq, Prod.mk.injEq] at hread
  obtain ⟨rfl, -⟩ := hread
  rw [ramdiskRead] at hanswer
  split at hanswer
  · cases hanswer
    decide
  · rw [int32_of_lt hshort] at hanswer
    cases hanswer
    exact Int.natCast_ne_zero.2 (Nat.ne_of_gt hamount)

/-- Nothing is read where nothing is asked for. -/
theorem FileAt.readFile_nothing (h : FileAt image deviceLength number name contents)
    (offset : Nat) : readFile image deviceLength number 0 offset =
      .ok ((contents.read offset 0).length, contents.read offset 0,
        offset + (contents.read offset 0).length) := by
  have hmax : (if uint64OfInt (int32 (0 : Nat)) > uint64OfInt ((contents.length : Int) - offset) then
      int32 (uint64OfInt ((contents.length : Int) - offset) : Nat) else int32 (0 : Nat)) =
        ((0 : Nat) : Int) := if_neg (Nat.not_lt_zero _)
  have hanswer : ramdiskRead image deviceLength
      (uint32 (number + 16 + paddedLength name.length + offset)) 0 = ((0 : Int), []) := by
    rw [ramdiskRead, if_neg (Nat.not_lt_zero _)]
    rfl
  rw [h.readFile_eq (by decide) hmax hanswer, FileBytes.read, List.take_zero]
  rfl

/-- A read gives the bytes of the file from the offset on, as many as there are and not more than
asked for, exactly if the offset is not behind the end of the file, or nothing is asked for. -/
theorem readFile_contents_iff (h : FileAt image deviceLength number name contents)
    (hcount : count < 2147483648) (hoffset : offset < 18446744073709551616) :
    readFile image deviceLength number count offset =
        .ok ((contents.read offset count).length, contents.read offset count,
          offset + (contents.read offset count).length) ↔
      offset ≤ contents.length ∨ count = 0 := by
  constructor
  · intro hread
    rw [← not_lt, ← Nat.le_zero, ← not_lt, ← not_and_or]
    rintro ⟨hbehind, hpos⟩
    have hlen : (contents.read offset count).length = 0 := by
      rw [length_read]
      omega
    rw [hlen] at hread
    exact h.readFile_behind hpos hcount hbehind hoffset hread rfl
  · rintro (hle | rfl)
    · exact h.readFile_contents (Nat.lt_trans hcount (by decide)) hle
    · exact h.readFile_nothing offset

theorem oneFileImage_fileAt : FileAt oneFileImage 144 96 [0x66] [0x61, 0x62, 0x63] where
  type := by decide
  size := by decide
  nameAt := ⟨by decide, by decide, by decide⟩
  bytes := by decide
  onDevice := by decide
  inRange := by decide

theorem readFile_contents_iff_oneFile :
    readFile oneFileImage 144 96 5 1 = .ok (2, [0x62, 0x63], 3) ↔ 1 ≤ 3 ∨ 5 = 0 :=
  readFile_contents_iff oneFileImage_fileAt (by decide) (by decide)

/-- From offset 5 of a file of three bytes two bytes are read. -/
theorem readFile_beyond : FileAt oneFileImage 144 96 [0x66] [0x61, 0x62, 0x63] ∧
    readFile oneFileImage 144 96 2 5 = .ok (2, [0, 0], 7) ∧
    ¬ readFile oneFileImage 144 96 2 5 =
      .ok ((FileBytes.read [0x61, 0x62, 0x63] 5 2).length, FileBytes.read [0x61, 0x62, 0x63] 5 2,
        5 + (FileBytes.read [0x61, 0x62, 0x63] 5 2).length) := by
  have hread : readFile oneFileImage 144 96 2 5 = .ok (2, [0, 0], 7) := by decide +kernel
  refine ⟨oneFileImage_fileAt, hread, ?_⟩
  rw [hread]
  decide

end Vmwos.Romfs
