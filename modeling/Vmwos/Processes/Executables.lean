import Vmwos.Processes.BfltLoader
import Vmwos.Fs.Dos33fs.File

/-!
# Executables on the two file systems

The reads of both file systems copy no more bytes than they are asked for, so the files of both are
files for the loader: `dos33Executable` and `romfsExecutable`.
-/

set_option autoImplicit false

namespace Vmwos

open Library FileBytes

/-! ## DOS 3.3 -/

theorem length_readSector_le (d : Disk) (lastSector lastSectorOffset : Int) (w : TsWalk)
    (which sectorOffset : Nat) (currentSector : Int) (desired : Nat) :
    (readSector d lastSector lastSectorOffset w which sectorOffset currentSector desired).1.length +
      (readSector d lastSector lastSectorOffset w which sectorOffset currentSector desired).2 ≤
        desired := by
  simp only [readSector, copyOut, List.length_map, List.length_range]
  split <;> omega

theorem length_readLoop_le {d : Disk} {lastSector lastSectorOffset : Int} {fuel : Nat} {w : TsWalk}
    {advance which sectorOffset : Nat} {currentSector : Int} {desired : Nat} {bytes : List UInt8}
    (h : readLoop d lastSector lastSectorOffset fuel w advance which sectorOffset currentSector
      desired = some bytes) : bytes.length ≤ desired := by
  induction fuel generalizing w advance which sectorOffset currentSector desired bytes with
  | zero =>
      cases h
      exact Nat.zero_le _
  | succ fuel ih =>
      rw [readLoop] at h
      split at h
      · cases h
      · rename_i w' hw'
        have hsector := length_readSector_le d lastSector lastSectorOffset w' which sectorOffset
          currentSector desired
        simp only at h
        split at h
        · cases h
          exact Nat.le_of_add_right_le hsector
        · obtain ⟨rest, hrest, rfl⟩ := Option.map_eq_some_iff.1 h
          rw [List.length_append]
          have hle := ih hrest
          omega

/-- A file of a DOS 3.3 volume. -/
def dos33Executable (d : Disk) (inode : Inode) : ExecutableFile where
  size := inode.size
  read count fileOffset :=
    ((dos33fsReadFile d inode count fileOffset).1, (dos33fsReadFile d inode count fileOffset).2.1)
  length_le count fileOffset _ _ := by
    simp only [dos33fsReadFile]
    split
    · exact Nat.zero_le _
    · split
      · exact Nat.zero_le _
      · rename_i bytes hbytes
        exact length_readLoop_le hbytes

/-! ## ROMFS -/

theorem uint64OfInt_neg {n : Nat} (h0 : 0 < n) (h : n ≤ 18446744073709551616) :
    uint64OfInt (-(n : Int)) = 18446744073709551616 - n := by
  unfold uint64OfInt
  omega

theorem uint32_uint64OfInt_int32 (n : Nat) : uint32 (uint64OfInt (int32 n)) = uint32 n := by
  unfold uint32 uint64OfInt int32
  omega

/-- `romfs_read_file` asks the device for no more than `count` bytes, from any 32-bit offset. -/
theorem romfsCount_le {size count fileOffset : Nat} (hsize : size < 2147483648)
    (hcount : count < 4294967296) (hoffset : fileOffset < 4294967296) :
    uint32 (uint64OfInt
      (if uint64OfInt (int32 count) > uint64OfInt ((size : Int) - fileOffset) then
        int32 (uint64OfInt ((size : Int) - fileOffset)) else int32 count)) ≤ count := by
  rcases Nat.lt_or_ge size fileOffset with hbehind | hwithin
  · -- behind the end of the file the room has wrapped around
    have hroom : (size : Int) - fileOffset = -((fileOffset - size : Nat) : Int) := by omega
    rw [hroom, uint64OfInt_neg (by omega) (by omega)]
    rcases Nat.lt_or_ge count 2147483648 with hshort | hlong
    · rw [int32_of_lt hshort, uint64OfInt_natCast (by omega), if_neg (by omega),
        uint64OfInt_natCast (by omega)]
      exact Nat.mod_le _ _
    · have hint : int32 count = -((4294967296 - count : Nat) : Int) := by
        unfold int32
        omega
      rw [hint, uint64OfInt_neg (by omega) (by omega)]
      split
      · rw [uint32_uint64OfInt_int32]
        unfold uint32
        omega
      · rw [uint64OfInt_neg (by omega) (by omega)]
        unfold uint32
        omega
  · have hroom : (size : Int) - fileOffset = ((size - fileOffset : Nat) : Int) := by omega
    rw [hroom, uint64OfInt_natCast (by omega),
      int32_of_lt (show size - fileOffset < 2147483648 by omega)]
    rcases Nat.lt_or_ge count 2147483648 with hshort | hlong
    · rw [int32_of_lt hshort, uint64OfInt_natCast (by omega)]
      split
      · rename_i hmore
        rw [uint64OfInt_natCast (by omega), uint32_of_lt (by omega)]
        exact Nat.le_of_lt hmore
      · rw [uint64OfInt_natCast (by omega)]
        exact Nat.mod_le _ _
    · have hint : int32 count = -((4294967296 - count : Nat) : Int) := by
        unfold int32
        omega
      rw [hint, uint64OfInt_neg (by omega) (by omega), if_pos (by omega),
        uint64OfInt_natCast (by omega), uint32_of_lt (by omega)]
      omega

/-- `romfs_read_file` copies no more than it is asked for. -/
theorem romfsReadFile_length_le {image : Romfs.Image}
    {deviceLength number count fileOffset newOffset : Nat} {result : Int} {bytes : List UInt8}
    (hsize : 0 ≤ Romfs.headerSize image number) (hcount : count < 4294967296)
    (hoffset : fileOffset < 4294967296)
    (h : Romfs.readFile image deviceLength number count fileOffset = .ok (result, bytes, newOffset)) :
    bytes.length ≤ count := by
  obtain ⟨size, hsizeEq⟩ := Int.eq_ofNat_of_zero_le hsize
  have hlt : size < 2147483648 := by
    unfold Romfs.headerSize int32 at hsizeEq
    omega
  have hle := romfsCount_le hlt hcount hoffset
  obtain ⟨device, hdev⟩ : ∃ device, Romfs.ramdiskRead image deviceLength = device := ⟨_, rfl⟩
  have hanswer : ∀ offset length, (device offset length).2.length ≤ length := by
    intro offset length
    rw [← hdev, Romfs.ramdiskRead]
    split
    · exact Nat.zero_le _
    · simp [Romfs.readNoinc]
  rw [Romfs.readFile, hdev, hsizeEq, uint64OfInt_natCast (by omega)] at h
  cases hname : Romfs.stringLengthChunks image (uint32 (number + 16)) with
  | error e =>
      rw [hname] at h
      cases h
  | ok nameLength =>
      rw [hname] at h
      simp only [Except.ok.injEq, Prod.mk.injEq] at h
      rw [← h.2.1]
      exact Nat.le_trans (hanswer _ _) hle

/-- A file of a ROMFS image, whose size is not negative. -/
def romfsExecutable (image : Romfs.Image) (deviceLength number : Nat)
    (hsize : 0 ≤ Romfs.headerSize image number) : ExecutableFile where
  size := uint64OfInt (Romfs.headerSize image number)
  read count fileOffset :=
    match Romfs.readFile image deviceLength number count fileOffset with
    | .error _ => (-1, [])
    | .ok (result, bytes, _) => (result, bytes)
  length_le count fileOffset hcount hoffset := by
    split
    · exact Nat.zero_le _
    · rename_i h
      exact romfsReadFile_length_le hsize hcount hoffset h

end Vmwos
