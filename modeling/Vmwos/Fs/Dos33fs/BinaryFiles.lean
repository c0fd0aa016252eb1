import Vmwos.Fs.Dos33fs.Entries

/-!
# Binary files that fit in one T/S list

A binary file keeps its length in its first data sector, which it therefore always
has. `BinaryStep` describes an operation on such a file by the two sizes and the
contents afterwards; writing (`dos33fsWriteFile_binary`) and truncating to any size
(`dos33fsTruncateInode_binary`) are such steps as long as the file fits in the 122
sectors of its first list.
-/

set_option autoImplicit false

namespace Vmwos

open Library

/-- A binary file with its first data sector. -/
structure IsBinary (d : Disk) (root c e : Nat) : Prop where
  file : IsFile d root c e
  type : fileType d c e = 4
  first : dataAt d c e 0 ≠ none

/-- An operation that takes a binary file from one size to another. -/
structure BinaryStep (root c e : Nat) (v v' : Dos33Volume) (size size' : Nat)
    (contents : Nat → UInt8) : Prop where
  step : FileStep root c e v v'
  pool : SamePool root c e v v'
  lists : ∀ j, tsListAt v'.disk c e j = tsListAt v.disk c e j
  first : dataAt v'.disk c e 0 ≠ none
  bytes : ∀ p, fileByte v'.disk c e (p + 4) = contents p
  length : diskLength v.disk c e = size → diskLength v'.disk c e = size'
  tail : (∀ j, (size + 4) / 256 < j → dataAt v.disk c e j = none) →
    ∀ j, (size' + 4) / 256 < j → dataAt v'.disk c e j = none

section Steps

variable {v v' : Dos33Volume} {inode : Inode} {root c e : Nat}

theorem IsBinary.of_step {contents : Nat → UInt8} {size size' : Nat}
    (hb : IsBinary v.disk root c e) (hs : BinaryStep root c e v v' size size' contents) :
    IsBinary v'.disk root c e :=
  ⟨hs.step.file, hs.step.entry.type.trans hb.type, hs.first⟩

theorem endSector_binary (hb : IsBinary v.disk root c e) (size : Nat) :
    endSector v.disk c e size = (size + 4) / 256 := by
  rw [endSector, hb.type]
  rfl

theorem headerLength_binary (hb : IsBinary v.disk root c e) :
    headerLength (fileType v.disk c e) = 4 := by
  rw [hb.type]
  rfl

/-- The two length bytes, read back. -/
theorem diskLength_of_bytes {d : Disk} {size : Nat}
    (h2 : fileByte d c e 2 = UInt8.ofNat (size % 256))
    (h3 : fileByte d c e 3 = UInt8.ofNat (size / 256 % 256)) (hsize : size < 65536) :
    diskLength d c e = size := by
  rw [diskLength, h2, h3, UInt8.toNat_ofNat', UInt8.toNat_ofNat']
  omega

/-- Writing the inode back changes the length only. -/
theorem InodeWritten.binaryStep {size size' : Nat} (hb : IsBinary v.disk root c e)
    (hw : InodeWritten root c e v v' size') (hsize : size' < 65536) (hle : size ≤ size') :
    BinaryStep root c e v v' size size' fun p => fileByte v.disk c e (p + 4) where
  step := hw.step
  pool := hw.pool
  lists := hw.lists
  first := by rw [hw.data]; exact hb.first
  bytes p := by
    rw [hw.bytes hb.type hb.first, if_neg (by omega), if_neg (by omega)]
  length _ := by
    apply diskLength_of_bytes _ _ hsize
    · rw [hw.bytes hb.type hb.first, if_pos rfl]
    · rw [hw.bytes hb.type hb.first, if_neg (by decide), if_pos rfl]
  tail htail j hj := by
    rw [hw.data]
    exact htail j (by omega)

/-- Writing within the size leaves the length alone. -/
theorem WriteEffect.binaryStep {size off : Nat} {buf : List UInt8} (hb : IsBinary v.disk root c e)
    (hw : WriteEffect root c e v v' (off + 4) buf) (hle : off + buf.length ≤ size) :
    BinaryStep root c e v v' size size fun p =>
      if off ≤ p ∧ p < off + buf.length then FileBytes.byteAt buf (p - off)
      else fileByte v.disk c e (p + 4) where
  step := hw.step
  pool := hw.pool
  lists := hw.lists
  first := by
    obtain ⟨n, hn⟩ := Option.ne_none_iff_exists'.1 hb.first
    rw [hw.mono 0 n hn]
    exact Option.some_ne_none n
  bytes p := by
    rw [hw.bytes]
    by_cases hp : off ≤ p ∧ p < off + buf.length
    · rw [if_pos hp, if_pos (by omega)]
      congr 1
      omega
    · rw [if_neg hp, if_neg (by omega)]
  length hlen := by
    rw [diskLength, hw.bytes, hw.bytes, if_neg (by omega), if_neg (by omega), ← diskLength, hlen]
  tail htail j hj := by
    by_contra hne
    rcases hw.new j hne with hold | hnew
    · exact hold (htail j hj)
    · omega

/-- Sectors are zeroed and given back, and the new length is written. -/
theorem ShrinkEffect.binaryStep {v1 : Dos33Volume} {size size' : Nat} (h : WellFormed v root)
    (hb : IsBinary v.disk root c e)
    (hs : ShrinkEffect root c e v v1 (size' + 4) ((size + 4) / 256))
    (hw : InodeWritten root c e v1 v' size') (hsize : size' < 65536) :
    BinaryStep root c e v v' size size' fun p =>
      if size' ≤ p ∧ (p + 4) / 256 ≤ (size + 4) / 256 then 0 else fileByte v.disk c e (p + 4) := by
  have hdata1 : dataAt v1.disk c e 0 = dataAt v.disk c e 0 := by
    rw [hs.data, if_neg (by omega)]
  have hbytes := hw.bytes (hs.step.entry.type.trans hb.type) (by rw [hdata1]; exact hb.first)
  refine ⟨hs.step.trans h hb.file hw.step, hs.pool.trans hw.pool, fun j => ?_, ?_, fun p => ?_,
    fun _ => ?_, fun htail j hj => ?_⟩
  · rw [hw.lists, hs.lists]
  · rw [hw.data, hdata1]
    exact hb.first
  · rw [hbytes, if_neg (by omega), if_neg (by omega), hs.bytes]
    by_cases hp : size' ≤ p ∧ (p + 4) / 256 ≤ (size + 4) / 256
    · rw [if_pos hp, if_pos (by omega)]
    · rw [if_neg hp, if_neg (by omega)]
  · apply diskLength_of_bytes _ _ hsize
    · rw [hbytes, if_pos rfl]
    · rw [hbytes, if_neg (by decide), if_pos rfl]
  · rw [hw.data, hs.data]
    by_cases hle : j ≤ (size + 4) / 256
    · rw [if_pos (by omega)]
    · rw [if_neg (by omega)]
      exact htail j (by omega)

theorem BinaryStep.refl (h : WellFormed v root) (hb : IsBinary v.disk root c e) (size : Nat) :
    BinaryStep root c e v v size size fun p => fileByte v.disk c e (p + 4) :=
  ⟨FileStep.refl h hb.file, SamePool.refl _ _ _ _, fun _ => rfl, hb.first, fun _ => rfl, id, id⟩

theorem BinaryStep.trans {v'' : Dos33Volume} {size size' size'' : Nat} {f g : Nat → UInt8}
    (h : WellFormed v root) (hb : IsBinary v.disk root c e)
    (h1 : BinaryStep root c e v v' size size' f) (h2 : BinaryStep root c e v' v'' size' size'' g) :
    BinaryStep root c e v v'' size size'' g :=
  ⟨h1.step.trans h hb.file h2.step, h1.pool.trans h2.pool,
    fun j => (h2.lists j).trans (h1.lists j), h2.first, h2.bytes, fun hl => h2.length (h1.length hl),
    fun ht => h2.tail (h1.tail ht)⟩

end Steps

/-! ## The operations -/

section Operations

variable {v v' : Dos33Volume} {inode : Inode} {root c e : Nat}

/-- Writing to a binary file: the file grows to hold the bytes, which replace the old
ones. It fails to return only when the pool of free sectors is used up. -/
theorem dos33fsWriteFile_binary (h : WellFormed v root) (hb : IsBinary v.disk root c e)
    (hn : Names inode.number c e) {buf : List UInt8} {off : Nat}
    (hin : max inode.size (off + buf.length) + 4 < 31232) :
    (dos33fsWriteFile v inode buf off = .error .noFreeSector ∧ OutOfSpace root c e v) ∨
      ∃ v', dos33fsWriteFile v inode buf off =
          .ok (buf.length, v', { inode with size := max inode.size (off + buf.length) },
            off + buf.length) ∧
        BinaryStep root c e v v' inode.size (max inode.size (off + buf.length)) fun p =>
          if off ≤ p ∧ p < off + buf.length then FileBytes.byteAt buf (p - off)
          else fileByte v.disk c e (p + 4) := by
  have h64 : uint64 (off + buf.length) = off + buf.length := uint64_of_lt (by omega)
  by_cases hgrow : off + buf.length > inode.size
  · -- the size is raised first
    have hmax : max inode.size (off + buf.length) = off + buf.length := Nat.max_eq_right (by omega)
    have hend : endSector v.disk c e (off + buf.length) < 122 := by
      rw [endSector_binary hb]
      omega
    have hw := growFileOnlyWrite_spec inode h hb.file hn (off + buf.length)
    have hgrown : (if uint64 (off + buf.length) > inode.size then
        dos33fsGrowFile v inode (uint64 (off + buf.length)) else .ok (0, v, inode)) =
          .ok (0, growFileOnlyWrite v inode (off + buf.length)) := by
      rw [h64, if_pos hgrow, dos33fsGrowFile_first h hb.file hn (by omega) hend]
    have hstep := hw.binaryStep hb (by omega) (Nat.le_of_lt hgrow)
    have hb1 := hb.of_step hstep
    have hhdr := headerLength_binary hb1
    rw [hmax]
    have hfit : off + headerLength (fileType (growFileOnlyWrite v inode (off + buf.length)).1.disk
        c e) + max 1 buf.length ≤ 31232 := by
      rw [hhdr]
      omega
    have hn1 : Names (growFileOnlyWrite v inode (off + buf.length)).2.number c e := hn
    rcases dos33fsWriteFile_transfer hw.step.wf hw.step.file hn1 hgrown hfit with
      ⟨herr, hout⟩ | ⟨v2, hok, heff⟩
    · exact Or.inl ⟨herr, hout.of_step h hb.file hw.step hw.pool⟩
    · right
      rw [hhdr] at heff
      have hstep2 := heff.binaryStep hb1 (Nat.le_refl _)
      refine ⟨v2, hok, ?_⟩
      have key := hstep.trans h hb hstep2
      simp only [hstep.bytes] at key
      exact key
  · have hmax : max inode.size (off + buf.length) = inode.size := Nat.max_eq_left (by omega)
    have hgrown : (if uint64 (off + buf.length) > inode.size then
        dos33fsGrowFile v inode (uint64 (off + buf.length)) else .ok (0, v, inode)) =
          .ok (0, v, inode) := by
      rw [h64, if_neg hgrow]
    have hhdr := headerLength_binary hb
    rw [hmax]
    rcases dos33fsWriteFile_transfer h hb.file hn hgrown (by rw [hhdr]; omega) with
      ⟨herr, hout⟩ | ⟨v2, hok, heff⟩
    · exact Or.inl ⟨herr, hout⟩
    · right
      rw [hhdr] at heff
      exact ⟨v2, hok, heff.binaryStep hb (by omega)⟩

/-- Truncating a binary file to any size that fits in its first list. -/
theorem dos33fsTruncateInode_binary (h : WellFormed v root) (hb : IsBinary v.disk root c e)
    (hn : Names inode.number c e) {size : Nat} (hold : inode.size + 4 < 31232)
    (hin : size + 4 < 31232) :
    ∃ v', dos33fsTruncateInode v inode size = .ok (0, v', { inode with size := size }) ∧
      BinaryStep root c e v v' inode.size size fun p =>
        if size ≤ p ∧ (p + 4) / 256 ≤ (inode.size + 4) / 256 ∧ size < inode.size then 0
        else fileByte v.disk c e (p + 4) := by
  rcases Nat.lt_trichotomy size inode.size with hlt | rfl | hgt
  · have hend := endSector_binary hb inode.size
    obtain ⟨v1, hok, heff⟩ := dos33fsShrinkFile_spec h hb.file hn (Nat.le_of_lt hlt)
      (by rw [hend]; omega)
    rw [hend, headerLength_binary hb] at heff
    have hw := growFileOnlyWrite_spec inode heff.step.wf heff.step.file hn size
    have hstep := heff.binaryStep h hb hw (by omega)
    refine ⟨(growFileOnlyWrite v1 inode size).1, ?_, ?_⟩
    · rw [dos33fsTruncateInode, if_neg (by omega), if_pos hlt, hok]
      rfl
    · simp only [hlt, and_true]
      exact hstep
  · refine ⟨v, ?_, ?_⟩
    · rw [dos33fsTruncateInode, if_pos rfl]
    · simp only [Nat.lt_irrefl, and_false, if_false]
      exact BinaryStep.refl h hb inode.size
  · have hend := endSector_binary hb size
    have hw := growFileOnlyWrite_spec inode h hb.file hn size
    refine ⟨(growFileOnlyWrite v inode size).1, ?_, ?_⟩
    · rw [dos33fsTruncateInode, if_neg (by omega), if_neg (by omega),
        dos33fsGrowFile_first h hb.file hn (Nat.le_of_lt hgt) (by rw [hend]; omega)]
      rfl
    · have hnot : ¬ size < inode.size := by omega
      simp only [hnot, and_false, if_false]
      exact hw.binaryStep hb (by omega) (Nat.le_of_lt hgt)

/-- Reading a binary file. -/
theorem dos33fsReadFile_binary (h : WellFormed v root) (hb : IsBinary v.disk root c e)
    (hn : Names inode.number c e) (hin : inode.size + 4 < 31232) (count off : Nat) :
    dos33fsReadFile v.disk inode count off =
      (((min count (inode.size - off) : Nat) : Int),
        fileBytes v.disk c e (off + 4) (min count (inode.size - off)),
        off + min count (inode.size - off)) := by
  have hend : endSector v.disk c e inode.size < 122 := by
    rw [endSector_binary hb]
    omega
  have key := dos33fsReadFile_spec h hb.file hn (by omega) count off (Or.inl hend)
  rwa [headerLength_binary hb] at key

end Operations

end Vmwos
