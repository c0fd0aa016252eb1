import Vmwos.Fs.Dos33fs.FirstList

/-!
# The contents of a file

The bytes of a file of any type, as its inode says how many there are. In the first T/S list
reading returns them and writing replaces exactly those written, as long as the size need not be
raised in a file that keeps its length among them: the programs, of types I and A.
-/

set_option autoImplicit false

namespace Vmwos

open Library FileBytes

/-- The bytes of the file behind its header. -/
def fileContents (d : Disk) (c e : Nat) (inode : Inode) : FileBytes :=
  fileBytes d c e (headerLength (fileType d c e)) inode.size

section Contents

variable {v v' : Dos33Volume} {d : Disk} {inode inode' : Inode} {root c e : Nat}

@[simp] theorem length_fileContents (d : Disk) (c e : Nat) (inode : Inode) :
    (fileContents d c e inode).length = inode.size := fileBytes_length _ _ _ _ _

theorem byteAt_fileContents {p : Nat} (hp : p < inode.size) :
    byteAt (fileContents d c e inode) p = fileByte d c e (headerLength (fileType d c e) + p) := by
  have hlt : p < (fileContents d c e inode).length := by
    rw [length_fileContents]
    exact hp
  rw [byteAt_of_lt hlt]
  simp only [fileContents, fileBytes, List.getElem_map, List.getElem_range]

/-- A part of the contents. -/
theorem read_fileContents {off n : Nat} (h : off + n ≤ inode.size) :
    (fileContents d c e inode).read off n =
      fileBytes d c e (off + headerLength (fileType d c e)) n := by
  apply ext_byteAt
  · rw [length_read, length_fileContents, fileBytes_length]
    omega
  · intro i hi
    rw [length_read, length_fileContents] at hi
    have hin : i < n := by omega
    rw [byteAt_read, if_pos hin, byteAt_fileContents (by omega),
      byteAt_of_lt (by rwa [fileBytes_length])]
    simp only [fileBytes, List.getElem_map, List.getElem_range]
    congr 1
    omega

/-- Reading from the first list: the file or what is wanted ends there. -/
theorem dos33fsReadFile_contents (h : WellFormed v root) (hf : IsFile v.disk root c e)
    (hn : Names inode.number c e) (hlt : inode.size + 4 < 2147483648) {count off : Nat}
    (hin : endSector v.disk c e inode.size < 122 ∨
      off + headerLength (fileType v.disk c e) + max 1 count ≤ 31232) :
    dos33fsReadFile v.disk inode count off =
      ((((fileContents v.disk c e inode).read off count).length : Int),
        (fileContents v.disk c e inode).read off count,
        off + ((fileContents v.disk c e inode).read off count).length) := by
  have hlen : ((fileContents v.disk c e inode).read off count).length =
      min count (inode.size - off) := by
    rw [length_read, length_fileContents]
  have hread : (fileContents v.disk c e inode).read off count =
      fileBytes v.disk c e (off + headerLength (fileType v.disk c e))
        (min count (inode.size - off)) := by
    rw [← read_length_read, hlen]
    by_cases hoff : off ≤ inode.size
    · rw [read_fileContents (by omega)]
    · -- behind the end there is nothing
      have hzero : min count (inode.size - off) = 0 := by omega
      rw [hzero, FileBytes.read, List.take_zero]
      rfl
  rw [dos33fsReadFile_spec h hf hn hlt count off hin, hread, fileBytes_length]

/-- The size need not be raised, or the length is kept apart from the contents. -/
def MayGrow (d : Disk) (c e size newSize : Nat) : Prop :=
  newSize > size → hasLength (fileType d c e) = true → fileType d c e = dos33FileTypeB

/-- Making the file large enough keeps its bytes. -/
theorem dos33fsGrowFile_contents (h : WellFormed v root) (hf : IsFile v.disk root c e)
    (hn : Names inode.number c e) {newSize : Nat} (hgrow : newSize > inode.size)
    (hfit : newSize + headerLength (fileType v.disk c e) ≤ 31232)
    (hmay : MayGrow v.disk c e inode.size newSize) {r : Int}
    (hok : dos33fsGrowFile v inode newSize = .ok (r, v', inode')) :
    r = 0 ∧ inode' = { inode with size := newSize } ∧ FileStep root c e v v' ∧
      ∀ p < newSize, fileByte v'.disk c e (headerLength (fileType v.disk c e) + p) =
        fileByte v.disk c e (headerLength (fileType v.disk c e) + p) := by
  have hcur : endSector v.disk c e inode.size < 122 := by
    rw [endSector]
    omega
  obtain ⟨hr, hinode, hresized⟩ :=
    dos33fsGrowFile_spec h hf hn (Nat.le_of_lt hgrow) (by omega) (Or.inl hcur) hok
  refine ⟨hr, hinode, hresized.step, fun p hp => ?_⟩
  apply dos33fsGrowFile_fileByte h hf hn (Nat.le_of_lt hgrow) (by omega) (Or.inl hcur) hok (by omega)
  -- the length of a binary file is in its header
  rintro ⟨hlength, hfour⟩
  have htype : fileType v.disk c e = 4 := hmay hgrow hlength
  have hlt := hfour htype
  rw [htype] at hlt
  exact absurd hlt (Nat.not_lt.2 (Nat.le_add_right 4 p))

/-- Writing in the first list: all of the buffer is written, and nothing else changes. -/
theorem dos33fsWriteFile_contents (h : WellFormed v root) (hf : IsFile v.disk root c e)
    (hn : Names inode.number c e) {buf : List UInt8} {off off' : Nat}
    (hfit : off + headerLength (fileType v.disk c e) + max 1 buf.length ≤ 31232)
    (hmay : MayGrow v.disk c e inode.size (off + buf.length)) {r : Int}
    (hok : dos33fsWriteFile v inode buf off = .ok (r, v', inode', off')) :
    r = buf.length ∧ off' = off + buf.length ∧
      inode' = { inode with size := max inode.size (off + buf.length) } ∧ FileStep root c e v v' ∧
      (fileContents v.disk c e inode).WrittenAt off buf (fileContents v'.disk c e inode') := by
  -- the file as it is when the transfer begins
  obtain ⟨v1, hgrown, hstep, hbytes⟩ : ∃ v1,
      (if uint64 (off + buf.length) > inode.size then
        dos33fsGrowFile v inode (uint64 (off + buf.length)) else .ok (0, v, inode)) =
          .ok (0, v1, { inode with size := max inode.size (off + buf.length) }) ∧
      FileStep root c e v v1 ∧ ∀ p < max inode.size (off + buf.length),
        fileByte v1.disk c e (headerLength (fileType v.disk c e) + p) =
          fileByte v.disk c e (headerLength (fileType v.disk c e) + p) := by
    have h64 : uint64 (off + buf.length) = off + buf.length := uint64_of_lt (by omega)
    rw [h64]
    by_cases hgrow : off + buf.length > inode.size
    · have hmax : max inode.size (off + buf.length) = off + buf.length :=
        Nat.max_eq_right (Nat.le_of_lt hgrow)
      rw [if_pos hgrow, hmax]
      cases hg : dos33fsGrowFile v inode (off + buf.length) with
      | error err =>
          simp only [dos33fsWriteFile, h64, if_pos hgrow, hg] at hok
          cases hok
      | ok result =>
          obtain ⟨r1, v1, inode1⟩ := result
          obtain ⟨rfl, rfl, hstep, hbytes⟩ :=
            dos33fsGrowFile_contents h hf hn hgrow (by omega) hmay hg
          exact ⟨v1, rfl, hstep, hbytes⟩
    · have hmax : max inode.size (off + buf.length) = inode.size :=
        Nat.max_eq_left (Nat.le_of_not_lt hgrow)
      rw [if_neg hgrow, hmax]
      exact ⟨v, rfl, FileStep.refl h hf, fun _ _ => rfl⟩
  have htype : fileType v1.disk c e = fileType v.disk c e := hstep.entry.type
  have hn1 : Names ({ inode with size := max inode.size (off + buf.length) } : Inode).number c e := hn
  rcases dos33fsWriteFile_transfer hstep.wf hstep.file hn1 hgrown (by rw [htype]; exact hfit) with
    ⟨herr, -⟩ | ⟨v2, hw, heff⟩
  · rw [herr] at hok
    cases hok
  · rw [hw] at hok
    simp only [Except.ok.injEq, Prod.mk.injEq] at hok
    obtain ⟨rfl, rfl, rfl, rfl⟩ := hok
    have htype2 : fileType v2.disk c e = fileType v.disk c e := heff.step.entry.type.trans htype
    refine ⟨rfl, rfl, rfl, hstep.trans h hf heff.step, ?_⟩
    have hnew : ∀ p < max inode.size (off + buf.length),
        byteAt (fileContents v2.disk c e { inode with size := max inode.size (off + buf.length) }) p =
          if off ≤ p ∧ p < off + buf.length then byteAt buf (p - off)
          else fileByte v.disk c e (headerLength (fileType v.disk c e) + p) := by
      intro p hp
      rw [byteAt_fileContents hp, htype2, heff.bytes, htype, ← hbytes p hp]
      by_cases hin : off ≤ p ∧ p < off + buf.length
      · rw [if_pos hin, if_pos (by omega)]
        congr 1
        omega
      · rw [if_neg hin, if_neg (by omega)]
    apply WrittenAt.of_byteAt
    · rw [length_fileContents, length_fileContents]
    · intro i hi
      have hin : off ≤ off + i ∧ off + i < off + buf.length := by omega
      rw [hnew _ (by omega), if_pos hin, Nat.add_sub_cancel_left]
    · intro p hp hout
      rw [length_fileContents] at hp
      rw [hnew p (by omega), if_neg hout, byteAt_fileContents hp]

end Contents

end Vmwos
