import Vmwos.Fs.Dos33fs.BinaryFiles

/-!
# Operations whose walk stays in the first list

The walk along the T/S lists goes wrong when it leaves the first list of a file. Here
are the conditions under which writing, truncating and destroying stay in it, for files
of any type and of any size that two bytes can hold: `WriteStays`, `TruncateStays`. A
file may grow far beyond its first list; it is leaving the list in the middle of a
transfer, or starting behind it, that the conditions exclude. Such an operation keeps
the volume well formed and the file a file, and keeps the length on disk in step with
the inode (`Keeps`).
-/

set_option autoImplicit false

namespace Vmwos

open Library

/-! ## The conditions -/

/-- The walk of growing starts in the first list, or there is none. -/
def GrowStays (d : Disk) (c e size newSize : Nat) : Prop :=
  endSector d c e size < 122 ∨ endSector d c e size = endSector d c e newSize

/-- Writing `count` bytes at `offset` to a file of the given size stays in the first
list, and the new size fits in two bytes. -/
structure WriteStays (d : Disk) (c e size offset count : Nat) : Prop where
  size_lt : max size (offset + count) < 65536
  grow : offset + count > size → GrowStays d c e size (offset + count)
  transfer : offset + headerLength (fileType d c e) + max 1 count ≤ 31232

/-- Truncating a file of the given size to `newSize` stays in the first list, and the
new size fits in two bytes. -/
structure TruncateStays (d : Disk) (c e size newSize : Nat) : Prop where
  size_lt : newSize < 65536
  shrink : newSize < size → endSector d c e size < 122
  grow : newSize > size → GrowStays d c e size newSize

/-! ## What they are enough for -/

/-- The file is kept, and the length on disk follows the inode. -/
structure Keeps (root c e : Nat) (v v' : Dos33Volume) (size size' : Nat) : Prop where
  step : FileStep root c e v v'
  first : fileType v.disk c e = 4 → dataAt v.disk c e 0 ≠ none →
    dataAt v'.disk c e 0 = dataAt v.disk c e 0
  length : fileType v.disk c e = 4 → dataAt v.disk c e 0 ≠ none →
    diskLength v.disk c e = size → diskLength v'.disk c e = size'

section Keeps

variable {v v' v'' : Dos33Volume} {inode inode' : Inode} {root c e : Nat}

theorem Keeps.refl (h : WellFormed v root) (hf : IsFile v.disk root c e) (size : Nat) :
    Keeps root c e v v size size :=
  ⟨FileStep.refl h hf, fun _ _ => rfl, fun _ _ => id⟩

theorem Keeps.trans {size size' size'' : Nat} (h : WellFormed v root)
    (hf : IsFile v.disk root c e) (h1 : Keeps root c e v v' size size')
    (h2 : Keeps root c e v' v'' size' size'') : Keeps root c e v v'' size size'' where
  step := h1.step.trans h hf h2.step
  first htype hdata := by
    have h0 := h1.first htype hdata
    rw [h2.first (h1.step.entry.type.trans htype) (by rwa [h0]), h0]
  length htype hdata hlen :=
    h2.length (h1.step.entry.type.trans htype) (by rwa [h1.first htype hdata])
      (h1.length htype hdata hlen)

theorem Resized.keeps {size size' : Nat} (hr : Resized root c e v v' size') (hsize : size' < 65536) :
    Keeps root c e v v' size size' where
  step := hr.step
  first _ _ := hr.data 0 (by decide)
  length htype hdata _ := by
    apply diskLength_of_bytes _ _ hsize
    · rw [hr.bytes htype hdata 2 (by decide), if_pos rfl]
    · rw [hr.bytes htype hdata 3 (by decide), if_neg (by decide), if_pos rfl]

/-- The bytes written lie behind the length of a binary file. -/
theorem WriteEffect.keeps {off size : Nat} {buf : List UInt8}
    (hw : WriteEffect root c e v v' (off + headerLength (fileType v.disk c e)) buf) :
    Keeps root c e v v' size size where
  step := hw.step
  first _ hdata := by
    obtain ⟨n, hn⟩ := Option.ne_none_iff_exists'.1 hdata
    rw [hw.mono 0 n hn, hn]
  length htype _ hlen := by
    have hhdr : headerLength (fileType v.disk c e) = 4 := by
      rw [htype]
      rfl
    rw [hhdr] at hw
    rw [diskLength, hw.bytes, hw.bytes, if_neg (by omega), if_neg (by omega), ← diskLength, hlen]

theorem ShrinkEffect.keeps {v1 : Dos33Volume} {size size' last : Nat} (h : WellFormed v root)
    (hf : IsFile v.disk root c e)
    (hs : ShrinkEffect root c e v v1 (size' + headerLength (fileType v.disk c e)) last)
    (hw : InodeWritten root c e v1 v' size') (hsize : size' < 65536) :
    Keeps root c e v v' size size' := by
  have hdata (htype : fileType v.disk c e = 4) : dataAt v1.disk c e 0 = dataAt v.disk c e 0 := by
    have hhdr : headerLength (fileType v.disk c e) = 4 := by
      rw [htype]
      rfl
    rw [hs.data, hhdr, if_neg (by omega)]
  refine ⟨hs.step.trans h hf hw.step, fun htype _ => ?_, fun htype hd _ => ?_⟩
  · rw [hw.data, hdata htype]
  · have hbytes := hw.bytes (hs.step.entry.type.trans htype) (by rwa [hdata htype])
    apply diskLength_of_bytes _ _ hsize
    · rw [hbytes, if_pos rfl]
    · rw [hbytes, if_neg (by decide), if_pos rfl]

theorem dos33fsGrowFile_keeps (h : WellFormed v root) (hf : IsFile v.disk root c e)
    (hn : Names inode.number c e) {newSize : Nat} (hold : inode.size ≤ newSize)
    (hsize : newSize < 65536) (hstays : GrowStays v.disk c e inode.size newSize) {r : Int}
    (hok : dos33fsGrowFile v inode newSize = .ok (r, v', inode')) :
    r = 0 ∧ inode' = { inode with size := newSize } ∧
      Keeps root c e v v' inode.size newSize := by
  obtain ⟨hr, hinode, hresized⟩ := dos33fsGrowFile_spec h hf hn hold hsize hstays hok
  exact ⟨hr, hinode, hresized.keeps hsize⟩

/-- Writing. -/
theorem dos33fsWriteFile_keeps (h : WellFormed v root) (hf : IsFile v.disk root c e)
    (hn : Names inode.number c e) {buf : List UInt8} {off off' : Nat}
    (hstays : WriteStays v.disk c e inode.size off buf.length) {r : Int}
    (hok : dos33fsWriteFile v inode buf off = .ok (r, v', inode', off')) :
    r = buf.length ∧ inode' = { inode with size := max inode.size (off + buf.length) } ∧
      Keeps root c e v v' inode.size (max inode.size (off + buf.length)) := by
  have hlt := hstays.size_lt
  have h64 : uint64 (off + buf.length) = off + buf.length := uint64_of_lt (by omega)
  by_cases hgrow : off + buf.length > inode.size
  · have hmax : max inode.size (off + buf.length) = off + buf.length := Nat.max_eq_right (by omega)
    rw [hmax] at hlt ⊢
    cases hg : dos33fsGrowFile v inode (off + buf.length) with
    | error err =>
        simp only [dos33fsWriteFile, h64, if_pos hgrow, hg] at hok
        cases hok
    | ok result =>
        obtain ⟨r1, v1, inode1⟩ := result
        obtain ⟨rfl, rfl, hkeeps⟩ := dos33fsGrowFile_keeps h hf hn (Nat.le_of_lt hgrow) hlt
          (hstays.grow hgrow) hg
        have hgrown : (if uint64 (off + buf.length) > inode.size then
            dos33fsGrowFile v inode (uint64 (off + buf.length)) else .ok (0, v, inode)) =
              .ok (0, v1, { inode with size := off + buf.length }) := by
          rw [h64, if_pos hgrow, hg]
        have hn1 : Names ({ inode with size := off + buf.length } : Inode).number c e := hn
        have hend := hstays.transfer
        rw [← hkeeps.step.entry.type] at hend
        rcases dos33fsWriteFile_transfer hkeeps.step.wf hkeeps.step.file hn1 hgrown hend with
          ⟨herr, -⟩ | ⟨v2, hw, heff⟩
        · rw [herr] at hok
          cases hok
        · rw [hw] at hok
          simp only [Except.ok.injEq, Prod.mk.injEq] at hok
          obtain ⟨rfl, rfl, rfl, -⟩ := hok
          exact ⟨rfl, rfl, hkeeps.trans h hf heff.keeps⟩
  · have hmax : max inode.size (off + buf.length) = inode.size := Nat.max_eq_left (by omega)
    have hgrown : (if uint64 (off + buf.length) > inode.size then
        dos33fsGrowFile v inode (uint64 (off + buf.length)) else .ok (0, v, inode)) =
          .ok (0, v, inode) := by
      rw [h64, if_neg hgrow]
    rw [hmax]
    rcases dos33fsWriteFile_transfer h hf hn hgrown hstays.transfer with ⟨herr, -⟩ | ⟨v2, hw, heff⟩
    · rw [herr] at hok
      cases hok
    · rw [hw] at hok
      simp only [Except.ok.injEq, Prod.mk.injEq] at hok
      obtain ⟨rfl, rfl, rfl, -⟩ := hok
      exact ⟨rfl, rfl, heff.keeps⟩

/-- Truncating. -/
theorem dos33fsTruncateInode_keeps (h : WellFormed v root) (hf : IsFile v.disk root c e)
    (hn : Names inode.number c e) {size : Nat} (hstays : TruncateStays v.disk c e inode.size size)
    {r : Int} (hok : dos33fsTruncateInode v inode size = .ok (r, v', inode')) :
    r = 0 ∧ inode' = { inode with size := size } ∧ Keeps root c e v v' inode.size size := by
  rcases Nat.lt_trichotomy size inode.size with hlt | rfl | hgt
  · obtain ⟨v1, hs, heff⟩ := dos33fsShrinkFile_spec h hf hn (Nat.le_of_lt hlt) (hstays.shrink hlt)
    rw [dos33fsTruncateInode, if_neg (by omega), if_pos hlt, hs] at hok
    have hw := growFileOnlyWrite_spec inode heff.step.wf heff.step.file hn size
    simp only [Except.ok.injEq, Prod.mk.injEq] at hok
    obtain ⟨rfl, rfl, rfl⟩ := hok
    exact ⟨rfl, rfl, heff.keeps h hf hw hstays.size_lt⟩
  · rw [dos33fsTruncateInode, if_pos rfl] at hok
    simp only [Except.ok.injEq, Prod.mk.injEq] at hok
    obtain ⟨rfl, rfl, rfl⟩ := hok
    exact ⟨rfl, rfl, Keeps.refl h hf inode.size⟩
  · rw [dos33fsTruncateInode, if_neg (by omega), if_neg (by omega)] at hok
    exact dos33fsGrowFile_keeps h hf hn (Nat.le_of_lt hgt) hstays.size_lt (hstays.grow hgt) hok

/-- Destroying: the file is truncated to nothing, then its entry is given up. -/
theorem dos33fsDestroyInode_keeps (h : WellFormed v root) (hf : IsFile v.disk root c e)
    (hn : Names inode.number c e) {l : Nat} (hl : tsListAt v.disk c e 0 = some l)
    (hin : inode.size ≠ 0 → endSector v.disk c e inode.size < 122) :
    ∃ v1 v', dos33fsDestroyInode v inode = .ok (0, v', { inode with size := 0 }) ∧
      Keeps root c e v v1 inode.size 0 ∧ tsListAt v1.disk c e 0 = some l ∧
      Destroyed root c e v1 v' l := by
  have hstays : TruncateStays v.disk c e inode.size 0 :=
    ⟨by decide, fun hlt => hin (by omega), fun hgt => absurd hgt (by omega)⟩
  have hn0 : Names ({ inode with size := 0 } : Inode).number c e := hn
  by_cases hzero : inode.size = 0
  · have ht : dos33fsTruncateInode v inode 0 = .ok (0, v, { inode with size := 0 }) := by
      rw [dos33fsTruncateInode, if_pos hzero.symm, ← hzero]
    obtain ⟨v', hd, hdest⟩ := dos33fsDestroyInode_entry h hf hl hn0 ht
    refine ⟨v, v', hd, ?_, hl, hdest⟩
    rw [hzero]
    exact Keeps.refl h hf 0
  · obtain ⟨v1, hs, heff⟩ := dos33fsShrinkFile_spec h hf hn (Nat.zero_le _) (hin hzero)
    have hw := growFileOnlyWrite_spec inode heff.step.wf heff.step.file hn 0
    have ht : dos33fsTruncateInode v inode 0 = .ok (0, growFileOnlyWrite v1 inode 0) := by
      rw [dos33fsTruncateInode, if_neg (by omega), if_pos (by omega), hs]
    have hl1 : tsListAt (growFileOnlyWrite v1 inode 0).1.disk c e 0 = some l := by
      rw [hw.lists, heff.lists, hl]
    obtain ⟨v', hd, hdest⟩ := dos33fsDestroyInode_entry hw.step.wf hw.step.file hl1 hn0 ht
    exact ⟨_, v', hd, heff.keeps h hf hw (by decide), hl1, hdest⟩

end Keeps

end Vmwos
