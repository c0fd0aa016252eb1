import Vmwos.Fs.Dos33fs.BinaryFiles
import Vmwos.Fs.Dos33fs.ListWalk
import Mathlib.Logic.Function.Iterate

/-!
# File sizes on disk

`dos33_set_filesize` and `dos33_get_filesize` keep the size of a file in two bytes of its first
data sector. For BASIC programs the one that reads adds the two bytes of the length itself and the
one that writes does not take them away, so that only the size of a binary file is read back as it
was written.
-/

set_option autoImplicit false

namespace Vmwos

open Library

/-! ## The two length bytes -/

/-- Where the length stands in the first data sector. -/
def lengthOffset (type : Nat) : Nat := if type = dos33FileTypeB then 2 else 0

/-- What is added to the length when it is read. -/
def lengthMetadata (type : Nat) : Nat := if type = dos33FileTypeB then 0 else 2

/-- The length that stands at an offset. -/
def lengthAt (b : Block) (k : Nat) : Nat := (b k).toNat + 256 * (b (k + 1)).toNat

/-- Store a length at an offset. -/
def setLengthAt (b : Block) (k size : Nat) : Block :=
  setByte (setByte b k (size &&& 0xff)) (k + 1) (size >>> 8 &&& 0xff)

theorem lengthAt_setLengthAt (b : Block) (k size : Nat) :
    lengthAt (setLengthAt b k size) k = size % 65536 := by
  have hlow : setLengthAt b k size k = UInt8.ofNat (size &&& 0xff) := by
    rw [setLengthAt, setByte, Function.update_of_ne (Nat.ne_of_lt (Nat.lt_succ_self k)), setByte,
      Function.update_self]
  have hhigh : setLengthAt b k size (k + 1) = UInt8.ofNat (size >>> 8 &&& 0xff) :=
    Function.update_self _ _ _
  rw [lengthAt, hlow, hhigh, UInt8.toNat_ofNat', UInt8.toNat_ofNat', and_ff, and_ff,
    Nat.shiftRight_eq_div_pow]
  omega

theorem setLengthAt_of_ne (b : Block) {k size i : Nat} (h : i ≠ k) (h' : i ≠ k + 1) :
    setLengthAt b k size i = b i := by
  rw [setLengthAt, setByte, Function.update_of_ne h', setByte, Function.update_of_ne h]

section Sector

variable {d : Disk} {number c e l n type : Nat}

/-- The types whose length is in the file are binary files and the two kinds of programs. -/
theorem hasLength_iff : hasLength type = true ↔
    type = dos33FileTypeB ∨ type = dos33FileTypeI ∨ type = dos33FileTypeA := by
  simp [hasLength, or_assoc]

/-- A file without a first data sector has its length in sector 0. -/
theorem dos33SetFilesize_eq_update (hn : Names number c e) (hl : tsListAt d c e 0 = some l)
    (hdata : (dataAt d c e 0).getD 0 = n) (htype : hasLength type = true) (size : Nat) :
    dos33SetFilesize d number type size =
      Function.update d n (setLengthAt (d n) (lengthOffset type) size) := by
  have hloc : firstDataLocation d number = 256 * n := by
    rw [firstDataLocation_eq hn hl, hdata]
  rw [dos33SetFilesize, if_pos htype]
  simp only [hloc, readBlock_mul, writeBlock_mul]
  congr 1
  rcases hasLength_iff.1 htype with rfl | rfl | rfl <;> rfl

theorem dos33GetFilesize_eq (hn : Names number c e) (hl : tsListAt d c e 0 = some l)
    (hdata : (dataAt d c e 0).getD 0 = n) (htype : hasLength type = true) :
    dos33GetFilesize d number type =
      lengthAt (d n) (lengthOffset type) + lengthMetadata type := by
  have hmask (b : UInt8) : b.toNat &&& 0xff = b.toNat := by
    rw [and_ff]
    exact Nat.mod_eq_of_lt b.toNat_lt
  have hjoin (a b : UInt8) : a.toNat ||| b.toNat <<< 8 = a.toNat + 256 * b.toNat := by
    rw [Nat.or_comm, shiftLeft_or (n := 8) _ a.toNat_lt]
    omega
  have hloc : firstDataLocation d number = 256 * n := by
    rw [firstDataLocation_eq hn hl, hdata]
  rw [dos33GetFilesize, if_pos htype]
  simp only [hloc, readBlock_mul, hmask, hjoin]
  rcases hasLength_iff.1 htype with rfl | rfl | rfl <;> rfl

end Sector

/-! ## Round trips -/

/-- The inode is read and written back. -/
def rewriteInode (inode : Inode) (d : Disk) : Disk :=
  dos33fsWriteInode d (dos33ReadInode d inode).2

/-- Sizes are read back as they were written, in two bytes of the first data sector `n`, and
reading and writing the inode any number of times keeps the size. The lengths of programs count
from 2 on. -/
structure SizesRoundTrip (d : Disk) (number type n : Nat) : Prop where
  readBack : ∀ size, (type = dos33FileTypeB ∨ 2 ≤ size) → size < 65536 →
    dos33GetFilesize (dos33SetFilesize d number type size) number type = size
  untouched : ∀ size m i, ¬ (m = n ∧ (i = lengthOffset type ∨ i = lengthOffset type + 1)) →
    dos33SetFilesize d number type size m i = d m i
  rewritten : ∀ inode : Inode, inode.number = number → ∀ k,
    dos33GetFilesize ((rewriteInode inode)^[k] d) number type = dos33GetFilesize d number type

section RoundTrip

variable {v : Dos33Volume} {root number c e n : Nat}

/-- What is read after a size has been written. -/
theorem dos33GetFilesize_dos33SetFilesize (h : WellFormed v root) (hf : IsFile v.disk root c e)
    (hn : Names number c e) {type : Nat} (htype : hasLength type = true)
    (hdata : dataAt v.disk c e 0 = some n) (size : Nat) :
    dos33GetFilesize (dos33SetFilesize v.disk number type size) number type =
      size % 65536 + lengthMetadata type := by
  obtain ⟨l, hl⟩ := Option.isSome_iff_exists.1 (h.head c e hf)
  -- the sectors that lead to the length are not the one it is in
  have hmeta := (dos33SetFilesize_spec h hf hn hl type size).2.2.1
  have hl' : tsListAt (dos33SetFilesize v.disk number type size) c e 0 = some l := by
    rw [hmeta.tsListAt_eq hf]
    exact hl
  have hn0 : (dataAt v.disk c e 0).getD 0 = n := by rw [hdata, Option.getD_some]
  have hdata' : (dataAt (dos33SetFilesize v.disk number type size) c e 0).getD 0 = n := by
    rw [hmeta.dataAt_eq hf, hn0]
  rw [dos33GetFilesize_eq hn hl' hdata' htype, dos33SetFilesize_eq_update hn hl hn0 htype,
    Function.update_self, lengthAt_setLengthAt]

/-- Reading and writing the inode of a binary file keeps the file, and its size. -/
theorem rewriteInode_binary (h : WellFormed v root) (hb : IsBinary v.disk root c e)
    {inode : Inode} (hn : Names inode.number c e) :
    let v' : Dos33Volume := { v with disk := rewriteInode inode v.disk }
    WellFormed v' root ∧ IsBinary v'.disk root c e ∧
      diskLength v'.disk c e = diskLength v.disk c e := by
  intro v'
  obtain ⟨l, hl⟩ := Option.isSome_iff_exists.1 (h.head c e hb.file)
  obtain ⟨n, hdata⟩ := Option.ne_none_iff_exists'.1 hb.first
  obtain ⟨mode, blocks, hread⟩ := dos33ReadInode_binary inode hn hb.file.entry hb.type hl hdata
  have hnumber : Names (dos33ReadInode v.disk inode).2.number c e := by
    rw [dos33ReadInode_number]
    exact hn
  have hsize : (dos33ReadInode v.disk inode).2.size = diskLength v.disk c e := by
    rw [hread]
    rfl
  have hlt : diskLength v.disk c e < 65536 := by
    have h2 := (fileByte v.disk c e 2).toNat_lt
    have h3 := (fileByte v.disk c e 3).toNat_lt
    unfold diskLength
    omega
  have hw := dos33fsWriteInode_spec (dos33ReadInode v.disk inode).2 h hb.file hnumber
  rw [hsize] at hw
  have hstep := hw.binaryStep hb hlt (Nat.le_refl _)
  exact ⟨hstep.step.wf, hb.of_step hstep, hstep.length rfl⟩

/-- The same any number of times. -/
theorem rewriteInode_iterate (h : WellFormed v root) (hb : IsBinary v.disk root c e)
    {inode : Inode} (hn : Names inode.number c e) (k : Nat) :
    let v' : Dos33Volume := { v with disk := (rewriteInode inode)^[k] v.disk }
    WellFormed v' root ∧ IsBinary v'.disk root c e ∧
      diskLength v'.disk c e = diskLength v.disk c e := by
  induction k with
  | zero => exact ⟨h, hb, rfl⟩
  | succ k ih =>
      obtain ⟨hwf, hbin, hlen⟩ := ih
      rw [Function.iterate_succ_apply']
      obtain ⟨hwf', hbin', hlen'⟩ := rewriteInode_binary hwf hbin hn
      exact ⟨hwf', hbin', hlen'.trans hlen⟩

/-- Sizes round-trip for binary files and for no programs. -/
theorem sizesRoundTrip_iff (h : WellFormed v root) (hf : IsFile v.disk root c e)
    (hn : Names number c e) (htype : hasLength (fileType v.disk c e) = true)
    (hdata : dataAt v.disk c e 0 = some n) :
    SizesRoundTrip v.disk number (fileType v.disk c e) n ↔
      fileType v.disk c e = dos33FileTypeB := by
  obtain ⟨l, hl⟩ := Option.isSome_iff_exists.1 (h.head c e hf)
  constructor
  · intro hround
    by_contra hne
    have h2 := hround.readBack 2 (Or.inr (Nat.le_refl 2)) (by decide)
    rw [dos33GetFilesize_dos33SetFilesize h hf hn htype hdata, lengthMetadata, if_neg hne] at h2
    exact absurd h2 (by decide)
  · intro hB
    have hb : IsBinary v.disk root c e := ⟨hf, hB, by rw [hdata]; exact Option.some_ne_none n⟩
    refine ⟨fun size _ hsize => ?_, fun size m i hout => ?_, fun inode hnumber k => ?_⟩
    · rw [dos33GetFilesize_dos33SetFilesize h hf hn htype hdata, lengthMetadata, if_pos hB,
        Nat.mod_eq_of_lt hsize, Nat.add_zero]
    · have hn0 : (dataAt v.disk c e 0).getD 0 = n := by rw [hdata, Option.getD_some]
      rw [dos33SetFilesize_eq_update hn hl hn0 htype]
      by_cases hm : m = n
      · subst hm
        rw [Function.update_self]
        exact setLengthAt_of_ne _ (fun hi => hout ⟨rfl, Or.inl hi⟩) fun hi => hout ⟨rfl, Or.inr hi⟩
      · rw [Function.update_of_ne hm]
    · subst hnumber
      obtain ⟨hwf', hb', hlen⟩ := rewriteInode_iterate h hb hn k
      obtain ⟨l', hl'⟩ := Option.isSome_iff_exists.1 (hwf'.head c e hb'.file)
      obtain ⟨n', hdata'⟩ := Option.ne_none_iff_exists'.1 hb'.first
      have hB' : fileType v.disk c e = 4 := hB
      rw [hB', dos33GetFilesize_binary hn hl' hdata', dos33GetFilesize_binary hn hl hdata]
      exact hlen

end RoundTrip

/-! ## On a blank volume -/

/-- The file of two lists has a first data sector. -/
theorem blankStore_firstData :
    ∃ s inode n, WellFormed s.volume blankRoot ∧ Denotes blankRoot s 0 inode 287 0 ∧
      fileType s.volume.disk 287 0 = dos33FileTypeB ∧ dataAt s.volume.disk 287 0 0 = some n := by
  obtain ⟨s, inode, hrun, hwf, hd, -, htype, -⟩ := blankStore_twoLists
  have hobs : (Store.run blankDirInode blankStore [.make 0 Inode.zeroed, .truncate 0 40000]).map
      (fun q => (dataAt q.2.volume.disk 287 0 0).isSome) = .ok true := by
    decide
  obtain ⟨⟨rs, s'⟩, hrun', hsome⟩ := map_eq_ok.1 hobs
  rw [hrun] at hrun'
  cases hrun'
  obtain ⟨n, hn⟩ := Option.isSome_iff_exists.1 hsome
  exact ⟨s, inode, n, hwf, hd, htype, hn⟩

/-- A binary file has its size read back. -/
theorem sizesRoundTrip_iff_binary :
    ∃ (v : Dos33Volume) (number n : Nat), fileType v.disk 287 0 = dos33FileTypeB ∧
      (SizesRoundTrip v.disk number (fileType v.disk 287 0) n ↔
        fileType v.disk 287 0 = dos33FileTypeB) := by
  obtain ⟨s, inode, n, hwf, hd, htype, hdata⟩ := blankStore_firstData
  exact ⟨s.volume, inode.number, n, htype,
    sizesRoundTrip_iff hwf hd.file hd.names (by rw [htype]; rfl) hdata⟩

section Retype

variable {v : Dos33Volume} {root c e : Nat}

/-- The type byte of an entry is another. -/
def retypeEntry (v : Dos33Volume) (c e : Nat) (type : UInt8) : Dos33Volume :=
  { v with disk := Function.update v.disk c (Function.update (v.disk c) (catOffset e 2) type) }

theorem retypeEntry_type (v : Dos33Volume) (c e : Nat) (type : UInt8) :
    fileType (retypeEntry v c e type).disk c e = type.toNat &&& 0x7f := by
  simp only [fileType, retypeEntry, Function.update_self]

/-- The file stays one, with the same sectors. -/
theorem retypeEntry_spec (h : WellFormed v root) (hf : IsFile v.disk root c e) (type : UInt8) :
    FileFrame root c e v (retypeEntry v c e type) ∧
      ∀ s, dataAt (retypeEntry v c e type).disk c e s = dataAt v.disk c e s := by
  have hkeep {f : Nat} (hf35 : f < 35) (hne : f ≠ 2) :
      Function.update (v.disk c) (catOffset e 2) type (catOffset e f) = v.disk c (catOffset e f) :=
    Function.update_of_ne (catOffset_ne hf35 (by decide) (Or.inr hne)) _ _
  have hout : ∀ i, ¬ (11 + 35 * e ≤ i ∧ i < 46 + 35 * e) →
      Function.update (v.disk c) (catOffset e 2) type i = v.disk c i := by
    intro i hi
    apply Function.update_of_ne
    rintro rfl
    rw [catOffset_eq] at hi
    omega
  have hfirst := hkeep (f := 0) (by decide) (by decide)
  have hsector := hkeep (f := 1) (by decide) (by decide)
  have hlast := hkeep (f := 0x20) (by decide) (by decide)
  have hused : EntryUsed (Function.update (v.disk c) (catOffset e 2) type) e := by
    have := hf.used
    rwa [EntryUsed, hfirst]
  have hhead : headPtr (Function.update (v.disk c) (catOffset e 2) type) e =
      headPtr (v.disk c) e := by
    rw [headPtr, headTrack, hfirst, hsector, hlast, headPtr, headTrack]
  exact ⟨fileFrame_update_entry h hf hout hused hhead hsector,
    fun s => dataAt_update_entry h.account hf hout hhead s⟩

end Retype

/-- A program of type A has sizes read back two too large. -/
theorem not_sizesRoundTrip :
    ∃ (v : Dos33Volume) (number n : Nat), WellFormed v blankRoot ∧
      IsFile v.disk blankRoot 287 0 ∧ Names number 287 0 ∧
      fileType v.disk 287 0 = dos33FileTypeA ∧ dataAt v.disk 287 0 0 = some n ∧
      dos33GetFilesize (dos33SetFilesize v.disk number dos33FileTypeA 100) number dos33FileTypeA =
        102 ∧
      ¬ SizesRoundTrip v.disk number (fileType v.disk 287 0) n := by
  obtain ⟨s, inode, n, hwf, hd, -, hdata⟩ := blankStore_firstData
  obtain ⟨hframe, hsame⟩ := retypeEntry_spec hwf hd.file 2
  have htype : fileType (retypeEntry s.volume 287 0 2).disk 287 0 = dos33FileTypeA :=
    retypeEntry_type _ _ _ _
  have hdata' : dataAt (retypeEntry s.volume 287 0 2).disk 287 0 0 = some n := by
    rw [hsame, hdata]
  have hget := @dos33GetFilesize_dos33SetFilesize _ _ _ _ _ _ hframe.wf hframe.file hd.names
    dos33FileTypeA rfl hdata' 100
  refine ⟨retypeEntry s.volume 287 0 2, inode.number, n, hframe.wf, hframe.file, hd.names, htype,
    hdata', hget, fun hround => ?_⟩
  have hback := hround.readBack 100 (Or.inr (by decide)) (by decide)
  rw [htype, hget] at hback
  exact absurd hback (by decide)

end Vmwos
