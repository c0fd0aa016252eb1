import Vmwos.Fs.Dos33fs.Transfers

/-!
# What the operations on a file do

The operations of the file system, put together from the steps and the loops:
writing the inode back (`growFileOnlyWrite_spec`), growing, writing, shrinking and
reading. Each is described by what it does to the sectors and the bytes of the one
file it is called for; that it touches nothing else is part of `FileStep`.
-/

set_option autoImplicit false

namespace Vmwos

open Library

/-! ## The inode on disk -/

section WriteInode

variable {v v' : Dos33Volume} {root number c e l : Nat}

/-- What writing an inode of the given size back to disk does. -/
structure InodeWritten (root c e : Nat) (v v' : Dos33Volume) (size : Nat) : Prop where
  step : FileStep root c e v v'
  pool : SamePool root c e v v'
  lists : ∀ j, tsListAt v'.disk c e j = tsListAt v.disk c e j
  data : ∀ j, dataAt v'.disk c e j = dataAt v.disk c e j
  bytes : fileType v.disk c e = 4 → dataAt v.disk c e 0 ≠ none → ∀ p, fileByte v'.disk c e p =
    if p = 2 then UInt8.ofNat (size % 256)
    else if p = 3 then UInt8.ofNat (size / 256 % 256)
    else fileByte v.disk c e p

theorem firstDataLocation_eq {d : Disk} (hn : Names number c e)
    (hl : tsListAt d c e 0 = some l) :
    firstDataLocation d number = 256 * (dataAt d c e 0).getD 0 := by
  have hts : ts (loadCatalogEntry d number).nextT (loadCatalogEntry d number).nextS = 256 * l := by
    rw [(loadCatalogEntry_next hn).1, (loadCatalogEntry_next hn).2]
    exact ts_of_sectorPtr hl
  have hdata : dataAt d c e 0 = tsEntry (d l) 0 := by
    rw [dataAt, hl, Option.bind_some]
  simp only [firstDataLocation, hts, readBlock_mul]
  show ts (tsEntryT (d l) 0) (tsEntryS (d l) 0) = _
  cases hentry : tsEntry (d l) 0 with
  | none =>
      obtain ⟨ht, hs⟩ := tsEntry_eq_none.1 hentry
      rw [hdata, hentry, ht, hs]
      rfl
  | some n =>
      rw [hdata, hentry, ts_of_tsEntry hentry, Option.getD_some]

/-- The length goes to the first data sector, or to sector 0 when there is none. -/
theorem dos33SetFilesize_eq {d : Disk} (hn : Names number c e) (hl : tsListAt d c e 0 = some l)
    (type size : Nat) :
    dos33SetFilesize d number type size = d ∨
      ∃ b, dos33SetFilesize d number type size =
        Function.update d ((dataAt d c e 0).getD 0) b := by
  rw [dos33SetFilesize]
  split
  · right
    simp only [firstDataLocation_eq hn hl, readBlock_mul, writeBlock_mul]
    exact ⟨_, rfl⟩
  · exact Or.inl rfl

/-- The two length bytes of a binary file. -/
def setLength (b : Block) (size : Nat) : Block :=
  setByte (setByte b 2 (size &&& 0xff)) 3 (size >>> 8 &&& 0xff)

theorem setLength_apply (b : Block) (size q : Nat) :
    setLength b size q =
      if q = 2 then UInt8.ofNat (size % 256)
      else if q = 3 then UInt8.ofNat (size / 256 % 256)
      else b q := by
  have hlow : size &&& 0xff = size % 256 := and_ff size
  have hhigh : size >>> 8 &&& 0xff = size / 256 % 256 := by
    rw [Nat.shiftRight_eq_div_pow]
    exact Nat.and_two_pow_sub_one_eq_mod _ 8
  rw [setLength, hlow, hhigh, setByte, setByte]
  by_cases h3 : q = 3
  · subst h3
    rw [Function.update_self, if_neg (by decide), if_pos rfl]
  · rw [Function.update_of_ne h3, if_neg h3]
    by_cases h2 : q = 2
    · subst h2
      rw [Function.update_self, if_pos rfl]
    · rw [Function.update_of_ne h2, if_neg h2]

theorem dos33SetFilesize_binary {d : Disk} (hn : Names number c e)
    (hl : tsListAt d c e 0 = some l) {n : Nat} (hdata : dataAt d c e 0 = some n) (size : Nat) :
    dos33SetFilesize d number 4 size = Function.update d n (setLength (d n) size) := by
  have hlen : hasLength 4 = true := rfl
  have hloc : firstDataLocation d number = 256 * n := by
    rw [firstDataLocation_eq hn hl, hdata, Option.getD_some]
  rw [dos33SetFilesize, hlen]
  simp only [if_true, hloc, readBlock_mul, writeBlock_mul]
  rfl

/-- The length of a file is written. -/
theorem dos33SetFilesize_spec (h : WellFormed v root) (hf : IsFile v.disk root c e)
    (hn : Names number c e) (hl : tsListAt v.disk c e 0 = some l) (type size : Nat) :
    let v' : Dos33Volume := { v with disk := dos33SetFilesize v.disk number type size }
    FileStep root c e v v' ∧ SamePool root c e v v' ∧ SameMeta v.disk v'.disk root ∧
      (type = 4 → dataAt v.disk c e 0 ≠ none → ∀ p, fileByte v'.disk c e p =
        if p = 2 then UInt8.ofNat (size % 256)
        else if p = 3 then UInt8.ofNat (size / 256 % 256)
        else fileByte v.disk c e p) := by
  intro v'
  cases hdata : dataAt v.disk c e 0 with
  | none =>
      -- sector 0 is used by nobody
      have hfree : ∀ u, ¬ Refers v.disk root u 0 := fun u hu =>
        absurd (h.range u 0 hu).1 (by decide)
      rcases dos33SetFilesize_eq hn hl type size with heq | ⟨b, heq⟩
      · have hv : v' = v := congrArg (fun d => { v with disk := d }) heq
        rw [hv]
        exact ⟨FileStep.refl h hf, SamePool.refl _ _ _ _, ⟨fun _ _ _ => rfl, fun _ _ _ _ _ _ => rfl⟩,
          fun _ hne => absurd rfl hne⟩
      · rw [hdata, Option.getD_none] at heq
        have hv : v' = { v with disk := Function.update v.disk 0 b } :=
          congrArg (fun d => { v with disk := d }) heq
        rw [hv]
        exact ⟨fileStep_update_unreferenced h hf b hfree, samePool_update_unreferenced b hfree,
          SameMeta.update_unreferenced hfree, fun _ hne => absurd rfl hne⟩
  | some n =>
      have hn' : Refers v.disk root (.data c e 0) n := ⟨hf, hdata⟩
      have hstep : FileStep root c e v v' ∧ SamePool root c e v v' ∧
          SameMeta v.disk v'.disk root := by
        rcases dos33SetFilesize_eq hn hl type size with heq | ⟨b, heq⟩
        · have hv : v' = v := congrArg (fun d => { v with disk := d }) heq
          rw [hv]
          exact ⟨FileStep.refl h hf, SamePool.refl _ _ _ _,
            ⟨fun _ _ _ => rfl, fun _ _ _ _ _ _ => rfl⟩⟩
        · rw [hdata, Option.getD_some] at heq
          have hv : v' = { v with disk := Function.update v.disk n b } :=
            congrArg (fun d => { v with disk := d }) heq
          rw [hv]
          exact ⟨fileStep_update_data h b hn', samePool_update_data h b hn',
            SameMeta.update_data h.account hn'⟩
      refine ⟨hstep.1, hstep.2.1, hstep.2.2, ?_⟩
      rintro rfl - p
      show fileByte (dos33SetFilesize v.disk number 4 size) c e p = _
      rw [dos33SetFilesize_binary hn hl hdata, fileByte_update_data h.account hn', setLength_apply]
      by_cases hp : p / 256 = 0
      · have hpm : p % 256 = p := by omega
        rw [if_pos hp, hpm, fileByte_of_some (n := n) (by rw [hp, hdata]), hpm]
      · rw [if_neg hp, if_neg (by omega), if_neg (by omega)]

/-- The bytes of a file that its length may go to: the first four of a binary file, and those of
the other files that keep one. -/
def MayHoldLength (type p : Nat) : Prop := hasLength type = true ∧ (type = 4 → p < 4)

/-- The other bytes of the file stay. -/
theorem dos33SetFilesize_fileByte (h : WellFormed v root) (hf : IsFile v.disk root c e)
    (hn : Names number c e) {type p : Nat} (size : Nat) (hp : ¬ MayHoldLength type p) :
    fileByte (dos33SetFilesize v.disk number type size) c e p = fileByte v.disk c e p := by
  obtain ⟨l, hl⟩ := Option.isSome_iff_exists.1 (h.head c e hf)
  by_cases hlen : hasLength type = true
  · obtain ⟨rfl, hfour⟩ : type = 4 ∧ 4 ≤ p := by
      by_contra hnot
      exact hp ⟨hlen, fun htype => Nat.lt_of_not_le fun hle => hnot ⟨htype, hle⟩⟩
    by_cases hdata : dataAt v.disk c e 0 = none
    · -- without a first data sector the length goes to sector 0, which no file has
      have hfree : ∀ u, ¬ Refers v.disk root u 0 := fun u hu =>
        absurd (h.range u 0 hu).1 (by decide)
      rcases dos33SetFilesize_eq hn hl 4 size with heq | ⟨b, heq⟩
      · rw [heq]
      · rw [heq, hdata]
        exact fileByte_update_unreferenced hf b hfree p
    · have hbytes := (dos33SetFilesize_spec h hf hn hl 4 size).2.2.2 rfl hdata p
      rwa [if_neg (by omega), if_neg (by omega)] at hbytes
  · rw [dos33SetFilesize, if_neg hlen]

/-- The type byte that `dos33fs_write_inode` stores: the lock bit follows the mode. -/
def storedType (b : Block) (e mode : Nat) : Nat :=
  if mode &&& 0o222 ≠ 0 then (b (catOffset e 2)).toNat &&& 0x7f
  else (b (catOffset e 2)).toNat ||| 0x80

theorem storedType_low (b : Block) (e mode : Nat) :
    storedType b e mode &&& 0x7f = (b (catOffset e 2)).toNat &&& 0x7f := by
  rw [storedType]
  split
  · rw [Nat.and_assoc, Nat.and_self]
  · rw [Nat.and_or_distrib_right]
    exact Nat.or_zero _

theorem storedType_lt (b : Block) (e mode : Nat) : storedType b e mode < 256 := by
  have hb := (b (catOffset e 2)).toNat_lt
  rw [storedType]
  split
  · exact Nat.lt_of_le_of_lt Nat.and_le_left hb
  · exact Nat.or_lt_two_pow (n := 8) hb (by decide)

/-- The catalog sector with the type and the length of an entry replaced. -/
def setTypeLength (b : Block) (e type low high : Nat) : Block :=
  setByte (setByte (setByte b (catOffset e 2) type) (catOffset e 0x21) low) (catOffset e 0x22) high

theorem setTypeLength_of_ne {b : Block} {e type low high i : Nat} (h2 : i ≠ catOffset e 2)
    (h21 : i ≠ catOffset e 0x21) (h22 : i ≠ catOffset e 0x22) :
    setTypeLength b e type low high i = b i := by
  rw [setTypeLength, setByte, setByte, setByte, Function.update_of_ne h22, Function.update_of_ne h21,
    Function.update_of_ne h2]

theorem setTypeLength_field {b : Block} {e type low high f : Nat} (hf : f < 0x21) (hne : f ≠ 2) :
    setTypeLength b e type low high (catOffset e f) = b (catOffset e f) :=
  setTypeLength_of_ne (catOffset_ne (by omega) (by decide) (Or.inr hne))
    (catOffset_ne (by omega) (by decide) (Or.inr (by omega)))
    (catOffset_ne (by omega) (by decide) (Or.inr (by omega)))

theorem setTypeLength_type (b : Block) (e type low high : Nat) :
    setTypeLength b e type low high (catOffset e 2) = UInt8.ofNat type := by
  rw [setTypeLength, setByte, setByte, setByte,
    Function.update_of_ne (catOffset_ne (by decide) (by decide) (Or.inr (by decide))),
    Function.update_of_ne (catOffset_ne (by decide) (by decide) (Or.inr (by decide))),
    Function.update_self]

theorem dos33fsWriteInode_eq {d : Disk} {inode : Inode} (hn : Names inode.number c e) (he : e < 7) :
    ∃ low high, dos33fsWriteInode d inode =
      Function.update
        (dos33SetFilesize d inode.number ((d c (catOffset e 2)).toNat &&& 0x7f) inode.size) c
        (setTypeLength (d c) e (storedType (d c) e inode.mode) low high) := by
  have hcond : ¬ (e = 0xff ∨ e = 0xfe ∨ e ≥ dos33CatMaxEntries) := by
    show ¬ (e = 0xff ∨ e = 0xfe ∨ e ≥ 7)
    omega
  rw [← storedType_low (d c) e inode.mode, dos33fsWriteInode]
  simp only [hn.entry, hn.block, if_neg hcond, readBlock_mul, writeBlock_mul]
  exact ⟨_, _, rfl⟩

/-- What `dos33fs_write_inode` does after the length has been written: the type and the number of
sectors go into the catalog entry `b`, which stays that of the file. -/
theorem dos33fsWriteInode_entry (inode : Inode) (h : WellFormed v root)
    (hf : IsFile v.disk root c e) (hn : Names inode.number c e) :
    let d := dos33SetFilesize v.disk inode.number (fileType v.disk c e) inode.size
    ∃ b, dos33fsWriteInode v.disk inode = Function.update d c b ∧
      (∀ i, ¬ (11 + 35 * e ≤ i ∧ i < 46 + 35 * e) → b i = d c i) ∧ EntryUsed b e ∧
      headPtr b e = headPtr (d c) e ∧ EntryKept d (Function.update d c b) c e := by
  intro d
  obtain ⟨l, hl⟩ := Option.isSome_iff_exists.1 (h.head c e hf)
  obtain ⟨low, high, heq⟩ := dos33fsWriteInode_eq (d := v.disk) hn hf.entry
  obtain ⟨-, -, hm, -⟩ := dos33SetFilesize_spec h hf hn hl (fileType v.disk c e) inode.size
  generalize hb : setTypeLength (v.disk c) e (storedType (v.disk c) e inode.mode) low high = b at heq
  have hcat : d c = v.disk c := by
    obtain ⟨k, hk⟩ := hf.catalog
    exact hm.catalog k c hk
  have hfield : ∀ f < 0x21, f ≠ 2 → b (catOffset e f) = v.disk c (catOffset e f) := by
    intro f hf hne
    rw [← hb, setTypeLength_field hf hne]
  have htype : (b (catOffset e 2)).toNat &&& 0x7f = (v.disk c (catOffset e 2)).toNat &&& 0x7f := by
    rw [← hb, setTypeLength_type, UInt8.toNat_ofNat',
      Nat.mod_eq_of_lt (storedType_lt _ _ _), storedType_low]
  refine ⟨b, heq, ?_, ?_, ?_, ?_, ?_⟩
  · intro i hi
    rw [hcat, ← hb]
    apply setTypeLength_of_ne <;> rw [catOffset_eq] <;> omega
  · rw [EntryUsed, hfield 0 (by decide) (by decide)]
    exact hf.used
  · rw [hcat, headPtr, headPtr, headTrack, headTrack, hfield 0 (by decide) (by decide),
      hfield 1 (by decide) (by decide), hfield 0x20 (by decide) (by decide)]
  · rw [fileType, fileType, Function.update_self, htype, hcat]
  · intro f hf hne
    rw [Function.update_self, hfield f hf hne, hcat]

/-- The inode goes to disk: the length into the first data sector, the type and the
number of sectors into the catalog entry. -/
theorem dos33fsWriteInode_spec (inode : Inode) (h : WellFormed v root)
    (hf : IsFile v.disk root c e) (hn : Names inode.number c e) :
    InodeWritten root c e v { v with disk := dos33fsWriteInode v.disk inode } inode.size := by
  obtain ⟨l, hl⟩ := Option.isSome_iff_exists.1 (h.head c e hf)
  obtain ⟨b, heq, hrest, hused, hhead, hentry⟩ := dos33fsWriteInode_entry inode h hf hn
  obtain ⟨hstep, hpool, hm, hbytes⟩ := dos33SetFilesize_spec h hf hn hl
    (fileType v.disk c e) inode.size
  rw [heq]
  generalize hd : dos33SetFilesize v.disk inode.number (fileType v.disk c e) inode.size = d
    at hstep hpool hm hbytes hrest hhead hentry ⊢
  have hsector : b (catOffset e 1) = d c (catOffset e 1) := by
    have hkept := hentry.bytes 1 (by decide) (by decide)
    rwa [Function.update_self] at hkept
  have hframe := fileFrame_update_entry hstep.wf hstep.file hrest hused hhead hsector
  refine ⟨hstep.trans h hf ⟨hframe, hentry⟩,
    hpool.trans (samePool_update_entry hstep.wf hstep.file hrest hused hhead), ?_, ?_, ?_⟩
  · intro j
    show tsListAt (Function.update d c b) c e j = _
    rw [tsListAt_update_entry hrest, hhead, ← tsListAt]
    exact hm.tsListAt_eq hf j
  · intro j
    exact (dataAt_update_entry hstep.wf.account hstep.file hrest hhead j).trans (hm.dataAt_eq hf j)
  · intro htype4 hdata p
    rw [← hbytes htype4 hdata p]
    exact fileByte_update_entry hstep.wf hstep.file hrest hhead p

theorem growFileOnlyWrite_spec (inode : Inode) (h : WellFormed v root)
    (hf : IsFile v.disk root c e) (hn : Names inode.number c e) (size : Nat) :
    InodeWritten root c e v (growFileOnlyWrite v inode size).1 size := by
  have hw := dos33fsWriteInode_spec { inode with size := size } h hf hn
  have hs := fileStep_writeSuperblock hw.step.wf hw.step.file
  have hm : SameMeta _ (dos33fsWriteSuperblock _).disk root :=
    SameMeta.update_unreferenced hw.step.wf.not_refers_vtoc
  refine ⟨hw.step.trans h hf hs, hw.pool.trans (samePool_writeSuperblock hw.step.wf), ?_, ?_, ?_⟩
  · exact fun j => (hm.tsListAt_eq hw.step.file j).trans (hw.lists j)
  · exact fun j => (hm.dataAt_eq hw.step.file j).trans (hw.data j)
  · intro htype hdata p
    rw [← hw.bytes htype hdata p]
    exact fileByte_update_unreferenced hw.step.file _ hw.step.wf.not_refers_vtoc p

/-- Of the bytes of the file only the length is changed. -/
theorem growFileOnlyWrite_fileByte (inode : Inode) (h : WellFormed v root)
    (hf : IsFile v.disk root c e) (hn : Names inode.number c e) (size : Nat) {p : Nat}
    (hp : ¬ MayHoldLength (fileType v.disk c e) p) :
    fileByte (growFileOnlyWrite v inode size).1.disk c e p = fileByte v.disk c e p := by
  obtain ⟨l, hl⟩ := Option.isSome_iff_exists.1 (h.head c e hf)
  have hn' : Names ({ inode with size := size } : Inode).number c e := hn
  have hw := dos33fsWriteInode_spec { inode with size := size } h hf hn'
  obtain ⟨b, heq, hrest, -, hhead, -⟩ :=
    dos33fsWriteInode_entry { inode with size := size } h hf hn'
  have hlength := (dos33SetFilesize_spec h hf hn hl (fileType v.disk c e) size).1
  -- the length, then the entry, then the VTOC
  rw [← dos33SetFilesize_fileByte h hf hn size hp,
    ← fileByte_update_entry hlength.wf hlength.file hrest hhead]
  have hvtoc := fileByte_update_unreferenced hw.step.file v.vtoc hw.step.wf.not_refers_vtoc p
  rw [heq] at hvtoc
  rw [growFileOnlyWrite, dos33fsWriteSuperblock, heq]
  exact hvtoc

end WriteInode

/-! ## Growing, shrinking, writing and reading within the first list -/

/-- The index of the sector that the end of a file of the given size lies in. -/
def endSector (d : Disk) (c e size : Nat) : Nat := (size + headerLength (fileType d c e)) / 256

theorem headerLength_le (type : Nat) : headerLength type ≤ 4 := by
  rw [headerLength]
  split <;> decide

/-- The sector index as the code computes it, while nothing overflows. -/
theorem int32_sector {x : Nat} (h : x < 2147483648) :
    int32 ((uint64 x / dos33BlockSize : Nat) : Int) = ((x / 256 : Nat) : Int) := by
  have hlt : x / 256 < 2147483648 := Nat.lt_of_le_of_lt (Nat.div_le_self _ _) h
  rw [uint64_of_lt (Nat.lt_trans h (by decide))]
  exact int32_of_lt hlt

/-- The index of the sector that the end of a file of the given size lies in, as the code
computes it. -/
def endIndex (v : Dos33Volume) (inode : Inode) (size : Nat) : Int :=
  int32 ((uint64 (size + headerLength (loadCatalogEntry v.disk inode.number).type) /
    dos33BlockSize : Nat) : Int)

/-- `dos33fs_grow_file` from the index of the old last sector to that of the new one. -/
theorem dos33fsGrowFile_eq (v : Dos33Volume) (inode : Inode) (newSize : Nat) {current last : Int}
    (hcurrent : endIndex v inode inode.size = current) (hlast : endIndex v inode newSize = last) :
    dos33fsGrowFile v inode newSize =
      if current = last then .ok (0, growFileOnlyWrite v inode newSize)
      else
        match advanceTs v.disk ((current / dos33MaxTsEntries).toNat + 1)
          ((loadCatalogEntry v.disk inode.number).walk 0) with
        | none => .ok (-enoent, v, inode)
        | some w =>
            match growLoop (last - current).toNat v w
              (if current < dos33MaxTsEntries then current else current % dos33MaxTsEntries) with
            | .error err => .error err
            | .ok v => .ok (0, growFileOnlyWrite v inode newSize) := by
  rw [endIndex] at hcurrent hlast
  simp only [dos33fsGrowFile, hcurrent, hlast]
  all_goals rfl

section Grow

variable {v v' : Dos33Volume} {inode inode' : Inode} {root c e : Nat}

/-- What a change to a larger size does to the part of the file in its first list. -/
structure Resized (root c e : Nat) (v v' : Dos33Volume) (size : Nat) : Prop where
  step : FileStep root c e v v'
  data : ∀ s < 122, dataAt v'.disk c e s = dataAt v.disk c e s
  bytes : fileType v.disk c e = 4 → dataAt v.disk c e 0 ≠ none → ∀ p < 31232,
    fileByte v'.disk c e p =
      if p = 2 then UInt8.ofNat (size % 256)
      else if p = 3 then UInt8.ofNat (size / 256 % 256)
      else fileByte v.disk c e p

/-- Within one sector nothing but the size changes. -/
theorem dos33fsGrowFile_same (hn : Names inode.number c e) {newSize : Nat}
    (hold : inode.size ≤ newSize) (hsize : newSize < 65536)
    (hsame : endSector v.disk c e inode.size = endSector v.disk c e newSize) :
    dos33fsGrowFile v inode newSize = .ok (0, growFileOnlyWrite v inode newSize) := by
  have hhdr := headerLength_le (fileType v.disk c e)
  have hsame' : (uint64 (inode.size + headerLength (fileType v.disk c e)) / dos33BlockSize : Nat) =
      uint64 (newSize + headerLength (fileType v.disk c e)) / dos33BlockSize := by
    rw [uint64_of_lt (by omega), uint64_of_lt (by omega)]
    exact hsame
  simp only [dos33fsGrowFile, loadCatalogEntry_type hn, hsame', if_true]

/-- The part of growing that appends lists, for a file that ends in its first list. -/
theorem dos33fsGrowFile_walk (h : WellFormed v root) (hf : IsFile v.disk root c e)
    (hn : Names inode.number c e) {newSize : Nat} (hold : inode.size ≤ newSize)
    (hsize : newSize < 65536) (hcur : endSector v.disk c e inode.size < 122)
    (hne : endSector v.disk c e inode.size ≠ endSector v.disk c e newSize) :
    ∃ l w, tsListAt v.disk c e 0 = some l ∧ AtList v.disk w l ∧
      ∀ r, growLoop (endSector v.disk c e newSize - endSector v.disk c e inode.size) v w
          (endSector v.disk c e inode.size) = r →
        dos33fsGrowFile v inode newSize =
          r.map fun v => (0, growFileOnlyWrite v inode newSize) := by
  have hhdr := headerLength_le (fileType v.disk c e)
  obtain ⟨l, hl⟩ := Option.isSome_iff_exists.1 (h.head c e hf)
  have hl0 : l ≠ 0 := by
    have := (h.range (.tsList c e 0) l ⟨hf, hl⟩).1
    omega
  obtain ⟨w, hwalk, hw⟩ := advanceTs_first hn hl hl0 0
  have hlt (size : Nat) (hs : size < 65536) :
      int32 ((uint64 (size + headerLength (fileType v.disk c e)) / dos33BlockSize : Nat) : Int) =
        (endSector v.disk c e size : Int) := int32_sector (by omega)
  refine ⟨l, w, hl, hw, ?_⟩
  rintro r hr
  generalize hE : endSector v.disk c e = E at hcur hne hlt hr
  have hdiv : ((E inode.size : Int) / (dos33MaxTsEntries : Int)).toNat + 1 = 1 := by
    show ((E inode.size : Int) / 122).toNat + 1 = 1
    omega
  have hoff : (E inode.size : Int) < (dos33MaxTsEntries : Int) := by
    show (E inode.size : Int) < 122
    omega
  have hsub : ((E newSize : Int) - (E inode.size : Int)).toNat = E newSize - E inode.size := by omega
  have hneq : ¬ (E inode.size : Int) = (E newSize : Int) := by omega
  simp only [dos33fsGrowFile, loadCatalogEntry_type hn, hlt inode.size (by omega),
    hlt newSize hsize, if_neg hneq]
  rw [hdiv, hwalk, if_pos hoff, hsub]
  simp only [hr]
  cases r <;> simp only [Except.map]

/-- A file that stays in its first list grows without an allocation. -/
theorem dos33fsGrowFile_first (h : WellFormed v root) (hf : IsFile v.disk root c e)
    (hn : Names inode.number c e) {newSize : Nat} (hold : inode.size ≤ newSize)
    (hin : endSector v.disk c e newSize < 122) :
    dos33fsGrowFile v inode newSize = .ok (0, growFileOnlyWrite v inode newSize) := by
  have hsize : newSize < 65536 := by
    rw [endSector] at hin
    omega
  by_cases hsame : endSector v.disk c e inode.size = endSector v.disk c e newSize
  · exact dos33fsGrowFile_same hn hold hsize hsame
  · have hmono : endSector v.disk c e inode.size ≤ endSector v.disk c e newSize :=
      Nat.div_le_div_right (by omega)
    obtain ⟨l, w, -, -, heq⟩ := dos33fsGrowFile_walk h hf hn hold hsize (by omega) hsame
    exact heq _ (growLoop_within _ v w (by omega))

/-- Growing to any size that two bytes can hold, from a size in the first list: lists are appended,
and then the size is recorded. -/
theorem dos33fsGrowFile_cases_first (h : WellFormed v root) (hf : IsFile v.disk root c e)
    (hn : Names inode.number c e) {newSize : Nat} (hold : inode.size ≤ newSize)
    (hsize : newSize < 65536)
    (hcur : endSector v.disk c e inode.size < 122 ∨
      endSector v.disk c e inode.size = endSector v.disk c e newSize) {r : Int}
    (hok : dos33fsGrowFile v inode newSize = .ok (r, v', inode')) :
    ∃ v1, GrowEffect root c e 0 v v1 ∧ r = 0 ∧ inode' = { inode with size := newSize } ∧
      v' = (growFileOnlyWrite v1 inode newSize).1 := by
  by_cases hsame : endSector v.disk c e inode.size = endSector v.disk c e newSize
  · rw [dos33fsGrowFile_same hn hold hsize hsame] at hok
    simp only [Except.ok.injEq, Prod.mk.injEq] at hok
    obtain ⟨rfl, rfl, rfl⟩ := hok
    exact ⟨v, ⟨FileStep.refl h hf, fun _ _ => rfl, fun _ _ => rfl⟩, rfl, rfl, rfl⟩
  · obtain ⟨l, w, hl, hw, heq⟩ :=
      dos33fsGrowFile_walk h hf hn hold hsize (hcur.resolve_right hsame) hsame
    cases hloop : growLoop (endSector v.disk c e newSize - endSector v.disk c e inode.size) v w
        (endSector v.disk c e inode.size) with
    | error err =>
        rw [heq _ hloop] at hok
        cases hok
    | ok v1 =>
        rw [heq _ hloop] at hok
        simp only [Except.map, Except.ok.injEq, Prod.mk.injEq] at hok
        obtain ⟨rfl, rfl, rfl⟩ := hok
        exact ⟨v1, growLoop_spec _ h ⟨hf, hl⟩ hw hloop, rfl, rfl, rfl⟩

theorem dos33fsGrowFile_spec (h : WellFormed v root) (hf : IsFile v.disk root c e)
    (hn : Names inode.number c e) {newSize : Nat} (hold : inode.size ≤ newSize)
    (hsize : newSize < 65536)
    (hcur : endSector v.disk c e inode.size < 122 ∨
      endSector v.disk c e inode.size = endSector v.disk c e newSize) {r : Int}
    (hok : dos33fsGrowFile v inode newSize = .ok (r, v', inode')) :
    r = 0 ∧ inode' = { inode with size := newSize } ∧ Resized root c e v v' newSize := by
  obtain ⟨v1, hgrow, rfl, rfl, rfl⟩ := dos33fsGrowFile_cases_first h hf hn hold hsize hcur hok
  have hwrite := growFileOnlyWrite_spec inode hgrow.step.wf hgrow.step.file hn newSize
  have hdata (s : Nat) (hs : s < 122) : dataAt v1.disk c e s = dataAt v.disk c e s :=
    hgrow.data s (by omega)
  refine ⟨rfl, rfl, hgrow.step.trans h hf hwrite.step, ?_, ?_⟩
  · exact fun s hs => (hwrite.data s).trans (hdata s hs)
  · intro htype hdata0 p hp
    have key := hwrite.bytes (hgrow.step.entry.type.trans htype)
      (by rw [hdata 0 (by decide)]; exact hdata0) p
    rwa [hgrow.bytes p (by omega)] at key

/-- In the first list only the bytes of the length change. -/
theorem dos33fsGrowFile_fileByte (h : WellFormed v root) (hf : IsFile v.disk root c e)
    (hn : Names inode.number c e) {newSize : Nat} (hold : inode.size ≤ newSize)
    (hsize : newSize < 65536)
    (hcur : endSector v.disk c e inode.size < 122 ∨
      endSector v.disk c e inode.size = endSector v.disk c e newSize) {r : Int}
    (hok : dos33fsGrowFile v inode newSize = .ok (r, v', inode')) {p : Nat} (hp : p < 31232)
    (hlength : ¬ MayHoldLength (fileType v.disk c e) p) :
    fileByte v'.disk c e p = fileByte v.disk c e p := by
  obtain ⟨v1, hgrow, -, -, rfl⟩ := dos33fsGrowFile_cases_first h hf hn hold hsize hcur hok
  rw [← hgrow.step.entry.type] at hlength
  rw [growFileOnlyWrite_fileByte inode hgrow.step.wf hgrow.step.file hn newSize hlength,
    hgrow.bytes p (by omega)]

end Grow

section Shrink

variable {v : Dos33Volume} {inode : Inode} {root c e : Nat}

/-- Shrinking a file that lies in its first list. -/
theorem dos33fsShrinkFile_spec (h : WellFormed v root) (hf : IsFile v.disk root c e)
    (hn : Names inode.number c e) {size : Nat} (hsize : size ≤ inode.size)
    (hin : endSector v.disk c e inode.size < 122) :
    ∃ v', dos33fsShrinkFile v inode size = .ok (0, growFileOnlyWrite v' inode size) ∧
      ShrinkEffect root c e v v' (size + headerLength (fileType v.disk c e))
        (endSector v.disk c e inode.size) := by
  have hhdr := headerLength_le (fileType v.disk c e)
  obtain ⟨l, hl⟩ := Option.isSome_iff_exists.1 (h.head c e hf)
  have hl0 : l ≠ 0 := by
    have := (h.range (.tsList c e 0) l ⟨hf, hl⟩).1
    omega
  obtain ⟨w, hwalk, hw⟩ := advanceTs_first hn hl hl0 0
  have hbound : inode.size + headerLength (fileType v.disk c e) < 31232 := by
    rw [endSector] at hin
    omega
  have hlast : int32 ((uint64 (inode.size + headerLength (fileType v.disk c e)) /
      dos33BlockSize : Nat) : Int) = (endSector v.disk c e inode.size : Int) :=
    int32_sector (by omega)
  have hle : (size + headerLength (fileType v.disk c e)) / 256 ≤ endSector v.disk c e inode.size :=
    Nat.div_le_div_right (by omega)
  generalize hx : size + headerLength (fileType v.disk c e) = x at hle ⊢
  generalize hE : endSector v.disk c e inode.size = last at hin hlast hle ⊢
  have hx32 : uint32 x = x := uint32_of_lt (by omega)
  have hdiv : x / 256 / 122 + 1 = 1 := by omega
  have hmod : x / 256 % 122 = x / 256 := by omega
  obtain ⟨v', hloop, heff⟩ := shrinkLoop_spec (k := 0) (i := x / 256)
    shrinkLimit h (x % 256) last ⟨hf, hl⟩ hw (by omega) (by omega) (by omega)
    (by rw [shrinkLimit]; omega)
  refine ⟨v', ?_, ?_⟩
  · have hx' : x / dos33BlockSize / dos33MaxTsEntries + 1 = 1 := hdiv
    have hm' : x / dos33BlockSize % dos33MaxTsEntries = x / 256 := hmod
    simp only [dos33fsShrinkFile, loadCatalogEntry_type hn, hlast, hx, hx32,
      if_neg (Nat.not_lt_of_le hsize), hx', hm', shrinkLoop_advance hwalk]
    rw [show 122 * 0 + x / 256 = x / 256 by omega] at hloop
    rw [hloop]
    rfl
  · rwa [show 256 * (122 * 0 + x / 256) + x % 256 = x by omega] at heff

end Shrink

section Write

variable {v v1 : Dos33Volume} {inode inode1 : Inode} {root c e : Nat}

/-- The transfer of `dos33fs_write_file` is the loop from its place in the first list. -/
theorem dos33fsWriteFile_walk (h : WellFormed v1 root) (hf : IsFile v1.disk root c e)
    (hn : Names inode1.number c e) {buf : List UInt8} {off : Nat}
    (hgrown : (if uint64 (off + buf.length) > inode.size then
      dos33fsGrowFile v inode (uint64 (off + buf.length)) else .ok (0, v, inode)) =
        .ok (0, v1, inode1))
    (hend : off + headerLength (fileType v1.disk c e) + max 1 buf.length ≤ 31232) :
    ∃ l w, tsListAt v1.disk c e 0 = some l ∧ AtList v1.disk w l ∧
      dos33fsWriteFile v inode buf off =
        match writeLoop (buf.length + 1) v1 w 0 ((off + headerLength (fileType v1.disk c e)) / 256)
          ((off + headerLength (fileType v1.disk c e)) % 256) buf with
        | .error err => .error err
        | .ok (result, v2) =>
            if result < 0 then .ok (result, v2, inode1, off)
            else .ok (buf.length, v2, inode1, off + buf.length) := by
  obtain ⟨l, hl⟩ := Option.isSome_iff_exists.1 (h.head c e hf)
  have hl0 : l ≠ 0 := by
    have := (h.range (.tsList c e 0) l ⟨hf, hl⟩).1
    omega
  obtain ⟨w, hwalk, hw⟩ := advanceTs_first hn hl hl0 0
  refine ⟨l, w, hl, hw, ?_⟩
  generalize hx : off + headerLength (fileType v1.disk c e) = x at hend ⊢
  have hx32 : uint32 x = x := uint32_of_lt (by omega)
  have hx' : x / dos33BlockSize / dos33MaxTsEntries + 1 = 1 := by
    show x / 256 / 122 + 1 = 1
    omega
  have hm' : x / dos33BlockSize % dos33MaxTsEntries = x / 256 := by
    show x / 256 % 122 = x / 256
    omega
  have hneg : ¬ ((0 : Int) < 0) := by decide
  simp only [dos33fsWriteFile, hgrown, if_neg hneg, loadCatalogEntry_type hn, hx, hx32, hx', hm',
    writeLoop_advance hwalk]
  all_goals rfl

/-- The transfer of `dos33fs_write_file`, once the file has been made large enough. -/
theorem dos33fsWriteFile_transfer (h : WellFormed v1 root) (hf : IsFile v1.disk root c e)
    (hn : Names inode1.number c e) {buf : List UInt8} {off : Nat}
    (hgrown : (if uint64 (off + buf.length) > inode.size then
      dos33fsGrowFile v inode (uint64 (off + buf.length)) else .ok (0, v, inode)) =
        .ok (0, v1, inode1))
    (hend : off + headerLength (fileType v1.disk c e) + max 1 buf.length ≤ 31232) :
    (dos33fsWriteFile v inode buf off = .error .noFreeSector ∧ OutOfSpace root c e v1) ∨
      ∃ v2, dos33fsWriteFile v inode buf off = .ok (buf.length, v2, inode1, off + buf.length) ∧
        WriteEffect root c e v1 v2 (off + headerLength (fileType v1.disk c e)) buf := by
  obtain ⟨l, w, hl, hw, heq⟩ := dos33fsWriteFile_walk h hf hn hgrown hend
  generalize off + headerLength (fileType v1.disk c e) = x at hend heq ⊢
  have hstart : 256 * (122 * 0 + x / 256) + x % 256 = x := by omega
  rcases writeLoop_spec (k := 0) (i := x / 256) (buf.length + 1) h (x % 256) buf ⟨hf, hl⟩ hw
    (by omega) (by omega) (by omega) (by omega) with ⟨herr, hout⟩ | ⟨v2, hloop, heff⟩
  · left
    refine ⟨?_, hout⟩
    rw [heq, herr]
  · right
    rw [hstart] at heff
    refine ⟨v2, ?_, heff⟩
    rw [heq, hloop]
    rfl

end Write

section Read

variable {v : Dos33Volume} {inode : Inode} {root c e : Nat}

/-- The offset of the end of a file in its last sector. -/
theorem lastSectorOffset_eq (d : Disk) (c e size : Nat) :
    int32 (((size + headerLength (fileType d c e) : Nat) : Int) -
      (endSector d c e size : Int) * (dos33BlockSize : Nat)) =
        (((size + headerLength (fileType d c e)) % 256 : Nat) : Int) := by
  have heq : ((size + headerLength (fileType d c e) : Nat) : Int) -
      (endSector d c e size : Int) * (dos33BlockSize : Nat) =
        (((size + headerLength (fileType d c e)) % 256 : Nat) : Int) := by
    show _ - ((((size + headerLength (fileType d c e)) / 256 : Nat) : Int)) * 256 = _
    omega
  rw [heq, int32_of_lt (by omega)]

/-- Reading from the first list: the file or what is wanted ends there. -/
theorem dos33fsReadFile_spec (h : WellFormed v root) (hf : IsFile v.disk root c e)
    (hn : Names inode.number c e) (hlt : inode.size + 4 < 2147483648) (count off : Nat)
    (hin : endSector v.disk c e inode.size < 122 ∨
      off + headerLength (fileType v.disk c e) + max 1 count ≤ 31232) :
    dos33fsReadFile v.disk inode count off =
      (((min count (inode.size - off) : Nat) : Int),
        fileBytes v.disk c e (off + headerLength (fileType v.disk c e))
          (min count (inode.size - off)),
        off + min count (inode.size - off)) := by
  have hhdr := headerLength_le (fileType v.disk c e)
  by_cases hoff : off > inode.size
  · have hzero : inode.size - off = 0 := by omega
    rw [hzero, Nat.min_zero]
    simp only [dos33fsReadFile, if_pos hoff]
    rfl
  · obtain ⟨l, hl⟩ := Option.isSome_iff_exists.1 (h.head c e hf)
    have hl0 : l ≠ 0 := by
      have := (h.range (.tsList c e 0) l ⟨hf, hl⟩).1
      omega
    obtain ⟨w, hwalk, hw⟩ := advanceTs_first hn hl hl0 0
    have hlast : int32 ((uint64 (inode.size + headerLength (fileType v.disk c e)) /
        dos33BlockSize : Nat) : Int) = (endSector v.disk c e inode.size : Int) :=
      int32_sector (by omega)
    have hlo := lastSectorOffset_eq v.disk c e inode.size
    have hend : 256 * endSector v.disk c e inode.size +
        (inode.size + headerLength (fileType v.disk c e)) % 256 =
          inode.size + headerLength (fileType v.disk c e) := Nat.div_add_mod _ 256
    have hfirst : off + headerLength (fileType v.disk c e) < 31232 := by
      rw [endSector] at hin
      omega
    generalize hx : off + headerLength (fileType v.disk c e) = x at hin hfirst
    have hx32 : uint32 x = x := uint32_of_lt (by omega)
    have hx' : x / dos33BlockSize / dos33MaxTsEntries + 1 = 1 := by
      show x / 256 / 122 + 1 = 1
      omega
    have hm' : x / dos33BlockSize % dos33MaxTsEntries = x / 256 := by
      show x / 256 % 122 = x / 256
      omega
    have key := readLoop_spec (k := 0) (i := x / 256) (count + 1) (x % 256) (endSector v.disk c e inode.size)
      ((inode.size + headerLength (fileType v.disk c e)) % 256) count hw hl (by omega)
      (Nat.mod_lt x (by decide)) (Nat.mod_lt _ (by decide)) (by omega) (by omega)
      (Nat.lt_succ_self count)
    rw [hend, show 256 * (122 * 0 + x / 256) + x % 256 = x by omega,
      show 122 * 0 + x / 256 = x / 256 by omega,
      show inode.size + headerLength (fileType v.disk c e) - x = inode.size - off by omega] at key
    have key' : readLoop v.disk (endSector v.disk c e inode.size)
        (((inode.size + headerLength (fileType v.disk c e)) % 256 : Nat) : Int) (count + 1) w 0
        (x / 256) (x % dos33BlockSize) ((x / dos33BlockSize : Nat) : Int) count =
          some (fileBytes v.disk c e x (min count (inode.size - off))) := key
    simp only [dos33fsReadFile, if_neg hoff, loadCatalogEntry_type hn, hlast, hlo, hx, hx32, hx', hm',
      readLoop_advance hwalk, key', fileBytes_length]

end Read

end Vmwos
