import Vmwos.Fs.Dos33fs.SectorUpdates

/-!
# The single steps of the file operations

Each file operation is a sequence of steps on one file: a sector is allocated, put
into a T/S list, written, taken out of the list and freed, a list is appended, the
catalog entry is rewritten, the VTOC goes to disk. `FileStep` says what such a step
keeps: the volume stays well formed, the entry stays the same file, nothing else is
touched. `SamePool` says that sectors only move between the file and the pool of
free ones. Both compose. `fileByte` is the contents of a file as its chain of lists
gives them, header included; every step says what it does to them.
-/

set_option autoImplicit false

namespace Vmwos

open Library

/-- The inode number names entry `e` of catalog sector `c`. -/
structure Names (number c e : Nat) : Prop where
  block : inodeToBlock number = 256 * c
  entry : inodeEntry number = e

/-- A number names one entry. -/
theorem Names.unique {number c e c' e' : Nat} (h : Names number c e) (h' : Names number c' e') :
    (c, e) = (c', e') := by
  have hb := h.block.symm.trans h'.block
  have he := h.entry.symm.trans h'.entry
  rw [he, Nat.eq_of_mul_eq_mul_left (by decide) hb]

/-- Byte `p` of a file on disk, counted from the start of its first data sector; a
hole reads as 0. -/
def fileByte (d : Disk) (c e p : Nat) : UInt8 :=
  match dataAt d c e (p / 256) with
  | none => 0
  | some n => d n (p % 256)

/-- The type of a file, without the lock bit. -/
def fileType (d : Disk) (c e : Nat) : Nat := (d c (catOffset e 2)).toNat &&& 0x7f

/-- The catalog entry stays that of the same file: its type, its first T/S list and
its name. The lock bit and the length in sectors may change. -/
structure EntryKept (d d' : Disk) (c e : Nat) : Prop where
  type : fileType d' c e = fileType d c e
  bytes : ∀ f < 0x21, f ≠ 2 → d' c (catOffset e f) = d c (catOffset e f)

/-- A step on one file. -/
structure FileFrame (root c e : Nat) (v v' : Dos33Volume) : Prop where
  wf : WellFormed v' root
  file : IsFile v'.disk root c e
  touches : TouchesOnly v.disk v'.disk root c e
  tracks : numTracks v'.vtoc = numTracks v.vtoc

/-- A step on one file that keeps its entry. -/
structure FileStep (root c e : Nat) (v v' : Dos33Volume) : Prop
    extends FileFrame root c e v v' where
  entry : EntryKept v.disk v'.disk c e

/-- The file refers to the sector. -/
def Owned (d : Disk) (root c e n : Nat) : Prop :=
  ∃ u : SectorUse, u.file = some (c, e) ∧ Refers d root u n

/-- Sectors move between the file and the free ones only. -/
def SamePool (root c e : Nat) (v v' : Dos33Volume) : Prop :=
  ∀ n, (FreeIn v' n ∨ Owned v'.disk root c e n) ↔ (FreeIn v n ∨ Owned v.disk root c e n)

section Contents

variable {d d' : Disk} {root c e : Nat} {free : Nat → Prop}

theorem fileByte_of_none {p : Nat} (h : dataAt d c e (p / 256) = none) : fileByte d c e p = 0 := by
  rw [fileByte, h]

theorem fileByte_of_some {p n : Nat} (h : dataAt d c e (p / 256) = some n) :
    fileByte d c e p = d n (p % 256) := by
  rw [fileByte, h]

/-- A byte is unchanged when its data sector is the same and keeps its bytes. -/
theorem fileByte_congr {p : Nat} (hdata : dataAt d' c e (p / 256) = dataAt d c e (p / 256))
    (hsec : ∀ n, dataAt d c e (p / 256) = some n → d' n = d n) :
    fileByte d' c e p = fileByte d c e p := by
  cases h : dataAt d c e (p / 256) with
  | none => rw [fileByte_of_none h, fileByte_of_none (hdata.trans h)]
  | some n => rw [fileByte_of_some h, fileByte_of_some (hdata.trans h), hsec n h]

/-- The contents of every other file stay. -/
theorem TouchesOnly.fileByte_eq (ht : TouchesOnly d d' root c e)
    (hacc : Account (Refers d root) free) (hc : ∃ k, catalogAt d root k = some c) {c' e' : Nat}
    (hf : IsFile d root c' e') (hne : (c', e') ≠ (c, e)) (p : Nat) :
    fileByte d' c' e' p = fileByte d c' e' p :=
  fileByte_congr (ht.dataAt_eq hacc hc hf hne _) fun _ hn =>
    ht.sector_eq hacc hc (u := .data c' e' (p / 256)) ⟨hf, hn⟩
      (fun h => hne (Option.some.inj h)) (by simp [SectorUse.file])

/-- One data sector is rewritten. -/
theorem fileByte_update_data (hacc : Account (Refers d root) free) {s n : Nat} {b : Block}
    (hn : Refers d root (.data c e s) n) (p : Nat) :
    fileByte (Function.update d n b) c e p =
      if p / 256 = s then b (p % 256) else fileByte d c e p := by
  have hmeta := SameMeta.update_data (b := b) hacc hn
  by_cases hp : p / 256 = s
  · rw [if_pos hp, fileByte_of_some (n := n) (by rw [hmeta.dataAt_eq hn.1, hp, hn.2]),
      Function.update_self]
  · rw [if_neg hp]
    apply fileByte_congr (hmeta.dataAt_eq hn.1 _)
    intro m hm
    rw [Function.update_of_ne]
    rintro rfl
    have h := hacc.exclusive (.data c e (p / 256)) (.data c e s) m ⟨hn.1, hm⟩ hn
    simp only [SectorUse.data.injEq, true_and] at h
    exact hp h

end Contents

namespace EntryKept

variable {d d' d'' : Disk} {c e : Nat}

theorem of_eq (h : d' c = d c) : EntryKept d d' c e :=
  ⟨by rw [fileType, fileType, h], fun _ _ _ => by rw [h]⟩

theorem trans (h1 : EntryKept d d' c e) (h2 : EntryKept d' d'' c e) : EntryKept d d'' c e :=
  ⟨h2.type.trans h1.type, fun f hf hne => (h2.bytes f hf hne).trans (h1.bytes f hf hne)⟩

theorem headPtr_eq (h : EntryKept d d' c e) : headPtr (d' c) e = headPtr (d c) e := by
  rw [headPtr, headPtr, headTrack, headTrack, h.bytes 0 (by decide) (by decide),
    h.bytes 1 (by decide) (by decide), h.bytes 0x20 (by decide) (by decide)]

end EntryKept

namespace FileStep

variable {root c e : Nat} {v v' v'' : Dos33Volume}

theorem refl (h : WellFormed v root) (hf : IsFile v.disk root c e) : FileStep root c e v v :=
  ⟨⟨h, hf, TouchesOnly.refl _ _ _ _, rfl⟩, EntryKept.of_eq rfl⟩

theorem trans (h : WellFormed v root) (hf : IsFile v.disk root c e) (h1 : FileStep root c e v v')
    (h2 : FileStep root c e v' v'') : FileStep root c e v v'' :=
  ⟨⟨h2.wf, h2.file, h1.touches.trans h2.touches h.account hf.catalog,
    h2.tracks.trans h1.tracks⟩, h1.entry.trans h2.entry⟩

end FileStep

namespace SamePool

variable {root c e : Nat} {v v' v'' : Dos33Volume}

theorem refl (root c e : Nat) (v : Dos33Volume) : SamePool root c e v v := fun _ => Iff.rfl

theorem trans (h1 : SamePool root c e v v') (h2 : SamePool root c e v' v'') :
    SamePool root c e v v'' := fun n => (h2 n).trans (h1 n)

/-- The file has the same sectors and the same ones are free. -/
theorem of_same (hvtoc : v'.vtoc = v.vtoc)
    (href : ∀ u n, Refers v'.disk root u n ↔ Refers v.disk root u n) : SamePool root c e v v' := by
  intro n
  have hown : Owned v'.disk root c e n ↔ Owned v.disk root c e n :=
    exists_congr fun u => and_congr_right fun _ => href u n
  rw [FreeIn, FreeIn, hvtoc, hown]

end SamePool

/-- The sectors of a file are its T/S lists and their data sectors. -/
theorem owned_iff {d : Disk} {root c e n : Nat} (hf : IsFile d root c e) :
    Owned d root c e n ↔ (∃ k, tsListAt d c e k = some n) ∨ ∃ s, dataAt d c e s = some n := by
  constructor
  · rintro ⟨u, hu, hn⟩
    cases u with
    | catalog k => cases hu
    | tsList c' e' k =>
        obtain ⟨rfl, rfl⟩ := Prod.mk.inj (Option.some.inj hu)
        exact Or.inl ⟨k, hn.2⟩
    | data c' e' s =>
        obtain ⟨rfl, rfl⟩ := Prod.mk.inj (Option.some.inj hu)
        exact Or.inr ⟨s, hn.2⟩
  · rintro (⟨k, hk⟩ | ⟨s, hs⟩)
    · exact ⟨.tsList c e k, rfl, hf, hk⟩
    · exact ⟨.data c e s, rfl, hf, hs⟩

/-! ## Steps outside the file's metadata -/

section Plain

variable {v v' : Dos33Volume} {root c e : Nat}

/-- A change that leaves the metadata alone and marks nothing free. -/
theorem SameMeta.wellFormed (hm : SameMeta v.disk v'.disk root) (h : WellFormed v root)
    (hc : ∃ k, catalogAt v.disk root k = some c) (ht : TouchesOnly v.disk v'.disk root c e)
    (hok : VtocOk v'.vtoc) (htr : numTracks v'.vtoc = numTracks v.vtoc)
    (hfree : ∀ n, FreeIn v' n → FreeIn v n) : WellFormed v' root := by
  refine h.keep hc ht hok htr (fun u n _ hu => (hm.refers_iff u n).1 hu)
    (fun n hn => Or.inl (hfree n hn)) fun hf' => ?_
  have hf := hm.isFile_iff.1 hf'
  obtain ⟨k, hk⟩ := hf.catalog
  rw [hm.catalog k c hk]
  exact ⟨h.head c e hf, h.head_sector c e hf⟩

theorem SameMeta.fileStep (hm : SameMeta v.disk v'.disk root) (h : WellFormed v root)
    (hf : IsFile v.disk root c e) (ht : TouchesOnly v.disk v'.disk root c e)
    (hok : VtocOk v'.vtoc) (htr : numTracks v'.vtoc = numTracks v.vtoc)
    (hfree : ∀ n, FreeIn v' n → FreeIn v n) : FileStep root c e v v' := by
  obtain ⟨k, hk⟩ := hf.catalog
  exact ⟨⟨hm.wellFormed h hf.catalog ht hok htr hfree, hm.isFile_iff.2 hf, ht, htr⟩,
    EntryKept.of_eq (hm.catalog k c hk)⟩

theorem wellFormed_update_unreferenced (h : WellFormed v root) {m : Nat} (b : Block)
    (hm : ∀ u, ¬ Refers v.disk root u m) :
    WellFormed { v with disk := Function.update v.disk m b } root :=
  (SameMeta.update_unreferenced hm).wellFormed (e := 0) h ⟨0, rfl⟩
    (touchesOnly_update_unreferenced hm) h.vtoc rfl fun _ hn => hn

/-- A sector nobody refers to is rewritten. -/
theorem fileStep_update_unreferenced (h : WellFormed v root) (hf : IsFile v.disk root c e) {m : Nat}
    (b : Block) (hm : ∀ u, ¬ Refers v.disk root u m) :
    FileStep root c e v { v with disk := Function.update v.disk m b } :=
  (SameMeta.update_unreferenced hm).fileStep h hf (touchesOnly_update_unreferenced hm) h.vtoc rfl
    fun _ hn => hn

/-- A data sector of the file is rewritten. -/
theorem fileStep_update_data (h : WellFormed v root) {s n : Nat} (b : Block)
    (hn : Refers v.disk root (.data c e s) n) :
    FileStep root c e v { v with disk := Function.update v.disk n b } :=
  (SameMeta.update_data h.account hn).fileStep h hn.1
    (touchesOnly_update_own h.account hn rfl) h.vtoc rfl fun _ hn => hn

theorem WellFormed.not_refers_vtoc (h : WellFormed v root) (u : SectorUse) :
    ¬ Refers v.disk root u 272 := fun hu => (h.range u 272 hu).2.2 rfl

/-- The VTOC goes to disk. -/
theorem fileStep_writeSuperblock (h : WellFormed v root) (hf : IsFile v.disk root c e) :
    FileStep root c e v (dos33fsWriteSuperblock v) :=
  fileStep_update_unreferenced h hf v.vtoc h.not_refers_vtoc

/-- A sector is taken from the pool. -/
theorem Taken.sameMeta {n : Nat} (ha : Taken v v' n) (h : WellFormed v root) :
    SameMeta v.disk v'.disk root := by
  rw [ha.disk]
  exact SameMeta.update_unreferenced h.not_refers_vtoc

theorem Taken.touchesOnly {n : Nat} (ha : Taken v v' n) (h : WellFormed v root) (c e : Nat) :
    TouchesOnly v.disk v'.disk root c e := by
  rw [ha.disk]
  exact touchesOnly_update_unreferenced h.not_refers_vtoc

theorem Taken.wellFormed {n : Nat} (ha : Taken v v' n) (h : WellFormed v root) :
    WellFormed v' root :=
  (ha.sameMeta h).wellFormed (e := 0) h ⟨0, rfl⟩ (ha.touchesOnly h root 0) ha.ok ha.tracks
    fun m hm => ((ha.isFree_iff m).1 hm).1

theorem Taken.fileStep {n : Nat} (ha : Taken v v' n) (h : WellFormed v root)
    (hf : IsFile v.disk root c e) : FileStep root c e v v' :=
  (ha.sameMeta h).fileStep h hf (ha.touchesOnly h c e) ha.ok ha.tracks
    fun m hm => ((ha.isFree_iff m).1 hm).1

/-- The sector taken is nobody's. -/
theorem Taken.spare {n : Nat} (ha : Taken v v' n) (h : WellFormed v root) : Spare v' root n where
  loose := by
    refine ⟨fun u hu => ?_, fun hf => ((ha.isFree_iff n).1 hf).2 rfl⟩
    rw [(ha.sameMeta h).refers_iff] at hu
    exact h.account.busy u n hu ha.free
  range := by
    obtain ⟨h1, h2⟩ := h.reserved n ha.free
    rw [ha.tracks]
    exact ⟨h1, ha.lt, h2⟩

/-- A spare sector stays one when it is rewritten. -/
theorem Spare.update {n : Nat} (hs : Spare v root n) (b : Block) :
    Spare { v with disk := Function.update v.disk n b } root n where
  loose := ⟨fun u hu => hs.loose.1 u
    (((SameMeta.update_unreferenced hs.loose.1).refers_iff u n).1 hu), hs.loose.2⟩
  range := hs.range

/-- The pool after a step outside the metadata. -/
theorem samePool_update_unreferenced {m : Nat} (b : Block) (hm : ∀ u, ¬ Refers v.disk root u m) :
    SamePool root c e v { v with disk := Function.update v.disk m b } :=
  SamePool.of_same rfl (SameMeta.update_unreferenced hm).refers_iff

theorem samePool_update_data (h : WellFormed v root) {s n : Nat} (b : Block)
    (hn : Refers v.disk root (.data c e s) n) :
    SamePool root c e v { v with disk := Function.update v.disk n b } :=
  SamePool.of_same rfl (SameMeta.update_data h.account hn).refers_iff

theorem samePool_writeSuperblock (h : WellFormed v root) :
    SamePool root c e v (dos33fsWriteSuperblock v) :=
  samePool_update_unreferenced v.vtoc h.not_refers_vtoc

/-- A sector outside the metadata and outside the file leaves the contents alone. -/
theorem fileByte_update_unreferenced (hf : IsFile v.disk root c e) {m : Nat} (b : Block)
    (hm : ∀ u, ¬ Refers v.disk root u m) (p : Nat) :
    fileByte (Function.update v.disk m b) c e p = fileByte v.disk c e p := by
  apply fileByte_congr ((SameMeta.update_unreferenced hm).dataAt_eq hf _)
  intro n hn
  rw [Function.update_of_ne]
  rintro rfl
  exact hm (.data c e (p / 256)) ⟨hf, hn⟩

end Plain

/-! ## Steps on a T/S list -/

section TsLists

variable {v v' : Dos33Volume} {root c e k l : Nat}

theorem touchesOnly_update_tsList {b : Block} (h : WellFormed v root)
    (hl : Refers v.disk root (.tsList c e k) l) :
    TouchesOnly v.disk (Function.update v.disk l b) root c e :=
  touchesOnly_update_own h.account hl rfl

/-- The catalog sector of a file is none of the file's own sectors. -/
theorem catalog_update_own {b : Block} {u : SectorUse} (h : WellFormed v root)
    (hl : Refers v.disk root u l) (hu : u.file = some (c, e)) (hf : IsFile v.disk root c e) :
    Function.update v.disk l b c = v.disk c := by
  obtain ⟨j, hj⟩ := hf.catalog
  exact Function.update_of_ne (ne_catalog_of_own h.account hl hu hj) _ _

theorem head_update_own {b : Block} {u : SectorUse} (h : WellFormed v root)
    (hl : Refers v.disk root u l) (hu : u.file = some (c, e)) (hf : IsFile v.disk root c e) :
    (headPtr (Function.update v.disk l b c) e).isSome ∧
      (Function.update v.disk l b c (catOffset e 1)).toNat < 16 := by
  rw [catalog_update_own h hl hu hf]
  exact ⟨h.head c e hf, h.head_sector c e hf⟩

theorem tsListAt_setTsEntry (h : WellFormed v root) (hl : Refers v.disk root (.tsList c e k) l)
    (i t s j : Nat) :
    tsListAt (Function.update v.disk l (setTsEntry (v.disk l) i t s)) c e j =
      tsListAt v.disk c e j :=
  tsListAt_update_tsList h.account hl (setTsEntry_of_lt (by decide)) (setTsEntry_of_lt (by decide)) j

theorem dataAt_setTsEntry (h : WellFormed v root) (hl : Refers v.disk root (.tsList c e k) l)
    {i t s : Nat} (ht : t < 256) (hs : s < 256) (hi : i < 122) (j : Nat) :
    dataAt (Function.update v.disk l (setTsEntry (v.disk l) i t s)) c e j =
      if j = 122 * k + i then (if t = 0 ∧ s = 0 then none else some (16 * t + s))
      else dataAt v.disk c e j := by
  rw [dataAt_update_tsList h.account hl (setTsEntry_of_lt (by decide))
    (setTsEntry_of_lt (by decide)), tsEntry_setTsEntry ht hs]
  by_cases hj : j / 122 = k
  · rw [if_pos hj]
    by_cases hji : j % 122 = i
    · have hjk : j = 122 * k + i := by omega
      rw [if_pos hji, if_pos hjk]
    · have hjk : j ≠ 122 * k + i := by omega
      rw [if_neg hji, if_neg hjk, dataAt, hj, hl.2, Option.bind_some]
  · have hjk : j ≠ 122 * k + i := by omega
    rw [if_neg hj, if_neg hjk]

/-- A spare sector becomes entry `i` of list `k`. -/
theorem fileStep_setTsEntry (h : WellFormed v root) (hl : Refers v.disk root (.tsList c e k) l)
    {i t s : Nat} (hi : i < 122) (ht : t < 256) (hs : s < 256)
    (hspare : Spare v root (16 * t + s)) :
    FileStep root c e v
      { v with disk := Function.update v.disk l (setTsEntry (v.disk l) i t s) } := by
  refine ⟨⟨?_, (isFile_update_own h.account hl rfl).2 hl.1, touchesOnly_update_tsList h hl, rfl⟩,
    EntryKept.of_eq (catalog_update_own h hl rfl hl.1)⟩
  have hown : ∀ u n, u.file = some (c, e) →
      Refers (Function.update v.disk l (setTsEntry (v.disk l) i t s)) root u n →
      Refers v.disk root u n ∨ (u = .data c e (122 * k + i) ∧ n = 16 * t + s) := by
    intro u n hu hn
    cases u with
    | catalog j => cases hu
    | tsList c' e' j =>
        obtain ⟨rfl, rfl⟩ := Prod.mk.inj (Option.some.inj hu)
        rw [Refers, tsListAt_setTsEntry h hl] at hn
        exact Or.inl ⟨hl.1, hn.2⟩
    | data c' e' j =>
        obtain ⟨rfl, rfl⟩ := Prod.mk.inj (Option.some.inj hu)
        rw [Refers, dataAt_setTsEntry h hl ht hs hi] at hn
        by_cases hj : j = 122 * k + i
        · have hpos := hspare.range.1
          rw [if_pos hj, if_neg (by omega)] at hn
          exact Or.inr ⟨by rw [hj], (Option.some.inj hn.2).symm⟩
        · rw [if_neg hj] at hn
          exact Or.inl ⟨hl.1, hn.2⟩
  exact h.extend hl.1.catalog (touchesOnly_update_tsList h hl) rfl hspare hown fun _ =>
    head_update_own h hl rfl hl.1

/-- The contents after entry `i` of list `k` is set: only the sector of that entry
is exchanged. -/
theorem fileByte_setTsEntry (h : WellFormed v root) (hl : Refers v.disk root (.tsList c e k) l)
    {i t s : Nat} (ht : t < 256) (hs : s < 256) (hi : i < 122) {p : Nat}
    (hp : p / 256 ≠ 122 * k + i) :
    fileByte (Function.update v.disk l (setTsEntry (v.disk l) i t s)) c e p =
      fileByte v.disk c e p := by
  apply fileByte_congr
  · rw [dataAt_setTsEntry h hl ht hs hi, if_neg hp]
  · intro n hn
    rw [Function.update_of_ne]
    rintro rfl
    cases h.account.exclusive (.data c e (p / 256)) (.tsList c e k) n ⟨hl.1, hn⟩ hl

/-- A sector is allocated for a hole. -/
theorem samePool_fill (h : WellFormed v root) (hl : Refers v.disk root (.tsList c e k) l)
    {i t s : Nat} (hi : i < 122) (ht : t < 256) (hs : s < 256) (ha : Taken v v' (16 * t + s))
    (hhole : dataAt v.disk c e (122 * k + i) = none) :
    SamePool root c e v
      { v' with disk := Function.update v'.disk l (setTsEntry (v'.disk l) i t s) } := by
  have hm := ha.sameMeta h
  have hstep := ha.fileStep h hl.1
  have hl' : Refers v'.disk root (.tsList c e k) l := (hm.refers_iff _ _).2 hl
  have hstep' := fileStep_setTsEntry hstep.wf hl' hi ht hs (ha.spare h)
  have hne : ¬ (t = 0 ∧ s = 0) := by
    have := (h.reserved _ ha.free).1
    omega
  intro n
  rw [owned_iff hstep'.file, owned_iff hl.1]
  simp only [tsListAt_setTsEntry hstep.wf hl', dataAt_setTsEntry hstep.wf hl' ht hs hi,
    if_neg hne, hm.tsListAt_eq hl.1, hm.dataAt_eq hl.1]
  have hfree : FreeIn { v' with disk := Function.update v'.disk l (setTsEntry (v'.disk l) i t s) } n ↔
      FreeIn v n ∧ n ≠ 16 * t + s := ha.isFree_iff n
  have hdata : (∃ j, (if j = 122 * k + i then some (16 * t + s) else dataAt v.disk c e j) = some n) ↔
      n = 16 * t + s ∨ ∃ j, dataAt v.disk c e j = some n := by
    constructor
    · rintro ⟨j, hj⟩
      by_cases hjk : j = 122 * k + i
      · rw [if_pos hjk] at hj
        exact Or.inl (Option.some.inj hj).symm
      · rw [if_neg hjk] at hj
        exact Or.inr ⟨j, hj⟩
    · rintro (rfl | ⟨j, hj⟩)
      · exact ⟨122 * k + i, if_pos rfl⟩
      · refine ⟨j, ?_⟩
        rw [if_neg, hj]
        rintro rfl
        rw [hhole] at hj
        cases hj
  rw [hfree, hdata]
  constructor
  · rintro (⟨hn, -⟩ | hn | rfl | hn)
    · exact Or.inl hn
    · exact Or.inr (Or.inl hn)
    · exact Or.inl ha.free
    · exact Or.inr (Or.inr hn)
  · rintro (hn | hn | hn)
    · by_cases heq : n = 16 * t + s
      · exact Or.inr (Or.inr (Or.inl heq))
      · exact Or.inl ⟨hn, heq⟩
    · exact Or.inr (Or.inl hn)
    · exact Or.inr (Or.inr (Or.inr hn))

/-- Entry `i` of list `k` is cleared and its sector given back. -/
def clearTsEntry (v : Dos33Volume) (l i n : Nat) : Dos33Volume :=
  dos33MarkBlocksFree { v with disk := Function.update v.disk l (setTsEntry (v.disk l) i 0 0) }
    (n / 16) (n % 16)

theorem clearTsEntry_disk (v : Dos33Volume) (l i n : Nat) :
    (clearTsEntry v l i n).disk = Function.update v.disk l (setTsEntry (v.disk l) i 0 0) :=
  dos33MarkBlocksFree_disk _ _ _

theorem freeIn_dos33MarkBlocksFree (v : Dos33Volume) (n m : Nat) :
    FreeIn (dos33MarkBlocksFree v (n / 16) (n % 16)) m ↔ m = n ∨ FreeIn v m := by
  have hn : 16 * (n / 16) + n % 16 = n := Nat.div_add_mod n 16
  rw [FreeIn, isFree_dos33MarkBlocksFree v (Nat.mod_lt n (by decide)), hn, Bool.or_eq_true,
    decide_eq_true_iff]

theorem dataAt_clearTsEntry (h : WellFormed v root) (hl : Refers v.disk root (.tsList c e k) l)
    {i : Nat} (hi : i < 122) (n j : Nat) :
    dataAt (clearTsEntry v l i n).disk c e j =
      if j = 122 * k + i then none else dataAt v.disk c e j := by
  rw [clearTsEntry_disk, dataAt_setTsEntry h hl (by decide) (by decide) hi]
  rfl

theorem refers_clearTsEntry (h : WellFormed v root) (hl : Refers v.disk root (.tsList c e k) l)
    {i n : Nat} (hi : i < 122) {u : SectorUse} {m : Nat} (hu : u.file = some (c, e))
    (hm : Refers (clearTsEntry v l i n).disk root u m) :
    Refers v.disk root u m ∧ u ≠ .data c e (122 * k + i) := by
  cases u with
  | catalog j => cases hu
  | tsList c' e' j =>
      obtain ⟨rfl, rfl⟩ := Prod.mk.inj (Option.some.inj hu)
      rw [Refers, clearTsEntry_disk, tsListAt_setTsEntry h hl] at hm
      exact ⟨⟨hl.1, hm.2⟩, fun hne => by cases hne⟩
  | data c' e' j =>
      obtain ⟨rfl, rfl⟩ := Prod.mk.inj (Option.some.inj hu)
      rw [Refers, dataAt_clearTsEntry h hl hi] at hm
      by_cases hj : j = 122 * k + i
      · rw [if_pos hj] at hm
        cases hm.2
      · rw [if_neg hj] at hm
        refine ⟨⟨hl.1, hm.2⟩, fun hne => hj ?_⟩
        simpa using hne

theorem fileStep_clearTsEntry (h : WellFormed v root) (hl : Refers v.disk root (.tsList c e k) l)
    {i n : Nat} (hi : i < 122) (hn : dataAt v.disk c e (122 * k + i) = some n) :
    FileStep root c e v (clearTsEntry v l i n) := by
  have ht : TouchesOnly v.disk (clearTsEntry v l i n).disk root c e := by
    rw [clearTsEntry_disk]
    exact touchesOnly_update_tsList h hl
  have hn' : Refers v.disk root (.data c e (122 * k + i)) n := ⟨hl.1, hn⟩
  have hlow : ∀ j < 0x38, (clearTsEntry v l i n).vtoc j = v.vtoc j := fun j hj =>
    dos33MarkBlocksFree_vtoc_of_lt _ _ _ hj
  have hcat : (clearTsEntry v l i n).disk c = v.disk c := by
    rw [clearTsEntry_disk]
    exact catalog_update_own h hl rfl hl.1
  have hfile : IsFile (clearTsEntry v l i n).disk root c e := by
    rw [clearTsEntry_disk]
    exact (isFile_update_own h.account hl rfl).2 hl.1
  refine ⟨⟨?_, hfile, ht, numTracks_congr hlow⟩, EntryKept.of_eq hcat⟩
  refine h.keep hl.1.catalog ht (h.vtoc.congr hlow) (numTracks_congr hlow)
    (fun u m hu hm => (refers_clearTsEntry h hl hi hu hm).1) ?_ fun _ => ?_
  · intro m hm
    rcases (freeIn_dos33MarkBlocksFree _ n m).1 hm with rfl | hm
    · refine Or.inr ⟨⟨_, hn'⟩, fun u hu => ?_⟩
      by_cases hfile : u.file = some (c, e)
      · obtain ⟨hu', hne⟩ := refers_clearTsEntry h hl hi hfile hu
        exact hne (h.account.exclusive _ _ m hu' hn')
      · have hu' := (ht.refers_iff h.account hl.1.catalog hfile m).1 hu
        rw [h.account.exclusive _ _ m hu' hn'] at hfile
        exact hfile rfl
    · exact Or.inl hm
  · rw [hcat]
    exact ⟨h.head c e hl.1, h.head_sector c e hl.1⟩

theorem samePool_clearTsEntry (h : WellFormed v root) (hl : Refers v.disk root (.tsList c e k) l)
    {i n : Nat} (hi : i < 122) (hn : dataAt v.disk c e (122 * k + i) = some n) :
    SamePool root c e v (clearTsEntry v l i n) := by
  intro m
  rw [owned_iff (fileStep_clearTsEntry h hl hi hn).file, owned_iff hl.1]
  have hfree : FreeIn (clearTsEntry v l i n) m ↔ m = n ∨ FreeIn v m :=
    freeIn_dos33MarkBlocksFree _ n m
  have hlist (j : Nat) : tsListAt (clearTsEntry v l i n).disk c e j = tsListAt v.disk c e j := by
    rw [clearTsEntry_disk]
    exact tsListAt_setTsEntry h hl i 0 0 j
  rw [hfree]
  simp only [hlist, dataAt_clearTsEntry h hl hi]
  constructor
  · rintro ((rfl | hm) | hm | ⟨j, hj⟩)
    · exact Or.inr (Or.inr ⟨_, hn⟩)
    · exact Or.inl hm
    · exact Or.inr (Or.inl hm)
    · by_cases hjk : j = 122 * k + i
      · rw [if_pos hjk] at hj
        cases hj
      · rw [if_neg hjk] at hj
        exact Or.inr (Or.inr ⟨j, hj⟩)
  · rintro (hm | hm | ⟨j, hj⟩)
    · exact Or.inl (Or.inr hm)
    · exact Or.inr (Or.inl hm)
    · by_cases hjk : j = 122 * k + i
      · rw [hjk, hn] at hj
        exact Or.inl (Or.inl (Option.some.inj hj).symm)
      · exact Or.inr (Or.inr ⟨j, by rw [if_neg hjk, hj]⟩)

/-- A spare sector becomes the list behind list `k`, which is then the last one. -/
theorem fileStep_linkTsList (h : WellFormed v root) (hl : Refers v.disk root (.tsList c e k) l)
    {n : Nat} {b : Block} (hspare : Spare v root n) (hb : sectorPtr (b 1) (b 2) = some n)
    (hrest : ∀ i, 12 ≤ i → b i = v.disk l i) :
    FileStep root c e v { v with disk := linkTsList v.disk l n b } := by
  have hn := hspare.loose.1
  have ht := touchesOnly_linkTsList (b := b) h.account hl hn
  have hfile := isFile_linkTsList (b := b) h.account hl hn
  have hcat : linkTsList v.disk l n b c = v.disk c := by
    obtain ⟨j, hj⟩ := hl.1.catalog
    refine linkTsList_of_ne (ne_catalog_of_own h.account hl rfl hj) ?_
    rintro rfl
    exact hn (.catalog j) hj
  refine ⟨⟨?_, hfile, ht, rfl⟩, EntryKept.of_eq hcat⟩
  have hown : ∀ u m, u.file = some (c, e) → Refers (linkTsList v.disk l n b) root u m →
      Refers v.disk root u m ∨ (u = .tsList c e (k + 1) ∧ m = n) := by
    intro u m hu hm
    cases u with
    | catalog j => cases hu
    | tsList c' e' j =>
        obtain ⟨rfl, rfl⟩ := Prod.mk.inj (Option.some.inj hu)
        rw [Refers, tsListAt_linkTsList h.account hl hn hb] at hm
        by_cases hj : j ≤ k
        · rw [if_pos hj] at hm
          exact Or.inl ⟨hl.1, hm.2⟩
        · rw [if_neg hj] at hm
          by_cases hj1 : j = k + 1
          · rw [if_pos hj1] at hm
            exact Or.inr ⟨by rw [hj1], (Option.some.inj hm.2).symm⟩
          · rw [if_neg hj1] at hm
            cases hm.2
    | data c' e' j =>
        obtain ⟨rfl, rfl⟩ := Prod.mk.inj (Option.some.inj hu)
        rw [Refers, dataAt_linkTsList h.account hl hn hb hrest] at hm
        by_cases hj : j / 122 ≤ k
        · rw [if_pos hj] at hm
          exact Or.inl ⟨hl.1, hm.2⟩
        · rw [if_neg hj] at hm
          cases hm.2
  refine h.extend hl.1.catalog ht rfl hspare hown fun _ => ?_
  show (headPtr (linkTsList v.disk l n b c) e).isSome ∧
    (linkTsList v.disk l n b c (catOffset e 1)).toNat < 16
  rw [hcat]
  exact ⟨h.head c e hl.1, h.head_sector c e hl.1⟩

end TsLists

/-! ## Steps on the catalog entry -/

section Entry

variable {v : Dos33Volume} {root c e : Nat} {b : Block}

/-- The references after an entry is rewritten that keeps the first T/S list. -/
theorem refers_update_entry (h : WellFormed v root) (hf : IsFile v.disk root c e)
    (hb : ∀ i, ¬ (11 + 35 * e ≤ i ∧ i < 46 + 35 * e) → b i = v.disk c i)
    (hused : EntryUsed b e) (hhead : headPtr b e = headPtr (v.disk c) e) (u : SectorUse) (n : Nat) :
    Refers (Function.update v.disk c b) root u n ↔ Refers v.disk root u n := by
  have ht : TouchesOnly v.disk (Function.update v.disk c b) root c e := touchesOnly_update_entry hb
  have hf' : IsFile (Function.update v.disk c b) root c e :=
    (isFile_update_entry hf.catalog hb).2 ⟨hf.entry, hused⟩
  by_cases hu : u.file = some (c, e)
  · cases u with
    | catalog k => cases hu
    | tsList c' e' k =>
        obtain ⟨rfl, rfl⟩ := Prod.mk.inj (Option.some.inj hu)
        rw [Refers, Refers, tsListAt_update_entry hb, hhead, ← tsListAt]
        exact and_congr_left fun _ => ⟨fun _ => hf, fun _ => hf'⟩
    | data c' e' s =>
        obtain ⟨rfl, rfl⟩ := Prod.mk.inj (Option.some.inj hu)
        rw [Refers, Refers, dataAt_update_entry h.account hf hb hhead]
        exact and_congr_left fun _ => ⟨fun _ => hf, fun _ => hf'⟩
  · exact ht.refers_iff h.account hf.catalog hu n

theorem fileFrame_update_entry (h : WellFormed v root) (hf : IsFile v.disk root c e)
    (hb : ∀ i, ¬ (11 + 35 * e ≤ i ∧ i < 46 + 35 * e) → b i = v.disk c i)
    (hused : EntryUsed b e) (hhead : headPtr b e = headPtr (v.disk c) e)
    (hsec : b (catOffset e 1) = v.disk c (catOffset e 1)) :
    FileFrame root c e v { v with disk := Function.update v.disk c b } := by
  have ht : TouchesOnly v.disk (Function.update v.disk c b) root c e := touchesOnly_update_entry hb
  have href := refers_update_entry h hf hb hused hhead
  refine ⟨?_, (isFile_update_entry hf.catalog hb).2 ⟨hf.entry, hused⟩, ht, rfl⟩
  refine h.keep hf.catalog ht h.vtoc rfl (fun u n _ hu => (href u n).1 hu)
    (fun n hn => Or.inl hn) fun _ => ?_
  show (headPtr (Function.update v.disk c b c) e).isSome ∧
    (Function.update v.disk c b c (catOffset e 1)).toNat < 16
  rw [Function.update_self, hhead, hsec]
  exact ⟨h.head c e hf, h.head_sector c e hf⟩

theorem samePool_update_entry (h : WellFormed v root) (hf : IsFile v.disk root c e)
    (hb : ∀ i, ¬ (11 + 35 * e ≤ i ∧ i < 46 + 35 * e) → b i = v.disk c i)
    (hused : EntryUsed b e) (hhead : headPtr b e = headPtr (v.disk c) e) :
    SamePool root c e v { v with disk := Function.update v.disk c b } :=
  SamePool.of_same rfl (refers_update_entry h hf hb hused hhead)

theorem fileByte_update_entry (h : WellFormed v root) (hf : IsFile v.disk root c e)
    (hb : ∀ i, ¬ (11 + 35 * e ≤ i ∧ i < 46 + 35 * e) → b i = v.disk c i)
    (hhead : headPtr b e = headPtr (v.disk c) e) (p : Nat) :
    fileByte (Function.update v.disk c b) c e p = fileByte v.disk c e p := by
  apply fileByte_congr (dataAt_update_entry h.account hf hb hhead _)
  intro n hn
  obtain ⟨k, hk⟩ := hf.catalog
  have hcn := ne_catalog_of_own h.account (u := .data c e (p / 256)) ⟨hf, hn⟩ rfl hk
  rw [Function.update_of_ne hcn.symm]

/-- The file is deleted: its entry is given up and its first T/S list given back. -/
theorem wellFormed_deleteEntry (h : WellFormed v root) (hf : IsFile v.disk root c e)
    (hb : ∀ i, ¬ (11 + 35 * e ≤ i ∧ i < 46 + 35 * e) → b i = v.disk c i)
    (hunused : ¬ EntryUsed b e) {n : Nat} (hn : tsListAt v.disk c e 0 = some n) :
    WellFormed (dos33MarkBlocksFree { v with disk := Function.update v.disk c b } (n / 16) (n % 16))
      root := by
  have ht : TouchesOnly v.disk (Function.update v.disk c b) root c e := touchesOnly_update_entry hb
  have hlow : ∀ j < 0x38, (dos33MarkBlocksFree { v with disk := Function.update v.disk c b }
      (n / 16) (n % 16)).vtoc j = v.vtoc j := fun j hj => dos33MarkBlocksFree_vtoc_of_lt _ _ _ hj
  have hnot : ¬ IsFile (Function.update v.disk c b) root c e := fun hf' =>
    hunused ((isFile_update_entry hf.catalog hb).1 hf').2
  have hown : ∀ u m, u.file = some (c, e) → ¬ Refers (Function.update v.disk c b) root u m := by
    intro u m hu hm
    cases u with
    | catalog k => cases hu
    | tsList c' e' k =>
        obtain ⟨rfl, rfl⟩ := Prod.mk.inj (Option.some.inj hu)
        exact hnot hm.1
    | data c' e' s =>
        obtain ⟨rfl, rfl⟩ := Prod.mk.inj (Option.some.inj hu)
        exact hnot hm.1
  have hdisk : (dos33MarkBlocksFree { v with disk := Function.update v.disk c b }
      (n / 16) (n % 16)).disk = Function.update v.disk c b := dos33MarkBlocksFree_disk _ _ _
  have hlist : Refers v.disk root (.tsList c e 0) n := ⟨hf, hn⟩
  refine h.keep hf.catalog (hdisk ▸ ht) (h.vtoc.congr hlow) (numTracks_congr hlow) ?_ ?_ ?_
  · intro u m hu hm
    rw [hdisk] at hm
    exact absurd hm (hown u m hu)
  · intro m hm
    rcases (freeIn_dos33MarkBlocksFree _ n m).1 hm with rfl | hm
    · refine Or.inr ⟨⟨_, hlist⟩, fun u hu => ?_⟩
      rw [hdisk] at hu
      by_cases hfile : u.file = some (c, e)
      · exact hown u m hfile hu
      · have hu' := (ht.refers_iff h.account hf.catalog hfile m).1 hu
        rw [h.account.exclusive _ _ m hu' hlist] at hfile
        exact hfile rfl
    · exact Or.inl hm
  · intro hf'
    rw [hdisk] at hf'
    exact absurd hf' hnot

end Entry

/-! ## A new file -/

section NewEntry

variable {v : Dos33Volume} {root c e n : Nat} {b : Block}

/-- A free entry gets a spare, empty sector as its first T/S list. -/
structure NewEntry (v : Dos33Volume) (root c e n : Nat) (b : Block) : Prop where
  catalog : ∃ k, catalogAt v.disk root k = some c
  entry : e < 7
  unused : ¬ EntryUsed (v.disk c) e
  spare : Spare v root n
  empty : v.disk n = fun _ => 0
  rest : ∀ i, ¬ (11 + 35 * e ≤ i ∧ i < 46 + 35 * e) → b i = v.disk c i
  used : EntryUsed b e
  head : headPtr b e = some n
  sector : (b (catOffset e 1)).toNat < 16

namespace NewEntry

theorem isFile (hnew : NewEntry v root c e n b) :
    IsFile (Function.update v.disk c b) root c e :=
  (isFile_update_entry hnew.catalog hnew.rest).2 ⟨hnew.entry, hnew.used⟩

theorem ne_catalog (hnew : NewEntry v root c e n b) : n ≠ c := by
  rintro rfl
  obtain ⟨k, hk⟩ := hnew.catalog
  exact hnew.spare.loose.1 (.catalog k) hk

theorem tsListAt_eq (hnew : NewEntry v root c e n b) (k : Nat) :
    tsListAt (Function.update v.disk c b) c e k = if k = 0 then some n else none := by
  rw [tsListAt_update_entry hnew.rest, hnew.head]
  cases k with
  | zero => rfl
  | succ k =>
      have hend : nextSector v.disk n = none := by
        rw [nextSector, hnew.empty]
        rfl
      rw [chainAt_succ', Option.bind_some, hend, chainAt_none, if_neg (Nat.succ_ne_zero k)]

theorem dataAt_eq (hnew : NewEntry v root c e n b) (s : Nat) :
    dataAt (Function.update v.disk c b) c e s = none := by
  rw [dataAt, hnew.tsListAt_eq]
  by_cases hs : s / 122 = 0
  · rw [if_pos hs, Option.bind_some, Function.update_of_ne hnew.ne_catalog, hnew.empty]
    rfl
  · rw [if_neg hs, Option.bind_none]

theorem refers_own (hnew : NewEntry v root c e n b) {u : SectorUse} {m : Nat}
    (hu : u.file = some (c, e)) :
    Refers (Function.update v.disk c b) root u m ↔ u = .tsList c e 0 ∧ m = n := by
  cases u with
  | catalog k => cases hu
  | tsList c' e' k =>
      obtain ⟨rfl, rfl⟩ := Prod.mk.inj (Option.some.inj hu)
      rw [Refers, hnew.tsListAt_eq]
      constructor
      · rintro ⟨-, hm⟩
        by_cases hk : k = 0
        · rw [if_pos hk] at hm
          exact ⟨by rw [hk], (Option.some.inj hm).symm⟩
        · rw [if_neg hk] at hm
          cases hm
      · rintro ⟨hk, rfl⟩
        cases hk
        exact ⟨hnew.isFile, rfl⟩
  | data c' e' s =>
      obtain ⟨rfl, rfl⟩ := Prod.mk.inj (Option.some.inj hu)
      rw [Refers, hnew.dataAt_eq]
      constructor
      · rintro ⟨-, hm⟩
        cases hm
      · rintro ⟨hs, -⟩
        cases hs

theorem fileFrame (hnew : NewEntry v root c e n b) (h : WellFormed v root) :
    FileFrame root c e v { v with disk := Function.update v.disk c b } := by
  have ht : TouchesOnly v.disk (Function.update v.disk c b) root c e :=
    touchesOnly_update_entry hnew.rest
  refine ⟨?_, hnew.isFile, ht, rfl⟩
  refine h.extend hnew.catalog ht rfl hnew.spare
    (fun u m hu hm => Or.inr ((hnew.refers_own hu).1 hm)) fun _ => ?_
  show (headPtr (Function.update v.disk c b c) e).isSome ∧
    (Function.update v.disk c b c (catOffset e 1)).toNat < 16
  rw [Function.update_self, hnew.head]
  exact ⟨rfl, hnew.sector⟩

theorem owned_iff (hnew : NewEntry v root c e n b) (m : Nat) :
    Owned (Function.update v.disk c b) root c e m ↔ m = n := by
  constructor
  · rintro ⟨u, hu, hm⟩
    exact ((hnew.refers_own hu).1 hm).2
  · rintro rfl
    exact ⟨.tsList c e 0, rfl, (hnew.refers_own rfl).2 ⟨rfl, rfl⟩⟩

end NewEntry

end NewEntry

end Vmwos
