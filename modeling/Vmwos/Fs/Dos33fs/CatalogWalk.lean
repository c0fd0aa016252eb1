import Vmwos.Fs.Dos33fs.Directory
import Vmwos.Fs.Dos33fs.DiskFull
import Vmwos.Library.Walk
import Mathlib.Data.List.TakeWhile

/-!
# Walks along the catalog

Three operations follow the links of the catalog sectors and have no other end than the link 0/0.
On a catalog that ends they come back, and what a name lookup finds can be said from the list of
its live entries.
-/

set_option autoImplicit false

namespace Vmwos

open Library

/-! ## The catalog as a chain -/

/-- The track and sector byte of a catalog sector. -/
abbrev CatSector : Type := UInt8 × UInt8

/-- The sector as it is on the disk. -/
def CatSector.block (d : Disk) (c : CatSector) : Block := readBlock d (ts c.1.toNat c.2.toNat)

/-- The next catalog sector; 0/0 ends the catalog. -/
def catNext (d : Disk) (c : CatSector) : Option CatSector :=
  let b := c.block d
  if b dos33CatNextTrack = 0 ∧ b dos33CatNextSector = 0 then none
  else some (b dos33CatNextTrack, b dos33CatNextSector)

/-- The catalog sector that an inode number names. -/
def catStart (number : Nat) : CatSector :=
  (UInt8.ofNat (inodeTrack number), UInt8.ofNat (inodeSector number))

/-- The `k`-th sector of the catalog. -/
def catAt (d : Disk) (number k : Nat) : Option CatSector :=
  chainAt (catNext d) (some (catStart number)) k

/-- The links of the catalog lead to 0/0. -/
def CatalogEnds (d : Disk) (number : Nat) : Prop := ∃ k, catAt d number k = none

/-- Catalog sectors are told apart by a number below `chainRounds`. -/
def catIndex (c : CatSector) : Nat := c.1.toNat * 256 + c.2.toNat

theorem catIndex_injective : Function.Injective catIndex := by
  rintro ⟨t, s⟩ ⟨t', s'⟩ h
  have hs := s.toNat_lt
  have hs' := s'.toNat_lt
  simp only [catIndex] at h
  have ht : t.toNat = t'.toNat := by omega
  have hs : s.toNat = s'.toNat := by omega
  rw [UInt8.toNat_inj.1 ht, UInt8.toNat_inj.1 hs]

theorem catIndex_lt (c : CatSector) : catIndex c < chainRounds := by
  have ht := c.1.toNat_lt
  have hs := c.2.toNat_lt
  unfold catIndex chainRounds
  omega

theorem catStart_track (number : Nat) : (catStart number).1.toNat = inodeTrack number := by
  rw [catStart, UInt8.toNat_ofNat']
  exact Nat.mod_eq_of_lt (inodeTrack_lt number)

theorem catStart_sector (number : Nat) : (catStart number).2.toNat = inodeSector number := by
  rw [catStart, UInt8.toNat_ofNat']
  exact Nat.mod_eq_of_lt (inodeSector_lt number)

/-- The link as the loops test it. -/
theorem catNext_eq (d : Disk) (c : CatSector) :
    catNext d c =
      if (c.block d dos33CatNextTrack).toNat = 0 ∧ (c.block d dos33CatNextSector).toNat = 0 then none
      else some (c.block d dos33CatNextTrack, c.block d dos33CatNextSector) := by
  have hzero (b : UInt8) : b.toNat = 0 ↔ b = 0 := UInt8.toNat_inj (b := 0)
  simp only [hzero]
  rfl

/-- What a walk gives to its caller. -/
def ended {β : Type} : Option β → Except Stuck β
  | none => .error .endless
  | some r => .ok r

/-- The search of a name in one sector. -/
def nameIn (d : Disk) (name : CString) (c : CatSector) : Option Nat :=
  (findInSector (c.block d) name dos33CatMaxEntries 0).map (inodeNumber c.1.toNat c.2.toNat)

/-- The search of a place for a new file in one sector. -/
def roomIn (d : Disk) (c : CatSector) : Option (Nat × Nat × Nat) :=
  (findFreeEntry (c.block d) dos33CatMaxEntries 0).map fun i => (c.1.toNat, c.2.toNat, i)

theorem findFilenameLoop_eq_walk (d : Disk) (name : CString) (n : Nat) (c : CatSector) :
    findFilenameLoop d name n c.1.toNat c.2.toNat =
      ended (walk (nameIn d name) (catNext d) n c) := by
  induction n generalizing c with
  | zero => rfl
  | succ n ih =>
      rw [findFilenameLoop, walk, nameIn, catNext_eq]
      have hblock : readBlock d (ts c.1.toNat c.2.toNat) = c.block d := rfl
      dsimp only
      rw [hblock]
      cases findInSector (c.block d) name dos33CatMaxEntries 0 with
      | some i => rfl
      | none =>
          dsimp only [Option.map_none]
          by_cases hend : (c.block d dos33CatNextTrack).toNat = 0 ∧
              (c.block d dos33CatNextSector).toNat = 0
          · rw [if_pos hend, if_pos hend]
            rfl
          · rw [if_neg hend, if_neg hend]
            exact ih (c.block d dos33CatNextTrack, c.block d dos33CatNextSector)

theorem makeInodeLoop_eq_walk (d : Disk) (n : Nat) (c : CatSector) :
    makeInodeLoop d n c.1.toNat c.2.toNat = ended (walk (roomIn d) (catNext d) n c) := by
  induction n generalizing c with
  | zero => rfl
  | succ n ih =>
      rw [makeInodeLoop, walk, roomIn, catNext_eq]
      have hblock : readBlock d (ts c.1.toNat c.2.toNat) = c.block d := rfl
      dsimp only
      rw [hblock]
      cases findFreeEntry (c.block d) dos33CatMaxEntries 0 with
      | some i => rfl
      | none =>
          dsimp only [Option.map_none]
          by_cases hend : (c.block d dos33CatNextTrack).toNat = 0 ∧
              (c.block d dos33CatNextSector).toNat = 0
          · rw [if_pos hend, if_pos hend]
            rfl
          · rw [if_neg hend, if_neg hend]
            exact ih (c.block d dos33CatNextTrack, c.block d dos33CatNextSector)

theorem ended_eq_error {β : Type} {r : Option β} : ended r = .error .endless ↔ r = none := by
  cases r with
  | none => simp [ended]
  | some r => simp [ended]

/-! ## Names -/

/-- An entry of a sector with a live file: its inode number and its name. -/
def liveEntry (d : Disk) (c : CatSector) (i : Nat) : Option (Nat × CString) :=
  if entryHidden (c.block d (catOffset i dos33CatOffsetFirstT)) then none
  else some (inodeNumber c.1.toNat c.2.toNat i, decodeFilename (c.block d) i)

/-- The live entries of a sector. -/
def liveIn (d : Disk) (c : CatSector) : List (Nat × CString) :=
  (List.range' 0 dos33CatMaxEntries).filterMap (liveEntry d c)

/-- The live entries in catalog order. -/
def liveEntries (d : Disk) (number : Nat) : List (Nat × CString) :=
  (cells (catNext d) (some (catStart number)) chainRounds).flatMap (liveIn d)

theorem zero_not_mem_decodeFilename (b : Block) (entry : Nat) : 0 ∉ decodeFilename b entry := by
  intro h
  have := List.mem_takeWhile_imp h
  simp at this

/-- A sector is searched for the first name that begins with the one wanted. -/
theorem findInSector_eq_find (d : Disk) (c : CatSector) {name : CString} (hnul : 0 ∉ name)
    (n i : Nat) :
    (findInSector (c.block d) name n i).map (inodeNumber c.1.toNat c.2.toNat) =
      (((List.range' i n).filterMap (liveEntry d c)).find? fun e => name <+: e.2).map Prod.fst := by
  induction n generalizing i with
  | zero => rfl
  | succ n ih =>
      rw [findInSector, List.range'_succ, List.filterMap_cons, liveEntry]
      by_cases hhidden : entryHidden (c.block d (catOffset i dos33CatOffsetFirstT)) = true
      · rw [if_pos hhidden, if_pos hhidden]
        exact ih (i + 1)
      · have hcompare := strncmp_length_eq_zero_iff hnul
          (zero_not_mem_decodeFilename (c.block d) i)
        rw [if_neg hhidden, if_neg hhidden]
        dsimp only
        rw [List.find?_cons]
        by_cases hname : name <+: decodeFilename (c.block d) i
        · rw [if_pos (hcompare.2 hname)]
          simp [hname]
        · rw [if_neg (mt hcompare.1 hname), ih (i + 1)]
          simp [hname]

theorem nameIn_eq (d : Disk) {name : CString} (hnul : 0 ∉ name) (c : CatSector) :
    nameIn d name c = ((liveIn d c).find? fun e => name <+: e.2).map Prod.fst :=
  findInSector_eq_find d c hnul dos33CatMaxEntries 0

/-- The names that stand for the directory itself. -/
def IsDots (name : CString) : Prop := name <+: [0x2e, 0x2e]

instance (name : CString) : Decidable (IsDots name) :=
  inferInstanceAs (Decidable (name <+: [0x2e, 0x2e]))

/-- Any other name is looked for along the catalog. -/
theorem dos33fsFindFilename_eq_walk (d : Disk) (number : Nat) {name : CString} (hnul : 0 ∉ name)
    (hdots : ¬ IsDots name) :
    dos33fsFindFilename d number name =
      ended (walk (nameIn d name) (catNext d) chainRounds (catStart number)) := by
  have hdot : ¬ strncmp name [0x2e] name.length = 0 := by
    rw [strncmp_length_eq_zero_iff hnul (by decide)]
    exact fun h => hdots (h.trans (List.prefix_append [0x2e] [0x2e]))
  have hdotdot : ¬ strncmp name [0x2e, 0x2e] name.length = 0 := by
    rw [strncmp_length_eq_zero_iff hnul (by decide)]
    exact hdots
  rw [dos33fsFindFilename, if_neg hdot, if_neg hdotdot, ← catStart_track, ← catStart_sector,
    findFilenameLoop_eq_walk]

theorem catAt_end {d : Disk} {number : Nat} (h : CatalogEnds d number) :
    chainAt (catNext d) (some (catStart number)) chainRounds = none :=
  chainAt_eq_none_of_ends catIndex_injective catIndex_lt h

/-- On a catalog that ends the first live entry is found whose name begins with the one wanted. -/
theorem dos33fsFindFilename_eq_find {d : Disk} {number : Nat} (h : CatalogEnds d number)
    {name : CString} (hnul : 0 ∉ name) (hdots : ¬ IsDots name) :
    dos33fsFindFilename d number name =
      .ok (((liveEntries d number).find? fun e => name <+: e.2).map Prod.fst) := by
  rw [dos33fsFindFilename_eq_walk d number hnul hdots, walk_eq_findSome (catAt_end h), ended,
    liveEntries, List.find?_flatMap, List.map_findSome?]
  congr 2
  funext c
  exact nameIn_eq d hnul c

/-- No live entry with a longer name that begins with the one wanted stands before the first live
entry with exactly this name; there is none at all when no live entry has exactly this name. -/
def NoLongerNameFirst (entries : List (Nat × CString)) (name : CString) : Prop :=
  ∀ before e after, entries = before ++ e :: after → name <+: e.2 → e.2 ≠ name →
    ∃ e' ∈ before, e'.2 = name

/-- The search by beginning and the search by name stop at the same entry of a list exactly when
no longer name comes first. -/
theorem find_eq_find_iff (entries : List (Nat × CString)) (name : CString) :
    (entries.find? fun e => name <+: e.2) = (entries.find? fun e => e.2 = name) ↔
      NoLongerNameFirst entries name := by
  induction entries with
  | nil =>
      refine ⟨fun _ before e after h => ?_, fun _ => rfl⟩
      cases before with
      | nil => cases h
      | cons _ _ => cases h
  | cons a entries ih =>
      rw [List.find?_cons, List.find?_cons]
      by_cases hname : a.2 = name
      · -- found at once by both
        have hpre : name <+: a.2 := by rw [hname]
        rw [decide_eq_true hpre, decide_eq_true hname]
        refine ⟨fun _ => ?_, fun _ => rfl⟩
        intro before e after h _ hne
        cases before with
        | nil =>
            rw [List.nil_append] at h
            obtain ⟨rfl, -⟩ := List.cons.inj h
            exact absurd hname hne
        | cons b before =>
            obtain ⟨rfl, -⟩ := List.cons.inj h
            exact ⟨_, List.mem_cons_self, hname⟩
      · by_cases hpre : name <+: a.2
        · rw [decide_eq_true hpre, decide_eq_false hname]
          constructor
          · intro h
            have hfound := List.find?_some h.symm
            exact absurd (of_decide_eq_true hfound) hname
          · intro h
            obtain ⟨e, he, -⟩ := h [] a entries rfl hpre hname
            exact absurd he List.not_mem_nil
        · rw [decide_eq_false hpre, decide_eq_false hname]
          refine ih.trans ?_
          constructor
          · intro h before e after hsplit hpre' hne
            cases before with
            | nil =>
                rw [List.nil_append] at hsplit
                obtain ⟨rfl, -⟩ := List.cons.inj hsplit
                exact absurd hpre' hpre
            | cons b before =>
                obtain ⟨-, hrest⟩ := List.cons.inj hsplit
                obtain ⟨e', he', hname'⟩ := h before e after hrest hpre' hne
                exact ⟨e', List.mem_cons_of_mem b he', hname'⟩
          · intro h before e after hsplit hpre' hne
            obtain ⟨e', he', hname'⟩ := h (a :: before) e after (by rw [hsplit]; rfl) hpre' hne
            rcases List.mem_cons.1 he' with rfl | he'
            · exact absurd hname' hname
            · exact ⟨e', he', hname'⟩

theorem mem_liveIn {d : Disk} {c : CatSector} {e : Nat × CString} :
    e ∈ liveIn d c ↔ ∃ i < dos33CatMaxEntries,
      entryHidden (c.block d (catOffset i dos33CatOffsetFirstT)) = false ∧
        e = (inodeNumber c.1.toNat c.2.toNat i, decodeFilename (c.block d) i) := by
  simp only [liveIn, liveEntry, List.mem_filterMap, List.mem_range'_1, Nat.zero_le, true_and,
    Nat.zero_add]
  constructor
  · rintro ⟨i, hi, h⟩
    split at h
    · cases h
    · rename_i hlive
      exact ⟨i, hi, by simpa using hlive, (Option.some.inj h).symm⟩
  · rintro ⟨i, hi, hlive, rfl⟩
    exact ⟨i, hi, by rw [hlive]; rfl⟩

/-- The inode number tells the sector and the entry. -/
theorem inodeNumber_inj {c c' : CatSector} {i i' : Nat} (hi : i < 7) (hi' : i' < 7)
    (h : inodeNumber c.1.toNat c.2.toNat i = inodeNumber c'.1.toNat c'.2.toNat i') :
    c = c' ∧ i = i' := by
  have hs := c.2.toNat_lt
  have hs' := c'.2.toNat_lt
  rw [inodeNumber_eq hs (by omega), inodeNumber_eq hs' (by omega)] at h
  have ht : c.1.toNat = c'.1.toNat := by omega
  have hsector : c.2.toNat = c'.2.toNat := by omega
  exact ⟨Prod.ext (UInt8.toNat_inj.1 ht) (UInt8.toNat_inj.1 hsector), by omega⟩

/-- Two live entries with one inode number are the same. -/
theorem liveEntries_inj {d : Disk} {number : Nat} {e e' : Nat × CString}
    (he : e ∈ liveEntries d number) (he' : e' ∈ liveEntries d number) (h : e.1 = e'.1) : e = e' := by
  obtain ⟨c, -, hc⟩ := List.mem_flatMap.1 he
  obtain ⟨c', -, hc'⟩ := List.mem_flatMap.1 he'
  obtain ⟨i, hi, -, rfl⟩ := mem_liveIn.1 hc
  obtain ⟨i', hi', -, rfl⟩ := mem_liveIn.1 hc'
  obtain ⟨rfl, rfl⟩ := inodeNumber_inj hi hi' h
  rfl

/-- The same for the numbers that are found. -/
theorem map_find_eq_iff {entries : List (Nat × CString)}
    (hinj : ∀ e ∈ entries, ∀ e' ∈ entries, e.1 = e'.1 → e = e') (name : CString) :
    (entries.find? fun e => name <+: e.2).map Prod.fst =
        (entries.find? fun e => e.2 = name).map Prod.fst ↔
      NoLongerNameFirst entries name := by
  refine Iff.trans ⟨fun hmap => ?_, fun heq => by rw [heq]⟩ (find_eq_find_iff entries name)
  cases hbegin : entries.find? fun e => name <+: e.2 with
  | none =>
      rw [hbegin] at hmap
      exact (Option.map_eq_none_iff.1 hmap.symm).symm
  | some e =>
      rw [hbegin] at hmap
      obtain ⟨e', hname, hfst⟩ := Option.map_eq_some_iff.1 hmap.symm
      rw [hname, hinj e (List.mem_of_find?_eq_some hbegin) e' (List.mem_of_find?_eq_some hname)
        hfst.symm]

/-- A lookup finds the first live entry with exactly the name wanted, or fails when there is none,
if and only if no longer name that begins with it comes first. -/
theorem dos33fsFindFilename_exact_iff {d : Disk} {number : Nat} (h : CatalogEnds d number)
    {name : CString} (hnul : 0 ∉ name) (hdots : ¬ IsDots name) :
    dos33fsFindFilename d number name =
        .ok (((liveEntries d number).find? fun e => e.2 = name).map Prod.fst) ↔
      NoLongerNameFirst (liveEntries d number) name := by
  have hiff := @map_find_eq_iff (liveEntries d number)
    (fun e he e' he' heq => liveEntries_inj he he' heq) name
  have hfind := dos33fsFindFilename_eq_find h hnul hdots
  exact ⟨fun heq => hiff.1 (Except.ok.inj (hfind.symm.trans heq)),
    fun hcond => hfind.trans (congrArg Except.ok (hiff.2 hcond))⟩

/-- A disk whose catalog is one sector with one entry. -/
def oneNameDisk (name : CString) : Disk := fun n i =>
  if n = 287 then
    if i = catOffset 0 dos33CatOffsetFirstT then 18
    else if catOffset 0 dos33CatOffsetFileName ≤ i ∧
        i < catOffset 0 dos33CatOffsetFileName + dos33MaxFilenameSize then
      name.getD (i - catOffset 0 dos33CatOffsetFileName) 0x20 ||| 0x80
    else 0
  else 0

theorem oneNameDisk_end (name : CString) : catAt (oneNameDisk name) 0x110f00 1 = none := by
  have hstart : catStart 0x110f00 = (17, 15) := by decide
  rw [catAt, chainAt_succ, chainAt_zero, Option.bind_some, hstart]
  have hblock (i : Nat) : CatSector.block (oneNameDisk name) (17, 15) i =
      oneNameDisk name 287 i := rfl
  have hlink (i : Nat) (hi : i < 11) : oneNameDisk name 287 i = 0 := by
    rw [oneNameDisk, if_pos rfl, catOffset_eq, catOffset_eq, if_neg (by omega), if_neg (by omega)]
  have h1 : oneNameDisk name 287 dos33CatNextTrack = 0 := hlink 1 (by decide)
  have h2 : oneNameDisk name 287 dos33CatNextSector = 0 := hlink 2 (by decide)
  unfold catNext
  dsimp only
  rw [hblock, hblock, h1, h2, if_pos ⟨rfl, rfl⟩]

theorem liveEntries_oneNameDisk (name : CString) :
    liveEntries (oneNameDisk name) 0x110f00 = liveIn (oneNameDisk name) (17, 15) := by
  have hcells : cells (catNext (oneNameDisk name)) (some (catStart 0x110f00)) chainRounds =
      [(17, 15)] :=
    cells_eq_of_ends (oneNameDisk_end name) (by unfold chainRounds; omega)
  rw [liveEntries, hcells, List.flatMap_singleton]

/-- With the one file `AB` on the disk, `AB` is found exactly. -/
theorem dos33fsFindFilename_exact_oneName :
    dos33fsFindFilename (oneNameDisk [0x41, 0x42]) 0x110f00 [0x41, 0x42] =
      .ok (((liveEntries (oneNameDisk [0x41, 0x42]) 0x110f00).find?
        fun e => e.2 = [0x41, 0x42]).map Prod.fst) := by
  refine (dos33fsFindFilename_exact_iff ⟨1, oneNameDisk_end _⟩ (by decide) (by decide)).2 ?_
  rw [liveEntries_oneNameDisk]
  intro before e after h _ hne
  have hmem : e ∈ liveIn (oneNameDisk [0x41, 0x42]) (17, 15) := by
    rw [h]
    exact List.mem_append_right before List.mem_cons_self
  have hname : ∀ e ∈ liveIn (oneNameDisk [0x41, 0x42]) (17, 15), e.2 = [0x41, 0x42] := by decide
  exact absurd (hname e hmem) hne

/-- And `A`, which is no file, is found too. -/
theorem not_dos33fsFindFilename_exact :
    CatalogEnds (oneNameDisk [0x41, 0x42]) 0x110f00 ∧
      dos33fsFindFilename (oneNameDisk [0x41, 0x42]) 0x110f00 [0x41] = .ok (some 0x110f00) ∧
      ((liveEntries (oneNameDisk [0x41, 0x42]) 0x110f00).find? fun e => e.2 = [0x41]) = none := by
  have hends : CatalogEnds (oneNameDisk [0x41, 0x42]) 0x110f00 := ⟨1, oneNameDisk_end _⟩
  refine ⟨hends, ?_, ?_⟩
  · rw [dos33fsFindFilename_eq_find hends (by decide) (by decide), liveEntries_oneNameDisk]
    decide
  · rw [liveEntries_oneNameDisk]
    decide

/-! ## Walks that end -/

theorem findInSector_eq_none_iff (d : Disk) (c : CatSector) {name : CString} (hnul : 0 ∉ name) :
    nameIn d name c = none ↔ ∀ e ∈ liveIn d c, ¬ name <+: e.2 := by
  rw [nameIn_eq d hnul, Option.map_eq_none_iff, List.find?_eq_none]
  simp only [decide_eq_true_eq]

/-- A lookup does not come back exactly when the catalog never ends and no live entry on it has a
name that begins with the one wanted. -/
theorem dos33fsFindFilename_endless_iff (d : Disk) (number : Nat) {name : CString} (hnul : 0 ∉ name) :
    dos33fsFindFilename d number name = .error .endless ↔
      ¬ IsDots name ∧ ¬ CatalogEnds d number ∧
        ∀ k c, catAt d number k = some c → ∀ e ∈ liveIn d c, ¬ name <+: e.2 := by
  by_cases hdots : IsDots name
  · refine ⟨fun h => ?_, fun h => absurd hdots h.1⟩
    have hdotdot : strncmp name [0x2e, 0x2e] name.length = 0 :=
      (strncmp_length_eq_zero_iff hnul (by decide)).2 hdots
    rw [dos33fsFindFilename, if_pos hdotdot] at h
    split at h <;> cases h
  · rw [dos33fsFindFilename_eq_walk d number hnul hdots, ended_eq_error,
      walk_eq_none_iff catIndex_injective catIndex_lt]
    simp only [findInSector_eq_none_iff d _ hnul, hdots, not_false_eq_true, true_and, CatalogEnds,
      not_exists]
    rfl

theorem roomIn_eq_none_iff (d : Disk) (c : CatSector) :
    roomIn d c = none ↔ ∀ i < dos33CatMaxEntries, EntryUsed (c.block d) i := by
  rw [roomIn, Option.map_eq_none_iff]
  constructor
  · intro h i hi
    exact findFreeEntry_eq_none h (Nat.zero_le i) (by rwa [Nat.zero_add])
  · intro h
    cases hfound : findFreeEntry (c.block d) dos33CatMaxEntries 0 with
    | none => rfl
    | some i =>
        obtain ⟨hi, hunused⟩ := findFreeEntry_eq_some hfound
        exact absurd (h i (by rwa [Nat.zero_add] at hi)) hunused

/-- The search for a place for a new file does not come back exactly when the catalog never ends
and has no unused entry. -/
theorem dos33fsMakeInode_endless_iff (v : Dos33Volume) (dirInode inode : Inode) :
    dos33fsMakeInode v dirInode inode = .error .endless ↔
      ¬ CatalogEnds v.disk dirInode.number ∧
        ∀ k c, catAt v.disk dirInode.number k = some c →
          ∀ i < dos33CatMaxEntries, EntryUsed (c.block v.disk) i := by
  have hloop : makeInodeLoop v.disk chainRounds (inodeTrack dirInode.number)
      (inodeSector dirInode.number) =
        ended (walk (roomIn v.disk) (catNext v.disk) chainRounds (catStart dirInode.number)) := by
    rw [← catStart_track, ← catStart_sector, makeInodeLoop_eq_walk]
  have hiff : dos33fsMakeInode v dirInode inode = .error .endless ↔
      walk (roomIn v.disk) (catNext v.disk) chainRounds (catStart dirInode.number) = none := by
    rw [dos33fsMakeInode, hloop]
    cases walk (roomIn v.disk) (catNext v.disk) chainRounds (catStart dirInode.number) with
    | none => exact ⟨fun _ => rfl, fun _ => rfl⟩
    | some found =>
        refine ⟨fun h => ?_, fun h => by cases h⟩
        cases found with
        | none => cases h
        | some place =>
            -- the allocator may search for ever, which is another matter
            dsimp only [ended] at h
            rcases dos33AllocateSector_cases v with ha | ⟨t, s, v1, ha⟩
            · rw [ha] at h
              cases h
            · rw [ha] at h
              dsimp only at h
              split at h
              · rename_i err herr
                rcases dos33AllocateSector_cases _ with ha' | ⟨t', s', v2, ha'⟩
                · rw [ha'] at herr
                  cases herr
                  cases h
                · rw [ha'] at herr
                  cases herr
              · cases h
  rw [hiff, walk_eq_none_iff catIndex_injective catIndex_lt]
  simp only [roomIn_eq_none_iff, CatalogEnds, not_exists]
  rfl

/-! ## Reading a directory -/

theorem direntLength_pos (n : Nat) : 0 < direntLength n := by
  unfold direntLength
  dsimp only
  split <;> omega

/-- What an entry does to the buffer: nothing when it is hidden; else its record is added, or it
does not fit and the loop ends. -/
theorem getdentsEntry_cases (b : Block) (number size offset : Nat) (st : DentState) :
    let r := getdentsEntry b number size offset st
    (entryHidden (b offset) = true ∧ r.2 = true ∧ r.1.totalLength = st.totalLength) ∨
      (entryHidden (b offset) = false ∧ r.2 = false ∧
        size < r.1.currentLength + r.1.totalLength ∧ r.1.totalLength = st.totalLength) ∨
      (entryHidden (b offset) = false ∧ r.2 = true ∧ st.totalLength < r.1.totalLength) := by
  dsimp only
  unfold getdentsEntry
  dsimp only
  by_cases hhidden : entryHidden (b offset) = true
  · rw [if_pos hhidden]
    exact Or.inl ⟨hhidden, rfl, rfl⟩
  · rw [if_neg hhidden]
    have hlive : entryHidden (b offset) = false := Bool.eq_false_iff.2 hhidden
    have hpos := direntLength_pos (filenameBytes b offset).length
    generalize filenameBytes b offset = name at hpos ⊢
    by_cases hfull : direntLength name.length + st.totalLength > size
    · rw [if_pos hfull]
      exact Or.inr (Or.inl ⟨hlive, rfl, hfull, rfl⟩)
    · rw [if_neg hfull]
      refine Or.inr (Or.inr ⟨hlive, rfl, ?_⟩)
      show st.totalLength < st.totalLength + direntLength name.length
      omega

theorem getdentsSector_total (b : Block) (t s size n i offset : Nat) (st : DentState) :
    st.totalLength ≤ (getdentsSector b t s size n i offset st).totalLength := by
  induction n generalizing i offset st with
  | zero => exact Nat.le_refl _
  | succ n ih =>
      rw [getdentsSector]
      rcases getdentsEntry_cases b (inodeNumber t s i) size offset st with
        ⟨-, hgo, htotal⟩ | ⟨-, hgo, -, htotal⟩ | ⟨-, hgo, htotal⟩
      · simp only [hgo, if_true]
        exact htotal ▸ ih _ _ _
      · simp only [hgo, Bool.false_eq_true, if_false]
        exact Nat.le_of_eq htotal.symm
      · simp only [hgo, if_true]
        exact Nat.le_trans (Nat.le_of_lt htotal) (ih _ _ _)

/-- A sector with a live entry adds to the buffer or ends the call. -/
theorem getdentsSector_live (b : Block) (t s size n i offset : Nat) (st : DentState)
    (h : ∃ j < n, entryHidden (b (offset + j * dos33CatEntrySize)) = false) :
    let r := getdentsSector b t s size n i offset st
    st.totalLength < r.totalLength ∨ size < r.currentLength + r.totalLength := by
  dsimp only
  induction n generalizing i offset st with
  | zero =>
      obtain ⟨j, hj, -⟩ := h
      exact absurd hj (Nat.not_lt_zero j)
  | succ n ih =>
      rw [getdentsSector]
      rcases getdentsEntry_cases b (inodeNumber t s i) size offset st with
        ⟨hhidden, hgo, htotal⟩ | ⟨-, hgo, hfull, -⟩ | ⟨-, hgo, htotal⟩
      · -- the live entry comes later
        obtain ⟨j, hj, hlive⟩ := h
        simp only [hgo, if_true]
        rw [← htotal]
        cases j with
        | zero =>
            rw [Nat.zero_mul, Nat.add_zero, hhidden] at hlive
            cases hlive
        | succ j =>
            refine ih _ _ _ ⟨j, Nat.lt_of_succ_lt_succ hj, ?_⟩
            rwa [Nat.succ_mul, Nat.add_comm (j * dos33CatEntrySize), ← Nat.add_assoc] at hlive
      · simp only [hgo, Bool.false_eq_true, if_false]
        exact Or.inr hfull
      · simp only [hgo, if_true]
        exact Or.inl (Nat.lt_of_lt_of_le htotal (getdentsSector_total _ _ _ _ _ _ _ _))

/-- One round of the loop over the sectors. -/
theorem getdentsLoop_succ (d : Disk) (size n : Nat) (c : CatSector) (nextI : Nat)
    (st : DentState) :
    getdentsLoop d size (n + 1) c.1.toNat c.2.toNat nextI st =
      let r := getdentsSector (c.block d) c.1.toNat c.2.toNat size (dos33CatMaxEntries - nextI)
        nextI dos33CatFirstEntry st
      if size < r.currentLength + r.totalLength then .ok r
      else
        match catNext d c with
        | none => .ok { r with inode := 0xffffffff }
        | some c' => getdentsLoop d size n c'.1.toNat c'.2.toNat 0 r := by
  rw [getdentsLoop, catNext_eq]
  unfold CatSector.block
  dsimp only
  generalize readBlock d (ts c.1.toNat c.2.toNat) = b
  split
  · rfl
  · by_cases hend : (b dos33CatNextTrack).toNat = 0 ∧ (b dos33CatNextSector).toNat = 0
    · rw [if_pos hend, if_pos hend]
    · rw [if_neg hend, if_neg hend]

/-- A loop that does not come back goes on with the next sector. -/
theorem getdentsLoop_next {d : Disk} {size n : Nat} {c : CatSector} {nextI : Nat} {st : DentState}
    (h : getdentsLoop d size (n + 1) c.1.toNat c.2.toNat nextI st = .error .endless) :
    let r := getdentsSector (c.block d) c.1.toNat c.2.toNat size (dos33CatMaxEntries - nextI)
      nextI dos33CatFirstEntry st
    ¬ size < r.currentLength + r.totalLength ∧ ∃ c', catNext d c = some c' ∧
      getdentsLoop d size n c'.1.toNat c'.2.toNat 0 r = .error .endless := by
  rw [getdentsLoop_succ] at h
  dsimp only at h ⊢
  split at h
  · cases h
  · rename_i hroom
    refine ⟨hroom, ?_⟩
    cases hnext : catNext d c with
    | none =>
        rw [hnext] at h
        cases h
    | some c' =>
        rw [hnext] at h
        exact ⟨c', rfl, h⟩

/-- The loop goes along the catalog. -/
theorem getdentsLoop_chain {d : Disk} {size n : Nat} {c : CatSector} {nextI : Nat} {st : DentState}
    (h : getdentsLoop d size n c.1.toNat c.2.toNat nextI st = .error .endless) :
    chainAt (catNext d) (some c) n ≠ none := by
  induction n generalizing c nextI st with
  | zero => exact Option.some_ne_none c
  | succ n ih =>
      obtain ⟨-, c', hnext, hrest⟩ := getdentsLoop_next h
      rw [chainAt_succ', Option.bind_some, hnext]
      exact ih hrest

/-- Live entries come up again and again. -/
def Recurs (d : Disk) (c : CatSector) : Prop :=
  ∀ k c', chainAt (catNext d) (some c) k = some c' →
    ∃ j c'', chainAt (catNext d) (some c') j = some c'' ∧ liveIn d c'' ≠ []

theorem Recurs.next {d : Disk} {c c' : CatSector} (h : Recurs d c) (hnext : catNext d c = some c') :
    Recurs d c' := by
  intro k c'' hk
  refine h (k + 1) c'' ?_
  rw [chainAt_succ', Option.bind_some, hnext]
  exact hk

theorem getdentsSector_liveIn {d : Disk} {c : CatSector} (size : Nat) (st : DentState)
    (h : liveIn d c ≠ []) :
    let r := getdentsSector (c.block d) c.1.toNat c.2.toNat size (dos33CatMaxEntries - 0) 0
      dos33CatFirstEntry st
    st.totalLength < r.totalLength ∨ size < r.currentLength + r.totalLength := by
  obtain ⟨e, he⟩ := List.exists_mem_of_ne_nil _ h
  obtain ⟨i, hi, hlive, -⟩ := mem_liveIn.1 he
  exact getdentsSector_live _ _ _ _ _ _ _ _ ⟨i, hi, hlive⟩

/-- A catalog on which live entries come up again and again fills the buffer. -/
theorem getdentsLoop_recurs {d : Disk} {size m n : Nat} {c : CatSector} {st : DentState}
    (hrec : Recurs d c) (hm : size < st.totalLength + m) (hn : chainRounds * m < n) :
    getdentsLoop d size n c.1.toNat c.2.toNat 0 st ≠ .error .endless := by
  induction m generalizing n c st with
  | zero =>
      intro h
      obtain ⟨n, rfl⟩ := Nat.exists_eq_succ_of_ne_zero (Nat.ne_of_gt (Nat.zero_lt_of_lt hn))
      obtain ⟨hroom, -⟩ := getdentsLoop_next h
      have htotal := getdentsSector_total (c.block d) c.1.toNat c.2.toNat size
        (dos33CatMaxEntries - 0) 0 dos33CatFirstEntry st
      omega
  | succ m ihm =>
      -- the next sector with a live entry is less than `chainRounds` sectors away
      obtain ⟨k, hk, c'', hc'', hlive⟩ :=
        exists_cell_of_recurs catIndex_injective catIndex_lt (hrec 0 c rfl)
      replace hn : chainRounds * m + k + 1 < n := by
        rw [Nat.mul_succ] at hn
        omega
      clear hk
      induction k generalizing n c st with
      | zero =>
          intro h
          obtain rfl := Option.some.inj hc''
          obtain ⟨n, rfl⟩ := Nat.exists_eq_succ_of_ne_zero (Nat.ne_of_gt (Nat.zero_lt_of_lt hn))
          obtain ⟨hroom, c', hnext, hrest⟩ := getdentsLoop_next h
          have hgrows := (getdentsSector_liveIn size st hlive).resolve_right hroom
          exact ihm (hrec.next hnext) (by omega) (by omega) hrest
      | succ k ihk =>
          intro h
          obtain ⟨n, rfl⟩ := Nat.exists_eq_succ_of_ne_zero (Nat.ne_of_gt (Nat.zero_lt_of_lt hn))
          obtain ⟨-, c', hnext, hrest⟩ := getdentsLoop_next h
          have htotal := getdentsSector_total (c.block d) c.1.toNat c.2.toNat size
            (dos33CatMaxEntries - 0) 0 dos33CatFirstEntry st
          rw [chainAt_succ', Option.bind_some, hnext] at hc''
          exact ihk (hrec.next hnext) (by omega) hc'' (by omega) hrest

/-- The number whose sector a directory is read from. -/
def dentsStart (dirNumber progress : Nat) : Nat := if progress = 0 then dirNumber else progress

/-- Reading a directory comes back when the catalog that it goes along ends, and when live entries
come up again and again, so that the buffer fills. -/
theorem dos33fsGetdents_ends {d : Disk} {dirNumber progress : Nat} (size : Nat)
    (h : CatalogEnds d (dentsStart dirNumber progress) ∨
      ∀ n, ∃ k ≥ n, ∃ c, catAt d (dentsStart dirNumber progress) k = some c ∧ liveIn d c ≠ []) :
    dos33fsGetdents d dirNumber progress size ≠ .error .endless := by
  have hloop : ∀ nextI st, getdentsLoop d size (getdentsRounds size)
      (inodeTrack (dentsStart dirNumber progress)) (inodeSector (dentsStart dirNumber progress))
      nextI st ≠ .error .endless := by
    generalize dentsStart dirNumber progress = start at h
    intro nextI st herr
    rw [← catStart_track, ← catStart_sector] at herr
    rcases h with hends | hagain
    · have hle : chainRounds ≤ getdentsRounds size :=
        Nat.le_mul_of_pos_right chainRounds (Nat.succ_pos _)
      exact getdentsLoop_chain herr (chainAt_eq_none_of_le (catAt_end hends) hle)
    · have hrec : Recurs d (catStart start) := by
        intro k c' hk
        obtain ⟨k', hk', c'', hc'', hlive⟩ := hagain k
        obtain ⟨j, rfl⟩ := Nat.exists_eq_add_of_le hk'
        rw [catAt, chainAt_add, hk] at hc''
        exact ⟨j, c'', hc'', hlive⟩
      have hrounds : getdentsRounds size = chainRounds * (size + 1) + (chainRounds - 1) + 1 := by
        unfold getdentsRounds chainRounds
        omega
      rw [hrounds] at herr
      obtain ⟨-, c', hnext, hrest⟩ := getdentsLoop_next herr
      refine getdentsLoop_recurs (m := size + 1) (hrec.next hnext) ?_ ?_ hrest
      · omega
      · unfold chainRounds
        omega
  intro herr
  rw [dos33fsGetdents] at herr
  dsimp only at herr
  split at herr
  · cases herr
  · split at herr
    · cases herr
    · split at herr
      · cases herr
      · split at herr
        · rename_i err hfail
          cases herr
          exact hloop _ _ hfail
        · cases herr

/-- A catalog of one sector that links to itself and whose entries are all of unlinked files. -/
def loopDisk : Disk := fun n i =>
  if n = 287 then if i = 1 then 17 else if i = 2 then 15 else 0xfe else 0

theorem catAt_loopDisk (k : Nat) : catAt loopDisk 0x110f00 k = some (17, 15) := by
  induction k with
  | zero => decide
  | succ k ih =>
      rw [catAt, chainAt_succ, ← catAt, ih, Option.bind_some]
      decide

end Vmwos
