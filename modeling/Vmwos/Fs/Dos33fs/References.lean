import Vmwos.Fs.Dos33fs.Allocator
import Vmwos.Library.Chain
import Vmwos.Library.Account

/-!
# Which sectors a volume refers to

A sector is referred to as a sector of the catalog chain, as a T/S list of a
file, or as a data sector in such a list. A file is a used catalog entry: neither
never used (first byte 0) nor deleted (`0xff`); an unlinked entry (`0xfe`) still
is a file. On a well-formed volume the references are an account in order: no
sector is referred to twice and none referred to is free.

Changing one file leaves the references of all others alone: `TouchesOnly` says
which bytes a change may alter, and `TouchesOnly.refers_iff` that the references
of everything else stay. `WellFormed.keep` and `WellFormed.extend` are the two
ways a volume stays well formed.
-/

set_option autoImplicit false

namespace Vmwos

open Library

/-! ## Pointers and chains on disk -/

/-- A pointer of a track and a sector byte; 0/0 points nowhere. -/
def sectorPtr (t s : UInt8) : Option Nat :=
  if t = 0 ∧ s = 0 then none else some (16 * t.toNat + s.toNat)

/-- The link of a catalog sector or T/S list to the next one. -/
def nextSector (d : Disk) (n : Nat) : Option Nat := sectorPtr (d n 1) (d n 2)

/-- Entry `i` of a T/S list. -/
def tsEntry (b : Block) (i : Nat) : Option Nat := sectorPtr (b (12 + 2 * i)) (b (13 + 2 * i))

/-- The track of a file's first T/S list, which an unlinked entry keeps at the end
of the name. -/
def headTrack (b : Block) (e : Nat) : UInt8 :=
  if b (catOffset e 0) = 0xfe then b (catOffset e 0x20) else b (catOffset e 0)

/-- The first T/S list of catalog entry `e`. -/
def headPtr (b : Block) (e : Nat) : Option Nat := sectorPtr (headTrack b e) (b (catOffset e 1))

/-- The entry holds a file, live or unlinked. -/
def EntryUsed (b : Block) (e : Nat) : Prop := b (catOffset e 0) ≠ 0 ∧ b (catOffset e 0) ≠ 0xff

instance (b : Block) (e : Nat) : Decidable (EntryUsed b e) :=
  inferInstanceAs (Decidable (_ ∧ _))

/-- The `k`-th catalog sector, counted from `root`. -/
def catalogAt (d : Disk) (root k : Nat) : Option Nat := chainAt (nextSector d) (some root) k

/-- The `k`-th T/S list of the file at entry `e` of catalog sector `c`. -/
def tsListAt (d : Disk) (c e k : Nat) : Option Nat := chainAt (nextSector d) (headPtr (d c) e) k

/-- The data sector with index `s` in the file: entry `s % 122` of list `s / 122`. -/
def dataAt (d : Disk) (c e s : Nat) : Option Nat :=
  (tsListAt d c e (s / 122)).bind fun l => tsEntry (d l) (s % 122)

/-- Entry `e` of sector `c` of the catalog holds a file. -/
structure IsFile (d : Disk) (root c e : Nat) : Prop where
  catalog : ∃ k, catalogAt d root k = some c
  entry : e < 7
  used : EntryUsed (d c) e

/-- The ways a sector is referred to. -/
inductive SectorUse where
  | catalog (k : Nat)
  | tsList (c e k : Nat)
  | data (c e s : Nat)

/-- The file a use belongs to. -/
def SectorUse.file : SectorUse → Option (Nat × Nat)
  | .catalog _ => none
  | .tsList c e _ => some (c, e)
  | .data c e _ => some (c, e)

/-- Sector `n` is referred to in the way `u`. -/
def Refers (d : Disk) (root : Nat) : SectorUse → Nat → Prop
  | .catalog k, n => catalogAt d root k = some n
  | .tsList c e k, n => IsFile d root c e ∧ tsListAt d c e k = some n
  | .data c e s, n => IsFile d root c e ∧ dataAt d c e s = some n

/-- Sector `n` is marked free. -/
abbrev FreeIn (v : Dos33Volume) (n : Nat) : Prop := isFree v.vtoc n = true

/-- A well-formed volume whose catalog starts at sector `root`. -/
structure WellFormed (v : Dos33Volume) (root : Nat) : Prop where
  vtoc : VtocOk v.vtoc
  account : Account (Refers v.disk root) (FreeIn v)
  range : ∀ u n, Refers v.disk root u n → 16 ≤ n ∧ n < 16 * numTracks v.vtoc ∧ n ≠ 272
  reserved : ∀ n, FreeIn v n → 16 ≤ n ∧ n ≠ 272
  catalog_ends : ∃ k, catalogAt v.disk root k = none
  catalog_link : ∀ k c, catalogAt v.disk root k = some c → (v.disk c 2).toNat < 16
  head : ∀ c e, IsFile v.disk root c e → (headPtr (v.disk c) e).isSome
  head_sector : ∀ c e, IsFile v.disk root c e → (v.disk c (catOffset e 1)).toNat < 16

theorem catOffset_eq (e f : Nat) : catOffset e f = 11 + 35 * e + f := by
  show 11 + e * 35 + f = _
  omega

/-- Two fields of catalog entries are different bytes. -/
theorem catOffset_ne {e e' f f' : Nat} (hf : f < 35) (hf' : f' < 35) (h : e ≠ e' ∨ f ≠ f') :
    catOffset e f ≠ catOffset e' f' := by
  rw [catOffset_eq, catOffset_eq]
  omega

/-! ## Frames -/

/-- Nothing but the file at entry `e` of sector `c` is touched: a sector used for
anything else keeps its bytes, except that entry's own in the catalog sector. -/
def TouchesOnly (d d' : Disk) (root c e : Nat) : Prop :=
  ∀ u n i, Refers d root u n → u.file ≠ some (c, e) →
    ¬ (n = c ∧ 11 + 35 * e ≤ i ∧ i < 46 + 35 * e) → d' n i = d n i

section Frame

variable {d d' : Disk} {root c e : Nat} {free : Nat → Prop}

theorem nextSector_congr {n : Nat} (h1 : d' n 1 = d n 1) (h2 : d' n 2 = d n 2) :
    nextSector d' n = nextSector d n := by
  rw [nextSector, nextSector, h1, h2]

/-- The catalog chain depends on the links in its sectors. -/
theorem catalogAt_congr
    (h : ∀ k n, catalogAt d root k = some n → d' n 1 = d n 1 ∧ d' n 2 = d n 2) (k : Nat) :
    catalogAt d' root k = catalogAt d root k :=
  chainAt_congr (fun j n hn => nextSector_congr (h j n hn).1 (h j n hn).2) k

theorem TouchesOnly.catalogAt_eq (ht : TouchesOnly d d' root c e) (k : Nat) :
    catalogAt d' root k = catalogAt d root k := by
  apply catalogAt_congr
  intro j n hn
  have hne : (SectorUse.catalog j).file ≠ some (c, e) := by simp [SectorUse.file]
  exact ⟨ht (.catalog j) n 1 hn hne (by omega), ht (.catalog j) n 2 hn hne (by omega)⟩

/-- Another entry of the catalog keeps its bytes. -/
theorem TouchesOnly.entry_eq (ht : TouchesOnly d d' root c e) {c' e' f : Nat}
    (hc : ∃ k, catalogAt d root k = some c') (hne : (c', e') ≠ (c, e)) (hf : f < 35) :
    d' c' (catOffset e' f) = d c' (catOffset e' f) := by
  obtain ⟨k, hk⟩ := hc
  apply ht (.catalog k) c' _ hk (by simp [SectorUse.file])
  rintro ⟨rfl, h1, h2⟩
  rw [catOffset_eq] at h1 h2
  exact hne (by rw [show e' = e by omega])

theorem TouchesOnly.entryUsed_iff (ht : TouchesOnly d d' root c e) {c' e' : Nat}
    (hc : ∃ k, catalogAt d root k = some c') (hne : (c', e') ≠ (c, e)) :
    EntryUsed (d' c') e' ↔ EntryUsed (d c') e' := by
  rw [EntryUsed, EntryUsed, ht.entry_eq hc hne (by omega)]

theorem TouchesOnly.headPtr_eq (ht : TouchesOnly d d' root c e) {c' e' : Nat}
    (hc : ∃ k, catalogAt d root k = some c') (hne : (c', e') ≠ (c, e)) :
    headPtr (d' c') e' = headPtr (d c') e' := by
  rw [headPtr, headPtr, headTrack, headTrack, ht.entry_eq hc hne (by omega),
    ht.entry_eq hc hne (by omega), ht.entry_eq hc hne (by omega)]

theorem TouchesOnly.isFile_iff (ht : TouchesOnly d d' root c e) {c' e' : Nat}
    (hne : (c', e') ≠ (c, e)) : IsFile d' root c' e' ↔ IsFile d root c' e' := by
  have hcat : (∃ k, catalogAt d' root k = some c') ↔ ∃ k, catalogAt d root k = some c' := by
    simp only [ht.catalogAt_eq]
  constructor
  · intro h
    have hc := hcat.1 h.catalog
    exact ⟨hc, h.entry, (ht.entryUsed_iff hc hne).1 h.used⟩
  · intro h
    exact ⟨hcat.2 h.catalog, h.entry, (ht.entryUsed_iff h.catalog hne).2 h.used⟩

/-- A sector of another file keeps all its bytes: it is no catalog sector. -/
theorem TouchesOnly.sector_eq (ht : TouchesOnly d d' root c e)
    (hacc : Account (Refers d root) free) (hc : ∃ k, catalogAt d root k = some c)
    {u : SectorUse} {n : Nat} (hu : Refers d root u n) (hfile : u.file ≠ some (c, e))
    (hcat : u.file ≠ none) : d' n = d n := by
  funext i
  apply ht u n i hu hfile
  rintro ⟨rfl, -, -⟩
  obtain ⟨k, hk⟩ := hc
  rw [hacc.exclusive u (.catalog k) n hu hk] at hcat
  exact hcat rfl

theorem TouchesOnly.tsListAt_eq (ht : TouchesOnly d d' root c e)
    (hacc : Account (Refers d root) free) (hc : ∃ k, catalogAt d root k = some c) {c' e' : Nat}
    (hf : IsFile d root c' e') (hne : (c', e') ≠ (c, e)) (k : Nat) :
    tsListAt d' c' e' k = tsListAt d c' e' k := by
  rw [tsListAt, tsListAt, ht.headPtr_eq hf.catalog hne]
  apply chainAt_congr
  intro j n hn
  have hn' := ht.sector_eq hacc hc (u := .tsList c' e' j) ⟨hf, hn⟩
    (fun h => hne (Option.some.inj h)) (by simp [SectorUse.file])
  exact nextSector_congr (by rw [hn']) (by rw [hn'])

theorem TouchesOnly.dataAt_eq (ht : TouchesOnly d d' root c e)
    (hacc : Account (Refers d root) free) (hc : ∃ k, catalogAt d root k = some c) {c' e' : Nat}
    (hf : IsFile d root c' e') (hne : (c', e') ≠ (c, e)) (s : Nat) :
    dataAt d' c' e' s = dataAt d c' e' s := by
  rw [dataAt, dataAt, ht.tsListAt_eq hacc hc hf hne]
  cases hl : tsListAt d c' e' (s / 122) with
  | none => rfl
  | some l =>
      have hl' := ht.sector_eq hacc hc (u := .tsList c' e' (s / 122)) ⟨hf, hl⟩
        (fun h => hne (Option.some.inj h)) (by simp [SectorUse.file])
      rw [Option.bind_some, Option.bind_some, hl']

/-- The references of everything else stay. -/
theorem TouchesOnly.refers_iff (ht : TouchesOnly d d' root c e)
    (hacc : Account (Refers d root) free) (hc : ∃ k, catalogAt d root k = some c) {u : SectorUse}
    (hu : u.file ≠ some (c, e)) (n : Nat) : Refers d' root u n ↔ Refers d root u n := by
  cases u with
  | catalog k => rw [Refers, Refers, ht.catalogAt_eq]
  | tsList c' e' k =>
      have hne : (c', e') ≠ (c, e) := fun h => hu (congrArg some h)
      rw [Refers, Refers, ht.isFile_iff hne]
      exact and_congr_right fun hf => by rw [ht.tsListAt_eq hacc hc hf hne]
  | data c' e' s =>
      have hne : (c', e') ≠ (c, e) := fun h => hu (congrArg some h)
      rw [Refers, Refers, ht.isFile_iff hne]
      exact and_congr_right fun hf => by rw [ht.dataAt_eq hacc hc hf hne]

theorem TouchesOnly.refl (d : Disk) (root c e : Nat) : TouchesOnly d d root c e :=
  fun _ _ _ _ _ _ => rfl

theorem TouchesOnly.trans {d'' : Disk} (ht : TouchesOnly d d' root c e)
    (ht' : TouchesOnly d' d'' root c e) (hacc : Account (Refers d root) free)
    (hc : ∃ k, catalogAt d root k = some c) : TouchesOnly d d'' root c e := by
  intro u n i hu hfile hi
  rw [ht' u n i ((ht.refers_iff hacc hc hfile n).2 hu) hfile hi, ht u n i hu hfile hi]

end Frame

/-! ## Staying well formed -/

/-- A sector of the disk that is neither referred to nor free: one that has just
been allocated. -/
structure Spare (v : Dos33Volume) (root n : Nat) : Prop where
  loose : Loose (Refers v.disk root) (FreeIn v) n
  range : 16 ≤ n ∧ n < 16 * numTracks v.vtoc ∧ n ≠ 272

section Step

variable {v v' : Dos33Volume} {root c e : Nat}

theorem refers_or_own (h : WellFormed v root) (hc : ∃ k, catalogAt v.disk root k = some c)
    (ht : TouchesOnly v.disk v'.disk root c e) {P : SectorUse → Nat → Prop}
    (hold : ∀ u n, Refers v.disk root u n → P u n)
    (hown : ∀ u n, u.file = some (c, e) → Refers v'.disk root u n → P u n) (u : SectorUse) (n : Nat)
    (hu : Refers v'.disk root u n) : P u n := by
  by_cases hfile : u.file = some (c, e)
  · exact hown u n hfile hu
  · exact hold u n ((ht.refers_iff h.account hc hfile n).1 hu)

theorem WellFormed.of_touchesOnly (h : WellFormed v root)
    (hc : ∃ k, catalogAt v.disk root k = some c) (ht : TouchesOnly v.disk v'.disk root c e)
    (hok : VtocOk v'.vtoc) (hacc : Account (Refers v'.disk root) (FreeIn v'))
    (hrange : ∀ u n, Refers v'.disk root u n → 16 ≤ n ∧ n < 16 * numTracks v'.vtoc ∧ n ≠ 272)
    (hreserved : ∀ n, FreeIn v' n → 16 ≤ n ∧ n ≠ 272)
    (hhead : IsFile v'.disk root c e →
      (headPtr (v'.disk c) e).isSome ∧ (v'.disk c (catOffset e 1)).toNat < 16) :
    WellFormed v' root where
  vtoc := hok
  account := hacc
  range := hrange
  reserved := hreserved
  catalog_ends := by
    obtain ⟨k, hk⟩ := h.catalog_ends
    exact ⟨k, by rw [ht.catalogAt_eq, hk]⟩
  catalog_link k n hn := by
    rw [ht.catalogAt_eq] at hn
    rw [ht (.catalog k) n 2 hn (by simp [SectorUse.file]) (by omega)]
    exact h.catalog_link k n hn
  head c' e' hf := by
    by_cases hne : (c', e') = (c, e)
    · obtain ⟨rfl, rfl⟩ := Prod.mk.inj hne
      exact (hhead hf).1
    · rw [ht.isFile_iff hne] at hf
      rw [ht.headPtr_eq hf.catalog hne]
      exact h.head c' e' hf
  head_sector c' e' hf := by
    by_cases hne : (c', e') = (c, e)
    · obtain ⟨rfl, rfl⟩ := Prod.mk.inj hne
      exact (hhead hf).2
    · rw [ht.isFile_iff hne] at hf
      rw [ht.entry_eq hf.catalog hne (by omega)]
      exact h.head_sector c' e' hf

/-- A volume stays well formed when one file gives up references, and the sectors
newly marked free are ones it gave up. -/
theorem WellFormed.keep (h : WellFormed v root) (hc : ∃ k, catalogAt v.disk root k = some c)
    (ht : TouchesOnly v.disk v'.disk root c e) (hok : VtocOk v'.vtoc)
    (htr : numTracks v'.vtoc = numTracks v.vtoc)
    (hown : ∀ u n, u.file = some (c, e) → Refers v'.disk root u n → Refers v.disk root u n)
    (hfree : ∀ n, FreeIn v' n → FreeIn v n ∨
      (∃ u, Refers v.disk root u n) ∧ ∀ u, ¬ Refers v'.disk root u n)
    (hhead : IsFile v'.disk root c e →
      (headPtr (v'.disk c) e).isSome ∧ (v'.disk c (catOffset e 1)).toNat < 16) :
    WellFormed v' root := by
  have hsub := refers_or_own h hc ht (fun _ _ hu => hu) hown
  refine h.of_touchesOnly hc ht hok ?_ ?_ ?_ hhead
  · exact h.account.shrink hsub fun n hn => (hfree n hn).imp_right And.right
  · intro u n hu
    rw [htr]
    exact h.range u n (hsub u n hu)
  · intro n hn
    rcases hfree n hn with hn | ⟨⟨u, hu⟩, -⟩
    · exact h.reserved n hn
    · obtain ⟨h1, -, h2⟩ := h.range u n hu
      exact ⟨h1, h2⟩

/-- A volume stays well formed when one file takes up a spare sector. -/
theorem WellFormed.extend (h : WellFormed v root) (hc : ∃ k, catalogAt v.disk root k = some c)
    (ht : TouchesOnly v.disk v'.disk root c e) (hvtoc : v'.vtoc = v.vtoc) {u₀ : SectorUse} {n₀ : Nat}
    (hspare : Spare v root n₀)
    (hown : ∀ u n, u.file = some (c, e) → Refers v'.disk root u n →
      Refers v.disk root u n ∨ (u = u₀ ∧ n = n₀))
    (hhead : IsFile v'.disk root c e →
      (headPtr (v'.disk c) e).isSome ∧ (v'.disk c (catOffset e 1)).toNat < 16) :
    WellFormed v' root := by
  have hsub := refers_or_own h hc ht (P := fun u n => Refers v.disk root u n ∨ (u = u₀ ∧ n = n₀))
    (fun _ _ hu => Or.inl hu) hown
  have hfree : ∀ n, FreeIn v' n ↔ FreeIn v n := fun n => by rw [FreeIn, FreeIn, hvtoc]
  refine h.of_touchesOnly hc ht (hvtoc ▸ h.vtoc) ?_ ?_ ?_ hhead
  · exact h.account.take hspare.loose hsub fun n hn => Or.inl ((hfree n).1 hn)
  · intro u n hu
    rw [hvtoc]
    rcases hsub u n hu with hu | ⟨-, rfl⟩
    · exact h.range u n hu
    · exact hspare.range
  · exact fun n hn => h.reserved n ((hfree n).1 hn)

end Step

end Vmwos
