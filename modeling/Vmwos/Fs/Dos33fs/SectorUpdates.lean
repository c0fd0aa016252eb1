import Vmwos.Fs.Dos33fs.References
import Vmwos.Fs.Dos33fs.File

/-!
# One sector of a file changes

The operations on a file change its volume one sector at a time. For each kind of
sector this file says what the change does to the references: a data sector or a
sector nobody refers to (`SameMeta`), a T/S list that keeps its link
(`dataAt_update_tsList`), a T/S list that gets a new last list behind it
(`tsListAt_link`), the file's own catalog entry (`touchesOnly_update_entry`).
Each comes with the corresponding way in which the volume stays well formed.
-/

set_option autoImplicit false

namespace Vmwos

open Library

/-! ## Pointers as bytes -/

theorem sectorPtr_eq_none {t s : UInt8} : sectorPtr t s = none ↔ t = 0 ∧ s = 0 := by
  unfold sectorPtr
  split <;> simp_all

theorem sectorPtr_eq_some {t s : UInt8} {n : Nat} :
    sectorPtr t s = some n ↔ ¬ (t = 0 ∧ s = 0) ∧ n = 16 * t.toNat + s.toNat := by
  unfold sectorPtr
  split
  · simp_all
  · simp_all [eq_comm]

theorem toNat_eq_zero {b : UInt8} : b.toNat = 0 ↔ b = 0 := by
  rw [← UInt8.toNat_inj]
  rfl

theorem ts_eq (t s : Nat) : ts t s = 256 * (16 * t + s) := by
  show (t * 16 + s) * 256 = _
  omega

@[simp] theorem readBlock_mul (d : Disk) (n : Nat) : readBlock d (256 * n) = d n := by
  show d (256 * n / 256) = d n
  rw [Nat.mul_div_cancel_left n (by decide)]

@[simp] theorem writeBlock_mul (d : Disk) (n : Nat) (b : Block) :
    writeBlock d (256 * n) b = Function.update d n b := by
  show Function.update d (256 * n / 256) b = _
  rw [Nat.mul_div_cancel_left n (by decide)]

theorem getT_mul (n : Nat) : getT (256 * n) = n / 16 := by
  show (256 * n / 256) >>> 4 = n / 16
  rw [Nat.mul_div_cancel_left n (by decide), Nat.shiftRight_eq_div_pow]

theorem getS_mul (n : Nat) : getS (256 * n) = n % 16 := by
  show (256 * n / 256) &&& 0xf = n % 16
  rw [Nat.mul_div_cancel_left n (by decide)]
  exact Nat.and_two_pow_sub_one_eq_mod n 4

/-- The two bytes of an entry are 0/0 exactly when it points nowhere. -/
theorem tsEntry_eq_none {b : Block} {i : Nat} :
    tsEntry b i = none ↔ tsEntryT b i = 0 ∧ tsEntryS b i = 0 := by
  rw [tsEntry, sectorPtr_eq_none, ← toNat_eq_zero, ← toNat_eq_zero]
  rfl

theorem ts_of_tsEntry {b : Block} {i n : Nat} (h : tsEntry b i = some n) :
    ts (tsEntryT b i) (tsEntryS b i) = 256 * n := by
  rw [ts_eq, (sectorPtr_eq_some.1 h).2]
  rfl

theorem setTsEntry_eq (b : Block) (i t s : Nat) :
    setTsEntry b i t s =
      Function.update (Function.update b (12 + 2 * i) (UInt8.ofNat t)) (13 + 2 * i)
        (UInt8.ofNat s) := rfl

theorem sectorPtr_ofNat {t s : Nat} (ht : t < 256) (hs : s < 256) :
    sectorPtr (UInt8.ofNat t) (UInt8.ofNat s) =
      if t = 0 ∧ s = 0 then none else some (16 * t + s) := by
  have ht' : (UInt8.ofNat t).toNat = t := by rw [UInt8.toNat_ofNat']; omega
  have hs' : (UInt8.ofNat s).toNat = s := by rw [UInt8.toNat_ofNat']; omega
  simp only [sectorPtr, ← toNat_eq_zero, ht', hs']

theorem tsEntry_setTsEntry {b : Block} {i j t s : Nat} (ht : t < 256) (hs : s < 256) :
    tsEntry (setTsEntry b i t s) j =
      if j = i then (if t = 0 ∧ s = 0 then none else some (16 * t + s)) else tsEntry b j := by
  rw [tsEntry, setTsEntry_eq]
  by_cases hj : j = i
  · subst hj
    rw [if_pos rfl, Function.update_of_ne (by omega), Function.update_self, Function.update_self,
      sectorPtr_ofNat ht hs]
  · rw [if_neg hj, Function.update_of_ne (by omega), Function.update_of_ne (by omega),
      Function.update_of_ne (by omega), Function.update_of_ne (by omega), tsEntry]

theorem setTsEntry_of_lt {b : Block} {i t s j : Nat} (hj : j < 12) :
    setTsEntry b i t s j = b j := by
  rw [setTsEntry_eq, Function.update_of_ne (by omega), Function.update_of_ne (by omega)]

/-! ## Sectors outside the metadata -/

/-- The catalog sectors and the T/S lists of all files keep their bytes. -/
structure SameMeta (d d' : Disk) (root : Nat) : Prop where
  catalog : ∀ k n, catalogAt d root k = some n → d' n = d n
  tsList : ∀ c e k n, IsFile d root c e → tsListAt d c e k = some n → d' n = d n

namespace SameMeta

variable {d d' : Disk} {root c e : Nat}

theorem catalogAt_eq (h : SameMeta d d' root) (k : Nat) :
    catalogAt d' root k = catalogAt d root k :=
  catalogAt_congr (fun j n hn => by rw [h.catalog j n hn]; exact ⟨rfl, rfl⟩) k

theorem isFile_iff (h : SameMeta d d' root) : IsFile d' root c e ↔ IsFile d root c e := by
  constructor
  · rintro ⟨⟨k, hk⟩, he, hused⟩
    rw [h.catalogAt_eq] at hk
    rw [h.catalog k c hk] at hused
    exact ⟨⟨k, hk⟩, he, hused⟩
  · rintro ⟨⟨k, hk⟩, he, hused⟩
    refine ⟨⟨k, by rw [h.catalogAt_eq, hk]⟩, he, ?_⟩
    rwa [h.catalog k c hk]

theorem tsListAt_eq (h : SameMeta d d' root) (hf : IsFile d root c e) (k : Nat) :
    tsListAt d' c e k = tsListAt d c e k := by
  obtain ⟨j, hj⟩ := hf.catalog
  rw [tsListAt, tsListAt, h.catalog j c hj]
  apply chainAt_congr
  intro i n hn
  have hn' := h.tsList c e i n hf hn
  exact nextSector_congr (by rw [hn']) (by rw [hn'])

theorem dataAt_eq (h : SameMeta d d' root) (hf : IsFile d root c e) (s : Nat) :
    dataAt d' c e s = dataAt d c e s := by
  rw [dataAt, dataAt, h.tsListAt_eq hf]
  cases hl : tsListAt d c e (s / 122) with
  | none => rfl
  | some l => rw [Option.bind_some, Option.bind_some, h.tsList c e _ l hf hl]

theorem refers_iff (h : SameMeta d d' root) (u : SectorUse) (n : Nat) :
    Refers d' root u n ↔ Refers d root u n := by
  cases u with
  | catalog k => rw [Refers, Refers, h.catalogAt_eq]
  | tsList c e k =>
      rw [Refers, Refers, h.isFile_iff]
      exact and_congr_right fun hf => by rw [h.tsListAt_eq hf]
  | data c e s =>
      rw [Refers, Refers, h.isFile_iff]
      exact and_congr_right fun hf => by rw [h.dataAt_eq hf]

/-- A change of a sector that no reference leads to as metadata. -/
theorem update {m : Nat} {b : Block} (hcat : ∀ k, catalogAt d root k ≠ some m)
    (hlist : ∀ c e k, ¬ Refers d root (.tsList c e k) m) :
    SameMeta d (Function.update d m b) root where
  catalog k n hn := by
    rw [Function.update_of_ne]
    rintro rfl
    exact hcat k hn
  tsList c e k n hf hn := by
    rw [Function.update_of_ne]
    rintro rfl
    exact hlist c e k ⟨hf, hn⟩

theorem update_unreferenced {m : Nat} {b : Block} (h : ∀ u, ¬ Refers d root u m) :
    SameMeta d (Function.update d m b) root :=
  update (fun k hk => h (.catalog k) hk) fun c e k => h (.tsList c e k)

theorem update_data {free : Nat → Prop} {s m : Nat} {b : Block}
    (hacc : Account (Refers d root) free) (hm : Refers d root (.data c e s) m) :
    SameMeta d (Function.update d m b) root := by
  apply update
  · intro k hk
    cases hacc.exclusive (.data c e s) (.catalog k) m hm hk
  · intro c' e' k hk
    cases hacc.exclusive (.data c e s) (.tsList c' e' k) m hm hk

end SameMeta

/-- A change of a sector that only the file itself uses, if anyone. -/
theorem touchesOnly_update {d : Disk} {root c e m : Nat} {b : Block}
    (h : ∀ u, Refers d root u m → u.file = some (c, e)) :
    TouchesOnly d (Function.update d m b) root c e := by
  intro u n i hu hfile _
  rw [Function.update_of_ne]
  rintro rfl
  exact hfile (h u hu)

theorem touchesOnly_update_own {d : Disk} {root c e m : Nat} {b : Block} {free : Nat → Prop}
    {u : SectorUse} (hacc : Account (Refers d root) free) (hm : Refers d root u m)
    (hu : u.file = some (c, e)) : TouchesOnly d (Function.update d m b) root c e :=
  touchesOnly_update fun u' hu' => by rw [hacc.exclusive u' u m hu' hm, hu]

theorem touchesOnly_update_unreferenced {d : Disk} {root c e m : Nat} {b : Block}
    (h : ∀ u, ¬ Refers d root u m) : TouchesOnly d (Function.update d m b) root c e :=
  touchesOnly_update fun u hu => absurd hu (h u)

/-- A change of the file's own catalog entry. -/
theorem touchesOnly_update_entry {d : Disk} {root c e : Nat} {b : Block}
    (hb : ∀ i, ¬ (11 + 35 * e ≤ i ∧ i < 46 + 35 * e) → b i = d c i) :
    TouchesOnly d (Function.update d c b) root c e := by
  intro u n i _ _ hi
  by_cases hn : n = c
  · subst hn
    rw [Function.update_self]
    exact hb i fun h => hi ⟨rfl, h⟩
  · rw [Function.update_of_ne hn]

/-! ## A T/S list that keeps its link -/

section TsList

variable {d : Disk} {root c e k l : Nat} {b : Block} {free : Nat → Prop}

theorem catalogAt_update_own {u : SectorUse} (hacc : Account (Refers d root) free)
    (hl : Refers d root u l) (hu : u.file = some (c, e)) (j : Nat) :
    catalogAt (Function.update d l b) root j = catalogAt d root j :=
  (touchesOnly_update_own hacc hl hu).catalogAt_eq j

/-- The file's catalog sector is none of its own sectors. -/
theorem ne_catalog_of_own {u : SectorUse} (hacc : Account (Refers d root) free)
    (hl : Refers d root u l) (hu : u.file = some (c, e)) {j n : Nat}
    (hn : catalogAt d root j = some n) : n ≠ l := by
  rintro rfl
  have h := hacc.exclusive (.catalog j) u n hn hl
  rw [← h] at hu
  cases hu

theorem isFile_update_own {u : SectorUse} (hacc : Account (Refers d root) free)
    (hl : Refers d root u l) (hu : u.file = some (c, e)) :
    IsFile (Function.update d l b) root c e ↔ IsFile d root c e := by
  constructor
  · rintro ⟨⟨j, hj⟩, he, hused⟩
    rw [catalogAt_update_own hacc hl hu] at hj
    rw [Function.update_of_ne (ne_catalog_of_own hacc hl hu hj)] at hused
    exact ⟨⟨j, hj⟩, he, hused⟩
  · rintro ⟨⟨j, hj⟩, he, hused⟩
    refine ⟨⟨j, by rw [catalogAt_update_own hacc hl hu, hj]⟩, he, ?_⟩
    rwa [Function.update_of_ne (ne_catalog_of_own hacc hl hu hj)]

theorem headPtr_update_own {u : SectorUse} (hacc : Account (Refers d root) free)
    (hl : Refers d root u l) (hu : u.file = some (c, e)) (hf : IsFile d root c e) :
    headPtr (Function.update d l b c) e = headPtr (d c) e := by
  obtain ⟨j, hj⟩ := hf.catalog
  rw [Function.update_of_ne (ne_catalog_of_own hacc hl hu hj)]

theorem tsListAt_update_tsList (hacc : Account (Refers d root) free)
    (hl : Refers d root (.tsList c e k) l) (h1 : b 1 = d l 1) (h2 : b 2 = d l 2) (j : Nat) :
    tsListAt (Function.update d l b) c e j = tsListAt d c e j := by
  rw [tsListAt, tsListAt, headPtr_update_own hacc hl rfl hl.1]
  apply chainAt_congr
  intro i n _
  by_cases hn : n = l
  · subst hn
    exact nextSector_congr (by rw [Function.update_self, h1]) (by rw [Function.update_self, h2])
  · exact nextSector_congr (by rw [Function.update_of_ne hn]) (by rw [Function.update_of_ne hn])

/-- The data sectors after a change of list `k`. -/
theorem dataAt_update_tsList (hacc : Account (Refers d root) free)
    (hl : Refers d root (.tsList c e k) l) (h1 : b 1 = d l 1) (h2 : b 2 = d l 2) (s : Nat) :
    dataAt (Function.update d l b) c e s =
      if s / 122 = k then tsEntry b (s % 122) else dataAt d c e s := by
  rw [dataAt, tsListAt_update_tsList hacc hl h1 h2]
  by_cases hs : s / 122 = k
  · rw [if_pos hs, hs, hl.2, Option.bind_some, Function.update_self]
  · rw [if_neg hs, dataAt]
    cases hj : tsListAt d c e (s / 122) with
    | none => rfl
    | some l' =>
        have hne : l' ≠ l := by
          rintro rfl
          have h := hacc.exclusive (.tsList c e (s / 122)) (.tsList c e k) l' ⟨hl.1, hj⟩ hl
          simp only [SectorUse.tsList.injEq, true_and] at h
          exact hs h
        rw [Option.bind_some, Option.bind_some, Function.update_of_ne hne]

end TsList

/-! ## A new last T/S list -/

section Link

variable {d : Disk} {root c e k l n : Nat} {b : Block} {free : Nat → Prop}

/-- The disk with sector `n` cleared and list `l` linked to it. -/
def linkTsList (d : Disk) (l n : Nat) (b : Block) : Disk :=
  Function.update (Function.update d n fun _ => 0) l b

theorem linkTsList_of_ne {m : Nat} (hl : m ≠ l) (hn : m ≠ n) : linkTsList d l n b m = d m := by
  rw [linkTsList, Function.update_of_ne hl, Function.update_of_ne hn]

theorem touchesOnly_linkTsList (hacc : Account (Refers d root) free)
    (hl : Refers d root (.tsList c e k) l) (hn : ∀ u, ¬ Refers d root u n) :
    TouchesOnly d (linkTsList d l n b) root c e := by
  intro u m i hu hfile _
  have hml : m ≠ l := by
    rintro rfl
    exact hfile (by rw [hacc.exclusive u _ m hu hl]; rfl)
  have hmn : m ≠ n := by
    rintro rfl
    exact hn u hu
  rw [linkTsList_of_ne hml hmn]

theorem isFile_linkTsList (hacc : Account (Refers d root) free)
    (hl : Refers d root (.tsList c e k) l) (hn : ∀ u, ¬ Refers d root u n) :
    IsFile (linkTsList d l n b) root c e := by
  obtain ⟨j, hj⟩ := hl.1.catalog
  refine ⟨⟨j, by rw [(touchesOnly_linkTsList hacc hl hn).catalogAt_eq, hj]⟩, hl.1.entry, ?_⟩
  have hcn : c ≠ n := by
    rintro rfl
    exact hn (.catalog j) hj
  rw [linkTsList_of_ne (ne_catalog_of_own hacc hl rfl hj) hcn]
  exact hl.1.used

/-- The chain of lists after the link: the old lists up to `k`, then `n`. -/
theorem tsListAt_linkTsList (hacc : Account (Refers d root) free)
    (hl : Refers d root (.tsList c e k) l) (hn : ∀ u, ¬ Refers d root u n)
    (hb : sectorPtr (b 1) (b 2) = some n) (j : Nat) :
    tsListAt (linkTsList d l n b) c e j =
      if j ≤ k then tsListAt d c e j else if j = k + 1 then some n else none := by
  obtain ⟨i, hi⟩ := hl.1.catalog
  have hnl : n ≠ l := by
    rintro rfl
    exact hn _ hl
  have hhead : headPtr (linkTsList d l n b c) e = headPtr (d c) e := by
    have hcn : c ≠ n := by
      rintro rfl
      exact hn (.catalog i) hi
    rw [linkTsList_of_ne (ne_catalog_of_own hacc hl rfl hi) hcn]
  have hup : ∀ j ≤ k, tsListAt (linkTsList d l n b) c e j = tsListAt d c e j := by
    intro j hj
    rw [tsListAt, tsListAt, hhead]
    apply chainAt_congr_of_lt
    intro i hij x hx
    have hx' : Refers d root (.tsList c e i) x := ⟨hl.1, hx⟩
    have hxl : x ≠ l := by
      rintro rfl
      have h := hacc.exclusive _ _ x hx' hl
      simp only [SectorUse.tsList.injEq, true_and] at h
      omega
    have hxn : x ≠ n := by
      rintro rfl
      exact hn _ hx'
    rw [nextSector, linkTsList_of_ne hxl hxn, nextSector]
  have hk1 : tsListAt (linkTsList d l n b) c e (k + 1) = some n := by
    rw [tsListAt, chainAt_succ, ← tsListAt, hup k (Nat.le_refl k), hl.2, Option.bind_some, nextSector,
      linkTsList, Function.update_self, hb]
  have hk2 : tsListAt (linkTsList d l n b) c e (k + 2) = none := by
    rw [tsListAt, chainAt_succ, ← tsListAt, hk1, Option.bind_some, nextSector, linkTsList,
      Function.update_of_ne hnl, Function.update_self]
    rfl
  by_cases hj : j ≤ k
  · rw [if_pos hj, hup j hj]
  · rw [if_neg hj]
    by_cases hj1 : j = k + 1
    · rw [if_pos hj1, hj1, hk1]
    · rw [if_neg hj1]
      exact chainAt_eq_none_of_le hk2 (by omega)

/-- The new list is empty; the data sectors of the old ones stay. -/
theorem dataAt_linkTsList (hacc : Account (Refers d root) free)
    (hl : Refers d root (.tsList c e k) l) (hn : ∀ u, ¬ Refers d root u n)
    (hb : sectorPtr (b 1) (b 2) = some n) (hrest : ∀ i, 12 ≤ i → b i = d l i) (s : Nat) :
    dataAt (linkTsList d l n b) c e s = if s / 122 ≤ k then dataAt d c e s else none := by
  have hnl : n ≠ l := by
    rintro rfl
    exact hn _ hl
  rw [dataAt, tsListAt_linkTsList hacc hl hn hb]
  by_cases hs : s / 122 ≤ k
  · rw [if_pos hs, if_pos hs, dataAt]
    cases hj : tsListAt d c e (s / 122) with
    | none => rfl
    | some x =>
        have hx : Refers d root (.tsList c e (s / 122)) x := ⟨hl.1, hj⟩
        have hxn : x ≠ n := by
          rintro rfl
          exact hn _ hx
        rw [Option.bind_some, Option.bind_some]
        by_cases hxl : x = l
        · rw [hxl, linkTsList, Function.update_self, tsEntry, tsEntry, hrest _ (by omega),
            hrest _ (by omega)]
        · rw [linkTsList_of_ne hxl hxn]
  · rw [if_neg hs, if_neg hs]
    by_cases hk : s / 122 = k + 1
    · rw [if_pos hk, Option.bind_some, linkTsList, Function.update_of_ne hnl, Function.update_self]
      rfl
    · rw [if_neg hk]
      rfl

end Link

/-! ## The catalog entry -/

section Entry

variable {d : Disk} {root c e : Nat} {b : Block}

theorem isFile_update_entry (hc : ∃ k, catalogAt d root k = some c)
    (hb : ∀ i, ¬ (11 + 35 * e ≤ i ∧ i < 46 + 35 * e) → b i = d c i) :
    IsFile (Function.update d c b) root c e ↔ e < 7 ∧ EntryUsed b e := by
  have ht : TouchesOnly d (Function.update d c b) root c e := touchesOnly_update_entry hb
  constructor
  · rintro ⟨-, he, hused⟩
    rw [Function.update_self] at hused
    exact ⟨he, hused⟩
  · rintro ⟨he, hused⟩
    obtain ⟨k, hk⟩ := hc
    exact ⟨⟨k, by rw [ht.catalogAt_eq, hk]⟩, he, by rwa [Function.update_self]⟩

theorem nextSector_update_entry
    (hb : ∀ i, ¬ (11 + 35 * e ≤ i ∧ i < 46 + 35 * e) → b i = d c i) :
    nextSector (Function.update d c b) = nextSector d := by
  funext n
  by_cases hn : n = c
  · subst hn
    apply nextSector_congr
    · rw [Function.update_self, hb 1 (by omega)]
    · rw [Function.update_self, hb 2 (by omega)]
  · exact nextSector_congr (by rw [Function.update_of_ne hn]) (by rw [Function.update_of_ne hn])

theorem tsListAt_update_entry
    (hb : ∀ i, ¬ (11 + 35 * e ≤ i ∧ i < 46 + 35 * e) → b i = d c i) (k : Nat) :
    tsListAt (Function.update d c b) c e k = chainAt (nextSector d) (headPtr b e) k := by
  rw [tsListAt, nextSector_update_entry hb, Function.update_self]

variable {free : Nat → Prop}

/-- An entry that keeps the file's first T/S list keeps its references. -/
theorem dataAt_update_entry (hacc : Account (Refers d root) free) (hf : IsFile d root c e)
    (hb : ∀ i, ¬ (11 + 35 * e ≤ i ∧ i < 46 + 35 * e) → b i = d c i)
    (hhead : headPtr b e = headPtr (d c) e) (s : Nat) :
    dataAt (Function.update d c b) c e s = dataAt d c e s := by
  rw [dataAt, tsListAt_update_entry hb, hhead, ← tsListAt, dataAt]
  cases hl : tsListAt d c e (s / 122) with
  | none => rfl
  | some l =>
      obtain ⟨k, hk⟩ := hf.catalog
      have hcl := ne_catalog_of_own hacc (u := .tsList c e (s / 122)) ⟨hf, hl⟩ rfl hk
      rw [Option.bind_some, Option.bind_some, Function.update_of_ne hcl.symm]

end Entry

end Vmwos
