import Vmwos.Fs.Dos33fs.Operations

/-!
# Making, naming, unlinking and destroying files

The operations that change what a catalog entry holds. Naming and unlinking keep the
file as it is (`SameContents`), as long as the entry is a live one: an entry that is
unlinked already has the track of the file where the name ends, which both overwrite.
Destroying empties the file and frees its T/S list, but not its first data sector
(`dos33fsDestroyInode_spec`). Making takes the first free entry of the catalog
(`dos33fsMakeInode_spec`).
-/

set_option autoImplicit false

namespace Vmwos

open Library

/-! ## Naming and unlinking -/

section Rename

variable {v v' : Dos33Volume} {inode : Inode} {root c e : Nat} {b : Block}

/-- The entry is rewritten, the file stays. -/
structure SameContents (root c e : Nat) (v v' : Dos33Volume) : Prop where
  frame : FileFrame root c e v v'
  pool : SamePool root c e v v'
  lists : ∀ j, tsListAt v'.disk c e j = tsListAt v.disk c e j
  data : ∀ j, dataAt v'.disk c e j = dataAt v.disk c e j
  bytes : ∀ p, fileByte v'.disk c e p = fileByte v.disk c e p
  type : fileType v'.disk c e = fileType v.disk c e
  vtoc : v'.vtoc = v.vtoc

theorem sameContents_update_entry (h : WellFormed v root) (hf : IsFile v.disk root c e)
    (hb : ∀ i, ¬ (11 + 35 * e ≤ i ∧ i < 46 + 35 * e) → b i = v.disk c i)
    (hused : EntryUsed b e) (hhead : headTrack b e = headTrack (v.disk c) e)
    (hsec : b (catOffset e 1) = v.disk c (catOffset e 1))
    (htype : b (catOffset e 2) = v.disk c (catOffset e 2)) :
    SameContents root c e v { v with disk := Function.update v.disk c b } := by
  have hptr : headPtr b e = headPtr (v.disk c) e := by rw [headPtr, headPtr, hhead, hsec]
  refine ⟨fileFrame_update_entry h hf hb hused hptr hsec, samePool_update_entry h hf hb hused hptr,
    fun j => ?_, fun j => dataAt_update_entry h.account hf hb hptr j,
    fun p => fileByte_update_entry h hf hb hptr p, ?_, rfl⟩
  · rw [tsListAt_update_entry hb, hptr, ← tsListAt]
  · show (Function.update v.disk c b c (catOffset e 2)).toNat &&& 0x7f = fileType v.disk c e
    rw [Function.update_self, htype, fileType]

/-- The entry is that of a file that has not been unlinked. -/
def IsLive (d : Disk) (c e : Nat) : Prop := d c (catOffset e 0) ≠ 0xfe

/-- Unlinking a live file moves the track of its first T/S list to the end of the name. -/
theorem dos33fsUnlinkInode_spec (h : WellFormed v root) (hf : IsFile v.disk root c e)
    (hn : Names inode.number c e) (hlive : IsLive v.disk c e) :
    ∃ v', dos33fsUnlinkInode v inode = (0, v') ∧ SameContents root c e v v' ∧
      ¬ IsLive v'.disk c e := by
  have he := hf.entry
  have h1 : ¬ (e = 0xff ∨ e = 0xfe) := by omega
  have h2 : ¬ e ≥ dos33CatMaxEntries := Nat.not_le_of_lt he
  have hoff {f f' : Nat} (hf : f < 35) (hf' : f' < 35) (hne : f ≠ f') :
      catOffset e f ≠ catOffset e f' := catOffset_ne hf hf' (Or.inr hne)
  generalize hb : setByte (setByte (v.disk c) (catOffset e 0) 0xfe) (catOffset e 0x20)
    (v.disk c (catOffset e 0)).toNat = b
  have hb0 : b (catOffset e 0) = 0xfe := by
    rw [← hb, setByte, Function.update_of_ne (hoff (by decide) (by decide) (by decide)), setByte,
      Function.update_self]
    rfl
  have hb20 : b (catOffset e 0x20) = v.disk c (catOffset e 0) := by
    rw [← hb, setByte, Function.update_self, UInt8.ofNat_toNat]
  have hother {i : Nat} (h0 : i ≠ catOffset e 0) (h20 : i ≠ catOffset e 0x20) :
      b i = v.disk c i := by
    rw [← hb, setByte, Function.update_of_ne h20, setByte, Function.update_of_ne h0]
  refine ⟨{ v with disk := Function.update v.disk c b }, ?_, ?_, ?_⟩
  · simp only [dos33fsUnlinkInode, hn.entry, hn.block, if_neg h1, if_neg h2, readBlock_mul,
      writeBlock_mul, ← hb]
  · apply sameContents_update_entry h hf
    · intro i hi
      apply hother <;> rw [catOffset_eq] <;> omega
    · rw [EntryUsed, hb0]
      decide
    · rw [headTrack, if_pos hb0, hb20, headTrack, if_neg hlive]
    · exact hother (hoff (by decide) (by decide) (by decide)) (hoff (by decide) (by decide) (by decide))
    · exact hother (hoff (by decide) (by decide) (by decide)) (hoff (by decide) (by decide) (by decide))
  · intro hlive'
    apply hlive'
    show Function.update v.disk c b c (catOffset e 0) = 0xfe
    rw [Function.update_self, hb0]

theorem setBytes_of_not_mem (b : Block) (start : Nat) (cs : List UInt8) {i : Nat}
    (hi : ¬ (start ≤ i ∧ i < start + cs.length)) : setBytes b start cs i = b i :=
  (copyIn_apply b start cs i).trans (if_neg hi)

theorem dos33Filename_length {name : CString} (h : name.length ≤ 30) :
    (dos33Filename name).length = 30 := by
  show ((name ++ List.replicate (30 - name.length) 0x20).map fun c => c ||| 0x80).length = 30
  rw [List.length_map, List.length_append, List.length_replicate]
  omega

/-- Naming a live file. -/
theorem dos33fsLinkInode_spec (h : WellFormed v root) (hf : IsFile v.disk root c e)
    (hn : Names inode.number c e) (hlive : IsLive v.disk c e) {name : CString}
    (hname : name.length ≤ 30) :
    ∃ v', dos33fsLinkInode v inode name =
        (0, v', { inode with hardLinks := inode.hardLinks + 1 }) ∧
      SameContents root c e v v' ∧ IsLive v'.disk c e := by
  have hlen := dos33Filename_length hname
  have hlong : ¬ name.length > dos33MaxFilenameSize := Nat.not_lt_of_le hname
  generalize hb : setBytes (v.disk c) (catOffset e 3) (dos33Filename name) = b
  have hother {i : Nat} (hi : ¬ (catOffset e 3 ≤ i ∧ i < catOffset e 3 + 30)) :
      b i = v.disk c i := by
    rw [← hb]
    exact setBytes_of_not_mem _ _ _ (by rwa [hlen])
  have hfield {f : Nat} (hf : f < 3) : b (catOffset e f) = v.disk c (catOffset e f) := by
    apply hother
    rw [catOffset_eq, catOffset_eq]
    omega
  refine ⟨{ v with disk := Function.update v.disk c b }, ?_, ?_, ?_⟩
  · simp only [dos33fsLinkInode, if_neg hlong, hn.entry, hn.block, readBlock_mul, writeBlock_mul, ← hb]
  · apply sameContents_update_entry h hf
    · intro i hi
      apply hother
      rw [catOffset_eq]
      omega
    · rw [EntryUsed, hfield (by decide)]
      exact hf.used
    · have hlive' : ¬ b (catOffset e 0) = 0xfe := by rwa [hfield (by decide)]
      rw [headTrack, if_neg hlive', headTrack, if_neg hlive, hfield (by decide)]
    · exact hfield (by decide)
    · exact hfield (by decide)
  · show Function.update v.disk c b c (catOffset e 0) ≠ 0xfe
    rw [Function.update_self, hfield (by decide)]
    exact hlive

end Rename

/-! ## Destroying -/

section Destroy

variable {v : Dos33Volume} {inode : Inode} {root c e l : Nat}

/-- What destroying an empty file does: its entry and its first T/S list are given up. -/
structure Destroyed (root c e : Nat) (v v' : Dos33Volume) (l : Nat) : Prop where
  wf : WellFormed v' root
  touches : TouchesOnly v.disk v'.disk root c e
  tracks : numTracks v'.vtoc = numTracks v.vtoc
  deleted : v'.disk c (catOffset e 0) = 0xff
  free : ∀ n, FreeIn v' n ↔ n = l ∨ FreeIn v n

/-- The second half of `dos33fs_destroy_inode`, on the catalog sector as it is after the
file has been truncated. -/
theorem dos33fsDestroyInode_entry (h : WellFormed v root) (hf : IsFile v.disk root c e)
    (hl : tsListAt v.disk c e 0 = some l) {inode0 : Inode} {v0 : Dos33Volume}
    (hn : Names inode.number c e)
    (htrunc : dos33fsTruncateInode v0 inode0 0 = .ok (0, v, inode)) :
    ∃ v', dos33fsDestroyInode v0 inode0 = .ok (0, v', inode) ∧ Destroyed root c e v v' l := by
  have he := hf.entry
  have h1 : ¬ (e = 0xff ∨ e = 0xfe) := by omega
  have h2 : ¬ e ≥ dos33CatMaxEntries := Nat.not_le_of_lt he
  have hneg : ¬ ((0 : Int) < 0) := by decide
  have hsec := h.head_sector c e hf
  have hptr := (sectorPtr_eq_some.1 hl).2
  have hoff {f f' : Nat} (hf : f < 35) (hf' : f' < 35) (hne : f ≠ f') :
      catOffset e f ≠ catOffset e f' := catOffset_ne hf hf' (Or.inr hne)
  -- the sector with the track saved at the end of the name, and the entry marked deleted
  generalize hb1 : (if (v.disk c (catOffset e 0)).toNat = 0xfe then v.disk c
    else setByte (v.disk c) (catOffset e 0x20) (v.disk c (catOffset e 0)).toNat) = b1
  generalize hb : setByte b1 (catOffset e 0) 0xff = b
  have hb1_other {i : Nat} (hi : i ≠ catOffset e 0x20) : b1 i = v.disk c i := by
    rw [← hb1]
    split
    · rfl
    · rw [setByte, Function.update_of_ne hi]
  have hb_other {i : Nat} (h0 : i ≠ catOffset e 0) (h20 : i ≠ catOffset e 0x20) :
      b i = v.disk c i := by
    rw [← hb, setByte, Function.update_of_ne h0, hb1_other h20]
  have hb0 : b (catOffset e 0) = 0xff := by
    rw [← hb, setByte, Function.update_self]
    rfl
  have hrest : ∀ i, ¬ (11 + 35 * e ≤ i ∧ i < 46 + 35 * e) → b i = v.disk c i := by
    intro i hi
    apply hb_other <;> rw [catOffset_eq] <;> omega
  have hunused : ¬ EntryUsed b e := fun hused => hused.2 hb0
  have htrack : (if (v.disk c (catOffset e 0)).toNat = 0xfe then
      (v.disk c (catOffset e 0x20)).toNat else (v.disk c (catOffset e 0)).toNat) =
        (headTrack (v.disk c) e).toNat := by
    rw [headTrack]
    by_cases hfe : v.disk c (catOffset e 0) = 0xfe
    · rw [if_pos hfe, if_pos (by rw [hfe]; rfl)]
    · rw [if_neg hfe, if_neg]
      intro heq
      exact hfe (UInt8.toNat_inj.1 (by rw [heq]; rfl))
  have hsector : b (catOffset e 1) = v.disk c (catOffset e 1) :=
    hb_other (hoff (by decide) (by decide) (by decide)) (hoff (by decide) (by decide) (by decide))
  have hdiv : l / 16 = (headTrack (v.disk c) e).toNat := by omega
  have hmod : l % 16 = (v.disk c (catOffset e 1)).toNat := by omega
  refine ⟨dos33MarkBlocksFree { v with disk := Function.update v.disk c b } (l / 16) (l % 16),
    ?_, ?_⟩
  · simp only [dos33fsDestroyInode, htrunc, if_neg hneg, hn.entry, hn.block, if_neg h1, if_neg h2,
      readBlock_mul, writeBlock_mul, htrack, hb1, hb, hsector, hdiv, hmod]
  · refine ⟨wellFormed_deleteEntry h hf hrest hunused hl, ?_, ?_, ?_, ?_⟩
    · rw [dos33MarkBlocksFree_disk]
      exact touchesOnly_update_entry hrest
    · exact numTracks_congr fun j hj => dos33MarkBlocksFree_vtoc_of_lt _ _ _ hj
    · rw [dos33MarkBlocksFree_disk]
      show Function.update v.disk c b c (catOffset e 0) = 0xff
      rw [Function.update_self, hb0]
    · intro n
      exact freeIn_dos33MarkBlocksFree { v with disk := Function.update v.disk c b } l n

end Destroy

/-! ## Making -/

section Make

variable {v v' : Dos33Volume} {root c e : Nat}

theorem findFreeEntry_eq_some {b : Block} {fuel i j : Nat} (h : findFreeEntry b fuel i = some j) :
    j < i + fuel ∧ ¬ EntryUsed b j := by
  induction fuel generalizing i with
  | zero => cases h
  | succ fuel ih =>
      rw [findFreeEntry] at h
      split at h
      · rename_i hfree
        obtain rfl := Option.some.inj h
        refine ⟨by omega, fun hused => ?_⟩
        rcases hfree with h0 | hff
        · exact hused.1 h0
        · exact hused.2 hff
      · obtain ⟨hlt, hunused⟩ := ih h
        exact ⟨by omega, hunused⟩

theorem findFreeEntry_eq_none {b : Block} {fuel i : Nat} (h : findFreeEntry b fuel i = none)
    {j : Nat} (hij : i ≤ j) (hj : j < i + fuel) : EntryUsed b j := by
  induction fuel generalizing i with
  | zero => omega
  | succ fuel ih =>
      rw [findFreeEntry] at h
      split at h
      · cases h
      · rename_i hused
        rcases Nat.lt_or_eq_of_le hij with hlt | rfl
        · exact ih h hlt (by omega)
        · exact ⟨fun h0 => hused (Or.inl h0), fun hff => hused (Or.inr hff)⟩

/-- On a well-formed volume the catalog has fewer sectors than the disk. -/
theorem catalogAt_eq_none (h : WellFormed v root) : catalogAt v.disk root 800 = none := by
  have hle := h.vtoc.tracks_le
  apply chainAt_eq_none_of_bounded id
  · intro k x hx
    have := (h.range (.catalog k) x hx).2.1
    exact Nat.lt_of_lt_of_le this (by omega)
  · rintro i j x y hx hy rfl
    have heq := h.account.exclusive (.catalog i) (.catalog j) x hx hy
    simpa using heq

/-- The walk along the catalog ends at a free entry, or has seen that there is none. -/
theorem makeInodeLoop_spec (h : WellFormed v root) (fuel : Nat) {k t s : Nat} (ht : t < 256) (hs : s < 256)
    (hk : catalogAt v.disk root k = some (16 * t + s)) (hfuel : 800 < k + fuel)
    (hbefore : ∀ j < k, ∀ c e, catalogAt v.disk root j = some c → e < 7 → EntryUsed (v.disk c) e) :
    (makeInodeLoop v.disk fuel t s = .ok none ∧
      ∀ j c e, catalogAt v.disk root j = some c → e < 7 → EntryUsed (v.disk c) e) ∨
    ∃ t' s' e, makeInodeLoop v.disk fuel t s = .ok (some (t', s', e)) ∧ t' < 256 ∧ s' < 256 ∧
      e < 7 ∧ (∃ j, catalogAt v.disk root j = some (16 * t' + s')) ∧
      ¬ EntryUsed (v.disk (16 * t' + s')) e := by
  induction fuel generalizing k t s with
  | zero =>
      -- the chain is shorter than the rounds
      have hend : catalogAt v.disk root k = none :=
        chainAt_eq_none_of_le (catalogAt_eq_none h) (by omega)
      rw [hend] at hk
      cases hk
  | succ fuel ih =>
      rw [makeInodeLoop, ts_eq]
      simp only [readBlock_mul]
      cases hfind : findFreeEntry (v.disk (16 * t + s)) dos33CatMaxEntries 0 with
      | some i =>
          obtain ⟨hi, hunused⟩ := findFreeEntry_eq_some hfind
          exact Or.inr ⟨t, s, i, rfl, ht, hs, by simpa using hi, ⟨k, hk⟩, hunused⟩
      | none =>
          have hall : ∀ j ≤ k, ∀ c e, catalogAt v.disk root j = some c → e < 7 →
              EntryUsed (v.disk c) e := by
            intro j hj c e hc he
            rcases Nat.lt_or_eq_of_le hj with hlt | rfl
            · exact hbefore j hlt c e hc he
            · rw [hk] at hc
              obtain rfl := Option.some.inj hc
              exact findFreeEntry_eq_none hfind (Nat.zero_le e) (by simpa using he)
          have hnext : catalogAt v.disk root (k + 1) =
              nextSector v.disk (16 * t + s) := by
            rw [catalogAt, chainAt_succ, ← catalogAt, hk, Option.bind_some]
          cases hn : nextSector v.disk (16 * t + s) with
          | none =>
              obtain ⟨h1, h2⟩ := sectorPtr_eq_none.1 hn
              have hzero : (v.disk (16 * t + s) dos33CatNextTrack).toNat = 0 ∧
                  (v.disk (16 * t + s) dos33CatNextSector).toNat = 0 :=
                ⟨toNat_eq_zero.2 h1, toNat_eq_zero.2 h2⟩
              refine Or.inl ⟨if_pos hzero, fun j c e hc he => ?_⟩
              rcases Nat.lt_or_ge k j with hlt | hle
              · have hj : catalogAt v.disk root j = none :=
                  chainAt_eq_none_of_le (hnext.trans hn) hlt
                rw [hj] at hc
                cases hc
              · exact hall j hle c e hc he
          | some m =>
              obtain ⟨hne, rfl⟩ := sectorPtr_eq_some.1 hn
              have hnz : ¬ ((v.disk (16 * t + s) dos33CatNextTrack).toNat = 0 ∧
                  (v.disk (16 * t + s) dos33CatNextSector).toNat = 0) := fun hz =>
                hne ⟨toNat_eq_zero.1 hz.1, toNat_eq_zero.1 hz.2⟩
              rw [if_neg hnz]
              exact ih (UInt8.toNat_lt _) (UInt8.toNat_lt _) (hnext.trans hn) (by omega)
                fun j hj => hall j (Nat.le_of_lt_succ hj)

theorem shiftLeft_or (a : Nat) {b n : Nat} (hb : b < 2 ^ n) : a <<< n ||| b = a * 2 ^ n + b := by
  rw [← Nat.shiftLeft_add_eq_or_of_lt hb, Nat.shiftLeft_eq]

theorem inodeNumber_eq {t s e : Nat} (hs : s < 256) (he : e < 256) :
    inodeNumber t s e = t * 65536 + s * 256 + e := by
  have hsum : (t * 256 + s) * 256 + e = t * 65536 + s * 256 + e := by omega
  have hlow : s <<< 8 < 2 ^ 16 := by
    rw [Nat.shiftLeft_eq]
    omega
  have hmid : t * 65536 + s <<< 8 = (t * 256 + s) <<< 8 := by
    rw [Nat.shiftLeft_eq, Nat.shiftLeft_eq, Nat.add_mul, Nat.mul_assoc]
  calc inodeNumber t s e = (t * 65536 + s <<< 8) ||| e := congrArg (· ||| e) (shiftLeft_or t hlow)
    _ = (t * 256 + s) <<< 8 ||| e := by rw [hmid]
    _ = (t * 256 + s) * 256 + e := shiftLeft_or (n := 8) _ he
    _ = t * 65536 + s * 256 + e := hsum

/-- An inode number names the entry it is made from. -/
theorem names_inodeNumber {t s e : Nat} (ht : t < 256) (hs : s < 256) (he : e < 256) :
    Names (inodeNumber t s e) (16 * t + s) e := by
  have htrack : inodeTrack (inodeNumber t s e) = t := by
    rw [inodeTrack, inodeNumber_eq hs he, and_ff, Nat.shiftRight_eq_div_pow]
    omega
  have hsector : inodeSector (inodeNumber t s e) = s := by
    rw [inodeSector, inodeNumber_eq hs he, and_ff, Nat.shiftRight_eq_div_pow]
    omega
  constructor
  · rw [inodeToBlock, htrack, hsector, ts_eq]
  · rw [inodeEntry, inodeNumber_eq hs he, and_ff]
    omega

/-- The length a binary file keeps behind its address. -/
def diskLength (d : Disk) (c e : Nat) : Nat :=
  (fileByte d c e 2).toNat + 256 * (fileByte d c e 3).toNat

theorem dos33GetFilesize_binary {d : Disk} {number l n : Nat} (hn : Names number c e)
    (hl : tsListAt d c e 0 = some l) (hdata : dataAt d c e 0 = some n) :
    dos33GetFilesize d number 4 = diskLength d c e := by
  have hmask (b : UInt8) : b.toNat &&& 0xff = b.toNat := by
    rw [and_ff]
    exact Nat.mod_eq_of_lt b.toNat_lt
  have hloc : firstDataLocation d number = 256 * n := by
    rw [firstDataLocation_eq hn hl, hdata, Option.getD_some]
  have h2 : fileByte d c e 2 = d n 2 := fileByte_of_some hdata
  have h3 : fileByte d c e 3 = d n 3 := fileByte_of_some hdata
  have hlen : hasLength 4 = true := rfl
  have hab : ¬ (4 = dos33FileTypeI ∨ 4 = dos33FileTypeA) := by decide
  simp only [dos33GetFilesize, hlen, if_true, hloc, readBlock_mul, if_neg hab, hmask]
  rw [diskLength, h2, h3, Nat.or_comm, shiftLeft_or (n := 8) _ (d n 2).toNat_lt]
  omega

/-- Reading the inode of a binary file takes the size from the disk. -/
theorem dos33ReadInode_binary {d : Disk} (inode : Inode) {l n : Nat} (hn : Names inode.number c e)
    (he : e < 7) (htype : fileType d c e = 4) (hl : tsListAt d c e 0 = some l)
    (hdata : dataAt d c e 0 = some n) :
    ∃ mode blocks, dos33ReadInode d inode = (0, dos33InodeDone { inode with
      mode := mode, blocks := blocks, blocksize := 256, size := diskLength d c e }) := by
  have h1 : ¬ (e = 0xff ∨ e = 0xfe) := by omega
  have h2 : ¬ e ≥ dos33CatMaxEntries := Nat.not_le_of_lt he
  have htype' : (d c (catOffset e dos33CatOffsetFileType)).toNat &&& 0x7f = 4 := htype
  simp only [dos33ReadInode, hn.entry, if_neg h1, if_neg h2, hn.block, readBlock_mul, htype',
    dos33GetFilesize_binary hn hl hdata]
  exact ⟨_, _, rfl⟩

/-- What making a file at entry `e` of catalog sector `c` does. -/
structure Made (root c e : Nat) (v v' : Dos33Volume) : Prop where
  catalog : ∃ k, catalogAt v.disk root k = some c
  entry : e < 7
  unused : ¬ EntryUsed (v.disk c) e
  frame : FileFrame root c e v v'
  type : fileType v'.disk c e = 4
  live : IsLive v'.disk c e
  list : ∀ j, 0 < j → tsListAt v'.disk c e j = none
  first : dataAt v'.disk c e 0 ≠ none
  data : ∀ j, 0 < j → dataAt v'.disk c e j = none
  bytes : ∀ p, fileByte v'.disk c e p = 0
  pool : ∀ n, (FreeIn v' n ∨ Owned v'.disk root c e n) ↔ FreeIn v n

/-- The inode of a file just made at entry `e` of catalog sector `c`. -/
structure NewInode (dirInode inode inode' : Inode) (c e : Nat) : Prop where
  names : Names inode'.number c e
  size : inode'.size = 0
  hardLinks : inode'.hardLinks = 1
  sb : inode'.sb = dirInode.sb
  count : inode'.count = inode.count

/-- The catalog sector with a new binary file at entry `e`. -/
def newEntry (b : Block) (e t s : Nat) : Block :=
  setByte (setByte (setByte b (catOffset e 0) t) (catOffset e 1) s) (catOffset e 2) 4

theorem newEntry_fields {b : Block} {e t s : Nat} :
    newEntry b e t s (catOffset e 0) = UInt8.ofNat t ∧
      newEntry b e t s (catOffset e 1) = UInt8.ofNat s ∧ newEntry b e t s (catOffset e 2) = 4 := by
  have hoff {f f' : Nat} (hf : f < 35) (hf' : f' < 35) (hne : f ≠ f') :
      catOffset e f ≠ catOffset e f' := catOffset_ne hf hf' (Or.inr hne)
  refine ⟨?_, ?_, ?_⟩
  · rw [newEntry, setByte, setByte, setByte,
      Function.update_of_ne (hoff (by decide) (by decide) (by decide)),
      Function.update_of_ne (hoff (by decide) (by decide) (by decide)), Function.update_self]
  · rw [newEntry, setByte, setByte, setByte,
      Function.update_of_ne (hoff (by decide) (by decide) (by decide)), Function.update_self]
  · rw [newEntry, setByte, Function.update_self]
    rfl

theorem newEntry_of_not_mem {b : Block} {e t s i : Nat}
    (hi : ¬ (11 + 35 * e ≤ i ∧ i < 46 + 35 * e)) : newEntry b e t s i = b i := by
  have hne {f : Nat} (hf : f < 35) : i ≠ catOffset e f := by
    rw [catOffset_eq]
    omega
  rw [newEntry, setByte, setByte, setByte, Function.update_of_ne (hne (by decide)),
    Function.update_of_ne (hne (by decide)), Function.update_of_ne (hne (by decide))]

/-- The first half of making: the entry with an empty T/S list. -/
theorem newEntry_spec (h : WellFormed v root) (hc : ∃ k, catalogAt v.disk root k = some c)
    (he : e < 7) (hunused : ¬ EntryUsed (v.disk c) e) {t s : Nat} (hs : s < 16)
    (ha : Taken v v' (16 * t + s)) :
    NewEntry { v' with disk := Function.update v'.disk (16 * t + s) fun _ => 0 } root c e
      (16 * t + s) (newEntry (v.disk c) e t s) ∧
    WellFormed { v' with disk := Function.update v'.disk (16 * t + s) fun _ => 0 } root := by
  obtain ⟨k, hk⟩ := hc
  have hm := ha.sameMeta h
  have hspare := ha.spare h
  have hwf := ha.wellFormed h
  have hm' : SameMeta v'.disk (Function.update v'.disk (16 * t + s) fun _ => 0) root :=
    SameMeta.update_unreferenced hspare.loose.1
  have hcat : Function.update v'.disk (16 * t + s) (fun _ => 0) c = v.disk c := by
    rw [hm'.catalog k c (by rw [hm.catalogAt_eq, hk]), hm.catalog k c hk]
  have ht : t < 50 := by
    have h1 := ha.lt
    have h2 := h.vtoc.tracks_le
    omega
  have htpos : 0 < t := by
    have := (h.reserved _ ha.free).1
    omega
  obtain ⟨h0, h1, h2⟩ := @newEntry_fields (v.disk c) e t s
  have htn : (UInt8.ofNat t).toNat = t := by
    rw [UInt8.toNat_ofNat']
    omega
  have hsn : (UInt8.ofNat s).toNat = s := by
    rw [UInt8.toNat_ofNat']
    omega
  have hne (b : UInt8) (hb : b.toNat ≠ t) : newEntry (v.disk c) e t s (catOffset e 0) ≠ b := by
    rw [h0]
    rintro rfl
    exact hb htn
  refine ⟨⟨⟨k, ?_⟩, he, ?_, hspare.update _, Function.update_self _ _ _, ?_, ?_, ?_, ?_⟩,
    wellFormed_update_unreferenced hwf _ hspare.loose.1⟩
  · exact (hm'.catalogAt_eq k).trans ((hm.catalogAt_eq k).trans hk)
  · show ¬ EntryUsed (Function.update v'.disk (16 * t + s) (fun _ => 0) c) e
    rwa [hcat]
  · intro i hi
    show _ = Function.update v'.disk (16 * t + s) (fun _ => 0) c i
    rw [hcat, newEntry_of_not_mem hi]
  · exact ⟨hne 0 (by show (0 : Nat) ≠ t; omega), hne 0xff (by show (255 : Nat) ≠ t; omega)⟩
  · rw [headPtr, headTrack, if_neg (hne 0xfe (by show (254 : Nat) ≠ t; omega)), h0, h1,
      sectorPtr_ofNat (by omega) (by omega), if_neg (by omega)]
  · rw [h1, hsn]
    exact hs

/-- The second half of making: the sector that holds the length. -/
theorem firstSector_spec (h : WellFormed v root) (hf : IsFile v.disk root c e) {number l t s : Nat}
    (hn : Names number c e) (hl : tsListAt v.disk c e 0 = some l) (hempty : v.disk l = fun _ => 0)
    (hdata : ∀ j, dataAt v.disk c e j = none) (hs : s < 16)
    (ha : Taken v v' (16 * t + s)) :
    let d := dos33SetFilesize (Function.update (Function.update v'.disk (16 * t + s) fun _ => 0) l
      (setTsEntry (fun _ => 0) 0 t s)) number 4 0
    FileStep root c e v { v' with disk := d } ∧ SamePool root c e v { v' with disk := d } ∧
      (∀ j, tsListAt d c e j = tsListAt v.disk c e j) ∧
      (∀ j, dataAt d c e j = if j = 0 then some (16 * t + s) else none) ∧
      ∀ p, fileByte d c e p = 0 := by
  intro d
  have hm := ha.sameMeta h
  have hstep := ha.fileStep h hf
  have hl0 : Refers v.disk root (.tsList c e 0) l := ⟨hf, hl⟩
  have hl' : Refers v'.disk root (.tsList c e 0) l := (hm.refers_iff _ _).2 hl0
  have hblock : v'.disk l = fun _ => 0 := (hm.tsList c e 0 l hf hl).trans hempty
  have ht : t < 256 := by
    have h1 := ha.lt
    have h2 := h.vtoc.tracks_le
    omega
  have hne : ¬ (t = 0 ∧ s = 0) := by
    have := (h.reserved _ ha.free).1
    omega
  have hln : 16 * t + s ≠ l := by
    rintro rfl
    exact h.account.busy _ _ hl0 ha.free
  -- the entry first, then the sector: the disk is the same in both orders
  generalize hv1 : ({ v' with disk := Function.update v'.disk l (setTsEntry (v'.disk l) 0 t s) } :
    Dos33Volume) = v1
  have hset : FileStep root c e v' v1 := by
    rw [← hv1]
    exact fileStep_setTsEntry hstep.wf hl' (by decide) ht (by omega) (ha.spare h)
  have hfill : SamePool root c e v v1 := by
    rw [← hv1]
    exact samePool_fill h hl0 (by decide) ht (by omega) ha (hdata _)
  have hdata1 (j : Nat) : dataAt v1.disk c e j = if j = 0 then some (16 * t + s) else none := by
    have key := dataAt_setTsEntry hstep.wf hl' ht (by omega : s < 256) (by decide : 0 < 122) j
    rw [if_neg hne, hm.dataAt_eq hf, hdata] at key
    rw [← hv1]
    exact key
  have hlist1 (j : Nat) : tsListAt v1.disk c e j = tsListAt v.disk c e j := by
    rw [← hv1]
    exact (tsListAt_setTsEntry hstep.wf hl' 0 t s j).trans (hm.tsListAt_eq hf j)
  have hd1 : v1.disk = Function.update v'.disk l (setTsEntry (fun _ => 0) 0 t s) := by
    rw [← hv1, hblock]
  have hn1 : Refers v1.disk root (.data c e 0) (16 * t + s) := ⟨hset.file, by rw [hdata1, if_pos rfl]⟩
  generalize hv2 : ({ v1 with disk := Function.update v1.disk (16 * t + s) fun _ => 0 } :
    Dos33Volume) = v2
  have hm2 : SameMeta v1.disk v2.disk root := by
    rw [← hv2]
    exact SameMeta.update_data hset.wf.account hn1
  have hzero : FileStep root c e v1 v2 := by
    rw [← hv2]
    exact fileStep_update_data hset.wf _ hn1
  have hpool2 : SamePool root c e v1 v2 := by
    rw [← hv2]
    exact samePool_update_data hset.wf _ hn1
  have hdata2 (j : Nat) : dataAt v2.disk c e j = if j = 0 then some (16 * t + s) else none := by
    rw [hm2.dataAt_eq hset.file, hdata1]
  have hbytes2 (p : Nat) : fileByte v2.disk c e p = 0 := by
    have key := fileByte_update_data (b := fun _ => 0) hset.wf.account hn1 p
    rw [← hv2]
    refine key.trans ?_
    by_cases hp : p / 256 = 0
    · rw [if_pos hp]
    · rw [if_neg hp, fileByte_of_none (by rw [hdata1, if_neg hp])]
  have hstep2 := (hstep.trans h hf hset).trans h hf hzero
  have hd : d = dos33SetFilesize v2.disk number 4 0 := by
    show dos33SetFilesize _ number 4 0 = _
    rw [← hv2, hd1, Function.update_comm hln]
  have hl2 : tsListAt v2.disk c e 0 = some l := by
    rw [hm2.tsListAt_eq hset.file, hlist1, hl]
  obtain ⟨hlen, hpool3, hm3, hbytes3⟩ := dos33SetFilesize_spec hstep2.wf hstep2.file hn hl2 4 0
  have hvol : ({ v' with disk := d } : Dos33Volume) =
      { v2 with disk := dos33SetFilesize v2.disk number 4 0 } := by
    rw [hd, ← hv2, ← hv1]
  rw [hvol, hd]
  refine ⟨hstep2.trans h hf hlen, (hfill.trans hpool2).trans hpool3, fun j => ?_, fun j => ?_,
    fun p => ?_⟩
  · exact (hm3.tsListAt_eq hstep2.file j).trans ((hm2.tsListAt_eq hset.file j).trans (hlist1 j))
  · exact (hm3.dataAt_eq hstep2.file j).trans (hdata2 j)
  · refine (hbytes3 rfl (by rw [hdata2]; exact Option.some_ne_none _) p).trans ?_
    rw [hbytes2]
    split_ifs <;> rfl

/-- How `dos33fs_make_inode` gets to its end: at the free entry `e` of catalog sector `c` an
empty T/S list is put into sector `l` and the volume is `v1`; then a first data sector `n` is
taken, from which the volume is `v2`. -/
structure Making (root number c e : Nat) (v v1 v2 : Dos33Volume) (l t s : Nat) : Prop where
  names : Names number c e
  catalog : ∃ k, catalogAt v.disk root k = some c
  entry : e < 7
  unused : ¬ EntryUsed (v.disk c) e
  live : v1.disk c (catOffset e 0) ≠ 0xfe
  type : fileType v1.disk c e = 4
  free : FreeIn v l
  pool : ∀ n, FreeIn v1 n ↔ FreeIn v n ∧ n ≠ l
  frame : FileFrame root c e v v1
  list : ∀ j, tsListAt v1.disk c e j = if j = 0 then some l else none
  data : ∀ j, dataAt v1.disk c e j = none
  empty : v1.disk l = fun _ => 0
  owned : ∀ n, Owned v1.disk root c e n ↔ n = l
  sector : s < 16
  taken : Taken v1 v2 (16 * t + s)

/-- The disk once the first data sector is in the list and its length is written. -/
def makingDisk (d : Disk) (number l t s : Nat) : Disk :=
  dos33SetFilesize (Function.update (Function.update d (16 * t + s) fun _ => 0) l
    (setTsEntry (fun _ => 0) 0 t s)) number 4 0

/-- The first half of `dos33fs_make_inode`. -/
theorem making_of_taken (h : WellFormed v root) (hc : ∃ k, catalogAt v.disk root k = some c)
    (he : e < 7) (hunused : ¬ EntryUsed (v.disk c) e) {number t1 s1 t s : Nat}
    (hnames : Names number c e) (hs1 : s1 < 16) (htaken1 : Taken v v' (16 * t1 + s1))
    {v1 v2 : Dos33Volume}
    (hv1 : v1 = { v' with
      disk := Function.update (Function.update v'.disk (16 * t1 + s1) fun _ => 0) c
        (newEntry (v.disk c) e t1 s1) })
    (hs : s < 16) (htaken : Taken v1 v2 (16 * t + s)) :
    Making root number c e v v1 v2 (16 * t1 + s1) t s := by
  obtain ⟨hnew, hwf⟩ := newEntry_spec h hc he hunused hs1 htaken1
  have hframe := hnew.fileFrame hwf
  have hd1 : v1.disk = Function.update (Function.update v'.disk (16 * t1 + s1) fun _ => 0) c
      (newEntry (v.disk c) e t1 s1) := by rw [hv1]
  have hvtoc1 : v1.vtoc = v'.vtoc := by rw [hv1]
  have hcat1 : v1.disk c = newEntry (v.disk c) e t1 s1 := by rw [hd1, Function.update_self]
  rw [← hv1] at hframe
  have htouches : TouchesOnly v.disk v1.disk root c e := by
    have h1 := htaken1.touchesOnly h c e
    have h2 : TouchesOnly v'.disk (Function.update v'.disk (16 * t1 + s1) fun _ => 0) root c e :=
      touchesOnly_update_unreferenced (htaken1.spare h).loose.1
    exact (h1.trans h2 h.account hc).trans hframe.touches h.account hc
  refine ⟨hnames, hc, he, hunused, ?_, ?_, htaken1.free, ?_, ⟨hframe.wf, hframe.file, htouches, ?_⟩,
    ?_, ?_, ?_, ?_, hs, htaken⟩
  · have hlt := htaken1.lt
    have hle := h.vtoc.tracks_le
    rw [hcat1, newEntry_fields.1]
    intro heq
    have htn : (UInt8.ofNat t1).toNat = 254 := by rw [heq]; rfl
    rw [UInt8.toNat_ofNat'] at htn
    omega
  · rw [fileType, hcat1, newEntry_fields.2.2]
    rfl
  · intro n
    rw [FreeIn, hvtoc1]
    exact htaken1.isFree_iff n
  · rw [hvtoc1, htaken1.tracks]
  · intro j
    rw [hd1]
    exact hnew.tsListAt_eq j
  · intro j
    rw [hd1]
    exact hnew.dataAt_eq j
  · rw [hd1, Function.update_of_ne hnew.ne_catalog]
    exact hnew.empty
  · intro n
    rw [hd1]
    exact hnew.owned_iff n

/-- `dos33fs_make_inode`: without a free entry nothing happens; without two free sectors the
search for one does not end; otherwise it gets to its end. -/
theorem dos33fsMakeInode_cases (h : WellFormed v root) {dirInode : Inode} (inode : Inode)
    (hroot : root = 16 * inodeTrack dirInode.number + inodeSector dirInode.number) :
    (dos33fsMakeInode v dirInode inode = .ok (-e2big, v, inode) ∧
      ∀ j c e, catalogAt v.disk root j = some c → e < 7 → EntryUsed (v.disk c) e) ∨
    (dos33fsMakeInode v dirInode inode = .error .noFreeSector ∧
      ∃ m, ∀ n < 16 * numTracks v.vtoc, FreeIn v n → n = m) ∨
    ∃ number c e v1 v2 l t s, Making root number c e v v1 v2 l t s ∧
      dos33fsMakeInode v dirInode inode =
        let r := dos33ReadInode (makingDisk v2.disk number l t s)
          { inode with number := number, sb := dirInode.sb }
        .ok (r.1, { v2 with disk := makingDisk v2.disk number l t s }, r.2) := by
  rcases makeInodeLoop_spec (k := 0) h chainRounds (inodeTrack_lt dirInode.number)
    (inodeSector_lt dirInode.number) (congrArg some hroot)
    (by decide) (fun j hj => absurd hj (Nat.not_lt_zero j)) with
      ⟨hloop, hall⟩ | ⟨t, s, e, hloop, ht, hs, he, hc, hunused⟩
  · left
    refine ⟨?_, hall⟩
    simp only [dos33fsMakeInode, hloop]
  · right
    have hnames : Names (inodeNumber t s e) (16 * t + s) e := names_inodeNumber ht hs (by omega)
    generalize hnum : inodeNumber t s e = number at hnames
    generalize hcat : 16 * t + s = c at hc hunused hnames
    rcases dos33AllocateSector_cases v with herr | ⟨t1, s1, v', ha1⟩
    · -- no free sector at all
      left
      refine ⟨?_, 0, fun n hn hfree => ?_⟩
      · simp only [dos33fsMakeInode, hloop, herr]
      · rw [FreeIn, (dos33AllocateSector_eq_error_iff h.vtoc).1 herr n hn] at hfree
        cases hfree
    · obtain ⟨hs1, htaken1⟩ := dos33AllocateSector_taken h.vtoc ha1
      obtain ⟨hnew, hwf⟩ := newEntry_spec h hc he hunused hs1 htaken1
      have hframe := hnew.fileFrame hwf
      generalize hv1 : ({ v' with
        disk := Function.update (Function.update v'.disk (16 * t1 + s1) fun _ => 0) c
          (newEntry (v.disk c) e t1 s1) } : Dos33Volume) = v1 at hframe
      have hvtoc1 : v1.vtoc = v'.vtoc := by rw [← hv1]
      -- the entry as the code writes it, field by field
      have hentry : setByte (setByte (setByte (v.disk c) (catOffset e dos33CatOffsetFirstT) t1)
          (catOffset e dos33CatOffsetFirstS) s1) (catOffset e dos33CatOffsetFileType)
            dos33FileTypeB = newEntry (v.disk c) e t1 s1 := rfl
      rcases dos33AllocateSector_cases v1 with herr | ⟨t2, s2, v2, ha2⟩
      · -- the T/S list has taken the only free sector
        left
        refine ⟨?_, 16 * t1 + s1, fun n hn hfree => ?_⟩
        · simp only [dos33fsMakeInode, hloop, ha1, dos33ZeroOutSector, ts_eq, hcat, writeBlock_mul,
            readBlock_mul, hentry, hv1, herr]
        · by_contra hne
          have hfree1 : FreeIn v1 n := by
            rw [FreeIn, hvtoc1]
            exact (htaken1.isFree_iff n).2 ⟨hfree, hne⟩
          have hnone := (dos33AllocateSector_eq_error_iff hframe.wf.vtoc).1 herr n
            (by rw [hvtoc1, htaken1.tracks]; exact hn)
          rw [FreeIn, hnone] at hfree1
          cases hfree1
      · right
        obtain ⟨hs2, htaken2⟩ := dos33AllocateSector_taken hframe.wf.vtoc ha2
        refine ⟨number, c, e, v1, v2, 16 * t1 + s1, t2, s2,
          making_of_taken h hc he hunused hnames hs1 htaken1 hv1.symm hs2 htaken2, ?_⟩
        simp only [dos33fsMakeInode, hloop, ha1, dos33ZeroOutSector, ts_eq, hcat, writeBlock_mul,
          readBlock_mul, hentry, hv1, ha2, hnum]
        rfl

/-- A file made is a new empty file of its own. -/
theorem Making.made {number l t s : Nat} {v1 v2 : Dos33Volume} (h : WellFormed v root)
    (hm : Making root number c e v v1 v2 l t s) (dirInode inode : Inode) :
    ∃ inode', NewInode dirInode inode inode' c e ∧
      Made root c e v { v2 with disk := makingDisk v2.disk number l t s } ∧
      dos33ReadInode (makingDisk v2.disk number l t s)
        { inode with number := number, sb := dirInode.sb } = (0, inode') := by
  have hframe := hm.frame
  obtain ⟨hstep, hpool, hlists, hdata, hbytes⟩ := firstSector_spec hframe.wf hframe.file hm.names
    (by rw [hm.list, if_pos rfl]) hm.empty hm.data hm.sector hm.taken
  generalize hd : dos33SetFilesize _ number 4 0 = d at hstep hpool hlists hdata hbytes
  have hd' : makingDisk v2.disk number l t s = d := hd
  rw [hd']
  have hlist0 : tsListAt d c e 0 = some l := by rw [hlists, hm.list, if_pos rfl]
  obtain ⟨mode, blocks, hread⟩ := dos33ReadInode_binary (d := d) { inode with
    number := number, sb := dirInode.sb } hm.names hm.entry (by rw [hstep.entry.type, hm.type])
    hlist0 (by rw [hdata, if_pos rfl])
  have hlength : diskLength d c e = 0 := by
    rw [diskLength, hbytes, hbytes]
    rfl
  rw [hlength] at hread
  refine ⟨dos33InodeDone { inode with number := number, sb := dirInode.sb, mode := mode
                                      blocks := blocks, blocksize := 256, size := 0 },
    ⟨hm.names, rfl, rfl, rfl, rfl⟩, ⟨hm.catalog, hm.entry, hm.unused,
      ⟨hstep.wf, hstep.file, ?_, ?_⟩, ?_, ?_, ?_, ?_, ?_, hbytes, ?_⟩, hread⟩
  · exact hframe.touches.trans hstep.touches h.account hm.catalog
  · rw [hstep.tracks, hframe.tracks]
  · rw [hstep.entry.type, hm.type]
  · rw [IsLive, hstep.entry.bytes 0 (by decide) (by decide)]
    exact hm.live
  · intro j hj
    rw [hlists, hm.list, if_neg (by omega)]
  · rw [hdata, if_pos rfl]
    exact Option.some_ne_none _
  · intro j hj
    rw [hdata, if_neg (by omega)]
  · intro n
    rw [hpool n, hm.owned, hm.pool]
    constructor
    · rintro (⟨hfree, -⟩ | rfl)
      · exact hfree
      · exact hm.free
    · intro hfree
      by_cases heq : n = l
      · exact Or.inr heq
      · exact Or.inl ⟨hfree, heq⟩

/-- `dos33fs_make_inode`: without a free entry nothing happens; without two free
sectors the search for one does not end; otherwise a new empty file is made. -/
theorem dos33fsMakeInode_spec (h : WellFormed v root) {dirInode : Inode} (inode : Inode)
    (hroot : root = 16 * inodeTrack dirInode.number + inodeSector dirInode.number) :
    (dos33fsMakeInode v dirInode inode = .ok (-e2big, v, inode) ∧
      ∀ j c e, catalogAt v.disk root j = some c → e < 7 → EntryUsed (v.disk c) e) ∨
    (dos33fsMakeInode v dirInode inode = .error .noFreeSector ∧
      ∃ m, ∀ n < 16 * numTracks v.vtoc, FreeIn v n → n = m) ∨
    ∃ c e v' inode', NewInode dirInode inode inode' c e ∧ Made root c e v v' ∧
      dos33fsMakeInode v dirInode inode = .ok (0, v', inode') := by
  rcases dos33fsMakeInode_cases h inode hroot with hfull | hnone |
    ⟨number, c, e, v1, v2, l, t, s, hmaking, hmake⟩
  · exact Or.inl hfull
  · exact Or.inr (Or.inl hnone)
  · obtain ⟨inode', hnew, hmade, hread⟩ := hmaking.made h dirInode inode
    refine Or.inr (Or.inr ⟨c, e, _, inode', hnew, hmade, ?_⟩)
    rw [hmake]
    simp only [hread]

end Make

end Vmwos
