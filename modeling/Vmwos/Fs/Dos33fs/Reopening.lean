import Vmwos.Fs.Dos33fs.SectorOwnership

/-!
# Looking files up again

The size of a file is kept twice, in its in-core inode and in two bytes of its first
data sector. As long as every call keeps its walk in the first T/S list and leaves a
size that fits in the two bytes, discarding the inodes loses nothing: the catalog finds
the same entries under the same names (`SameNames`), and an inode read afresh has the
same size and reads the same bytes (`Store.run_reopen`). A size of 65536 is accepted and
read back as 0 (`Store.run_forgetsSize`).
-/

set_option autoImplicit false

namespace Vmwos

open Library

/-! ## Names in the catalog -/

/-- The catalog has the same links, and its entries the same names and first bytes. -/
structure SameNames (d d' : Disk) (root : Nat) : Prop where
  link : ∀ k n, catalogAt d root k = some n → d' n 1 = d n 1 ∧ d' n 2 = d n 2
  entry : ∀ k n e f, catalogAt d root k = some n → e < 7 → (f = 0 ∨ 3 ≤ f ∧ f < 0x21) →
    d' n (catOffset e f) = d n (catOffset e f)

section Names

variable {d d' d'' : Disk} {root : Nat}

theorem SameNames.refl (d : Disk) (root : Nat) : SameNames d d root :=
  ⟨fun _ _ _ => ⟨rfl, rfl⟩, fun _ _ _ _ _ _ _ => rfl⟩

theorem SameNames.catalogAt_eq (h : SameNames d d' root) (k : Nat) :
    catalogAt d' root k = catalogAt d root k :=
  catalogAt_congr h.link k

theorem SameNames.trans (h : SameNames d d' root) (h' : SameNames d' d'' root) :
    SameNames d d'' root where
  link k n hk := by
    obtain ⟨h1, h2⟩ := h.link k n hk
    obtain ⟨h1', h2'⟩ := h'.link k n (by rw [h.catalogAt_eq, hk])
    exact ⟨h1'.trans h1, h2'.trans h2⟩
  entry k n e f hk he hf := by
    rw [h'.entry k n e f (by rw [h.catalogAt_eq, hk]) he hf, h.entry k n e f hk he hf]

/-- A step on one file that keeps its entry keeps all names. -/
theorem FileStep.sameNames {v v' : Dos33Volume} {c e : Nat} (hs : FileStep root c e v v') :
    SameNames v.disk v'.disk root where
  link k n hk :=
    ⟨hs.touches (.catalog k) n 1 hk (by simp [SectorUse.file]) (by omega),
      hs.touches (.catalog k) n 2 hk (by simp [SectorUse.file]) (by omega)⟩
  entry k n e' f hk he hf := by
    by_cases hne : (n, e') = (c, e)
    · obtain ⟨rfl, rfl⟩ := Prod.mk.inj hne
      exact hs.entry.bytes f (by omega) (by omega)
    · exact hs.touches.entry_eq ⟨k, hk⟩ hne (by omega)

theorem decodeFilename_congr {b b' : Block} {e : Nat}
    (h : ∀ f, 3 ≤ f ∧ f < 0x21 → b' (catOffset e f) = b (catOffset e f)) :
    decodeFilename b' e = decodeFilename b e := by
  have hraw : ((List.range dos33MaxFilenameSize).map fun i =>
      b' (catOffset e dos33CatOffsetFileName + i)) =
        (List.range dos33MaxFilenameSize).map fun i => b (catOffset e dos33CatOffsetFileName + i) := by
    apply List.map_congr_left
    intro i hi
    have hlt : i < 30 := List.mem_range.1 hi
    have hpos : catOffset e dos33CatOffsetFileName + i = catOffset e (3 + i) := by
      show catOffset e 3 + i = catOffset e (3 + i)
      rw [catOffset_eq, catOffset_eq]
      omega
    rw [hpos]
    exact h (3 + i) (by omega)
  rw [decodeFilename, hraw, decodeFilename]

theorem findInSector_congr {b b' : Block} {name : CString} (fuel : Nat) {i : Nat}
    (hi : i + fuel ≤ 7)
    (h : ∀ e f, e < 7 → (f = 0 ∨ 3 ≤ f ∧ f < 0x21) → b' (catOffset e f) = b (catOffset e f)) :
    findInSector b' name fuel i = findInSector b name fuel i := by
  induction fuel generalizing i with
  | zero => rfl
  | succ fuel ih =>
      have hfirst : b' (catOffset i dos33CatOffsetFirstT) = b (catOffset i dos33CatOffsetFirstT) :=
        h i 0 (by omega) (Or.inl rfl)
      have hname : decodeFilename b' i = decodeFilename b i :=
        decodeFilename_congr fun f hf => h i f (by omega) (Or.inr hf)
      rw [findInSector, findInSector, hfirst, hname, ih (by omega)]

theorem findFilenameLoop_congr (h : SameNames d d' root) (name : CString) (fuel : Nat) {k t s : Nat}
    (hk : catalogAt d root k = some (16 * t + s)) :
    findFilenameLoop d' name fuel t s = findFilenameLoop d name fuel t s := by
  induction fuel generalizing k t s with
  | zero => rfl
  | succ fuel ih =>
      obtain ⟨h1, h2⟩ := h.link k _ hk
      have hfind : findInSector (d' (16 * t + s)) name dos33CatMaxEntries 0 =
          findInSector (d (16 * t + s)) name dos33CatMaxEntries 0 :=
        findInSector_congr _ (by decide) fun e f he hf => h.entry k _ e f hk he hf
      simp only [findFilenameLoop, ts_eq, readBlock_mul, hfind, h1, h2]
      cases findInSector (d (16 * t + s)) name dos33CatMaxEntries 0 with
      | some i => rfl
      | none =>
          have hnext : catalogAt d root (k + 1) = nextSector d (16 * t + s) := by
            rw [catalogAt, chainAt_succ, ← catalogAt, hk, Option.bind_some]
          by_cases hz : (d (16 * t + s) dos33CatNextTrack).toNat = 0 ∧
              (d (16 * t + s) dos33CatNextSector).toNat = 0
          · rw [if_pos hz, if_pos hz]
          · rw [if_neg hz, if_neg hz]
            apply ih (k := k + 1)
            rw [hnext, nextSector, sectorPtr, if_neg]
            intro h0
            exact hz ⟨toNat_eq_zero.2 h0.1, toNat_eq_zero.2 h0.2⟩

/-- A lookup in the directory finds the same entry. -/
theorem SameNames.dos33LookupInodeDir_eq (h : SameNames d d' root) {dirNumber : Nat}
    (hroot : root = 16 * inodeTrack dirNumber + inodeSector dirNumber) (name : CString) :
    dos33LookupInodeDir d' dirNumber name = dos33LookupInodeDir d dirNumber name := by
  have hloop := findFilenameLoop_congr h name chainRounds (k := 0) (congrArg some hroot)
  rw [dos33LookupInodeDir, dos33LookupInodeDir, dos33fsFindFilename, dos33fsFindFilename, hloop]

end Names

/-! ## Sizes in core and on disk -/

/-- Every in-core inode is as if it had just been looked up: it names a binary file of
the volume and has the size that the file keeps, and no two name the same file. -/
structure Opened (root : Nat) (s : Store) : Prop where
  wf : WellFormed s.volume root
  size : ∀ f inode, s.inode f = some inode → ∃ c e, Names inode.number c e ∧
    IsBinary s.volume.disk root c e ∧ inode.size = diskLength s.volume.disk c e
  distinct : ∀ f f' inode inode' c e, s.inode f = some inode → s.inode f' = some inode' →
    Names inode.number c e → Names inode'.number c e → f = f'

/-- Reading, or changing the contents within the first list. -/
def StaysTransfer (root : Nat) (s : Store) (op : FileOp) : Prop :=
  Stays root s op ∧
    ((∃ f buf offset, op = .write f buf offset) ∨ (∃ f count offset, op = .read f count offset) ∨
      ∃ f size, op = .truncate f size)

section Opened

variable {root : Nat} {dirInode : Inode} {s s' : Store}

/-- Another file keeps its type, its first sector and its length. -/
theorem TouchesOnly.diskLength_eq {d d' : Disk} {c e c' e' : Nat} {free : Nat → Prop}
    (ht : TouchesOnly d d' root c e) (hacc : Account (Refers d root) free)
    (hc : ∃ k, catalogAt d root k = some c) (hb : IsBinary d root c' e') (hne : (c', e') ≠ (c, e)) :
    IsBinary d' root c' e' ∧ diskLength d' c' e' = diskLength d c' e' := by
  have hbyte := ht.fileByte_eq hacc hc hb.file hne
  refine ⟨⟨(ht.isFile_iff hne).2 hb.file, ?_, ?_⟩, ?_⟩
  · rw [fileType, ht.entry_eq hb.file.catalog hne (by decide)]
    exact hb.type
  · rw [ht.dataAt_eq hacc hc hb.file hne]
    exact hb.first
  · rw [diskLength, diskLength, hbyte, hbyte]

/-- A change of one file, which is given an inode of its length. -/
theorem Opened.update (h : Opened root s) {f : Nat} {inode : Inode} {c e : Nat} {v : Dos33Volume}
    (hwf : WellFormed v root) (hc : ∃ k, catalogAt s.volume.disk root k = some c)
    (ht : TouchesOnly s.volume.disk v.disk root c e) (hn : Names inode.number c e)
    (hb : IsBinary v.disk root c e) (hlen : inode.size = diskLength v.disk c e)
    (hother : ∀ f' inode', s.inode f' = some inode' → f' ≠ f → ¬ Names inode'.number c e) :
    Opened root ⟨v, Function.update s.inode f (some inode)⟩ where
  wf := hwf
  size f' inode' hi := by
    by_cases hf : f' = f
    · subst hf
      simp only [Function.update_self, Option.some.injEq] at hi
      subst hi
      exact ⟨c, e, hn, hb, hlen⟩
    · simp only [Function.update_of_ne hf] at hi
      obtain ⟨c', e', hn', hb', hlen'⟩ := h.size f' inode' hi
      have hne : (c', e') ≠ (c, e) := by
        intro heq
        obtain ⟨rfl, rfl⟩ := Prod.mk.inj heq
        exact hother f' inode' hi hf hn'
      obtain ⟨hb'', hlen''⟩ := ht.diskLength_eq h.wf.account hc hb' hne
      exact ⟨c', e', hn', hb'', hlen'.trans hlen''.symm⟩
  distinct f₁ f₂ inode₁ inode₂ c' e' h₁ h₂ hn₁ hn₂ := by
    -- an inode that names the entry of the new one is the new one
    have hnew : ∀ f' inode', Function.update s.inode f (some inode) f' = some inode' →
        Names inode'.number c e → f' = f := by
      intro f' inode' hi hn'
      by_contra hf
      rw [Function.update_of_ne hf] at hi
      exact hother f' inode' hi hf hn'
    by_cases hce : (c', e') = (c, e)
    · obtain ⟨rfl, rfl⟩ := Prod.mk.inj hce
      rw [hnew f₁ inode₁ h₁ hn₁, hnew f₂ inode₂ h₂ hn₂]
    · have hold : ∀ f' inode', Function.update s.inode f (some inode) f' = some inode' →
          Names inode'.number c' e' → s.inode f' = some inode' := by
        intro f' inode' hi hn'
        by_cases hf : f' = f
        · subst hf
          simp only [Function.update_self, Option.some.injEq] at hi
          subst hi
          exact absurd (hn'.unique hn) hce
        · rwa [Function.update_of_ne hf] at hi
      exact h.distinct f₁ f₂ inode₁ inode₂ c' e' (hold f₁ inode₁ h₁ hn₁) (hold f₂ inode₂ h₂ hn₂)
        hn₁ hn₂

/-- What keeps the length of a file in step keeps the sizes. -/
theorem Opened.keep (h : Opened root s) {f : Nat} {inode : Inode} {c e size : Nat}
    (hd : Denotes root s f inode c e)
    (hinode : s'.inode = Function.update s.inode f (some { inode with size := size }))
    (hkeeps : Keeps root c e s.volume s'.volume inode.size size) : Opened root s' := by
  obtain ⟨v', inodes'⟩ := s'
  obtain rfl : inodes' = _ := hinode
  obtain ⟨c₀, e₀, hn, hb, hlen⟩ := h.size f inode hd.held
  obtain ⟨rfl, rfl⟩ := Prod.mk.inj (hd.names.unique hn)
  refine h.update hkeeps.step.wf hb.file.catalog hkeeps.step.touches hn ?_
    (hkeeps.length hb.type hb.first hlen.symm).symm ?_
  · refine ⟨hkeeps.step.file, hkeeps.step.entry.type.trans hb.type, ?_⟩
    rw [hkeeps.first hb.type hb.first]
    exact hb.first
  · intro f' inode' hi hf hn'
    exact hf (h.distinct f' f inode' inode c e hi hd.held hn' hn)

/-- A file just made is of size 0 in core and on disk. -/
theorem Opened.make (h : Opened root s)
    (hroot : root = 16 * inodeTrack dirInode.number + inodeSector dirInode.number) {f : Nat}
    {inode : Inode} (hstep : s.step dirInode (.make f inode) = .ok (.result 0, s')) :
    Opened root s' := by
  obtain ⟨inode', c, e, hinode, hd, hnew, hmade⟩ := Store.make_denotes h.wf hroot hstep
  obtain ⟨v', inodes'⟩ := s'
  obtain rfl : inodes' = _ := hinode
  refine h.update hmade.frame.wf hmade.catalog hmade.frame.touches hnew.names
    ⟨hmade.frame.file, hmade.type, hmade.first⟩ ?_ ?_
  · rw [hnew.size, diskLength, hmade.bytes, hmade.bytes]
    rfl
  · -- the entry was unused, and open files have used ones
    intro f' inode'' hi _ hn'
    obtain ⟨c', e', hn, hb, -⟩ := h.size f' inode'' hi
    obtain ⟨rfl, rfl⟩ := Prod.mk.inj (hn'.unique hn)
    exact hmade.unused hb.file.used

/-- One call keeps the sizes in step, the names, and the files behind the inodes. -/
theorem Store.step_opened (h : Opened root s) {op : FileOp} {r : Reply}
    (hstays : StaysTransfer root s op) (hstep : s.step dirInode op = .ok (r, s')) :
    Opened root s' ∧ SameNames s.volume.disk s'.volume.disk root := by
  obtain ⟨hst, ⟨f, buf, offset, rfl⟩ | ⟨f, count, offset, rfl⟩ | ⟨f, size, rfl⟩⟩ := hstays
  · obtain ⟨inode, c, e, hd, hw⟩ := hst
    obtain ⟨hinode, hkeeps⟩ := hd.write h.wf hw hstep
    exact ⟨h.keep hd hinode hkeeps, hkeeps.step.sameNames⟩
  · cases Store.returns_of_step hstep with
    | read => exact ⟨h, SameNames.refl _ root⟩
  · obtain ⟨inode, c, e, hd, ht⟩ := hst
    obtain ⟨hinode, hkeeps⟩ := hd.truncate h.wf ht hstep
    exact ⟨h.keep hd hinode hkeeps, hkeeps.step.sameNames⟩

/-- An inode read afresh from the disk has the size of the one in core. -/
theorem Opened.dos33ReadInode_eq (h : Opened root s) {f : Nat} {inode : Inode}
    (hi : s.inode f = some inode) {fresh : Inode} (hnum : fresh.number = inode.number) :
    ∃ again, dos33ReadInode s.volume.disk fresh = (0, again) ∧ again.number = inode.number ∧
      again.size = inode.size := by
  obtain ⟨c, e, hn, hb, hlen⟩ := h.size f inode hi
  obtain ⟨l, hl⟩ := h.wf.exists_tsList hb.file
  obtain ⟨n, hdata⟩ := Option.ne_none_iff_exists'.1 hb.first
  obtain ⟨mode, blocks, hread⟩ :=
    dos33ReadInode_binary fresh (hnum ▸ hn) hb.file.entry hb.type hl hdata
  exact ⟨_, hread, hnum, hlen.symm⟩

/-- The contents that are read depend on the number and the size of the inode. -/
theorem dos33fsReadFile_congr (d : Disk) {inode inode' : Inode}
    (hnum : inode'.number = inode.number) (hsize : inode'.size = inode.size) (count offset : Nat) :
    dos33fsReadFile d inode' count offset = dos33fsReadFile d inode count offset := by
  rw [dos33fsReadFile, dos33fsReadFile, hnum, hsize]

end Opened

/-! ## Runs -/

section Run

variable {root : Nat} {dirInode : Inode} {s s' : Store}

theorem Store.run_opened (h : Opened root s) {ops : List FileOp}
    (hstays : Along (Store.step dirInode) (StaysTransfer root) s ops) {rs : List Reply}
    (hrun : Store.run dirInode s ops = .ok (rs, s')) :
    Opened root s' ∧ SameNames s.volume.disk s'.volume.disk root := by
  refine run_preserves (fun s₁ => Opened root s₁ ∧ SameNames s.volume.disk s₁.volume.disk root)
    ?_ ⟨h, SameNames.refl _ root⟩ hstays hrun
  rintro s₁ op r s₂ ⟨hopened, hnames⟩ hst hstep
  obtain ⟨hopened', hnames'⟩ := Store.step_opened hopened hst hstep
  exact ⟨hopened', hnames.trans hnames'⟩

/-- After writing and truncating, the files are found under the same names, and inodes
read afresh have the same sizes and read the same bytes. -/
theorem Store.run_reopen (h : Opened root s)
    (hroot : root = 16 * inodeTrack dirInode.number + inodeSector dirInode.number)
    {ops : List FileOp} (hstays : Along (Store.step dirInode) (StaysTransfer root) s ops)
    {rs : List Reply} (hrun : Store.run dirInode s ops = .ok (rs, s')) :
    (∀ name, dos33LookupInodeDir s'.volume.disk dirInode.number name =
      dos33LookupInodeDir s.volume.disk dirInode.number name) ∧
    ∀ f inode fresh, s'.inode f = some inode → fresh.number = inode.number →
      ∃ again, dos33ReadInode s'.volume.disk fresh = (0, again) ∧ again.size = inode.size ∧
        ∀ count offset, dos33fsReadFile s'.volume.disk again count offset =
          dos33fsReadFile s'.volume.disk inode count offset := by
  obtain ⟨hopened, hnames⟩ := Store.run_opened h hstays hrun
  refine ⟨fun name => hnames.dos33LookupInodeDir_eq hroot name, ?_⟩
  intro f inode fresh hi hnum
  obtain ⟨again, hread, hnumber, hsize⟩ := hopened.dos33ReadInode_eq hi hnum
  exact ⟨again, hread, hsize, fun count offset => dos33fsReadFile_congr _ hnumber hsize count offset⟩

/-- A file made on a blank volume, written and grown past its first list. -/
theorem Store.run_reopen_blankStore :
    ∃ s rs s', blankStore.step blankDirInode (.make 0 Inode.zeroed) = .ok (.result 0, s) ∧
      Store.run blankDirInode s [.write 0 [1, 2, 3] 300, .truncate 0 40000] = .ok (rs, s') ∧
      (∀ name, dos33LookupInodeDir s'.volume.disk blankDirInode.number name =
        dos33LookupInodeDir s.volume.disk blankDirInode.number name) ∧
      ∀ f inode fresh, s'.inode f = some inode → fresh.number = inode.number →
        ∃ again, dos33ReadInode s'.volume.disk fresh = (0, again) ∧ again.size = inode.size ∧
          ∀ count offset, dos33fsReadFile s'.volume.disk again count offset =
            dos33fsReadFile s'.volume.disk inode count offset := by
  obtain ⟨s, hmake⟩ := blankStore_make
  have hblank : Opened blankRoot blankStore := by
    refine ⟨blankVolume_wellFormed, ?_, ?_⟩
    · intro f inode hi
      cases hi
    · intro f f' inode inode' c e hi
      cases hi
  have hopened : Opened blankRoot s := hblank.make blankRoot_eq hmake
  obtain ⟨inode, c, e, -, hd, hnew, hmade⟩ :=
    Store.make_denotes blankVolume_wellFormed blankRoot_eq hmake
  have hstays : Along (Store.step blankDirInode) (StaysTransfer blankRoot) s
      [.write 0 [1, 2, 3] 300, .truncate 0 40000] := by
    have hzero := endSector_zero_lt s.volume.disk c e
    have hw : WriteStays s.volume.disk c e inode.size 300 [(1 : UInt8), 2, 3].length := by
      rw [hnew.size]
      exact ⟨by decide, fun _ => Or.inl hzero, by rw [hmade.type]; decide⟩
    refine ⟨⟨⟨inode, c, e, hd, hw⟩, Or.inl ⟨_, _, _, rfl⟩⟩, fun r s₁ hstep => ⟨⟨?_,
      Or.inr (Or.inr ⟨_, _, rfl⟩)⟩, fun _ _ _ => trivial⟩⟩
    · -- the second call, on what the first leaves
      obtain ⟨hinode, hkeeps⟩ := hd.write hopened.wf hw hstep
      have hsize : max inode.size (300 + [(1 : UInt8), 2, 3].length) = 303 := by
        rw [hnew.size]
        rfl
      rw [hsize] at hinode hkeeps
      refine ⟨_, c, e, hd.of_keeps hinode hkeeps, by decide, fun hlt => ?_, fun _ => Or.inl ?_⟩
      · exact absurd (show 40000 < 303 from hlt) (by decide)
      · rw [endSector, hkeeps.step.entry.type, hmade.type]
        exact (by decide : (303 + headerLength 4) / 256 < 122)
  have hok : ((Store.run blankDirInode blankStore
      [.make 0 Inode.zeroed, .write 0 [1, 2, 3] 300, .truncate 0 40000]).map (·.1)) =
        .ok [.result 0, .written 3 303, .result 0] := by
    decide
  obtain ⟨⟨rs, s'⟩, hrun, -⟩ := map_eq_ok.1 hok
  obtain ⟨r, s₁, rs', hmake', hrest, -⟩ := run_cons_eq_ok.1 hrun
  rw [hmake, Except.ok.injEq, Prod.mk.injEq] at hmake'
  obtain ⟨rfl, rfl⟩ := hmake'
  exact ⟨s, rs', s', hmake, hrest, Store.run_reopen hopened blankRoot_eq hstays hrest⟩

/-- A size of 65536 is accepted, and read back as 0. -/
theorem Store.run_forgetsSize :
    ∃ s' inode, Store.run blankDirInode blankStore
        [.make 0 Inode.zeroed, .truncate 0 65536] = .ok ([.result 0, .result 0], s') ∧
      s'.inode 0 = some inode ∧ inode.size = 65536 ∧
      ∃ again, dos33ReadInode s'.volume.disk { Inode.zeroed with number := inode.number } =
        (0, again) ∧ again.size = 0 := by
  have hrun : (Store.run blankDirInode blankStore
      [.make 0 Inode.zeroed, .truncate 0 65536]).map (fun q =>
        (q.1, (q.2.inode 0).map fun inode =>
          let again := dos33ReadInode q.2.volume.disk { Inode.zeroed with number := inode.number }
          (inode.size, again.1, again.2.size))) =
      .ok ([.result 0, .result 0], some (65536, 0, 0)) := by
    decide +kernel
  obtain ⟨⟨rs, s'⟩, heq, hobs⟩ := map_eq_ok.1 hrun
  simp only [Prod.mk.injEq] at hobs
  obtain ⟨rfl, hobs⟩ := hobs
  obtain ⟨inode, hi, hsizes⟩ := Option.map_eq_some_iff.1 hobs
  simp only [Prod.mk.injEq] at hsizes
  obtain ⟨hsize, hr, hagain⟩ := hsizes
  exact ⟨s', inode, heq, hi, hsize, _, Prod.ext hr rfl, hagain⟩

end Run

end Vmwos
