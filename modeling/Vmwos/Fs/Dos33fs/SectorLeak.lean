import Vmwos.Fs.Dos33fs.SectorOwnership

/-!
# Destroying a file never returns its sectors exactly

Destroying truncates the file to nothing and frees its first T/S list. The truncation
keeps the first data sector, which holds the length, and nothing frees it afterwards.
When the file had grown past its first list, the truncation leaves that list for the
next sector of the catalog, which it marks free, or stops with an error at the end of
the catalog. So whatever was done to a new file in between, the free sectors after
destroying it are not those from before it was made (`Store.run_leaks`).
-/

set_option autoImplicit false

namespace Vmwos

open Library

section Destroy

variable {v v' v'' : Dos33Volume} {inode inode' : Inode} {root c e : Nat}

/-- Shrinking a file that has grown past its first list, to a size within it: either the
catalog ends here, and the first list is marked free although the file keeps it, or the
next sector of the catalog is marked free. -/
theorem dos33fsShrinkFile_cross (h : WellFormed v root) (hf : IsFile v.disk root c e)
    (hn : Names inode.number c e) {size : Nat} (hsize : size ≤ inode.size)
    (hlt : inode.size < 65536) (hstart : endSector v.disk c e size < 122)
    (hout : 122 ≤ endSector v.disk c e inode.size) {l : Nat} (hl : tsListAt v.disk c e 0 = some l)
    {r : Int} (hok : dos33fsShrinkFile v inode size = .ok (r, v', inode')) :
    (r = -enoent ∧ ∃ v₁, ShrinkEffect root c e v v₁ (size + headerLength (fileType v.disk c e)) 121 ∧
      ∀ n, FreeIn v' n ↔ n = l ∨ FreeIn v₁ n) ∨
    ∃ n, nextSector v.disk c = some n ∧ FreeIn v' n := by
  have hhdr := headerLength_le (fileType v.disk c e)
  have hl0 : l ≠ 0 := by
    have := (h.range (.tsList c e 0) l ⟨hf, hl⟩).1
    omega
  have hwalk := advanceTs_catalog hn hl hl0 0
  have hlast : int32 ((uint64 (inode.size + headerLength (fileType v.disk c e)) /
      dos33BlockSize : Nat) : Int) = (endSector v.disk c e inode.size : Int) :=
    int32_sector (by omega)
  rw [endSector] at hstart
  generalize hx : size + headerLength (fileType v.disk c e) = x at hstart ⊢
  generalize endSector v.disk c e inode.size = last at hout hlast
  have hx32 : uint32 x = x := uint32_of_lt (by omega)
  have hdiv : x / dos33BlockSize / dos33MaxTsEntries + 1 = 1 :=
    (by omega : x / 256 / 122 + 1 = 1)
  have hmod : x / dos33BlockSize % dos33MaxTsEntries = x / 256 :=
    (by omega : x / 256 % 122 = x / 256)
  obtain ⟨fuel', v₁, w', heff, hw', hnt, hns, hloop⟩ := shrinkLoop_cross (k := 0) (i := x / 256)
    (w := ⟨256 * l, (v.disk c 1).toNat, (v.disk c 2).toNat, v.disk l⟩)
    shrinkLimit h (x % 256) last ⟨hf, hl⟩ ⟨rfl, rfl⟩ (by omega) (by omega) (by omega)
    (by rw [shrinkLimit]; omega)
  rw [show 256 * (122 * 0 + x / 256) + x % 256 = x by omega] at heff
  rw [show 122 * 0 + x / 256 = x / 256 by omega] at hloop
  simp only [dos33fsShrinkFile, loadCatalogEntry_type hn, hlast, hx, hx32,
    if_neg (Nat.not_lt_of_le hsize), hdiv, hmod, shrinkLoop_advance hwalk] at hok
  rw [show x / dos33BlockSize = x / 256 from rfl, show x % dos33BlockSize = x % 256 from rfl,
    hloop] at hok
  cases fuel' with
  | zero => cases hok
  | succ fuel' =>
      rw [shrinkLoop_leave hw'] at hok
      simp only [hnt, hns] at hok
      cases hnext : nextSector v.disk c with
      | none =>
          -- the catalog ends: the list is marked free, then the pointer is 0/0
          left
          rw [if_pos (ts_eq_zero_iff.2 hnext)] at hok
          cases hok
          exact ⟨rfl, v₁, heff, fun n => freeIn_dos33MarkBlocksFree _ l n⟩
      | some n =>
          right
          refine ⟨n, rfl, ?_⟩
          have hne : ¬ ts (v.disk c 1).toNat (v.disk c 2).toNat = 0 := by
            intro hz
            rw [nextSector, ts_eq_zero_iff.1 hz] at hnext
            cases hnext
          rw [if_neg hne] at hok
          split at hok
          · cases hok
          · rename_i r' v₂ hrun
            have hfree : FreeIn v₂ n := shrinkLoop_deletes _ (ts_of_sectorPtr hnext) hrun
            split_ifs at hok
            · cases hok
              exact hfree
            · cases hok
              exact hfree

/-- A file with a first data sector keeps it through shrinking to nothing and beyond. -/
theorem not_freeIn_first (h : WellFormed v root) (hf : IsFile v.disk root c e) {l n : Nat}
    (hl : tsListAt v.disk c e 0 = some l) (hdata : dataAt v.disk c e 0 = some n)
    (hfree : ∀ m, FreeIn v' m ↔ m = l ∨ FreeIn v m) : ¬ FreeIn v' n := by
  rw [hfree]
  have hn : Refers v.disk root (.data c e 0) n := ⟨hf, hdata⟩
  have hlist : Refers v.disk root (.tsList c e 0) l := ⟨hf, hl⟩
  rintro (rfl | hn')
  · cases h.account.exclusive _ _ n hn hlist
  · exact h.account.busy _ n hn hn'

/-- What is marked free stays marked free when the entry is given up. -/
theorem freeIn_mono_destroy {r : Int} (htrunc : dos33fsTruncateInode v inode 0 = .ok (r, v', inode'))
    {r' : Int} {inode'' : Inode} (hok : dos33fsDestroyInode v inode = .ok (r', v'', inode''))
    {n : Nat} (hn : FreeIn v' n) : FreeIn v'' n := by
  rw [dos33fsDestroyInode, htrunc] at hok
  simp only at hok
  split_ifs at hok
  · cases hok
    exact hn
  · cases hok
    exact hn
  · cases hok
    exact hn
  · cases hok
    exact freeIn_mono_dos33MarkBlocksFree _ _ _ hn
  · cases hok
    exact freeIn_mono_dos33MarkBlocksFree _ _ _ hn

/-- Destroying a binary file: its first data sector is still in use, or a sector of the
catalog is free. -/
theorem dos33fsDestroyInode_leaks (h : WellFormed v root) (hb : IsBinary v.disk root c e)
    (hn : Names inode.number c e) (hlt : inode.size < 65536) {n : Nat}
    (hdata : dataAt v.disk c e 0 = some n) {r : Int}
    (hok : dos33fsDestroyInode v inode = .ok (r, v', inode')) :
    ¬ FreeIn v' n ∨ ∃ k m, catalogAt v.disk root k = some m ∧ FreeIn v' m := by
  obtain ⟨l, hl⟩ := h.exists_tsList hb.file
  by_cases hin : inode.size ≠ 0 → endSector v.disk c e inode.size < 122
  · left
    obtain ⟨v₁, v₂, hdestroy, hkeeps, hl₁, hdest⟩ := dos33fsDestroyInode_keeps h hb.file hn hl hin
    rw [hdestroy] at hok
    cases hok
    have hdata₁ := hkeeps.first hb.type hb.first
    rw [hdata] at hdata₁
    exact not_freeIn_first hkeeps.step.wf hkeeps.step.file hl₁ hdata₁ hdest.free
  · have hnz : inode.size ≠ 0 := fun hz => hin fun hne => absurd hz hne
    have hout : 122 ≤ endSector v.disk c e inode.size := by
      by_contra hlt'
      exact hin fun _ => Nat.lt_of_not_le hlt'
    have htrunc : dos33fsTruncateInode v inode 0 = dos33fsShrinkFile v inode 0 := by
      rw [dos33fsTruncateInode, if_neg (Ne.symm hnz), if_pos (Nat.pos_of_ne_zero hnz)]
    rcases hshrink : dos33fsShrinkFile v inode 0 with err | ⟨r₁, v₁, inode₁⟩
    · rw [dos33fsDestroyInode, htrunc, hshrink] at hok
      cases hok
    · rcases dos33fsShrinkFile_cross h hb.file hn (Nat.zero_le _) hlt (endSector_zero_lt _ c e)
        hout hl hshrink with ⟨rfl, v₂, heff, hfree⟩ | ⟨m, hnext, hm⟩
      · left
        rw [dos33fsDestroyInode, htrunc, hshrink] at hok
        cases hok
        have hdata₂ : dataAt v₂.disk c e 0 = some n := by
          rw [heff.data, headerLength_binary hb, if_neg (by omega), hdata]
        exact not_freeIn_first heff.step.wf heff.step.file (by rw [heff.lists, hl]) hdata₂ hfree
      · right
        obtain ⟨k, hk⟩ := hb.file.catalog
        refine ⟨k + 1, m, ?_, freeIn_mono_destroy (htrunc.trans hshrink) hok hm⟩
        rw [catalogAt, chainAt_succ, ← catalogAt, hk, Option.bind_some, hnext]

end Destroy

/-! ## A new file and what is done to it -/

/-- Naming, writing and truncating file `f` within its first list. -/
def ChangeStays (root f : Nat) (s : Store) (op : FileOp) : Prop :=
  Stays root s op ∧ ((∃ name, op = .link f name) ∨ (∃ buf offset, op = .write f buf offset) ∨
    ∃ size, op = .truncate f size)

/-- File `f`, at entry `e` of catalog sector `c`, still has its first data sector `n`, and
the catalog is that of `d`. -/
structure HasFirst (root f c e n : Nat) (d : Disk) (s : Store) : Prop where
  wf : WellFormed s.volume root
  held : ∃ inode, Denotes root s f inode c e ∧ inode.size < 65536
  type : fileType s.volume.disk c e = 4
  first : dataAt s.volume.disk c e 0 = some n
  catalog : ∀ k, catalogAt s.volume.disk root k = catalogAt d root k

section Change

variable {root f c e n : Nat} {d : Disk} {dirInode : Inode} {s s' : Store}

theorem Denotes.unique {inode inode' : Inode} {c' e' : Nat} (h : Denotes root s f inode c e)
    (h' : Denotes root s f inode' c' e') : inode = inode' ∧ c = c' ∧ e = e' := by
  obtain rfl : inode = inode' := Option.some.inj (h.held.symm.trans h'.held)
  obtain ⟨rfl, rfl⟩ := Prod.mk.inj (h.names.unique h'.names)
  exact ⟨rfl, rfl, rfl⟩

theorem HasFirst.of_keeps (h : HasFirst root f c e n d s) {inode : Inode} {size : Nat}
    (hd : Denotes root s f inode c e)
    (hinode : s'.inode = Function.update s.inode f (some { inode with size := size }))
    (hkeeps : Keeps root c e s.volume s'.volume inode.size size) (hsize : size < 65536) :
    HasFirst root f c e n d s' where
  wf := hkeeps.step.wf
  held := ⟨_, hd.of_keeps hinode hkeeps, hsize⟩
  type := hkeeps.step.entry.type.trans h.type
  first := by
    rw [hkeeps.first h.type (by rw [h.first]; exact Option.some_ne_none n), h.first]
  catalog k := (hkeeps.step.touches.catalogAt_eq k).trans (h.catalog k)

/-- A change keeps the first data sector. -/
theorem Store.step_hasFirst (h : HasFirst root f c e n d s) {op : FileOp} {r : Reply}
    (hstays : ChangeStays root f s op) (hstep : s.step dirInode op = .ok (r, s')) :
    HasFirst root f c e n d s' := by
  obtain ⟨inode, hd, hlt⟩ := h.held
  obtain ⟨hst, ⟨name, rfl⟩ | ⟨buf, offset, rfl⟩ | ⟨size, rfl⟩⟩ := hstays
  · obtain ⟨inode', c', e', hd', hlive⟩ := hst
    obtain ⟨rfl, rfl, rfl⟩ := hd.unique hd'
    cases Store.returns_of_step hstep with
    | link hheld hcall =>
        obtain rfl := hd.held_eq hheld
        rcases Nat.lt_or_ge dos33MaxFilenameSize name.length with hlong | hshort
        · -- the name is refused
          have hlink : dos33fsLinkInode s.volume inode name = (-e2big, s.volume, inode) :=
            if_pos hlong
          cases hlink.symm.trans hcall
          exact ⟨h.wf, ⟨inode, ⟨Function.update_self .., hd.names, hd.file⟩, hlt⟩, h.type, h.first,
            h.catalog⟩
        · obtain ⟨v', hlink, hsame, -⟩ := dos33fsLinkInode_spec h.wf hd.file hd.names hlive hshort
          cases hlink.symm.trans hcall
          exact ⟨hsame.frame.wf, ⟨_, ⟨Function.update_self .., hd.names, hsame.frame.file⟩, hlt⟩,
            hsame.type.trans h.type, (hsame.data 0).trans h.first,
            fun k => (hsame.frame.touches.catalogAt_eq k).trans (h.catalog k)⟩
  · obtain ⟨inode', c', e', hd', hw⟩ := hst
    obtain ⟨rfl, rfl, rfl⟩ := hd.unique hd'
    obtain ⟨hinode, hkeeps⟩ := hd.write h.wf hw hstep
    exact h.of_keeps hd hinode hkeeps hw.size_lt
  · obtain ⟨inode', c', e', hd', ht⟩ := hst
    obtain ⟨rfl, rfl, rfl⟩ := hd.unique hd'
    obtain ⟨hinode, hkeeps⟩ := hd.truncate h.wf ht hstep
    exact h.of_keeps hd hinode hkeeps ht.size_lt

/-- A file just made has a first data sector, and it was free before. -/
theorem Store.make_hasFirst (h : WellFormed s.volume root)
    (hroot : root = 16 * inodeTrack dirInode.number + inodeSector dirInode.number) {inode : Inode}
    (hstep : s.step dirInode (.make f inode) = .ok (.result 0, s')) :
    ∃ c e n, HasFirst root f c e n s.volume.disk s' ∧ FreeIn s.volume n := by
  obtain ⟨inode', c, e, -, hd, hnew, hmade⟩ := Store.make_denotes h hroot hstep
  obtain ⟨n, hn⟩ := Option.ne_none_iff_exists'.1 hmade.first
  refine ⟨c, e, n, ⟨hmade.frame.wf, ⟨inode', hd, by rw [hnew.size]; decide⟩, hmade.type, hn,
    hmade.frame.touches.catalogAt_eq⟩, ?_⟩
  exact (hmade.pool n).1 (Or.inr ⟨.data c e 0, rfl, hmade.frame.file, hn⟩)

/-- Whatever is done to a new file within its first list, destroying it does not bring back
the free sectors from before it was made. -/
theorem Store.run_leaks (h : WellFormed s.volume root)
    (hroot : root = 16 * inodeTrack dirInode.number + inodeSector dirInode.number) {inode : Inode}
    {s₁ : Store} (hmake : s.step dirInode (.make f inode) = .ok (.result 0, s₁))
    {ops : List FileOp} (hstays : Along (Store.step dirInode) (ChangeStays root f) s₁ ops)
    {rs : List Reply} (hrun : Store.run dirInode s₁ (ops ++ [.destroy f]) = .ok (rs, s')) :
    ¬ ∀ n, FreeIn s'.volume n ↔ FreeIn s.volume n := by
  intro hsame
  obtain ⟨c, e, n, hfirst, hfree⟩ := Store.make_hasFirst h hroot hmake
  obtain ⟨rs₁, s₂, rs₂, hchanges, hdestroy, -⟩ := run_append_eq_ok.1 hrun
  have hfirst₂ := run_preserves (HasFirst root f c e n s.volume.disk)
    (fun _ _ _ _ hf hst hstep => Store.step_hasFirst hf hst hstep) hfirst hstays hchanges
  obtain ⟨inode₂, hd, hlt⟩ := hfirst₂.held
  obtain ⟨r, hstep, -⟩ := run_singleton_eq_ok.1 hdestroy
  cases Store.returns_of_step hstep with
  | destroy hheld hcall =>
      obtain rfl := hd.held_eq hheld
      have hb : IsBinary s₂.volume.disk root c e := by
        refine ⟨hd.file, hfirst₂.type, ?_⟩
        rw [hfirst₂.first]
        exact Option.some_ne_none n
      -- the data sector of the new file is lost, or a catalog sector has become free
      rcases dos33fsDestroyInode_leaks hfirst₂.wf hb hd.names hlt hfirst₂.first hcall with
        hused | ⟨k, m, hk, hm⟩
      · exact hused ((hsame n).2 hfree)
      · rw [hfirst₂.catalog] at hk
        exact h.account.busy (.catalog k) m hk ((hsame m).1 hm)

end Change

/-- A new file, written, grown past its first list and destroyed. -/
theorem Store.run_leaks_blankStore :
    ∃ s₁ rs s', blankStore.step blankDirInode (.make 0 Inode.zeroed) = .ok (.result 0, s₁) ∧
      Store.run blankDirInode s₁ ([.truncate 0 40000] ++ [.destroy 0]) = .ok (rs, s') ∧
      ¬ ∀ n, FreeIn s'.volume n ↔ FreeIn blankVolume n := by
  obtain ⟨s₁, hmake⟩ := blankStore_make
  obtain ⟨inode, c, e, -, hd, hnew, -⟩ := Store.make_denotes blankVolume_wellFormed blankRoot_eq hmake
  have hstays : Along (Store.step blankDirInode) (ChangeStays blankRoot 0) s₁
      [.truncate 0 40000] := by
    refine ⟨⟨⟨inode, c, e, hd, ?_⟩, Or.inr (Or.inr ⟨_, rfl⟩)⟩, fun _ _ _ => trivial⟩
    rw [hnew.size]
    exact ⟨by decide, fun hlt => absurd hlt (by decide), fun _ => Or.inl (endSector_zero_lt _ c e)⟩
  have hok : ((Store.run blankDirInode blankStore
      (.make 0 Inode.zeroed :: ([.truncate 0 40000] ++ [.destroy 0]))).map (·.1)) =
        .ok [.result 0, .result 0, .result 0] := by
    decide +kernel
  obtain ⟨⟨rs, s'⟩, hrun, -⟩ := map_eq_ok.1 hok
  obtain ⟨r, s₂, rs', hmake', hrest, -⟩ := run_cons_eq_ok.1 hrun
  rw [hmake, Except.ok.injEq, Prod.mk.injEq] at hmake'
  obtain ⟨-, rfl⟩ := hmake'
  have hleak := Store.run_leaks blankVolume_wellFormed blankRoot_eq hmake hstays hrest
  exact ⟨s₁, rs', s', hmake, hrest, hleak⟩

/-- A file made on a blank volume and destroyed at once: its first data sector stays in
use. -/
theorem Store.run_keepsFirstSector :
    ∃ s', Store.run blankDirInode blankStore [.make 0 Inode.zeroed, .destroy 0] =
        .ok ([.result 0, .result 0], s') ∧
      FreeIn blankVolume 289 ∧ ¬ FreeIn s'.volume 289 := by
  have hrun : (Store.run blankDirInode blankStore [.make 0 Inode.zeroed, .destroy 0]).map
      (fun q => (q.1, decide (FreeIn blankVolume 289 ∧ ¬ FreeIn q.2.volume 289))) =
        .ok ([.result 0, .result 0], true) := by
    decide +kernel
  obtain ⟨⟨rs, s'⟩, heq, hobs⟩ := map_eq_ok.1 hrun
  simp only [Prod.mk.injEq, decide_eq_true_eq] at hobs
  obtain ⟨rfl, hfree, hused⟩ := hobs
  exact ⟨s', heq, hfree, hused⟩

end Vmwos
