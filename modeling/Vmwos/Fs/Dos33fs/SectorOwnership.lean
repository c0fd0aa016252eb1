import Vmwos.Fs.Dos33fs.FirstList
import Vmwos.Fs.Dos33fs.Store
import Vmwos.Fs.Dos33fs.BlankVolume

/-!
# Every sector has one owner

No sector is referred to twice and none in use is marked free, so the allocator hands
out unused sectors only. Calls keep it so as long as they stay in the first T/S list of
their file and do not name or unlink an entry that is unlinked already (`Stays`):
`Store.step_wellFormed` is the step and `Store.run_sectorOwnership` the run. A file that
grew past its first list and is shortened again breaks it
(`Store.run_freesListInUse`).
-/

set_option autoImplicit false

namespace Vmwos

open Library

/-! ## The condition -/

/-- The inode of `f` names the file at entry `e` of catalog sector `c`. -/
structure Denotes (root : Nat) (s : Store) (f : Nat) (inode : Inode) (c e : Nat) : Prop where
  held : s.inode f = some inode
  names : Names inode.number c e
  file : IsFile s.volume.disk root c e

/-- The call is on a file of the volume, and the walk along the lists of the file, where
there is one, stays in the first. -/
def Stays (root : Nat) (s : Store) : FileOp → Prop
  | .make _ _ | .open _ _ | .read _ _ _ => True
  | .link f _ | .unlink f =>
      ∃ inode c e, Denotes root s f inode c e ∧ IsLive s.volume.disk c e
  | .write f buf offset =>
      ∃ inode c e, Denotes root s f inode c e ∧
        WriteStays s.volume.disk c e inode.size offset buf.length
  | .truncate f size =>
      ∃ inode c e, Denotes root s f inode c e ∧ TruncateStays s.volume.disk c e inode.size size
  | .destroy f =>
      ∃ inode c e, Denotes root s f inode c e ∧
        (inode.size ≠ 0 → endSector s.volume.disk c e inode.size < 122)

/-- An empty file ends in its first list. -/
theorem endSector_zero_lt (d : Disk) (c e : Nat) : endSector d c e 0 < 122 := by
  have hle := headerLength_le (fileType d c e)
  rw [endSector]
  omega

/-! ## One call -/

section Step

variable {root : Nat} {dirInode : Inode} {s s' : Store} {op : FileOp} {r : Reply}

/-- A file has a first T/S list. -/
theorem WellFormed.exists_tsList {v : Dos33Volume} {c e : Nat} (h : WellFormed v root)
    (hf : IsFile v.disk root c e) : ∃ l, tsListAt v.disk c e 0 = some l :=
  Option.isSome_iff_exists.1 (h.head c e hf)

/-- A name that is too long changes nothing. -/
theorem dos33fsLinkInode_wellFormed {v : Dos33Volume} {inode : Inode} {c e : Nat}
    (h : WellFormed v root) (hf : IsFile v.disk root c e) (hn : Names inode.number c e)
    (hlive : IsLive v.disk c e) (name : CString) :
    WellFormed (dos33fsLinkInode v inode name).2.1 root := by
  rcases Nat.lt_or_ge dos33MaxFilenameSize name.length with hlong | hshort
  · rw [dos33fsLinkInode, if_pos hlong]
    exact h
  · obtain ⟨v', hlink, hsame, -⟩ := dos33fsLinkInode_spec h hf hn hlive hshort
    rw [hlink]
    exact hsame.frame.wf

theorem Denotes.held_eq {f : Nat} {inode inode' : Inode} {c e : Nat}
    (hd : Denotes root s f inode c e) (hheld : s.inode f = some inode') : inode = inode' :=
  Option.some.inj (hd.held.symm.trans hheld)

/-- A file just made is a file of the volume, and empty. -/
theorem Store.make_denotes (h : WellFormed s.volume root)
    (hroot : root = 16 * inodeTrack dirInode.number + inodeSector dirInode.number) {f : Nat}
    {inode : Inode} (hstep : s.step dirInode (.make f inode) = .ok (.result 0, s')) :
    ∃ inode' c e, s'.inode = Function.update s.inode f (some inode') ∧
      Denotes root s' f inode' c e ∧ NewInode dirInode inode inode' c e ∧
      Made root c e s.volume s'.volume := by
  cases Store.returns_of_step hstep with
  | make hcall =>
      rcases dos33fsMakeInode_spec h inode hroot with ⟨hmake, -⟩ | ⟨hmake, -⟩ |
        ⟨c, e, v', inode', hnew, hmade, hmake⟩
      · cases hmake.symm.trans hcall
      · cases hmake.symm.trans hcall
      · cases hmake.symm.trans hcall
        exact ⟨_, c, e, rfl, ⟨Function.update_self .., hnew.names, hmade.frame.file⟩, hnew,
          hmade⟩

/-- Writing within the first list. -/
theorem Denotes.write {f : Nat} {inode : Inode} {c e offset : Nat} {buf : List UInt8}
    (hd : Denotes root s f inode c e) (h : WellFormed s.volume root)
    (hw : WriteStays s.volume.disk c e inode.size offset buf.length)
    (hstep : s.step dirInode (.write f buf offset) = .ok (r, s')) :
    s'.inode = Function.update s.inode f
        (some { inode with size := max inode.size (offset + buf.length) }) ∧
      Keeps root c e s.volume s'.volume inode.size (max inode.size (offset + buf.length)) := by
  cases Store.returns_of_step hstep with
  | write hheld hwrite =>
      obtain rfl := hd.held_eq hheld
      obtain ⟨-, rfl, hkeeps⟩ := dos33fsWriteFile_keeps h hd.file hd.names hw hwrite
      exact ⟨rfl, hkeeps⟩

/-- Truncating within the first list. -/
theorem Denotes.truncate {f : Nat} {inode : Inode} {c e size : Nat}
    (hd : Denotes root s f inode c e) (h : WellFormed s.volume root)
    (ht : TruncateStays s.volume.disk c e inode.size size)
    (hstep : s.step dirInode (.truncate f size) = .ok (r, s')) :
    s'.inode = Function.update s.inode f (some { inode with size := size }) ∧
      Keeps root c e s.volume s'.volume inode.size size := by
  cases Store.returns_of_step hstep with
  | truncate hheld htruncate =>
      obtain rfl := hd.held_eq hheld
      obtain ⟨-, rfl, hkeeps⟩ := dos33fsTruncateInode_keeps h hd.file hd.names ht htruncate
      exact ⟨rfl, hkeeps⟩

/-- The inode still names the file. -/
theorem Denotes.of_keeps {f : Nat} {inode : Inode} {c e size : Nat}
    (hd : Denotes root s f inode c e)
    (hinode : s'.inode = Function.update s.inode f (some { inode with size := size }))
    (hkeeps : Keeps root c e s.volume s'.volume inode.size size) :
    Denotes root s' f { inode with size := size } c e :=
  ⟨by rw [hinode, Function.update_self], hd.names, hkeeps.step.file⟩

/-- A call that stays in the first list keeps the volume well formed. -/
theorem Store.step_wellFormed (h : WellFormed s.volume root)
    (hroot : root = 16 * inodeTrack dirInode.number + inodeSector dirInode.number)
    (hstays : Stays root s op) (hstep : s.step dirInode op = .ok (r, s')) :
    WellFormed s'.volume root := by
  cases Store.returns_of_step hstep with
  | @make f inode inode' r v hcall =>
      rcases dos33fsMakeInode_spec h inode hroot with ⟨hmake, -⟩ | ⟨hmake, -⟩ |
        ⟨c, e, v', inode', -, hmade, hmake⟩
      · cases hmake.symm.trans hcall
        exact h
      · cases hmake.symm.trans hcall
      · cases hmake.symm.trans hcall
        exact hmade.frame.wf
  | «open» => exact h
  | @link f name inode inode' r v hheld hlink =>
      obtain ⟨inode₁, c, e, hd, hlive⟩ := hstays
      obtain rfl := hd.held_eq hheld
      have hlinked := dos33fsLinkInode_wellFormed h hd.file hd.names hlive name
      rw [hlink] at hlinked
      exact hlinked
  | write =>
      obtain ⟨inode, c, e, hd, hw⟩ := hstays
      exact (hd.write h hw hstep).2.step.wf
  | read => exact h
  | truncate =>
      obtain ⟨inode, c, e, hd, ht⟩ := hstays
      exact (hd.truncate h ht hstep).2.step.wf
  | unlink hheld hcall =>
      obtain ⟨inode₁, c, e, hd, hlive⟩ := hstays
      obtain rfl := hd.held_eq hheld
      obtain ⟨v', hunlink, hsame, -⟩ := dos33fsUnlinkInode_spec h hd.file hd.names hlive
      cases hunlink.symm.trans hcall
      exact hsame.frame.wf
  | destroy hheld hcall =>
      obtain ⟨inode₁, c, e, hd, hin⟩ := hstays
      obtain rfl := hd.held_eq hheld
      obtain ⟨l, hl⟩ := h.exists_tsList hd.file
      obtain ⟨v1, v', hdestroy, -, -, hdest⟩ := dos33fsDestroyInode_keeps h hd.file hd.names hl hin
      cases hdestroy.symm.trans hcall
      exact hdest.wf

end Step

/-! ## Runs -/

section Run

variable {root : Nat} {dirInode : Inode} {s s' : Store}

theorem Store.run_wellFormed (h : WellFormed s.volume root)
    (hroot : root = 16 * inodeTrack dirInode.number + inodeSector dirInode.number)
    {ops : List FileOp} (hstays : Along (Store.step dirInode) (Stays root) s ops)
    {rs : List Reply} (hrun : Store.run dirInode s ops = .ok (rs, s')) :
    WellFormed s'.volume root :=
  run_preserves (fun s => WellFormed s.volume root)
    (fun _ _ _ _ hwf hst hstep => Store.step_wellFormed hwf hroot hst hstep) h hstays hrun

/-- The sector that the allocator hands out is referred to by nothing. -/
theorem WellFormed.allocated_unused {v v' : Dos33Volume} (h : WellFormed v root)
    {track sector : Nat} (ha : dos33AllocateSector v = .ok (track, sector, v')) (u : SectorUse) :
    ¬ Refers v.disk root u (16 * track + sector) := by
  intro hu
  obtain ⟨-, htaken⟩ := dos33AllocateSector_taken h.vtoc ha
  exact h.account.busy u _ hu htaken.free

/-- After every sequence of calls that stay in the first lists, no sector is referred to
twice, none in use is marked free, and the allocator hands out unused ones. -/
theorem Store.run_sectorOwnership (h : WellFormed s.volume root)
    (hroot : root = 16 * inodeTrack dirInode.number + inodeSector dirInode.number)
    {ops : List FileOp} (hstays : Along (Store.step dirInode) (Stays root) s ops)
    {rs : List Reply} (hrun : Store.run dirInode s ops = .ok (rs, s')) :
    (∀ u u' n, Refers s'.volume.disk root u n → Refers s'.volume.disk root u' n → u = u') ∧
    (∀ u n, Refers s'.volume.disk root u n → ¬ FreeIn s'.volume n) ∧
    ∀ track sector v', dos33AllocateSector s'.volume = .ok (track, sector, v') →
      ∀ u, ¬ Refers s'.volume.disk root u (16 * track + sector) := by
  have hwf := Store.run_wellFormed h hroot hstays hrun
  exact ⟨hwf.account.exclusive, hwf.account.busy, fun _ _ _ ha u => hwf.allocated_unused ha u⟩

/-- A store with a blank volume and nothing open. -/
def blankStore : Store := ⟨blankVolume, fun _ => none⟩

theorem blankRoot_eq :
    blankRoot = 16 * inodeTrack blankDirInode.number + inodeSector blankDirInode.number := by
  decide

/-- A file can be made on a blank volume. -/
theorem blankStore_make :
    ∃ s, blankStore.step blankDirInode (.make 0 Inode.zeroed) = .ok (.result 0, s) := by
  have hzero : (blankStore.step blankDirInode (.make 0 Inode.zeroed)).map (·.1) =
      .ok (.result 0) := by decide
  obtain ⟨⟨r, s⟩, hstep, rfl⟩ := map_eq_ok.1 hzero
  exact ⟨s, hstep⟩

/-- Growing a new file stays in the first list, up to any size that two bytes hold. -/
theorem blankStore_grow_stays {size : Nat} (hsize : size < 65536) :
    Along (Store.step blankDirInode) (Stays blankRoot) blankStore
      [.make 0 Inode.zeroed, .truncate 0 size] := by
  refine ⟨trivial, fun r s₁ hstep => ⟨?_, fun _ _ _ => trivial⟩⟩
  obtain ⟨s₁', hmake⟩ := blankStore_make
  rw [hmake, Except.ok.injEq, Prod.mk.injEq] at hstep
  obtain ⟨-, rfl⟩ := hstep
  obtain ⟨inode, c, e, -, hd, hnew, -⟩ :=
    Store.make_denotes blankVolume_wellFormed blankRoot_eq hmake
  refine ⟨inode, c, e, hd, hsize, fun hlt => ?_, fun _ => Or.inl ?_⟩
  · rw [hnew.size] at hlt
    exact absurd hlt (Nat.not_lt_zero size)
  · rw [hnew.size]
    exact endSector_zero_lt _ c e

/-- A file made on a blank volume and grown past its first list. -/
theorem Store.run_sectorOwnership_blankStore :
    ∃ rs s', Store.run blankDirInode blankStore [.make 0 Inode.zeroed, .truncate 0 31300] =
        .ok (rs, s') ∧
      (∀ u u' n, Refers s'.volume.disk blankRoot u n → Refers s'.volume.disk blankRoot u' n →
        u = u') ∧
      (∀ u n, Refers s'.volume.disk blankRoot u n → ¬ FreeIn s'.volume n) ∧
      ∀ track sector v', dos33AllocateSector s'.volume = .ok (track, sector, v') →
        ∀ u, ¬ Refers s'.volume.disk blankRoot u (16 * track + sector) := by
  have hok : ((Store.run blankDirInode blankStore
      [.make 0 Inode.zeroed, .truncate 0 31300]).map (·.1)) = .ok [.result 0, .result 0] := by
    decide
  obtain ⟨⟨rs, s'⟩, hrun, -⟩ := map_eq_ok.1 hok
  exact ⟨rs, s', hrun, Store.run_sectorOwnership blankVolume_wellFormed blankRoot_eq
    (blankStore_grow_stays (by decide)) hrun⟩

/-- A file of more than one list is shortened to nothing: its first T/S list is marked
free, and the allocator hands it out, while the file keeps it; so is a sector of the
catalog. -/
theorem Store.run_freesListInUse :
    ∃ s' v', Store.run blankDirInode blankStore
        [.make 0 Inode.zeroed, .truncate 0 31300, .truncate 0 0] =
          .ok ([.result 0, .result 0, .result 0], s') ∧
      Refers s'.volume.disk blankRoot (.tsList 287 0 0) 288 ∧
      dos33AllocateSector s'.volume = .ok (18, 0, v') ∧
      Refers s'.volume.disk blankRoot (.catalog 1) 286 ∧ FreeIn s'.volume 286 := by
  have hrun : (Store.run blankDirInode blankStore
      [.make 0 Inode.zeroed, .truncate 0 31300, .truncate 0 0]).map (fun q =>
        (q.1, decide (q.2.volume.disk 287 11 = 18 ∧ tsListAt q.2.volume.disk 287 0 0 = some 288 ∧
          (dos33AllocateSector q.2.volume).map (fun a => (a.1, a.2.1)) = .ok (18, 0) ∧
          catalogAt q.2.volume.disk blankRoot 1 = some 286 ∧ FreeIn q.2.volume 286))) =
      .ok ([.result 0, .result 0, .result 0], true) := by
    decide +kernel
  obtain ⟨⟨rs, s'⟩, heq, hobs⟩ := map_eq_ok.1 hrun
  simp only [Prod.mk.injEq, decide_eq_true_eq] at hobs
  obtain ⟨rfl, hfirst, hlist, halloc, hcat, hfree⟩ := hobs
  obtain ⟨v', ha⟩ : ∃ v', dos33AllocateSector s'.volume = .ok (18, 0, v') := by
    rcases ha : dos33AllocateSector s'.volume with err | ⟨track, sector, v'⟩
    · rw [ha] at halloc
      cases halloc
    · rw [ha] at halloc
      cases halloc
      exact ⟨v', rfl⟩
  have hfile : IsFile s'.volume.disk blankRoot 287 0 := by
    refine ⟨⟨0, rfl⟩, by decide, ?_⟩
    rw [EntryUsed, show catOffset 0 0 = 11 from rfl, hfirst]
    decide
  exact ⟨s', v', heq, ⟨hfile, hlist⟩, ha, hcat, hfree⟩

end Run

end Vmwos
