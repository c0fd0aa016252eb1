import Vmwos.Fs.Files

/-!
# Duplicating descriptors

`dup2_syscall` closes what is at `newfd` before it looks at `oldfd`, and does not compare the two.
So an `oldfd` that is not open costs the file of `newfd` a reference, and a file of which `newfd`
has the only reference is gone when `oldfd` is looked up. `dup2Contract_iff` says for which
arguments the call does what it should.
-/

set_option autoImplicit false

namespace Vmwos

open Library

/-- The counts of the file objects and of the inodes are the same. -/
def SameCounts (s s' : FileTables) : Prop :=
  (∀ f, (s'.fileObjects f).count = (s.fileObjects f).count) ∧
    ∀ i, (s'.inodes i).count = (s.inodes i).count

/-- What `dup2` should have done. A file object that is at `newfd` and at `oldfd` loses one
reference and gets one. -/
def Dup2Effect (s : FileTables) (files : FdTable) (oldfd newfd result : Int) (s' : FileTables)
    (files' : FdTable) : Prop :=
  match s.mapFdToFile files oldfd, fdIndex newfd with
  | .ok f, some i =>
      if oldfd = newfd then s' = s ∧ files' = files
      else 0 ≤ result ∧ files' = Function.update files i (some f) ∧
        ∀ g, ((s'.fileObjects g).count : Int) = (s.fileObjects g).count +
          (if g = f then 1 else 0) - (if files i = some g then 1 else 0)
  | _, _ => result < 0 ∧ files' = files ∧ SameCounts s s'

/-- The call comes back and has done what it should. -/
def Dup2Contract (s : FileTables) (files : FdTable) (beyond : Int → Bool) (oldfd newfd : Int) :
    Prop :=
  ∃ result s' files', s.dup2Syscall files beyond oldfd newfd = .ok (result, s', files') ∧
    Dup2Effect s files oldfd newfd result s' files'

/-- An inode that gets through the loss of a reference that it is given back: another one is left,
or the slot is as `inode_free` would leave it. -/
def Inode.Survives (inode : Inode) : Prop :=
  2 ≤ inode.count ∨ inode = { Inode.cleared with count := 1 }

/-- The arguments for which `dup2` does what it should. -/
def Dup2Condition (s : FileTables) (files : FdTable) (beyond : Int → Bool) (oldfd newfd : Int) :
    Prop :=
  match fdIndex newfd with
  | none => beyond newfd = true ∨ ∀ f, s.mapFdToFile files oldfd ≠ .ok f
  | some i =>
      match files i, s.mapFdToFile files oldfd with
      | none, .error _ => True
      | none, .ok f => (s.fileObjects f).inode ≠ none
      | some g, .error _ => (s.fileObjects g).count = 0
      | some g, .ok f => (s.fileObjects g).count ≠ 0 ∧ (f = g → 2 ≤ (s.fileObjects g).count) ∧
          Releasable s g ∧ ∃ j, (s.fileObjects f).inode = some j ∧
            (oldfd = newfd → (s.inodes j).Survives)

section Dup2

variable {s s' : FileTables} {files : FdTable} {beyond : Int → Bool} {oldfd newfd : Int}
  {f g : FileId} {i : Fin maxFdPerProc}

theorem SameCounts.refl (s : FileTables) : SameCounts s s := ⟨fun _ => rfl, fun _ => rfl⟩

/-- An `oldfd` that is not open ends the call. -/
theorem dup2Point_error {result : Int} (h : s.mapFdToFile files oldfd = .error result) :
    s.dup2Point files oldfd newfd = .ok (result, s, files) := by
  rw [FileTables.dup2Point, h]

/-- Otherwise its file gets a reference, if it has an inode. -/
theorem dup2Point_ok (hold : s.mapFdToFile files oldfd = .ok f) (hnew : fdIndex newfd = some i)
    {j : InodeId} (hinode : (s.fileObjects f).inode = some j) :
    s.dup2Point files oldfd newfd = .ok (0,
      (s.setFile f { s.fileObjects f with count := (s.fileObjects f).count + 1 }).setVfs
        (s.setInode j { s.inodes j with count := (s.inodes j).count + 1 }),
      Function.update files i (some f)) := by
  simp only [FileTables.dup2Point, hold, filesIncrementCount_of_inode hinode, hnew]

theorem dup2Point_stuck (hold : s.mapFdToFile files oldfd = .ok f)
    (h : (s.fileObjects f).inode = none ∨ fdIndex newfd = none) :
    s.dup2Point files oldfd newfd = .error .badAccess := by
  cases hinode : (s.fileObjects f).inode with
  | none => simp only [FileTables.dup2Point, hold, filesIncrementCount_of_none hinode]
  | some j =>
      have hnew : fdIndex newfd = none := h.resolve_left (by rw [hinode]; exact Option.some_ne_none j)
      simp only [FileTables.dup2Point, hold, filesIncrementCount_of_inode hinode, hnew]

/-- The count of the file that is pointed to. -/
theorem count_setFile (s : FileTables) (f g : FileId) (file : FileObject) (vfs : Vfs) :
    (((s.setFile f file).setVfs vfs).fileObjects g).count =
      if g = f then file.count else (s.fileObjects g).count := by
  show (Function.update s.fileObjects f file g).count = _
  by_cases h : g = f
  · rw [h, Function.update_self, if_pos rfl]
  · rw [Function.update_of_ne h, if_neg h]

/-- While `newfd` is in use, its file is given back first. -/
theorem dup2Syscall_used (hnew : fdIndex newfd = some i) (hg : files i = some g)
    (hcount : (s.fileObjects g).count ≠ 0) :
    s.dup2Syscall files beyond oldfd newfd =
      (s.fileObjectFree g).bind fun s' => s'.dup2Point files oldfd newfd := by
  have hmap : s.mapFdToFile files newfd = .ok g := mapFdToFile_eq_ok.2 ⟨i, hnew, hg, hcount⟩
  have hused : FileTables.fdUsed files beyond newfd = true := by
    simp only [FileTables.fdUsed, hnew, hg, Option.isSome_some]
  rw [FileTables.dup2Syscall, if_pos hused]
  simp only [hmap]
  cases s.fileObjectFree g with
  | error e => rfl
  | ok s' => rfl

theorem dup2Syscall_free (hused : FileTables.fdUsed files beyond newfd = false) :
    s.dup2Syscall files beyond oldfd newfd = s.dup2Point files oldfd newfd := by
  rw [FileTables.dup2Syscall, hused, if_neg Bool.false_ne_true]

/-- A `newfd` that is in use but cannot be looked up ends the call. -/
theorem dup2Syscall_error {result : Int} (hused : FileTables.fdUsed files beyond newfd = true)
    (hmap : s.mapFdToFile files newfd = .error result) :
    s.dup2Syscall files beyond oldfd newfd = .ok (result, s, files) := by
  rw [FileTables.dup2Syscall, if_pos hused, hmap]

/-- What is open once the file of `newfd` has been given back. -/
theorem mapFdToFile_of_free (hfree : s.fileObjectFree g = .ok s') :
    s'.mapFdToFile files oldfd = .ok f ↔
      s.mapFdToFile files oldfd = .ok f ∧ (f = g → 2 ≤ (s.fileObjects g).count) := by
  have hfiles := fileObjectFree_fileObjects hfree
  rw [mapFdToFile_eq_ok, mapFdToFile_eq_ok, hfiles]
  by_cases hfg : f = g
  · subst hfg
    simp only [Function.update_self, forall_const]
    constructor
    · rintro ⟨j, hj, hf, hne⟩
      exact ⟨⟨j, hj, hf, by omega⟩, by omega⟩
    · rintro ⟨⟨j, hj, hf, -⟩, h2⟩
      exact ⟨j, hj, hf, by omega⟩
  · simp only [Function.update_of_ne hfg, hfg, false_implies, and_true]

/-- An inode that is given back and taken again is as before exactly if it survives that. -/
theorem setInode_inodeFree {s v : Vfs} {j : InodeId} {r : Int} (h : s.inodeFree j = .ok (r, v)) :
    v.setInode j { v.inodes j with count := (v.inodes j).count + 1 } = s ↔
      (s.inodes j).Survives := by
  rcases inodeFree_cases h with ⟨hcount, -, rfl⟩ | ⟨hcount, -, rfl⟩ | ⟨hcount, -, hlinks, rfl⟩ |
    ⟨hcount, -, hlinks, fs, -, rfl⟩
  · constructor
    · intro heq
      have hself := congrArg (fun t : Vfs => (t.inodes j).count) heq
      simp [Vfs.setInode] at hself
    · rintro (h2 | hcleared)
      · omega
      · rw [hcleared] at hcount
        cases hcount
  · refine iff_of_true ?_ (Or.inl hcount)
    have hself : (s.inodes j).count - 1 + 1 = (s.inodes j).count := by omega
    simp only [Vfs.setInode, Function.update_self, Function.update_idem, hself]
    rw [Function.update_eq_self]
  · have hcleared : (s.setInode j Inode.cleared).setInode j { Inode.cleared with count := 1 } = s ↔
        s.inodes j = { Inode.cleared with count := 1 } := by
      constructor
      · intro heq
        rw [← heq]
        exact Function.update_self _ _ _
      · intro heq
        rw [Vfs.setInode, Vfs.setInode]
        simp only [Function.update_idem]
        rw [← heq, Function.update_eq_self]
    have hslot : (s.setInode j Inode.cleared).inodes j = Inode.cleared := Function.update_self _ _ _
    rw [hslot]
    refine hcleared.trans ⟨Or.inr, fun hs => hs.resolve_left ?_⟩
    omega
  · -- the letters in a cleared slot are no empty link count
    refine iff_of_false ?_ ?_
    · intro heq
      rw [← heq] at hlinks
      simp [Vfs.setInode, Inode.cleared] at hlinks
    · rintro (h2 | hcleared)
      · omega
      · rw [hcleared] at hlinks
        cases hlinks

theorem fileTables_ext {s t : FileTables} (hvfs : s.toVfs = t.toVfs)
    (hfiles : s.fileObjects = t.fileObjects) : s = t := by
  cases s
  cases t
  cases hvfs
  cases hfiles
  rfl

/-- A file object that is given back and taken again. -/
theorem dup2_same {j : InodeId} (hfree : s.fileObjectFree f = .ok s')
    (hcount : (s.fileObjects f).count ≠ 0) (hinode : (s.fileObjects f).inode = some j) :
    (s'.setFile f { s'.fileObjects f with count := (s'.fileObjects f).count + 1 }).setVfs
        (s'.setInode j { s'.inodes j with count := (s'.inodes j).count + 1 }) = s ↔
      (s.inodes j).Survives := by
  have hfiles := fileObjectFree_fileObjects hfree
  obtain ⟨r, hok⟩ : ∃ r, s.inodeFree j = .ok (r, s'.toVfs) := by
    rw [FileTables.fileObjectFree, hinode] at hfree
    obtain ⟨⟨r, vfs⟩, hok, rfl⟩ := map_eq_ok.1 hfree
    exact ⟨r, hok⟩
  rw [← setInode_inodeFree hok]
  constructor
  · intro heq
    exact congrArg FileTables.toVfs heq
  · intro heq
    refine fileTables_ext heq ?_
    have hself : (s.fileObjects f).count - 1 + 1 = (s.fileObjects f).count := by omega
    show Function.update s'.fileObjects f _ = s.fileObjects
    rw [hfiles]
    simp only [Function.update_self, Function.update_idem, hself]
    rw [Function.update_eq_self]

/-- With `newfd` outside the table. -/
theorem dup2Contract_outside (hnew : fdIndex newfd = none) :
    Dup2Contract s files beyond oldfd newfd ↔
      beyond newfd = true ∨ ∀ f, s.mapFdToFile files oldfd ≠ .ok f := by
  have heffect : ∀ {result : Int} {s' : FileTables} {files' : FdTable}, result < 0 → files' = files →
      SameCounts s s' → Dup2Effect s files oldfd newfd result s' files' := by
    intro result s' files' hneg hfiles hsame
    rw [Dup2Effect, hnew]
    split
    · rename_i h
      cases h
    · exact ⟨hneg, hfiles, hsame⟩
  have hused : FileTables.fdUsed files beyond newfd = beyond newfd := by
    rw [FileTables.fdUsed, hnew]
  cases hbeyond : beyond newfd with
  | true =>
      -- `map_fd_to_file` knows the bounds
      have hmap : s.mapFdToFile files newfd = .error (-enfile) := by
        rw [FileTables.mapFdToFile, hnew]
      refine iff_of_true ⟨_, _, _, dup2Syscall_error (hused.trans hbeyond) hmap, ?_⟩ (Or.inl rfl)
      exact heffect (by decide) rfl (SameCounts.refl s)
  | false =>
      rw [Dup2Contract, dup2Syscall_free (hused.trans hbeyond)]
      cases hold : s.mapFdToFile files oldfd with
      | error result =>
          refine iff_of_true ⟨_, _, _, dup2Point_error hold, ?_⟩ (Or.inr fun f h => by cases h)
          exact heffect (mapFdToFile_neg hold) rfl (SameCounts.refl s)
      | ok f =>
          refine iff_of_false ?_ (fun h => (h.resolve_left Bool.false_ne_true) f rfl)
          rintro ⟨result, s', files', h, -⟩
          rw [dup2Point_stuck hold (Or.inr hnew)] at h
          cases h

/-- With nothing at `newfd`. -/
theorem dup2Contract_unused (hnew : fdIndex newfd = some i) (hg : files i = none) :
    Dup2Contract s files beyond oldfd newfd ↔
      ∀ f, s.mapFdToFile files oldfd = .ok f → (s.fileObjects f).inode ≠ none := by
  have hused : FileTables.fdUsed files beyond newfd = false := by
    simp only [FileTables.fdUsed, hnew, hg, Option.isSome_none]
  rw [Dup2Contract, dup2Syscall_free hused]
  cases hold : s.mapFdToFile files oldfd with
  | error result =>
      refine iff_of_true ⟨_, _, _, dup2Point_error hold, ?_⟩ (fun f h => by cases h)
      rw [Dup2Effect, hold]
      exact ⟨mapFdToFile_neg hold, rfl, SameCounts.refl s⟩
  | ok f =>
      cases hinode : (s.fileObjects f).inode with
      | none =>
          refine iff_of_false ?_ (fun h => h f rfl hinode)
          rintro ⟨result, s', files', h, -⟩
          rw [dup2Point_stuck hold (Or.inl hinode)] at h
          cases h
      | some j =>
          refine iff_of_true ⟨_, _, _, dup2Point_ok hold hnew hinode, ?_⟩ ?_
          · have hne : oldfd ≠ newfd := by
              rintro rfl
              obtain ⟨k, hk, hf, -⟩ := mapFdToFile_eq_ok.1 hold
              rw [hnew] at hk
              cases hk
              rw [hg] at hf
              cases hf
            simp only [Dup2Effect, hold, hnew, if_neg hne]
            refine ⟨Int.le_refl 0, trivial, ?_⟩
            intro g
            rw [count_setFile, hg]
            by_cases hgf : g = f
            · rw [if_pos hgf, if_pos hgf, hgf]
              simp
            · rw [if_neg hgf, if_neg hgf]
              simp
          · intro f' h
            cases h
            rw [hinode]
            exact Option.some_ne_none j

/-- The file of `newfd` is given back, and `oldfd` is not open: a reference is lost. -/
theorem not_dup2Contract_error {result : Int} (hnew : fdIndex newfd = some i)
    (hg : files i = some g) (hcount : (s.fileObjects g).count ≠ 0)
    (hold : s.mapFdToFile files oldfd = .error result) :
    ¬ Dup2Contract s files beyond oldfd newfd := by
  rintro ⟨r, s', files', hok, heffect⟩
  rw [Dup2Effect, hold] at heffect
  obtain ⟨-, -, hsame, -⟩ := heffect
  cases hfree : s.fileObjectFree g with
  | error e =>
      rw [dup2Syscall_used hnew hg hcount, hfree] at hok
      cases hok
  | ok s₁ =>
      rw [dup2Syscall_used hnew hg hcount, hfree, Except.bind] at hok
      have herr : ∃ result, s₁.mapFdToFile files oldfd = .error result := by
        cases hmap : s₁.mapFdToFile files oldfd with
        | error result => exact ⟨result, rfl⟩
        | ok f =>
            rw [mapFdToFile_of_free hfree, hold] at hmap
            cases hmap.1
      obtain ⟨result', herr⟩ := herr
      rw [dup2Point_error herr] at hok
      cases hok
      have hself := hsame g
      rw [fileObjectFree_fileObjects hfree, Function.update_self] at hself
      simp only at hself
      omega

/-- With a file at `newfd`, and one at `oldfd`. -/
theorem dup2Contract_open (hnew : fdIndex newfd = some i) (hg : files i = some g)
    (hcount : (s.fileObjects g).count ≠ 0) (hold : s.mapFdToFile files oldfd = .ok f) :
    Dup2Contract s files beyond oldfd newfd ↔
      (f = g → 2 ≤ (s.fileObjects g).count) ∧ Releasable s g ∧
        ∃ j, (s.fileObjects f).inode = some j ∧ (oldfd = newfd → (s.inodes j).Survives) := by
  rw [Dup2Contract]
  cases hfree : s.fileObjectFree g with
  | error e =>
      rw [dup2Syscall_used hnew hg hcount, hfree]
      refine iff_of_false ?_ ?_
      · rintro ⟨result, s', files', h, -⟩
        cases h
      · rintro ⟨-, hrel, -⟩
        obtain ⟨s', hs'⟩ := fileObjectFree_returns.2 hrel
        rw [hfree] at hs'
        cases hs'
  | ok s₁ =>
      rw [dup2Syscall_used hnew hg hcount, hfree, Except.bind]
      have hrel : Releasable s g := fileObjectFree_returns.1 ⟨s₁, hfree⟩
      have hfiles := fileObjectFree_fileObjects hfree
      by_cases hlast : f = g → 2 ≤ (s.fileObjects g).count
      · have hold₁ : s₁.mapFdToFile files oldfd = .ok f := (mapFdToFile_of_free hfree).2 ⟨hold, hlast⟩
        have hinode₁ : (s₁.fileObjects f).inode = (s.fileObjects f).inode := by
          rw [hfiles]
          by_cases hfg : f = g
          · rw [hfg, Function.update_self]
          · rw [Function.update_of_ne hfg]
        cases hinode : (s.fileObjects f).inode with
        | none =>
            refine iff_of_false ?_ ?_
            · rintro ⟨result, s', files', h, -⟩
              rw [dup2Point_stuck hold₁ (Or.inl (hinode₁.trans hinode))] at h
              cases h
            · rintro ⟨-, -, j, hj, -⟩
              cases hj
        | some j =>
            have hok := dup2Point_ok hold₁ hnew (hinode₁.trans hinode)
            simp only [hok, Except.ok.injEq, Prod.mk.injEq, exists_and_left, exists_eq_left',
              and_assoc]
            rw [Dup2Effect, hold, hnew]
            by_cases hsame : oldfd = newfd
            · -- the file object is its own target
              obtain rfl : f = g := by
                obtain ⟨k, hk, hf, -⟩ := mapFdToFile_eq_ok.1 hold
                rw [hsame, hnew] at hk
                cases hk
                rw [hg] at hf
                exact (Option.some.inj hf).symm
              have hfilesSame : Function.update files i (some f) = files := by
                rw [← hg, Function.update_eq_self]
              simp only [if_pos hsame, dup2_same hfree hcount hinode, hfilesSame, and_true]
              constructor
              · intro hs
                exact ⟨fun _ => hlast rfl, hrel, j, rfl, fun _ => hs⟩
              · rintro ⟨-, -, k, hk, hs⟩
                cases hk
                exact hs hsame
            · refine iff_of_true ?_ ⟨hlast, hrel, j, rfl, fun h => absurd h hsame⟩
              simp only [if_neg hsame]
              refine ⟨Int.le_refl 0, trivial, ?_⟩
              intro x
              rw [count_setFile, hfiles, hg]
              have hcond : (some g = some x) ↔ x = g := by
                rw [Option.some.injEq]
                exact eq_comm
              simp only [hcond]
              by_cases hxg : x = g
              · subst hxg
                by_cases hxf : x = f
                · subst hxf
                  simp only [if_true, Function.update_self]
                  have := hlast rfl
                  omega
                · simp only [if_neg hxf, if_true, Function.update_self]
                  omega
              · simp only [if_neg hxg, Function.update_of_ne hxg]
                by_cases hxf : x = f
                · subst hxf
                  simp only [if_true, Function.update_of_ne hxg]
                  omega
                · simp only [if_neg hxf]
                  omega
      · -- `oldfd` had the only reference, and is gone
        refine iff_of_false ?_ (fun h => hlast h.1)
        rintro ⟨result, s', files', hok, heffect⟩
        have herr : ∃ result, s₁.mapFdToFile files oldfd = .error result := by
          cases hmap : s₁.mapFdToFile files oldfd with
          | error result => exact ⟨result, rfl⟩
          | ok x =>
              have hx := (mapFdToFile_of_free hfree).1 hmap
              rw [hold] at hx
              cases hx.1
              exact absurd hx.2 hlast
        obtain ⟨result', herr⟩ := herr
        have hneg := mapFdToFile_neg herr
        rw [dup2Point_error herr] at hok
        cases hok
        rw [Dup2Effect, hold, hnew] at heffect
        simp only at heffect
        split at heffect
        · have hself := congrArg (fun t : FileTables => (t.fileObjects g).count) heffect.1
          simp only [hfiles, Function.update_self] at hself
          omega
        · omega

end Dup2

/-- `dup2` does what it should exactly under the condition. -/
theorem dup2Contract_iff (s : FileTables) (files : FdTable) (beyond : Int → Bool)
    (oldfd newfd : Int) :
    Dup2Contract s files beyond oldfd newfd ↔ Dup2Condition s files beyond oldfd newfd := by
  rw [Dup2Condition]
  cases hnew : fdIndex newfd with
  | none => exact dup2Contract_outside hnew
  | some i =>
      simp only
      cases hg : files i with
      | none =>
          rw [dup2Contract_unused hnew hg]
          cases hold : s.mapFdToFile files oldfd with
          | error result => exact iff_of_true (fun f h => by cases h) trivial
          | ok f => exact ⟨fun h => h f rfl, fun h g hg => by cases hg; exact h⟩
      | some g =>
          by_cases hcount : (s.fileObjects g).count = 0
          · -- `newfd` itself gets an error
            have hmap : s.mapFdToFile files newfd = .error (-ebadf) := by
              simp only [FileTables.mapFdToFile, hnew, hg, if_pos hcount]
            have hused : FileTables.fdUsed files beyond newfd = true := by
              simp only [FileTables.fdUsed, hnew, hg, Option.isSome_some]
            have hcall : s.dup2Syscall files beyond oldfd newfd = .ok (-ebadf, s, files) :=
              dup2Syscall_error hused hmap
            rw [Dup2Contract, hcall]
            cases hold : s.mapFdToFile files oldfd with
            | error result =>
                refine iff_of_true ⟨_, _, _, rfl, ?_⟩ hcount
                rw [Dup2Effect, hold]
                exact ⟨by decide, rfl, SameCounts.refl s⟩
            | ok f =>
                refine iff_of_false ?_ (fun h => h.1 hcount)
                rintro ⟨result, s', files', h, heffect⟩
                cases h
                have hne : oldfd ≠ newfd := by
                  rintro rfl
                  rw [hold] at hmap
                  cases hmap
                simp only [Dup2Effect, hold, hnew, if_neg hne] at heffect
                exact absurd heffect.1 (by decide)
          · cases hold : s.mapFdToFile files oldfd with
            | error result =>
                exact iff_of_false (not_dup2Contract_error hnew hg hcount hold) hcount
            | ok f =>
                rw [dup2Contract_open hnew hg hcount hold]
                exact ⟨fun h => ⟨hcount, h⟩, fun h => h.2⟩

/-- As `init` starts, `dup2` of a descriptor that is not open gives a reference to the console
away. -/
theorem not_dup2Contract : ∃ s, (FileTables.boot noFileSystems).start = .ok s ∧
    ¬ Dup2Contract s initFiles (fun _ => false) 5 1 := by
  have h : (match (FileTables.boot noFileSystems).start with
      | .ok s => decide ((s.fileObjects 1).count = 1)
      | .error _ => false) = true := by decide
  split at h
  · rename_i s hstart
    have hcount : (s.fileObjects 1).count = 1 := of_decide_eq_true h
    have hnew : fdIndex 1 = some 1 := rfl
    have hg : initFiles 1 = some 1 := rfl
    have hold : s.mapFdToFile initFiles 5 = .error (-enfile) := rfl
    refine ⟨s, hstart, not_dup2Contract_error hnew hg ?_ hold⟩
    rw [hcount]
    exact Nat.one_ne_zero
  · cases h

end Vmwos
