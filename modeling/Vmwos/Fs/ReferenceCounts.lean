import Vmwos.Fs.InodeReferences
import Vmwos.Fs.PerProcess
import Vmwos.Library.References
import Vmwos.Processes.WaitQueues

/-!
# Reference counts

The count of a file object is the number of descriptors of live processes that point to it, and
the count of an inode the sum of the counts of the file objects that refer to it (`RefCounts`).
The calls that open, close and copy descriptors keep both (`run_refCounts`), so a slot is never
given to another file while a descriptor leads to it (`KeepsReferred`).

The inodes are counted at the level of the tables alone (`Tallied`); the file objects by way of the
processes, whose tables `vfork` and `process_destroy` walk through one descriptor after another.
-/

set_option autoImplicit false

namespace Vmwos

open Library

namespace FileTables

/-- The references to an inode: each file object has as many to its own as it is counted. -/
def inodeReferences (s : FileTables) : InodeId → Nat :=
  references fun f => through (s.fileObjects f).count (s.fileObjects f).inode

/-- The inodes are counted, and no file object in use is without one. -/
structure Tallied (s : FileTables) : Prop where
  count : ∀ i, (s.inodes i).count = s.inodeReferences i
  inode : ∀ f, (s.fileObjects f).count ≠ 0 → ∃ i, (s.fileObjects f).inode = some i

/-- Every file object keeps its inode, and an inode that stays in use its file. -/
structure Keeps (s s' : FileTables) : Prop where
  inode : ∀ f, (s'.fileObjects f).inode = (s.fileObjects f).inode
  file : ∀ i, (s.inodes i).count ≠ 0 → (s'.inodes i).count ≠ 0 →
    (s'.inodes i).sb = (s.inodes i).sb ∧ (s'.inodes i).number = (s.inodes i).number
  mountpoints : SameMountpoints s.toFileSystems s'.toFileSystems

end FileTables

section Tables

variable {s s₁ s' : FileTables} {f : FileId} {i : InodeId} {files : FdTable}

/-- One file object changes. -/
theorem inodeReferences_update {file : FileObject}
    (hobjects : s'.fileObjects = Function.update s.fileObjects f file) (i : InodeId) :
    s'.inodeReferences i + through (s.fileObjects f).count (s.fileObjects f).inode i =
      s.inodeReferences i + through file.count file.inode i := by
  have hheld : (fun g => through (s'.fileObjects g).count (s'.fileObjects g).inode) =
      Function.update (fun g => through (s.fileObjects g).count (s.fileObjects g).inode) f
        (through file.count file.inode) := by
    funext g
    rw [hobjects]
    by_cases hg : g = f
    · subst hg
      simp
    · simp [hg]
  rw [FileTables.inodeReferences, hheld, references_update]
  rfl

namespace FileTables

/-- The inodes stay counted when they change with the one file object that does. -/
theorem Tallied.update {file : FileObject} (h : s.Tallied)
    (hobjects : s'.fileObjects = Function.update s.fileObjects f file)
    (hcount : ∀ i, (s'.inodes i).count + through (s.fileObjects f).count (s.fileObjects f).inode i =
      (s.inodes i).count + through file.count file.inode i)
    (hinode : file.count ≠ 0 → ∃ i, file.inode = some i) : s'.Tallied where
  count i := by
    have hreferences := inodeReferences_update hobjects i
    have hi := hcount i
    have htally := h.count i
    omega
  inode g hg := by
    rw [hobjects] at hg ⊢
    by_cases hgf : g = f
    · subst hgf
      rw [Function.update_self] at hg ⊢
      exact hinode hg
    · rw [Function.update_of_ne hgf] at hg ⊢
      exact h.inode g hg

/-- The inode of a file object in use is in use. -/
theorem Tallied.inode_pos (h : s.Tallied) (hf : (s.fileObjects f).count ≠ 0)
    (hi : (s.fileObjects f).inode = some i) : (s.inodes i).count ≠ 0 := by
  have hle := held_le_references
    (fun g => through (s.fileObjects g).count (s.fileObjects g).inode) f i
  simp only [hi, through_some, if_true] at hle
  rw [h.count]
  exact Nat.ne_of_gt (Nat.lt_of_lt_of_le (Nat.pos_of_ne_zero hf) hle)

theorem Keeps.refl (s : FileTables) : s.Keeps s :=
  ⟨fun _ => rfl, fun _ _ _ => ⟨rfl, rfl⟩, SameMountpoints.refl _⟩

/-- Two steps, as long as no slot is given up and taken again in between. -/
theorem Keeps.trans (h : s.Keeps s₁) (h' : s₁.Keeps s')
    (hbetween : ∀ i, (s.inodes i).count ≠ 0 → (s'.inodes i).count ≠ 0 →
      (s₁.inodes i).count ≠ 0) : s.Keeps s' where
  inode f := (h'.inode f).trans (h.inode f)
  file i hi hi' := by
    have hi₁ := hbetween i hi hi'
    exact ⟨(h'.file i hi₁ hi').1.trans (h.file i hi hi₁).1,
      (h'.file i hi₁ hi').2.trans (h.file i hi hi₁).2⟩
  mountpoints := h.mountpoints.trans h'.mountpoints

/-- Changing a file object but not its inode. -/
theorem update_inode {file : FileObject}
    (hobjects : s'.fileObjects = Function.update s.fileObjects f file)
    (hfile : file.inode = (s.fileObjects f).inode) (g : FileId) :
    (s'.fileObjects g).inode = (s.fileObjects g).inode := by
  rw [hobjects]
  by_cases hg : g = f
  · subst hg
    rw [Function.update_self, hfile]
  · rw [Function.update_of_ne hg]

/-! ## One reference more or less -/

theorem filesIncrementCount_spec (h : s.Tallied) (hok : s.filesIncrementCount f = .ok s') :
    s'.Tallied ∧ s.Keeps s' ∧ (∀ i, (s.inodes i).count ≤ (s'.inodes i).count) ∧
      s'.fileObjects = Function.update s.fileObjects f
        { s.fileObjects f with count := (s.fileObjects f).count + 1 } := by
  cases hi : (s.fileObjects f).inode with
  | none =>
      rw [filesIncrementCount_of_none hi] at hok
      cases hok
  | some i =>
      rw [filesIncrementCount_of_inode hi] at hok
      cases hok
      have htakes := takesRef_increment s.toVfs i
      have hobjects : (s.setFile f { s.fileObjects f with
            count := (s.fileObjects f).count + 1 }).fileObjects =
          Function.update s.fileObjects f
            { s.fileObjects f with count := (s.fileObjects f).count + 1 } := rfl
      refine ⟨h.update hobjects (fun j => ?_) fun _ => ⟨i, hi⟩,
        ⟨update_inode hobjects rfl, fun j hj _ => htakes.file j hj, htakes.mountpoints⟩,
        fun j => ?_, hobjects⟩
      · have hj := htakes.count j
        show ((s.setInode i _).inodes j).count + _ = _
        rw [hj, hi]
        simp only [through_some, eq_comm (a := i)]
        split <;> omega
      · show _ ≤ ((s.setInode i _).inodes j).count
        rw [htakes.count j]
        exact Nat.le_add_right _ _

/-- The inode of a file object in use was counted before. -/
theorem filesIncrementCount_inode (h : s.Tallied) (hf : (s.fileObjects f).count ≠ 0)
    (hok : s.filesIncrementCount f = .ok s') (hi : (s'.inodes i).count ≠ 0) :
    (s.inodes i).count ≠ 0 := by
  obtain ⟨j, hj⟩ := h.inode f hf
  rw [filesIncrementCount_of_inode hj] at hok
  cases hok
  by_cases hij : i = j
  · subst hij
    exact h.inode_pos hf hj
  · have hsame : ((s.setInode j { s.inodes j with count := (s.inodes j).count + 1 }).inodes
        i).count = (s.inodes i).count := by rw [setInode_of_ne s.toVfs _ hij]
    rw [← hsame]
    exact hi

theorem fileObjectFree_spec (h : s.Tallied) (hf : (s.fileObjects f).count ≠ 0)
    (hok : s.fileObjectFree f = .ok s') :
    s'.Tallied ∧ s.Keeps s' ∧ (∀ i, (s'.inodes i).count ≤ (s.inodes i).count) ∧
      s'.fileObjects = Function.update s.fileObjects f
        { s.fileObjects f with count := (s.fileObjects f).count - 1 } := by
  obtain ⟨i, hi⟩ := h.inode f hf
  have hobjects := fileObjectFree_fileObjects hok
  simp only [fileObjectFree, hi] at hok
  obtain ⟨⟨r, vfs⟩, hfree, rfl⟩ := map_eq_ok.1 hok
  have hfree' : s.toVfs.inodeFree i = .ok (r, vfs) := hfree
  obtain ⟨hcount, hfile, hmounts⟩ := inodeFree_takesRef hfree' (h.inode_pos hf hi)
  refine ⟨h.update hobjects (fun j => ?_) fun _ => ⟨i, hi⟩,
    ⟨update_inode hobjects rfl, fun j _ hj => hfile j hj, hmounts⟩, fun j => ?_, hobjects⟩
  · have hj := hcount j
    show (vfs.inodes j).count + _ = _
    rw [hi]
    simp only [through_some, eq_comm (a := i)]
    by_cases hji : j = i
    · rw [if_pos hji] at hj
      rw [if_pos hji, if_pos hji]
      omega
    · rw [if_neg hji] at hj
      rw [if_neg hji, if_neg hji]
      exact hj
  · have hj := hcount j
    exact Nat.le.intro hj

/-! ## The descriptors of a table -/

/-- `vfork` counts each file object once for every descriptor that points to it. -/
theorem eachFile_increment {is : List (Fin maxFdPerProc)} (h : s.Tallied)
    (hok : eachFile filesIncrementCount files is s = .ok s') :
    s'.Tallied ∧ s.Keeps s' ∧ (∀ i, (s.inodes i).count ≤ (s'.inodes i).count) ∧
      ∀ f, (s'.fileObjects f).count = (s.fileObjects f).count + listReferences files is f := by
  induction is generalizing s with
  | nil =>
      cases hok
      exact ⟨h, Keeps.refl _, fun _ => Nat.le_refl _, fun _ => rfl⟩
  | cons fd is ih =>
      rw [eachFile] at hok
      cases hfd : files fd with
      | none =>
          simp only [hfd] at hok
          obtain ⟨htally, hkeeps, hle, hcount⟩ := ih h hok
          refine ⟨htally, hkeeps, hle, fun f => ?_⟩
          rw [hcount f, listReferences_cons, hfd, through_none, Nat.zero_add]
      | some g =>
          simp only [hfd] at hok
          split at hok
          · cases hok
          · rename_i s₁ hg
            obtain ⟨htally₁, hkeeps₁, hle₁, hobjects⟩ := filesIncrementCount_spec h hg
            obtain ⟨htally, hkeeps, hle, hcount⟩ := ih htally₁ hok
            refine ⟨htally, hkeeps₁.trans hkeeps fun i hi _ => ?_,
              fun i => Nat.le_trans (hle₁ i) (hle i), fun f => ?_⟩
            · exact Nat.ne_of_gt (Nat.lt_of_lt_of_le (Nat.pos_of_ne_zero hi) (hle₁ i))
            · rw [hcount f, hobjects, listReferences_cons, hfd, through_some]
              by_cases hf : f = g
              · subst hf
                rw [Function.update_self, if_pos rfl, Nat.add_assoc]
              · rw [Function.update_of_ne hf, if_neg (Ne.symm hf), Nat.zero_add]

/-- `process_destroy` gives the references of the descriptors back, and nothing of what is
counted beside them. -/
theorem eachFile_free {is : List (Fin maxFdPerProc)} {rest : FileId → Nat} (h : s.Tallied)
    (hrest : ∀ f, (s.fileObjects f).count = rest f + listReferences files is f)
    (hok : eachFile fileObjectFree files is s = .ok s') :
    s'.Tallied ∧ s.Keeps s' ∧ (∀ i, (s'.inodes i).count ≤ (s.inodes i).count) ∧
      ∀ f, (s'.fileObjects f).count = rest f := by
  induction is generalizing s with
  | nil =>
      cases hok
      exact ⟨h, Keeps.refl _, fun _ => Nat.le_refl _, hrest⟩
  | cons fd is ih =>
      rw [eachFile] at hok
      cases hfd : files fd with
      | none =>
          simp only [hfd] at hok
          refine ih h (fun f => ?_) hok
          rw [hrest f, listReferences_cons, hfd, through_none, Nat.zero_add]
      | some g =>
          simp only [hfd] at hok
          split at hok
          · cases hok
          · rename_i s₁ hg
            -- the descriptor is one of those that are counted
            have hpos := hrest g
            rw [listReferences_cons, hfd, through_some, if_pos rfl] at hpos
            obtain ⟨htally₁, hkeeps₁, hle₁, hobjects⟩ := fileObjectFree_spec h (by omega) hg
            obtain ⟨htally, hkeeps, hle, hcount⟩ := ih htally₁ (fun f => by
              have hf := hrest f
              rw [listReferences_cons, hfd, through_some] at hf
              rw [hobjects]
              by_cases hfg : f = g
              · subst hfg
                rw [if_pos rfl] at hf
                rw [Function.update_self]
                show (s.fileObjects f).count - 1 = _
                omega
              · rw [if_neg (Ne.symm hfg), Nat.zero_add] at hf
                rw [Function.update_of_ne hfg, hf]) hok
            refine ⟨htally, hkeeps₁.trans hkeeps fun i _ hi => ?_,
              fun i => Nat.le_trans (hle i) (hle₁ i), hcount⟩
            exact Nat.ne_of_gt (Nat.lt_of_lt_of_le (Nat.pos_of_ne_zero hi) (hle i))

/-! ## A file object for an inode -/

/-- A slot that was free holds a file object with one reference, and the inodes in use are those
of the same files. -/
structure Opens (s s' : FileTables) (f : FileId) : Prop where
  free : (s.fileObjects f).count = 0
  objects : ∃ file : FileObject, file.count = 1 ∧
    s'.fileObjects = Function.update s.fileObjects f file
  file : ∀ i, (s.inodes i).count ≠ 0 →
    (s'.inodes i).sb = (s.inodes i).sb ∧ (s'.inodes i).number = (s.inodes i).number
  mountpoints : SameMountpoints s.toFileSystems s'.toFileSystems

theorem truncateOpened_spec {flags : Nat} (hok : s.truncateOpened f i flags = .ok s') :
    (∃ offset, s'.fileObjects = Function.update s.fileObjects f
        { s.fileObjects f with fileOffset := offset }) ∧
      (∀ j, (s.inodes j).SameFile (s'.inodes j)) ∧
      SameMountpoints s.toFileSystems s'.toFileSystems := by
  rw [truncateOpened] at hok
  split at hok
  · cases hok
    refine ⟨⟨(s.fileObjects f).fileOffset, ?_⟩, fun _ => ⟨rfl, rfl, rfl⟩, SameMountpoints.refl _⟩
    rw [Function.update_eq_self]
  · split at hok
    · cases hok
    · rename_i result inode fs htruncate
      cases hok
      refine ⟨⟨0, rfl⟩, fun j => ?_, (truncateInode_sameMounts htruncate).mountpoints⟩
      show (s.inodes j).SameFile ((s.setInode i inode).inodes j)
      by_cases hj : j = i
      · subst hj
        rw [setInode_self]
        exact truncateInode_sameFile htruncate
      · rw [setInode_of_ne s.toVfs inode hj]
        exact ⟨rfl, rfl, rfl⟩

/-- A file object is allocated and filled in; `O_TRUNC` changes the inode, but not which file it
stands for. -/
theorem openInode_cases {flags : Nat} (hok : s.openInode i flags = .ok (.ok f, s')) :
    (s.fileObjects f).count = 0 ∧
      (∃ file : FileObject, file.count = 1 ∧ file.inode = some i ∧
        s'.fileObjects = Function.update s.fileObjects f file) ∧
      (∀ j, (s.inodes j).SameFile (s'.inodes j)) ∧
      SameMountpoints s.toFileSystems s'.toFileSystems := by
  rw [openInode, fileObjectAllocate] at hok
  cases hfind : (List.finRange maxOpenFiles).find? fun f => (s.fileObjects f).count = 0 with
  | none =>
      rw [hfind] at hok
      cases hok
  | some g =>
      simp only [hfind, Option.map_some] at hok
      split at hok
      · cases hok
      · split at hok
        · cases hok
        · rename_i s₂ htruncate
          cases hok
          obtain ⟨⟨offset, hobjects⟩, hfile, hmounts⟩ := truncateOpened_spec htruncate
          refine ⟨by simpa using List.find?_some hfind, ⟨{ s₂.fileObjects f with fileOffset :=
            if flags &&& oAppend = 0 then (s₂.fileObjects f).fileOffset else (s₂.inodes i).size },
            ?_, ?_, ?_⟩, hfile, hmounts⟩
          · show (s₂.fileObjects f).count = 1
            rw [hobjects, Function.update_self]
            simp [setFile]
          · show (s₂.fileObjects f).inode = some i
            rw [hobjects, Function.update_self]
            simp [setFile]
          · show Function.update s₂.fileObjects f _ = _
            rw [hobjects]
            simp [setFile]

/-- Opening an inode that a reference has been taken to. -/
theorem openInode_spec {vfs : Vfs} {flags : Nat} (h : s.Tallied) (htakes : s.toVfs.TakesRef vfs i)
    (hok : (s.setVfs vfs).openInode i flags = .ok (.ok f, s')) : s'.Tallied ∧ s.Opens s' f := by
  obtain ⟨hfree, ⟨file, hone, hinode, hobjects⟩, hfile, hmounts⟩ := openInode_cases hok
  have hfree' : (s.fileObjects f).count = 0 := hfree
  have hobjects' : s'.fileObjects = Function.update s.fileObjects f file := hobjects
  refine ⟨h.update hobjects' (fun j => ?_) fun _ => ⟨i, hinode⟩, hfree', ⟨file, hone, hobjects'⟩,
    fun j hj => ?_, htakes.mountpoints.trans hmounts⟩
  · have hcount : (s'.inodes j).count = (vfs.inodes j).count := (hfile j).2.2
    rw [hcount, htakes.count j, hfree', hone, hinode, through_zero, through_some]
    simp only [eq_comm (a := i), Nat.add_zero]
  · exact ⟨(hfile j).1.trans (htakes.file j hj).1, (hfile j).2.1.trans (htakes.file j hj).2⟩

/-- `open_file_object`. A lookup that finds no mount keeps the slot it has taken, but then nothing
is created either. -/
theorem openFileObject_spec {d p : CString} {flags : Nat} (h : s.Tallied) (hd : StartsAtRoot d)
    (hnul : ∀ k, 0 ∉ (s.superblockTable k).mountpoint)
    (hok : s.openFileObject d p flags = .ok (.ok f, s')) : s'.Tallied ∧ s.Opens s' f := by
  rw [openFileObject] at hok
  split at hok
  · cases hok
  · rename_i hlookup
    exact openInode_spec h (takesRef_lookup hlookup) hok
  · rename_i result vfs hlookup
    split at hok
    · cases hok
    · split at hok
      · cases hok
      · rename_i result' i vfs' hcreate
        have hmount : s.resolve d p ≠ .ok none := by
          intro hnone
          cases lookedUp hlookup with
          | full hfree => exact resolve_ne_none_of_create hd hnul hcreate hnone
          | noMount hfree hresolve =>
              refine resolve_ne_none_of_create hd ?_ hcreate ?_
              · exact hnul
              · exact hnone
          | missing hfree hresolve =>
              rw [hnone] at hresolve
              cases hresolve
          | destroyed hfree hresolve =>
              rw [hnone] at hresolve
              cases hresolve
        exact openInode_spec h ((keepsRefs_lookup hlookup hmount).takesRef (takesRef_create hcreate))
          hok
      · cases hok

/-! ## The errors of `open` -/

theorem inodeLookupAndAlloc_neg {s s' : Vfs} {d p : CString} {r : Int}
    (h : s.inodeLookupAndAlloc d p = .ok ((r, none), s')) : r < 0 := by
  cases lookedUp h with
  | full => decide
  | noMount => decide
  | missing => decide
  | destroyed => decide

theorem createFileObject_neg {s s' : Vfs} {d p : CString} {r : Int}
    (h : s.createFileObject d p = .ok ((r, none), s')) : r < 0 := by
  rw [Vfs.createFileObject] at h
  split at h
  · cases h
  · split at h
    · cases h
    · rename_i hlookup
      cases h
      exact inodeLookupAndAlloc_neg hlookup
    · rw [Vfs.createIn] at h
      split at h
      · cases h
        decide
      · split at h
        · cases h
        · split at h
          · rename_i hneg
            cases h
            exact hneg
          · split at h
            · cases h
            · rw [Vfs.linkNew] at h
              split at h
              · cases h
              · split at h
                · rename_i hneg
                  cases h
                  exact hneg
                · obtain ⟨_, -, heq⟩ := map_eq_ok.1 h
                  cases heq

theorem openFileObject_neg {d p : CString} {flags : Nat} {r : Int}
    (h : s.openFileObject d p flags = .ok (.error r, s')) : r < 0 := by
  have hinode : ∀ {s₁ : FileTables} {i : InodeId},
      s₁.openInode i flags = .ok (.error r, s') → r < 0 := by
    intro s₁ i h
    rw [openInode] at h
    split at h
    · cases h
      decide
    · split at h
      · cases h
      · dsimp only at h
        split at h
        · cases h
        · cases h
  rw [openFileObject] at h
  split at h
  · cases h
  · exact hinode h
  · split at h
    · cases h
      decide
    · split at h
      · cases h
      · exact hinode h
      · rename_i hcreate
        cases h
        exact createFileObject_neg hcreate

/-! ## The descriptors of the console -/

theorem tallied_boot (fs : FileSystems) : (boot fs).Tallied where
  count i := by
    simp only [inodeReferences, boot, references, FileObject.zeroed, through_zero,
      Finset.sum_const_zero]
    rfl
  inode f hf := absurd rfl hf

theorem fileSpecial_spec {which : FileId} (h : s.Tallied) (hwhich : (s.fileObjects which).count = 0)
    (hok : s.fileSpecial which = .ok s') :
    s'.Tallied ∧ SameMountpoints s.toFileSystems s'.toFileSystems ∧
      ∃ file : FileObject, file.count = 1 ∧
        s'.fileObjects = Function.update s.fileObjects which file := by
  rw [fileSpecial, inodeAllocate_eq] at hok
  cases hfree : s.freeInode with
  | none =>
      rw [hfree] at hok
      cases hok
  | some i =>
      simp only [hfree, Option.map_some, setInode_setInode] at hok
      obtain ⟨file, hfile, hone, hinode⟩ : ∃ file : FileObject,
          (if which = 0 then
              { s.fileObjects which with count := 1, inode := some i, flags := oRdonly }
            else if which = 1 ∨ which = 2 then
              { s.fileObjects which with count := 1, inode := some i, flags := oWronly }
            else { s.fileObjects which with count := 1, inode := some i }) = file ∧
          file.count = 1 ∧ file.inode = some i := by
        refine ⟨_, rfl, ?_, ?_⟩
        · split
          · rfl
          · split <;> rfl
        · split
          · rfl
          · split <;> rfl
      rw [hfile] at hok
      obtain ⟨inode, hinode₁, rfl⟩ : ∃ inode : Inode, inode.count = 1 ∧
          s' = (s.setFile which file).setVfs (s.setInode i inode) := by
        cases hok
        exact ⟨_, rfl, rfl⟩
      have hobjects : (s.setFile which file).fileObjects =
          Function.update s.fileObjects which file := rfl
      -- the inode was free, and has one reference now
      have htakes := takesRef_setInode (count_of_freeInode hfree) hinode₁
      refine ⟨h.update hobjects (fun j => ?_) fun _ => ⟨i, hinode⟩, SameMountpoints.refl _, file,
        hone, hobjects⟩
      rw [hwhich, hone, hinode, through_zero, through_some, Nat.add_zero]
      simp only [eq_comm (a := i)]
      exact htakes.count j

/-- The three descriptors have a file object each. -/
theorem start_spec {fs : FileSystems} (hok : (boot fs).start = .ok s) :
    s.Tallied ∧ SameMountpoints fs s.toFileSystems ∧
      ∀ f, (s.fileObjects f).count = if f.val < 3 then 1 else 0 := by
  rw [start] at hok
  split at hok
  · cases hok
  · rename_i s₁ h₁
    obtain ⟨htally₁, hmounts₁, file₁, hone₁, hobjects₁⟩ :=
      fileSpecial_spec (tallied_boot fs) rfl h₁
    split at hok
    · cases hok
    · rename_i s₂ h₂
      have hfree₂ : (s₁.fileObjects 1).count = 0 := by
        rw [hobjects₁, Function.update_of_ne (by decide)]
        rfl
      obtain ⟨htally₂, hmounts₂, file₂, hone₂, hobjects₂⟩ := fileSpecial_spec htally₁ hfree₂ h₂
      have hfree₃ : (s₂.fileObjects 2).count = 0 := by
        rw [hobjects₂, Function.update_of_ne (by decide), hobjects₁,
          Function.update_of_ne (by decide)]
        rfl
      obtain ⟨htally₃, hmounts₃, file₃, hone₃, hobjects₃⟩ := fileSpecial_spec htally₂ hfree₃ hok
      refine ⟨htally₃, (hmounts₁.trans hmounts₂).trans hmounts₃, fun f => ?_⟩
      rw [hobjects₃]
      by_cases hf₂ : f = 2
      · subst hf₂
        rw [Function.update_self, hone₃]
        rfl
      · rw [Function.update_of_ne hf₂, hobjects₂]
        by_cases hf₁ : f = 1
        · subst hf₁
          rw [Function.update_self, hone₂]
          rfl
        · rw [Function.update_of_ne hf₁, hobjects₁]
          by_cases hf₀ : f = 0
          · subst hf₀
            rw [Function.update_self, hone₁]
            rfl
          · rw [Function.update_of_ne hf₀, if_neg]
            · rfl
            · intro hlt
              have hval : f.val ≠ 0 ∧ f.val ≠ 1 ∧ f.val ≠ 2 :=
                ⟨fun h => hf₀ (Fin.ext h), fun h => hf₁ (Fin.ext h), fun h => hf₂ (Fin.ext h)⟩
              omega

end FileTables

end Tables

/-! ## The descriptors of the live processes -/

section Processes

variable {t t' : ProcTable} {p : ProcId}

/-- What of a control block the open files have to do with. -/
def Process.fileView (x : Process) : Bool × FdTable × CString := (x.valid, x.files, x.currentDir)

namespace ProcTable

/-- `vfork` by a live process: one control block that was free becomes like that of the caller. -/
theorem vfork_fileView (hlive : (t.allProcesses t.currentProc).valid = true)
    (hok : t.vfork = .ok (.suspended, t')) :
    ∃ child, (t.allProcesses child).valid = false ∧ ∀ q, (t'.allProcesses q).fileView =
      if q = child then (t.allProcesses t.currentProc).fileView else (t.allProcesses q).fileView := by
  rw [vfork, processCreate] at hok
  cases hfree : (List.finRange maxProcs).find? fun i => !(t.allProcesses i).valid with
  | none =>
      rw [hfree] at hok
      cases hok
  | some child =>
      have hchild : (t.allProcesses child).valid = false := not_valid_of_freeSlot hfree
      have hne : t.currentProc ≠ child := by
        intro h
        rw [h, hchild] at hlive
        cases hlive
      simp only [hfree] at hok
      cases hinsert : (t.takeSlot child).processInsert child with
      | error e =>
          rw [hinsert] at hok
          cases hok
      | ok t₁ =>
          simp only [hinsert] at hok
          split at hok
          · cases hok
          · rename_i t₂ hschedule
            cases hok
            refine ⟨child, hchild, fun q => ?_⟩
            have hcreated : ∀ q, q ≠ child →
                (t₁.allProcesses q).fileView = (t.allProcesses q).fileView := by
              intro q hq
              rw [processInsert_field Process.fileView (fun _ _ _ => rfl) hinsert q, takeSlot_of_ne hq]
            rw [schedule_field Process.fileView (fun _ _ _ => rfl) hschedule q, forkInto]
            -- putting the parent to sleep changes nothing that matters
            rw [modify_field Process.fileView rfl]
            by_cases hq : q = child
            · subst hq
              rw [modify_self, if_pos rfl, ← hcreated _ hne]
              rfl
            · rw [modify_of_ne _ hq, if_neg hq, hcreated q hq]

theorem processDestroy_fileView (hok : t.processDestroy p = .ok t') (q : ProcId) :
    (t'.allProcesses q).fileView = if q = p then
      (false, (t.allProcesses q).files, (t.allProcesses q).currentDir)
    else (t.allProcesses q).fileView := by
  rw [processDestroy] at hok
  rw [processRemove_field Process.fileView (fun _ _ _ => rfl) hok q]
  by_cases hq : q = p
  · subst hq
    rw [modify_self, if_pos rfl]
    rfl
  · rw [modify_of_ne _ hq, if_neg hq]

end ProcTable

end Processes

namespace FileUse

variable {δ : Type}

/-- The descriptors of a live process; one that has been destroyed has none. -/
def descriptors (s : FileUse δ) (p : ProcId) : FdTable :=
  if (s.procs.allProcesses p).valid then s.files p else fun _ => none

/-- The count of each file object is the number of descriptors that point to it, and the count of
each inode the sum of those of its file objects. -/
structure RefCounts (s : FileUse δ) : Prop where
  files : ∀ f, (s.openFiles.fileObjects f).count =
    (Finset.univ.filter fun q : ProcId × Fin maxFdPerProc => s.descriptors q.1 q.2 = some f).card
  inodes : ∀ i, (s.openFiles.inodes i).count =
    ∑ f with (s.openFiles.fileObjects f).inode = some i, (s.openFiles.fileObjects f).count

/-- A descriptor points to the file object. -/
def Referred (s : FileUse δ) (f : FileId) : Prop := ∃ p fd, s.descriptors p fd = some f

/-- No slot that a descriptor leads to is used for something else: the file object keeps its inode,
and the inode its file, unless it is given up. -/
structure KeepsReferred (s s' : FileUse δ) : Prop where
  files : ∀ f, s.Referred f →
    (s'.openFiles.fileObjects f).inode = (s.openFiles.fileObjects f).inode
  inodes : ∀ f i, s.Referred f → (s.openFiles.fileObjects f).inode = some i →
    (s'.openFiles.inodes i).count ≠ 0 →
      (s'.openFiles.inodes i).sb = (s.openFiles.inodes i).sb ∧
        (s'.openFiles.inodes i).number = (s.openFiles.inodes i).number

/-- The process is a live one. -/
def Live (s : FileUse δ) (p : ProcId) : Prop := (s.procs.allProcesses p).valid = true

/-- A live process makes one of the calls `open`, `close`, `dup2` and `vfork`, or a live process is
destroyed. -/
def ChangesReferences (s : FileUse δ) : ProcId × FdOp → Prop
  | (p, .openFile _ _) => s.Live p
  | (p, .dup2 _ _ _) => s.Live p
  | (p, .vfork) => s.Live p
  | (p, .destroy proc) => s.Live p ∧ s.Live proc
  | (p, .io _ .close) => s.Live p
  | _ => False

/-- The call is successful, if it returns. -/
def Succeeds (dev : Devices δ) (s : FileUse δ) (op : ProcId × FdOp) : Prop :=
  ∀ reply s', step dev s op = .ok (reply, s') → 0 ≤ reply.result

/-- The references are counted, at both levels, and the names that tell mounts apart are as the
kernel has them. -/
structure Counted (s : FileUse δ) : Prop where
  tallied : s.openFiles.Tallied
  count : ∀ f, (s.openFiles.fileObjects f).count =
    references (fun p => tableReferences (s.descriptors p)) f
  currentDir : ∀ p, StartsAtRoot (s.procs.allProcesses p).currentDir
  mountpoints : ∀ k, 0 ∉ (s.openFiles.superblockTable k).mountpoint

section Invariant

variable {dev : Devices δ} {s s' : FileUse δ} {p : ProcId} {f : FileId}

theorem Counted.refCounts (h : s.Counted) : s.RefCounts where
  files f := by rw [h.count f, references_tables_eq_card]
  inodes i := by
    rw [h.tallied.count i]
    exact references_through_eq_sum _ _ i

/-- A file object that a descriptor points to is in use. -/
theorem Counted.referred (h : s.Counted) (hf : s.Referred f) :
    (s.openFiles.fileObjects f).count ≠ 0 := by
  obtain ⟨p, fd, hfd⟩ := hf
  have hle := held_le_references (fun p => tableReferences (s.descriptors p)) p f
  rw [h.count f]
  exact Nat.ne_of_gt (Nat.lt_of_lt_of_le (tableReferences_pos hfd) hle)

theorem descriptors_of_live (h : s.Live p) : s.descriptors p = s.files p := if_pos h

theorem descriptors_of_not_live (h : (s.procs.allProcesses p).valid = false) :
    s.descriptors p = fun _ => none := by
  rw [descriptors, h]
  rfl

/-- The descriptors are part of what the open files have to do with the processes. -/
theorem descriptors_congr {q : ProcId} (h : (s'.procs.allProcesses q).fileView =
    (s.procs.allProcesses p).fileView) : s'.descriptors q = s.descriptors p := by
  have hvalid : (s'.procs.allProcesses q).valid = (s.procs.allProcesses p).valid :=
    congrArg (fun v => v.1) h
  have hfiles : s'.files q = s.files p := congrArg (fun v => v.2.1) h
  rw [descriptors, descriptors, hvalid, hfiles]

/-- The inodes of the file objects in use keep their files, so those of the descriptors do. -/
theorem Counted.keepsReferred (h : s.Counted)
    (hinode : ∀ f, (s.openFiles.fileObjects f).count ≠ 0 →
      (s'.openFiles.fileObjects f).inode = (s.openFiles.fileObjects f).inode)
    (hfile : ∀ i, (s.openFiles.inodes i).count ≠ 0 → (s'.openFiles.inodes i).count ≠ 0 →
      (s'.openFiles.inodes i).sb = (s.openFiles.inodes i).sb ∧
        (s'.openFiles.inodes i).number = (s.openFiles.inodes i).number) : s.KeepsReferred s' where
  files _ hf := hinode _ (h.referred hf)
  inodes _ i hf hi hi' := hfile i (h.tallied.inode_pos (h.referred hf) hi) hi'

/-! ## The table of one process -/

theorem put_fileView (s : FileUse δ) (p q : ProcId) (openFiles : OpenFiles δ) (files : FdTable) :
    ((s.put p openFiles files).procs.allProcesses q).fileView =
      if q = p then ((s.procs.allProcesses p).valid, files, (s.procs.allProcesses p).currentDir)
      else (s.procs.allProcesses q).fileView := by
  by_cases hq : q = p
  · subst hq
    rw [if_pos rfl]
    simp only [put, ProcTable.modify_self]
    rfl
  · rw [if_neg hq]
    simp only [put, ProcTable.modify_of_ne _ hq]

theorem descriptors_put (h : s.Live p) (openFiles : OpenFiles δ) (files : FdTable) :
    (s.put p openFiles files).descriptors = Function.update s.descriptors p files := by
  funext q
  have hview := put_fileView s p q openFiles files
  by_cases hq : q = p
  · subst hq
    rw [if_pos rfl] at hview
    have hvalid : ((s.put q openFiles files).procs.allProcesses q).valid =
        (s.procs.allProcesses q).valid := congrArg Prod.fst hview
    have hfiles : (s.put q openFiles files).files q = files := congrArg (fun v => v.2.1) hview
    rw [Function.update_self, descriptors, if_pos (hvalid.trans h), hfiles]
  · rw [if_neg hq] at hview
    rw [Function.update_of_ne hq, descriptors_congr hview]

/-- A live process gets other descriptors, and the counts change with them. -/
theorem Counted.put (h : s.Counted) (hlive : s.Live p) {openFiles : OpenFiles δ} {files : FdTable}
    (htallied : openFiles.Tallied)
    (hcount : ∀ f, (openFiles.fileObjects f).count + tableReferences (s.files p) f =
      (s.openFiles.fileObjects f).count + tableReferences files f)
    (hmounts : SameMountpoints s.openFiles.toFileSystems openFiles.toFileSystems) :
    (s.put p openFiles files).Counted where
  tallied := htallied
  count f := by
    have hreferences := references_tables_update s.descriptors p files f
    rw [descriptors_of_live hlive] at hreferences
    rw [descriptors_put hlive]
    have hf := hcount f
    have hbefore := h.count f
    show (openFiles.fileObjects f).count = _
    omega
  currentDir q := by
    have hview := put_fileView s p q openFiles files
    by_cases hq : q = p
    · subst hq
      rw [if_pos rfl] at hview
      have hdir : ((s.put q openFiles files).procs.allProcesses q).currentDir =
          (s.procs.allProcesses q).currentDir := congrArg (fun v => v.2.2) hview
      rw [hdir]
      exact h.currentDir q
    · rw [if_neg hq] at hview
      have hdir : ((s.put p openFiles files).procs.allProcesses q).currentDir =
          (s.procs.allProcesses q).currentDir := congrArg (fun v => v.2.2) hview
      rw [hdir]
      exact h.currentDir q
  mountpoints k := by
    show 0 ∉ (openFiles.superblockTable k).mountpoint
    rw [hmounts k]
    exact h.mountpoints k

/-! ## The calls -/

theorem Counted.openFile {d pathname : CString} {flags : Nat} {result : Int} {tables : FileTables}
    {files : FdTable} (h : s.Counted) (hlive : s.Live p) (hd : StartsAtRoot d)
    (hok : s.openFiles.openSyscall (s.files p) d pathname flags = .ok (result, tables, files))
    (hresult : 0 ≤ result) :
    (s.putTables p tables files).Counted ∧ s.KeepsReferred (s.putTables p tables files) := by
  rw [FileTables.openSyscall] at hok
  cases hfd : FileTables.freeFd (s.files p) with
  | none =>
      rw [hfd] at hok
      cases hok
      exact absurd hresult (by decide)
  | some fd =>
      simp only [hfd] at hok
      have hfree : s.files p fd = none := by simpa using List.find?_some hfd
      split at hok
      · cases hok
      · rename_i hopen
        cases hok
        exact absurd hresult (Int.not_le.2 (FileTables.openFileObject_neg hopen))
      · rename_i f s₁ hopen
        cases hok
        obtain ⟨htallied, hunused, ⟨file, hone, hobjects⟩, hfile, hmounts⟩ :=
          FileTables.openFileObject_spec h.tallied hd h.mountpoints hopen
        refine ⟨h.put hlive htallied (fun g => ?_) hmounts,
          h.keepsReferred (fun g hg => ?_) fun i hi _ => hfile i hi⟩
        · have htable := tableReferences_update (s.files p) fd (some f) g
          rw [hfree, through_none, through_some] at htable
          show (tables.fileObjects g).count + _ = _
          rw [hobjects]
          by_cases hgf : g = f
          · subst hgf
            rw [if_pos rfl] at htable
            rw [Function.update_self, hone, hunused]
            omega
          · rw [if_neg (Ne.symm hgf)] at htable
            rw [Function.update_of_ne hgf]
            omega
        · have hgf : g ≠ f := by
            rintro rfl
            exact hg hunused
          show (tables.fileObjects g).inode = _
          rw [hobjects, Function.update_of_ne hgf]

theorem Counted.close {fd : Int} {result : Int} {tables : FileTables} {files : FdTable}
    (h : s.Counted) (hlive : s.Live p)
    (hok : s.openFiles.closeSyscall (s.files p) fd = .ok (result, tables, files))
    (hresult : 0 ≤ result) :
    (s.putTables p tables files).Counted ∧ s.KeepsReferred (s.putTables p tables files) := by
  rw [FileTables.closeSyscall] at hok
  split at hok
  · rename_i i f hi hmap
    obtain ⟨s₁, hfree, heq⟩ := map_eq_ok.1 hok
    cases heq
    obtain ⟨j, hj, hf, hcount⟩ := mapFdToFile_eq_ok.1 hmap
    rw [hi] at hj
    cases hj
    obtain ⟨htallied, hkeeps, -, hobjects⟩ := FileTables.fileObjectFree_spec h.tallied hcount hfree
    refine ⟨h.put hlive htallied (fun g => ?_) hkeeps.mountpoints,
      h.keepsReferred (fun g _ => hkeeps.inode g) hkeeps.file⟩
    have htable := tableReferences_update (s.files p) i none g
    rw [hf, through_none, through_some] at htable
    show (tables.fileObjects g).count + _ = _
    rw [hobjects]
    by_cases hgf : g = f
    · subst hgf
      rw [if_pos rfl] at htable
      rw [Function.update_self]
      show (s.openFiles.fileObjects g).count - 1 + _ = _
      omega
    · rw [if_neg (Ne.symm hgf)] at htable
      rw [Function.update_of_ne hgf]
      omega
  · cases hok
  · rename_i hmap
    cases hok
    exact absurd hresult (Int.not_le.2 (mapFdToFile_neg hmap))

/-- The end of `dup2`: the descriptor points to a file object that was in use. -/
theorem dup2Point_spec {t t' : FileTables} {files files' : FdTable} {oldfd newfd result : Int}
    (h : t.Tallied) (hok : t.dup2Point files oldfd newfd = .ok (result, t', files'))
    (hresult : 0 ≤ result) :
    ∃ i f, fdIndex newfd = some i ∧ files' = Function.update files i (some f) ∧
      t'.Tallied ∧ t.Keeps t' ∧
      (∀ i, (t'.inodes i).count ≠ 0 → (t.inodes i).count ≠ 0) ∧
      t'.fileObjects = Function.update t.fileObjects f
        { t.fileObjects f with count := (t.fileObjects f).count + 1 } := by
  rw [FileTables.dup2Point] at hok
  split at hok
  · rename_i hmap
    cases hok
    exact absurd hresult (Int.not_le.2 (mapFdToFile_neg hmap))
  · rename_i f hmap
    obtain ⟨-, -, -, hcount⟩ := mapFdToFile_eq_ok.1 hmap
    split at hok
    · cases hok
    · rename_i t₁ hincrement
      split at hok
      · cases hok
      · rename_i i hi
        cases hok
        obtain ⟨htallied, hkeeps, -, hobjects⟩ := FileTables.filesIncrementCount_spec h hincrement
        exact ⟨i, f, hi, rfl, htallied, hkeeps,
          fun _ => FileTables.filesIncrementCount_inode h hcount hincrement, hobjects⟩

theorem Counted.dup2 {oldfd newfd result : Int} {beyond : Int → Bool} {tables : FileTables}
    {files : FdTable} (h : s.Counted) (hlive : s.Live p)
    (hok : s.openFiles.dup2Syscall (s.files p) beyond oldfd newfd = .ok (result, tables, files))
    (hresult : 0 ≤ result) :
    (s.putTables p tables files).Counted ∧ s.KeepsReferred (s.putTables p tables files) := by
  rw [FileTables.dup2Syscall] at hok
  by_cases hused : FileTables.fdUsed (s.files p) beyond newfd
  · -- what was at the descriptor is closed first
    rw [if_pos hused] at hok
    split at hok
    · rename_i hmap
      cases hok
      exact absurd hresult (Int.not_le.2 (mapFdToFile_neg hmap))
    · rename_i g hmap
      obtain ⟨i, hi, hg, hcount⟩ := mapFdToFile_eq_ok.1 hmap
      split at hok
      · cases hok
      · rename_i t hfree
        obtain ⟨htallied, hkeeps, -, hobjects⟩ :=
          FileTables.fileObjectFree_spec h.tallied hcount hfree
        obtain ⟨j, f, hj, rfl, htallied', hkeeps', hpos, hobjects'⟩ :=
          dup2Point_spec htallied hok hresult
        rw [hi] at hj
        cases hj
        have hall := hkeeps.trans hkeeps' fun k _ hk => hpos k hk
        refine ⟨h.put hlive htallied' (fun k => ?_) hall.mountpoints,
          h.keepsReferred (fun k _ => hall.inode k) hall.file⟩
        have htable := tableReferences_update (s.files p) i (some f) k
        rw [hg, through_some, through_some] at htable
        -- one reference less to `g`, then one more to `f`
        have hless : (t.fileObjects k).count + (if g = k then 1 else 0) =
            (s.openFiles.fileObjects k).count := by
          rw [hobjects]
          by_cases hkg : k = g
          · subst hkg
            rw [Function.update_self, if_pos rfl]
            exact Nat.sub_add_cancel (Nat.pos_of_ne_zero hcount)
          · rw [Function.update_of_ne hkg, if_neg (Ne.symm hkg), Nat.add_zero]
        have hmore : (tables.fileObjects k).count =
            (t.fileObjects k).count + if f = k then 1 else 0 := by
          rw [hobjects']
          by_cases hkf : k = f
          · subst hkf
            rw [Function.update_self, if_pos rfl]
          · rw [Function.update_of_ne hkf, if_neg (Ne.symm hkf), Nat.add_zero]
        show (tables.fileObjects k).count + _ = _
        omega
  · rw [if_neg hused] at hok
    obtain ⟨i, f, hi, rfl, htallied, hkeeps, -, hobjects⟩ := dup2Point_spec h.tallied hok hresult
    have hfree : s.files p i = none := by
      rw [FileTables.fdUsed, hi] at hused
      simpa using hused
    refine ⟨h.put hlive htallied (fun k => ?_) hkeeps.mountpoints,
      h.keepsReferred (fun k _ => hkeeps.inode k) hkeeps.file⟩
    have htable := tableReferences_update (s.files p) i (some f) k
    rw [hfree, through_none, through_some] at htable
    show (tables.fileObjects k).count + _ = _
    rw [hobjects]
    by_cases hkf : k = f
    · subst hkf
      rw [if_pos rfl] at htable
      rw [Function.update_self]
      show (s.openFiles.fileObjects k).count + 1 + _ = _
      omega
    · rw [if_neg (Ne.symm hkf)] at htable
      rw [Function.update_of_ne hkf]
      omega

theorem Counted.vfork {reply : IoReply} (h : s.Counted) (hlive : s.Live p)
    (hok : s.vfork p = .ok (reply, s')) (hresult : 0 ≤ reply.result) :
    s'.Counted ∧ s.KeepsReferred s' := by
  rw [FileUse.vfork] at hok
  split at hok
  · cases hok
  · rename_i t hvfork
    obtain ⟨tables, heach, heq⟩ := map_eq_ok.1 hok
    cases heq
    obtain ⟨child, hchild, hview⟩ := ProcTable.vfork_fileView
      (t := { s.procs with currentProc := p }) hlive hvfork
    obtain ⟨htallied, hkeeps, -, hcount⟩ := FileTables.eachFile_increment h.tallied heach
    refine ⟨⟨htallied, fun f => ?_, fun q => ?_, fun k => ?_⟩,
      h.keepsReferred (fun f _ => hkeeps.inode f) hkeeps.file⟩
    · -- the child has the descriptors of its parent, and had none
      have hdescriptors : (⟨t, { s.openFiles with toFileTables := tables }⟩ :
          FileUse δ).descriptors = Function.update s.descriptors child (s.files p) := by
        funext q
        have hq := hview q
        by_cases hqc : q = child
        · rw [if_pos hqc] at hq
          rw [hqc] at hq ⊢
          rw [Function.update_self, ← descriptors_of_live hlive]
          exact descriptors_congr hq
        · rw [if_neg hqc] at hq
          rw [Function.update_of_ne hqc]
          exact descriptors_congr hq
      have hreferences := references_tables_update s.descriptors child (s.files p) f
      rw [descriptors_of_not_live hchild, tableReferences_empty] at hreferences
      rw [hdescriptors]
      have hf := hcount f
      rw [listReferences_finRange] at hf
      have hbefore := h.count f
      show (tables.fileObjects f).count = _
      omega
    · have hq := congrArg (fun v : Bool × FdTable × CString => v.2.2) (hview q)
      have hdir : (t.allProcesses q).currentDir = if q = child then
          (s.procs.allProcesses p).currentDir else (s.procs.allProcesses q).currentDir := by
        split at hq
        · rename_i hqc
          rw [if_pos hqc]
          exact hq
        · rename_i hqc
          rw [if_neg hqc]
          exact hq
      show StartsAtRoot (t.allProcesses q).currentDir
      rw [hdir]
      split
      · exact h.currentDir p
      · exact h.currentDir q
    · show 0 ∉ (tables.superblockTable k).mountpoint
      rw [hkeeps.mountpoints k]
      exact h.mountpoints k
  · cases hok
    exact absurd hresult (by decide)

theorem Counted.processDestroy {reply : IoReply} {proc : ProcId} (h : s.Counted)
    (hlive : s.Live proc) (hok : s.processDestroy proc = .ok (reply, s')) :
    s'.Counted ∧ s.KeepsReferred s' := by
  rw [FileUse.processDestroy] at hok
  split at hok
  · cases hok
  · rename_i t hdestroy
    obtain ⟨tables, heach, heq⟩ := map_eq_ok.1 hok
    cases heq
    have hview := ProcTable.processDestroy_fileView hdestroy
    have hfiles : (t.allProcesses proc).files = s.files proc := by
      have hproc := hview proc
      rw [if_pos rfl] at hproc
      exact congrArg (fun v : Bool × FdTable × CString => v.2.1) hproc
    have hdescriptors : (⟨t, { s.openFiles with toFileTables := tables }⟩ :
        FileUse δ).descriptors = Function.update s.descriptors proc fun _ => none := by
      funext q
      have hq := hview q
      by_cases hqp : q = proc
      · rw [if_pos hqp] at hq
        rw [hqp] at hq ⊢
        rw [Function.update_self]
        exact descriptors_of_not_live (congrArg Prod.fst hq)
      · rw [if_neg hqp] at hq
        rw [Function.update_of_ne hqp]
        exact descriptors_congr hq
    have hrest : ∀ f, (s.openFiles.fileObjects f).count = references (fun q => tableReferences
        (Function.update s.descriptors proc (fun _ => none) q)) f +
          listReferences (t.allProcesses proc).files (List.finRange maxFdPerProc) f := by
      intro f
      have hreferences := references_tables_update s.descriptors proc (fun _ => none) f
      rw [tableReferences_empty, descriptors_of_live hlive, Nat.add_zero] at hreferences
      rw [hfiles, listReferences_finRange, hreferences, h.count f]
    obtain ⟨htallied, hkeeps, -, hcount⟩ := FileTables.eachFile_free h.tallied hrest heach
    refine ⟨⟨htallied, fun f => ?_, fun q => ?_, fun k => ?_⟩,
      h.keepsReferred (fun f _ => hkeeps.inode f) hkeeps.file⟩
    · rw [hdescriptors]
      exact hcount f
    · have hdir : (t.allProcesses q).currentDir = (s.procs.allProcesses q).currentDir := by
        have hq := congrArg (fun v : Bool × FdTable × CString => v.2.2) (hview q)
        split at hq
        · exact hq
        · exact hq
      show StartsAtRoot (t.allProcesses q).currentDir
      rw [hdir]
      exact h.currentDir q
    · show 0 ∉ (tables.superblockTable k).mountpoint
      rw [hkeeps.mountpoints k]
      exact h.mountpoints k

/-- Every call that changes references. -/
theorem Counted.step {op : ProcId × FdOp} {reply : IoReply} (h : s.Counted)
    (hop : s.ChangesReferences op) (hsucceeds : s.Succeeds dev op)
    (hok : FileUse.step dev s op = .ok (reply, s')) : s'.Counted ∧ s.KeepsReferred s' := by
  have hresult := hsucceeds reply s' hok
  obtain ⟨p, op⟩ := op
  cases op with
  | openFile pathname flags =>
      obtain ⟨⟨result, tables, files⟩, hopen, heq⟩ := map_eq_ok.1 hok
      cases heq
      exact h.openFile hop (h.currentDir p) hopen hresult
  | dup2 oldfd newfd beyond =>
      obtain ⟨⟨result, tables, files⟩, hdup2, heq⟩ := map_eq_ok.1 hok
      cases heq
      exact h.dup2 hop hdup2 hresult
  | vfork => exact h.vfork hop hok hresult
  | destroy proc => exact h.processDestroy hop.2 hok
  | io fd call =>
      cases call with
      | close =>
          obtain ⟨⟨⟨reply, files⟩, openFiles⟩, hio, heq⟩ := map_eq_ok.1 hok
          cases heq
          obtain ⟨⟨result, tables, files⟩, hclose, heq⟩ := map_eq_ok.1 hio
          cases heq
          exact h.close hop hclose hresult
      | _ => exact hop.elim

/-! ## Booting -/

/-- init alone has descriptors. -/
theorem start_descriptors {stack text : Nat} {image : Image} (openFiles : OpenFiles δ) :
    (⟨ProcTable.startUserspace stack text image, openFiles⟩ : FileUse δ).descriptors =
      Function.update (fun _ _ => none) 1 initFiles := by
  funext q
  fin_cases q <;> rfl

theorem tableReferences_initFiles :
    ∀ f, tableReferences initFiles f = if f.val < 3 then 1 else 0 := by
  decide

theorem start_counted {stack text : Nat} {image : Image} {fs : FileSystems} {chars : δ}
    (hnul : ∀ k, 0 ∉ (fs.superblockTable k).mountpoint)
    (hok : start stack text image fs chars = .ok s) : s.Counted := by
  obtain ⟨tables, hstart, heq⟩ := map_eq_ok.1 hok
  cases heq
  obtain ⟨htallied, hmounts, hcount⟩ := FileTables.start_spec hstart
  refine ⟨htallied, fun f => ?_, fun q => ?_, fun k => ?_⟩
  · have hreferences := references_tables_update (fun (_ : ProcId) (_ : Fin maxFdPerProc) => none) 1
      initFiles f
    rw [start_descriptors]
    have hnone : references (fun _ : ProcId => tableReferences fun _ : Fin maxFdPerProc => none) f =
        0 := by simp [references]
    rw [tableReferences_empty, hnone, tableReferences_initFiles] at hreferences
    have hf := hcount f
    show (tables.fileObjects f).count = _
    omega
  · show StartsAtRoot ((ProcTable.startUserspace stack text image).allProcesses q).currentDir
    fin_cases q
    · exact Or.inl rfl
    · exact Or.inr rfl
    all_goals exact Or.inl rfl
  · show 0 ∉ (tables.superblockTable k).mountpoint
    rw [hmounts k]
    exact hnul k

/-- From the state in which init starts, over all successful calls of live processes that open,
close or copy descriptors, and over the destruction of processes: the references are counted in
every state, and no slot that a descriptor leads to is used again. -/
theorem run_refCounts {stack text : Nat} {image : Image} {fs : FileSystems} {chars : δ}
    {ops : List (ProcId × FdOp)} (hnul : ∀ k, 0 ∉ (fs.superblockTable k).mountpoint)
    (hstart : start stack text image fs chars = .ok s)
    (hops : Along (FileUse.step dev) (fun s op => s.ChangesReferences op ∧ s.Succeeds dev op)
      s ops) :
    s.RefCounts ∧ Throughout (FileUse.step dev)
      (fun s _ _ s' => s'.RefCounts ∧ s.KeepsReferred s') s ops := by
  have hs := start_counted hnul hstart
  refine ⟨hs.refCounts, throughout_of_along Counted ?_ hs hops⟩
  intro s op reply s' hcounted hop hok
  obtain ⟨hcounted', hkeeps⟩ := hcounted.step hop.1 hop.2 hok
  exact ⟨⟨hcounted'.refCounts, hkeeps⟩, hcounted'⟩

end Invariant

instance (s : FileUse δ) (p : ProcId) : Decidable (s.Live p) :=
  inferInstanceAs (Decidable ((s.procs.allProcesses p).valid = true))

instance (s : FileUse δ) (op : ProcId × FdOp) : Decidable (s.ChangesReferences op) :=
  match op with
  | (p, .openFile _ _) | (p, .dup2 _ _ _) | (p, .vfork) | (p, .io _ .close) =>
      inferInstanceAs (Decidable (s.Live p))
  | (p, .destroy proc) => inferInstanceAs (Decidable (s.Live p ∧ s.Live proc))
  | (_, .io _ (.read _)) | (_, .io _ (.write _)) | (_, .io _ (.llseek _ _))
  | (_, .io _ (.fcntl _ _)) | (_, .io _ (.ioctl _ _ _)) | (_, .io _ (.ftruncate64 _))
  | (_, .io _ (.getdents _)) => .isFalse id

instance (dev : Devices δ) (s : FileUse δ) (op : ProcId × FdOp) : Decidable (s.Succeeds dev op) :=
  match hstep : step dev s op with
  | .error e => .isTrue fun reply s' h => by rw [hstep] at h; cases h
  | .ok (reply, s') => decidable_of_iff (0 ≤ reply.result)
      ⟨fun h reply' s'' h' => by rw [hstep] at h'; cases h'; exact h, fun h => h reply s' hstep⟩

/-- init copies its standard output, and forks; the child closes its input and is destroyed. -/
theorem run_refCounts_fork : ∃ s, start 0 0 noImage noFileSystems () = .ok s ∧ s.RefCounts ∧
    Throughout (step noDevices) (fun s _ _ s' => s'.RefCounts ∧ s.KeepsReferred s') s
      [(1, .dup2 1 3 fun _ => false), (1, .vfork), (2, .io 0 .close), (1, .destroy 2)] := by
  have h : (match start 0 0 noImage noFileSystems () with
      | .ok s => decide (Along (step noDevices)
          (fun s op => s.ChangesReferences op ∧ s.Succeeds noDevices op) s
          [(1, .dup2 1 3 fun _ => false), (1, .vfork), (2, .io 0 .close), (1, .destroy 2)])
      | .error _ => false) = true := by decide
  split at h
  · rename_i s hstart
    exact ⟨s, hstart, run_refCounts (fun _ => List.not_mem_nil) hstart (of_decide_eq_true h)⟩
  · cases h

end FileUse

end Vmwos
