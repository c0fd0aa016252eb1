import Vmwos.Fs.ProcessFiles

/-!
# Descriptors belong to a process

A call with a descriptor should work on the file object that the table of its process has there,
and on no other. All the calls that use `map_fd_to_file` do; `getdents_syscall` takes the
descriptor for the number of the file object. `run_perProcess` is about histories of calls by any
processes.
-/

set_option autoImplicit false

namespace Vmwos

open Library

namespace OpenFiles

variable {δ : Type}

/-- The same state with other file objects. -/
def withObjects (s : OpenFiles δ) (objects : FileId → FileObject) : OpenFiles δ :=
  { s with fileObjects := objects }

end OpenFiles

namespace FileUse

variable {δ : Type}

/-- The same state with other file objects. -/
def withObjects (s : FileUse δ) (objects : FileId → FileObject) : FileUse δ :=
  { s with openFiles := s.openFiles.withObjects objects }

/-- The file object that a process has at a descriptor. -/
def slot (s : FileUse δ) (p : ProcId) (fd : Int) : Option FileId := (fdIndex fd).bind (s.files p)

/-- What a call does depends on one file object only, and changes no other one. -/
def UsesOnly (dev : Devices δ) (s : FileUse δ) (op : ProcId × FdOp) (f : FileId) : Prop :=
  ∀ objects : FileId → FileObject, objects f = s.openFiles.fileObjects f →
    step dev (s.withObjects objects) op = (step dev s op).map fun (reply, s') =>
      (reply, s'.withObjects (Function.update objects f (s'.openFiles.fileObjects f)))

/-- A call leaves every descriptor but one alone. -/
def ChangesOnlyFd (dev : Devices δ) (s : FileUse δ) (op : ProcId × FdOp) (p : ProcId) (fd : Int) :
    Prop :=
  ∀ reply s', step dev s op = .ok (reply, s') →
    ∀ q i, q ≠ p ∨ fdIndex fd ≠ some i → s'.files q i = s.files q i

/-- A call with a descriptor works on the file object at that descriptor of its process, and
reports an error and changes nothing if there is none. -/
def PerProcess (dev : Devices δ) (s : FileUse δ) : ProcId × FdOp → Prop
  | (p, .io fd call) =>
      match s.slot p fd with
      | none => ∃ result < 0, step dev s (p, .io fd call) = .ok (.ofResult result, s)
      | some f => s.UsesOnly dev (p, .io fd call) f ∧ s.ChangesOnlyFd dev (p, .io fd call) p fd
  | _ => True

/-- For `getdents`: the file object with the number of the descriptor is the one at the
descriptor, or there is none there and that file object is not in use. -/
def OwnNumber (s : FileUse δ) : ProcId × FdOp → Prop
  | (p, .io fd (.getdents _)) => ∀ f, fileIndex fd = some f →
      s.slot p fd = some f ∨ s.slot p fd = none ∧ (s.openFiles.fileObjects f).count = 0
  | _ => True

end FileUse

/-- No devices. -/
def noDevices : Devices Unit := ⟨fun _ => ⟨0, 0, 0⟩, fun _ => ⟨0, 0, none⟩⟩

/-- An empty image. -/
def noImage : Image := ⟨[], 0, 0, 0, 0⟩

/-! ## Calls on one file object -/

section OneFile

variable {δ α β : Type} {s : OpenFiles δ} {files : FdTable} {fd : Int} {f : FileId}

/-- What a function of the open files does depends on one file object only, and changes no other
one. -/
def LocalAt (s : OpenFiles δ) (f : FileId) (run : OpenFiles δ → Except Stuck (α × OpenFiles δ)) :
    Prop :=
  ∀ objects : FileId → FileObject, objects f = s.fileObjects f →
    run (s.withObjects objects) = (run s).map fun (a, s') =>
      (a, s'.withObjects (Function.update objects f (s'.fileObjects f)))

/-- Nothing is changed. -/
theorem localAt_const (a : α) : LocalAt s f fun s => .ok (a, s) := by
  intro objects h
  show Except.ok (a, s.withObjects objects) =
    .ok (a, s.withObjects (Function.update objects f (s.fileObjects f)))
  rw [← h, Function.update_eq_self]

theorem LocalAt.map {run : OpenFiles δ → Except Stuck (α × OpenFiles δ)} (h : LocalAt s f run)
    (g : α → β) : LocalAt s f fun s => (run s).map fun (a, s') => (g a, s') := by
  intro objects hobjects
  simp only [h objects hobjects]
  cases run s with
  | error e => rfl
  | ok r => rfl

theorem LocalAt.congr {run run' : OpenFiles δ → Except Stuck (α × OpenFiles δ)}
    (h : LocalAt s f run)
    (heq : ∀ objects : FileId → FileObject, objects f = s.fileObjects f →
      run' (s.withObjects objects) = run (s.withObjects objects)) : LocalAt s f run' := by
  intro objects hobjects
  have hself : run' s = run s := heq s.fileObjects rfl
  rw [heq objects hobjects, hself]
  exact h objects hobjects

theorem onFile_localAt (call : FileCall δ) : LocalAt s f fun s => s.onFile f call := by
  intro objects h
  have hcall : call ((s.withObjects objects).fileObjects f) (s.withObjects objects).toVfs
      (s.withObjects objects).chars = call (s.fileObjects f) s.toVfs s.chars := by
    rw [← h]
    rfl
  simp only [OpenFiles.onFile, hcall]
  cases call (s.fileObjects f) s.toVfs s.chars with
  | error e => rfl
  | ok r =>
      obtain ⟨reply, file, vfs, d⟩ := r
      have hself : Function.update s.fileObjects f file f = file := Function.update_self _ _ _
      show Except.ok (reply, _) = Except.ok (reply, _)
      simp only [OpenFiles.withObjects, FileTables.setFile, FileTables.setVfs, hself]

/-- The file object of a descriptor is looked up in its own count only. -/
theorem mapFdToFile_withObjects (hslot : (fdIndex fd).bind files = some f)
    {objects : FileId → FileObject} (h : objects f = s.fileObjects f) :
    (s.withObjects objects).mapFdToFile files fd = s.mapFdToFile files fd := by
  obtain ⟨i, hi, hf⟩ := Option.bind_eq_some_iff.1 hslot
  have hobject : (s.withObjects objects).fileObjects f = s.fileObjects f := h
  simp only [FileTables.mapFdToFile, hi, hf, hobject]

theorem onFd_localAt (hslot : (fdIndex fd).bind files = some f) (call : FileCall δ) :
    LocalAt s f fun s => s.onFd files fd call := by
  cases hmap : s.mapFdToFile files fd with
  | error result =>
      refine (localAt_const (IoReply.ofResult result)).congr fun objects h => ?_
      simp only [OpenFiles.onFd, mapFdToFile_withObjects hslot h, hmap]
  | ok g =>
      have hg : g = f := by
        obtain ⟨i, hi, hgi, -⟩ := mapFdToFile_eq_ok.1 hmap
        simpa [hi, hgi] using hslot
      subst hg
      refine (onFile_localAt call).congr fun objects h => ?_
      simp only [OpenFiles.onFd, mapFdToFile_withObjects hslot h, hmap]

/-- `getdents` on the file object with the number of the descriptor. -/
theorem getdentsSyscall_localAt (hindex : fileIndex fd = some f) (count : Nat) :
    LocalAt s f fun s => s.getdentsSyscall fd count := by
  by_cases hcount : (s.fileObjects f).count = 0
  · refine (localAt_const (IoReply.ofResult (-ebadf))).congr fun objects h => ?_
    have hobject : ((s.withObjects objects).fileObjects f).count = 0 := by
      rw [← hcount, ← h]
      rfl
    simp only [OpenFiles.getdentsSyscall, hindex, if_pos hobject]
  · refine (onFile_localAt (getdentsFileObject count)).congr fun objects h => ?_
    have hobject : ((s.withObjects objects).fileObjects f).count ≠ 0 := by
      intro h0
      apply hcount
      rw [← h0, ← h]
      rfl
    simp only [OpenFiles.getdentsSyscall, hindex, if_neg hobject]

/-- What `file_object_free` does with its file object. -/
def closeFileObject : FileCall δ := fun file s d =>
  let closed := { file with count := file.count - 1 }
  match file.inode with
  | none => .ok (.ofResult 0, closed, s, d)
  | some i => (s.inodeFree i).map fun (_, s) => (.ofResult 0, closed, s, d)

theorem onFile_closeFileObject : s.onFile f closeFileObject =
    (s.fileObjectFree f).map fun tables =>
      (IoReply.ofResult 0, { s with toFileTables := tables }) := by
  simp only [FileTables.fileObjectFree, OpenFiles.onFile, closeFileObject]
  cases hinode : (s.fileObjects f).inode with
  | none => rfl
  | some i =>
      have hfree : ∀ file, (s.setFile f file).inodeFree i = s.inodeFree i := fun _ => rfl
      simp only [hfree]
      cases s.inodeFree i with
      | error e => rfl
      | ok r => rfl

/-- `close`: the file object gives up a reference, and the descriptor is taken out of the table
of the process. -/
theorem close_localAt (dev : Devices δ) (hslot : (fdIndex fd).bind files = some f) :
    LocalAt s f fun s => s.ioCall dev files fd .close := by
  obtain ⟨i, hi, hf⟩ := Option.bind_eq_some_iff.1 hslot
  cases hmap : s.mapFdToFile files fd with
  | error result =>
      refine (localAt_const (IoReply.ofResult result, files)).congr fun objects h => ?_
      have hmap' := (mapFdToFile_withObjects hslot h).trans hmap
      simp only [OpenFiles.ioCall, FileTables.closeSyscall, hi, hmap', Except.map]
  | ok g =>
      have hg : g = f := by
        obtain ⟨j, hj, hgj, -⟩ := mapFdToFile_eq_ok.1 hmap
        simpa [hj, hgj] using hslot
      subst hg
      refine ((onFile_localAt closeFileObject).map fun _ =>
        (IoReply.ofResult 0, Function.update files i none)).congr fun objects h => ?_
      have hmap' := (mapFdToFile_withObjects hslot h).trans hmap
      simp only [OpenFiles.ioCall, FileTables.closeSyscall, hi, hmap', onFile_closeFileObject]
      cases (s.withObjects objects).fileObjectFree g with
      | error e => rfl
      | ok tables => rfl

/-- Every call with a descriptor, as long as `getdents` is given the number of the file object. -/
theorem ioCall_localAt (dev : Devices δ) (hslot : (fdIndex fd).bind files = some f) (call : IoCall)
    (hnumber : ∀ count, call = .getdents count → fileIndex fd = some f) :
    LocalAt s f fun s => s.ioCall dev files fd call := by
  cases call with
  | read count => exact (onFd_localAt hslot _).map fun reply => (reply, files)
  | write buf => exact (onFd_localAt hslot _).map fun reply => (reply, files)
  | llseek offset whence => exact (onFd_localAt hslot _).map fun reply => (reply, files)
  | fcntl cmd third => exact (onFd_localAt hslot _).map fun reply => (reply, files)
  | ioctl cmd third fourth => exact (onFd_localAt hslot _).map fun reply => (reply, files)
  | ftruncate64 size => exact (onFd_localAt hslot _).map fun reply => (reply, files)
  | getdents count =>
      exact (getdentsSyscall_localAt (hnumber count rfl) count).map fun reply => (reply, files)
  | close => exact close_localAt dev hslot

/-- There is no file object at the descriptor. -/
theorem mapFdToFile_none (hslot : (fdIndex fd).bind files = none) :
    s.mapFdToFile files fd = .error (-enfile) := by
  rw [FileTables.mapFdToFile]
  cases hi : fdIndex fd with
  | none => rfl
  | some i =>
      rw [hi, Option.bind_some] at hslot
      simp only [hslot]

theorem onFd_none (hslot : (fdIndex fd).bind files = none) (call : FileCall δ) :
    s.onFd files fd call = .ok (.ofResult (-enfile), s) := by
  rw [OpenFiles.onFd, mapFdToFile_none hslot]

theorem ioCall_none (dev : Devices δ) (hslot : (fdIndex fd).bind files = none) (call : IoCall)
    (hnumber : ∀ count, call = .getdents count →
      ∀ f, fileIndex fd = some f → (s.fileObjects f).count = 0) :
    ∃ result < 0, s.ioCall dev files fd call = .ok ((.ofResult result, files), s) := by
  have hfd : ∀ fileCall : FileCall δ, (s.onFd files fd fileCall).map (fun r =>
      ((r.1, files), r.2)) = .ok ((IoReply.ofResult (-enfile), files), s) := by
    intro fileCall
    rw [onFd_none hslot fileCall]
    rfl
  cases call with
  | read count => exact ⟨-enfile, by decide, hfd _⟩
  | write buf => exact ⟨-enfile, by decide, hfd _⟩
  | llseek offset whence => exact ⟨-enfile, by decide, hfd _⟩
  | fcntl cmd third => exact ⟨-enfile, by decide, hfd _⟩
  | ioctl cmd third fourth => exact ⟨-enfile, by decide, hfd _⟩
  | ftruncate64 size => exact ⟨-enfile, by decide, hfd _⟩
  | getdents count =>
      cases hindex : fileIndex fd with
      | none =>
          refine ⟨-enfile, by decide, ?_⟩
          simp only [OpenFiles.ioCall, OpenFiles.getdentsSyscall, hindex]
          rfl
      | some f =>
          refine ⟨-ebadf, by decide, ?_⟩
          simp only [OpenFiles.ioCall, OpenFiles.getdentsSyscall, hindex,
            hnumber count rfl f hindex, if_true]
          rfl
  | close =>
      refine ⟨-enfile, by decide, ?_⟩
      have hmap := mapFdToFile_none (s := s) hslot
      cases hi : fdIndex fd with
      | none =>
          simp only [OpenFiles.ioCall, FileTables.closeSyscall, hi, hmap]
          rfl
      | some i =>
          simp only [OpenFiles.ioCall, FileTables.closeSyscall, hi, hmap]
          rfl

/-- The descriptors of the process after a call: `close` takes its own one out. -/
theorem ioCall_files (dev : Devices δ) {call : IoCall} {reply : IoReply} {files' : FdTable}
    {s' : OpenFiles δ} (hok : s.ioCall dev files fd call = .ok ((reply, files'), s'))
    {i : Fin maxFdPerProc} (hi : fdIndex fd ≠ some i) : files' i = files i := by
  cases call with
  | close =>
      simp only [OpenFiles.ioCall, FileTables.closeSyscall] at hok
      obtain ⟨⟨result, tables, files₁⟩, hclose, heq⟩ := map_eq_ok.1 hok
      cases heq
      split at hclose
      · rename_i j g hj hg
        obtain ⟨_, -, heq⟩ := map_eq_ok.1 hclose
        cases heq
        have hij : i ≠ j := by
          rintro rfl
          exact hi hj
        exact Function.update_of_ne hij _ _
      · cases hclose
      · cases hclose
        rfl
  | _ =>
      obtain ⟨_, -, heq⟩ := map_eq_ok.1 hok
      cases heq
      rfl

end OneFile

namespace FileUse

variable {δ : Type} {dev : Devices δ} {s : FileUse δ} {op : ProcId × FdOp}

/-- A descriptor is also the number of a file object. -/
theorem fileIndex_of_slot {p : ProcId} {fd : Int} {f : FileId} (h : s.slot p fd = some f) :
    ∃ g, fileIndex fd = some g := by
  obtain ⟨i, hi, -⟩ := Option.bind_eq_some_iff.1 h
  rw [fdIndex_eq_some] at hi
  subst hi
  refine ⟨i.castLE (by decide), ?_⟩
  rw [fileIndex, dif_pos ⟨Int.natCast_nonneg _, Int.ofNat_lt.2 (Nat.lt_trans i.isLt (by decide))⟩]
  rfl

theorem put_self (s : FileUse δ) (p : ProcId) : s.put p s.openFiles (s.files p) = s := by
  have hprocs : s.procs.modify p (fun proc => { proc with files := s.files p }) = s.procs := by
    have hself : ({ s.procs.allProcesses p with files := s.files p } : Process) =
        s.procs.allProcesses p := rfl
    rw [ProcTable.modify, hself, Function.update_eq_self]
  rw [put, hprocs]

/-- The descriptors after a change to those of one process. -/
theorem put_files (s : FileUse δ) (p q : ProcId) (openFiles : OpenFiles δ) (files : FdTable) :
    (s.put p openFiles files).files q = if q = p then files else s.files q := by
  by_cases hq : q = p
  · subst hq
    rw [if_pos rfl]
    simp only [FileUse.files, put, ProcTable.modify, Function.update_self]
  · rw [if_neg hq]
    simp only [FileUse.files, put, ProcTable.modify, Function.update_of_ne hq]

/-- A call that meets the condition belongs to its process. -/
theorem perProcess_of_ownNumber (h : s.OwnNumber op) : s.PerProcess dev op := by
  obtain ⟨p, op⟩ := op
  cases op with
  | io fd call =>
      rw [PerProcess]
      cases hslot : s.slot p fd with
      | none =>
          -- the call ends before it gets to a file object
          have hnumber : ∀ count, call = .getdents count →
              ∀ f, fileIndex fd = some f → (s.openFiles.fileObjects f).count = 0 := by
            rintro count rfl f hindex
            rcases h f hindex with hsome | ⟨-, hcount⟩
            · rw [hslot] at hsome
              cases hsome
            · exact hcount
          obtain ⟨result, hneg, hcall⟩ := ioCall_none dev hslot call hnumber
          refine ⟨result, hneg, ?_⟩
          have hput := s.put_self p
          simp only [step, hcall, Except.map, hput]
      | some f =>
          have hnumber : ∀ count, call = .getdents count → fileIndex fd = some f := by
            rintro count rfl
            obtain ⟨g, hindex⟩ := fileIndex_of_slot hslot
            rcases h g hindex with hsome | ⟨hnone, -⟩
            · rw [hslot] at hsome
              cases hsome
              exact hindex
            · rw [hslot] at hnone
              cases hnone
          constructor
          · intro objects hobjects
            have hcall : (s.withObjects objects).openFiles.ioCall dev ((s.withObjects objects).files p)
                fd call = _ := ioCall_localAt dev hslot call hnumber objects hobjects
            simp only [step, hcall]
            cases s.openFiles.ioCall dev (s.files p) fd call with
            | error e => rfl
            | ok r => rfl
          · intro reply s' hok q i hi
            obtain ⟨⟨⟨reply', files'⟩, openFiles⟩, hcall, heq⟩ := map_eq_ok.1 hok
            cases heq
            rw [put_files]
            split
            · rename_i hq
              subst hq
              exact ioCall_files dev hcall (hi.resolve_left (not_not_intro rfl))
            · rfl
  | _ => trivial

/-- In every history of calls by any processes, the calls with descriptors keep to the process, as
long as `getdents` is called only with descriptors that are the number of their file object. -/
theorem run_perProcess {ops : List (ProcId × FdOp)}
    (h : Along (step dev) OwnNumber s ops) : Along (step dev) (PerProcess dev) s ops := by
  exact h.mono fun _ _ => perProcess_of_ownNumber

/-- init closes its descriptor 0 and lists it. -/
theorem run_perProcess_closed : ∃ s, start 0 0 noImage noFileSystems () = .ok s ∧
    Along (step noDevices) (PerProcess noDevices) s
      [(1, .io 0 .close), (1, .io 0 (.getdents 64))] := by
  have h : (match start 0 0 noImage noFileSystems () with
      | .ok s =>
          match step noDevices s (1, .io 0 .close) with
          | .ok (_, s') => decide (s'.slot 1 0 = none ∧ (s'.openFiles.fileObjects 0).count = 0)
          | .error _ => false
      | .error _ => false) = true := by decide
  split at h
  · rename_i s hstart
    split at h
    · rename_i reply s' hclose
      obtain ⟨hslot, hcount⟩ := of_decide_eq_true h
      refine ⟨s, hstart, run_perProcess ⟨trivial, ?_⟩⟩
      intro reply' s'' hok
      rw [hclose] at hok
      cases hok
      refine ⟨fun f hf => ?_, fun _ _ _ => trivial⟩
      cases hf
      exact Or.inr ⟨hslot, hcount⟩
    · cases h
  · cases h

/-- init makes descriptor 3 a second one for its output, and lists it: the file object that is
looked at is number 3. -/
theorem not_perProcess : ∃ s, start 0 0 noImage noFileSystems () = .ok s ∧
    ¬ Along (step noDevices) (PerProcess noDevices) s
      [(1, .dup2 1 3 fun _ => false), (1, .io 3 (.getdents 64))] := by
  have h : (match start 0 0 noImage noFileSystems () with
      | .ok s =>
          match step noDevices s (1, .dup2 1 3 fun _ => false) with
          | .ok (_, s') =>
              decide (s'.slot 1 3 = some 1 ∧ (s'.openFiles.fileObjects 3).count = 0)
          | .error _ => false
      | .error _ => false) = true := by decide
  split at h
  · rename_i s hstart
    split at h
    · rename_i reply s' hdup2
      obtain ⟨hslot, hcount⟩ := of_decide_eq_true h
      refine ⟨s, hstart, ?_⟩
      intro hall
      have hper := (hall.2 reply s' hdup2).1
      rw [PerProcess, hslot] at hper
      -- the answer changes when file object 3 is in use
      obtain ⟨hlocal, -⟩ := hper
      have hother := hlocal (Function.update s'.openFiles.fileObjects 3
        { FileObject.zeroed with count := 1 }) rfl
      have hindex : fileIndex 3 = some 3 := rfl
      have horiginal : step noDevices s' (1, .io 3 (.getdents 64)) =
          .ok (.ofResult (-ebadf), s'.put 1 s'.openFiles (s'.files 1)) := by
        simp only [step, OpenFiles.ioCall, OpenFiles.getdentsSyscall, hindex, hcount, if_true]
        rfl
      rw [horiginal] at hother
      cases hother
    · cases h
  · cases h

end FileUse

end Vmwos
