import Vmwos.Processes.Machine
import Vmwos.Processes.BfltLoader
import Vmwos.Memory.ChunkAllocator
import Vmwos.Library.References
import Mathlib.Algebra.BigOperators.Group.Finset.Piecewise
import Mathlib.Algebra.Order.Group.Multiset
import Mathlib.Algebra.Order.BigOperators.Group.Finset

/-!
# The memory of the processes

`execve` allocates the stack and the program of a process and records them in its control block,
`process_destroy` frees what is recorded there, and the child of `vfork` has nothing recorded. The
machine of the system calls is put together here with the memory, and with a list of the blocks
that `execve` has allocated and that have not been freed.

These blocks are the recorded ones as long as `execve` is called by processes that have no image
yet and a process that has been destroyed is not destroyed again (`run_imagesOwned_iff`).
-/

set_option autoImplicit false

namespace Vmwos

open Library

/-! ## Control blocks -/

/-- The block recorded by an address and a size. -/
def blockAt (location size : Nat) : List MemoryBlock :=
  if location = 0 then [] else [⟨location, size, memoryUserType⟩]

/-- The blocks recorded in a control block. -/
def Process.imageBlocks (p : Process) : List MemoryBlock :=
  blockAt p.stack p.stacksize ++ blockAt p.text p.textsize

/-- `memory_free` of some blocks, one after the other. -/
def freeBlocks : MemoryState → List MemoryBlock → Except Stuck MemoryState
  | m, [] => .ok m
  | m, b :: blocks =>
      match memoryFree m b.location b.size with
      | .error e => .error e
      | .ok (_, m) => freeBlocks m blocks

/-- What a successful `execve` records. -/
def Loaded.image (l : Loaded) (name : CString) : Image :=
  ⟨name, l.stackPage, l.sizes.stackSize.toNat, l.binaryStart, l.sizes.totalProgramSize.toNat⟩

/-- The blocks a successful `execve` has allocated. -/
def Loaded.blocks (l : Loaded) : List MemoryBlock :=
  [⟨l.stackPage, l.sizes.stackSize.toNat, memoryUserType⟩,
    ⟨l.binaryStart, l.sizes.totalProgramSize.toNat, memoryUserType⟩]

namespace ProcTable

/-- The process that `waitpid` looks up. -/
def waitpidTarget (t : ProcTable) (pid : Int) : Option ProcId :=
  match if pid = -1 then t.processLookupChild t.currentProc else t.processLookup pid with
  | .ok found => found
  | .error _ => none

/-- The process that the running one waits for when it goes on in `waitpid`. -/
def awaited (t : ProcTable) : Option ProcId :=
  match (t.allProcesses t.currentProc).resume with
  | .waitpid _ proc => some proc
  | _ => none

/-- The process that is destroyed in a step, which is then answered with its exit value. -/
def destroyed (t : ProcTable) : SysOp → SysReply → Option ProcId
  | .waitpid pid _, .reaped _ _ => t.waitpidTarget pid
  | .resume, .reaped _ _ => t.awaited
  | _, _ => none

/-- The blocks recorded for a process in use. The idle process, the first one, is left out: its
stack does not come from `execve`. -/
def recorded (t : ProcTable) (p : ProcId) : Multiset MemoryBlock :=
  if (t.allProcesses p).valid = true ∧ t.procFirst ≠ some p then
    ((t.allProcesses p).imageBlocks : Multiset MemoryBlock)
  else 0

end ProcTable

/-! ## The system -/

/-- The processes, the memory, and the blocks that `execve` has allocated and that have not been
freed. -/
structure ImageSystem where
  table : ProcTable
  memory : MemoryState
  images : List MemoryBlock

/-- A step: `execve` of a file, given by what `open_file_object` returns, or another step of the
machine. -/
inductive ImageOp where
  | execve (name : CString) (opened : Except Int ExecutableFile) (uninit : UninitStack)
  | other (op : SysOp)

namespace ImageSystem

/-- `memory_free` for the process that is destroyed in a step. -/
def freeDestroyed (s : ImageSystem) (t : ProcTable) : Option ProcId → Except Fault ImageSystem
  | none => .ok { s with table := t }
  | some p =>
      match freeBlocks s.memory (s.table.allProcesses p).imageBlocks with
      | .error e => .error (.stuck e)
      | .ok m => .ok ⟨t, m, s.images.diff (s.table.allProcesses p).imageBlocks⟩

/-- One step. An `execve` that fails has not allocated anything: user memory is never NULL, and
the file is opened before. -/
def step (s : ImageSystem) : ImageOp → Except Fault (SysReply × ImageSystem)
  | .execve name opened uninit =>
      match execveLoad s.memory opened uninit with
      | .error e => .error (.stuck e)
      | .ok (.error _) =>
          match s.table.step (.execve none) with
          | .error e => .error e
          | .ok (r, t) => .ok (r, { s with table := t })
      | .ok (.ok loaded) =>
          match s.table.step (.execve (some (loaded.image name))) with
          | .error e => .error e
          | .ok (r, t) => .ok (r, ⟨t, loaded.memory, loaded.blocks ++ s.images⟩)
  | .other (.execve _) => .error .notEnabled
  | .other op =>
      match s.table.step op with
      | .error e => .error e
      | .ok (r, t) =>
          match s.freeDestroyed t (s.table.destroyed op r) with
          | .error e => .error e
          | .ok s => .ok (r, s)

/-- `start_userspace`, when init has been loaded. -/
def start (idleStack idleText : Nat) (name : CString) (loaded : Loaded) : ImageSystem :=
  ⟨ProcTable.startUserspace idleStack idleText (loaded.image name), loaded.memory, loaded.blocks⟩

/-! ## Ownership -/

/-- The blocks that are in use are those recorded, each of them once. -/
structure ImagesOwned (s : ImageSystem) : Prop where
  recorded : (s.images : Multiset MemoryBlock) = ∑ p, s.table.recorded p
  once : s.images.Nodup

/-- The process that a step destroys. -/
def destroys (s : ImageSystem) (op : ImageOp) (r : SysReply) : Option ProcId :=
  match op with
  | .execve _ _ _ => none
  | .other op => s.table.destroyed op r

/-- After a step the blocks are owned, the map of the memory has exactly their chunks marked
beside those of the `others`, and what a destroyed process had is given back and nothing else. -/
structure StepOwned (multicore : Bool) (memoryTotal memoryKernel : Nat) (others : List MemoryBlock)
    (s : ImageSystem) (op : ImageOp) (r : SysReply) (s' : ImageSystem) : Prop where
  owned : ImagesOwned s'
  heap : MemoryHeap.Safe multicore memoryTotal memoryKernel ⟨s'.memory, s'.images ++ others⟩
  returned : ∀ p ∈ s.destroys op r,
    s.images.Perm ((s.table.allProcesses p).imageBlocks ++ s'.images)

/-- The image that a step loads. -/
def loads (s : ImageSystem) : ImageOp → Option Loaded
  | .execve _ opened uninit =>
      match execveLoad s.memory opened uninit with
      | .ok (.ok loaded) => some loaded
      | _ => none
  | .other _ => none

/-- The process that a step destroys if it has exited, when the step goes on in `waitpid`. -/
def awaited (s : ImageSystem) : ImageOp → Option ProcId
  | .other .resume => s.table.awaited
  | _ => none

/-- The images that are loaded are not empty. -/
def LoadsNonempty (s : ImageSystem) (op : ImageOp) : Prop :=
  ∀ loaded ∈ s.loads op, 0 < loaded.sizes.stackSize ∧ 0 < loaded.sizes.totalProgramSize

instance (s : ImageSystem) (op : ImageOp) : Decidable (s.LoadsNonempty op) :=
  inferInstanceAs (Decidable (∀ loaded ∈ s.loads op, _))

/-- A successful `execve` is called by a process without an image, and a process that goes on in
`waitpid` does not find the one it waits for destroyed already, with an image recorded still. -/
structure KeepsImages (s : ImageSystem) (op : ImageOp) : Prop where
  fresh : ∀ _ ∈ s.loads op, (s.table.allProcesses s.table.currentProc).imageBlocks = []
  inUse : ∀ p ∈ s.awaited op, s.table.status p = .exited →
    (s.table.allProcesses p).valid = true ∨ (s.table.allProcesses p).imageBlocks = []

instance (s : ImageSystem) (op : ImageOp) : Decidable (s.KeepsImages op) :=
  decidable_of_iff
    ((∀ _ ∈ s.loads op, (s.table.allProcesses s.table.currentProc).imageBlocks = []) ∧
      ∀ p ∈ s.awaited op, s.table.status p = .exited →
        (s.table.allProcesses p).valid = true ∨ (s.table.allProcesses p).imageBlocks = [])
    ⟨fun h => ⟨h.1, h.2⟩, fun h => ⟨h.1, h.2⟩⟩

end ImageSystem

/-! ## Allocating an image -/

section Heap

variable {m m' : MemoryState} {loaded : Loaded} {opened : Except Int ExecutableFile}
  {uninit : UninitStack} {multicore : Bool} {memoryTotal memoryKernel : Nat}
  {live blocks : List MemoryBlock}

/-- The stack is allocated first, then the program. -/
theorem allocateProgram_allocates {stackSize totalProgramSize type stackPage binaryStart : Nat}
    (h : allocateProgram m stackSize totalProgramSize type = .ok (.ok (stackPage, binaryStart), m')) :
    ∃ m₁, memoryAllocate m stackSize type = .ok (some stackPage, m₁) ∧
      memoryAllocate m₁ totalProgramSize type = .ok (some binaryStart, m') := by
  unfold allocateProgram at h
  split at h
  · cases h
  · rename_i stack hstack
    split at h
    · cases h
    · rename_i program hprogram
      obtain ⟨location, m₁⟩ := stack
      obtain ⟨location', m₂⟩ := program
      cases location with
      | none =>
          -- with a NULL pointer the answer is an error
          simp only [keepBlocks] at h
          split at h
          · cases h
          · obtain ⟨u, -, heq⟩ := map_eq_ok.1 h
            cases heq
      | some location =>
          cases location' with
          | none =>
              simp only [keepBlocks] at h
              split at h
              · cases h
              · obtain ⟨u, -, heq⟩ := map_eq_ok.1 h
                cases heq
          | some location' =>
              cases h
              exact ⟨m₁, hstack, hprogram⟩

/-- An image in memory that has been allocated as a stack and a program. -/
def Loaded.AllocatedFrom (loaded : Loaded) (m : MemoryState) (type : Nat) : Prop :=
  ∃ m₁ m₂, memoryAllocate m loaded.sizes.stackSize.toNat type = .ok (some loaded.stackPage, m₁) ∧
    memoryAllocate m₁ loaded.sizes.totalProgramSize.toNat type =
      .ok (some loaded.binaryStart, m₂) ∧
    loaded.memory.maxChunk = m₂.maxChunk ∧ loaded.memory.memoryMap = m₂.memoryMap

theorem execveBflt_allocates {file : ExecutableFile} {type : Nat}
    (h : execveBflt m file uninit type = .ok (.ok loaded)) : loaded.AllocatedFrom m type := by
  unfold execveBflt at h
  simp only at h
  split at h
  · cases h
  · cases h
  · rename_i halloc
    cases h
    obtain ⟨m₁, hstack, hprogram⟩ := allocateProgram_allocates halloc
    exact ⟨m₁, _, hstack, hprogram, rfl, rfl⟩

theorem execveRaw_allocates {file : ExecutableFile} {type : Nat}
    (h : execveRaw m file uninit type = .ok (.ok loaded)) : loaded.AllocatedFrom m type := by
  unfold execveRaw at h
  generalize defaultUserStackSize = stackSize at h
  simp only at h
  split at h
  · cases h
  · cases h
  · rename_i halloc
    cases h
    obtain ⟨m₁, hstack, hprogram⟩ := allocateProgram_allocates halloc
    exact ⟨m₁, _, hstack, hprogram, rfl, rfl⟩

theorem execveLoad_allocates (h : execveLoad m opened uninit = .ok (.ok loaded)) :
    loaded.AllocatedFrom m memoryUserType := by
  unfold execveLoad at h
  split at h
  · cases h
  · split at h
    · exact execveBflt_allocates h
    · exact execveRaw_allocates h

namespace MemoryHeap

/-- Loading keeps the heap in order, with the two blocks of the image in use. -/
theorem Inv.execveLoad (hinv : Inv multicore memoryTotal memoryKernel ⟨m, live⟩)
    (htotal : memoryTotal ≤ maxMemory) (hstack : 0 < loaded.sizes.stackSize)
    (hprogram : 0 < loaded.sizes.totalProgramSize)
    (h : execveLoad m opened uninit = .ok (.ok loaded)) :
    Inv multicore memoryTotal memoryKernel ⟨loaded.memory, loaded.blocks ++ live⟩ := by
  obtain ⟨m₁, m₂, hfirst, hsecond, hmax, hmap⟩ := execveLoad_allocates h
  have hinv₁ := hinv.memoryAllocate htotal (UInt32.lt_iff_toNat_lt.1 hstack)
    loaded.sizes.stackSize.toNat_lt hfirst
  have hinv₂ := hinv₁.memoryAllocate htotal (UInt32.lt_iff_toNat_lt.1 hprogram)
    loaded.sizes.totalProgramSize.toNat_lt hsecond
  exact hinv₂.congr hmax hmap (List.Perm.swap _ _ live)

/-- Freeing blocks that are in use keeps the heap in order. -/
theorem Inv.freeBlocks (hinv : Inv multicore memoryTotal memoryKernel ⟨m, blocks ++ live⟩)
    (h : freeBlocks m blocks = .ok m') : Inv multicore memoryTotal memoryKernel ⟨m', live⟩ := by
  induction blocks generalizing m with
  | nil =>
      cases h
      exact hinv
  | cons b blocks ih =>
      rw [Vmwos.freeBlocks] at h
      split at h
      · cases h
      · rename_i result m₁ hfree
        exact ih (hinv.memoryFree hfree) h

/-- Blocks that are in use can be freed. -/
theorem Inv.exists_freeBlocks (hinv : Inv multicore memoryTotal memoryKernel ⟨m, blocks ++ live⟩)
    (htotal : memoryTotal ≤ maxMemory) : ∃ m', Vmwos.freeBlocks m blocks = .ok m' := by
  induction blocks generalizing m with
  | nil => exact ⟨m, rfl⟩
  | cons b blocks ih =>
      obtain ⟨m₁, hfree⟩ := hinv.exists_memoryFree htotal List.mem_cons_self
      obtain ⟨m', hrest⟩ := ih (hinv.memoryFree hfree)
      refine ⟨m', ?_⟩
      rw [Vmwos.freeBlocks, hfree]
      exact hrest

end MemoryHeap

/-- The control block records what has been allocated. -/
theorem Loaded.blockAt_image (hstack : loaded.stackPage ≠ 0) (hprogram : loaded.binaryStart ≠ 0) :
    blockAt loaded.stackPage loaded.sizes.stackSize.toNat ++
      blockAt loaded.binaryStart loaded.sizes.totalProgramSize.toNat = loaded.blocks := by
  rw [blockAt, blockAt, if_neg hstack, if_neg hprogram]
  rfl

end Heap

/-! ## What a step records -/

namespace ProcTable

variable {t t' : ProcTable} {l : List ProcId} {idle p : ProcId} {op : SysOp} {r : SysReply}

theorem SameProcesses.imageBlocks (h : SameProcesses t t') (p : ProcId) :
    (t'.allProcesses p).imageBlocks = (t.allProcesses p).imageBlocks :=
  h.field Process.imageBlocks (fun _ => rfl) p

/-- What a process records depends on its mark and its image. -/
theorem recorded_congr (h : ListInv idle t l) {l' : List ProcId} (h' : ListInv idle t' l')
    (hvalid : (t'.allProcesses p).valid = (t.allProcesses p).valid)
    (himage : (t'.allProcesses p).imageBlocks = (t.allProcesses p).imageBlocks) :
    t'.recorded p = t.recorded p := by
  rw [recorded, recorded, hvalid, himage, h.procFirst, h'.procFirst]

theorem recorded_of_not_valid (h : (t.allProcesses p).valid = false) : t.recorded p = 0 := by
  rw [recorded, h]
  exact if_neg fun hand => Bool.noConfusion hand.1

theorem recorded_of_valid (h : (t.allProcesses p).valid = true) (hfirst : t.procFirst ≠ some p) :
    t.recorded p = ((t.allProcesses p).imageBlocks : Multiset MemoryBlock) :=
  if_pos ⟨h, hfirst⟩

/-- Marks and images stay, and so does what is recorded. -/
theorem recorded_same (h : ListInv idle t l) {l' : List ProcId} (h' : ListInv idle t' l')
    (hvalid : ∀ p, (t'.allProcesses p).valid = (t.allProcesses p).valid)
    (himage : ∀ p, (t'.allProcesses p).imageBlocks = (t.allProcesses p).imageBlocks) :
    t'.recorded = t.recorded :=
  funext fun p => recorded_congr h h' (hvalid p) (himage p)

/-- The child of `vfork` has the mark of the parent and records nothing. -/
theorem forked_recorded {l' : List ProcId} {child : ProcId} (h : MachineInv idle t l)
    (h' : MachineInv idle t' l') (hchild : child ∉ l)
    (hsame : SameProcesses (t.forked child) t') : t'.recorded = t.recorded := by
  have hne : t.currentProc ≠ child := fun hne => hchild (hne ▸ h.running)
  have hunused : (t.allProcesses child).valid = false := by
    rw [← Bool.not_eq_true, h.valid_iff]
    exact hchild
  funext p
  rcases eq_or_ne p child with rfl | hp
  · have hnothing : (t'.allProcesses p).imageBlocks = [] := by
      rw [hsame.imageBlocks, forked_child hne]
      rfl
    rw [recorded_of_not_valid hunused, recorded, hnothing]
    exact ite_self _
  · refine recorded_congr h.toListInv h'.toListInv ?_ ?_
    · rw [hsame.valid]
      rcases eq_or_ne p t.currentProc with rfl | hp'
      · rw [forked_parent hne]
      · rw [forked_of_ne hp hp']
    · rw [hsame.imageBlocks]
      rcases eq_or_ne p t.currentProc with rfl | hp'
      · rw [forked_parent hne]
        rfl
      · rw [forked_of_ne hp hp']

/-- `execve` records the new image in place of what the caller had. -/
theorem execve_recorded {image : Image} (h : MachineInv idle t l)
    (hok : t.step (.execve (some image)) = .ok (r, t')) :
    (∃ l', MachineInv idle t' l') ∧
      t.recorded t.currentProc = (t.allProcesses t.currentProc).imageBlocks ∧
      t'.recorded = Function.update t.recorded t.currentProc
        (blockAt image.stack image.stacksize ++ blockAt image.text image.textsize : List MemoryBlock)
      := by
  obtain ⟨l', hinv', heffect⟩ := step_cases h hok
  have hvalid := (h.valid_iff _).2 h.running
  have hfirst := (step_enabled hok).1.2
  cases heffect with
  | @execve _ parent _ hparent hsame =>
      refine ⟨⟨l, hinv'⟩, recorded_of_valid hvalid hfirst, ?_⟩
      have hfamilies := (execved_families t (some image) parent).trans hsame.families
      have himage : ∀ p, (t'.allProcesses p).imageBlocks =
          ((t.setImage (some image)).allProcesses p).imageBlocks := fun p =>
        (hsame.imageBlocks p).trans (modify_field Process.imageBlocks (by rfl) p)
      funext p
      rcases eq_or_ne p t.currentProc with rfl | hp
      · have hnow : (t'.allProcesses t.currentProc).imageBlocks =
            blockAt image.stack image.stacksize ++ blockAt image.text image.textsize := by
          rw [himage, setImage, modify_self]
          rfl
        rw [Function.update_self, recorded_of_valid ((hfamilies.valid _).trans hvalid), hnow]
        rw [hinv'.procFirst, ← h.procFirst]
        exact hfirst
      · rw [Function.update_of_ne hp]
        refine recorded_congr h.toListInv hinv'.toListInv (hfamilies.valid p) ?_
        rw [himage, setImage, modify_of_ne _ hp]

/-- A process that is destroyed records nothing any more. -/
theorem reap_recorded {l' : List ProcId} (h : MachineInv idle t l) (h' : MachineInv idle t' l')
    (hsame : SameProcesses (t.reap p) t') :
    t'.recorded = Function.update t.recorded p 0 := by
  funext q
  have hvalid := (hsame.valid q).trans (reap_valid p q)
  rcases eq_or_ne q p with rfl | hq
  · rw [if_pos rfl] at hvalid
    rw [Function.update_self, recorded_of_not_valid hvalid]
  · rw [if_neg hq] at hvalid
    rw [Function.update_of_ne hq]
    refine recorded_congr h.toListInv h'.toListInv hvalid ?_
    rw [hsame.imageBlocks, reap_field Process.imageBlocks (fun _ _ => rfl)]
    exact modify_field Process.imageBlocks (by rfl) q

/-- What `waitpid` looks up is in use. -/
theorem waitpidTarget_of_target {pid : Int} (h : ListInv idle t l) (htarget : Target t l pid p) :
    t.waitpidTarget pid = some p ∧ (t.allProcesses p).valid = true := by
  rcases htarget with ⟨hpid, hfind⟩ | ⟨hpid, hfind⟩
  · refine ⟨?_, (h.valid_iff p).2 (List.mem_of_find?_eq_some hfind)⟩
    rw [waitpidTarget, if_pos hpid, processLookupChild, find_eq h.listed.linked, hfind]
  · refine ⟨?_, (h.valid_iff p).2 (List.mem_of_find?_eq_some hfind)⟩
    have hne : pid ≠ -1 := by
      rintro rfl
      cases hpid
    rw [waitpidTarget, if_neg hne, processLookup, find_eq h.listed.linked, hfind]

/-- Other steps change what is recorded for the process they destroy only: one that has exited,
and that is in use unless the step goes on in `waitpid`. -/
theorem step_recorded (h : MachineInv idle t l) (hok : t.step op = .ok (r, t'))
    (hop : ∀ image, op ≠ .execve (some image)) :
    (∃ l', MachineInv idle t' l') ∧
      (t.destroyed op r = none ∧ t'.recorded = t.recorded ∧
          (∀ p, op = .resume → t.awaited = some p → t.status p ≠ .exited) ∨
        ∃ p, t.destroyed op r = some p ∧ t.status p = .exited ∧
          ((t.allProcesses p).valid = true ∨ op = .resume) ∧
          t'.recorded = Function.update t.recorded p 0) := by
  obtain ⟨l', hinv', heffect⟩ := step_cases h hok
  refine ⟨⟨l', hinv'⟩, ?_⟩
  -- in most steps the images and the marks stay
  have hkeep : ∀ u : ProcTable, SameProcesses u t' →
      (∀ p, (u.allProcesses p).valid = (t.allProcesses p).valid) →
        (∀ p, (u.allProcesses p).imageBlocks = (t.allProcesses p).imageBlocks) →
          t'.recorded = t.recorded := by
    intro u hsame hvalid himage
    exact recorded_same h.toListInv hinv'.toListInv (fun p => (hsame.valid p).trans (hvalid p))
      fun p => (hsame.imageBlocks p).trans (himage p)
  cases heffect with
  | vforkFull hfull => exact Or.inl ⟨rfl, rfl, fun _ h => by cases h⟩
  | vfork hfree hchild hsame =>
      exact Or.inl ⟨rfl, forked_recorded h hinv' hchild hsame, fun _ h => by cases h⟩
  | @execve image parent _ hparent hsame =>
      cases image with
      | some image => exact absurd rfl (hop image)
      | none =>
          exact Or.inl ⟨rfl, hkeep _ hsame (execved_families t none parent).valid
            (modify_field Process.imageBlocks (by rfl)), fun _ h => by cases h⟩
  | @exit status _ hsame =>
      refine Or.inl ⟨rfl, hkeep _ hsame (exited_families t status).valid fun p => ?_,
        fun _ h => by cases h⟩
      rw [waitQueueWake_field Process.imageBlocks (fun _ _ _ => rfl)]
      exact modify_field Process.imageBlocks (by rfl) p
  | sleep hsame =>
      exact Or.inl ⟨rfl, hkeep _ hsame (sleepIn_families t _).valid
        (modify_field Process.imageBlocks (by rfl)), fun _ h => by cases h⟩
  | @wake queue =>
      exact Or.inl ⟨rfl, hkeep _ (SameProcesses.refl _) (waitQueueWake_families t queue).valid
        (waitQueueWake_field Process.imageBlocks (fun _ _ _ => rfl) t queue),
        fun _ h => by cases h⟩
  | schedule hsame =>
      exact Or.inl ⟨rfl, hkeep t hsame (fun _ => rfl) fun _ => rfl, fun _ h => by cases h⟩
  | waitpidFails htarget => exact Or.inl ⟨rfl, rfl, fun _ h => by cases h⟩
  | waitpidRuns htarget hstatus => exact Or.inl ⟨rfl, rfl, fun _ h => by cases h⟩
  | waitpidSleeps htarget hoptions hstatus hsame =>
      exact Or.inl ⟨rfl, hkeep _ hsame (sleepIn_families t _).valid
        (modify_field Process.imageBlocks (by rfl)), fun _ h => by cases h⟩
  | @waitpidReaps pid options v proc _ htarget hstatus hvalue hcurrent hsame =>
      obtain ⟨hlookup, hvalid⟩ := waitpidTarget_of_target h.toListInv htarget
      exact Or.inr ⟨proc, hlookup, hstatus, Or.inl hvalid, reap_recorded h hinv' hsame⟩
  | resumeVfork hresume =>
      refine Or.inl ⟨rfl, hkeep _ (SameProcesses.refl _) (setResume_families t .user).valid
        (modify_field Process.imageBlocks (by rfl)), fun p _ hawaited => ?_⟩
      rw [awaited, hresume] at hawaited
      cases hawaited
  | @resumeSleeps pid proc _ hresume hstatus hsame =>
      refine Or.inl ⟨rfl, hkeep _ hsame (sleepIn_families t _).valid
        (modify_field Process.imageBlocks (by rfl)), fun p _ hawaited => ?_⟩
      rw [awaited, hresume] at hawaited
      cases hawaited
      exact hstatus
  | @resumeReaps pid proc _ hresume hstatus hcurrent hsame =>
      refine Or.inr ⟨proc, ?_, hstatus, Or.inr rfl, reap_recorded h hinv' hsame⟩
      show t.awaited = some proc
      rw [awaited, hresume]

end ProcTable

/-! ## Steps of the system -/

namespace ImageSystem

section Steps

variable {s s' : ImageSystem} {op : ImageOp} {r : SysReply} {idle : ProcId} {multicore : Bool}
  {memoryTotal memoryKernel : Nat} {others : List MemoryBlock}

/-- The order of the processes, the ownership of the images and the order of the heap. -/
structure SystemInv (idle : ProcId) (multicore : Bool) (memoryTotal memoryKernel : Nat)
    (others : List MemoryBlock) (s : ImageSystem) : Prop where
  machine : ∃ l, ProcTable.MachineInv idle s.table l
  owned : ImagesOwned s
  heap : MemoryHeap.Inv multicore memoryTotal memoryKernel ⟨s.memory, s.images ++ others⟩

/-- What a step does: it loads an image, destroys a process, or neither. -/
inductive StepKind (s : ImageSystem) (op : ImageOp) (r : SysReply) (s' : ImageSystem) : Prop
  | loads (loaded : Loaded) (hloads : s.loads op = some loaded) (hawaited : s.awaited op = none)
      (hdestroys : s.destroys op r = none)
      (hload : ∃ opened uninit, execveLoad s.memory opened uninit = .ok (.ok loaded))
      (hmemory : s'.memory = loaded.memory) (himages : s'.images = loaded.blocks ++ s.images)
      (hold : s.table.recorded s.table.currentProc =
        (s.table.allProcesses s.table.currentProc).imageBlocks)
      (hrecorded : s'.table.recorded = Function.update s.table.recorded s.table.currentProc
        (blockAt loaded.stackPage loaded.sizes.stackSize.toNat ++
          blockAt loaded.binaryStart loaded.sizes.totalProgramSize.toNat : List MemoryBlock))
  | destroys (p : ProcId) (hloads : s.loads op = none) (hdestroys : s.destroys op r = some p)
      (hexited : s.table.status p = .exited) (hidle : s.table.procFirst ≠ some p)
      (hinUse : (s.table.allProcesses p).valid = true ∨ s.awaited op = some p)
      (hawaited : ∀ q ∈ s.awaited op, q = p)
      (hfree : freeBlocks s.memory (s.table.allProcesses p).imageBlocks = .ok s'.memory)
      (himages : s'.images = s.images.diff (s.table.allProcesses p).imageBlocks)
      (hrecorded : s'.table.recorded = Function.update s.table.recorded p 0)
  | keeps (hloads : s.loads op = none) (hdestroys : s.destroys op r = none)
      (hawaited : ∀ p ∈ s.awaited op, s.table.status p ≠ .exited)
      (hmemory : s'.memory = s.memory) (himages : s'.images = s.images)
      (hrecorded : s'.table.recorded = s.table.recorded)

/-- The steps of the machine other than `execve`. -/
theorem step_other {op : SysOp} (hok : s.step (.other op) = .ok (r, s')) :
    (∀ image, op ≠ .execve image) ∧ s.table.step op = .ok (r, s'.table) ∧
      s.freeDestroyed s'.table (s.table.destroyed op r) = .ok s' := by
  have hop : ∀ image, op ≠ .execve image := by
    rintro image rfl
    cases hok
  have hstep : s.step (.other op) =
      match s.table.step op with
      | .error e => .error e
      | .ok (r, t) =>
          match s.freeDestroyed t (s.table.destroyed op r) with
          | .error e => .error e
          | .ok s => .ok (r, s) := by
    cases op with
    | execve image => exact absurd rfl (hop image)
    | _ => rfl
  rw [hstep] at hok
  split at hok
  · cases hok
  · rename_i r' t htable
    split at hok
    · cases hok
    · rename_i u hfree
      cases hok
      have ht : s'.table = t := by
        unfold freeDestroyed at hfree
        split at hfree
        · cases hfree
          rfl
        · split at hfree
          · cases hfree
          · cases hfree
            rfl
      rw [ht]
      exact ⟨hop, htable, hfree⟩

/-- Every step is of one of the kinds, and the order of the processes stays. -/
theorem step_kind {l : List ProcId} (h : ProcTable.MachineInv idle s.table l)
    (hok : s.step op = .ok (r, s')) :
    (∃ l', ProcTable.MachineInv idle s'.table l') ∧ StepKind s op r s' := by
  cases op with
  | execve name opened uninit =>
      rw [step] at hok
      split at hok
      · cases hok
      · rename_i result hload
        split at hok
        · cases hok
        · rename_i r' t htable
          cases hok
          obtain ⟨hinv', hcases⟩ := ProcTable.step_recorded h htable fun image h => by cases h
          have hloads : s.loads (.execve name opened uninit) = none := by
            rw [loads, hload]
          rcases hcases with ⟨-, hrecorded, -⟩ | ⟨p, hdestroyed, -⟩
          · exact ⟨hinv', StepKind.keeps hloads rfl (fun _ h => by cases h) rfl rfl hrecorded⟩
          · cases hdestroyed
      · rename_i loaded hload
        split at hok
        · cases hok
        · rename_i r' t htable
          cases hok
          obtain ⟨hinv', hold, hrecorded⟩ := ProcTable.execve_recorded h htable
          have hloads : s.loads (.execve name opened uninit) = some loaded := by
            rw [loads, hload]
          exact ⟨hinv', StepKind.loads loaded hloads rfl rfl ⟨opened, uninit, hload⟩ rfl rfl hold
            hrecorded⟩
  | other op =>
      obtain ⟨hop, htable, hfree⟩ := step_other hok
      obtain ⟨hinv', hcases⟩ := ProcTable.step_recorded h htable fun image => hop (some image)
      refine ⟨hinv', ?_⟩
      rcases hcases with ⟨hnone, hrecorded, hstatus⟩ | ⟨p, hdestroyed, hexited, hinUse, hrecorded⟩
      · rw [hnone] at hfree
        have hsystem := Except.ok.inj hfree
        refine StepKind.keeps rfl hnone ?_ ?_ ?_ hrecorded
        · intro p hp
          cases op with
          | resume => exact hstatus p rfl hp
          | _ => cases hp
        · rw [← hsystem]
        · rw [← hsystem]
      · rw [hdestroyed] at hfree
        simp only [freeDestroyed] at hfree
        split at hfree
        · cases hfree
        · rename_i m hblocks
          have hsystem := Except.ok.inj hfree
          have hmemory : s'.memory = m := by
            rw [← hsystem]
          have himages : s'.images = s.images.diff (s.table.allProcesses p).imageBlocks := by
            rw [← hsystem]
          have hfirst : s.table.procFirst ≠ some p := by
            -- the idle process is ready
            rw [h.procFirst]
            rintro heq
            cases heq
            rw [h.idle_ready] at hexited
            cases hexited
          have hawaited : ∀ q ∈ s.awaited (.other op), q = p := by
            intro q hq
            cases op with
            | resume =>
                cases r with
                | reaped value exitValue =>
                    have heq : s.table.awaited = some p := hdestroyed
                    have hq' : s.table.awaited = some q := hq
                    rw [heq] at hq'
                    exact (Option.some.inj hq').symm
                | _ => cases hdestroyed
            | _ => cases hq
          refine StepKind.destroys p rfl hdestroyed hexited hfirst ?_ hawaited ?_ himages hrecorded
          · refine hinUse.imp_right ?_
            rintro rfl
            cases r with
            | reaped value exitValue => exact hdestroyed
            | _ => cases hdestroyed
          · rw [hmemory]
            exact hblocks

/-- What is allocated is recorded after a step as it was before, up to the new image. -/
theorem recorded_loads {loaded : Loaded} {holds : ProcId → Multiset MemoryBlock} {p : ProcId}
    (hheap : MemoryHeap.Inv multicore memoryTotal memoryKernel
      ⟨s'.memory, loaded.blocks ++ s.images ++ others⟩)
    (howned : ImagesOwned s)
    (hholds : holds = Function.update s.table.recorded p
        (blockAt loaded.stackPage loaded.sizes.stackSize.toNat ++
          blockAt loaded.binaryStart loaded.sizes.totalProgramSize.toNat : List MemoryBlock)) :
    ∑ q, holds q + s.table.recorded p =
      ((loaded.blocks ++ s.images : List MemoryBlock) : Multiset MemoryBlock) := by
  have hmem : ∀ b ∈ loaded.blocks, b ∈ loaded.blocks ++ s.images ++ others := fun b hb =>
    List.mem_append_left _ (List.mem_append_left _ hb)
  have hstack : loaded.stackPage ≠ 0 :=
    hheap.location_ne_zero (hmem _ List.mem_cons_self) rfl
  have hprogram : loaded.binaryStart ≠ 0 :=
    hheap.location_ne_zero (hmem _ (List.mem_cons_of_mem _ List.mem_cons_self)) rfl
  rw [hholds, sum_update_add, Loaded.blockAt_image hstack hprogram, ← howned.recorded,
    ← Multiset.coe_add, add_comm]

/-- The blocks of a process that is in use, or has none, are among those in use. -/
theorem ImagesOwned.perm_diff {p : ProcId} (h : ImagesOwned s)
    (hfirst : s.table.procFirst ≠ some p)
    (hcases : (s.table.allProcesses p).valid = true ∨ (s.table.allProcesses p).imageBlocks = []) :
    s.table.recorded p = (s.table.allProcesses p).imageBlocks ∧
      s.images.Perm ((s.table.allProcesses p).imageBlocks ++
        s.images.diff (s.table.allProcesses p).imageBlocks) := by
  have hblocks : s.table.recorded p = (s.table.allProcesses p).imageBlocks := by
    rcases hcases with hvalid | hnothing
    · exact ProcTable.recorded_of_valid hvalid hfirst
    · rw [ProcTable.recorded, hnothing]
      exact ite_self _
  refine ⟨hblocks, ?_⟩
  have hle : ((s.table.allProcesses p).imageBlocks : Multiset MemoryBlock) ≤ s.images := by
    rw [h.recorded, ← hblocks]
    exact Finset.single_le_sum (fun q _ => Multiset.zero_le (s.table.recorded q))
      (Finset.mem_univ p)
  rw [← Multiset.coe_eq_coe, ← Multiset.coe_add, ← Multiset.coe_sub, add_tsub_cancel_of_le hle]

/-- A step that meets the condition keeps the images owned. -/
theorem stepOwned_of_keepsImages
    (h : SystemInv idle multicore memoryTotal memoryKernel others s)
    (htotal : memoryTotal ≤ maxMemory) (hnonempty : s.LoadsNonempty op)
    (hok : s.step op = .ok (r, s')) (hkeeps : s.KeepsImages op) :
    StepOwned multicore memoryTotal memoryKernel others s op r s' ∧
      SystemInv idle multicore memoryTotal memoryKernel others s' := by
  obtain ⟨l, hmachine⟩ := h.machine
  obtain ⟨hmachine', hkind⟩ := step_kind hmachine hok
  -- the images are in use once each, because the heap is in order
  have hdone : ((s'.images : Multiset MemoryBlock) = ∑ p, s'.table.recorded p) →
      MemoryHeap.Inv multicore memoryTotal memoryKernel ⟨s'.memory, s'.images ++ others⟩ →
        (∀ p ∈ s.destroys op r,
          s.images.Perm ((s.table.allProcesses p).imageBlocks ++ s'.images)) →
        StepOwned multicore memoryTotal memoryKernel others s op r s' ∧
          SystemInv idle multicore memoryTotal memoryKernel others s' := by
    intro hrecorded hheap hreturned
    have howned : ImagesOwned s' := ⟨hrecorded, (List.nodup_append.1 hheap.nodup).1⟩
    exact ⟨⟨howned, hheap.toSafe, hreturned⟩, ⟨hmachine', howned, hheap⟩⟩
  cases hkind with
  | loads loaded hloads hawaited hdestroys hload hmemory himages hold hrecorded =>
      obtain ⟨opened, uninit, hload⟩ := hload
      obtain ⟨hstack, hprogram⟩ := hnonempty loaded hloads
      have hheap : MemoryHeap.Inv multicore memoryTotal memoryKernel
          ⟨s'.memory, loaded.blocks ++ s.images ++ others⟩ := by
        rw [hmemory, List.append_assoc]
        exact h.heap.execveLoad htotal hstack hprogram hload
      have hsum := recorded_loads hheap h.owned hrecorded
      rw [hold, hkeeps.fresh loaded hloads, Multiset.coe_nil, add_zero, ← himages] at hsum
      refine hdone hsum.symm ?_ ?_
      · rw [himages]
        exact hheap
      · intro p hp
        rw [hdestroys] at hp
        cases hp
  | destroys p hloads hdestroys hexited hidle hinUse hawaited hfree himages hrecorded =>
      have hsum := sum_update_add s.table.recorded p 0
      rw [← hrecorded, ← h.owned.recorded, add_zero] at hsum
      have hcases : (s.table.allProcesses p).valid = true ∨
          (s.table.allProcesses p).imageBlocks = [] := by
        rcases hinUse with hvalid | hwaits
        · exact Or.inl hvalid
        · exact hkeeps.inUse p hwaits hexited
      obtain ⟨hblocks, hperm⟩ := h.owned.perm_diff hidle hcases
      rw [← himages] at hperm
      have hrest : (s'.images : Multiset MemoryBlock) = ∑ q, s'.table.recorded q := by
        rw [hblocks, ← Multiset.coe_eq_coe.2 hperm.symm, ← Multiset.coe_add, add_comm] at hsum
        exact (add_left_cancel hsum).symm
      refine hdone hrest ?_ ?_
      · refine (h.heap.congr rfl rfl ?_).freeBlocks hfree
        rw [← List.append_assoc]
        exact hperm.append_right others
      · intro q hq
        rw [hdestroys] at hq
        cases hq
        exact hperm
  | keeps hloads hdestroys hawaited hmemory himages hrecorded =>
      refine hdone ?_ ?_ ?_
      · rw [himages, hrecorded]
        exact h.owned.recorded
      · rw [hmemory, himages]
        exact h.heap
      · intro p hp
        rw [hdestroys] at hp
        cases hp

/-- A step after which the images are owned has met the condition. -/
theorem keepsImages_of_stepOwned
    (h : SystemInv idle multicore memoryTotal memoryKernel others s)
    (htotal : memoryTotal ≤ maxMemory) (hnonempty : s.LoadsNonempty op)
    (hok : s.step op = .ok (r, s'))
    (hstep : StepOwned multicore memoryTotal memoryKernel others s op r s') :
    s.KeepsImages op := by
  obtain ⟨l, hmachine⟩ := h.machine
  obtain ⟨-, hkind⟩ := step_kind hmachine hok
  cases hkind with
  | loads loaded hloads hawaited hdestroys hload hmemory himages hold hrecorded =>
      obtain ⟨opened, uninit, hload⟩ := hload
      obtain ⟨hstack, hprogram⟩ := hnonempty loaded hloads
      have hheap : MemoryHeap.Inv multicore memoryTotal memoryKernel
          ⟨s'.memory, loaded.blocks ++ s.images ++ others⟩ := by
        rw [hmemory, List.append_assoc]
        exact h.heap.execveLoad htotal hstack hprogram hload
      have hsum := recorded_loads hheap h.owned hrecorded
      rw [← hstep.owned.recorded, himages, hold] at hsum
      -- the caller's old image would be in use and recorded nowhere
      have hnothing := add_eq_left.1 hsum
      refine ⟨fun _ _ => (Multiset.coe_eq_zero _).1 hnothing, fun p hp => ?_⟩
      rw [hawaited] at hp
      cases hp
  | destroys p hloads hdestroys hexited hidle hinUse hawaited hfree himages hrecorded =>
      refine ⟨fun loaded hl => ?_, fun q hq _ => ?_⟩
      · rw [hloads] at hl
        cases hl
      · obtain rfl := hawaited q hq
        by_cases hvalid : (s.table.allProcesses q).valid = true
        · exact Or.inl hvalid
        · refine Or.inr ?_
          -- nothing is recorded for it, so nothing may be given back
          have hsum := sum_update_add s.table.recorded q 0
          have hnone := ProcTable.recorded_of_not_valid (Bool.not_eq_true _ ▸ hvalid)
          rw [← hrecorded, ← h.owned.recorded, hnone, add_zero, add_zero,
            ← hstep.owned.recorded] at hsum
          have hperm := Multiset.coe_eq_coe.2 (hstep.returned q hdestroys)
          rw [← Multiset.coe_add, hsum] at hperm
          exact (Multiset.coe_eq_zero _).1 (right_eq_add.1 hperm)
  | keeps hloads hdestroys hawaited hmemory himages hrecorded =>
      refine ⟨fun loaded hl => ?_, fun p hp hexited => absurd hexited (hawaited p hp)⟩
      rw [hloads] at hl
      cases hl

/-- Under the condition freeing does not go wrong: a step of the machine is a step of the system. -/
theorem exists_step_other {op : SysOp} {t : ProcTable}
    (h : SystemInv idle multicore memoryTotal memoryKernel others s)
    (htotal : memoryTotal ≤ maxMemory) (hop : ∀ image, op ≠ .execve image)
    (htable : s.table.step op = .ok (r, t)) (hkeeps : s.KeepsImages (.other op)) :
    ∃ s', s.step (.other op) = .ok (r, s') := by
  obtain ⟨l, hmachine⟩ := h.machine
  obtain ⟨-, hcases⟩ := ProcTable.step_recorded hmachine htable fun image => hop (some image)
  have hfree : ∃ s', s.freeDestroyed t (s.table.destroyed op r) = .ok s' := by
    rcases hcases with ⟨hnone, -⟩ | ⟨p, hdestroyed, hexited, hinUse, -⟩
    · rw [hnone]
      exact ⟨_, rfl⟩
    · rw [hdestroyed]
      have hfirst : s.table.procFirst ≠ some p := by
        rw [hmachine.procFirst]
        rintro heq
        cases heq
        rw [hmachine.idle_ready] at hexited
        cases hexited
      have hcases : (s.table.allProcesses p).valid = true ∨
          (s.table.allProcesses p).imageBlocks = [] := by
        rcases hinUse with hvalid | rfl
        · exact Or.inl hvalid
        · refine hkeeps.inUse p ?_ hexited
          cases r with
          | reaped value exitValue => exact hdestroyed
          | _ => cases hdestroyed
      have hperm := (h.owned.perm_diff hfirst hcases).2.append_right others
      rw [List.append_assoc] at hperm
      obtain ⟨m, hm⟩ := (h.heap.congr rfl rfl hperm).exists_freeBlocks htotal
      simp only [freeDestroyed, hm]
      exact ⟨_, rfl⟩
  obtain ⟨s', hfree⟩ := hfree
  refine ⟨s', ?_⟩
  cases op with
  | execve image => exact absurd rfl (hop image)
  | _ =>
      rw [step, htable]
      · simp only [hfree]
      · exact fun image h => hop image h

/-! ## Runs -/

/-- init is the only process with an image. -/
theorem start_recorded (idleStack idleText : Nat) (name : CString) (loaded : Loaded) :
    (start idleStack idleText name loaded).table.recorded =
      Function.update (fun _ => 0) 1
        (blockAt loaded.stackPage loaded.sizes.stackSize.toNat ++
          blockAt loaded.binaryStart loaded.sizes.totalProgramSize.toNat : List MemoryBlock) := by
  funext p
  fin_cases p
  · exact if_neg fun hand => hand.2 rfl
  · exact ProcTable.recorded_of_valid rfl fun heq => by cases heq
  all_goals exact ProcTable.recorded_of_not_valid rfl

theorem start_inv {m : MemoryState} {opened : Except Int ExecutableFile} {uninit : UninitStack}
    {loaded : Loaded}
    (hheap : MemoryHeap.Inv multicore memoryTotal memoryKernel ⟨m, others⟩)
    (htotal : memoryTotal ≤ maxMemory) (hload : execveLoad m opened uninit = .ok (.ok loaded))
    (hstack : 0 < loaded.sizes.stackSize) (hprogram : 0 < loaded.sizes.totalProgramSize)
    (idleStack idleText : Nat) (name : CString) :
    SystemInv 0 multicore memoryTotal memoryKernel others
      (start idleStack idleText name loaded) := by
  have hinv := hheap.execveLoad htotal hstack hprogram hload
  have hmem : ∀ b ∈ loaded.blocks, b.type = memoryUserType → b.location ≠ 0 := fun b hb =>
    hinv.location_ne_zero (List.mem_append_left _ hb)
  refine ⟨⟨_, ProcTable.startUserspace_inv idleStack idleText _⟩, ⟨?_, ?_⟩, hinv⟩
  · have hsum := sum_update_add (fun _ : ProcId => (0 : Multiset MemoryBlock)) 1
      (blockAt loaded.stackPage loaded.sizes.stackSize.toNat ++
        blockAt loaded.binaryStart loaded.sizes.totalProgramSize.toNat : List MemoryBlock)
    rw [← start_recorded idleStack idleText name loaded, add_zero, Finset.sum_const_zero,
      zero_add, Loaded.blockAt_image (hmem _ List.mem_cons_self rfl)
        (hmem _ (List.mem_cons_of_mem _ List.mem_cons_self) rfl)] at hsum
    exact hsum.symm
  · exact (List.nodup_append.1 hinv.nodup).1

/-- From init on, in a run that loads no empty image: the blocks that `execve` has allocated are
those recorded, and a destroyed process gives back its own, exactly as long as no process with an
image calls `execve` and none is destroyed twice. -/
theorem run_imagesOwned_iff {map : MemoryMap} (bytes : Nat → UInt8)
    (hmap : ∀ i < memoryMapWords, map i = 0) (htotal : memoryTotal ≤ maxMemory)
    (hkernel : memoryKernel ≤ reservedKernel) (htotal' : memoryTotal % 4096 = 0)
    (hkernel' : memoryKernel % 4096 = 0) {bootOps : List MemoryOp}
    (hsized : ∀ op ∈ bootOps, op.Sized) {locations : List Nat} {heap : MemoryHeap}
    (hboot : MemoryHeap.run (MemoryHeap.booted map bytes multicore memoryTotal memoryKernel)
      bootOps = .ok (locations, heap))
    {opened : Except Int ExecutableFile} {uninit : UninitStack} {loaded : Loaded}
    (hload : execveLoad heap.memory opened uninit = .ok (.ok loaded))
    (hstack : 0 < loaded.sizes.stackSize) (hprogram : 0 < loaded.sizes.totalProgramSize)
    (idleStack idleText : Nat) (name : CString) {ops : List ImageOp} {rs : List SysReply}
    (hops : Along step LoadsNonempty (start idleStack idleText name loaded) ops)
    (hrun : run step (start idleStack idleText name loaded) ops = .ok (rs, s)) :
    ImagesOwned (start idleStack idleText name loaded) ∧
      (Along step KeepsImages (start idleStack idleText name loaded) ops ↔
        Throughout step (StepOwned multicore memoryTotal memoryKernel heap.live)
          (start idleStack idleText name loaded) ops) := by
  have hheap := MemoryHeap.run_inv bytes hmap htotal hkernel htotal' hkernel' hsized hboot
  have hstart := start_inv hheap htotal hload hstack hprogram idleStack idleText name
  refine ⟨hstart.owned, ?_⟩
  refine along_iff_throughout_of_along
    (SystemInv 0 multicore memoryTotal memoryKernel heap.live) ?_ ?_ hstart hops hrun
  · intro s op r s' hs hnonempty hok
    exact ⟨fun hkeeps => (stepOwned_of_keepsImages hs htotal hnonempty hok hkeeps).1,
      keepsImages_of_stepOwned hs htotal hnonempty hok⟩
  · intro s op r s' hs hnonempty hok howned
    exact (stepOwned_of_keepsImages hs htotal hnonempty hok
      (keepsImages_of_stepOwned hs htotal hnonempty hok howned)).2

end Steps

/-- init forks, the child loads an image and exits, and init destroys it. -/
theorem run_imagesOwned_iff_family : ∃ locations heap loaded,
    MemoryHeap.run (MemoryHeap.booted (fun _ => 0) (fun _ => 0) true 33554432 1048576)
        [.allocate 4096 1] = .ok (locations, heap) ∧
      execveLoad heap.memory (.ok (fileOfBytes [1, 2, 3, 4])) zeroStack = .ok (.ok loaded) ∧
      Throughout step (StepOwned true 33554432 1048576 heap.live) (start 16777216 4096 [105] loaded)
        [.other .vfork, .execve [115] (.ok (fileOfBytes [1, 2, 3, 4])) zeroStack, .other .resume,
          .other (.waitpid 2 0), .other (.exit 7), .other .resume] := by
  have hcheck : ((MemoryHeap.run
      (MemoryHeap.booted (fun _ => 0) (fun _ => 0) true 33554432 1048576) [.allocate 4096 1]).map
        fun r => (execveLoad r.2.memory (.ok (fileOfBytes [1, 2, 3, 4])) zeroStack).map fun
          | .error _ => false
          | .ok loaded =>
              let ops : List ImageOp := [.other .vfork,
                .execve [115] (.ok (fileOfBytes [1, 2, 3, 4])) zeroStack, .other .resume,
                .other (.waitpid 2 0), .other (.exit 7), .other .resume]
              decide ((0 < loaded.sizes.stackSize ∧ 0 < loaded.sizes.totalProgramSize) ∧
                Along step LoadsNonempty (start 16777216 4096 [105] loaded) ops ∧
                Along step KeepsImages (start 16777216 4096 [105] loaded) ops ∧
                (run step (start 16777216 4096 [105] loaded) ops).isOk = true)) =
      .ok (.ok true) := by decide +kernel
  obtain ⟨⟨locations, heap⟩, hboot, hloads⟩ := map_eq_ok.1 hcheck
  obtain ⟨outcome, hload, hdecided⟩ := map_eq_ok.1 hloads
  cases outcome with
  | error e => cases hdecided
  | ok loaded =>
      obtain ⟨⟨hstack, hprogram⟩, hops, hkeeps, hok⟩ := of_decide_eq_true hdecided
      cases hrun : run step (start 16777216 4096 [105] loaded) [.other .vfork,
        .execve [115] (.ok (fileOfBytes [1, 2, 3, 4])) zeroStack, .other .resume,
        .other (.waitpid 2 0), .other (.exit 7), .other .resume] with
      | error e =>
          rw [hrun] at hok
          cases hok
      | ok result =>
          exact ⟨locations, heap, loaded, hboot, hload,
            (run_imagesOwned_iff (fun _ => 0) (fun _ _ => rfl) (by decide) (by decide) (by decide)
              (by decide) (by decide) hboot hload hstack hprogram 16777216 4096 [105] hops
              hrun).2.1 hkeeps⟩

/-- init loads another image: the blocks of the first one are in use and recorded nowhere. -/
theorem not_imagesOwned : ¬ ∀ (locations : List Nat) (heap : MemoryHeap)
    (opened : Except Int ExecutableFile) (uninit : UninitStack) (loaded : Loaded)
    (idleStack idleText : Nat) (name : CString) (ops : List ImageOp) (rs : List SysReply)
    (s : ImageSystem),
    MemoryHeap.run (MemoryHeap.booted (fun _ => 0) (fun _ => 0) true 33554432 1048576)
        [.allocate 4096 1] = .ok (locations, heap) →
      execveLoad heap.memory opened uninit = .ok (.ok loaded) →
      0 < loaded.sizes.stackSize → 0 < loaded.sizes.totalProgramSize →
      Along step LoadsNonempty (start idleStack idleText name loaded) ops →
      run step (start idleStack idleText name loaded) ops = .ok (rs, s) →
        Throughout step (StepOwned true 33554432 1048576 heap.live)
          (start idleStack idleText name loaded) ops := by
  intro hall
  have hcheck : ((MemoryHeap.run
      (MemoryHeap.booted (fun _ => 0) (fun _ => 0) true 33554432 1048576) [.allocate 4096 1]).map
        fun r => (execveLoad r.2.memory (.ok (fileOfBytes [1, 2, 3, 4])) zeroStack).map fun
          | .error _ => false
          | .ok loaded =>
              let op : ImageOp := .execve [115] (.ok (fileOfBytes [1, 2, 3, 4])) zeroStack
              decide ((0 < loaded.sizes.stackSize ∧ 0 < loaded.sizes.totalProgramSize) ∧
                Along step LoadsNonempty (start 16777216 4096 [105] loaded) [op] ∧
                ¬ KeepsImages (start 16777216 4096 [105] loaded) op ∧
                (run step (start 16777216 4096 [105] loaded) [op]).isOk = true)) =
      .ok (.ok true) := by decide +kernel
  obtain ⟨⟨locations, heap⟩, hboot, hloads⟩ := map_eq_ok.1 hcheck
  obtain ⟨outcome, hload, hdecided⟩ := map_eq_ok.1 hloads
  cases outcome with
  | error e => cases hdecided
  | ok loaded =>
      obtain ⟨⟨hstack, hprogram⟩, hops, hkeeps, hok⟩ := of_decide_eq_true hdecided
      have hheap := MemoryHeap.run_inv (fun _ => 0) (fun _ _ => rfl) (by decide) (by decide)
        (by decide) (by decide) (by decide) hboot
      have hstart := start_inv hheap (by decide) hload hstack hprogram 16777216 4096 [105]
      cases hrun : run step (start 16777216 4096 [105] loaded)
          [.execve [115] (.ok (fileOfBytes [1, 2, 3, 4])) zeroStack] with
      | error e =>
          rw [hrun] at hok
          cases hok
      | ok result =>
          have howned := hall locations heap _ _ loaded _ _ _ _ result.1 result.2 hboot hload hstack
            hprogram hops hrun
          obtain ⟨r, hstep, -⟩ := run_singleton_eq_ok.1 hrun
          exact hkeeps (keepsImages_of_stepOwned hstart (by decide) hops.1 hstep
            (howned r result.2 hstep).1)

end ImageSystem

end Vmwos
