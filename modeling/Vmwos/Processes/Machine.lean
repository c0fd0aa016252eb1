import Vmwos.Processes.ProcessTable

/-!
# What a step of the machine does

Every invariant of the machine is derived from `step_cases`: in a state whose process list
is in order (`MachineInv`), each step leads to such a state again, and changes the processes
in one of the ways of `StepEffect`. The places in the process list and in the wait queues,
the times and the choice of the scheduler are left open there (`SameProcesses`).
-/

set_option autoImplicit false

namespace Vmwos

open Library

/-- A control block without its links and its times. -/
def Process.core (p : Process) : Process :=
  { p with next := none, prev := none, waitQueueNext := none, userTime := 0, lastScheduled := 0 }

namespace ProcTable

variable {t t' t₁ : ProcTable} {l : List ProcId} {p q child idle : ProcId}

/-- The processes are the same, except for links and times. -/
structure SameProcesses (t t' : ProcTable) : Prop where
  core : ∀ p, (t'.allProcesses p).core = (t.allProcesses p).core
  availPid : t'.availPid = t.availPid

namespace SameProcesses

theorem refl (t : ProcTable) : SameProcesses t t := ⟨fun _ => rfl, rfl⟩

theorem trans (h : SameProcesses t t₁) (h' : SameProcesses t₁ t') : SameProcesses t t' where
  core := fun p => (h'.core p).trans (h.core p)
  availPid := h'.availPid.trans h.availPid

/-- What the links and times do not decide is the same. -/
theorem field {β : Type*} (h : SameProcesses t t') (field : Process → β)
    (hfield : ∀ x : Process, field x.core = field x) (p : ProcId) :
    field (t'.allProcesses p) = field (t.allProcesses p) := by
  rw [← hfield, h.core, hfield]

theorem status (h : SameProcesses t t') (p : ProcId) : t'.status p = t.status p :=
  h.field Process.status (fun _ => rfl) p

theorem valid (h : SameProcesses t t') (p : ProcId) :
    (t'.allProcesses p).valid = (t.allProcesses p).valid :=
  h.field Process.valid (fun _ => rfl) p

theorem pid (h : SameProcesses t t') (p : ProcId) :
    (t'.allProcesses p).pid = (t.allProcesses p).pid :=
  h.field Process.pid (fun _ => rfl) p

theorem parent (h : SameProcesses t t') (p : ProcId) :
    (t'.allProcesses p).parent = (t.allProcesses p).parent :=
  h.field Process.parent (fun _ => rfl) p

theorem resume (h : SameProcesses t t') (p : ProcId) :
    (t'.allProcesses p).resume = (t.allProcesses p).resume :=
  h.field Process.resume (fun _ => rfl) p

theorem exitValue (h : SameProcesses t t') (p : ProcId) :
    (t'.allProcesses p).exitValue = (t.allProcesses p).exitValue :=
  h.field Process.exitValue (fun _ => rfl) p

/-- The same change in both tables. -/
theorem modify (h : SameProcesses t t') {f f' : Process → Process}
    (hf : (f' (t'.allProcesses p)).core = (f (t.allProcesses p)).core) :
    SameProcesses (t.modify p f) (t'.modify p f') where
  core := by
    intro q
    rcases eq_or_ne q p with rfl | hq
    · rw [modify_self, modify_self, hf]
    · rw [modify_of_ne _ hq, modify_of_ne _ hq, h.core]
  availPid := h.availPid

theorem of_onlyLinks (h : OnlyLinks t t') : SameProcesses t t' where
  core := by
    intro p
    rw [h.2.2.2.2 p]
    rfl
  availPid := h.2.1

/-- The copy that `vfork` makes does not depend on links and times. -/
theorem forkInto (h : SameProcesses t t') :
    SameProcesses (t.forkInto child q) (t'.forkInto child q) := by
  have hcopy : SameProcesses (t.modify child fun new => t.childProcess new q)
      (t'.modify child fun new => t'.childProcess new q) := by
    apply h.modify
    have hcore : ∀ (u : ProcTable) (new : Process), (u.childProcess new q).core =
        { (u.allProcesses q).core with
          pid := new.pid, parent := some q, stack := 0, text := 0, status := .ready,
          resume := .user } := fun _ _ => rfl
    rw [hcore, hcore, h.core, h.pid]
  apply hcopy.modify
  have hcore : ∀ (x : Process) (k : Int),
      ({ x with status := .sleeping, resume := .vfork child k } : Process).core =
        { x.core with status := .sleeping, resume := .vfork child k } := fun _ _ => rfl
  rw [hcore, hcore, hcopy.core, h.pid]

end SameProcesses

/-- A change of links and times only. -/
theorem sameProcesses_modify {f : Process → Process}
    (hf : (f (t.allProcesses p)).core = (t.allProcesses p).core) :
    SameProcesses t (t.modify p f) :=
  ⟨modify_field Process.core hf, rfl⟩

/-! ## The order of the processes -/

/-- The list of the processes in use starts with the idle process, which is always ready and
makes no system calls; the running process is on the list. -/
structure ListInv (idle : ProcId) (t : ProcTable) (l : List ProcId) : Prop where
  listed : Listed t l
  valid_iff : ∀ p, (t.allProcesses p).valid = true ↔ p ∈ l
  idle_first : l.head? = some idle
  running : t.currentProc ∈ l
  idle_ready : t.status idle = .ready
  idle_user : (t.allProcesses idle).resume = .user

/-- Between two steps the running process is ready. -/
structure MachineInv (idle : ProcId) (t : ProcTable) (l : List ProcId) : Prop
    extends ListInv idle t l where
  ready : t.status t.currentProc = .ready

theorem ListInv.congr (h : ListInv idle t l) (hlinks : SameLinks t t')
    (hvalid : ∀ p, (t'.allProcesses p).valid = (t.allProcesses p).valid)
    (hcur : t'.currentProc = t.currentProc) (hidle : t'.status idle = .ready)
    (huser : (t'.allProcesses idle).resume = .user) : ListInv idle t' l where
  listed := hlinks.listed h.listed
  valid_iff := fun p => by
    rw [hvalid]
    exact h.valid_iff p
  idle_first := h.idle_first
  running := hcur ▸ h.running
  idle_ready := hidle
  idle_user := huser

theorem ListInv.procFirst (h : ListInv idle t l) : t.procFirst = some idle :=
  h.listed.linked.start_eq.trans h.idle_first

theorem ListInv.idle_mem (h : ListInv idle t l) : idle ∈ l := List.mem_of_mem_head? h.idle_first

theorem ListInv.ne_nil (h : ListInv idle t l) : l ≠ [] := List.ne_nil_of_mem h.idle_mem

/-- `schedule` switches to a ready process. -/
theorem ListInv.schedule (h : ListInv idle t l) (hok : t.schedule = .ok t') :
    MachineInv idle t' l ∧ SameProcesses t t' := by
  obtain ⟨rest, rfl⟩ := List.head?_eq_some_iff.1 h.idle_first
  rw [schedule_eq h.listed.linked h.running] at hok
  cases hok
  split
  · -- there is only the idle process
    rename_i hrest
    subst hrest
    refine ⟨⟨h, ?_⟩, SameProcesses.refl t⟩
    rw [List.mem_singleton.1 h.running]
    exact h.idle_ready
  · rename_i hrest
    have hsame : SameProcesses t (t.processSwitch (t.roundRobin idle rest)) :=
      ⟨processSwitch_field Process.core (fun _ _ _ => rfl) t _, rfl⟩
    have hidle := (hsame.status idle).trans h.idle_ready
    have hchoice : t.roundRobin idle rest ∈ idle :: rest ∧
        t.status (t.roundRobin idle rest) = .ready := by
      rcases roundRobin_spec h.listed.linked.nodup h.running hrest with ⟨hidle, -⟩ | ⟨hmem, hready⟩
      · rw [hidle]
        exact ⟨List.mem_cons_self, h.idle_ready⟩
      · exact ⟨List.mem_cons_of_mem idle hmem, hready⟩
    refine ⟨⟨⟨(sameLinks_processSwitch t _).listed h.listed, ?_, h.idle_first, hchoice.1, hidle,
      (hsame.resume idle).trans h.idle_user⟩, (hsame.status _).trans hchoice.2⟩, hsame⟩
    intro p
    rw [hsame.valid]
    exact h.valid_iff p

/-- The running process is not the idle one when a system call can be made. -/
theorem ListInv.current_ne_idle (h : ListInv idle t l) (hcur : t.procFirst ≠ some t.currentProc) :
    idle ≠ t.currentProc := by
  rintro rfl
  exact hcur h.procFirst

/-! ## Wait queues -/

/-- The processes on a wait queue. -/
def queued (t : ProcTable) (queue : WaitQueue) : List ProcId :=
  nodesOnce (listRounds + 1) (fun p => (t.allProcesses p).waitQueueNext) (t.waitQueueFirst queue)

/-- Waking touches the status and the wait queue pointers only. -/
theorem wakeLoop_field {β : Type*} (field : Process → β)
    (hfield : ∀ (x : Process) s n, field { x with status := s, waitQueueNext := n } = field x)
    (fuel : Nat) (t : ProcTable) (start : Option ProcId) (q : ProcId) :
    field ((wakeLoop fuel t start).allProcesses q) = field (t.allProcesses q) := by
  induction fuel generalizing t start with
  | zero => rfl
  | succ fuel ih =>
      cases start with
      | none => rfl
      | some a =>
          rw [wakeLoop, ih]
          exact modify_field field (hfield _ _ _) q

theorem wakeLoop_rest (fuel : Nat) (t : ProcTable) (start : Option ProcId) :
    (wakeLoop fuel t start).procFirst = t.procFirst ∧
      (wakeLoop fuel t start).currentProc = t.currentProc ∧
      (wakeLoop fuel t start).availPid = t.availPid := by
  induction fuel generalizing t start with
  | zero => exact ⟨rfl, rfl, rfl⟩
  | succ fuel ih =>
      cases start with
      | none => exact ⟨rfl, rfl, rfl⟩
      | some a =>
          rw [wakeLoop]
          exact ih _ _

/-- Waking makes ready what the pointers lead to, and nothing else. -/
theorem wakeLoop_status (fuel : Nat) (t : ProcTable) (start : Option ProcId) (q : ProcId) :
    (wakeLoop fuel t start).status q =
      if q ∈ nodesOnce fuel (fun p => (t.allProcesses p).waitQueueNext) start then .ready
      else t.status q := by
  induction fuel generalizing t start with
  | zero => rfl
  | succ fuel ih =>
      cases start with
      | none => rfl
      | some a =>
          have hcut : (fun p => ((t.modify a fun p =>
              { p with status := .ready, waitQueueNext := none }).allProcesses p).waitQueueNext) =
              Function.update (fun p => (t.allProcesses p).waitQueueNext) a none := by
            funext p
            rcases eq_or_ne p a with rfl | hp
            · rw [modify_self, Function.update_self]
            · rw [modify_of_ne _ hp, Function.update_of_ne hp]
          rw [wakeLoop, ih, hcut, nodesOnce]
          -- a process met twice is ready from the first time on
          rcases eq_or_ne q a with rfl | hq
          · have hready : (t.modify q fun p =>
                { p with status := .ready, waitQueueNext := none }).status q = .ready := by
              rw [status, modify_self]
            rw [hready, ite_self, if_pos List.mem_cons_self]
          · have hsame : (t.modify a fun p =>
                { p with status := .ready, waitQueueNext := none }).status q = t.status q := by
              rw [status, modify_of_ne _ hq]
              rfl
            rw [hsame]
            simp only [List.mem_cons, hq, false_or]

theorem waitQueueWake_status (t : ProcTable) (queue : WaitQueue) (q : ProcId) :
    (t.waitQueueWake queue).status q = if q ∈ t.queued queue then .ready else t.status q :=
  wakeLoop_status _ t _ q

theorem waitQueueWake_field {β : Type*} (field : Process → β)
    (hfield : ∀ (x : Process) s n, field { x with status := s, waitQueueNext := n } = field x)
    (t : ProcTable) (queue : WaitQueue) (q : ProcId) :
    field ((t.waitQueueWake queue).allProcesses q) = field (t.allProcesses q) :=
  wakeLoop_field field hfield _ t _ q

theorem waitQueueWake_currentProc (t : ProcTable) (queue : WaitQueue) :
    (t.waitQueueWake queue).currentProc = t.currentProc :=
  (wakeLoop_rest _ t _).2.1

theorem waitQueueWake_availPid (t : ProcTable) (queue : WaitQueue) :
    (t.waitQueueWake queue).availPid = t.availPid :=
  (wakeLoop_rest _ t _).2.2

theorem ListInv.waitQueueWake (h : ListInv idle t l) (queue : WaitQueue) :
    ListInv idle (t.waitQueueWake queue) l := by
  refine h.congr ⟨(wakeLoop_rest _ t _).1, ?_, ?_⟩
    (waitQueueWake_field Process.valid (fun _ _ _ => rfl) t queue)
    (waitQueueWake_currentProc t queue) ?_
    ((waitQueueWake_field Process.resume (fun _ _ _ => rfl) t queue idle).trans h.idle_user)
  · exact funext (waitQueueWake_field Process.next (fun _ _ _ => rfl) t queue)
  · exact funext (waitQueueWake_field Process.prev (fun _ _ _ => rfl) t queue)
  · rw [waitQueueWake_status, h.idle_ready, ite_self]

/-- Enqueuing changes pointers of the wait queues only. -/
theorem enqueue_same {queue : WaitQueue} (h : t.enqueue queue p = .ok t') :
    SameProcesses t t' ∧ SameLinks t t' ∧ t'.currentProc = t.currentProc := by
  unfold enqueue at h
  split at h
  · cases h
    exact ⟨⟨fun _ => rfl, rfl⟩, ⟨rfl, rfl, rfl⟩, rfl⟩
  · split at h
    · cases h
    · cases h
      exact ⟨SameProcesses.refl t, SameLinks.refl t, rfl⟩
    · cases h
      split
      · exact ⟨SameProcesses.refl t, SameLinks.refl t, rfl⟩
      · exact ⟨sameProcesses_modify rfl, sameLinks_modify rfl rfl, rfl⟩

/-- The running process goes to sleep; later it goes on where `resume` says. -/
def sleepIn (t : ProcTable) (resume : Resume) : ProcTable :=
  t.modify t.currentProc fun p => { p with status := .sleeping, resume := resume }

/-- `wait_queue_add` for the running process. -/
theorem ListInv.waitQueueAdd {queue : WaitQueue} (h : ListInv idle t l)
    (hcur : idle ≠ t.currentProc) (hok : t.waitQueueAdd queue t.currentProc = .ok t') :
    MachineInv idle t' l ∧
      SameProcesses (t.sleepIn (t.allProcesses t.currentProc).resume) t' := by
  unfold ProcTable.waitQueueAdd at hok
  split at hok
  · cases hok
  · rename_i u hu
    obtain ⟨hsame, hlinks, hcurrent⟩ := enqueue_same hu
    have hlinks' : SameLinks t (u.modify t.currentProc fun p => { p with status := .sleeping }) :=
      hlinks.trans (sameLinks_modify rfl rfl)
    have hvalid : ∀ p, ((u.modify t.currentProc fun p =>
        { p with status := .sleeping }).allProcesses p).valid = (t.allProcesses p).valid := by
      intro p
      rw [modify_field Process.valid (by rfl), hsame.valid]
    have hidle : (u.modify t.currentProc fun p => { p with status := .sleeping }).status idle =
        .ready := by
      rw [status, modify_of_ne _ hcur]
      exact (hsame.status idle).trans h.idle_ready
    have huser : ((u.modify t.currentProc fun p =>
        { p with status := .sleeping }).allProcesses idle).resume = .user := by
      rw [modify_of_ne _ hcur, hsame.resume]
      exact h.idle_user
    obtain ⟨hinv, hsame'⟩ := (h.congr hlinks' hvalid hcurrent hidle huser).schedule hok
    refine ⟨hinv, SameProcesses.trans ?_ hsame'⟩
    apply hsame.modify
    have hcore : ∀ (x : Process), ({ x with status := .sleeping } : Process).core =
        { x.core with status := .sleeping } := fun _ => rfl
    rw [hcore, hsame.core]
    rfl

/-! ## The system calls -/

/-- The processes after the copy that `vfork` makes into the control block `child`. -/
def forked (t : ProcTable) (child : ProcId) : ProcTable :=
  (t.takeSlot child).forkInto child t.currentProc

/-- The child is a copy of the parent. -/
theorem forked_child (hne : t.currentProc ≠ child) :
    (t.forked child).allProcesses child =
      { t.allProcesses t.currentProc with
        pid := t.availPid, prev := none, next := none, parent := some t.currentProc, stack := 0,
        text := 0, status := .ready, resume := .user } := by
  rw [forked, forkInto, modify_of_ne _ hne.symm, modify_self, childProcess, takeSlot_of_ne hne,
    takeSlot_self]
  rfl

/-- The parent sleeps until the child calls `execve`. -/
theorem forked_parent (hne : t.currentProc ≠ child) :
    (t.forked child).allProcesses t.currentProc =
      { t.allProcesses t.currentProc with
        status := .sleeping, resume := .vfork child t.availPid } := by
  rw [forked, forkInto, modify_self, modify_of_ne _ hne, takeSlot_of_ne hne, takeSlot_self]
  rfl

theorem forked_of_ne (hchild : q ≠ child) (hparent : q ≠ t.currentProc) :
    (t.forked child).allProcesses q = t.allProcesses q := by
  rw [forked, forkInto, modify_of_ne _ hparent, modify_of_ne _ hchild, takeSlot_of_ne hchild]

/-- `vfork` takes the free control block that `process_create` finds. -/
theorem vfork_cases {r : SysReply} (h : MachineInv idle t l) (hcur : idle ≠ t.currentProc)
    (hok : t.vfork = .ok (r, t')) :
    (t.freeSlot = none ∧ r = .returned (-1) ∧ t' = t) ∨
      ∃ child, t.freeSlot = some child ∧ child ∉ l ∧ r = .suspended ∧
        MachineInv idle t' (l ++ [child]) ∧
        SameProcesses (t.forked child) t' := by
  rw [vfork] at hok
  rcases processCreate_cases h.listed h.ne_nil h.valid_iff with
    ⟨hfull, hcreate⟩ | ⟨child, t₁, hfree, hchild, hcreate, hlisted, -, honly⟩
  · rw [hcreate] at hok
    cases hok
    exact Or.inl ⟨hfull, rfl, rfl⟩
  · rw [hcreate] at hok
    simp only at hok
    split at hok
    · cases hok
    · rename_i u hu
      cases hok
      have hsame : SameProcesses (t.forked child) (t₁.forkInto child t.currentProc) := (SameProcesses.of_onlyLinks honly).forkInto
      have hlinks : SameLinks t₁ (t₁.forkInto child t.currentProc) :=
        (sameLinks_modify rfl rfl).trans (sameLinks_modify rfl rfl)
      have hidle : idle ≠ child := fun hne => hchild (hne ▸ h.idle_mem)
      have hne : t.currentProc ≠ child := fun hne => hchild (hne ▸ h.running)
      have hinv : ListInv idle (t₁.forkInto child t.currentProc) (l ++ [child]) := by
        refine ⟨hlinks.listed hlisted, ?_, ?_, ?_, ?_, ?_⟩
        · intro p
          -- the parent is valid, so the copy is
          have hparent := (h.valid_iff _).2 h.running
          rw [hsame.valid]
          rcases eq_or_ne p child with rfl | hp
          · rw [forked_child hne]
            exact iff_of_true hparent (List.mem_append_right _ List.mem_cons_self)
          · rcases eq_or_ne p t.currentProc with rfl | hp'
            · rw [forked_parent hne]
              exact iff_of_true hparent (List.mem_append_left _ h.running)
            · rw [forked_of_ne hp hp', h.valid_iff]
              simp [hp]
        · rw [List.head?_append_of_ne_nil _ h.ne_nil]
          exact h.idle_first
        · show t₁.currentProc ∈ _
          rw [honly.1]
          exact List.mem_append_left _ h.running
        · rw [hsame.status, status, forked_of_ne hidle hcur]
          exact h.idle_ready
        · rw [hsame.resume, forked_of_ne hidle hcur]
          exact h.idle_user
      obtain ⟨hinv', hsame'⟩ := hinv.schedule hu
      exact Or.inr ⟨child, hfree, hchild, rfl, hinv', hsame.trans hsame'⟩

/-- A new image changes neither the family of the caller nor its place in the list. -/
theorem setImage_field {β : Type*} (field : Process → β)
    (hfield : ∀ (x : Process) (image : Image), field { x with
      name := image.name
      stack := image.stack
      stacksize := image.stacksize
      text := image.text
      textsize := image.textsize } = field x) (t : ProcTable) (image : Option Image) (q : ProcId) :
    field ((t.setImage image).allProcesses q) = field (t.allProcesses q) := by
  cases image with
  | none => rfl
  | some image =>
      rw [setImage, modify_field field]
      exact hfield _ image

@[simp] theorem setImage_currentProc (t : ProcTable) (image : Option Image) :
    (t.setImage image).currentProc = t.currentProc := by
  cases image <;> rfl

@[simp] theorem setImage_availPid (t : ProcTable) (image : Option Image) :
    (t.setImage image).availPid = t.availPid := by
  cases image <;> rfl

/-- `SYSCALL_EXECVE` makes the process ready that the parent pointer leads to. -/
theorem execve_cases {r : SysReply} {image : Option Image} (h : MachineInv idle t l)
    (hok : t.execve image = .ok (r, t')) :
    ∃ parent, (t.allProcesses t.currentProc).parent = some parent ∧ r = .suspended ∧
      MachineInv idle t' l ∧
      SameProcesses ((t.setImage image).modify parent fun p => { p with status := .ready }) t' := by
  rw [execve] at hok
  split at hok
  · cases hok
  · rename_i parent hparent
    split at hok
    · cases hok
    · rename_i u hu
      cases hok
      have hlinks : SameLinks t (t.setImage image) :=
        ⟨by cases image <;> rfl, funext (setImage_field Process.next (fun _ _ => rfl) t image),
          funext (setImage_field Process.prev (fun _ _ => rfl) t image)⟩
      have hinv := h.congr (hlinks.trans (sameLinks_modify (p := parent)
        (f := fun p => { p with status := .ready }) rfl rfl)) (by
          intro p
          rw [modify_field Process.valid (by rfl),
            setImage_field Process.valid (fun _ _ => rfl)]) (setImage_currentProc t image) (by
          rcases eq_or_ne idle parent with rfl | hne
          · rw [status, modify_self]
          · rw [status, modify_of_ne _ hne, setImage_field Process.status (fun _ _ => rfl)]
            exact h.idle_ready) (by
          rw [modify_field Process.resume (by rfl), setImage_field Process.resume (fun _ _ => rfl)]
          exact h.idle_user)
      obtain ⟨hinv', hsame⟩ := hinv.schedule hu
      exact ⟨parent, hparent, rfl, hinv', hsame⟩

/-- `exit` wakes what waits in `waitpid`. -/
theorem exit_cases {r : SysReply} {status : Int} (h : MachineInv idle t l)
    (hcur : idle ≠ t.currentProc) (hok : t.exit status = .ok (r, t')) :
    r = .suspended ∧ MachineInv idle t' l ∧
      SameProcesses ((t.markExited status).waitQueueWake .waitpid) t' := by
  rw [exit] at hok
  split at hok
  · cases hok
  · rename_i u hu
    cases hok
    have hinv : ListInv idle (t.markExited status) l := by
      refine h.congr (sameLinks_modify rfl rfl) (modify_field Process.valid (by rfl)) rfl ?_
        ((modify_field Process.resume (by rfl) idle).trans h.idle_user)
      rw [markExited, ProcTable.status, modify_of_ne _ hcur]
      exact h.idle_ready
    obtain ⟨hinv', hsame⟩ := (hinv.waitQueueWake .waitpid).schedule hu
    exact ⟨rfl, hinv', hsame⟩

/-- The running process destroys `proc` and leaves `waitpid`. -/
def reap (t : ProcTable) (proc : ProcId) : ProcTable :=
  (t.setResume .user).modify proc fun p => { p with valid := false }

/-- An exited process, listed or not, is destroyed and the caller goes on. -/
theorem ListInv.processDestroy (h : ListInv idle t l) (hp : t.status p = .exited)
    (hcur : t.status t.currentProc = .ready) (hok : t.processDestroy p = .ok t') :
    MachineInv idle t' (l.erase p) ∧ t'.currentProc = t.currentProc ∧
      SameProcesses (t.modify p fun x => { x with valid := false }) t' := by
  have hrest : t'.currentProc = t.currentProc ∧ Listed t' (l.erase p) ∧
      (l.erase p).head? = l.head? ∧
      SameProcesses (t.modify p fun x => { x with valid := false }) t' := by
    have hfirst : t.procFirst ≠ some p := by
      rw [h.procFirst]
      rintro heq
      cases heq
      rw [h.idle_ready] at hp
      cases hp
    rcases Decidable.em (p ∈ l) with hmem | hmem
    · obtain ⟨u, hu, hlisted, -, hhead, honly⟩ := processDestroy_eq h.listed hmem hfirst
      rw [hu] at hok
      cases hok
      exact ⟨honly.1, hlisted, hhead, SameProcesses.of_onlyLinks honly⟩
    · have hlinks : SameLinks t (t.modify p fun x => { x with valid := false }) :=
        sameLinks_modify rfl rfl
      rw [processDestroy_of_notMem h.listed.linked hmem] at hok
      cases hok
      rw [List.erase_of_not_mem hmem]
      exact ⟨rfl, hlinks.listed h.listed, rfl, SameProcesses.refl _⟩
  obtain ⟨hcurrent, hlisted, hhead, hsame⟩ := hrest
  have hstatus : t'.status = t.status := by
    funext q
    exact (hsame.status q).trans (modify_field Process.status (by rfl) q)
  have hne : t.currentProc ≠ p := by
    rintro rfl
    rw [hcur] at hp
    cases hp
  refine ⟨⟨⟨hlisted, ?_, hhead.trans h.idle_first, ?_, ?_, ?_⟩, ?_⟩, hcurrent, hsame⟩
  · intro q
    rw [hsame.valid, h.listed.linked.nodup.mem_erase_iff]
    rcases eq_or_ne q p with rfl | hq
    · rw [modify_self]
      simp
    · rw [modify_of_ne _ hq, h.valid_iff]
      simp [hq]
  · rw [hcurrent]
    exact (List.mem_erase_of_ne hne).2 h.running
  · rw [hstatus]
    exact h.idle_ready
  · rw [hsame.resume, modify_field Process.resume (by rfl)]
    exact h.idle_user
  · rw [hstatus, hcurrent]
    exact hcur

theorem ListInv.setResume (h : ListInv idle t l) (hcur : idle ≠ t.currentProc) (resume : Resume) :
    ListInv idle (t.setResume resume) l := by
  refine h.congr (sameLinks_modify rfl rfl) (modify_field Process.valid (by rfl)) rfl
    ((modify_field Process.status (by rfl) idle).trans h.idle_ready) ?_
  rw [ProcTable.setResume, modify_of_ne _ hcur]
  exact h.idle_user

theorem setResume_status (resume : Resume) (q : ProcId) :
    (t.setResume resume).status q = t.status q :=
  modify_field Process.status (by rfl) q

/-- In the loop of `waitpid` the caller sleeps, or destroys the process it waits for. -/
theorem waitpidLoop_cases {r : SysReply} {pid : Int} {proc : ProcId} (h : MachineInv idle t l)
    (hcur : idle ≠ t.currentProc) (hok : t.waitpidLoop pid proc = .ok (r, t')) :
    (t.status proc ≠ .exited ∧ r = .suspended ∧ MachineInv idle t' l ∧
      SameProcesses (t.sleepIn (.waitpid pid proc)) t') ∨
    (t.status proc = .exited ∧ r = .reaped pid (t.allProcesses proc).exitValue ∧
      MachineInv idle t' (l.erase proc) ∧ t'.currentProc = t.currentProc ∧
      SameProcesses (t.reap proc) t') := by
  unfold waitpidLoop at hok
  split at hok
  · rename_i hstatus
    refine Or.inl ⟨hstatus, ?_⟩
    split at hok
    · cases hok
    · rename_i u hu
      cases hok
      obtain ⟨hinv, hsame⟩ := (h.setResume hcur (.waitpid pid proc)).waitQueueAdd hcur hu
      refine ⟨rfl, hinv, ?_⟩
      -- where it goes on is written before it falls asleep
      have htwice : (t.setResume (.waitpid pid proc)).sleepIn
          ((t.setResume (.waitpid pid proc)).allProcesses t.currentProc).resume =
            t.sleepIn (.waitpid pid proc) := by
        unfold sleepIn setResume
        rw [modify_currentProc, modify_self, modify_modify]
      rw [← htwice]
      exact hsame
  · rename_i hstatus
    have hexited : t.status proc = .exited := Decidable.not_not.1 hstatus
    refine Or.inr ⟨hexited, ?_⟩
    split at hok
    · cases hok
    · rename_i u hu
      cases hok
      obtain ⟨hinv, hcurrent, hsame⟩ := (h.setResume hcur .user).processDestroy
        ((setResume_status .user proc).trans hexited)
        ((setResume_status .user t.currentProc).trans h.ready) hu
      exact ⟨rfl, hinv, hcurrent, hsame⟩

/-- The process that `waitpid` picks for a pid: the first one whose parent pointer leads to
the caller, or the first one with that pid. -/
def Target (t : ProcTable) (l : List ProcId) (pid : Int) (proc : ProcId) : Prop :=
  (pid = -1 ∧ l.find? (fun p => p ≠ t.currentProc ∧
    (t.allProcesses p).parent = some t.currentProc) = some proc) ∨
  (0 ≤ pid ∧ l.find? (fun p => (t.allProcesses p).pid = pid) = some proc)

/-- `waitpid` fails without a target. -/
def NoTarget (t : ProcTable) (l : List ProcId) (pid e : Int) : Prop :=
  (pid = -1 ∧ e = -echild ∧
    ∀ p ∈ l, p ≠ t.currentProc → (t.allProcesses p).parent ≠ some t.currentProc) ∨
  (pid < 0 ∧ pid ≠ -1 ∧ e = -enodev)

/-! ## The steps -/

/-- What a step answers, the table it leads to and the list of the processes there. -/
inductive StepEffect (t : ProcTable) (l : List ProcId) :
    SysOp → SysReply → ProcTable → List ProcId → Prop
  | vforkFull (hfull : t.freeSlot = none) : StepEffect t l .vfork (.returned (-1)) t l
  | vfork {child : ProcId} {t' : ProcTable} (hfree : t.freeSlot = some child) (hchild : child ∉ l)
      (hsame : SameProcesses (t.forked child) t') :
      StepEffect t l .vfork .suspended t' (l ++ [child])
  | execve {image : Option Image} {parent : ProcId} {t' : ProcTable}
      (hparent : (t.allProcesses t.currentProc).parent = some parent)
      (hsame : SameProcesses ((t.setImage image).modify parent fun p =>
        { p with status := .ready }) t') :
      StepEffect t l (.execve image) .suspended t' l
  | exit {status : Int} {t' : ProcTable}
      (hsame : SameProcesses ((t.markExited status).waitQueueWake .waitpid) t') :
      StepEffect t l (.exit status) .suspended t' l
  | sleep {queue : WaitQueue} {t' : ProcTable} (hsame : SameProcesses (t.sleepIn .user) t') :
      StepEffect t l (.sleep queue) .suspended t' l
  | wake {queue : WaitQueue} : StepEffect t l (.wake queue) .suspended (t.waitQueueWake queue) l
  | schedule {t' : ProcTable} (hsame : SameProcesses t t') :
      StepEffect t l .schedule .suspended t' l
  | waitpidFails {pid options e : Int} (htarget : NoTarget t l pid e) :
      StepEffect t l (.waitpid pid options) (.returned e) t l
  | waitpidRuns {pid : Int} {proc : ProcId} (htarget : Target t l pid proc)
      (hstatus : t.status proc ≠ .exited) :
      StepEffect t l (.waitpid pid wnohang) (.returned 0) t l
  | waitpidSleeps {pid options : Int} {proc : ProcId} {t' : ProcTable}
      (htarget : Target t l pid proc) (hoptions : options ≠ wnohang)
      (hstatus : t.status proc ≠ .exited) (hsame : SameProcesses (t.sleepIn (.waitpid pid proc)) t') :
      StepEffect t l (.waitpid pid options) .suspended t' l
  | waitpidReaps {pid options v : Int} {proc : ProcId} {t' : ProcTable}
      (htarget : Target t l pid proc) (hstatus : t.status proc = .exited)
      (hvalue : v = if options = wnohang then (t.allProcesses proc).pid else pid)
      (hcurrent : t'.currentProc = t.currentProc) (hsame : SameProcesses (t.reap proc) t') :
      StepEffect t l (.waitpid pid options) (.reaped v (t.allProcesses proc).exitValue) t'
        (l.erase proc)
  | resumeVfork {child : ProcId} {childPid : Int}
      (hresume : (t.allProcesses t.currentProc).resume = .vfork child childPid) :
      StepEffect t l .resume (.returned childPid) (t.setResume .user) l
  | resumeSleeps {pid : Int} {proc : ProcId} {t' : ProcTable}
      (hresume : (t.allProcesses t.currentProc).resume = .waitpid pid proc)
      (hstatus : t.status proc ≠ .exited) (hsame : SameProcesses (t.sleepIn (.waitpid pid proc)) t') :
      StepEffect t l .resume .suspended t' l
  | resumeReaps {pid : Int} {proc : ProcId} {t' : ProcTable}
      (hresume : (t.allProcesses t.currentProc).resume = .waitpid pid proc)
      (hstatus : t.status proc = .exited) (hcurrent : t'.currentProc = t.currentProc)
      (hsame : SameProcesses (t.reap proc) t') :
      StepEffect t l .resume (.reaped pid (t.allProcesses proc).exitValue) t' (l.erase proc)

theorem waitpid_cases {r : SysReply} {pid options : Int} (h : MachineInv idle t l)
    (hcur : idle ≠ t.currentProc) (huser : (t.allProcesses t.currentProc).resume = .user)
    (hok : t.waitpid pid options = .ok (r, t')) :
    ∃ l', MachineInv idle t' l' ∧ StepEffect t l (.waitpid pid options) r t' l' := by
  -- the search is a search of the list
  have hfound : (if pid = -1 then t.processLookupChild t.currentProc
      else if pid < 0 then .ok none else t.processLookup pid) =
      (if pid = -1 then .ok (l.find? fun p => p ≠ t.currentProc ∧
        (t.allProcesses p).parent = some t.currentProc)
      else if pid < 0 then .ok none
      else .ok (l.find? fun p => (t.allProcesses p).pid = pid) : Except Stuck (Option ProcId)) := by
    rw [processLookupChild, processLookup, find_eq h.listed.linked, find_eq h.listed.linked]
  have htarget : ∀ proc, (if pid = -1 then .ok (l.find? fun p => p ≠ t.currentProc ∧
        (t.allProcesses p).parent = some t.currentProc)
      else if pid < 0 then .ok none
      else .ok (l.find? fun p => (t.allProcesses p).pid = pid) : Except Stuck (Option ProcId)) =
        .ok (some proc) → Target t l pid proc := by
    intro proc hproc
    split at hproc
    · rename_i hpid
      exact Or.inl ⟨hpid, Except.ok.inj hproc⟩
    · split at hproc
      · cases hproc
      · rename_i hpid
        exact Or.inr ⟨Int.not_lt.1 hpid, Except.ok.inj hproc⟩
  rw [waitpid, hfound] at hok
  split at hok
  · cases hok
  · rename_i hnone
    split at hok
    · rename_i hpid
      rw [if_pos hpid] at hnone
      cases hok
      refine ⟨l, h, StepEffect.waitpidFails (Or.inl ⟨hpid, rfl, ?_⟩)⟩
      intro p hp hne hparent
      have hno := List.find?_eq_none.1 (Except.ok.inj hnone) p hp
      simp [hne, hparent] at hno
    · split at hok
      · rename_i hpid hneg
        cases hok
        exact ⟨l, h, StepEffect.waitpidFails (Or.inr ⟨hneg, hpid, rfl⟩)⟩
      · cases hok
  · rename_i proc hsome
    have htarget := htarget proc hsome
    split at hok
    · rename_i hoptions
      subst hoptions
      split at hok
      · rename_i hstatus
        split at hok
        · cases hok
        · rename_i u hu
          cases hok
          obtain ⟨hinv, hcurrent, hsame⟩ := h.processDestroy hstatus h.ready hu
          have hresume : SameProcesses (t.reap proc) (t.modify proc fun x =>
              { x with valid := false }) := by
            -- the caller comes from user mode
            have huser' : SameProcesses (t.setResume .user) t := by
              refine ⟨fun p => (modify_field Process.core ?_ p).symm, rfl⟩
              rw [← huser]
            apply huser'.modify
            have hcore : ∀ x : Process, ({ x with valid := false } : Process).core =
                { x.core with valid := false } := fun _ => rfl
            rw [hcore, hcore, huser'.core]
          exact ⟨l.erase proc, hinv, StepEffect.waitpidReaps htarget hstatus (if_pos rfl).symm
            hcurrent (hresume.trans hsame)⟩
      · rename_i hstatus
        cases hok
        exact ⟨l, h, StepEffect.waitpidRuns htarget hstatus⟩
    · rename_i hoptions
      rcases waitpidLoop_cases h hcur hok with
        ⟨hstatus, rfl, hinv, hsame⟩ | ⟨hstatus, rfl, hinv, hcurrent, hsame⟩
      · exact ⟨l, hinv, StepEffect.waitpidSleeps htarget hoptions hstatus hsame⟩
      · exact ⟨l.erase proc, hinv, StepEffect.waitpidReaps htarget hstatus (if_neg hoptions).symm
          hcurrent hsame⟩

/-! ## The statuses behind a step -/

theorem forked_status (hne : t.currentProc ≠ child) (q : ProcId) :
    (t.forked child).status q =
      if q = t.currentProc then .sleeping else if q = child then .ready else t.status q := by
  unfold status
  rcases eq_or_ne q t.currentProc with rfl | hq
  · rw [forked_parent hne, if_pos rfl]
  · rcases eq_or_ne q child with rfl | hq'
    · rw [forked_child hne, if_neg hq, if_pos rfl]
    · rw [forked_of_ne hq' hq, if_neg hq, if_neg hq']

theorem execved_status (image : Option Image) (parent q : ProcId) :
    ((t.setImage image).modify parent fun p => { p with status := .ready }).status q =
      if q = parent then .ready else t.status q := by
  unfold status
  rcases eq_or_ne q parent with rfl | hq
  · rw [modify_self, if_pos rfl]
  · rw [modify_of_ne _ hq, if_neg hq, setImage_field Process.status (fun _ _ => rfl)]

theorem exited_status (status : Int) (q : ProcId) :
    ((t.markExited status).waitQueueWake .waitpid).status q =
      if q ∈ t.queued .waitpid then .ready else if q = t.currentProc then .exited
      else t.status q := by
  have hqueued : (t.markExited status).queued .waitpid = t.queued .waitpid := by
    have hnext : (fun p => ((t.markExited status).allProcesses p).waitQueueNext) =
        fun p => (t.allProcesses p).waitQueueNext :=
      funext (modify_field Process.waitQueueNext (by rfl))
    rw [queued, hnext]
    rfl
  have hmark : (t.markExited status).status q =
      if q = t.currentProc then .exited else t.status q := by
    rcases eq_or_ne q t.currentProc with rfl | hq
    · rw [markExited, ProcTable.status, modify_self, if_pos rfl]
    · rw [markExited, ProcTable.status, modify_of_ne _ hq, if_neg hq]
      rfl
  rw [waitQueueWake_status, hqueued, hmark]

theorem sleepIn_status (resume : Resume) (q : ProcId) :
    (t.sleepIn resume).status q = if q = t.currentProc then .sleeping else t.status q := by
  unfold status
  rcases eq_or_ne q t.currentProc with rfl | hq
  · rw [sleepIn, modify_self, if_pos rfl]
  · rw [sleepIn, modify_of_ne _ hq, if_neg hq]

theorem reap_status (proc q : ProcId) : (t.reap proc).status q = t.status q :=
  (modify_field Process.status (by rfl) q).trans (setResume_status .user q)

/-! ## The families behind a step -/

/-- The same processes are in use, with the same pids and parents. -/
structure SameFamilies (t t' : ProcTable) : Prop where
  valid : ∀ p, (t'.allProcesses p).valid = (t.allProcesses p).valid
  pid : ∀ p, (t'.allProcesses p).pid = (t.allProcesses p).pid
  parent : ∀ p, (t'.allProcesses p).parent = (t.allProcesses p).parent
  availPid : t'.availPid = t.availPid

theorem SameFamilies.trans (h : SameFamilies t t₁) (h' : SameFamilies t₁ t') :
    SameFamilies t t' where
  valid := fun p => (h'.valid p).trans (h.valid p)
  pid := fun p => (h'.pid p).trans (h.pid p)
  parent := fun p => (h'.parent p).trans (h.parent p)
  availPid := h'.availPid.trans h.availPid

theorem SameProcesses.families (h : SameProcesses t t') : SameFamilies t t' :=
  ⟨h.valid, h.pid, h.parent, h.availPid⟩

theorem sameFamilies_modify {f : Process → Process}
    (hvalid : (f (t.allProcesses p)).valid = (t.allProcesses p).valid)
    (hpid : (f (t.allProcesses p)).pid = (t.allProcesses p).pid)
    (hparent : (f (t.allProcesses p)).parent = (t.allProcesses p).parent) :
    SameFamilies t (t.modify p f) :=
  ⟨modify_field Process.valid hvalid, modify_field Process.pid hpid,
    modify_field Process.parent hparent, rfl⟩

theorem waitQueueWake_families (t : ProcTable) (queue : WaitQueue) :
    SameFamilies t (t.waitQueueWake queue) :=
  ⟨waitQueueWake_field Process.valid (fun _ _ _ => rfl) t queue,
    waitQueueWake_field Process.pid (fun _ _ _ => rfl) t queue,
    waitQueueWake_field Process.parent (fun _ _ _ => rfl) t queue,
    waitQueueWake_availPid t queue⟩

theorem execved_families (t : ProcTable) (image : Option Image) (parent : ProcId) :
    SameFamilies t ((t.setImage image).modify parent fun p => { p with status := .ready }) := by
  have himage : SameFamilies t (t.setImage image) :=
    ⟨setImage_field Process.valid (fun _ _ => rfl) t image,
      setImage_field Process.pid (fun _ _ => rfl) t image,
      setImage_field Process.parent (fun _ _ => rfl) t image, setImage_availPid t image⟩
  exact himage.trans (sameFamilies_modify rfl rfl rfl)

theorem execved_resume (image : Option Image) (parent q : ProcId) :
    (((t.setImage image).modify parent fun p => { p with status := .ready }).allProcesses q).resume =
      (t.allProcesses q).resume :=
  (modify_field Process.resume (by rfl) q).trans
    (setImage_field Process.resume (fun _ _ => rfl) t image q)

theorem exited_families (t : ProcTable) (status : Int) :
    SameFamilies t ((t.markExited status).waitQueueWake .waitpid) := by
  have hmark : SameFamilies t (t.markExited status) := sameFamilies_modify rfl rfl rfl
  exact hmark.trans (waitQueueWake_families _ _)

theorem exited_resume (status : Int) (q : ProcId) :
    (((t.markExited status).waitQueueWake .waitpid).allProcesses q).resume =
      (t.allProcesses q).resume :=
  (waitQueueWake_field Process.resume (fun _ _ _ => rfl) _ _ q).trans
    (modify_field Process.resume (by rfl) q)

theorem sleepIn_families (t : ProcTable) (resume : Resume) : SameFamilies t (t.sleepIn resume) :=
  sameFamilies_modify rfl rfl rfl

theorem sleepIn_resume (resume : Resume) (q : ProcId) :
    ((t.sleepIn resume).allProcesses q).resume =
      if q = t.currentProc then resume else (t.allProcesses q).resume := by
  rcases eq_or_ne q t.currentProc with rfl | hq
  · rw [sleepIn, modify_self, if_pos rfl]
  · rw [sleepIn, modify_of_ne _ hq, if_neg hq]

theorem setResume_families (t : ProcTable) (resume : Resume) :
    SameFamilies t (t.setResume resume) :=
  sameFamilies_modify rfl rfl rfl

theorem setResume_resume (resume : Resume) (q : ProcId) :
    ((t.setResume resume).allProcesses q).resume =
      if q = t.currentProc then resume else (t.allProcesses q).resume := by
  rcases eq_or_ne q t.currentProc with rfl | hq
  · rw [setResume, modify_self, if_pos rfl]
  · rw [setResume, modify_of_ne _ hq, if_neg hq]

/-- Of a process that is destroyed only the mark goes. -/
theorem reap_field {β : Type*} (field : Process → β)
    (hfield : ∀ (x : Process) v, field { x with valid := v } = field x) (proc q : ProcId) :
    field ((t.reap proc).allProcesses q) = field ((t.setResume .user).allProcesses q) :=
  modify_field field (hfield _ _) q

theorem reap_valid (proc q : ProcId) :
    ((t.reap proc).allProcesses q).valid =
      if q = proc then false else (t.allProcesses q).valid := by
  rcases eq_or_ne q proc with rfl | hq
  · rw [reap, modify_self, if_pos rfl]
  · rw [reap, modify_of_ne _ hq, if_neg hq]
    exact (setResume_families t .user).valid q

theorem step_enabled {r : SysReply} {op : SysOp} (hok : t.step op = .ok (r, t')) :
    op.Enabled t ∧ t.perform op = .ok (r, t') := by
  unfold step at hok
  split at hok
  · rename_i henabled
    refine ⟨henabled, ?_⟩
    split at hok
    · rename_i r' hr
      cases hok
      exact hr
    · cases hok
  · cases hok

/-- Every step keeps the order of the processes and has one of the effects listed. -/
theorem step_cases {r : SysReply} {op : SysOp} (h : MachineInv idle t l)
    (hok : t.step op = .ok (r, t')) :
    ∃ l', MachineInv idle t' l' ∧ StepEffect t l op r t' l' := by
  obtain ⟨henabled, hok⟩ := step_enabled hok
  cases op with
  | vfork =>
      rcases vfork_cases h (h.current_ne_idle henabled.2) hok with
        ⟨hfull, rfl, rfl⟩ | ⟨child, hfree, hchild, rfl, hinv, hsame⟩
      · exact ⟨l, h, StepEffect.vforkFull hfull⟩
      · exact ⟨l ++ [child], hinv, StepEffect.vfork hfree hchild hsame⟩
  | execve image =>
      obtain ⟨parent, hparent, rfl, hinv, hsame⟩ := execve_cases h hok
      exact ⟨l, hinv, StepEffect.execve hparent hsame⟩
  | exit status =>
      obtain ⟨rfl, hinv, hsame⟩ := exit_cases h (h.current_ne_idle henabled.2) hok
      exact ⟨l, hinv, StepEffect.exit hsame⟩
  | waitpid pid options =>
      exact waitpid_cases h (h.current_ne_idle henabled.2) henabled.1 hok
  | sleep queue =>
      obtain ⟨u, hu, heq⟩ := map_eq_ok.1 hok
      cases heq
      obtain ⟨hinv, hsame⟩ := h.waitQueueAdd (h.current_ne_idle henabled.2.1) hu
      rw [henabled.1] at hsame
      exact ⟨l, hinv, StepEffect.sleep hsame⟩
  | resume =>
      have hidle : idle ≠ t.currentProc := by
        intro heq
        have huser := h.idle_user
        rw [heq] at huser
        exact henabled huser
      have hok : t.resumeCall = .ok (r, t') := hok
      rw [resumeCall] at hok
      split at hok
      · cases hok
      · rename_i child childPid hresume
        cases hok
        refine ⟨l, ⟨h.setResume hidle .user, ?_⟩, StepEffect.resumeVfork hresume⟩
        rw [setResume_status]
        exact h.ready
      · rename_i pid proc hresume
        rcases waitpidLoop_cases h hidle hok with
          ⟨hstatus, rfl, hinv, hsame⟩ | ⟨hstatus, rfl, hinv, hcurrent, hsame⟩
        · exact ⟨l, hinv, StepEffect.resumeSleeps hresume hstatus hsame⟩
        · exact ⟨l.erase proc, hinv, StepEffect.resumeReaps hresume hstatus hcurrent hsame⟩
  | wake queue =>
      cases hok
      refine ⟨l, ⟨h.waitQueueWake queue, ?_⟩, StepEffect.wake⟩
      rw [waitQueueWake_status, waitQueueWake_currentProc, h.ready, ite_self]
  | schedule =>
      obtain ⟨u, hu, heq⟩ := map_eq_ok.1 hok
      cases heq
      obtain ⟨hinv, hsame⟩ := h.schedule hu
      exact ⟨l, hinv, StepEffect.schedule hsame⟩

/-! ## Booting -/

theorem startUserspace_inv (stack text : Nat) (image : Image) :
    MachineInv 0 (startUserspace stack text image) [0, 1] where
  listed := ⟨⟨rfl, rfl, rfl⟩, rfl, rfl, trivial⟩
  valid_iff := fun p => by
    fin_cases p
    · exact iff_of_true rfl (by decide)
    · exact iff_of_true rfl (by decide)
    all_goals exact iff_of_false Bool.noConfusion (by decide)
  idle_first := rfl
  running := by
    show (1 : ProcId) ∈ _
    decide
  idle_ready := rfl
  idle_user := rfl
  ready := rfl

end ProcTable

end Vmwos
