import Vmwos.Processes.WaitQueues
import Vmwos.Library.Run

/-!
# Runs on a set of wait queues

All wait queues use the one pointer `wait_queue_next` of a process, and `wait_queue_add` does not
reset it. As long as a process is only added while it is on no queue and its pointer is null, the
queues stay chains that end, with no process in common and all their processes asleep, and a wake
makes ready what has been added since the one before it (`QueueSet.throughout_waiting`).
-/

set_option autoImplicit false

namespace Vmwos

open Library

/-- A set of wait queues: beside the processes, of each queue the pointer to its first process. -/
structure QueueSet (κ : Type*) where
  procs : ProcTable
  first : κ → Option ProcId

/-- What is done to a set of wait queues: the running process is added to one, one is woken, and
`schedule` is called by anything else, such as the timer. -/
inductive QueueOp (κ : Type*) where
  | add (queue : κ)
  | wake (queue : κ)
  | schedule

namespace QueueSet

variable {κ : Type*} {s s' : QueueSet κ} {added : κ → List ProcId} {queue : κ}

/-- The functions get the address of a queue. All that they see there is the pointer to its first
process, so here every queue they could be given is that one. -/
def passed (s : QueueSet κ) (queue : κ) : ProcTable :=
  { s.procs with waitQueueFirst := fun _ => s.first queue }

/-- What a function given the address of a queue leaves behind. -/
def store [DecidableEq κ] (s : QueueSet κ) (queue : κ) (t : ProcTable) : QueueSet κ where
  procs := t
  first := Function.update s.first queue (t.waitQueueFirst .console)

def step [DecidableEq κ] (s : QueueSet κ) : QueueOp κ → Except Stuck (Unit × QueueSet κ)
  | .add queue =>
      match (s.passed queue).waitQueueAdd .console s.procs.currentProc with
      | .error e => .error e
      | .ok t => .ok ((), s.store queue t)
  | .wake queue => .ok ((), s.store queue ((s.passed queue).waitQueueWake .console))
  | .schedule =>
      match s.procs.schedule with
      | .error e => .error e
      | .ok t => .ok ((), { s with procs := t })

/-- The processes added to each queue since it was woken last. -/
def note [DecidableEq κ] (s : QueueSet κ) (op : QueueOp κ) (added : κ → List ProcId) : κ → List ProcId :=
  match op with
  | .add queue => Function.update added queue (added queue ++ [s.procs.currentProc])
  | .wake queue => Function.update added queue []
  | .schedule => added

/-- The chain of a queue: these processes one after another, and then the end. -/
def Chain (s : QueueSet κ) (queue : κ) (q : List ProcId) : Prop :=
  Segment s.procs.waitNext (s.first queue) q none

def OnQueue (s : QueueSet κ) (queue : κ) (p : ProcId) : Prop := ∃ q, s.Chain queue q ∧ p ∈ q

/-- A process may be added when it is on no queue and its pointer is null. -/
def MayAdd (s : QueueSet κ) : QueueOp κ → Prop
  | .add _ => (∀ queue, ¬ s.OnQueue queue s.procs.currentProc) ∧
      s.procs.waitNext s.procs.currentProc = none
  | _ => True

/-- Each chain ends and has no process twice, no process is on two queues, and what is on a queue
sleeps. -/
structure Orderly (s : QueueSet κ) : Prop where
  chain : ∀ queue, ∃ q, s.Chain queue q ∧ q.Nodup
  apart : ∀ queue queue' p, s.OnQueue queue p → s.OnQueue queue' p → queue = queue'
  sleeping : ∀ queue p, s.OnQueue queue p → s.procs.status p = .sleeping

/-- These processes are made ready and their pointers null, no other process is touched, and of
the queues only the one that is woken, which is empty now. -/
structure Wakes (s s' : QueueSet κ) (queue : κ) (woken : List ProcId) : Prop where
  ready : ∀ p ∈ woken, s'.procs.status p = .ready ∧ s'.procs.waitNext p = none
  others : ∀ p, p ∉ woken →
    s'.procs.status p = s.procs.status p ∧ s'.procs.waitNext p = s.procs.waitNext p
  empty : s'.first queue = none
  queues : ∀ queue', queue' ≠ queue → s'.first queue' = s.first queue'

/-- The invariant: the record of what has been added says what is on the queues. -/
structure Recorded (s : QueueSet κ) (added : κ → List ProcId) : Prop where
  chain : ∀ queue, s.Chain queue (added queue)
  apart : ∀ queue queue' p, p ∈ added queue → p ∈ added queue' → queue = queue'
  sleeping : ∀ queue, ∀ p ∈ added queue, s.procs.status p = .sleeping

theorem Recorded.onQueue_iff (h : Recorded s added) (queue : κ) (p : ProcId) :
    s.OnQueue queue p ↔ p ∈ added queue := by
  constructor
  · rintro ⟨q, hq, hp⟩
    rw [(h.chain queue).unique hq]
    exact hp
  · intro hp
    exact ⟨added queue, h.chain queue, hp⟩

theorem Recorded.orderly (h : Recorded s added) : s.Orderly where
  chain := fun queue => ⟨added queue, h.chain queue, (h.chain queue).nodup⟩
  apart := by
    intro queue queue' p hp hp'
    rw [h.onQueue_iff] at hp hp'
    exact h.apart queue queue' p hp hp'
  sleeping := by
    intro queue p hp
    rw [h.onQueue_iff] at hp
    exact h.sleeping queue p hp

theorem recorded_empty (hempty : ∀ queue, s.first queue = none) : Recorded s fun _ => [] where
  chain := hempty
  apart := fun _ _ _ hp => absurd hp List.not_mem_nil
  sleeping := fun _ _ hp => absurd hp List.not_mem_nil

/-- Another process is switched to: no queue is touched. -/
theorem Recorded.schedule (h : Recorded s added) {t : ProcTable}
    (hok : s.procs.schedule = .ok t) : Recorded { s with procs := t } added where
  chain := by
    intro queue
    rw [Chain, (ProcTable.schedule_queues hok).1]
    exact h.chain queue
  apart := h.apart
  sleeping := by
    intro queue p hp
    exact (ProcTable.schedule_field Process.status (fun _ _ _ => rfl) hok p).trans
      (h.sleeping queue p hp)

variable [DecidableEq κ]

/-! ## Adding -/

/-- A queue gets one more process; what the other queues link is left alone. -/
theorem Recorded.add (h : Recorded s added) (hmay : s.MayAdd (.add queue)) {u : ProcTable}
    (hok : (s.passed queue).waitQueueAdd .console s.procs.currentProc = .ok u) :
    Recorded (s.store queue u)
      (Function.update added queue (added queue ++ [s.procs.currentProc])) := by
  obtain ⟨hon, hnext⟩ := hmay
  have hcur : ∀ queue', s.procs.currentProc ∉ added queue' := by
    intro queue' hp
    exact hon queue' ((h.onQueue_iff queue' _).2 hp)
  have hqueue : (s.passed queue).Queue .console (added queue) := h.chain queue
  obtain ⟨t, ht, hadded, hothers, -⟩ := ProcTable.enqueue_eq hqueue (hcur queue) hnext
  obtain ⟨hsame, -, -⟩ := ProcTable.enqueue_same ht
  unfold ProcTable.waitQueueAdd at hok
  rw [ht] at hok
  simp only at hok
  obtain ⟨hwait, hfirst, -⟩ := ProcTable.schedule_queues hok
  have hstatus := ProcTable.schedule_field Process.status (fun _ _ _ => rfl) hok
  -- the pointers are as the enqueuing leaves them: the status is no part of them
  have hlinks : u.waitNext = t.waitNext :=
    hwait.trans (funext (ProcTable.modify_field Process.waitQueueNext (by rfl)))
  have hsleeps : u.status s.procs.currentProc = .sleeping := by
    refine (hstatus _).trans ?_
    rw [ProcTable.modify_self]
  have hkept : ∀ p, p ≠ s.procs.currentProc → u.status p = s.procs.status p := by
    intro p hp
    refine (hstatus p).trans ?_
    rw [ProcTable.modify_of_ne _ hp]
    exact hsame.status p
  refine ⟨?_, ?_, ?_⟩
  · intro queue'
    rcases eq_or_ne queue' queue with rfl | hne
    · have hchain : Segment u.waitNext (u.waitQueueFirst .console)
          (added queue' ++ [s.procs.currentProc]) none := by
        rw [hlinks, hfirst]
        exact hadded
      simpa [Chain, store] using hchain
    · have hchain : Segment u.waitNext (s.first queue') (added queue') none := by
        rw [hlinks]
        apply (h.chain queue').congr
        intro p hp
        exact hothers p fun hp' => hne (h.apart queue' queue p hp hp')
      simpa [Chain, store, hne] using hchain
  · -- the process added was on no queue before
    intro k k' p hp hp'
    rcases eq_or_ne k queue with rfl | hk
    · rcases eq_or_ne k' k with rfl | hk'
      · rfl
      · rw [Function.update_self, List.mem_append, List.mem_singleton] at hp
        rw [Function.update_of_ne hk'] at hp'
        rcases hp with hp | rfl
        · exact h.apart k k' p hp hp'
        · exact absurd hp' (hcur k')
    · rw [Function.update_of_ne hk] at hp
      rcases eq_or_ne k' queue with rfl | hk'
      · rw [Function.update_self, List.mem_append, List.mem_singleton] at hp'
        rcases hp' with hp' | rfl
        · exact h.apart k k' p hp hp'
        · exact absurd hp (hcur k)
      · rw [Function.update_of_ne hk'] at hp'
        exact h.apart k k' p hp hp'
  · intro k p hp
    rcases eq_or_ne p s.procs.currentProc with rfl | hne
    · exact hsleeps
    · have hmem : p ∈ added k := by
        rcases eq_or_ne k queue with rfl | hk
        · rw [Function.update_self, List.mem_append, List.mem_singleton] at hp
          exact hp.resolve_right hne
        · rw [Function.update_of_ne hk] at hp
          exact hp
      exact (hkept p hne).trans (h.sleeping k p hmem)

/-! ## Waking -/

/-- What is woken is what has been added, and nothing else changes. -/
theorem Recorded.wakes (h : Recorded s added) (queue : κ) :
    Wakes s (s.store queue ((s.passed queue).waitQueueWake .console)) queue (added queue) := by
  have hqueue : (s.passed queue).Queue .console (added queue) := h.chain queue
  obtain ⟨hempty, hnext⟩ := hqueue.wake
  have hstatus := ProcTable.waitQueueWake_status (s.passed queue) .console
  rw [hqueue.queued_eq] at hstatus
  refine ⟨?_, ?_, ?_, ?_⟩
  · intro p hp
    exact ⟨(hstatus p).trans (if_pos hp), (hnext p).trans (if_pos hp)⟩
  · intro p hp
    exact ⟨(hstatus p).trans (if_neg hp), (hnext p).trans (if_neg hp)⟩
  · exact (Function.update_self _ _ _).trans hempty
  · intro queue' hne
    exact Function.update_of_ne hne _ _

theorem Recorded.wake (h : Recorded s added) (hwakes : Wakes s s' queue (added queue)) :
    Recorded s' (Function.update added queue []) := by
  -- on another queue there is nothing that has been woken
  have hother : ∀ queue', queue' ≠ queue → ∀ p ∈ added queue', p ∉ added queue :=
    fun queue' hne p hp hp' => hne (h.apart queue' queue p hp hp')
  refine ⟨?_, ?_, ?_⟩
  · intro queue'
    rcases eq_or_ne queue' queue with rfl | hne
    · rw [Function.update_self]
      exact hwakes.empty
    · rw [Function.update_of_ne hne, Chain, hwakes.queues queue' hne]
      apply (h.chain queue').congr
      intro p hp
      exact (hwakes.others p (hother queue' hne p hp)).2
  · intro k k' p hp hp'
    rcases eq_or_ne k queue with rfl | hk
    · rw [Function.update_self] at hp
      cases hp
    · rcases eq_or_ne k' queue with rfl | hk'
      · rw [Function.update_self] at hp'
        cases hp'
      · rw [Function.update_of_ne hk] at hp
        rw [Function.update_of_ne hk'] at hp'
        exact h.apart k k' p hp hp'
  · intro k p hp
    rcases eq_or_ne k queue with rfl | hk
    · rw [Function.update_self] at hp
      cases hp
    · rw [Function.update_of_ne hk] at hp
      rw [(hwakes.others p (hother k hk p hp)).1]
      exact h.sleeping k p hp

/-! ## Runs -/

theorem recorded_step {r : Unit} {op : QueueOp κ} (h : Recorded s added) (hmay : s.MayAdd op)
    (hok : s.step op = .ok (r, s')) :
    (∀ queue, op = .wake queue → Wakes s s' queue (added queue)) ∧
      Recorded s' (note s op added) := by
  cases op with
  | add queue =>
      simp only [step] at hok
      split at hok
      · cases hok
      · rename_i t ht
        cases hok
        refine ⟨?_, h.add hmay ht⟩
        intro queue' hop
        cases hop
  | wake queue =>
      cases hok
      have hwakes := h.wakes queue
      refine ⟨?_, h.wake hwakes⟩
      intro queue' hop
      cases hop
      exact hwakes
  | schedule =>
      simp only [step] at hok
      split at hok
      · cases hok
      · rename_i t ht
        cases hok
        refine ⟨?_, h.schedule ht⟩
        intro queue' hop
        cases hop

/-- From empty queues on, whatever the processes are, and as long as only processes are added
that are on no queue and have a null pointer, the queues are orderly after every step, and a
wake wakes the processes that have been added to its queue since it was woken last. -/
theorem throughout_waiting (s : QueueSet κ) (hempty : ∀ queue, s.first queue = none)
    (ops : List (QueueOp κ))
    (hmay : Along (recording step note) (fun s op => s.1.MayAdd op) (s, fun _ => []) ops) :
    s.Orderly ∧ Throughout (recording step note)
      (fun s op _ s' => s'.1.Orderly ∧
        ∀ queue, op = .wake queue → Wakes s.1 s'.1 queue (s.2 queue))
      (s, fun _ => []) ops := by
  have hstart := recorded_empty hempty
  refine ⟨hstart.orderly, ?_⟩
  apply throughout_of_along (fun s => Recorded s.1 s.2) ?_ hstart hmay
  rintro ⟨s, added⟩ op r ⟨s', added'⟩ h hmay hok
  obtain ⟨hok, hadded⟩ := recording_eq_ok.1 hok
  obtain ⟨hwakes, h'⟩ := recorded_step h hmay hok
  have hadded' : added' = note s op added := hadded
  subst hadded'
  exact ⟨⟨h'.orderly, hwakes⟩, h'⟩

/-- The idle process and a running one, with all queues empty. -/
def twoReady : QueueSet Nat where
  procs := { ProcTable.zeroed with
    allProcesses := fun p =>
      { Process.zeroed with status := .ready, next := if p = 0 then some 1 else none }
    procFirst := some 0
    currentProc := 1 }
  first := fun _ => none

/-- The running process waits on one of the queues, and is woken. -/
theorem throughout_waiting_add : twoReady.Orderly ∧ Throughout (recording step note)
    (fun s op _ s' => s'.1.Orderly ∧
      ∀ queue, op = .wake queue → Wakes s.1 s'.1 queue (s.2 queue))
    (twoReady, fun _ => []) [.add 3, .wake 3] := by
  apply throughout_waiting twoReady (fun _ => rfl) [.add 3, .wake 3]
  refine ⟨⟨?_, rfl⟩, fun _ _ _ => ⟨trivial, fun _ _ _ => trivial⟩⟩
  rintro queue ⟨q, hq, hp⟩
  cases q with
  | nil => cases hp
  | cons p q => cases hq.1

example : (match twoReady.step (.add 3) with
    | .ok (_, s) => decide (s.first 3 = some 1 ∧ s.procs.status 1 = .sleeping)
    | .error _ => false) = true := by decide

end QueueSet

end Vmwos
