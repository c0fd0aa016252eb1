import Vmwos.Processes.Machine

/-!
# Wait queues as lists

A wait queue is a list of processes linked by `wait_queue_next`. Putting a process on it that
is not on any appends it (`enqueue_eq`), waking takes all of them off (`Queue.wake`), and
`schedule` leaves the queues alone (`schedule_queues`).
-/

set_option autoImplicit false

namespace Vmwos

open Library

namespace ProcTable

variable {t t' : ProcTable} {queue : WaitQueue} {l q : List ProcId} {p idle : ProcId}

/-- Where the pointer of a process into its wait queue leads. -/
def waitNext (t : ProcTable) (p : ProcId) : Option ProcId := (t.allProcesses p).waitQueueNext

/-- The processes on a wait queue, in order. -/
def Queue (t : ProcTable) (queue : WaitQueue) (q : List ProcId) : Prop :=
  Segment t.waitNext (t.waitQueueFirst queue) q none

/-- A queue is no longer than the table. -/
theorem Queue.length_lt (h : Queue t queue q) : q.length < listRounds := by
  have hle := h.nodup.length_le_card
  rw [Fintype.card_fin] at hle
  exact Nat.lt_succ_of_le hle

theorem Queue.queued_eq (h : Queue t queue q) : t.queued queue = q :=
  nodesOnce_eq h (Nat.lt_succ_of_lt h.length_lt)

/-! ## Putting a process on a queue -/

/-- A process that is on no queue becomes the last one. -/
theorem enqueue_eq (h : Queue t queue q) (hp : p ∉ q) (hnext : t.waitNext p = none) :
    ∃ t', t.enqueue queue p = .ok t' ∧ Queue t' queue (q ++ [p]) ∧
      (∀ r, r ∉ q → t'.waitNext r = t.waitNext r) ∧ t'.ticksSinceBoot = t.ticksSinceBoot := by
  rcases List.eq_nil_or_concat q with rfl | ⟨init, last, rfl⟩
  · -- the queue is empty
    have hfirst : t.waitQueueFirst queue = none := h
    have hok : t.enqueue queue p = .ok { t with
        waitQueueFirst := Function.update t.waitQueueFirst queue (some p) } := by
      unfold enqueue
      rw [hfirst]
    refine ⟨_, hok, ?_, fun _ _ => rfl, rfl⟩
    exact ⟨Function.update_self (f := t.waitQueueFirst) queue (some p), hnext⟩
  · rw [List.concat_eq_append] at h hp
    have hstart : ∃ first, t.waitQueueFirst queue = some first := by
      rw [h.start_eq]
      cases init with
      | nil => exact ⟨last, rfl⟩
      | cons a init => exact ⟨a, rfl⟩
    obtain ⟨first, hfirst⟩ := hstart
    have hend : Segment t.waitNext (t.waitQueueFirst queue) (init ++ last :: []) none := h
    have hlast : t.waitNext last = none := hend.next_eq
    -- the walk stops at the last one: every other has a successor
    have hfind : (init ++ [last]).find? (fun r => r = p ∨ t.waitNext r = none) = some last := by
      rw [List.find?_append]
      have hnone : init.find? (fun r => r = p ∨ t.waitNext r = none) = none := by
        rw [List.find?_eq_none]
        intro r hr hstop
        rcases of_decide_eq_true hstop with rfl | hnone
        · exact hp (List.mem_append_left _ hr)
        · obtain ⟨l₁, l₂, rfl⟩ := List.append_of_mem hr
          have hsplit : l₁ ++ r :: l₂ ++ [last] = l₁ ++ r :: (l₂ ++ [last]) := by simp
          rw [hsplit] at h
          have hsucc := h.next_eq
          rw [hnone] at hsucc
          cases l₂ with
          | nil => cases hsucc
          | cons b l₂ => cases hsucc
      rw [hnone, Option.none_or, List.find?_cons_of_pos]
      exact decide_eq_true (Or.inr hlast)
    have hne : last ≠ p := by
      rintro rfl
      exact hp (List.mem_append_right _ List.mem_cons_self)
    have hwalk : findFrom (fun r => (t.allProcesses r).waitQueueNext)
        (fun r => r = p ∨ (t.allProcesses r).waitQueueNext = none) listRounds (some first) =
          some (some last) := by
      rw [← hfirst]
      exact (findFrom_eq_find? h h.length_lt).trans (congrArg some hfind)
    refine ⟨t.modify last fun x => { x with waitQueueNext := some p }, ?_, ?_, ?_, rfl⟩
    · rw [enqueue, hfirst]
      simp only
      rw [hwalk]
      simp only [if_neg hne]
    · rw [List.concat_eq_append]
      refine Segment.concat h hp ?_ ?_ ?_
      · rw [waitNext, modify_self]
      · rw [waitNext, modify_of_ne _ hne.symm]
        exact hnext
      · intro r _ _ hr
        rw [waitNext, modify_of_ne _ hr, waitNext]
    · intro r hr
      rw [waitNext, modify_of_ne, waitNext]
      rintro rfl
      rw [List.concat_eq_append] at hr
      exact hr (List.mem_append_right _ List.mem_cons_self)

/-! ## Waking -/

/-- Waking cuts the pointers it follows. -/
theorem wakeLoop_waitNext (fuel : Nat) {t : ProcTable} {start : Option ProcId} {q : List ProcId}
    (h : Segment t.waitNext start q none) (hfuel : q.length < fuel) (r : ProcId) :
    (wakeLoop fuel t start).waitNext r = if r ∈ q then none else t.waitNext r := by
  induction q generalizing fuel t start with
  | nil =>
      rw [segment_nil] at h
      subst h
      cases fuel <;> rfl
  | cons a q ih =>
      obtain ⟨fuel, rfl⟩ := Nat.exists_eq_succ_of_ne_zero (Nat.ne_of_gt (Nat.zero_lt_of_lt hfuel))
      have ha := (List.nodup_cons.1 h.nodup).1
      obtain ⟨rfl, hrest⟩ := h
      rw [wakeLoop]
      obtain ⟨u, hu⟩ : ∃ u, (t.modify a fun p =>
        { p with status := .ready, waitQueueNext := none }) = u := ⟨_, rfl⟩
      have hself : u.waitNext a = none := by rw [← hu, waitNext, modify_self]
      have hother : ∀ b, b ≠ a → u.waitNext b = t.waitNext b := by
        intro b hb
        rw [← hu, waitNext, modify_of_ne _ hb, waitNext]
      have hrest' : Segment u.waitNext (t.waitNext a) q none := by
        refine hrest.congr ?_
        intro b hb
        apply hother b
        rintro rfl
        exact ha hb
      rw [hu]
      refine (ih fuel hrest' (Nat.lt_of_succ_lt_succ hfuel)).trans ?_
      rcases eq_or_ne r a with rfl | hr
      · rw [if_neg ha, if_pos List.mem_cons_self, hself]
      · rw [hother r hr]
        simp only [List.mem_cons, hr, false_or]

theorem wakeLoop_queues (fuel : Nat) (t : ProcTable) (start : Option ProcId) :
    (wakeLoop fuel t start).waitQueueFirst = t.waitQueueFirst ∧
      (wakeLoop fuel t start).ticksSinceBoot = t.ticksSinceBoot := by
  induction fuel generalizing t start with
  | zero => exact ⟨rfl, rfl⟩
  | succ fuel ih =>
      cases start with
      | none => exact ⟨rfl, rfl⟩
      | some a =>
          rw [wakeLoop]
          exact ih _ _

/-- Waking takes everything off the queue. -/
theorem Queue.wake (h : Queue t queue q) : Queue (t.waitQueueWake queue) queue [] ∧
    ∀ r, (t.waitQueueWake queue).waitNext r = if r ∈ q then none else t.waitNext r :=
  ⟨Function.update_self _ _ _, wakeLoop_waitNext _ h (Nat.lt_succ_of_lt h.length_lt)⟩

theorem waitQueueWake_ticks (t : ProcTable) (queue : WaitQueue) :
    (t.waitQueueWake queue).ticksSinceBoot = t.ticksSinceBoot :=
  (wakeLoop_queues _ t _).2

/-! ## Scheduling -/

/-- Whatever is switched to, only times change in the control blocks. -/
theorem schedule_field {β : Type*} (field : Process → β)
    (hfield : ∀ (x : Process) user last, field { x with userTime := user, lastScheduled := last } =
      field x) (hok : t.schedule = .ok t') (p : ProcId) :
    field (t'.allProcesses p) = field (t.allProcesses p) := by
  rcases schedule_switches hok with ⟨-, -, rfl⟩ | ⟨proc, rfl⟩
  · rfl
  · exact processSwitch_field field hfield t proc p

/-- `schedule` leaves the queues and the clock alone. -/
theorem schedule_queues (hok : t.schedule = .ok t') :
    t'.waitNext = t.waitNext ∧ t'.waitQueueFirst = t.waitQueueFirst ∧
      t'.ticksSinceBoot = t.ticksSinceBoot := by
  refine ⟨funext (schedule_field Process.waitQueueNext (fun _ _ _ => rfl) hok), ?_⟩
  rcases schedule_switches hok with ⟨-, -, rfl⟩ | ⟨proc, rfl⟩
  · exact ⟨rfl, rfl⟩
  · exact ⟨rfl, rfl⟩

/-- `vfork` copies the pointer into a wait queue too. -/
theorem vfork_queues {r : SysReply} (h : MachineInv idle t l) (hok : t.vfork = .ok (r, t')) :
    t'.waitQueueFirst = t.waitQueueFirst ∧ ∀ p, t'.waitNext p = t.waitNext p ∨
      (p ∉ l ∧ t'.waitNext p = t.waitNext t.currentProc) := by
  rw [vfork] at hok
  rcases processCreate_cases h.listed h.ne_nil h.valid_iff with
    ⟨-, hcreate⟩ | ⟨child, t₁, -, hchild, hcreate, -, -, honly⟩
  · rw [hcreate] at hok
    cases hok
    exact ⟨rfl, fun _ => Or.inl rfl⟩
  · rw [hcreate] at hok
    simp only at hok
    split at hok
    · cases hok
    · rename_i u hu
      cases hok
      obtain ⟨hwait, hfirst, -⟩ := schedule_queues hu
      have hne : t.currentProc ≠ child := fun hne => hchild (hne ▸ h.running)
      have hcreated : ∀ p, p ≠ child → t₁.waitNext p = t.waitNext p := by
        intro p hp
        rw [waitNext, honly.field Process.waitQueueNext (fun _ _ _ => rfl), takeSlot_of_ne hp]
        rfl
      -- the parent keeps its own pointer when it is put to sleep
      have hforked : ∀ p, (t₁.forkInto child t.currentProc).waitNext p =
          if p = child then t.waitNext t.currentProc else t₁.waitNext p := by
        intro p
        rw [forkInto, waitNext, modify_field Process.waitQueueNext (by rfl)]
        rcases eq_or_ne p child with rfl | hp
        · rw [if_pos rfl, modify_self]
          exact hcreated _ hne
        · rw [if_neg hp, modify_of_ne _ hp, waitNext]
      refine ⟨hfirst.trans honly.2.2.2.1, fun p => ?_⟩
      rw [hwait, hforked]
      rcases eq_or_ne p child with rfl | hp
      · rw [if_pos rfl]
        exact Or.inr ⟨hchild, rfl⟩
      · rw [if_neg hp]
        exact Or.inl (hcreated p hp)

/-- `SYSCALL_EXECVE` leaves the queues alone, also when it makes a process ready that is on
one of them. -/
theorem execve_queues {r : SysReply} {image : Option Image} (hok : t.execve image = .ok (r, t')) :
    t'.waitQueueFirst = t.waitQueueFirst ∧ t'.waitNext = t.waitNext := by
  rw [execve] at hok
  split at hok
  · cases hok
  · split at hok
    · cases hok
    · rename_i u hu
      cases hok
      obtain ⟨hwait, hfirst, -⟩ := schedule_queues hu
      refine ⟨hfirst.trans ?_, hwait.trans (funext fun p => ?_)⟩
      · cases image <;> rfl
      · rw [waitNext, modify_field Process.waitQueueNext (by rfl),
          setImage_field Process.waitQueueNext (fun _ _ => rfl), waitNext]

/-! ## Going to sleep -/

/-- `wait_queue_add` for the running process, which is on no queue. -/
theorem MachineInv.waitQueueAdd_queue (h : MachineInv idle t l) (hcur : idle ≠ t.currentProc)
    (hqueue : Queue t queue q) (hp : t.currentProc ∉ q) (hnext : t.waitNext t.currentProc = none)
    (hok : t.waitQueueAdd queue t.currentProc = .ok t') :
    MachineInv idle t' l ∧ SameProcesses (t.sleepIn (t.allProcesses t.currentProc).resume) t' ∧
      Queue t' queue (q ++ [t.currentProc]) ∧ (∀ r, r ∉ q → t'.waitNext r = t.waitNext r) ∧
        t'.ticksSinceBoot = t.ticksSinceBoot := by
  obtain ⟨hinv, hsame⟩ := h.toListInv.waitQueueAdd hcur hok
  obtain ⟨u, hu, hqueue', hothers, hticks⟩ := enqueue_eq hqueue hp hnext
  unfold ProcTable.waitQueueAdd at hok
  rw [hu] at hok
  simp only at hok
  obtain ⟨hwait, hfirst, hclock⟩ := schedule_queues hok
  -- the status is set after the queue, and before scheduling
  have hkept : (u.modify t.currentProc fun x => { x with status := .sleeping }).waitNext =
      u.waitNext := funext (modify_field Process.waitQueueNext (by rfl))
  refine ⟨hinv, hsame, ?_, ?_, hclock.trans hticks⟩
  · rw [Queue, hwait, hkept, hfirst]
    exact hqueue'
  · intro r hr
    rw [hwait, hkept]
    exact hothers r hr

end ProcTable

end Vmwos
