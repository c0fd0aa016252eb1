import Vmwos.Processes.WaitQueues
import Vmwos.Library.Run

/-!
# Sleeping for a time

`nanosleep` puts its caller on the wait queue of the timer until the tick counter has passed
its `end_time`. All sleepers share `timer_next_wakeup`: a caller can only lower it, the
interrupt that passes it clears it and wakes the whole queue, and who has been woken too early
sets it again when it goes back to sleep. `TimerInv` is what holds between the steps;
`TimerSystem.run_sleepers` is that nobody is forgotten or woken for good too early.

Process switches happen inside `schedule`, so a process that was switched to inside
`nanosleep` goes on with its loop (`resume`) before anything else happens.
-/

set_option autoImplicit false

namespace Vmwos

open Library

/-- `TIMER_HZ` -/
abbrev timerHz : Nat := 64

/-- `struct timespec` -/
structure Timespec where
  seconds : Nat
  ns : Nat

/-- The process table with its tick counter, `timer_next_wakeup`, and `end_time` for each
process that is inside `nanosleep`. -/
structure TimerSystem where
  table : ProcTable
  nextWakeup : Nat
  endTime : ProcId → Option Nat

namespace TimerSystem

/-- `ticks_to_sleep` of `nanosleep`. -/
def ticksToSleep (req : Timespec) : Nat :=
  uint32 (uint32 (req.ns / 1000000 * timerHz) / 1000 + uint32 (req.seconds * 64))

/-- `end_time` of a call of `nanosleep`. -/
def endTimeOf (s : TimerSystem) (req : Timespec) : Nat :=
  uint32 (s.table.ticksSinceBoot + ticksToSleep req)

/-- `timer_sleep_until` -/
def timerSleepUntil (s : TimerSystem) (time : Nat) : Except Stuck TimerSystem :=
  let nextWakeup :=
    if s.nextWakeup = 0 then time
    else if time < s.nextWakeup then time else s.nextWakeup
  match s.table.waitQueueAdd .timer s.table.currentProc with
  | .error e => .error e
  | .ok t => .ok { s with table := t, nextWakeup := nextWakeup }

/-- The loop of `nanosleep`, with what follows it. -/
def nanosleepLoop (s : TimerSystem) (endTime : Nat) : Except Stuck (SysReply × TimerSystem) :=
  if s.table.ticksSinceBoot ≤ endTime then
    let inside := Function.update s.endTime s.table.currentProc (some endTime)
    match timerSleepUntil { s with endTime := inside } endTime with
    | .error e => .error e
    | .ok s => .ok (.suspended, s)
  else .ok (.returned 0, { s with endTime := Function.update s.endTime s.table.currentProc none })

/-- `nanosleep` -/
def nanosleep (s : TimerSystem) (req : Timespec) : Except Stuck (SysReply × TimerSystem) :=
  s.nanosleepLoop (s.endTimeOf req)

/-- `timer_interrupt_handler` -/
def timerInterruptHandler (s : TimerSystem) : TimerSystem :=
  let t := { s.table with ticksSinceBoot := uint32 (s.table.ticksSinceBoot + 1) }
  if s.nextWakeup ≠ 0 ∧ t.ticksSinceBoot > s.nextWakeup then
    { s with table := t.waitQueueWake .timer, nextWakeup := 0 }
  else { s with table := t }

/-- The timer interrupt of `interrupt_handler_c`. -/
def timerInterrupt (s : TimerSystem) : Except Stuck (SysReply × TimerSystem) :=
  let s := s.timerInterruptHandler
  match s.table.schedule with
  | .error e => .error e
  | .ok t => .ok (.suspended, { s with table := t })

end TimerSystem

/-- A call of `nanosleep`, the way on of a process that has been switched to inside it, and
the timer interrupt. -/
inductive TimerOp where
  | nanosleep (req : Timespec)
  | resume
  | interrupt

namespace TimerSystem

/-- System calls are made in user mode, and not by the idle process; they run to completion
between interrupts. -/
def Enabled (s : TimerSystem) : TimerOp → Prop
  | .nanosleep _ =>
      s.endTime s.table.currentProc = none ∧
        (s.table.allProcesses s.table.currentProc).resume = .user ∧
          s.table.procFirst ≠ some s.table.currentProc
  | .resume => (s.endTime s.table.currentProc).isSome
  | .interrupt =>
      s.endTime s.table.currentProc = none ∧
        (s.table.allProcesses s.table.currentProc).resume = .user

instance (s : TimerSystem) (op : TimerOp) : Decidable (s.Enabled op) := by
  cases op <;> unfold Enabled <;> infer_instance

/-- What a step does when it can happen. -/
def perform (s : TimerSystem) : TimerOp → Except Stuck (SysReply × TimerSystem)
  | .nanosleep req => s.nanosleep req
  | .resume =>
      match s.endTime s.table.currentProc with
      | none => .error .badAccess
      | some endTime => s.nanosleepLoop endTime
  | .interrupt => s.timerInterrupt

/-- One step. -/
def step (s : TimerSystem) (op : TimerOp) : Except Fault (SysReply × TimerSystem) :=
  if s.Enabled op then
    match s.perform op with
    | .ok r => .ok r
    | .error e => .error (.stuck e)
  else .error .notEnabled

/-- Calls of `nanosleep` by any processes and timer interrupts, in any order. -/
def run : TimerSystem → List TimerOp → Except Fault (List SysReply × TimerSystem) :=
  Library.run step

/-- Nobody has called `nanosleep` yet. -/
def start (t : ProcTable) : TimerSystem := ⟨t, 0, fun _ => none⟩

/-! ## What holds between the steps -/

/-- The process sleeps in `nanosleep` until `e`. -/
def Waits (s : TimerSystem) (p : ProcId) (e : Nat) : Prop :=
  s.endTime p = some e ∧ s.table.status p = .sleeping

/-- Who is inside `nanosleep` is ready or waits; who waits is on the timer queue, and the next
wakeup comes no later than its end. -/
def SleepersOk (s : TimerSystem) : Prop :=
  (∀ p e, s.endTime p = some e → s.table.status p = .ready ∨ s.Waits p e) ∧
    ∀ p e, s.Waits p e → (∃ q, s.table.Queue .timer q ∧ p ∈ q) ∧ s.nextWakeup ≠ 0 ∧
      s.nextWakeup ≤ e

/-- The `end_time` of the call of `nanosleep` that a step belongs to. -/
def endTimeIn (s : TimerSystem) : TimerOp → Option Nat
  | .nanosleep req => some (s.endTimeOf req)
  | .resume => s.endTime s.table.currentProc
  | .interrupt => none

/-- `nanosleep` returns past its end only, and after an interrupt everybody whose end is past
is ready. -/
def SleepContract (s : TimerSystem) (op : TimerOp) (r : SysReply) (s' : TimerSystem) : Prop :=
  (∀ v, r = .returned v → ∃ e, s.endTimeIn op = some e ∧ e < s.table.ticksSinceBoot) ∧
    (op = .interrupt → ∀ p e, s.endTime p = some e → e < s'.table.ticksSinceBoot →
      s'.endTime p = some e ∧ s'.table.status p = .ready)

/-- `end_time` is at least 1. -/
def EndsLater (s : TimerSystem) : TimerOp → Prop
  | .nanosleep req => 1 ≤ s.endTimeOf req
  | _ => True

/-- The sleepers are exactly the processes on the timer queue, nobody else is on a queue, and
the next wakeup comes in time for each of them. -/
structure TimerInv (idle : ProcId) (s : TimerSystem) (l q : List ProcId) : Prop where
  machine : ProcTable.MachineInv idle s.table l
  idle_outside : s.endTime idle = none
  queue : s.table.Queue .timer q
  mem_queue : ∀ p, p ∈ q ↔ ∃ e, s.Waits p e
  loose : ∀ p, p ∉ q → s.table.waitNext p = none
  inside : ∀ p e, s.endTime p = some e → s.table.status p = .ready ∨ s.Waits p e
  positive : ∀ p e, s.endTime p = some e → 1 ≤ e
  wakeup : ∀ p e, s.Waits p e → s.nextWakeup ≠ 0 ∧ s.nextWakeup ≤ e

section Steps

variable {idle : ProcId} {s s' : TimerSystem} {l q : List ProcId} {r : SysReply} {e : Nat}

theorem TimerInv.sleepersOk (h : TimerInv idle s l q) : SleepersOk s := by
  refine ⟨h.inside, ?_⟩
  intro p e hp
  exact ⟨⟨q, h.queue, (h.mem_queue p).2 ⟨e, hp⟩⟩, h.wakeup p e hp⟩

/-- The running process is ready, so it is not on the queue. -/
theorem TimerInv.current_not_mem (h : TimerInv idle s l q) : s.table.currentProc ∉ q := by
  intro hmem
  obtain ⟨e, -, hsleeping⟩ := (h.mem_queue _).1 hmem
  have hready := h.machine.ready
  rw [hsleeping] at hready
  cases hready

/-- `timer_sleep_until` sets the next wakeup to the earliest end there is. -/
theorem timerSleepUntil_eq_ok (hok : s.timerSleepUntil e = .ok s') :
    ∃ t, s.table.waitQueueAdd .timer s.table.currentProc = .ok t ∧ s'.table = t ∧
      s'.endTime = s.endTime ∧
      s'.nextWakeup = if s.nextWakeup = 0 then e else min s.nextWakeup e := by
  rw [timerSleepUntil] at hok
  split at hok
  · cases hok
  · rename_i t ht
    cases hok
    refine ⟨t, ht, rfl, rfl, ?_⟩
    simp only
    split
    · rfl
    · split
      · rename_i hlt
        rw [Nat.min_eq_right (Nat.le_of_lt hlt)]
      · rename_i hge
        rw [Nat.min_eq_left (Nat.not_lt.1 hge)]

/-- The loop of `nanosleep` returns past the end, or the caller joins the queue. -/
theorem TimerInv.nanosleepLoop (h : TimerInv idle s l q) (hcur : idle ≠ s.table.currentProc)
    (he : 1 ≤ e) (hok : s.nanosleepLoop e = .ok (r, s')) :
    (∃ q', TimerInv idle s' l q') ∧ (∀ v, r = .returned v → e < s.table.ticksSinceBoot) := by
  rw [TimerSystem.nanosleepLoop] at hok
  split at hok
  · -- it goes to sleep
    simp only at hok
    split at hok
    · cases hok
    · rename_i s₁ hsleep
      cases hok
      refine ⟨⟨q ++ [s.table.currentProc], ?_⟩, fun v hv => by cases hv⟩
      obtain ⟨t, hadd, rfl, hend, hwakeup⟩ := timerSleepUntil_eq_ok hsleep
      simp only at hend hwakeup
      obtain ⟨hinv, hsame, hqueue, hothers, -⟩ := h.machine.waitQueueAdd_queue hcur h.queue
        h.current_not_mem (h.loose _ h.current_not_mem) hadd
      have hstatus (p : ProcId) : s'.table.status p =
          if p = s.table.currentProc then .sleeping else s.table.status p := by
        rw [hsame.status, ProcTable.sleepIn_status]
      have hself : s'.endTime s.table.currentProc = some e := by
        rw [hend, Function.update_self]
      have hother (p : ProcId) (hp : p ≠ s.table.currentProc) : s'.endTime p = s.endTime p := by
        rw [hend, Function.update_of_ne hp]
      -- the caller waits now, the others as before
      have hwaits (p : ProcId) (hp : p ≠ s.table.currentProc) (e' : Nat) :
          s'.Waits p e' ↔ s.Waits p e' := by
        rw [Waits, Waits, hother p hp, hstatus p, if_neg hp]
      have hwaitsSelf (e' : Nat) : s'.Waits s.table.currentProc e' ↔ e' = e := by
        rw [Waits, hself, hstatus, if_pos rfl]
        constructor
        · rintro ⟨heq, -⟩
          exact (Option.some.inj heq).symm
        · rintro rfl
          exact ⟨rfl, rfl⟩
      refine ⟨hinv, ?_, hqueue, ?_, ?_, ?_, ?_, ?_⟩
      · rw [hother idle hcur]
        exact h.idle_outside
      · intro p
        rw [List.mem_append, List.mem_singleton]
        by_cases hp : p = s.table.currentProc
        · subst hp
          exact iff_of_true (Or.inr rfl) ⟨e, (hwaitsSelf e).2 rfl⟩
        · rw [h.mem_queue p]
          constructor
          · rintro (⟨e', he'⟩ | hcur')
            · exact ⟨e', (hwaits p hp e').2 he'⟩
            · exact absurd hcur' hp
          · rintro ⟨e', he'⟩
            exact Or.inl ⟨e', (hwaits p hp e').1 he'⟩
      · intro p hp
        have hp' : p ∉ q := fun hmem => hp (List.mem_append_left _ hmem)
        rw [hothers p hp']
        exact h.loose p hp'
      · intro p e' he'
        by_cases hp : p = s.table.currentProc
        · subst hp
          rw [hself] at he'
          exact Or.inr ((hwaitsSelf e').2 (Option.some.inj he').symm)
        · rw [hwaits p hp, hstatus p, if_neg hp]
          rw [hother p hp] at he'
          exact h.inside p e' he'
      · intro p e' he'
        by_cases hp : p = s.table.currentProc
        · subst hp
          rw [hself] at he'
          rw [← Option.some.inj he']
          exact he
        · rw [hother p hp] at he'
          exact h.positive p e' he'
      · intro p e' he'
        rw [hwakeup]
        by_cases hp : p = s.table.currentProc
        · subst hp
          obtain rfl := (hwaitsSelf e').1 he'
          -- the wakeup is the own end, or an earlier one
          split
          · exact ⟨Nat.ne_of_gt he, Nat.le_refl e'⟩
          · rename_i hset
            exact ⟨by omega, Nat.min_le_right _ _⟩
        · obtain ⟨hset, hle⟩ := h.wakeup p e' ((hwaits p hp e').1 he')
          rw [if_neg hset]
          exact ⟨by omega, Nat.le_trans (Nat.min_le_left _ _) hle⟩
  · rename_i hpast
    cases hok
    refine ⟨⟨q, ?_⟩, fun v _ => Nat.not_le.1 hpast⟩
    -- the caller leaves; it was not on the queue
    obtain ⟨endTime', hend⟩ : ∃ f, Function.update s.endTime s.table.currentProc none = f :=
      ⟨_, rfl⟩
    have hself : endTime' s.table.currentProc = none := by rw [← hend, Function.update_self]
    have hother (p : ProcId) (hp : p ≠ s.table.currentProc) : endTime' p = s.endTime p := by
      rw [← hend, Function.update_of_ne hp]
    have hinside (p : ProcId) (e' : Nat) (he' : endTime' p = some e') :
        p ≠ s.table.currentProc ∧ s.endTime p = some e' := by
      have hp : p ≠ s.table.currentProc := by
        rintro rfl
        rw [hself] at he'
        cases he'
      exact ⟨hp, (hother p hp).symm.trans he'⟩
    rw [hend]
    refine ⟨h.machine, ?_, h.queue, ?_, h.loose, ?_, ?_, ?_⟩
    · exact (hother idle hcur).trans h.idle_outside
    · intro p
      rw [h.mem_queue p]
      constructor
      · rintro ⟨e', he'⟩
        have hp : p ≠ s.table.currentProc := by
          rintro rfl
          exact h.current_not_mem ((h.mem_queue _).2 ⟨e', he'⟩)
        exact ⟨e', (hother p hp).trans he'.1, he'.2⟩
      · rintro ⟨e', he'⟩
        exact ⟨e', (hinside p e' he'.1).2, he'.2⟩
    · intro p e' he'
      rcases h.inside p e' (hinside p e' he').2 with hready | hwaits
      · exact Or.inl hready
      · exact Or.inr ⟨he', hwaits.2⟩
    · intro p e' he'
      exact h.positive p e' (hinside p e' he').2
    · intro p e' he'
      exact h.wakeup p e' ⟨(hinside p e' he'.1).2, he'.2⟩

/-- The interrupt wakes the whole queue, or the next wakeup is still to come. -/
theorem TimerInv.timerInterruptHandler (h : TimerInv idle s l q) :
    ∃ q', TimerInv idle s.timerInterruptHandler l q' ∧
      s.timerInterruptHandler.endTime = s.endTime ∧
        ∀ p e, s.endTime p = some e → e < s.timerInterruptHandler.table.ticksSinceBoot →
          s.timerInterruptHandler.table.status p = .ready := by
  rw [TimerSystem.timerInterruptHandler]
  obtain ⟨t, ht⟩ : ∃ t, ({ s.table with
    ticksSinceBoot := uint32 (s.table.ticksSinceBoot + 1) } : ProcTable) = t := ⟨_, rfl⟩
  have hmachine : ProcTable.MachineInv idle t l := by
    rw [← ht]
    exact ⟨h.machine.toListInv.congr ⟨rfl, rfl, rfl⟩ (fun _ => rfl) rfl h.machine.idle_ready
      h.machine.idle_user, h.machine.ready⟩
  have hclock : t.ticksSinceBoot = uint32 (s.table.ticksSinceBoot + 1) := by rw [← ht]
  have hqueue : t.Queue .timer q := by
    rw [← ht]
    exact h.queue
  have hwait : t.waitNext = s.table.waitNext := by rw [← ht]; rfl
  have hstatus : t.status = s.table.status := by rw [← ht]; rfl
  simp only [ht]
  split
  · -- everybody is woken
    rename_i hdue
    have hwoken (p : ProcId) : (t.waitQueueWake .timer).status p =
        if p ∈ q then .ready else s.table.status p := by
      rw [ProcTable.waitQueueWake_status, hqueue.queued_eq, hstatus]
    have hready (p : ProcId) (e : Nat) (he : s.endTime p = some e) :
        (t.waitQueueWake .timer).status p = .ready := by
      rw [hwoken]
      split
      · rfl
      · rename_i hp
        rcases h.inside p e he with hr | hw
        · exact hr
        · exact absurd ((h.mem_queue p).2 ⟨e, hw⟩) hp
    obtain ⟨hempty, hcut⟩ := hqueue.wake
    refine ⟨[], ⟨⟨hmachine.toListInv.waitQueueWake .timer, ?_⟩, h.idle_outside, hempty, ?_, ?_, ?_,
      h.positive, ?_⟩, rfl, fun p e he _ => hready p e he⟩
    · rw [ProcTable.waitQueueWake_status, ProcTable.waitQueueWake_currentProc, hmachine.ready,
        ite_self]
    · intro p
      refine iff_of_false List.not_mem_nil ?_
      rintro ⟨e, he⟩
      have hsleeping := he.2
      rw [hready p e he.1] at hsleeping
      cases hsleeping
    · intro p _
      rw [hcut p, hwait]
      split
      · rfl
      · rename_i hp
        exact h.loose p hp
    · intro p e he
      exact Or.inl (hready p e he)
    · intro p e he
      have hsleeping := he.2
      rw [hready p e he.1] at hsleeping
      cases hsleeping
  · -- the wakeup is not due, and so no end is past
    rename_i hnot
    have hwaits (p : ProcId) (e : Nat) :
        (⟨t, s.nextWakeup, s.endTime⟩ : TimerSystem).Waits p e ↔ s.Waits p e := by
      rw [Waits, Waits, hstatus]
    refine ⟨q, ⟨hmachine, h.idle_outside, hqueue, ?_, ?_, ?_, h.positive, ?_⟩, rfl, ?_⟩
    · intro p
      rw [h.mem_queue p]
      exact exists_congr fun e => (hwaits p e).symm
    · intro p hp
      rw [hwait]
      exact h.loose p hp
    · intro p e he
      rw [hwaits, hstatus]
      exact h.inside p e he
    · intro p e he
      exact h.wakeup p e ((hwaits p e).1 he)
    · intro p e he hlt
      rw [hstatus]
      refine (h.inside p e he).resolve_right ?_
      intro hw
      obtain ⟨hset, hle⟩ := h.wakeup p e hw
      exact hnot ⟨hset, Nat.lt_of_le_of_lt hle (hclock ▸ hlt)⟩

/-- Scheduling concerns neither the sleepers nor the queue. -/
theorem TimerInv.schedule (h : TimerInv idle s l q) {t : ProcTable}
    (hok : s.table.schedule = .ok t) :
    TimerInv idle { s with table := t } l q ∧ t.status = s.table.status ∧
      t.ticksSinceBoot = s.table.ticksSinceBoot := by
  obtain ⟨hinv, hsame⟩ := h.machine.toListInv.schedule hok
  obtain ⟨hwait, hfirst, hclock⟩ := ProcTable.schedule_queues hok
  have hstatus : t.status = s.table.status := funext hsame.status
  have hwaits (p : ProcId) (e : Nat) : ({ s with table := t } : TimerSystem).Waits p e ↔
      s.Waits p e := by
    rw [Waits, Waits, hstatus]
  refine ⟨⟨hinv, h.idle_outside, ?_, ?_, ?_, ?_, h.positive, ?_⟩, hstatus, hclock⟩
  · rw [ProcTable.Queue, hwait, hfirst]
    exact h.queue
  · intro p
    rw [h.mem_queue p]
    exact exists_congr fun e => (hwaits p e).symm
  · intro p hp
    rw [hwait]
    exact h.loose p hp
  · intro p e he
    rw [hwaits, hstatus]
    exact h.inside p e he
  · intro p e he
    exact h.wakeup p e ((hwaits p e).1 he)

/-- One step of any kind. -/
theorem TimerInv.step {op : TimerOp} (h : TimerInv idle s l q) (hend : s.EndsLater op)
    (hok : TimerSystem.step s op = .ok (r, s')) :
    (∃ q', TimerInv idle s' l q') ∧ SleepContract s op r s' := by
  rw [TimerSystem.step] at hok
  split at hok
  · rename_i henabled
    split at hok
    · rename_i r' hperform
      cases hok
      cases op with
      | nanosleep req =>
          obtain ⟨hinv, hreturns⟩ := h.nanosleepLoop
            (h.machine.toListInv.current_ne_idle henabled.2.2) hend hperform
          exact ⟨hinv, fun v hv => ⟨_, rfl, hreturns v hv⟩, fun hop => by cases hop⟩
      | resume =>
          obtain ⟨e, he⟩ := Option.isSome_iff_exists.1 henabled
          have hcur : idle ≠ s.table.currentProc := by
            rintro rfl
            rw [h.idle_outside] at he
            cases he
          rw [perform, he] at hperform
          obtain ⟨hinv, hreturns⟩ := h.nanosleepLoop hcur (h.positive _ e he) hperform
          exact ⟨hinv, fun v hv => ⟨e, he, hreturns v hv⟩, fun hop => by cases hop⟩
      | interrupt =>
          obtain ⟨q', hinv, hinside, hready⟩ := h.timerInterruptHandler
          rw [perform, timerInterrupt] at hperform
          split at hperform
          · cases hperform
          · rename_i t hschedule
            cases hperform
            obtain ⟨hinv', hstatus, hclock⟩ := hinv.schedule hschedule
            refine ⟨⟨q', hinv'⟩, ?_, ?_⟩
            · intro v hv
              cases hv
            · intro _ p e he hlt
              refine ⟨(congrFun hinside p).trans he, ?_⟩
              simp only at hlt ⊢
              rw [hstatus]
              rw [hclock] at hlt
              exact hready p e he hlt
    · cases hok
  · cases hok

end Steps

/-- Before the first call nobody is asleep. -/
theorem timerInv_start {idle : ProcId} {t : ProcTable} {l : List ProcId}
    (h : ProcTable.MachineInv idle t l) (hqueue : t.Queue .timer [])
    (hloose : ∀ p, t.waitNext p = none) : TimerInv idle (start t) l [] where
  machine := h
  idle_outside := rfl
  queue := hqueue
  mem_queue := by
    intro p
    refine iff_of_false List.not_mem_nil ?_
    rintro ⟨e, he⟩
    cases he.1
  loose := fun p _ => hloose p
  inside := by
    intro p e he
    cases he
  positive := by
    intro p e he
    cases he
  wakeup := by
    intro p e he
    cases he.1

/-- From any table of processes none of which is on a queue, over any run of calls of
`nanosleep` and timer interrupts: the sleepers are in order at its end, and every step of it
keeps the contract. -/
theorem run_sleepers {idle : ProcId} {t : ProcTable} {l : List ProcId} {ops : List TimerOp}
    {rs : List SysReply} {s' : TimerSystem} (h : ProcTable.MachineInv idle t l)
    (hqueue : t.Queue .timer []) (hloose : ∀ p, t.waitNext p = none)
    (hends : Along step EndsLater (start t) ops) (hrun : run (start t) ops = .ok (rs, s')) :
    s'.SleepersOk ∧ Throughout step SleepContract (start t) ops := by
  have hinv : ∃ q, TimerInv idle (start t) l q := ⟨[], timerInv_start h hqueue hloose⟩
  have hkeep : ∀ s op r s', (∃ q, TimerInv idle s l q) → s.EndsLater op →
      step s op = .ok (r, s') → SleepContract s op r s' ∧ ∃ q, TimerInv idle s' l q := by
    rintro s op r s' ⟨q, hq⟩ hend hstep
    obtain ⟨hinv', hcontract⟩ := hq.step hend hstep
    exact ⟨hcontract, hinv'⟩
  refine ⟨?_, throughout_of_along (fun s => ∃ q, TimerInv idle s l q) hkeep hinv hends⟩
  obtain ⟨q, hq⟩ := run_preserves (fun s => ∃ q, TimerInv idle s l q)
    (fun s op r s' hs hend hstep => (hkeep s op r s' hs hend hstep).2) hinv hends hrun
  exact hq.sleepersOk

/-- Init sleeps for one tick: the first interrupt leaves it asleep, the second one wakes it. -/
theorem run_sleepers_init :
    ∃ s', run (start (ProcTable.startUserspace 0 0 ⟨[], 0, 0, 0, 0⟩))
        [.nanosleep ⟨0, 16000000⟩, .interrupt, .interrupt, .resume] =
          .ok ([.suspended, .suspended, .suspended, .returned 0], s') ∧ s'.SleepersOk := by
  obtain ⟨⟨rs, s'⟩, hrun, hrs⟩ := map_eq_ok.1 (by decide :
    (run (start (ProcTable.startUserspace 0 0 ⟨[], 0, 0, 0, 0⟩))
      [.nanosleep ⟨0, 16000000⟩, .interrupt, .interrupt, .resume]).map (fun x => x.1) =
        .ok [.suspended, .suspended, .suspended, .returned 0])
  simp only at hrs
  subst hrs
  have hends : Along step EndsLater (start (ProcTable.startUserspace 0 0 ⟨[], 0, 0, 0, 0⟩))
      [.nanosleep ⟨0, 16000000⟩, .interrupt, .interrupt, .resume] := by
    refine ⟨?_, fun _ _ _ => ⟨trivial, fun _ _ _ => ⟨trivial, fun _ _ _ => ⟨trivial,
      fun _ _ _ => trivial⟩⟩⟩⟩
    show 1 ≤ _
    decide
  have hloose : ∀ p, (ProcTable.startUserspace 0 0 ⟨[], 0, 0, 0, 0⟩).waitNext p = none := by
    decide
  have hcontract := run_sleepers (ProcTable.startUserspace_inv 0 0 ⟨[], 0, 0, 0, 0⟩) rfl hloose
    hends hrun
  exact ⟨s', hrun, hcontract.1⟩

end TimerSystem

end Vmwos
