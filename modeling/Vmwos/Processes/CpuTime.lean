import Vmwos.Processes.WaitQueues
import Vmwos.Library.References

/-!
# Where the ticks go

`schedule` charges the process that was running with the ticks since it was switched to, and
notes for the process it switches to when that was. The processes that have existed are those in
the control blocks and those whose control block has been taken for a later one; what these had
used is kept in a record beside the machine. `vfork` copies the used time of the parent into the
control block of the child, over the zero of `process_create`, so it charges the ticks of the
parent a second time (`cpuTime_conserved_iff`).
-/

set_option autoImplicit false

namespace Vmwos

open Library

/-! ## The machine with its clock -/

/-- The machine, and what the processes had used whose control blocks have been taken again. -/
structure CpuClock where
  table : ProcTable
  retired : List Nat

/-- The timer counts some ticks, or the machine takes a step. -/
inductive ClockOp where
  | ticks (n : Nat)
  | sys (op : SysOp)

/-- The control block that a call takes for a new process. -/
def ProcTable.newChild (t : ProcTable) : SysOp → Option ProcId
  | .vfork => t.freeSlot
  | _ => none

/-- The same for what can happen with the clock. -/
def ProcTable.clockChild (t : ProcTable) : ClockOp → Option ProcId
  | .ticks _ => none
  | .sys op => t.newChild op

namespace CpuClock

/-- What is kept of the process whose control block is taken. -/
def retire (s : CpuClock) (op : SysOp) : List Nat :=
  match s.table.newChild op with
  | none => s.retired
  | some child => (s.table.allProcesses child).userTime :: s.retired

/-- The count of ticks does not decrease, so it stays below `2^32`. -/
def step (s : CpuClock) : ClockOp → Except Fault (Option SysReply × CpuClock)
  | .ticks n =>
      if s.table.ticksSinceBoot + n < 4294967296 then
        .ok (none, { s with
          table := { s.table with ticksSinceBoot := s.table.ticksSinceBoot + n } })
      else .error .notEnabled
  | .sys op =>
      match s.table.step op with
      | .error e => .error e
      | .ok (r, t) => .ok (some r, { table := t, retired := s.retire op })

/-- The time used by all processes that have existed. -/
def totalUserTime (s : CpuClock) : Nat :=
  ∑ p, (s.table.allProcesses p).userTime + s.retired.sum

/-- The tables of a boot, before any tick. -/
def boot (stack text : Nat) (image : Image) : CpuClock where
  table := ProcTable.startUserspace stack text image
  retired := []

end CpuClock

/-- The step went through `schedule`: it suspended the running process. Waking a queue only looks
so, it comes from an interrupt. -/
def ClockOp.Reschedules : ClockOp → Option SysReply → Prop
  | .sys (.wake _), _ => False
  | .sys _, some .suspended => True
  | _, _ => False

instance (op : ClockOp) (r : Option SysReply) : Decidable (op.Reschedules r) := by
  unfold ClockOp.Reschedules
  split <;> infer_instance

namespace ProcTable

variable {t t' u : ProcTable} {l : List ProcId} {p q child : ProcId} {op : SysOp} {r : SysReply}

/-! ## The times of the processes -/

/-- The times that the scheduler keeps. -/
def times (t : ProcTable) (p : ProcId) : Nat × Nat :=
  ((t.allProcesses p).userTime, (t.allProcesses p).lastScheduled)

/-- The times are the same, except that a new process may have got those of the running one. -/
structure TimesInto (t : ProcTable) (child : Option ProcId) (u : ProcTable) : Prop where
  times : ∀ p, u.times p = if child = some p then t.times t.currentProc else t.times p
  currentProc : u.currentProc = t.currentProc
  ticksSinceBoot : u.ticksSinceBoot = t.ticksSinceBoot

theorem TimesInto.refl (t : ProcTable) : TimesInto t none t :=
  ⟨fun _ => rfl, rfl, rfl⟩

/-- Without a new process all times are the same. -/
theorem TimesInto.same (h : TimesInto t none u) (p : ProcId) : u.times p = t.times p := h.times p

theorem TimesInto.trans {new : Option ProcId} (h : TimesInto t new u) (h' : TimesInto u none t') :
    TimesInto t new t' where
  times := fun p => (h'.same p).trans (h.times p)
  currentProc := h'.currentProc.trans h.currentProc
  ticksSinceBoot := h'.ticksSinceBoot.trans h.ticksSinceBoot

/-- A change of one control block that keeps its times. -/
theorem timesInto_modify {f : Process → Process}
    (huser : (f (t.allProcesses p)).userTime = (t.allProcesses p).userTime)
    (hlast : (f (t.allProcesses p)).lastScheduled = (t.allProcesses p).lastScheduled) :
    TimesInto t none (t.modify p f) where
  times := fun q => Prod.ext (modify_field Process.userTime huser q)
    (modify_field Process.lastScheduled hlast q)
  currentProc := rfl
  ticksSinceBoot := rfl

theorem TimesInto.of_onlyLinks (h : OnlyLinks t t') : TimesInto t none t' where
  times := fun q => Prod.ext (h.field Process.userTime (fun _ _ _ => rfl) q)
    (h.field Process.lastScheduled (fun _ _ _ => rfl) q)
  currentProc := h.1
  ticksSinceBoot := h.2.2.1

theorem timesInto_setImage (t : ProcTable) (image : Option Image) :
    TimesInto t none (t.setImage image) where
  times := fun q => Prod.ext (setImage_field Process.userTime (fun _ _ => rfl) t image q)
    (setImage_field Process.lastScheduled (fun _ _ => rfl) t image q)
  currentProc := setImage_currentProc t image
  ticksSinceBoot := by cases image <;> rfl

theorem timesInto_waitQueueWake (t : ProcTable) (queue : WaitQueue) :
    TimesInto t none (t.waitQueueWake queue) where
  times := fun q => Prod.ext (waitQueueWake_field Process.userTime (fun _ _ _ => rfl) t queue q)
    (waitQueueWake_field Process.lastScheduled (fun _ _ _ => rfl) t queue q)
  currentProc := waitQueueWake_currentProc t queue
  ticksSinceBoot := waitQueueWake_ticks t queue

theorem timesInto_enqueue {queue : WaitQueue} (h : t.enqueue queue p = .ok t') :
    TimesInto t none t' := by
  unfold enqueue at h
  split at h
  · cases h
    exact ⟨fun _ => rfl, rfl, rfl⟩
  · split at h
    · cases h
    · cases h
      exact TimesInto.refl t
    · cases h
      split
      · exact TimesInto.refl t
      · exact timesInto_modify rfl rfl

theorem timesInto_processDestroy (h : t.processDestroy p = .ok t') : TimesInto t none t' := by
  have hmark : TimesInto t none (t.modify p fun x => { x with valid := false }) :=
    timesInto_modify rfl rfl
  refine hmark.trans ⟨?_, (processRemove_rest h).1, (processRemove_rest h).2⟩
  intro q
  exact Prod.ext (processRemove_field Process.userTime (fun _ _ _ => rfl) h q)
    (processRemove_field Process.lastScheduled (fun _ _ _ => rfl) h q)

/-- `vfork` writes the times of the parent over those that `process_create` set. -/
theorem timesInto_forkInto (honly : OnlyLinks (t.takeSlot child) u) (hne : t.currentProc ≠ child) :
    TimesInto t (some child) (u.forkInto child t.currentProc) where
  times := by
    intro p
    have hcreated : ∀ q, q ≠ child → u.times q = t.times q := by
      intro q hq
      rw [(TimesInto.of_onlyLinks honly).same q, times, takeSlot_of_ne hq, times]
    have hsleep : (u.forkInto child t.currentProc).times p =
        (u.modify child fun new => u.childProcess new t.currentProc).times p :=
      (timesInto_modify rfl rfl).same p
    rw [hsleep]
    rcases eq_or_ne p child with rfl | hp
    · rw [if_pos rfl, times, modify_self]
      exact hcreated _ hne
    · have hother : ¬ some child = some p := fun h => hp (Option.some.inj h).symm
      rw [if_neg hother, times, modify_of_ne _ hp]
      exact hcreated p hp
  currentProc := honly.1
  ticksSinceBoot := honly.2.2.1

/-! ## What a step does to the times -/

/-- Called for a process other than the idle one it always switches. -/
theorem schedule_of_ne (hfirst : t.procFirst ≠ some t.currentProc) (hok : t.schedule = .ok t') :
    ∃ q, t' = t.processSwitch q := by
  rcases schedule_switches hok with ⟨hidle, -, -⟩ | hswitch
  · exact absurd hidle hfirst
  · exact hswitch

/-- On a list with a process besides the idle one as well. -/
theorem ListInv.schedule_switches {idle : ProcId} (h : ListInv idle t l)
    (hbusy : ∃ p ∈ l, p ≠ idle) (hok : t.schedule = .ok t') : ∃ q, t' = t.processSwitch q := by
  rcases ProcTable.schedule_switches hok with ⟨hfirst, hnext, -⟩ | hswitch
  · exfalso
    obtain ⟨rest, rfl⟩ := List.head?_eq_some_iff.1 h.idle_first
    have hidle : t.currentProc = idle := Option.some.inj (hfirst.symm.trans h.procFirst)
    rw [hidle] at hnext
    have hlinked := h.listed.linked.2
    rw [hnext] at hlinked
    obtain ⟨p, hp, hne⟩ := hbusy
    have hmem := (List.mem_cons.1 hp).resolve_left hne
    cases rest with
    | nil => exact absurd hmem List.not_mem_nil
    | cons a rest => cases hlinked.1
  · exact hswitch

/-- What a call does to the times: nothing besides what `vfork` copies, if it does not go through
`schedule`, and otherwise after that the switch to some process. -/
inductive TimesStep (t : ProcTable) (op : SysOp) : SysReply → ProcTable → Prop
  | stays {r : SysReply} {t' : ProcTable} (hr : ¬ (ClockOp.sys op).Reschedules (some r))
      (hnew : t.newChild op = none) (hinto : TimesInto t none t') : TimesStep t op r t'
  | switches {r : SysReply} {u : ProcTable} {q : ProcId}
      (hr : (ClockOp.sys op).Reschedules (some r)) (hinto : TimesInto t (t.newChild op) u) :
      TimesStep t op r (u.processSwitch q)

theorem vfork_times {idle : ProcId} (h : MachineInv idle t l) (hcur : idle ≠ t.currentProc)
    (hok : t.vfork = .ok (r, t')) : TimesStep t .vfork r t' := by
  have hnew : t.newChild .vfork = t.freeSlot := rfl
  rw [vfork] at hok
  rcases processCreate_cases h.listed h.ne_nil h.valid_iff with
    ⟨hfull, hcreate⟩ | ⟨child, t₁, hfree, hchild, hcreate, -, hfirst, honly⟩
  · rw [hcreate] at hok
    cases hok
    exact TimesStep.stays id (hnew.trans hfull) (TimesInto.refl t)
  · rw [hcreate] at hok
    simp only at hok
    split at hok
    · cases hok
    · rename_i u hu
      cases hok
      have hne : t.currentProc ≠ child := fun hne => hchild (hne ▸ h.running)
      have hinto := timesInto_forkInto honly hne
      have hfirst' : (t₁.forkInto child t.currentProc).procFirst ≠
          some (t₁.forkInto child t.currentProc).currentProc := by
        rw [hinto.currentProc]
        intro heq
        exact hcur (Option.some.inj (h.procFirst.symm.trans (hfirst.symm.trans heq)))
      obtain ⟨q, rfl⟩ := schedule_of_ne hfirst' hu
      rw [← hfree, ← hnew] at hinto
      exact TimesStep.switches trivial hinto

/-- A call of a process other than the idle one that ends in `schedule`. -/
theorem switches_of_schedule (hnew : t.newChild op = none)
    (hr : (ClockOp.sys op).Reschedules (some r)) (hinto : TimesInto t none u)
    (hfirst : u.procFirst = t.procFirst) (hcur : t.procFirst ≠ some t.currentProc)
    (hok : u.schedule = .ok t') : TimesStep t op r t' := by
  have hne : u.procFirst ≠ some u.currentProc := by
    rw [hfirst, hinto.currentProc]
    exact hcur
  obtain ⟨q, rfl⟩ := schedule_of_ne hne hok
  rw [← hnew] at hinto
  exact TimesStep.switches hr hinto

theorem waitQueueAdd_times {queue : WaitQueue} (hnew : t.newChild op = none)
    (hr : (ClockOp.sys op).Reschedules (some r)) (hinto : TimesInto t none u)
    (hfirst : u.procFirst = t.procFirst) (hcur : t.procFirst ≠ some t.currentProc)
    (hok : u.waitQueueAdd queue p = .ok t') : TimesStep t op r t' := by
  unfold ProcTable.waitQueueAdd at hok
  split at hok
  · cases hok
  · rename_i v hv
    obtain ⟨-, hlinks, -⟩ := enqueue_same hv
    have hsleep : TimesInto t none (v.modify p fun x => { x with status := .sleeping }) :=
      (hinto.trans (timesInto_enqueue hv)).trans (timesInto_modify rfl rfl)
    exact switches_of_schedule hnew hr hsleep (hlinks.procFirst.trans hfirst) hcur hok

theorem waitpidLoop_times {pid : Int} {proc : ProcId} (hnew : t.newChild op = none)
    (hsuspends : (ClockOp.sys op).Reschedules (some .suspended))
    (hreaps : ∀ v e, ¬ (ClockOp.sys op).Reschedules (some (.reaped v e)))
    (hcur : t.procFirst ≠ some t.currentProc) (hok : t.waitpidLoop pid proc = .ok (r, t')) :
    TimesStep t op r t' := by
  have hresume : ∀ resume, TimesInto t none (t.setResume resume) :=
    fun _ => timesInto_modify rfl rfl
  unfold waitpidLoop at hok
  split at hok
  · split at hok
    · cases hok
    · rename_i u hu
      cases hok
      exact waitQueueAdd_times hnew hsuspends (hresume _) rfl hcur hu
  · split at hok
    · cases hok
    · rename_i u hu
      cases hok
      exact TimesStep.stays (hreaps _ _) hnew ((hresume _).trans (timesInto_processDestroy hu))

theorem waitpid_times {pid options : Int} (hcur : t.procFirst ≠ some t.currentProc)
    (hok : t.waitpid pid options = .ok (r, t')) : TimesStep t (.waitpid pid options) r t' := by
  have hstays : ∀ v, TimesStep t (.waitpid pid options) (.returned v) t := fun _ =>
    TimesStep.stays id rfl (TimesInto.refl t)
  unfold waitpid at hok
  simp only at hok
  split at hok
  · cases hok
  · split at hok
    · cases hok
      exact hstays _
    · split at hok
      · cases hok
        exact hstays _
      · cases hok
  · split at hok
    · split at hok
      · split at hok
        · cases hok
        · rename_i u hu
          cases hok
          exact TimesStep.stays id rfl (timesInto_processDestroy hu)
      · cases hok
        exact hstays _
    · exact waitpidLoop_times rfl trivial (fun _ _ => id) hcur hok

/-- What each step of the machine does to the times. -/
theorem step_times {idle : ProcId} (h : MachineInv idle t l) (hbusy : ∃ p ∈ l, p ≠ idle)
    (hok : t.step op = .ok (r, t')) : TimesStep t op r t' := by
  obtain ⟨henabled, hok⟩ := step_enabled hok
  cases op with
  | vfork => exact vfork_times h (h.current_ne_idle henabled.2) hok
  | execve image =>
      have hok : t.execve image = .ok (r, t') := hok
      rw [execve] at hok
      split at hok
      · cases hok
      · split at hok
        · cases hok
        · rename_i u hu
          cases hok
          have hfirst : (t.setImage image).procFirst = t.procFirst := by cases image <;> rfl
          exact switches_of_schedule rfl trivial
            ((timesInto_setImage t image).trans (timesInto_modify rfl rfl)) hfirst henabled.2 hu
  | exit status =>
      have hok : t.exit status = .ok (r, t') := hok
      rw [exit] at hok
      split at hok
      · cases hok
      · rename_i u hu
        cases hok
        have hmark : TimesInto t none (t.markExited status) := timesInto_modify rfl rfl
        exact switches_of_schedule rfl trivial (hmark.trans (timesInto_waitQueueWake _ _))
          (wakeLoop_rest _ _ _).1 henabled.2 hu
  | waitpid pid options => exact waitpid_times henabled.2 hok
  | sleep queue =>
      obtain ⟨u, hu, heq⟩ := map_eq_ok.1 hok
      cases heq
      exact waitQueueAdd_times rfl trivial (TimesInto.refl t) rfl henabled.2.1 hu
  | resume =>
      -- the idle process is in user mode
      have hcur : t.procFirst ≠ some t.currentProc := by
        rw [h.procFirst]
        intro heq
        apply henabled
        rw [← Option.some.inj heq]
        exact h.idle_user
      have hok : t.resumeCall = .ok (r, t') := hok
      rw [resumeCall] at hok
      split at hok
      · cases hok
      · cases hok
        exact TimesStep.stays id rfl (timesInto_modify rfl rfl)
      · exact waitpidLoop_times rfl trivial (fun _ _ => id) hcur hok
  | wake queue =>
      cases hok
      exact TimesStep.stays id rfl (timesInto_waitQueueWake t queue)
  | schedule =>
      obtain ⟨u, hu, heq⟩ := map_eq_ok.1 hok
      cases heq
      obtain ⟨q, rfl⟩ := h.toListInv.schedule_switches hbusy hu
      exact TimesStep.switches trivial (TimesInto.refl t)

/-! ## Charging -/

/-- The table when the process that was running has been charged. -/
def charged (t : ProcTable) : ProcTable :=
  t.modify t.currentProc fun x =>
    { x with userTime := uint32 (x.userTime + sub32 t.ticksSinceBoot x.lastScheduled) }

/-- The table when the time has been noted at which a process is switched to. -/
def noted (t : ProcTable) (q : ProcId) : ProcTable :=
  t.modify q fun x => { x with lastScheduled := t.ticksSinceBoot }

theorem processSwitch_times (t : ProcTable) (q p : ProcId) :
    (t.processSwitch q).times p = (t.charged.noted q).times p := rfl

/-- The process that was running is charged with the ticks since it was switched to. -/
theorem processSwitch_userTime (huser : (t.times t.currentProc).1 + (t.ticksSinceBoot -
      (t.times t.currentProc).2) < 4294967296) (hlast : (t.times t.currentProc).2 ≤ t.ticksSinceBoot)
    (q p : ProcId) :
    ((t.processSwitch q).times p).1 = if p = t.currentProc then
      (t.times p).1 + (t.ticksSinceBoot - (t.times p).2) else (t.times p).1 := by
  have hnoted : ((t.charged.noted q).times p).1 = (t.charged.times p).1 :=
    modify_field Process.userTime rfl p
  rw [processSwitch_times, hnoted]
  rcases eq_or_ne p t.currentProc with rfl | hp
  · have hsub : sub32 t.ticksSinceBoot (t.times t.currentProc).2 =
        t.ticksSinceBoot - (t.times t.currentProc).2 := by
      unfold sub32
      omega
    rw [if_pos rfl, charged, times, modify_self]
    exact (congrArg (fun n => uint32 ((t.times t.currentProc).1 + n)) hsub).trans
      (uint32_of_lt huser)
  · rw [if_neg hp, charged, times, modify_of_ne _ hp, times]

/-- The process switched to starts now. -/
theorem processSwitch_lastScheduled (t : ProcTable) (q : ProcId) :
    ((t.processSwitch q).times q).2 = t.ticksSinceBoot := by
  rw [processSwitch_times, noted, times, modify_self]
  rfl

/-- No process has used more ticks than there have been, and the running one none since it was
switched to. -/
structure TimesInv (t : ProcTable) : Prop where
  used : ∀ p, (t.times p).1 ≤ t.ticksSinceBoot
  running : (t.times t.currentProc).1 ≤ (t.times t.currentProc).2
  switched : (t.times t.currentProc).2 ≤ t.ticksSinceBoot
  ticks : t.ticksSinceBoot < 4294967296

/-- A new process has the times of the running one, so it has used no more either. -/
theorem TimesInv.into {new : Option ProcId} (h : TimesInv t) (hinto : TimesInto t new u) :
    TimesInv u where
  used := by
    intro p
    rw [hinto.times, hinto.ticksSinceBoot]
    split
    · exact h.used _
    · exact h.used p
  running := by
    rw [hinto.currentProc, hinto.times, ite_self]
    exact h.running
  switched := by
    rw [hinto.currentProc, hinto.times, ite_self, hinto.ticksSinceBoot]
    exact h.switched
  ticks := by
    rw [hinto.ticksSinceBoot]
    exact h.ticks

/-- What is charged fits into 32 bits. -/
theorem TimesInv.processSwitch_userTime (h : TimesInv t) (q p : ProcId) :
    ((t.processSwitch q).times p).1 = if p = t.currentProc then
      (t.times p).1 + (t.ticksSinceBoot - (t.times p).2) else (t.times p).1 := by
  have hused := h.running
  have hnow := h.switched
  refine ProcTable.processSwitch_userTime ?_ hnow q p
  exact Nat.lt_of_le_of_lt (by omega) h.ticks

theorem TimesInv.processSwitch (h : TimesInv t) (q : ProcId) : TimesInv (t.processSwitch q) := by
  have hused : ∀ p, ((t.processSwitch q).times p).1 ≤ t.ticksSinceBoot := by
    intro p
    rw [h.processSwitch_userTime]
    split
    · rename_i hp
      subst hp
      have hrunning := h.running
      have hswitched := h.switched
      omega
    · exact h.used p
  have hlast := processSwitch_lastScheduled t q
  exact ⟨hused, (hused q).trans_eq hlast.symm, hlast.le, h.ticks⟩

/-! ## One step of the machine -/

/-- The ticks the running process has not been charged with. -/
def uncharged (t : ProcTable) : Nat := t.ticksSinceBoot - (t.times t.currentProc).2

theorem TimesInto.uncharged {new : Option ProcId} (h : TimesInto t new u) :
    u.uncharged = t.uncharged := by
  rw [ProcTable.uncharged, h.ticksSinceBoot, h.currentProc, h.times, ite_self, ProcTable.uncharged]

/-- A step charges the running process alone, and a new one starts with what that one had used. -/
theorem TimesStep.userTime (hstep : TimesStep t op r t') (h : TimesInv t) (p : ProcId) :
    (t'.times p).1 = (if t.newChild op = some p then t.times t.currentProc else t.times p).1 +
      if p = t.currentProc ∧ (ClockOp.sys op).Reschedules (some r) then t.uncharged else 0 := by
  cases hstep with
  | stays hr hnew hinto =>
      have hnone : ¬ (p = t.currentProc ∧ (ClockOp.sys op).Reschedules (some r)) :=
        fun hcharged => hr hcharged.2
      rw [if_neg hnone, hnew, hinto.times]
      rfl
  | @switches u q hr hinto =>
      rw [(h.into hinto).processSwitch_userTime, ← hinto.times p, hinto.currentProc]
      rcases eq_or_ne p t.currentProc with rfl | hp
      · have huncharged := hinto.uncharged
        rw [ProcTable.uncharged, hinto.currentProc] at huncharged
        rw [if_pos rfl, if_pos ⟨rfl, hr⟩, huncharged]
      · rw [if_neg hp, if_neg fun hcharged => hp hcharged.1]
        rfl

/-- Whatever is switched to has been switched to now. -/
theorem TimesStep.lastScheduled (hstep : TimesStep t op r t') :
    (t'.times t'.currentProc).2 = if (ClockOp.sys op).Reschedules (some r) then t.ticksSinceBoot
      else (t.times t.currentProc).2 := by
  cases hstep with
  | stays hr hnew hinto => rw [if_neg hr, hinto.currentProc, hinto.same]
  | @switches u q hr hinto =>
      rw [if_pos hr, ← hinto.ticksSinceBoot]
      exact processSwitch_lastScheduled u q

theorem TimesStep.ticksSinceBoot (hstep : TimesStep t op r t') :
    t'.ticksSinceBoot = t.ticksSinceBoot := by
  cases hstep with
  | stays hr hnew hinto => exact hinto.ticksSinceBoot
  | switches hr hinto => exact hinto.ticksSinceBoot

theorem TimesStep.inv (hstep : TimesStep t op r t') (h : TimesInv t) : TimesInv t' := by
  cases hstep with
  | stays hr hnew hinto => exact h.into hinto
  | @switches u q hr hinto => exact (h.into hinto).processSwitch q

/-- The running process has its control block, so no other gets it. -/
theorem ListInv.newChild_ne {idle : ProcId} (h : ListInv idle t l) (op : SysOp) :
    t.newChild op ≠ some t.currentProc := by
  intro hchild
  have hvalid := (h.valid_iff t.currentProc).2 h.running
  cases op with
  | vfork =>
      rw [not_valid_of_freeSlot hchild] at hvalid
      cases hvalid
  | _ => cases hchild

/-- Besides the idle process there stays one on the list: the one that reaps another. -/
theorem step_busy {idle : ProcId} (h : MachineInv idle t l) (hbusy : ∃ p ∈ l, p ≠ idle)
    (hok : t.step op = .ok (r, t')) : ∃ l', MachineInv idle t' l' ∧ ∃ p ∈ l', p ≠ idle := by
  have henabled := (step_enabled hok).1
  obtain ⟨l', hinv, heffect⟩ := step_cases h hok
  refine ⟨l', hinv, ?_⟩
  have hreaps : t'.currentProc = t.currentProc → idle ≠ t.currentProc → ∃ p ∈ l', p ≠ idle := by
    intro hcurrent hne
    refine ⟨t.currentProc, ?_, hne.symm⟩
    rw [← hcurrent]
    exact hinv.running
  cases heffect with
  | vfork hfree hchild hsame =>
      obtain ⟨p, hp, hne⟩ := hbusy
      exact ⟨p, List.mem_append_left _ hp, hne⟩
  | waitpidReaps htarget hstatus hvalue hcurrent hsame =>
      exact hreaps hcurrent (h.current_ne_idle henabled.2)
  | resumeReaps hresume hstatus hcurrent hsame =>
      apply hreaps hcurrent
      intro hidle
      have huser := h.idle_user
      rw [hidle, hresume] at huser
      cases huser
  | _ => exact hbusy

end ProcTable

namespace CpuClock

variable {s s' s₁ : CpuClock} {op : ClockOp} {ops : List ClockOp} {r : Option SysReply}
  {rs : List (Option SysReply)}

/-! ## Accounts -/

/-- What the process in a control block has used. -/
def userTime (s : CpuClock) (p : ProcId) : Nat := (s.table.allProcesses p).userTime

/-- The process that is running. -/
def running (s : CpuClock) : ProcId := s.table.currentProc

/-- When the running process was switched to. -/
def lastScheduled (s : CpuClock) : Nat := (s.table.allProcesses s.running).lastScheduled

/-- The ticks so far. -/
def now (s : CpuClock) : Nat := s.table.ticksSinceBoot

/-- A process that creates a child has not been charged with any tick. -/
def ForksUncharged (s : CpuClock) (op : ClockOp) : Prop :=
  s.table.clockChild op ≠ none → s.userTime s.running = 0

instance (s : CpuClock) (op : ClockOp) : Decidable (s.ForksUncharged op) := by
  unfold ForksUncharged
  infer_instance

/-- The running process is charged, by `schedule`, with the ticks since it was switched to; no
other process is, and one that is created has used nothing. -/
structure ChargesRunning (s : CpuClock) (op : ClockOp) (r : Option SysReply) (s' : CpuClock) :
    Prop where
  running : s'.userTime s.running = s.userTime s.running +
    if op.Reschedules r then s'.now - s.lastScheduled else 0
  others : ∀ p, p ≠ s.running → s.table.clockChild op ≠ some p → s'.userTime p = s.userTime p
  child : ∀ p, s.table.clockChild op = some p → s'.userTime p = 0

/-- The invariant of the machine with its clock. -/
structure Inv (s : CpuClock) : Prop where
  machine : ∃ l, ProcTable.MachineInv 0 s.table l ∧ ∃ p ∈ l, p ≠ 0
  times : s.table.TimesInv

theorem inv_boot (stack text : Nat) (image : Image) : Inv (boot stack text image) where
  machine := ⟨[0, 1], ProcTable.startUserspace_inv stack text image, 1, by decide, by decide⟩
  times := by
    have hnow : (boot stack text image).table.ticksSinceBoot = 0 := rfl
    refine ⟨fun p => ?_, Nat.le_refl 0, Nat.le_refl 0, hnow ▸ by decide⟩
    fin_cases p <;> exact Nat.le_refl 0

/-- What `vfork` copies. -/
def copied (s : CpuClock) (op : ClockOp) : Nat :=
  if s.table.clockChild op = none then 0 else s.userTime s.running

/-- What a step does to what the processes have used and to the time of the last switch. -/
structure Charges (s : CpuClock) (op : ClockOp) (r : Option SysReply) (s' : CpuClock) : Prop where
  userTime : ∀ p, s'.userTime p =
    (if s.table.clockChild op = some p then s.userTime s.running else s.userTime p) +
      if p = s.running ∧ op.Reschedules r then s'.now - s.lastScheduled else 0
  lastScheduled : s'.lastScheduled = if op.Reschedules r then s'.now else s.lastScheduled
  retired : s'.retired.sum = s.retired.sum + (s.table.clockChild op).elim 0 s.userTime
  now : s.now ≤ s'.now
  child : s.table.clockChild op ≠ some s.running

theorem retire_sum (s : CpuClock) (op : SysOp) :
    (s.retire op).sum = s.retired.sum + (s.table.newChild op).elim 0 s.userTime := by
  unfold retire
  split
  · rename_i hnone
    rw [hnone]
    rfl
  · rename_i child hchild
    rw [hchild, List.sum_cons, Nat.add_comm]
    rfl

theorem charges_ticks (s : CpuClock) (n : Nat) :
    Charges s (.ticks n) none { s with
      table := { s.table with ticksSinceBoot := s.table.ticksSinceBoot + n } } where
  userTime := by
    intro p
    have hnone : ¬ (p = s.running ∧ (ClockOp.ticks n).Reschedules none) := fun hr => hr.2
    rw [if_neg hnone]
    rfl
  lastScheduled := rfl
  retired := rfl
  now := Nat.le_add_right _ n
  child := fun hchild => by cases hchild

/-- Each step keeps the invariant and charges the running process, and what `vfork` copies. -/
theorem step_charges (h : Inv s) (hok : s.step op = .ok (r, s')) :
    Charges s op r s' ∧ Inv s' := by
  obtain ⟨l, hinv, hbusy⟩ := h.machine
  cases op with
  | ticks n =>
      simp only [step] at hok
      split at hok
      · rename_i hn
        cases hok
        refine ⟨charges_ticks s n, ⟨l, ⟨?_, hinv.ready⟩, hbusy⟩, ?_⟩
        · exact hinv.toListInv.congr ⟨rfl, rfl, rfl⟩ (fun _ => rfl) rfl hinv.idle_ready
            hinv.idle_user
        · exact ⟨fun p => Nat.le_add_right_of_le (h.times.used p), h.times.running,
            Nat.le_add_right_of_le h.times.switched, hn⟩
      · cases hok
  | sys op =>
      simp only [step] at hok
      split at hok
      · cases hok
      · rename_i r t hstep
        cases hok
        have htimes := ProcTable.step_times hinv hbusy hstep
        have hticks := htimes.ticksSinceBoot
        refine ⟨⟨fun p => ?_, ?_, retire_sum s op, hticks.ge, hinv.newChild_ne op⟩,
          ProcTable.step_busy hinv hbusy hstep, htimes.inv h.times⟩
        · have huser := htimes.userTime h.times p
          rw [ProcTable.uncharged, ← hticks, apply_ite Prod.fst] at huser
          exact huser
        · have hlast := htimes.lastScheduled
          rw [← hticks] at hlast
          exact hlast

/-- A step charges the running process alone exactly if it does not copy what that one has used
to a new one. -/
theorem Charges.chargesRunning_iff (h : Charges s op r s') :
    s.ForksUncharged op ↔ ChargesRunning s op r s' := by
  have huser : ∀ p, s.table.clockChild op = some p → s'.userTime p = s.userTime s.running := by
    intro p hchild
    have hne : ¬ (p = s.running ∧ op.Reschedules r) := by
      rintro ⟨rfl, -⟩
      exact h.child hchild
    rw [h.userTime, if_pos hchild, if_neg hne, Nat.add_zero]
  constructor
  · intro hfork
    refine ⟨?_, ?_, ?_⟩
    · have hrunning := h.userTime s.running
      simpa only [ite_self, true_and] using hrunning
    · intro p hp hchild
      have hother : ¬ (p = s.running ∧ op.Reschedules r) := fun hr => hp hr.1
      rw [h.userTime, if_neg hchild, if_neg hother, Nat.add_zero]
    · intro p hchild
      rw [huser p hchild]
      apply hfork
      rw [hchild]
      exact Option.some_ne_none p
  · intro hcharges hchild
    obtain ⟨p, hp⟩ := Option.ne_none_iff_exists'.1 hchild
    rw [← huser p hp]
    exact hcharges.child p hp

/-- The used times when one of them may have been replaced. -/
theorem sum_replaced (new : Option ProcId) (f : ProcId → Nat) (a : Nat) :
    ∑ p, (if new = some p then a else f p) + new.elim 0 f =
      ∑ p, f p + if new = none then 0 else a := by
  cases new with
  | none => simp
  | some child =>
      have hupdate : (fun p => if some child = some p then a else f p) =
          Function.update f child a := by
        funext p
        rcases eq_or_ne p child with rfl | hp
        · simp
        · simp [hp, hp.symm]
      rw [hupdate, if_neg (Option.some_ne_none child)]
      exact sum_update_add f child a

/-- The sum over all processes grows as the time of the last switch does, and by what is copied. -/
theorem Charges.totalUserTime (h : Charges s op r s') (hinv : Inv s) :
    s'.totalUserTime + s.lastScheduled =
      s.totalUserTime + s'.lastScheduled + s.copied op := by
  have hreplaced := sum_replaced (s.table.clockChild op) s.userTime (s.userTime s.running)
  have hcharged : ∑ p, s'.userTime p =
      ∑ p, (if s.table.clockChild op = some p then s.userTime s.running else s.userTime p) +
        if op.Reschedules r then s'.now - s.lastScheduled else 0 := by
    have hrunning : ∀ d, ∑ p, (if p = s.running ∧ op.Reschedules r then d else 0) =
        if op.Reschedules r then d else 0 := by
      intro d
      by_cases hr : op.Reschedules r
      · simp [hr]
      · simp [hr]
    rw [Finset.sum_congr rfl fun p _ => h.userTime p, Finset.sum_add_distrib, hrunning]
  have hlast : s.lastScheduled ≤ s'.now := hinv.times.switched.trans h.now
  have hswitch := h.lastScheduled
  have htotal : ∀ c : CpuClock, c.totalUserTime = ∑ p, c.userTime p + c.retired.sum := fun _ => rfl
  have hcopied : s.copied op =
      if s.table.clockChild op = none then 0 else s.userTime s.running := rfl
  rw [← hcopied] at hreplaced
  rw [htotal, htotal, hcharged, h.retired]
  -- from here on the sums are numbers
  generalize ∑ p, (if s.table.clockChild op = some p then s.userTime s.running else s.userTime p) =
    replaced at hreplaced ⊢
  generalize (s.table.clockChild op).elim 0 s.userTime = taken at hreplaced ⊢
  generalize ∑ p, s.userTime p = used at hreplaced ⊢
  by_cases hr : op.Reschedules r
  · rw [if_pos hr] at hswitch ⊢
    omega
  · rw [if_neg hr] at hswitch ⊢
    omega

/-! ## Runs -/

/-- Two accounts of a sum `a` and a time `l`, one after the other, are one. -/
theorem accounts_trans {a₁ a₂ a₃ l₁ l₂ l₃ c c' : Nat} (h : a₂ + l₁ = a₁ + l₂ + c)
    (h' : a₃ + l₂ = a₂ + l₃ + c') : a₃ + l₁ = a₁ + l₃ + (c + c') := by
  omega

/-- Along a run the sum grows as the time of the last switch does, by more exactly if some process
that has been charged creates a child. -/
theorem run_totalUserTime (h : Inv s) (hrun : run step s ops = .ok (rs, s')) :
    Inv s' ∧ s.now ≤ s'.now ∧ ∃ copied, s'.totalUserTime + s.lastScheduled =
      s.totalUserTime + s'.lastScheduled + copied ∧
        (copied = 0 ↔ Along step ForksUncharged s ops) := by
  induction ops generalizing s rs with
  | nil =>
      cases hrun
      exact ⟨h, Nat.le_refl _, 0, (Nat.add_zero _).symm, iff_of_true rfl trivial⟩
  | cons op ops ih =>
      obtain ⟨r, s₁, rs', hstep, hrun', -⟩ := run_cons_eq_ok.1 hrun
      obtain ⟨hcharges, h₁⟩ := step_charges h hstep
      have htotal := hcharges.totalUserTime h
      obtain ⟨h', hnow, copied, htotal', hcopied⟩ := ih h₁ hrun'
      refine ⟨h', hcharges.now.trans hnow, s.copied op + copied,
        accounts_trans htotal htotal', ?_⟩
      have hfirst : s.copied op = 0 ↔ s.ForksUncharged op := by
        unfold CpuClock.copied ForksUncharged
        split
        · rename_i hnone
          exact iff_of_true rfl fun hchild => absurd hnone hchild
        · rename_i hchild
          exact ⟨fun hzero _ => hzero, fun hfork => hfork hchild⟩
      rw [Nat.add_eq_zero_iff, hfirst, hcopied]
      constructor
      · rintro ⟨hfork, hrest⟩
        refine ⟨hfork, ?_⟩
        intro r' s₂ hstep'
        rw [hstep] at hstep'
        cases hstep'
        exact hrest
      · intro hall
        exact ⟨hall.1, hall.2 r s₁ hstep⟩

/-- A process is switched to when `schedule` returns. -/
theorem Charges.lastScheduled_eq_now (h : Charges s op r s') (hr : op.Reschedules r) :
    s'.lastScheduled = s'.now := by
  rw [h.lastScheduled, if_pos hr]

/-- Between two calls of `schedule` the sum of the used times grows by the ticks elapsed, and each
tick is charged to the process that is running, exactly if no process that has been charged
before creates a child. -/
theorem cpuTime_conserved_iff (stack text : Nat) (image : Image) {before between : List ClockOp}
    {op₁ op₂ : ClockOp} {r₁ r₂ : Option SysReply} {rs₀ rs₂ : List (Option SysReply)}
    {s₀ s₁ s₂ s₃ : CpuClock} (hbefore : run step (boot stack text image) before = .ok (rs₀, s₀))
    (hfirst : s₀.step op₁ = .ok (r₁, s₁)) (hr₁ : op₁.Reschedules r₁)
    (hbetween : run step s₁ between = .ok (rs₂, s₂)) (hsecond : s₂.step op₂ = .ok (r₂, s₃))
    (hr₂ : op₂.Reschedules r₂) :
    s₃.totalUserTime = s₁.totalUserTime + (s₃.now - s₁.now) ∧
        Throughout step ChargesRunning s₁ (between ++ [op₂]) ↔
      Along step ForksUncharged s₁ (between ++ [op₂]) := by
  have h₀ := (run_totalUserTime (inv_boot stack text image) hbefore).1
  obtain ⟨hcharges₁, h₁⟩ := step_charges h₀ hfirst
  have h₂ := (run_totalUserTime h₁ hbetween).1
  have hlast₁ := hcharges₁.lastScheduled_eq_now hr₁
  have hlast₃ := (step_charges h₂ hsecond).1.lastScheduled_eq_now hr₂
  -- the run from the one call to the other, the second call included
  have hrun : run step s₁ (between ++ [op₂]) = .ok (rs₂ ++ [r₂], s₃) :=
    run_append_eq_ok.2 ⟨rs₂, s₂, [r₂], hbetween, run_singleton_eq_ok.2 ⟨r₂, hsecond, rfl⟩, rfl⟩
  obtain ⟨-, hnow, copied, htotal, hcopied⟩ := run_totalUserTime h₁ hrun
  have hall : Along step ForksUncharged s₁ (between ++ [op₂]) ↔
      Throughout step ChargesRunning s₁ (between ++ [op₂]) :=
    along_iff_throughout Inv (fun _ _ _ _ hinv hstep => (step_charges hinv hstep).1.chargesRunning_iff)
      (fun _ _ _ _ hinv hstep _ => (step_charges hinv hstep).2) h₁ hrun
  rw [← hall, and_iff_right_iff_imp]
  intro hforks
  rw [hlast₁, hlast₃, hcopied.2 hforks, Nat.add_zero] at htotal
  rw [← Nat.add_sub_assoc hnow]
  exact Nat.eq_sub_of_add_eq htotal

/-- init forks before it has been charged, and its child exits after five ticks. -/
theorem cpuTime_conserved_iff_fork : ∃ s₁ s₃ : CpuClock,
    (boot 0 4096 ⟨[105], 0, 0, 0, 0⟩).step (.sys .schedule) = .ok (some .suspended, s₁) ∧
      s₃.totalUserTime = s₁.totalUserTime + (s₃.now - s₁.now) ∧
      Throughout step ChargesRunning s₁ ([.sys .vfork, .ticks 5] ++ [.sys (.exit 0)]) := by
  obtain ⟨⟨rs, s₃⟩, hrun, hrs⟩ := map_eq_ok.1 (by decide :
    (run step (boot 0 4096 ⟨[105], 0, 0, 0, 0⟩)
      ([.sys .schedule] ++ ([.sys .vfork, .ticks 5] ++ [.sys (.exit 0)]))).map (fun x => x.1) =
        .ok ([some .suspended] ++ ([some .suspended, none] ++ [some .suspended])))
  obtain ⟨rs₁, s₁, rs₂, hfirst, hrest, happend⟩ := run_append_eq_ok.1 hrun
  obtain ⟨rs₃, s₂, rs₄, hbetween, hsecond, happend'⟩ := run_append_eq_ok.1 hrest
  obtain ⟨r₁, hcall₁, rfl⟩ := run_singleton_eq_ok.1 hfirst
  obtain ⟨r₂, hcall₂, rfl⟩ := run_singleton_eq_ok.1 hsecond
  -- both calls of `schedule` suspend the caller
  obtain ⟨hr₁, hrs₂⟩ := List.append_inj (happend.symm.trans hrs) rfl
  obtain ⟨-, hr₂⟩ := List.append_inj' (happend'.symm.trans hrs₂) rfl
  cases hr₁
  cases hr₂
  have hforks : Along step ForksUncharged s₁ ([.sys .vfork, .ticks 5] ++ [.sys (.exit 0)]) := by
    have hall : Along step ForksUncharged (boot 0 4096 ⟨[105], 0, 0, 0, 0⟩)
        (.sys .schedule :: ([.sys .vfork, .ticks 5] ++ [.sys (.exit 0)])) := by
      decide
    exact hall.2 _ s₁ hcall₁
  exact ⟨s₁, s₃, hcall₁, (cpuTime_conserved_iff 0 4096 ⟨[105], 0, 0, 0, 0⟩ (run_nil _) hcall₁
    trivial hbetween hcall₂ trivial).2 hforks⟩

/-- init forks after five ticks: its child has used them too, and no tick has gone by. -/
theorem vfork_chargesTwice : ∃ (rs : List (Option SysReply)) (s₀ s₁ s₂ : CpuClock),
    run step (boot 0 4096 ⟨[105], 0, 0, 0, 0⟩) [.ticks 5] = .ok (rs, s₀) ∧
      s₀.step (.sys .schedule) = .ok (some .suspended, s₁) ∧
      s₁.step (.sys .vfork) = .ok (some .suspended, s₂) ∧ s₂.now = s₁.now ∧
      s₂.totalUserTime = s₁.totalUserTime + 5 := by
  obtain ⟨⟨rs, s₁⟩, hrun, h₁⟩ := map_eq_ok.1 (by decide :
    (run step (boot 0 4096 ⟨[105], 0, 0, 0, 0⟩) ([.ticks 5] ++ [.sys .schedule])).map
      (fun x => (x.1, x.2.now, x.2.totalUserTime)) = .ok ([none] ++ [some .suspended], 5, 5))
  obtain ⟨⟨rs', s₂⟩, hrun', h₂⟩ := map_eq_ok.1 (by decide :
    (run step (boot 0 4096 ⟨[105], 0, 0, 0, 0⟩)
      (([.ticks 5] ++ [.sys .schedule]) ++ [.sys .vfork])).map
        (fun x => (x.1, x.2.now, x.2.totalUserTime)) =
          .ok (([none] ++ [some .suspended]) ++ [some .suspended], 5, 10))
  simp only [Prod.mk.injEq] at h₁ h₂
  obtain ⟨rs₁, u, rs₂, hfirst, hsecond, happend⟩ := run_append_eq_ok.1 hrun'
  rw [hrun] at hfirst
  cases hfirst
  obtain ⟨rs₀, s₀, rs₃, hticks, hschedule, happend'⟩ := run_append_eq_ok.1 hrun
  obtain ⟨r₁, hcall₁, rfl⟩ := run_singleton_eq_ok.1 hschedule
  obtain ⟨r₂, hcall₂, rfl⟩ := run_singleton_eq_ok.1 hsecond
  obtain ⟨-, hr₁⟩ := List.append_inj' (happend'.symm.trans h₁.1) rfl
  obtain ⟨-, hr₂⟩ := List.append_inj' (happend.symm.trans h₂.1) rfl
  cases hr₁
  cases hr₂
  refine ⟨rs₀, s₀, s₁, s₂, hticks, hcall₁, hcall₂, h₂.2.1.trans h₁.2.1.symm, ?_⟩
  rw [h₂.2.2, h₁.2.2]

end CpuClock

end Vmwos
