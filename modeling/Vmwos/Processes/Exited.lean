import Vmwos.Processes.Machine

/-!
# An exited process stays exited

A process that has exited is made ready again by `execve`, when the parent pointer of the
caller leads to it, and by waking a wait queue that it is still on. In every run these are
the only ways (`run_exitedStays_iff`); `run_wakesExited` is a run that takes the first one.
-/

set_option autoImplicit false

namespace Vmwos

open Library

namespace ProcTable

variable {t t' : ProcTable} {l l' : List ProcId} {idle : ProcId} {op : SysOp} {r : SysReply}

/-- A process that has exited, or exits now, stays exited and does not run, unless its
control block, given back by `waitpid`, is handed out by `process_create`. -/
def ExitedStays (t : ProcTable) (op : SysOp) (_ : SysReply) (t' : ProcTable) : Prop :=
  ∀ p, t.status p = .exited ∨ (p = t.currentProc ∧ ∃ status, op = .exit status) →
    (t'.status p = .exited ∧ t'.currentProc ≠ p) ∨ (op = .vfork ∧ t.freeSlot = some p)

/-- The step makes no process ready that has exited: `execve` is not called with an exited
process in the control block of the parent, no exited process is on a wait queue that is
woken, and a process that exits is not on the wait queue of `waitpid`. -/
def WakesNoExited (t : ProcTable) : SysOp → Prop
  | .execve _ => ∀ parent, (t.allProcesses t.currentProc).parent = some parent →
      t.status parent ≠ .exited
  | .exit _ => ∀ p ∈ t.queued .waitpid, t.status p ≠ .exited ∧ p ≠ t.currentProc
  | .wake queue => ∀ p ∈ t.queued queue, t.status p ≠ .exited
  | _ => True

instance (t : ProcTable) (op : SysOp) : Decidable (WakesNoExited t op) :=
  match op with
  | .execve _ => inferInstanceAs (Decidable (∀ parent,
      (t.allProcesses t.currentProc).parent = some parent → t.status parent ≠ .exited))
  | .exit _ => inferInstanceAs (Decidable (∀ p ∈ t.queued .waitpid,
      t.status p ≠ .exited ∧ p ≠ t.currentProc))
  | .wake queue => inferInstanceAs (Decidable (∀ p ∈ t.queued queue, t.status p ≠ .exited))
  | .vfork | .waitpid _ _ | .sleep _ | .resume | .schedule => .isTrue trivial

/-- The scheduler picks ready processes, so only the status matters. -/
theorem exitedStays_iff (hinv : MachineInv idle t' l') :
    ExitedStays t op r t' ↔
      ∀ p, t.status p = .exited ∨ (p = t.currentProc ∧ ∃ status, op = .exit status) →
        t'.status p = .exited ∨ (op = .vfork ∧ t.freeSlot = some p) := by
  constructor
  · intro h p hp
    exact (h p hp).imp_left And.left
  · intro h p hp
    refine (h p hp).imp_left fun hstatus => ⟨hstatus, ?_⟩
    rintro rfl
    rw [hinv.ready] at hstatus
    cases hstatus

/-- A step keeps the exited processes exited exactly if it does not wake one of them. -/
theorem step_exitedStays_iff (h : MachineInv idle t l) (hok : t.step op = .ok (r, t')) :
    WakesNoExited t op ↔ ExitedStays t op r t' := by
  obtain ⟨l', hinv', heffect⟩ := step_cases h hok
  rw [exitedStays_iff hinv']
  -- a step that is neither `exit` nor wakes anyone leaves the statuses of exited processes alone
  have hkeeps : (∀ status, op ≠ .exit status) →
      (∀ p, t.status p = .exited → t'.status p = .exited) →
        ∀ p, t.status p = .exited ∨ (p = t.currentProc ∧ ∃ status, op = .exit status) →
          t'.status p = .exited ∨ (op = .vfork ∧ t.freeSlot = some p) := by
    rintro hop hstatus p (hp | ⟨-, status, hexit⟩)
    · exact Or.inl (hstatus p hp)
    · exact absurd hexit (hop status)
  have hasleep : ∀ (resume : Resume), SameProcesses (t.sleepIn resume) t' →
      ∀ p, t.status p = .exited → t'.status p = .exited := by
    intro resume hsame p hp
    rw [hsame.status, sleepIn_status, if_neg, hp]
    rintro rfl
    rw [h.ready] at hp
    cases hp
  cases heffect with
  | vforkFull hfull => exact iff_of_true trivial (hkeeps (fun _ h => by cases h) fun _ hp => hp)
  | @vfork child t' hfree hchild hsame =>
      have hne : t.currentProc ≠ child := fun hne => hchild (hne ▸ h.running)
      refine iff_of_true trivial ?_
      rintro p (hp | ⟨-, status, hexit⟩)
      · have hcur : p ≠ t.currentProc := by
          rintro rfl
          rw [h.ready] at hp
          cases hp
        rcases eq_or_ne p child with rfl | hpchild
        · exact Or.inr ⟨rfl, hfree⟩
        · refine Or.inl ?_
          rw [hsame.status, forked_status hne, if_neg hcur, if_neg hpchild, hp]
      · cases hexit
  | @execve image parent t' hparent hsame =>
      constructor
      · intro hwakes
        refine hkeeps (fun _ h => by cases h) ?_
        intro p hp
        rw [hsame.status, execved_status, if_neg, hp]
        rintro rfl
        exact hwakes p hparent hp
      · intro hstays q hq hexited
        rw [hparent] at hq
        cases hq
        rcases hstays parent (Or.inl hexited) with hafter | ⟨hop, -⟩
        · rw [hsame.status, execved_status, if_pos rfl] at hafter
          cases hafter
        · cases hop
  | @exit status t' hsame =>
      constructor
      · rintro hwakes p (hp | ⟨rfl, -⟩)
        · refine Or.inl ?_
          rw [hsame.status, exited_status, if_neg fun hmem => (hwakes p hmem).1 hp, hp, ite_self]
        · refine Or.inl ?_
          rw [hsame.status, exited_status, if_neg fun hmem => (hwakes _ hmem).2 rfl, if_pos rfl]
      · intro hstays p hmem
        have hready : t'.status p = .ready := by
          rw [hsame.status, exited_status, if_pos hmem]
        constructor
        · intro hexited
          rcases hstays p (Or.inl hexited) with hafter | ⟨hop, -⟩
          · rw [hready] at hafter
            cases hafter
          · cases hop
        · intro hcur
          rcases hstays p (Or.inr ⟨hcur, status, rfl⟩) with hafter | ⟨hop, -⟩
          · rw [hready] at hafter
            cases hafter
          · cases hop
  | sleep hsame => exact iff_of_true trivial (hkeeps (fun _ h => by cases h) (hasleep .user hsame))
  | @wake queue =>
      constructor
      · intro hwakes
        refine hkeeps (fun _ h => by cases h) ?_
        intro p hp
        rw [waitQueueWake_status, if_neg fun hmem => hwakes p hmem hp, hp]
      · intro hstays p hmem hexited
        rcases hstays p (Or.inl hexited) with hafter | ⟨hop, -⟩
        · rw [waitQueueWake_status, if_pos hmem] at hafter
          cases hafter
        · cases hop
  | schedule hsame =>
      refine iff_of_true trivial (hkeeps (fun _ h => by cases h) ?_)
      intro p hp
      rw [hsame.status, hp]
  | waitpidFails htarget =>
      exact iff_of_true trivial (hkeeps (fun _ h => by cases h) fun _ hp => hp)
  | waitpidRuns htarget hstatus =>
      exact iff_of_true trivial (hkeeps (fun _ h => by cases h) fun _ hp => hp)
  | waitpidSleeps htarget hoptions hstatus hsame =>
      exact iff_of_true trivial (hkeeps (fun _ h => by cases h) (hasleep _ hsame))
  | waitpidReaps htarget hstatus hvalue hcurrent hsame =>
      refine iff_of_true trivial (hkeeps (fun _ h => by cases h) ?_)
      intro p hp
      rw [hsame.status, reap_status, hp]
  | resumeVfork hresume =>
      refine iff_of_true trivial (hkeeps (fun _ h => by cases h) ?_)
      intro p hp
      rw [setResume_status, hp]
  | resumeSleeps hresume hstatus hsame =>
      exact iff_of_true trivial (hkeeps (fun _ h => by cases h) (hasleep _ hsame))
  | resumeReaps hresume hstatus hcurrent hsame =>
      refine iff_of_true trivial (hkeeps (fun _ h => by cases h) ?_)
      intro p hp
      rw [hsame.status, reap_status, hp]

/-- In a run from boot the exited processes stay exited all along exactly if no step wakes
one of them. -/
theorem run_exitedStays_iff (stack text : Nat) (image : Image) {ops : List SysOp}
    {rs : List SysReply} (hrun : run (startUserspace stack text image) ops = .ok (rs, t)) :
    Along step WakesNoExited (startUserspace stack text image) ops ↔
      Throughout step ExitedStays (startUserspace stack text image) ops := by
  refine along_iff_throughout (fun t => ∃ l, MachineInv 0 t l) ?_ ?_
    ⟨[0, 1], startUserspace_inv stack text image⟩ hrun
  · rintro t op r t' ⟨l, hinv⟩ hok
    exact step_exitedStays_iff hinv hok
  · rintro t op r t' ⟨l, hinv⟩ hok -
    obtain ⟨l', hinv', -⟩ := step_cases hinv hok
    exact ⟨l', hinv'⟩

/-- init and its child fork, the children call `execve`, and the first child exits. -/
theorem run_exitedStays_iff_family :
    Throughout step ExitedStays (startUserspace 0 4096 ⟨[105], 0, 0, 0, 0⟩)
      [.vfork, .execve none, .resume, .schedule, .vfork, .execve none, .schedule, .resume,
        .exit 7] := by
  obtain ⟨⟨rs, t⟩, hrun, -⟩ := map_eq_ok.1 (by decide :
    (run (startUserspace 0 4096 ⟨[105], 0, 0, 0, 0⟩)
      [.vfork, .execve none, .resume, .schedule, .vfork, .execve none, .schedule, .resume,
        .exit 7]).map (fun r => r.2.currentProc) = .ok 3)
  exact (run_exitedStays_iff 0 4096 ⟨[105], 0, 0, 0, 0⟩ hrun).1 (by decide)

/-- The child of an exited process calls `execve` a second time: the exited process is ready
again, and `schedule` switches to it. -/
theorem run_wakesExited :
    ∃ rs t rs' t', run (startUserspace 0 4096 ⟨[105], 0, 0, 0, 0⟩)
        [.vfork, .execve none, .resume, .schedule, .vfork, .execve none, .schedule, .resume,
          .exit 7] = .ok (rs, t) ∧
      t.status 2 = .exited ∧
      run t [.execve none, .schedule] = .ok (rs', t') ∧
      t'.status 2 = .ready ∧ t'.currentProc = 2 ∧
      (t'.allProcesses 2).valid = true ∧ (t'.allProcesses 2).pid = (t.allProcesses 2).pid := by
  obtain ⟨⟨rs, t⟩, hrun, ht⟩ := map_eq_ok.1 (by decide :
    (run (startUserspace 0 4096 ⟨[105], 0, 0, 0, 0⟩)
      [.vfork, .execve none, .resume, .schedule, .vfork, .execve none, .schedule, .resume,
        .exit 7]).map (fun r => (r.2.status 2, (r.2.allProcesses 2).pid)) = .ok (.exited, 2))
  obtain ⟨⟨rs', t'⟩, hrun', ht'⟩ := map_eq_ok.1 (by decide :
    (run (startUserspace 0 4096 ⟨[105], 0, 0, 0, 0⟩)
      ([.vfork, .execve none, .resume, .schedule, .vfork, .execve none, .schedule, .resume,
        .exit 7] ++ [.execve none, .schedule])).map
          (fun r => (r.2.status 2, r.2.currentProc, (r.2.allProcesses 2).valid,
            (r.2.allProcesses 2).pid)) = .ok (.ready, 2, true, 2))
  obtain ⟨rs₁, t₁, rs₂, h₁, h₂, -⟩ := run_append_eq_ok.1 hrun'
  rw [run] at hrun
  rw [hrun] at h₁
  cases h₁
  simp only [Prod.mk.injEq] at ht ht'
  exact ⟨rs, t, rs₂, t', hrun, ht.1, h₂, ht'.1, ht'.2.1, ht'.2.2.1, ht'.2.2.2.trans ht.2.symm⟩
end ProcTable

end Vmwos
