import Vmwos.Processes.Machine

/-!
# The parent in `vfork`

A parent that sleeps inside `vfork` waits for one child: until that child calls `execve` it
is in use and has not exited. `execve` makes the parent ready; `exit` does not, unless the
parent happens to be on the wait queue of `waitpid`. In every run that is what decides
(`run_vforkParentsLive_iff`), and a child that exits first leaves its parent asleep
(`run_strandsParent`).
-/

set_option autoImplicit false

namespace Vmwos

open Library

namespace ProcTable

variable {t t' : ProcTable} {l l' : List ProcId} {idle : ProcId} {op : SysOp} {r : SysReply}
  {execed execed' : ProcId → Bool}

/-- Which processes have called `execve`. -/
def noteExecve (t : ProcTable) (op : SysOp) (execed : ProcId → Bool) : ProcId → Bool :=
  match op with
  | .vfork =>
      match t.freeSlot with
      | none => execed
      | some child => Function.update execed child false
  | .execve _ => Function.update execed t.currentProc true
  | _ => execed

/-- The machine with a record of the processes that have called `execve`. -/
def execveStep : ProcTable × (ProcId → Bool) → SysOp →
    Except Fault (SysReply × (ProcTable × (ProcId → Bool))) :=
  recording step noteExecve

/-- A process in use that sleeps inside `vfork` has a child in use, made by that `vfork`,
which has neither exited nor called `execve`. -/
def VforkParentsLive (t : ProcTable) (execed : ProcId → Bool) : Prop :=
  ∀ p child childPid, (t.allProcesses p).valid = true → t.status p = .sleeping →
    (t.allProcesses p).resume = .vfork child childPid →
      (t.allProcesses child).valid = true ∧ t.status child ≠ .exited ∧
        (t.allProcesses child).pid = childPid ∧ (t.allProcesses child).parent = some p ∧
        execed child = false

/-- `exit` is not called by a process whose parent sleeps in the `vfork` that made it. Waking
the wait queue of `waitpid` may save the parent, or make the caller ready again. -/
def LetsParentGo (t : ProcTable) : SysOp → Prop
  | .exit _ => ∀ parent, (t.allProcesses t.currentProc).parent = some parent →
      (t.allProcesses parent).valid = true → t.status parent = .sleeping →
        (t.allProcesses parent).resume =
          .vfork t.currentProc (t.allProcesses t.currentProc).pid →
          parent ∈ t.queued .waitpid ∨ t.currentProc ∈ t.queued .waitpid
  | _ => True

instance (t : ProcTable) (op : SysOp) : Decidable (LetsParentGo t op) :=
  match op with
  | .exit _ => inferInstanceAs (Decidable (∀ parent,
      (t.allProcesses t.currentProc).parent = some parent →
      (t.allProcesses parent).valid = true → t.status parent = .sleeping →
        (t.allProcesses parent).resume =
          .vfork t.currentProc (t.allProcesses t.currentProc).pid →
          parent ∈ t.queued .waitpid ∨ t.currentProc ∈ t.queued .waitpid))
  | .vfork | .execve _ | .waitpid _ _ | .sleep _ | .resume | .wake _ | .schedule => .isTrue trivial

/-- No process falls asleep in `vfork`, and the child of every one that sleeps there stays as
it is. -/
theorem VforkParentsLive.keep (h : VforkParentsLive t execed)
    (hsleeper : ∀ p child childPid, (t'.allProcesses p).valid = true → t'.status p = .sleeping →
      (t'.allProcesses p).resume = .vfork child childPid →
        (t.allProcesses p).valid = true ∧ t.status p = .sleeping ∧
          (t.allProcesses p).resume = .vfork child childPid)
    (hchild : ∀ p child, (t'.allProcesses p).valid = true → t'.status p = .sleeping →
      (t.allProcesses child).valid = true → t.status child ≠ .exited →
        (t.allProcesses child).parent = some p →
        (∃ childPid, (t.allProcesses p).resume = .vfork child childPid ∧
          (t.allProcesses child).pid = childPid) →
        (t'.allProcesses child).valid = true ∧ t'.status child ≠ .exited ∧
          (t'.allProcesses child).pid = (t.allProcesses child).pid ∧
          (t'.allProcesses child).parent = (t.allProcesses child).parent ∧
          execed' child = execed child) :
    VforkParentsLive t' execed' := by
  intro p child childPid hvalid hsleeping hresume
  obtain ⟨hvalid', hsleeping', hresume'⟩ := hsleeper p child childPid hvalid hsleeping hresume
  obtain ⟨hc, hexited, hpid, hparent, hexec⟩ := h p child childPid hvalid' hsleeping' hresume'
  obtain ⟨hc', hexited', hpid', hparent', hexec'⟩ :=
    hchild p child hvalid hsleeping hc hexited hparent ⟨childPid, hresume', hpid⟩
  exact ⟨hc', hexited', hpid'.trans hpid, hparent'.trans hparent, hexec'.trans hexec⟩

/-- A step in which the families stay and no live process exits. -/
theorem VforkParentsLive.of_families (h : VforkParentsLive t execed) (hfamilies : SameFamilies t t')
    (hsleeper : ∀ p child childPid, t'.status p = .sleeping →
      (t'.allProcesses p).resume = .vfork child childPid →
        t.status p = .sleeping ∧ (t.allProcesses p).resume = .vfork child childPid)
    (hexited : ∀ p, t.status p ≠ .exited → t'.status p ≠ .exited) :
    VforkParentsLive t' execed := by
  refine h.keep ?_ ?_
  · intro p child childPid hvalid hsleeping hresume
    rw [hfamilies.valid] at hvalid
    exact ⟨hvalid, hsleeper p child childPid hsleeping hresume⟩
  · intro p child _ _ hvalid hlive _ _
    exact ⟨(hfamilies.valid child).trans hvalid, hexited child hlive, hfamilies.pid child,
      hfamilies.parent child, rfl⟩

/-- A process that falls asleep elsewhere than in `vfork`. -/
theorem VforkParentsLive.sleepIn {resume : Resume} (h : VforkParentsLive t execed)
    (hresume : ∀ child childPid, resume ≠ .vfork child childPid)
    (hsame : SameProcesses (t.sleepIn resume) t') : VforkParentsLive t' execed := by
  refine h.of_families ((sleepIn_families t resume).trans hsame.families) ?_ ?_
  · intro p child childPid hsleeping hvfork
    rw [hsame.resume, sleepIn_resume] at hvfork
    rw [hsame.status, sleepIn_status] at hsleeping
    split at hvfork
    · exact absurd hvfork (hresume child childPid)
    · rename_i hp
      rw [if_neg hp] at hsleeping
      exact ⟨hsleeping, hvfork⟩
  · intro p hlive
    rw [hsame.status, sleepIn_status]
    split
    · intro h
      cases h
    · exact hlive

/-- A process that has exited leaves the table. -/
theorem VforkParentsLive.reap {proc : ProcId} (h : VforkParentsLive t execed)
    (hready : t.status t.currentProc = .ready) (hproc : t.status proc = .exited)
    (hsame : SameProcesses (t.reap proc) t') : VforkParentsLive t' execed := by
  have hstatus : ∀ p, t'.status p = t.status p := fun p =>
    (hsame.status p).trans (reap_status proc p)
  refine h.keep ?_ ?_
  · intro p child childPid hvalid hsleeping hresume
    rw [hsame.valid, reap_valid] at hvalid
    rw [hstatus] at hsleeping
    have hcur : p ≠ t.currentProc := by
      rintro rfl
      rw [hready] at hsleeping
      cases hsleeping
    have hresume' : (t'.allProcesses p).resume = (t.allProcesses p).resume := by
      rw [hsame.resume, reap_field Process.resume (fun _ _ => rfl), setResume_resume, if_neg hcur]
    split at hvalid
    · cases hvalid
    · exact ⟨hvalid, hsleeping, hresume'.symm.trans hresume⟩
  · intro p child _ _ hvalid hlive _ _
    have hne : child ≠ proc := by
      rintro rfl
      exact hlive hproc
    refine ⟨?_, ?_, ?_, ?_, rfl⟩
    · rw [hsame.valid, reap_valid, if_neg hne]
      exact hvalid
    · rw [hstatus]
      exact hlive
    · rw [hsame.pid, reap_field Process.pid (fun _ _ => rfl)]
      exact (setResume_families t .user).pid child
    · rw [hsame.parent, reap_field Process.parent (fun _ _ => rfl)]
      exact (setResume_families t .user).parent child

/-- The parent falls asleep in `vfork` with a new child. -/
theorem VforkParentsLive.forked {child : ProcId} (h : VforkParentsLive t execed)
    (hcur : (t.allProcesses t.currentProc).valid = true)
    (hchild : (t.allProcesses child).valid = false) (hsame : SameProcesses (t.forked child) t') :
    VforkParentsLive t' (Function.update execed child false) := by
  have hne : t.currentProc ≠ child := by
    rintro rfl
    rw [hcur] at hchild
    cases hchild
  intro p c childPid hvalid hsleeping hresume
  rw [hsame.valid] at hvalid
  rw [hsame.status, forked_status hne] at hsleeping
  rw [hsame.resume] at hresume
  rw [hsame.valid, hsame.status, hsame.pid, hsame.parent, forked_status hne]
  rcases eq_or_ne p t.currentProc with rfl | hp
  · -- the child of this `vfork` has just been made
    rw [forked_parent hne] at hresume
    cases hresume
    rw [forked_child hne, if_neg hne.symm, if_pos rfl, Function.update_self]
    exact ⟨hcur, by decide, rfl, rfl, rfl⟩
  · have hpchild : p ≠ child := by
      rintro rfl
      rw [if_neg hp, if_pos rfl] at hsleeping
      cases hsleeping
    rw [if_neg hp, if_neg hpchild] at hsleeping
    rw [forked_of_ne hpchild hp] at hvalid hresume
    obtain ⟨hc, hlive, hpid, hparent, hexec⟩ := h p c childPid hvalid hsleeping hresume
    have hcchild : c ≠ child := by
      rintro rfl
      rw [hc] at hchild
      cases hchild
    rw [Function.update_of_ne hcchild, if_neg hcchild]
    rcases eq_or_ne c t.currentProc with rfl | hcc
    · rw [forked_parent hne, if_pos rfl]
      exact ⟨hc, by decide, hpid, hparent, hexec⟩
    · rw [forked_of_ne hcchild hcc, if_neg hcc]
      exact ⟨hc, hlive, hpid, hparent, hexec⟩

/-- `execve` makes the parent of the caller ready. -/
theorem VforkParentsLive.execved {image : Option Image} {parent : ProcId}
    (h : VforkParentsLive t execed) (hparent : (t.allProcesses t.currentProc).parent = some parent)
    (hsame : SameProcesses ((t.setImage image).modify parent fun p =>
      { p with status := .ready }) t') :
    VforkParentsLive t' (Function.update execed t.currentProc true) := by
  have hfamilies := (execved_families t image parent).trans hsame.families
  have hstatus : ∀ p, t'.status p = if p = parent then .ready else t.status p := fun p =>
    (hsame.status p).trans (execved_status image parent p)
  refine h.keep ?_ ?_
  · intro p child childPid hvalid hsleeping hresume
    rw [hfamilies.valid] at hvalid
    rw [hsame.resume, execved_resume] at hresume
    rw [hstatus] at hsleeping
    split at hsleeping
    · cases hsleeping
    · exact ⟨hvalid, hsleeping, hresume⟩
  · intro p child _ hsleeping hvalid hlive hparent' _
    have hne : child ≠ t.currentProc := by
      rintro rfl
      rw [hparent] at hparent'
      cases hparent'
      rw [hstatus, if_pos rfl] at hsleeping
      cases hsleeping
    refine ⟨(hfamilies.valid child).trans hvalid, ?_, hfamilies.pid child, hfamilies.parent child,
      Function.update_of_ne hne _ _⟩
    rw [hstatus]
    split
    · intro h
      cases h
    · exact hlive

/-- `exit` keeps the parents in `vfork` from being stranded exactly if the caller's parent is
not waiting for it there. -/
theorem VforkParentsLive.exited_iff {status : Int} (h : VforkParentsLive t execed)
    (hready : t.status t.currentProc = .ready)
    (hsame : SameProcesses ((t.markExited status).waitQueueWake .waitpid) t') :
    LetsParentGo t (.exit status) ↔ VforkParentsLive t' execed := by
  have hfamilies := (exited_families t status).trans hsame.families
  have hstatus : ∀ p, t'.status p = if p ∈ t.queued .waitpid then .ready
      else if p = t.currentProc then .exited else t.status p := fun p =>
    (hsame.status p).trans (exited_status status p)
  have hresume : ∀ p, (t'.allProcesses p).resume = (t.allProcesses p).resume := fun p =>
    (hsame.resume p).trans (exited_resume status p)
  constructor
  · intro hgo
    refine h.keep ?_ ?_
    · intro p child childPid hvalid hsleeping hvfork
      rw [hfamilies.valid] at hvalid
      rw [hresume] at hvfork
      rw [hstatus] at hsleeping
      split at hsleeping
      · cases hsleeping
      · split at hsleeping
        · cases hsleeping
        · exact ⟨hvalid, hsleeping, hvfork⟩
    · intro p child hvalid' hsleeping hvalid hlive hparent hvfork
      refine ⟨(hfamilies.valid child).trans hvalid, ?_, hfamilies.pid child,
        hfamilies.parent child, rfl⟩
      rw [hstatus]
      split
      · intro h
        cases h
      · rename_i hqueued
        split
        · -- the caller's own parent would be asleep in `vfork` and not woken
          rename_i hcur
          subst hcur
          rw [hstatus] at hsleeping
          split at hsleeping
          · cases hsleeping
          · rename_i hnot
            split at hsleeping
            · cases hsleeping
            · obtain ⟨childPid, hvfork, rfl⟩ := hvfork
              rcases hgo p hparent ((hfamilies.valid p).symm.trans hvalid') hsleeping hvfork with
                hp | hc
              · exact absurd hp hnot
              · exact absurd hc hqueued
        · exact hlive
  · intro hlive parent hparent hvalid hsleeping hvfork
    refine Decidable.byContradiction fun hnot => ?_
    rw [not_or] at hnot
    have hne : parent ≠ t.currentProc := by
      rintro heq
      rw [heq, hready] at hsleeping
      cases hsleeping
    have hsleeping' : t'.status parent = .sleeping := by
      rw [hstatus, if_neg hnot.1, if_neg hne, hsleeping]
    have hexited := (hlive parent t.currentProc _ ((hfamilies.valid parent).trans hvalid)
      hsleeping' ((hresume parent).trans hvfork)).2.1
    rw [hstatus, if_neg hnot.2, if_pos rfl] at hexited
    exact hexited rfl

/-- A step strands no parent in `vfork` exactly if it is not the `exit` of a child whose parent
waits for it there. -/
theorem step_vforkParentsLive_iff (h : MachineInv idle t l) (hlive : VforkParentsLive t execed)
    (hok : t.step op = .ok (r, t')) :
    LetsParentGo t op ↔ VforkParentsLive t' (noteExecve t op execed) := by
  obtain ⟨l', -, heffect⟩ := step_cases h hok
  cases heffect with
  | vforkFull hfull =>
      have hnote : noteExecve t .vfork execed = execed := by
        rw [noteExecve, hfull]
      rw [hnote]
      exact iff_of_true trivial hlive
  | @vfork child t' hfree hchild hsame =>
      have hnote : noteExecve t .vfork execed = Function.update execed child false := by
        rw [noteExecve, hfree]
      rw [hnote]
      exact iff_of_true trivial (hlive.forked ((h.valid_iff _).2 h.running)
        (not_valid_of_freeSlot hfree) hsame)
  | execve hparent hsame => exact iff_of_true trivial (hlive.execved hparent hsame)
  | exit hsame => exact hlive.exited_iff h.ready hsame
  | sleep hsame =>
      exact iff_of_true trivial (hlive.sleepIn (fun _ _ h => by cases h) hsame)
  | @wake queue =>
      refine iff_of_true trivial (hlive.of_families (waitQueueWake_families t queue) ?_ ?_)
      · intro p child childPid hsleeping hresume
        rw [waitQueueWake_status] at hsleeping
        rw [waitQueueWake_field Process.resume (fun _ _ _ => rfl)] at hresume
        split at hsleeping
        · cases hsleeping
        · exact ⟨hsleeping, hresume⟩
      · intro p hp
        rw [waitQueueWake_status]
        split
        · intro h
          cases h
        · exact hp
  | schedule hsame =>
      refine iff_of_true trivial (hlive.of_families hsame.families ?_ ?_)
      · intro p child childPid hsleeping hresume
        exact ⟨(hsame.status p).symm.trans hsleeping, (hsame.resume p).symm.trans hresume⟩
      · intro p hp
        rw [hsame.status]
        exact hp
  | waitpidFails htarget => exact iff_of_true trivial hlive
  | waitpidRuns htarget hstatus => exact iff_of_true trivial hlive
  | waitpidSleeps htarget hoptions hstatus hsame =>
      exact iff_of_true trivial (hlive.sleepIn (fun _ _ h => by cases h) hsame)
  | waitpidReaps htarget hstatus hvalue hcurrent hsame =>
      exact iff_of_true trivial (hlive.reap h.ready hstatus hsame)
  | resumeVfork hresume =>
      refine iff_of_true trivial (hlive.of_families (setResume_families t .user) ?_ ?_)
      · intro p child childPid hsleeping hvfork
        rw [setResume_status] at hsleeping
        rw [setResume_resume] at hvfork
        split at hvfork
        · cases hvfork
        · exact ⟨hsleeping, hvfork⟩
      · intro p hp
        rw [setResume_status]
        exact hp
  | resumeSleeps hresume hstatus hsame =>
      exact iff_of_true trivial (hlive.sleepIn (fun _ _ h => by cases h) hsame)
  | resumeReaps hresume hstatus hcurrent hsame =>
      exact iff_of_true trivial (hlive.reap h.ready hstatus hsame)

/-- After booting nobody sleeps inside `vfork`. -/
theorem startUserspace_vforkParentsLive (stack text : Nat) (image : Image)
    (execed : ProcId → Bool) : VforkParentsLive (startUserspace stack text image) execed := by
  intro p child childPid hvalid hsleeping hresume
  fin_cases p
  · cases hresume
  · cases hresume
  all_goals cases hvalid

/-- From boot on, no parent is stranded in `vfork` in any state of a run exactly if no child
exits while its parent waits there. -/
theorem run_vforkParentsLive_iff (stack text : Nat) (image : Image) {ops : List SysOp}
    {rs : List SysReply} {s : ProcTable × (ProcId → Bool)}
    (hrun : Library.run execveStep (startUserspace stack text image, fun _ => false) ops =
      .ok (rs, s)) :
    Along execveStep (fun s op => LetsParentGo s.1 op)
        (startUserspace stack text image, fun _ => false) ops ↔
      VforkParentsLive (startUserspace stack text image) (fun _ => false) ∧
        Throughout execveStep (fun _ _ _ s' => VforkParentsLive s'.1 s'.2)
          (startUserspace stack text image, fun _ => false) ops := by
  have hstart := startUserspace_vforkParentsLive stack text image fun _ => false
  rw [and_iff_right hstart]
  refine along_iff_throughout
    (fun s => (∃ l, MachineInv 0 s.1 l) ∧ VforkParentsLive s.1 s.2) ?_ ?_
    ⟨⟨[0, 1], startUserspace_inv stack text image⟩, hstart⟩ hrun
  · rintro s op r s' ⟨⟨l, hinv⟩, hlive⟩ hok
    obtain ⟨hstep, hnote⟩ := recording_eq_ok.1 hok
    rw [hnote]
    exact step_vforkParentsLive_iff hinv hlive hstep
  · rintro s op r s' ⟨⟨l, hinv⟩, -⟩ hok hlive'
    obtain ⟨hstep, -⟩ := recording_eq_ok.1 hok
    obtain ⟨l', hinv', -⟩ := step_cases hinv hstep
    exact ⟨⟨l', hinv'⟩, hlive'⟩

/-- init forks twice; the first child exits, after its `execve`, while init sleeps in the second
`vfork`. -/
theorem run_vforkParentsLive_iff_twice :
    VforkParentsLive (startUserspace 0 4096 ⟨[105], 0, 0, 0, 0⟩) (fun _ => false) ∧
      Throughout execveStep (fun _ _ _ s' => VforkParentsLive s'.1 s'.2)
        (startUserspace 0 4096 ⟨[105], 0, 0, 0, 0⟩, fun _ => false)
        [.vfork, .execve none, .resume, .vfork, .exit 3, .execve none, .resume] := by
  obtain ⟨⟨rs, s⟩, hrun, -⟩ := map_eq_ok.1 (by decide :
    (Library.run execveStep (startUserspace 0 4096 ⟨[105], 0, 0, 0, 0⟩, fun _ => false)
      [.vfork, .execve none, .resume, .vfork, .exit 3, .execve none, .resume]).map
        (fun r => r.2.1.currentProc) = .ok 1)
  exact (run_vforkParentsLive_iff 0 4096 ⟨[105], 0, 0, 0, 0⟩ hrun).1 (by decide)

/-- A child exits before it calls `execve`: init sleeps inside `vfork` with a child that has
exited, and the idle process runs. -/
theorem run_strandsParent :
    ∃ rs s, Library.run execveStep (startUserspace 0 4096 ⟨[105], 0, 0, 0, 0⟩, fun _ => false)
        [.vfork, .exit 7] = .ok (rs, s) ∧
      ¬VforkParentsLive s.1 s.2 ∧
      s.1.status 1 = .sleeping ∧ (s.1.allProcesses 1).resume = .vfork 2 2 ∧
      s.1.status 2 = .exited ∧ s.1.currentProc = 0 := by
  obtain ⟨⟨rs, s⟩, hrun, hs⟩ := map_eq_ok.1 (by decide :
    (Library.run execveStep (startUserspace 0 4096 ⟨[105], 0, 0, 0, 0⟩, fun _ => false)
      [.vfork, .exit 7]).map (fun r => ((r.2.1.allProcesses 1).valid, r.2.1.status 1,
        (r.2.1.allProcesses 1).resume, r.2.1.status 2, r.2.1.currentProc)) =
          .ok (true, .sleeping, .vfork 2 2, .exited, 0))
  simp only [Prod.mk.injEq] at hs
  obtain ⟨hvalid, hsleeping, hresume, hexited, hcurrent⟩ := hs
  refine ⟨rs, s, hrun, ?_, hsleeping, hresume, hexited, hcurrent⟩
  intro hlive
  exact (hlive 1 2 2 hvalid hsleeping hresume).2.1 hexited

end ProcTable

end Vmwos
