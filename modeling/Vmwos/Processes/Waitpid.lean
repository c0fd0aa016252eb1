import Vmwos.Processes.Machine

/-!
# What `waitpid` promises

`waitpid` answers for the children of the caller, the processes that the caller itself has
made by `vfork`. The parent pointers of the control blocks say this only as long as the
control block of the parent is not used again, and `waitpid` looks at one process only, the
first one it finds. In every run whose calls meet `WaitsForOwnChild` each step keeps the
contract (`run_waitContract`).
-/

set_option autoImplicit false

namespace Vmwos

open Library

namespace ProcTable

variable {t t' : ProcTable} {l l' : List ProcId} {p idle child proc : ProcId} {op : SysOp}
  {r : SysReply} {creator : ProcId → Option Int} {n : Nat}

/-- The pids of the processes that have made the processes in use by `vfork`. -/
def noteCreator (t : ProcTable) (op : SysOp) (creator : ProcId → Option Int) :
    ProcId → Option Int :=
  match op with
  | .vfork =>
      match t.freeSlot with
      | none => creator
      | some child =>
          Function.update creator child (some (t.allProcesses t.currentProc).pid)
  | _ => creator

/-- The machine with a record of who has made whom. -/
def familyStep : ProcTable × (ProcId → Option Int) → SysOp →
    Except Fault (SysReply × (ProcTable × (ProcId → Option Int))) :=
  recording step noteCreator

/-- A process in use that the running process has made. -/
def IsChild (t : ProcTable) (creator : ProcId → Option Int) (p : ProcId) : Prop :=
  (t.allProcesses p).valid = true ∧ creator p = some (t.allProcesses t.currentProc).pid

instance (t : ProcTable) (creator : ProcId → Option Int) (p : ProcId) :
    Decidable (IsChild t creator p) := by
  unfold IsChild
  infer_instance

/-- A child that a call for `pid` may answer for. -/
def Candidate (t : ProcTable) (creator : ProcId → Option Int) (pid : Int) (p : ProcId) : Prop :=
  IsChild t creator p ∧ (pid = -1 ∨ (t.allProcesses p).pid = pid)

/-- The answer is the pid and the exit value of a process that has exited; it is destroyed, and
no other process is. -/
def Reaps (t : ProcTable) (r : SysReply) (t' : ProcTable) (p : ProcId) : Prop :=
  t.status p = .exited ∧ r = .reaped (t.allProcesses p).pid (t.allProcesses p).exitValue ∧
    (t'.allProcesses p).valid = false ∧
    ∀ q, q ≠ p → (t'.allProcesses q).valid = (t.allProcesses q).valid

/-- The contract of `waitpid` in one step. -/
structure WaitContract (t : ProcTable) (creator : ProcId → Option Int) (op : SysOp) (r : SysReply)
    (t' : ProcTable) : Prop where
  /-- Nobody is taken for a child of a process that did not make it. -/
  own : ∀ pid options proc, op = .waitpid pid options → Target t t.processes pid proc →
    IsChild t creator proc
  /-- `-ECHILD` says that there is no child. -/
  noChild : ∀ options, op = .waitpid (-1) options →
    (r = .returned (-echild) ↔ ∀ p, ¬IsChild t creator p)
  /-- A pid of no child is an error, and nothing happens. -/
  stranger : ∀ pid options, op = .waitpid pid options → pid ≠ -1 →
    (∀ p, ¬Candidate t creator pid p) → ∃ e, e < 0 ∧ r = .returned e ∧ t' = t
  /-- With `WNOHANG` an exited child is reaped if there is one. -/
  noHang : ∀ pid, op = .waitpid pid wnohang → (∃ p, Candidate t creator pid p) →
    (∃ p, Candidate t creator pid p ∧ Reaps t r t' p) ∨
      ((∀ p, Candidate t creator pid p → t.status p ≠ .exited) ∧ r = .returned 0)
  /-- Without `WNOHANG` the call comes back only with an exited child. -/
  blocks : ∀ pid options, op = .waitpid pid options → options ≠ wnohang →
    (∃ p, Candidate t creator pid p) →
      r = .suspended ∨ ∃ p, Candidate t creator pid p ∧ Reaps t r t' p
  /-- So does a call that goes on after the caller has slept. -/
  goesOn : ∀ pid proc, op = .resume →
    (t.allProcesses t.currentProc).resume = .waitpid pid proc →
      r = .suspended ∨ ∃ p, Candidate t creator pid p ∧ Reaps t r t' p
  /-- A process is destroyed only by its parent in `waitpid`, after it has exited. -/
  destroyed : ∀ p, (t.allProcesses p).valid = true → (t'.allProcesses p).valid = false →
    IsChild t creator p ∧ Reaps t r t' p

/-- The first process whose parent pointer leads to the running process. -/
def firstChild (t : ProcTable) : Option ProcId :=
  t.processes.find? fun p =>
    p ≠ t.currentProc ∧ (t.allProcesses p).parent = some t.currentProc

/-- The calls for which `waitpid` keeps its contract: `waitpid(-1)` finds a child of the caller
first if it finds anyone, with `WNOHANG` one that has exited unless no child has, and without
it the call does not come back; `waitpid(pid)` is called for a child; and pids have not
wrapped around. -/
def WaitsForOwnChild (s : ProcTable × (ProcId → Option Int)) : SysOp → Prop
  | .vfork => 0 ≤ s.1.availPid
  | .waitpid pid options =>
      (pid = -1 → ∀ p, s.1.firstChild = some p → IsChild s.1 s.2 p ∧
        if options = wnohang then
          s.1.status p = .exited ∨ ∀ c, IsChild s.1 s.2 c → s.1.status c ≠ .exited
        else s.1.status p ≠ .exited) ∧
      (0 ≤ pid → ∃ p, IsChild s.1 s.2 p ∧ (s.1.allProcesses p).pid = pid)
  | .resume => ∀ proc, (s.1.allProcesses s.1.currentProc).resume = .waitpid (-1) proc →
      s.1.status proc ≠ .exited
  | _ => True

instance (s : ProcTable × (ProcId → Option Int)) (op : SysOp) :
    Decidable (WaitsForOwnChild s op) :=
  match op with
  | .vfork => inferInstanceAs (Decidable (0 ≤ s.1.availPid))
  | .waitpid pid options => inferInstanceAs (Decidable
      ((pid = -1 → ∀ p, s.1.firstChild = some p → IsChild s.1 s.2 p ∧
        if options = wnohang then
          s.1.status p = .exited ∨ ∀ c, IsChild s.1 s.2 c → s.1.status c ≠ .exited
        else s.1.status p ≠ .exited) ∧
      (0 ≤ pid → ∃ p, IsChild s.1 s.2 p ∧ (s.1.allProcesses p).pid = pid)))
  | .resume => inferInstanceAs (Decidable (∀ proc,
      (s.1.allProcesses s.1.currentProc).resume = .waitpid (-1) proc →
      s.1.status proc ≠ .exited))
  | .execve _ | .exit _ | .sleep _ | .wake _ | .schedule => .isTrue trivial

/-! ## The families -/

/-- Pids are given out in order; the parent pointer of a process leads to the one that made it
while that one is in use; and a caller inside `waitpid` waits for a child. -/
structure FamilyInv (n : Nat) (t : ProcTable) (creator : ProcId → Option Int) (l : List ProcId) :
    Prop where
  availPid : t.availPid = int32 n
  pid_range : ∀ p ∈ l, 0 ≤ (t.allProcesses p).pid ∧ (t.allProcesses p).pid < n
  pids : ∀ p ∈ l, ∀ q ∈ l, (t.allProcesses p).pid = (t.allProcesses q).pid → p = q
  creator_lt : ∀ p ∈ l, ∀ k, creator p = some k → k < (t.allProcesses p).pid
  parent_of : ∀ p ∈ l, ∀ q ∈ l, creator p = some (t.allProcesses q).pid →
    (t.allProcesses p).parent = some q
  waiting : ∀ q ∈ l, ∀ pid proc, (t.allProcesses q).resume = .waitpid pid proc →
    proc ∈ l ∧ creator proc = some (t.allProcesses q).pid ∧
      (pid = -1 ∨ (t.allProcesses proc).pid = pid)

/-- A step in which the families stay and at most the running process starts to wait. -/
theorem FamilyInv.of_families (h : FamilyInv n t creator l) (hfamilies : SameFamilies t t')
    (hwaiting : ∀ q ∈ l, ∀ pid proc, (t'.allProcesses q).resume = .waitpid pid proc →
      (t.allProcesses q).resume = .waitpid pid proc ∨
        (proc ∈ l ∧ creator proc = some (t.allProcesses q).pid ∧
          (pid = -1 ∨ (t.allProcesses proc).pid = pid))) :
    FamilyInv n t' creator l where
  availPid := hfamilies.availPid.trans h.availPid
  pid_range := by
    intro p hp
    rw [hfamilies.pid]
    exact h.pid_range p hp
  pids := by
    intro p hp q hq hpq
    rw [hfamilies.pid, hfamilies.pid] at hpq
    exact h.pids p hp q hq hpq
  creator_lt := by
    intro p hp k hk
    rw [hfamilies.pid]
    exact h.creator_lt p hp k hk
  parent_of := by
    intro p hp q hq hcreator
    rw [hfamilies.pid] at hcreator
    rw [hfamilies.parent]
    exact h.parent_of p hp q hq hcreator
  waiting := by
    intro q hq pid proc hresume
    rw [hfamilies.pid, hfamilies.pid]
    rcases hwaiting q hq pid proc hresume with hbefore | hnew
    · exact h.waiting q hq pid proc hbefore
    · exact hnew

/-- The running process falls asleep; it waits for one of its children if for anyone. -/
theorem FamilyInv.sleepIn {resume : Resume} (h : FamilyInv n t creator l)
    (hresume : ∀ pid proc, resume = .waitpid pid proc →
      proc ∈ l ∧ creator proc = some (t.allProcesses t.currentProc).pid ∧
        (pid = -1 ∨ (t.allProcesses proc).pid = pid))
    (hsame : SameProcesses (t.sleepIn resume) t') : FamilyInv n t' creator l := by
  refine h.of_families ((sleepIn_families t resume).trans hsame.families) ?_
  intro q hq pid proc hwaits
  rw [hsame.resume, sleepIn_resume] at hwaits
  split at hwaits
  · rename_i hcur
    rw [hcur]
    exact Or.inr (hresume pid proc hwaits)
  · exact Or.inl hwaits

/-- The child that the running process makes. -/
theorem FamilyInv.forked (h : FamilyInv n t creator l) (hn : n < 2147483648)
    (hcur : t.currentProc ∈ l) (hchild : child ∉ l) (hsame : SameProcesses (t.forked child) t') :
    FamilyInv (n + 1) t'
      (Function.update creator child (some (t.allProcesses t.currentProc).pid)) (l ++ [child]) := by
  have hne : t.currentProc ≠ child := fun hne => hchild (hne ▸ hcur)
  have hold : ∀ p ∈ l, p ≠ child := by
    rintro p hp rfl
    exact hchild hp
  have havail : t.availPid = n := h.availPid.trans (int32_of_lt hn)
  have hnew : (t'.allProcesses child).pid = n := by
    rw [hsame.pid, forked_child hne]
    exact havail
  have hpid : ∀ p ∈ l, (t'.allProcesses p).pid = (t.allProcesses p).pid := by
    intro p hp
    rw [hsame.pid]
    rcases eq_or_ne p t.currentProc with rfl | hpcur
    · rw [forked_parent hne]
    · rw [forked_of_ne (hold p hp) hpcur]
  have hparent : ∀ p ∈ l, (t'.allProcesses p).parent = (t.allProcesses p).parent := by
    intro p hp
    rw [hsame.parent]
    rcases eq_or_ne p t.currentProc with rfl | hpcur
    · rw [forked_parent hne]
    · rw [forked_of_ne (hold p hp) hpcur]
  have hcreator : ∀ p ∈ l, Function.update creator child
      (some (t.allProcesses t.currentProc).pid) p = creator p :=
    fun p hp => Function.update_of_ne (hold p hp) _ _
  refine ⟨?_, ?_, ?_, ?_, ?_, ?_⟩
  · rw [hsame.availPid]
    show int32 (t.availPid + 1) = _
    rw [havail]
    rfl
  · intro p hp
    rcases List.mem_append.1 hp with hp | hp
    · have hrange := h.pid_range p hp
      rw [hpid p hp]
      omega
    · rw [List.mem_singleton.1 hp, hnew]
      omega
  · intro p hp q hq hpq
    rcases List.mem_append.1 hp with hp | hp <;> rcases List.mem_append.1 hq with hq | hq
    · rw [hpid p hp, hpid q hq] at hpq
      exact h.pids p hp q hq hpq
    · have hrange := h.pid_range p hp
      rw [hpid p hp, List.mem_singleton.1 hq, hnew] at hpq
      omega
    · have hrange := h.pid_range q hq
      rw [hpid q hq, List.mem_singleton.1 hp, hnew] at hpq
      omega
    · rw [List.mem_singleton.1 hp, List.mem_singleton.1 hq]
  · intro p hp k hk
    rcases List.mem_append.1 hp with hp | hp
    · rw [hcreator p hp] at hk
      rw [hpid p hp]
      exact h.creator_lt p hp k hk
    · rw [List.mem_singleton.1 hp, Function.update_self] at hk
      cases hk
      rw [List.mem_singleton.1 hp, hnew]
      exact (h.pid_range _ hcur).2
  · intro p hp q hq hmade
    rcases List.mem_append.1 hp with hp | hp
    · rw [hcreator p hp] at hmade
      rcases List.mem_append.1 hq with hq | hq
      · rw [hpid q hq] at hmade
        rw [hparent p hp]
        exact h.parent_of p hp q hq hmade
      · -- the new pid has not made anyone yet
        rw [List.mem_singleton.1 hq, hnew] at hmade
        have hlt := h.creator_lt p hp _ hmade
        have hrange := h.pid_range p hp
        omega
    · have hpchild := List.mem_singleton.1 hp
      subst hpchild
      rw [Function.update_self] at hmade
      have hpids := Option.some.inj hmade
      rw [hsame.parent, forked_child hne]
      rcases List.mem_append.1 hq with hq | hq
      · rw [hpid q hq] at hpids
        rw [h.pids _ hcur q hq hpids]
      · have hrange := h.pid_range _ hcur
        rw [List.mem_singleton.1 hq, hnew] at hpids
        omega
  · intro q hq pid proc hresume
    rcases List.mem_append.1 hq with hq | hq
    · have hresume' : (t.allProcesses q).resume = .waitpid pid proc := by
        rw [hsame.resume] at hresume
        rcases eq_or_ne q t.currentProc with rfl | hqcur
        · rw [forked_parent hne] at hresume
          cases hresume
        · rw [forked_of_ne (hold q hq) hqcur] at hresume
          exact hresume
      obtain ⟨hproc, hmade, hpid'⟩ := h.waiting q hq pid proc hresume'
      rw [hcreator proc hproc, hpid q hq, hpid proc hproc]
      exact ⟨List.mem_append_left _ hproc, hmade, hpid'⟩
    · rw [List.mem_singleton.1 hq, hsame.resume, forked_child hne] at hresume
      cases hresume

/-- The running process destroys a child of its own. -/
theorem FamilyInv.reap (h : FamilyInv n t creator l) (hcur : t.currentProc ∈ l)
    (hproc : creator proc = some (t.allProcesses t.currentProc).pid)
    (hsame : SameProcesses (t.reap proc) t') : FamilyInv n t' creator (l.erase proc) := by
  have hpid : ∀ p, (t'.allProcesses p).pid = (t.allProcesses p).pid := by
    intro p
    rw [hsame.pid, reap_field Process.pid (fun _ _ => rfl)]
    exact (setResume_families t .user).pid p
  have hparent : ∀ p, (t'.allProcesses p).parent = (t.allProcesses p).parent := by
    intro p
    rw [hsame.parent, reap_field Process.parent (fun _ _ => rfl)]
    exact (setResume_families t .user).parent p
  have hsub : ∀ {p}, p ∈ l.erase proc → p ∈ l := fun hp => List.mem_of_mem_erase hp
  refine ⟨hsame.availPid.trans h.availPid, ?_, ?_, ?_, ?_, ?_⟩
  · intro p hp
    rw [hpid]
    exact h.pid_range p (hsub hp)
  · intro p hp q hq hpq
    rw [hpid, hpid] at hpq
    exact h.pids p (hsub hp) q (hsub hq) hpq
  · intro p hp k hk
    rw [hpid]
    exact h.creator_lt p (hsub hp) k hk
  · intro p hp q hq hmade
    rw [hpid] at hmade
    rw [hparent]
    exact h.parent_of p (hsub hp) q (hsub hq) hmade
  · intro q hq pid c hresume
    rw [hsame.resume, reap_field Process.resume (fun _ _ => rfl), setResume_resume] at hresume
    split at hresume
    · cases hresume
    · rename_i hqcur
      obtain ⟨hc, hmade, hpid'⟩ := h.waiting q (hsub hq) pid c hresume
      rw [hpid, hpid]
      refine ⟨(List.mem_erase_of_ne ?_).2 hc, hmade, hpid'⟩
      -- only its parent waits for a process
      rintro rfl
      rw [hproc] at hmade
      exact hqcur (h.pids _ hcur q (hsub hq) (Option.some.inj hmade)).symm

theorem startUserspace_familyInv (stack text : Nat) (image : Image) :
    FamilyInv 2 (startUserspace stack text image) (fun _ => none) [0, 1] where
  availPid := rfl
  pid_range := by
    intro p hp
    rcases List.mem_cons.1 hp with rfl | hp
    · exact ⟨Int.le_refl 0, (by decide : (0 : Int) < 2)⟩
    · rw [List.mem_singleton.1 hp]
      exact ⟨Int.zero_le_ofNat 1, (by decide : (1 : Int) < 2)⟩
  pids := by
    intro p hp q hq hpq
    rcases List.mem_cons.1 hp with rfl | hp <;> rcases List.mem_cons.1 hq with rfl | hq
    · rfl
    · rw [List.mem_singleton.1 hq] at hpq
      exact absurd (show (0 : Int) = 1 from hpq) (by decide)
    · rw [List.mem_singleton.1 hp] at hpq
      exact absurd (show (1 : Int) = 0 from hpq) (by decide)
    · rw [List.mem_singleton.1 hp, List.mem_singleton.1 hq]
  creator_lt := fun _ _ _ h => by cases h
  parent_of := fun _ _ _ _ h => by cases h
  waiting := by
    intro q hq pid proc hresume
    rcases List.mem_cons.1 hq with rfl | hq
    · cases hresume
    · rw [List.mem_singleton.1 hq] at hresume
      cases hresume

/-! ## The contract -/

theorem firstChild_eq (h : MachineInv idle t l) :
    t.firstChild = l.find? fun p =>
      p ≠ t.currentProc ∧ (t.allProcesses p).parent = some t.currentProc := by
  rw [firstChild, processes_eq h.listed.linked]

/-- The parent pointer of a child leads to the running process. -/
theorem IsChild.parent (h : IsChild t creator p) (hinv : MachineInv idle t l)
    (hfamily : FamilyInv n t creator l) :
    p ∈ l ∧ p ≠ t.currentProc ∧ (t.allProcesses p).parent = some t.currentProc := by
  have hp : p ∈ l := (hinv.valid_iff p).1 h.1
  refine ⟨hp, ?_, hfamily.parent_of p hp _ hinv.running h.2⟩
  rintro rfl
  exact Int.lt_irrefl _ (hfamily.creator_lt _ hp _ h.2)

/-- What `waitpid` picks is one of the children it is called for. -/
theorem Target.candidate {pid options : Int} (h : Target t l pid proc) (hinv : MachineInv idle t l)
    (hfamily : FamilyInv n t creator l)
    (hcond : WaitsForOwnChild (t, creator) (.waitpid pid options)) :
    Candidate t creator pid proc := by
  rcases h with ⟨hpid, hfound⟩ | ⟨hpid, hfound⟩
  · rw [← firstChild_eq hinv] at hfound
    exact ⟨(hcond.1 hpid proc hfound).1, Or.inl hpid⟩
  · obtain ⟨p, hp, rfl⟩ := hcond.2 hpid
    have hmem := List.mem_of_find?_eq_some hfound
    have heq : (t.allProcesses proc).pid = (t.allProcesses p).pid := by
      simpa using List.find?_some hfound
    -- pids are not given twice
    have hproc : proc = p := hfamily.pids proc hmem p ((hinv.valid_iff p).1 hp.1) heq
    rw [hproc]
    exact ⟨hp, Or.inr rfl⟩

/-- Without a target there is no child to answer for. -/
theorem NoTarget.not_candidate {pid e : Int} (h : NoTarget t l pid e) (hinv : MachineInv idle t l)
    (hfamily : FamilyInv n t creator l) (p : ProcId) : ¬Candidate t creator pid p := by
  rintro ⟨hchild, hpid⟩
  obtain ⟨hp, hcur, hparent⟩ := hchild.parent hinv hfamily
  rcases h with ⟨-, -, hno⟩ | ⟨hneg, hne, -⟩
  · exact hno p hp hcur hparent
  · rcases hpid with hpid | hpid
    · exact hne hpid
    · have hrange := (hfamily.pid_range p hp).1
      rw [hpid] at hrange
      exact Int.not_lt.2 hrange hneg

/-- A step that is not part of `waitpid` and destroys nobody. -/
theorem WaitContract.of_other (hop : ∀ pid options, op ≠ .waitpid pid options)
    (hresume : op = .resume → ∀ pid proc,
      (t.allProcesses t.currentProc).resume ≠ .waitpid pid proc)
    (hvalid : ∀ p, (t.allProcesses p).valid = true → (t'.allProcesses p).valid = true) :
    WaitContract t creator op r t' where
  own := fun pid options _ h => absurd h (hop pid options)
  noChild := fun options h => absurd h (hop (-1) options)
  stranger := fun pid options h => absurd h (hop pid options)
  noHang := fun pid h => absurd h (hop pid wnohang)
  blocks := fun pid options h => absurd h (hop pid options)
  goesOn := fun pid proc hop' h => absurd h (hresume hop' pid proc)
  destroyed := by
    intro p hp hp'
    rw [hvalid p hp] at hp'
    cases hp'

/-- A step in which the same processes stay in use. -/
theorem WaitContract.of_families (hop : ∀ pid options, op ≠ .waitpid pid options)
    (hresume : op = .resume → ∀ pid proc,
      (t.allProcesses t.currentProc).resume ≠ .waitpid pid proc)
    (hfamilies : SameFamilies t t') : WaitContract t creator op r t' :=
  of_other hop hresume fun p hp => (hfamilies.valid p).trans hp

/-- Without a target nothing is picked. -/
theorem NoTarget.not_target {pid e : Int} (h : NoTarget t l pid e) (proc : ProcId) :
    ¬Target t l pid proc := by
  rintro (⟨hpid, hfound⟩ | ⟨hpid, -⟩)
  · rcases h with ⟨-, -, hno⟩ | ⟨-, hne, -⟩
    · have hmem := List.mem_of_find?_eq_some hfound
      have hprops := List.find?_some hfound
      simp only [decide_eq_true_eq] at hprops
      exact hno proc hmem hprops.1 hprops.2
    · exact hne hpid
  · rcases h with ⟨hpid', -, -⟩ | ⟨hneg, -, -⟩
    · rw [hpid'] at hpid
      exact absurd hpid (by decide)
    · exact Int.not_lt.2 hpid hneg

/-- An error of `waitpid`. -/
theorem NoTarget.waitContract {pid options e : Int} (h : NoTarget t l pid e)
    (hinv : MachineInv idle t l) (hfamily : FamilyInv n t creator l) :
    WaitContract t creator (.waitpid pid options) (.returned e) t where
  own := by
    rintro _ _ proc hop htarget
    cases hop
    rw [processes_eq hinv.listed.linked] at htarget
    exact absurd htarget (h.not_target proc)
  noChild := by
    rintro _ hop
    cases hop
    refine iff_of_true ?_ fun p hp => h.not_candidate hinv hfamily p ⟨hp, Or.inl rfl⟩
    rcases h with ⟨-, rfl, -⟩ | ⟨-, hne, -⟩
    · rfl
    · exact absurd rfl hne
  stranger := by
    rintro _ _ hop hpid -
    cases hop
    rcases h with ⟨hpid', -, -⟩ | ⟨-, -, rfl⟩
    · exact absurd hpid' hpid
    · exact ⟨-enodev, by decide, rfl, rfl⟩
  noHang := by
    rintro _ hop ⟨p, hp⟩
    cases hop
    exact absurd hp (h.not_candidate hinv hfamily p)
  blocks := by
    rintro _ _ hop - ⟨p, hp⟩
    cases hop
    exact absurd hp (h.not_candidate hinv hfamily p)
  goesOn := fun _ _ hop => by cases hop
  destroyed := by
    intro p hp hp'
    rw [hp] at hp'
    cases hp'

/-- The caller reaps a child that has exited. -/
theorem reaps_reap (hstatus : t.status proc = .exited) (hsame : SameProcesses (t.reap proc) t') :
    Reaps t (.reaped (t.allProcesses proc).pid (t.allProcesses proc).exitValue) t' proc := by
  refine ⟨hstatus, rfl, ?_, ?_⟩
  · rw [hsame.valid, reap_valid, if_pos rfl]
  · intro q hq
    rw [hsame.valid, reap_valid, if_neg hq]

theorem Reaps.destroyed (h : Reaps t r t' proc) (hchild : IsChild t creator proc)
    (hp : (t.allProcesses p).valid = true) (hp' : (t'.allProcesses p).valid = false) :
    IsChild t creator p ∧ Reaps t r t' p := by
  rcases eq_or_ne p proc with rfl | hne
  · exact ⟨hchild, h⟩
  · rw [h.2.2.2 p hne, hp] at hp'
    cases hp'

/-- A call of `waitpid` that has picked a child. -/
theorem Candidate.waitContract {pid options : Int} (h : Candidate t creator pid proc)
    (hinv : MachineInv idle t l) (htarget : Target t l pid proc)
    (hreply : r ≠ .returned (-echild))
    (hnoHang : options = wnohang → Reaps t r t' proc ∨
      ((∀ p, Candidate t creator pid p → t.status p ≠ .exited) ∧ r = .returned 0))
    (hblocks : options ≠ wnohang → r = .suspended ∨ Reaps t r t' proc)
    (hvalid : Reaps t r t' proc ∨
      ∀ p, (t'.allProcesses p).valid = (t.allProcesses p).valid) :
    WaitContract t creator (.waitpid pid options) r t' where
  own := by
    rintro _ _ proc' hop htarget'
    cases hop
    rw [processes_eq hinv.listed.linked] at htarget'
    have heq : proc' = proc := by
      rcases htarget with ⟨rfl, hfound⟩ | ⟨hpid, hfound⟩
      · rcases htarget' with ⟨-, hfound'⟩ | ⟨hpid', -⟩
        · exact Option.some.inj (hfound'.symm.trans hfound)
        · exact absurd hpid' (by decide)
      · rcases htarget' with ⟨rfl, -⟩ | ⟨-, hfound'⟩
        · exact absurd hpid (by decide)
        · exact Option.some.inj (hfound'.symm.trans hfound)
    rw [heq]
    exact h.1
  noChild := by
    rintro _ hop
    cases hop
    exact iff_of_false hreply fun hno => hno proc h.1
  stranger := by
    rintro _ _ hop _ hno
    cases hop
    exact absurd h (hno proc)
  noHang := by
    rintro _ hop -
    cases hop
    exact (hnoHang rfl).imp_left fun hreaps => ⟨proc, h, hreaps⟩
  blocks := by
    rintro _ _ hop hoptions -
    cases hop
    exact (hblocks hoptions).imp_right fun hreaps => ⟨proc, h, hreaps⟩
  goesOn := fun _ _ hop => by cases hop
  destroyed := by
    intro p hp hp'
    rcases hvalid with hreaps | hsame
    · exact hreaps.destroyed h.1 hp hp'
    · rw [hsame, hp] at hp'
      cases hp'

/-- A call of `waitpid` that goes on after the caller has slept. -/
theorem Candidate.waitContract_resume {pid : Int} {c : ProcId} (h : Candidate t creator pid proc)
    (hresume : (t.allProcesses t.currentProc).resume = .waitpid pid c)
    (hreply : (r = .suspended ∧ ∀ p, (t'.allProcesses p).valid = (t.allProcesses p).valid) ∨
      Reaps t r t' proc) : WaitContract t creator .resume r t' where
  own := fun _ _ _ hop => by cases hop
  noChild := fun _ hop => by cases hop
  stranger := fun _ _ hop => by cases hop
  noHang := fun _ hop => by cases hop
  blocks := fun _ _ hop => by cases hop
  goesOn := by
    intro pid' c' _ hresume'
    rw [hresume] at hresume'
    cases hresume'
    rcases hreply with ⟨hsuspended, -⟩ | hreaps
    · exact Or.inl hsuspended
    · exact Or.inr ⟨proc, h, hreaps⟩
  destroyed := by
    intro p hp hp'
    rcases hreply with ⟨-, hsame⟩ | hreaps
    · rw [hsame, hp] at hp'
      cases hp'
    · exact hreaps.destroyed h.1 hp hp'

/-- Each step that meets the condition keeps the contract and the families in order. -/
theorem step_waitContract (h : MachineInv idle t l) (hfamily : FamilyInv n t creator l)
    (hn : n ≤ 2147483648) (hcond : WaitsForOwnChild (t, creator) op)
    (hok : t.step op = .ok (r, t')) :
    WaitContract t creator op r t' ∧ ∃ l' m, MachineInv idle t' l' ∧
      FamilyInv m t' (noteCreator t op creator) l' ∧ m ≤ 2147483648 := by
  obtain ⟨l', hinv', heffect⟩ := step_cases h hok
  obtain ⟨henabled, -⟩ := step_enabled hok
  cases heffect with
  | vforkFull hfull =>
      have hnote : noteCreator t .vfork creator = creator := by
        rw [noteCreator, hfull]
      rw [hnote]
      exact ⟨WaitContract.of_other (fun _ _ h => by cases h) (fun h => by cases h) fun _ hp => hp,
        l, n, h, hfamily, hn⟩
  | @vfork child t' hfree hchild hsame =>
      have hnote : noteCreator t .vfork creator =
          Function.update creator child (some (t.allProcesses t.currentProc).pid) := by
        rw [noteCreator, hfree]
      rw [hnote]
      have hn' : n < 2147483648 := by
        -- the pid after the last one is negative
        refine Nat.lt_of_le_of_ne hn ?_
        rintro rfl
        have havail : 0 ≤ t.availPid := hcond
        rw [hfamily.availPid] at havail
        exact absurd havail (by decide)
      refine ⟨WaitContract.of_other (fun _ _ h => by cases h) (fun h => by cases h) ?_,
        l ++ [child], n + 1, hinv', hfamily.forked hn' h.running hchild hsame, hn'⟩
      intro p hp
      exact (hinv'.valid_iff p).2 (List.mem_append_left _ ((h.valid_iff p).1 hp))
  | @execve image parent t' hparent hsame =>
      have hfamilies := (execved_families t image parent).trans hsame.families
      refine ⟨WaitContract.of_families (fun _ _ h => by cases h) (fun h => by cases h) hfamilies,
        l, n, hinv', hfamily.of_families hfamilies ?_, hn⟩
      intro q _ pid proc hresume
      rw [hsame.resume, execved_resume] at hresume
      exact Or.inl hresume
  | @exit status t' hsame =>
      have hfamilies := (exited_families t status).trans hsame.families
      refine ⟨WaitContract.of_families (fun _ _ h => by cases h) (fun h => by cases h) hfamilies,
        l, n, hinv', hfamily.of_families hfamilies ?_, hn⟩
      intro q _ pid proc hresume
      rw [hsame.resume, exited_resume] at hresume
      exact Or.inl hresume
  | sleep hsame =>
      exact ⟨WaitContract.of_families (fun _ _ h => by cases h) (fun h => by cases h)
        ((sleepIn_families t .user).trans hsame.families), l, n, hinv',
        hfamily.sleepIn (fun _ _ h => by cases h) hsame, hn⟩
  | @wake queue =>
      refine ⟨WaitContract.of_families (fun _ _ h => by cases h) (fun h => by cases h)
        (waitQueueWake_families t queue), l, n, hinv',
        hfamily.of_families (waitQueueWake_families t queue) ?_, hn⟩
      intro q _ pid proc hresume
      rw [waitQueueWake_field Process.resume (fun _ _ _ => rfl)] at hresume
      exact Or.inl hresume
  | schedule hsame =>
      refine ⟨WaitContract.of_families (fun _ _ h => by cases h) (fun h => by cases h)
        hsame.families, l, n, hinv', hfamily.of_families hsame.families ?_, hn⟩
      intro q _ pid proc hresume
      rw [hsame.resume] at hresume
      exact Or.inl hresume
  | waitpidFails htarget =>
      exact ⟨htarget.waitContract h hfamily, l, n, h, hfamily, hn⟩
  | @waitpidRuns pid proc htarget hstatus =>
      have hproc := htarget.candidate h hfamily hcond
      refine ⟨hproc.waitContract h htarget (by decide) (fun _ => Or.inr ⟨?_, rfl⟩)
        (fun hne => absurd rfl hne) (Or.inr fun _ => rfl), l, n, h, hfamily, hn⟩
      rcases htarget with ⟨rfl, hfound⟩ | ⟨hpid, hfound⟩
      · rw [← firstChild_eq h] at hfound
        have hfirst := (hcond.1 rfl proc hfound).2
        rw [if_pos rfl] at hfirst
        intro p hp
        exact hfirst.resolve_left hstatus p hp.1
      · -- the one child with this pid has not exited
        rintro p ⟨hp, hpid'⟩
        have hmem := (h.valid_iff p).1 hp.1
        have hpids : (t.allProcesses p).pid = (t.allProcesses proc).pid := by
          rcases hpid' with rfl | hpid'
          · exact absurd hpid (by decide)
          · rcases hproc.2 with rfl | hproc'
            · exact absurd hpid (by decide)
            · rw [hpid', hproc']
        rw [hfamily.pids p hmem proc ((h.valid_iff proc).1 hproc.1.1) hpids]
        exact hstatus
  | @waitpidSleeps pid options proc t' htarget hoptions hstatus hsame =>
      have hproc := htarget.candidate h hfamily hcond
      have hfamilies := (sleepIn_families t (.waitpid pid proc)).trans hsame.families
      refine ⟨hproc.waitContract h htarget (by decide) (fun heq => absurd heq hoptions)
        (fun _ => Or.inl rfl) (Or.inr hfamilies.valid), l, n, hinv',
        hfamily.sleepIn ?_ hsame, hn⟩
      intro pid' proc' heq
      cases heq
      exact ⟨(h.valid_iff proc).1 hproc.1.1, hproc.1.2, hproc.2⟩
  | @waitpidReaps pid options v proc t' htarget hstatus hvalue hcurrent hsame =>
      have hproc := htarget.candidate h hfamily hcond
      have hpid : v = (t.allProcesses proc).pid := by
        rw [hvalue]
        split
        · rfl
        · rename_i hoptions
          -- a call that waits for any child does not come back
          rcases hproc.2 with rfl | hpid
          · rcases htarget with ⟨-, hfound⟩ | ⟨hpid, -⟩
            · rw [← firstChild_eq h] at hfound
              have hfirst := (hcond.1 rfl proc hfound).2
              rw [if_neg hoptions] at hfirst
              exact absurd hstatus hfirst
            · exact absurd hpid (by decide)
          · exact hpid.symm
      rw [hpid]
      have hreaps := reaps_reap hstatus hsame
      exact ⟨hproc.waitContract h htarget (fun heq => by cases heq) (fun _ => Or.inl hreaps)
        (fun _ => Or.inr hreaps) (Or.inl hreaps), l.erase proc, n, hinv',
        hfamily.reap h.running hproc.1.2 hsame, hn⟩
  | resumeVfork hresume =>
      refine ⟨WaitContract.of_families (fun _ _ h => by cases h) ?_
        (setResume_families t .user), l, n, hinv',
        hfamily.of_families (setResume_families t .user) ?_, hn⟩
      · intro _ pid proc hwaits
        rw [hresume] at hwaits
        cases hwaits
      · intro q _ pid proc hwaits
        rw [setResume_resume] at hwaits
        split at hwaits
        · cases hwaits
        · exact Or.inl hwaits
  | @resumeSleeps pid proc t' hresume hstatus hsame =>
      obtain ⟨hmem, hmade, hpid⟩ := hfamily.waiting _ h.running pid proc hresume
      have hproc : Candidate t creator pid proc := ⟨⟨(h.valid_iff proc).2 hmem, hmade⟩, hpid⟩
      have hfamilies := (sleepIn_families t (.waitpid pid proc)).trans hsame.families
      refine ⟨hproc.waitContract_resume hresume (Or.inl ⟨rfl, hfamilies.valid⟩), l, n, hinv',
        hfamily.sleepIn ?_ hsame, hn⟩
      intro pid' proc' heq
      cases heq
      exact ⟨hmem, hmade, hpid⟩
  | @resumeReaps pid proc t' hresume hstatus hcurrent hsame =>
      obtain ⟨hmem, hmade, hpid⟩ := hfamily.waiting _ h.running pid proc hresume
      have hproc : Candidate t creator pid proc := ⟨⟨(h.valid_iff proc).2 hmem, hmade⟩, hpid⟩
      have hpid' : pid = (t.allProcesses proc).pid := by
        rcases hpid with rfl | hpid
        · exact absurd hstatus (hcond proc hresume)
        · exact hpid.symm
      have hreaps := reaps_reap hstatus hsame
      rw [← hpid'] at hreaps
      exact ⟨hproc.waitContract_resume hresume (Or.inr hreaps), l.erase proc, n, hinv',
        hfamily.reap h.running hmade hsame, hn⟩

end ProcTable

end Vmwos
