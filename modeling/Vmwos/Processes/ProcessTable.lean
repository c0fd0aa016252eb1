import Vmwos.Processes.Scheduler
import Mathlib.Tactic.FinCases

/-!
# The process list and the process table agree

From the idle process on, any sequence of `process_create`, `vfork` by listed processes and
`process_destroy` of listed processes other than the idle one leaves a doubly linked list of
exactly the control blocks in use, with the idle process first and no pid twice
(`run_processListOk`).
-/

set_option autoImplicit false

namespace Vmwos

open Library

/-- A call that changes the process table. -/
inductive TableOp where
  | create
  | vfork (parent : ProcId)
  | destroy (proc : ProcId)
  deriving DecidableEq, Repr

/-- The calls that may take a new control block. -/
def TableOp.creates : TableOp → Bool
  | .create | .vfork _ => true
  | .destroy _ => false

namespace ProcTable

variable {t t' : ProcTable} {l l₁ l₂ : List ProcId} {p q idle : ProcId}

/-- One call; `vfork` is called by the running process. -/
def tableStep (t : ProcTable) : TableOp → Except Stuck (Unit × ProcTable)
  | .create => t.processCreate.map fun r => ((), r.2)
  | .vfork parent => ({ t with currentProc := parent } : ProcTable).vfork.map fun r => ((), r.2)
  | .destroy proc => (t.processDestroy proc).map fun t => ((), t)

/-- The calls that concern listed processes; the idle process is not destroyed. -/
def TableOp.Listed (t : ProcTable) : TableOp → Prop
  | .create => True
  | .vfork parent => parent ∈ t.processes
  | .destroy proc => proc ∈ t.processes ∧ t.procFirst ≠ some proc

instance (t : ProcTable) (op : TableOp) : Decidable (TableOp.Listed t op) := by
  cases op <;> unfold TableOp.Listed <;> infer_instance

/-- The list and the table agree. -/
structure ProcessListOk (t : ProcTable) (idle : ProcId) (l : List ProcId) : Prop where
  visits : Segment t.next t.procFirst l none
  once : l.Nodup
  valid_iff : ∀ p, (t.allProcesses p).valid = true ↔ p ∈ l
  neighbours : ∀ a ∈ l, ∀ b ∈ l, t.next a = some b ↔ t.prev b = some a
  idle_first : l.head? = some idle
  pids : (l.map fun p => (t.allProcesses p).pid).Nodup

/-- The invariant after `n` pids have been given out. -/
structure TableInv (idle : ProcId) (n : Nat) (t : ProcTable) (l : List ProcId) : Prop where
  listed : Listed t l
  valid_iff : ∀ p, (t.allProcesses p).valid = true ↔ p ∈ l
  idle_first : l.head? = some idle
  pids : (l.map fun p => (t.allProcesses p).pid).Nodup
  pid_lt : ∀ p ∈ l, (t.allProcesses p).pid < n
  availPid : t.availPid = int32 n

theorem TableInv.processListOk {n : Nat} (h : TableInv idle n t l) : ProcessListOk t idle l where
  visits := h.listed.linked
  once := h.listed.linked.nodup
  valid_iff := h.valid_iff
  neighbours := fun _ ha _ hb => next_eq_some_iff h.listed.linked h.listed.back ha hb
  idle_first := h.idle_first
  pids := h.pids

/-! ## Creating -/

theorem takeSlot_self : (t.takeSlot p).allProcesses p = t.newProcess := Function.update_self _ _ _

theorem takeSlot_of_ne (h : q ≠ p) : (t.takeSlot p).allProcesses q = t.allProcesses q :=
  Function.update_of_ne h _ _

/-- The control block that `process_create` takes, the first one that is not in use. -/
def freeSlot (t : ProcTable) : Option ProcId :=
  (List.finRange maxProcs).find? fun i => !(t.allProcesses i).valid

theorem not_valid_of_freeSlot (h : t.freeSlot = some p) : (t.allProcesses p).valid = false := by
  simpa using List.find?_some h

/-- A new process takes a free control block and the last place of the list. -/
theorem processCreate_cases (h : Listed t l) (hne : l ≠ [])
    (hvalid : ∀ p, (t.allProcesses p).valid = true ↔ p ∈ l) :
    (t.freeSlot = none ∧ t.processCreate = .ok (none, t)) ∨
      ∃ p t', t.freeSlot = some p ∧ p ∉ l ∧ t.processCreate = .ok (some p, t') ∧
        Listed t' (l ++ [p]) ∧ t'.procFirst = t.procFirst ∧ OnlyLinks (t.takeSlot p) t' := by
  cases hfind : t.freeSlot with
  | none =>
      refine Or.inl ⟨rfl, ?_⟩
      unfold freeSlot at hfind
      rw [processCreate, hfind]
  | some p =>
      refine Or.inr ?_
      have hp : p ∉ l := by
        rw [← hvalid, not_valid_of_freeSlot hfind]
        exact Bool.noConfusion
      unfold freeSlot at hfind
      -- the list does not run through the free control block
      have hlisted : Listed (t.takeSlot p) l := by
        have hne' : ∀ a ∈ l, a ≠ p := by
          rintro a ha rfl
          exact hp ha
        constructor
        · refine h.linked.congr ?_
          intro a ha
          exact congrArg Process.next (takeSlot_of_ne (hne' a ha))
        · refine h.back.congr ?_
          intro a ha
          exact congrArg Process.prev (takeSlot_of_ne (hne' a ha))
      obtain ⟨t', hinsert, hlisted', hfirst, honly⟩ := processInsert_eq hlisted hne hp
      refine ⟨p, t', rfl, hp, ?_, hlisted', hfirst, honly⟩
      rw [processCreate, hfind]
      simp only
      rw [hinsert]

theorem TableInv.processCreate {n : Nat} (h : TableInv idle n t l) (hn : n < 2147483648) :
    t.processCreate = .ok (none, t) ∨
      ∃ p t', p ∉ l ∧ t.processCreate = .ok (some p, t') ∧ TableInv idle (n + 1) t' (l ++ [p]) ∧
        t'.currentProc = t.currentProc ∧ (t'.allProcesses p).pid = n := by
  have hne : l ≠ [] := by
    rintro rfl
    cases h.idle_first
  rcases processCreate_cases h.listed hne h.valid_iff with
    ⟨-, hfull⟩ | ⟨p, t', -, hp, hok, hlisted, -, honly⟩
  · exact Or.inl hfull
  · refine Or.inr ⟨p, t', hp, hok, ?_, honly.1, ?_⟩
    · have hvalid := honly.field Process.valid (fun _ _ _ => rfl)
      have hpid := honly.field Process.pid (fun _ _ _ => rfl)
      have hnew : (t'.allProcesses p).pid = n := by
        rw [hpid, takeSlot_self]
        exact h.availPid.trans (int32_of_lt hn)
      have hold : ∀ q ∈ l, (t'.allProcesses q).pid = (t.allProcesses q).pid := by
        intro q hq
        have hqp : q ≠ p := by
          rintro rfl
          exact hp hq
        rw [hpid, takeSlot_of_ne hqp]
      refine ⟨hlisted, ?_, ?_, ?_, ?_, ?_⟩
      · intro q
        rw [hvalid]
        by_cases hqp : q = p
        · rw [hqp, takeSlot_self]
          simp [newProcess]
        · rw [takeSlot_of_ne hqp, h.valid_iff]
          simp [hqp]
      · rw [List.head?_append_of_ne_nil _ hne]
        exact h.idle_first
      · rw [List.map_append, List.nodup_append]
        refine ⟨?_, List.nodup_singleton _, ?_⟩
        · rw [List.map_congr_left hold]
          exact h.pids
        · intro a ha b hb hab
          obtain ⟨q, hq, rfl⟩ := List.mem_map.1 ha
          rw [List.map_singleton, List.mem_singleton, hnew] at hb
          have hlt := h.pid_lt q hq
          rw [hold q hq, hb] at hab
          omega
      · intro q hq
        rcases List.mem_append.1 hq with hq | hq
        · rw [hold q hq]
          have hlt := h.pid_lt q hq
          omega
        · rw [List.mem_singleton.1 hq, hnew]
          omega
      · rw [honly.2.1]
        show int32 (t.availPid + 1) = int32 ((n + 1 : Nat) : Int)
        rw [h.availPid, int32_of_lt hn]
        rfl
    · rw [honly.field Process.pid (fun _ _ _ => rfl), takeSlot_self]
      exact h.availPid.trans (int32_of_lt hn)

/-! ## Changes that keep the list -/

/-- A change that keeps the links, the marks and the pids keeps the invariant. -/
theorem TableInv.of_same {n : Nat} (h : TableInv idle n t l) (hlinks : SameLinks t t')
    (havail : t'.availPid = t.availPid)
    (hvalid : ∀ p, (t'.allProcesses p).valid = (t.allProcesses p).valid)
    (hpid : ∀ p, (t'.allProcesses p).pid = (t.allProcesses p).pid) : TableInv idle n t' l where
  listed := hlinks.listed h.listed
  valid_iff := fun p => by
    rw [hvalid]
    exact h.valid_iff p
  idle_first := h.idle_first
  pids := by
    simp only [hpid]
    exact h.pids
  pid_lt := fun p hp => by
    rw [hpid]
    exact h.pid_lt p hp
  availPid := havail.trans h.availPid

theorem TableInv.modify {n : Nat} (h : TableInv idle n t l) {f : Process → Process}
    (hnext : (f (t.allProcesses p)).next = (t.allProcesses p).next)
    (hprev : (f (t.allProcesses p)).prev = (t.allProcesses p).prev)
    (hvalid : (f (t.allProcesses p)).valid = (t.allProcesses p).valid)
    (hpid : (f (t.allProcesses p)).pid = (t.allProcesses p).pid) :
    TableInv idle n (t.modify p f) l :=
  h.of_same (sameLinks_modify hnext hprev) rfl (modify_field Process.valid hvalid)
    (modify_field Process.pid hpid)

/-- `schedule` ends, and keeps the list. -/
theorem TableInv.schedule {n : Nat} (h : TableInv idle n t l) (hcur : t.currentProc ∈ l) :
    ∃ t', t.schedule = .ok t' ∧ TableInv idle n t' l := by
  obtain ⟨rest, rfl⟩ := List.head?_eq_some_iff.1 h.idle_first
  refine ⟨_, schedule_eq h.listed.linked hcur, ?_⟩
  split
  · exact h
  · exact h.of_same (sameLinks_processSwitch t _) rfl
      (processSwitch_field Process.valid (fun _ _ _ => rfl) t _)
      (processSwitch_field Process.pid (fun _ _ _ => rfl) t _)

/-! ## The calls -/

/-- The child of `vfork` takes the place in the list that `process_create` gave it. -/
theorem TableInv.vfork {n : Nat} (h : TableInv idle n t l) (hn : n < 2147483648)
    (hcur : t.currentProc ∈ l) :
    ∃ r t' l' m, t.vfork = .ok (r, t') ∧ TableInv idle m t' l' ∧ m ≤ n + 1 := by
  rcases h.processCreate hn with hfull | ⟨child, t₁, hchild, hok, hinv, hcur₁, hpid⟩
  · refine ⟨.returned (-1), t, l, n, ?_, h, Nat.le_succ n⟩
    rw [ProcTable.vfork, hfull]
  · -- the parent is valid, so the copy is
    have hvalid : (t₁.allProcesses t.currentProc).valid = (t₁.allProcesses child).valid := by
      rw [(hinv.valid_iff t.currentProc).2 (List.mem_append_left _ hcur),
        (hinv.valid_iff child).2 (List.mem_append_right _ List.mem_cons_self)]
    have hcopy := hinv.modify (p := child)
      (f := fun new => t₁.childProcess new t.currentProc) rfl rfl hvalid rfl
    have hsleep := hcopy.modify (p := t.currentProc) (f := fun x =>
      { x with status := .sleeping, resume := .vfork child (t₁.allProcesses child).pid })
      rfl rfl rfl rfl
    obtain ⟨t₂, hschedule, hinv₂⟩ := hsleep.schedule (by
      show t₁.currentProc ∈ l ++ [child]
      rw [hcur₁]
      exact List.mem_append_left _ hcur)
    refine ⟨.suspended, t₂, l ++ [child], n + 1, ?_, hinv₂, Nat.le_refl _⟩
    rw [ProcTable.vfork, hok]
    simp only
    rw [forkInto, hschedule]

/-- Destroying a listed process other than the first takes it out of the list. -/
theorem processDestroy_eq (h : Listed t l) (hp : p ∈ l) (hfirst : t.procFirst ≠ some p) :
    ∃ t', t.processDestroy p = .ok t' ∧ Listed t' (l.erase p) ∧ t'.procFirst = t.procFirst ∧
      (l.erase p).head? = l.head? ∧
      OnlyLinks (t.modify p fun x => { x with valid := false }) t' := by
  have hlinks : SameLinks t (t.modify p fun x => { x with valid := false }) :=
    sameLinks_modify rfl rfl
  obtain ⟨l₁, q, l₂, rfl⟩ := exists_before h hp hfirst
  obtain ⟨t', hok, hlisted, hfirst', honly⟩ := processRemove_eq (hlinks.listed h)
  have hsplit : l₁ ++ q :: p :: l₂ = (l₁ ++ [q]) ++ p :: l₂ := by simp
  have hp₁ : p ∉ l₁ ++ [q] := by
    have hnodup := h.linked.nodup
    rw [hsplit] at hnodup
    exact fun hmem => (List.nodup_append.1 hnodup).2.2 p hmem p List.mem_cons_self rfl
  have herase : (l₁ ++ q :: p :: l₂).erase p = l₁ ++ q :: l₂ := by
    rw [hsplit, List.erase_append_right _ hp₁, List.erase_cons_head]
    simp
  rw [herase]
  refine ⟨t', hok, hlisted, hfirst', ?_, honly⟩
  cases l₁ with
  | nil => rfl
  | cons a l₁ => rfl

/-- Destroying a process that is not listed only prints a message. -/
theorem processDestroy_of_notMem (h : Segment t.next t.procFirst l none) (hp : p ∉ l) :
    t.processDestroy p = .ok (t.modify p fun x => { x with valid := false }) := by
  have hlinks : SameLinks t (t.modify p fun x => { x with valid := false }) :=
    sameLinks_modify rfl rfl
  have hnone : l.find? (fun x => decide (x = p)) = none := by
    apply List.find?_eq_none.2
    intro x hx hxp
    exact hp (of_decide_eq_true hxp ▸ hx)
  have hfind := find_eq (hlinks.linked h) fun x => decide (x = p)
  rw [hnone] at hfind
  rw [processDestroy, processRemove, modify_procFirst]
  cases hfirst : t.procFirst with
  | none => rfl
  | some first =>
      have hne : first ≠ p := by
        rintro rfl
        rw [h.start_eq] at hfirst
        exact hp (List.mem_of_mem_head? hfirst)
      simp only
      rw [if_neg hne, hfind]

/-- A process other than the idle one leaves the table and the list. -/
theorem TableInv.processDestroy {n : Nat} (h : TableInv idle n t l) (hp : p ∈ l)
    (hfirst : t.procFirst ≠ some p) :
    ∃ t', t.processDestroy p = .ok t' ∧ TableInv idle n t' (l.erase p) := by
  obtain ⟨t', hok, hlisted, -, hhead, honly⟩ := processDestroy_eq h.listed hp hfirst
  have hpid : ∀ x, (t'.allProcesses x).pid = (t.allProcesses x).pid := by
    intro x
    rw [honly.field Process.pid (fun _ _ _ => rfl)]
    exact modify_field Process.pid rfl x
  refine ⟨t', hok, hlisted, ?_, hhead.trans h.idle_first, ?_, ?_, ?_⟩
  · intro x
    rw [honly.field Process.valid (fun _ _ _ => rfl), h.listed.linked.nodup.mem_erase_iff]
    by_cases hx : x = p
    · rw [hx, modify_self]
      simp
    · rw [modify_of_ne _ hx, h.valid_iff]
      simp [hx]
  · simp only [hpid]
    exact h.pids.sublist (List.erase_sublist.map _)
  · intro x hx
    rw [hpid]
    exact h.pid_lt x (List.mem_of_mem_erase hx)
  · rw [honly.2.1]
    exact h.availPid

/-! ## Runs -/

theorem tableStep_inv {n : Nat} {op : TableOp} (h : TableInv idle n t l)
    (hn : op.creates = true → n < 2147483648) (hop : TableOp.Listed t op) :
    ∃ r t' l' m, t.tableStep op = .ok (r, t') ∧ TableInv idle m t' l' ∧
      m ≤ n + (if op.creates then 1 else 0) := by
  cases op with
  | create =>
      rcases h.processCreate (hn rfl) with hfull | ⟨p, t', -, hok, hinv, -⟩
      · refine ⟨(), t, l, n, ?_, h, Nat.le_succ n⟩
        rw [tableStep, hfull]
        rfl
      · refine ⟨(), t', l ++ [p], n + 1, ?_, hinv, Nat.le_refl _⟩
        rw [tableStep, hok]
        rfl
  | vfork parent =>
      have hinv : TableInv idle n { t with currentProc := parent } l :=
        h.of_same ⟨rfl, rfl, rfl⟩ rfl (fun _ => rfl) (fun _ => rfl)
      obtain ⟨r, t', l', m, hok, hinv', hm⟩ := hinv.vfork (hn rfl) (processes_eq h.listed.linked ▸ hop)
      refine ⟨(), t', l', m, ?_, hinv', hm⟩
      rw [tableStep, hok]
      rfl
  | destroy proc =>
      obtain ⟨t', hok, hinv⟩ := h.processDestroy (processes_eq h.listed.linked ▸ hop.1) hop.2
      refine ⟨(), t', _, n, ?_, hinv, Nat.le_refl n⟩
      rw [tableStep, hok]
      rfl

theorem createIdleTask_inv (stack text : Nat) : TableInv 0 1 (createIdleTask stack text) [0] where
  listed := ⟨⟨rfl, rfl⟩, rfl, trivial⟩
  valid_iff := fun p => by
    fin_cases p
    · exact iff_of_true rfl List.mem_cons_self
    all_goals exact iff_of_false Bool.noConfusion (by decide)
  idle_first := rfl
  pids := List.nodup_singleton _
  pid_lt := fun p hp => by
    rw [List.mem_singleton.1 hp]
    exact Int.zero_lt_one
  availPid := rfl

/-- From the idle process on, the list of the processes is the table's list of valid control
blocks, in every state that fewer than `2^31` creations lead to. -/
theorem run_processListOk (stack text : Nat) {ops : List TableOp}
    (hcount : ops.countP TableOp.creates < 2147483648)
    (hops : Along tableStep TableOp.Listed (createIdleTask stack text) ops) :
    ∃ rs t l, Library.run tableStep (createIdleTask stack text) ops = .ok (rs, t) ∧
      ProcessListOk t 0 l := by
  have key : ∀ (ops : List TableOp) (n : Nat) (t : ProcTable) (l : List ProcId),
      TableInv 0 n t l → n + ops.countP TableOp.creates ≤ 2147483648 →
        Along tableStep TableOp.Listed t ops →
          ∃ rs t' l', Library.run tableStep t ops = .ok (rs, t') ∧ ProcessListOk t' 0 l' := by
    intro ops
    induction ops with
    | nil =>
        intro n t l hinv _ _
        exact ⟨[], t, l, rfl, hinv.processListOk⟩
    | cons op ops ih =>
        intro n t l hinv hn hops
        rw [List.countP_cons] at hn
        obtain ⟨r, t₁, l₁, m, hstep, hinv₁, hm⟩ := tableStep_inv hinv (fun hc => by
          rw [hc] at hn
          simp only [if_true] at hn
          omega) hops.1
        obtain ⟨rs, t', l', hrun, hok⟩ := ih m t₁ l₁ hinv₁ (by omega) (hops.2 r t₁ hstep)
        exact ⟨r :: rs, t', l', run_cons_eq_ok.2 ⟨r, t₁, rs, hstep, hrun, rfl⟩, hok⟩
  exact key ops 1 _ _ (createIdleTask_inv stack text) (by omega) hops

/-- Two processes are created, one of them and its child fork, the first is destroyed, and
its control block is used again. -/
theorem run_processListOk_reuse :
    ∃ rs t l, Library.run tableStep (createIdleTask 0 4096)
        [.create, .vfork 1, .vfork 2, .destroy 1, .create, .vfork 1] = .ok (rs, t) ∧
      ProcessListOk t 0 l :=
  run_processListOk 0 4096 (by decide) (by decide)

end ProcTable

end Vmwos
