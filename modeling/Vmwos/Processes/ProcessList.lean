import Vmwos.Processes.Process
import Mathlib.Data.Fintype.Card
import Mathlib.Data.List.Perm.Basic

/-!
# Inserting into and removing from the process list

The processes listed from `proc_first` on (`Listed`): a null-terminated, doubly linked
list. Inserting puts a process behind the last one, removing takes out any one but the
first, and neither touches anything of the control blocks but their links.
-/

set_option autoImplicit false

namespace Vmwos

open Library

namespace ProcTable

variable {t t' : ProcTable} {l l₁ l₂ : List ProcId} {p q : ProcId}

/-! ## Changing one control block -/

@[simp] theorem modify_self (f : Process → Process) :
    (t.modify p f).allProcesses p = f (t.allProcesses p) :=
  Function.update_self _ _ _

theorem modify_of_ne (f : Process → Process) (h : q ≠ p) :
    (t.modify p f).allProcesses q = t.allProcesses q :=
  Function.update_of_ne h _ _

@[simp] theorem modify_procFirst (f : Process → Process) :
    (t.modify p f).procFirst = t.procFirst := rfl

@[simp] theorem modify_currentProc (f : Process → Process) :
    (t.modify p f).currentProc = t.currentProc := rfl

@[simp] theorem modify_availPid (f : Process → Process) :
    (t.modify p f).availPid = t.availPid := rfl

@[simp] theorem modify_ticksSinceBoot (f : Process → Process) :
    (t.modify p f).ticksSinceBoot = t.ticksSinceBoot := rfl

@[simp] theorem modify_waitQueueFirst (f : Process → Process) :
    (t.modify p f).waitQueueFirst = t.waitQueueFirst := rfl

/-- A field that the change keeps is the same everywhere. -/
theorem modify_field {β : Type*} (field : Process → β) {f : Process → Process}
    (h : field (f (t.allProcesses p)) = field (t.allProcesses p)) (q : ProcId) :
    field ((t.modify p f).allProcesses q) = field (t.allProcesses q) := by
  by_cases hq : q = p
  · rw [hq, modify_self, h]
  · rw [modify_of_ne f hq]

/-- Two changes of one control block are one change. -/
theorem modify_modify (f g : Process → Process) :
    (t.modify p f).modify p g = t.modify p fun x => g (f x) := by
  unfold modify
  simp only [Function.update_self, Function.update_idem]

/-! ## The list -/

/-- The processes of the list, in order. -/
structure Listed (t : ProcTable) (l : List ProcId) : Prop where
  linked : Segment t.next t.procFirst l none
  back : BackLinked t.prev none l

/-- The two tables have the same list of processes. -/
structure SameLinks (t t' : ProcTable) : Prop where
  procFirst : t'.procFirst = t.procFirst
  next : t'.next = t.next
  prev : t'.prev = t.prev

theorem SameLinks.refl (t : ProcTable) : SameLinks t t := ⟨rfl, rfl, rfl⟩

theorem SameLinks.trans {t'' : ProcTable} (h : SameLinks t t') (h' : SameLinks t' t'') :
    SameLinks t t'' where
  procFirst := h'.procFirst.trans h.procFirst
  next := h'.next.trans h.next
  prev := h'.prev.trans h.prev

theorem SameLinks.linked (h : SameLinks t t') (hl : Segment t.next t.procFirst l none) :
    Segment t'.next t'.procFirst l none := by
  rw [h.procFirst, h.next]
  exact hl

theorem SameLinks.listed (h : SameLinks t t') (hl : Listed t l) : Listed t' l where
  linked := h.linked hl.linked
  back := by
    rw [h.prev]
    exact hl.back

/-- A change that keeps the links of a control block. -/
theorem sameLinks_modify {f : Process → Process}
    (hnext : (f (t.allProcesses p)).next = (t.allProcesses p).next)
    (hprev : (f (t.allProcesses p)).prev = (t.allProcesses p).prev) :
    SameLinks t (t.modify p f) where
  procFirst := rfl
  next := funext (modify_field Process.next hnext)
  prev := funext (modify_field Process.prev hprev)

/-- A list of processes is no longer than the table. -/
theorem length_lt_listRounds (h : Segment t.next t.procFirst l none) : l.length < listRounds := by
  have hle := h.nodup.length_le_card
  rw [Fintype.card_fin] at hle
  exact Nat.lt_succ_of_le hle

/-- The processes on the list, read off the table. -/
def processes (t : ProcTable) : List ProcId := nodesFrom t.next listRounds t.procFirst

theorem processes_eq (h : Segment t.next t.procFirst l none) : t.processes = l :=
  nodesFrom_eq h (length_lt_listRounds h)

/-- A search along the list finds what a search of the list finds. -/
theorem find_eq (h : Segment t.next t.procFirst l none) (property : ProcId → Bool) :
    t.find property = .ok (l.find? property) := by
  rw [find, findFrom_eq_find? h (length_lt_listRounds h)]

/-- Only links differ. -/
def OnlyLinks (t t' : ProcTable) : Prop :=
  t'.currentProc = t.currentProc ∧ t'.availPid = t.availPid ∧
    t'.ticksSinceBoot = t.ticksSinceBoot ∧ t'.waitQueueFirst = t.waitQueueFirst ∧
    ∀ q, t'.allProcesses q =
      { t.allProcesses q with next := t'.next q, prev := t'.prev q }

theorem OnlyLinks.refl (t : ProcTable) : OnlyLinks t t :=
  ⟨rfl, rfl, rfl, rfl, fun _ => rfl⟩

theorem OnlyLinks.trans {t'' : ProcTable} (h : OnlyLinks t t') (h' : OnlyLinks t' t'') :
    OnlyLinks t t'' := by
  refine ⟨h'.1.trans h.1, h'.2.1.trans h.2.1, h'.2.2.1.trans h.2.2.1, h'.2.2.2.1.trans h.2.2.2.1, ?_⟩
  intro q
  rw [h'.2.2.2.2 q, h.2.2.2.2 q]

/-- A field other than the links is kept. -/
theorem OnlyLinks.field {β : Type*} (h : OnlyLinks t t') (field : Process → β)
    (hfield : ∀ x : Process, ∀ n m, field { x with next := n, prev := m } = field x) (q : ProcId) :
    field (t'.allProcesses q) = field (t.allProcesses q) := by
  rw [h.2.2.2.2 q, hfield]

theorem onlyLinks_modify {f : Process → Process}
    (h : f (t.allProcesses p) = { t.allProcesses p with
      next := (f (t.allProcesses p)).next, prev := (f (t.allProcesses p)).prev }) :
    OnlyLinks t (t.modify p f) := by
  refine ⟨rfl, rfl, rfl, rfl, ?_⟩
  intro q
  unfold ProcTable.next ProcTable.prev
  by_cases hq : q = p
  · subst hq
    rw [modify_self]
    exact h
  · rw [modify_of_ne f hq]

/-! ## Inserting -/

/-- Inserting into a list puts the process behind the last one. -/
theorem processInsert_eq (h : Listed t l) (hne : l ≠ []) (hp : p ∉ l) :
    ∃ t', t.processInsert p = .ok t' ∧ Listed t' (l ++ [p]) ∧ t'.procFirst = t.procFirst ∧
      OnlyLinks t t' := by
  obtain ⟨l, last, rfl⟩ : ∃ l' last, l = l' ++ [last] := by
    obtain ⟨l', last, hl⟩ := List.eq_nil_or_concat' l |>.resolve_left hne
    exact ⟨l', last, hl⟩
  have hlast : last ≠ p := by
    rintro rfl
    exact hp (List.mem_append_right _ List.mem_cons_self)
  have hlastNext : t.next last = none := h.linked.next_eq
  -- only the last process has no successor
  have hfind : t.find (fun q => (t.next q).isNone) = .ok (some last) := by
    rw [find_eq h.linked]
    congr 1
    rw [List.find?_append]
    have hnone : l.find? (fun q => (t.next q).isNone) = none := by
      apply List.find?_eq_none.2
      intro q hq
      obtain ⟨l₁, l₂, rfl⟩ := List.append_of_mem hq
      have hsplit : (l₁ ++ q :: l₂) ++ [last] = l₁ ++ q :: (l₂ ++ [last]) := by simp
      have hq' := h.linked
      rw [hsplit] at hq'
      rw [hq'.next_eq]
      cases l₂ <;> simp
    rw [hnone]
    simp [hlastNext]
  obtain ⟨first, hfirst⟩ : ∃ first, t.procFirst = some first := by
    have hstart := h.linked.start_eq
    cases hf : t.procFirst with
    | none =>
        rw [hf] at hstart
        cases l <;> cases hstart
    | some first => exact ⟨first, rfl⟩
  refine ⟨(t.modify last fun x => { x with next := some p }).modify p fun x =>
    { x with next := none, prev := some last }, ?_, ⟨?_, ?_⟩, rfl, ?_⟩
  · rw [processInsert, hfirst]
    simp only
    rw [hfind]
  · refine h.linked.concat hp ?_ ?_ ?_
    · unfold ProcTable.next
      rw [modify_of_ne _ hlast, modify_self]
    · unfold ProcTable.next
      rw [modify_self]
    · intro c _ hcp hcl
      unfold ProcTable.next
      rw [modify_of_ne _ hcp, modify_of_ne _ hcl]
  · refine h.back.concat ?_ hp ?_
    · unfold ProcTable.prev
      rw [modify_self]
    · intro c hcp
      unfold ProcTable.prev
      rw [modify_of_ne _ hcp]
      exact modify_field Process.prev rfl c
  · exact (onlyLinks_modify rfl).trans (onlyLinks_modify rfl)

/-! ## Removing -/

/-- The table without the links to `p` behind `q`: the process before gets the successor, the
process behind the predecessor. -/
def unlinked (t : ProcTable) (q p : ProcId) : ProcTable :=
  let before := t.modify q fun x => { x with next := (t.allProcesses p).next }
  match t.next p with
  | none => before
  | some behind => before.modify behind fun x => { x with prev := (t.allProcesses p).prev }

theorem processRemove_of_prev {first : ProcId} (hpq : p ≠ q) (hfirst : t.procFirst = some first)
    (hne : first ≠ p) (hfind : t.find (· = p) = .ok (some p)) (hprev : t.prev p = some q) :
    t.processRemove p = .ok (t.unlinked q p) := by
  have hsame : (t.modify q fun x => { x with next := (t.allProcesses p).next }).next p =
      t.next p := by
    unfold ProcTable.next
    rw [modify_of_ne _ hpq]
  have hsame' : (t.modify q fun x => { x with next := (t.allProcesses p).next }).allProcesses p =
      t.allProcesses p := modify_of_ne _ hpq
  rw [processRemove, hfirst]
  simp only
  rw [if_neg hne, hfind]
  simp only
  rw [hprev]
  cases hnext : t.next p with
  | none => simp only [hsame, hnext, unlinked]
  | some behind => simp only [hsame, hsame', hnext, unlinked]

/-- Removing a process behind `q` from the list. -/
theorem processRemove_eq (h : Listed t (l₁ ++ q :: p :: l₂)) :
    ∃ t', t.processRemove p = .ok t' ∧ Listed t' (l₁ ++ q :: l₂) ∧ t'.procFirst = t.procFirst ∧
      OnlyLinks t t' := by
  have hnodup := h.linked.nodup
  have hba := List.nodup_cons.1 (List.nodup_append.1 hnodup).2.1
  have hapart := (List.nodup_append.1 hnodup).2.2
  have hpq : p ≠ q := by
    rintro rfl
    exact hba.1 List.mem_cons_self
  have hsplit : l₁ ++ q :: p :: l₂ = (l₁ ++ [q]) ++ p :: l₂ := by simp
  have hprev : t.prev p = some q := by
    have hback := h.back
    rw [hsplit] at hback
    rw [hback.prev_eq, List.getLast?_concat]
  have hnext : t.next p = l₂.head? := by
    have hlinked := h.linked
    rw [hsplit] at hlinked
    exact hlinked.next_eq
  obtain ⟨first, hfirst, hne⟩ : ∃ first, t.procFirst = some first ∧ first ≠ p := by
    have hstart := h.linked.start_eq
    cases l₁ with
    | nil => exact ⟨q, hstart, hpq.symm⟩
    | cons a l₁ =>
        refine ⟨a, hstart, ?_⟩
        rintro rfl
        exact hapart a List.mem_cons_self a (List.mem_cons_of_mem q List.mem_cons_self) rfl
  have hfind : t.find (· = p) = .ok (some p) := by
    rw [find_eq h.linked]
    congr 1
    cases hf : (l₁ ++ q :: p :: l₂).find? (fun x => decide (x = p)) with
    | none =>
        have hno := List.find?_eq_none.1 hf p (by simp)
        simp at hno
    | some x =>
        have hx := List.find?_some hf
        rw [of_decide_eq_true hx]
  refine ⟨t.unlinked q p, processRemove_of_prev hpq hfirst hne hfind hprev, ?_⟩
  have hlink : ∀ t'' : ProcTable,
      (∀ c, t''.next c = (t.modify q fun x => { x with next := (t.allProcesses p).next }).next c) →
      t''.procFirst = t.procFirst → Segment t''.next t''.procFirst (l₁ ++ q :: l₂) none := by
    intro t'' hsame hfirst'
    rw [hfirst']
    refine h.linked.remove ?_ ?_
    · rw [hsame]
      unfold ProcTable.next
      rw [modify_self]
    · intro c hcq _
      rw [hsame]
      unfold ProcTable.next
      rw [modify_of_ne _ hcq]
  unfold unlinked
  cases hn : t.next p with
  | none =>
      rw [hn] at hnext
      have hprev' : ∀ c, (t.modify q fun x => { x with next := (t.allProcesses p).next }).prev c =
          t.prev c := modify_field Process.prev rfl
      refine ⟨⟨hlink _ (fun _ => rfl) rfl, h.back.remove hnodup ?_ (fun c _ => hprev' c)⟩, rfl,
        onlyLinks_modify rfl⟩
      intro c hc
      rw [← hnext] at hc
      cases hc
  | some behind =>
      rw [hn] at hnext
      have hprev' : ∀ c, c ≠ behind →
          ((t.modify q fun x => { x with next := (t.allProcesses p).next }).modify behind
            fun x => { x with prev := (t.allProcesses p).prev }).prev c = t.prev c := by
        intro c hc
        unfold ProcTable.prev
        rw [modify_of_ne _ hc]
        exact modify_field Process.prev rfl c
      refine ⟨⟨hlink _ (fun c => ?_) rfl, h.back.remove hnodup ?_ ?_⟩, rfl,
        (onlyLinks_modify rfl).trans (onlyLinks_modify rfl)⟩
      · exact modify_field Process.next rfl c
      · intro c hc
        rw [← hnext] at hc
        cases hc
        unfold ProcTable.prev
        rw [modify_self]
        exact hprev
      · intro c hc
        apply hprev' c
        rintro rfl
        exact hc hnext.symm

/-- Every listed process but the first has one before it. -/
theorem exists_before (h : Listed t l) (hp : p ∈ l) (hfirst : t.procFirst ≠ some p) :
    ∃ l₁ q l₂, l = l₁ ++ q :: p :: l₂ := by
  obtain ⟨l₁, l₂, rfl⟩ := List.append_of_mem hp
  rcases List.eq_nil_or_concat' l₁ with rfl | ⟨l₁, q, rfl⟩
  · exact absurd h.linked.start_eq hfirst
  · exact ⟨l₁, q, l₂, by simp⟩

/-! ## What is not a link -/

section Fields

variable {β : Type*} (field : Process → β)

/-- Changing the links of one control block. -/
theorem modify_links_field (hfield : ∀ (x : Process) next prev,
      field { x with next := next, prev := prev } = field x)
    {f : Process → Process}
    (hf : ∃ next prev, f (t.allProcesses p) = { t.allProcesses p with next := next, prev := prev })
    (c : ProcId) : field ((t.modify p f).allProcesses c) = field (t.allProcesses c) := by
  obtain ⟨next, prev, hf⟩ := hf
  refine modify_field field ?_ c
  rw [hf]
  exact hfield _ _ _

/-- Inserting changes links only, wherever the process goes. -/
theorem processInsert_field (hfield : ∀ (x : Process) next prev,
      field { x with next := next, prev := prev } = field x)
    (hok : t.processInsert p = .ok t') (c : ProcId) :
    field (t'.allProcesses c) = field (t.allProcesses c) := by
  unfold processInsert at hok
  split at hok
  · cases hok
    show field ((t.modify p fun x => { x with next := none, prev := none }).allProcesses c) = _
    exact modify_links_field field hfield ⟨_, _, rfl⟩ c
  · split at hok
    · cases hok
      refine Eq.trans (modify_links_field field hfield ?_ c) (modify_links_field field hfield ?_ c)
      · exact ⟨_, _, rfl⟩
      · exact ⟨_, _, rfl⟩
    · cases hok
    · cases hok

/-- Removing does too. -/
theorem processRemove_field (hfield : ∀ (x : Process) next prev,
      field { x with next := next, prev := prev } = field x)
    (hok : t.processRemove p = .ok t') (c : ProcId) :
    field (t'.allProcesses c) = field (t.allProcesses c) := by
  unfold processRemove at hok
  split at hok
  · cases hok
    rfl
  · split at hok
    · cases hok
      rfl
    · split at hok
      · cases hok
      · cases hok
        rfl
      · split at hok
        · cases hok
        · cases hok
          split
          · refine modify_links_field field hfield ?_ c
            exact ⟨_, _, rfl⟩
          · refine Eq.trans (modify_links_field field hfield ?_ c) (modify_links_field field hfield ?_ c)
            · exact ⟨_, _, rfl⟩
            · exact ⟨_, _, rfl⟩

end Fields

/-- Removing a process leaves the running one and the clock alone. -/
theorem processRemove_rest (hok : t.processRemove p = .ok t') :
    t'.currentProc = t.currentProc ∧ t'.ticksSinceBoot = t.ticksSinceBoot := by
  unfold processRemove at hok
  split at hok
  · cases hok
    exact ⟨rfl, rfl⟩
  · split at hok
    · cases hok
      exact ⟨rfl, rfl⟩
    · split at hok
      · cases hok
      · cases hok
        exact ⟨rfl, rfl⟩
      · split at hok
        · cases hok
        · cases hok
          split
          · exact ⟨rfl, rfl⟩
          · exact ⟨rfl, rfl⟩

end ProcTable

end Vmwos
