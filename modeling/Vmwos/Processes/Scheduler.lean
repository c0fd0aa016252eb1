import Vmwos.Processes.ProcessList
import Vmwos.Processes.Syscalls

/-!
# The scheduler is round robin

On a list that starts with the idle process, `schedule` answers with the first ready process
met in cyclic order behind the running one, and with the idle process when none is ready
(`schedule_eq`). Called as often as there are ready processes, it picks each of them once
(`schedule_roundRobin`).
-/

set_option autoImplicit false

namespace Vmwos

open Library

/-- The elements of a list in cyclic order behind one of them, which comes last. -/
def cyclicAfter {α : Type*} [DecidableEq α] (l : List α) (a : α) : List α :=
  (l.dropWhile fun x => x ≠ a).tail ++ l.takeWhile (fun x => x ≠ a) ++ [a]

theorem cyclicAfter_append {α : Type*} [DecidableEq α] {l₁ l₂ : List α} {a : α} (ha : a ∉ l₁) :
    cyclicAfter (l₁ ++ a :: l₂) a = l₂ ++ l₁ ++ [a] := by
  have hall : ∀ x ∈ l₁, decide (x ≠ a) = true := by
    intro x hx
    apply decide_eq_true
    rintro rfl
    exact ha hx
  have hdrop : (l₁ ++ a :: l₂).dropWhile (fun x => x ≠ a) = a :: l₂ := by
    rw [List.dropWhile_append_of_pos hall]
    simp
  have htake : (l₁ ++ a :: l₂).takeWhile (fun x => x ≠ a) = l₁ := by
    rw [List.takeWhile_append_of_pos hall]
    simp
  rw [cyclicAfter, hdrop, htake, List.tail_cons]

/-- From any element of the order the order goes on cyclically. -/
theorem cyclicAfter_of_cyclicAfter {α : Type*} [DecidableEq α] {l m₁ m₂ : List α} {a b : α}
    (hl : l.Nodup) (ha : a ∈ l) (h : cyclicAfter l a = m₁ ++ b :: m₂) :
    cyclicAfter l b = m₂ ++ m₁ ++ [b] := by
  obtain ⟨l₁, l₂, rfl⟩ := List.append_of_mem ha
  have hnodup := List.nodup_append.1 hl
  have ha₁ : a ∉ l₁ := fun h' => hnodup.2.2 a h' a List.mem_cons_self rfl
  have ha₂ : a ∉ l₂ := (List.nodup_cons.1 hnodup.2.1).1
  have horder : cyclicAfter (l₁ ++ a :: l₂) a = l₂ ++ l₁ ++ [a] := cyclicAfter_append ha₁
  rw [horder, List.append_assoc] at h
  -- `b` lies behind `a`, before it, or is `a`
  rcases List.append_eq_append_iff.1 h with ⟨k, rfl, hk⟩ | ⟨k, hk, hm⟩
  · rcases List.append_eq_append_iff.1 hk with ⟨k', rfl, hk'⟩ | ⟨k', rfl, hk'⟩
    · cases k' with
      | nil =>
          obtain ⟨rfl, rfl⟩ : a = b ∧ [] = m₂ := by simpa using hk'
          simpa using horder
      | cons c k' => simp at hk'
    · cases k' with
      | nil =>
          obtain ⟨rfl, rfl⟩ : b = a ∧ m₂ = [] := by simpa using hk'
          simpa using horder
      | cons c k' =>
          obtain ⟨rfl, rfl⟩ : b = c ∧ m₂ = k' ++ [a] := by simpa using hk'
          have hb : b ∉ k := by
            have hk'' := (List.nodup_append.1 hnodup.1).2.2
            exact fun h' => hk'' b h' b List.mem_cons_self rfl
          have hsplit : k ++ b :: k' ++ a :: l₂ = k ++ b :: (k' ++ a :: l₂) := by simp
          rw [hsplit, cyclicAfter_append hb]
          simp
  · cases k with
    | nil =>
        simp only [List.append_nil] at hk
        subst hk
        cases l₁ with
        | nil =>
            obtain ⟨rfl, rfl⟩ : b = a ∧ m₂ = [] := by simpa using hm
            simpa using horder
        | cons c l₁ =>
            obtain ⟨rfl, rfl⟩ : b = c ∧ m₂ = l₁ ++ [a] := by simpa using hm
            have hhead : cyclicAfter ([] ++ b :: (l₁ ++ a :: l₂)) b = l₁ ++ a :: l₂ ++ [] ++ [b] :=
              cyclicAfter_append (by simp)
            simpa using hhead
    | cons c k =>
        obtain ⟨rfl, rfl⟩ : b = c ∧ m₂ = k ++ (l₁ ++ [a]) := by simpa using hm
        subst hk
        have hb : b ∉ l₁ ++ a :: m₁ := by
          have hsplit : l₁ ++ a :: (m₁ ++ b :: k) = (l₁ ++ a :: m₁) ++ b :: k := by simp
          rw [hsplit] at hl
          exact fun h' => (List.nodup_append.1 hl).2.2 b h' b List.mem_cons_self rfl
        have hsplit : l₁ ++ a :: (m₁ ++ b :: k) = (l₁ ++ a :: m₁) ++ b :: k := by simp
        rw [hsplit, cyclicAfter_append hb]
        simp

theorem cyclicAfter_perm {α : Type*} [DecidableEq α] {l : List α} {a : α} (hl : l.Nodup)
    (ha : a ∈ l) : (cyclicAfter l a).Perm l := by
  obtain ⟨l₁, l₂, rfl⟩ := List.append_of_mem ha
  have ha₁ : a ∉ l₁ := fun h => (List.nodup_append.1 hl).2.2 a h a List.mem_cons_self rfl
  rw [cyclicAfter_append ha₁, List.append_assoc]
  exact List.perm_append_comm.trans (by simp)

namespace ProcTable

variable {t t' : ProcTable} {idle p : ProcId} {rest : List ProcId}

/-- The process the search starts behind: the idle process counts as the first real one. -/
def searchStart (idle : ProcId) (rest : List ProcId) (current : ProcId) : ProcId :=
  if current = idle then rest.headD idle else current

/-- The round-robin choice: the first ready process behind the running one, else the idle
process. -/
def roundRobin (t : ProcTable) (idle : ProcId) (rest : List ProcId) : ProcId :=
  ((cyclicAfter rest (searchStart idle rest t.currentProc)).find? fun p =>
    t.status p = .ready).getD idle

/-! ## The search -/

/-- The successor as the search sees it: behind the last process comes the first real one. -/
def wrapNext (t : ProcTable) (first p : ProcId) : Option ProcId := (t.next p).or (t.next first)

theorem segment_wrapNext {first : ProcId} {start stop : Option ProcId} {l : List ProcId}
    (h : Segment t.next start l stop) (hne : l ≠ []) :
    Segment (t.wrapNext first) start l (stop.or (t.next first)) := by
  induction l generalizing start with
  | nil => exact absurd rfl hne
  | cons a l ih =>
      obtain ⟨rfl, hrest⟩ := h
      refine ⟨rfl, ?_⟩
      cases l with
      | nil =>
          rw [segment_nil] at hrest ⊢
          rw [wrapNext, hrest]
      | cons b l =>
          have hb : t.wrapNext first a = t.next a := by
            rw [wrapNext, hrest.1]
            rfl
          rw [hb]
          exact ih hrest (List.cons_ne_nil b l)

/-- The loop of the search, along the processes between `proc` and where it began. -/
theorem scheduleLoop_eq {first orig proc : ProcId} {m : List ProcId} {stop : Option ProcId}
    {fuel : Nat} (h : Segment (t.wrapNext first) (t.wrapNext first proc) (m ++ [orig]) stop)
    (horig : orig ∉ m) (hfuel : m.length < fuel) :
    t.scheduleLoop first orig fuel proc =
      .ok (((m ++ [orig]).find? fun p => t.status p = .ready).getD first) := by
  induction m generalizing proc fuel with
  | nil =>
      obtain ⟨fuel, rfl⟩ := Nat.exists_eq_succ_of_ne_zero (Nat.ne_of_gt hfuel)
      have hnext : (t.next proc).or (t.next first) = some orig := h.1
      rw [scheduleLoop, hnext]
      by_cases hready : t.status orig = .ready
      · simp [hready]
      · simp [hready]
  | cons q m ih =>
      obtain ⟨fuel, rfl⟩ := Nat.exists_eq_succ_of_ne_zero (Nat.ne_of_gt (Nat.zero_lt_of_lt hfuel))
      obtain ⟨hq, hm⟩ := h
      have hnext : (t.next proc).or (t.next first) = some q := hq
      have hne : q ≠ orig := by
        rintro rfl
        exact horig List.mem_cons_self
      rw [scheduleLoop, hnext, List.cons_append, List.find?_cons]
      simp only
      by_cases hready : t.status q = .ready
      · simp [hready]
      · rw [if_neg hready, if_neg hne, ih hm (fun h' => horig (List.mem_cons_of_mem q h'))
          (Nat.lt_of_succ_lt_succ hfuel)]
        simp [hready]

/-- The search from a process of the list goes through all of them in cyclic order. -/
theorem scheduleLoop_cyclicAfter (h : Segment t.next t.procFirst (idle :: rest) none) {c : ProcId}
    (hc : c ∈ rest) :
    t.scheduleLoop idle c listRounds c =
      .ok (((cyclicAfter rest c).find? fun p => t.status p = .ready).getD idle) := by
  have hnodup := (List.nodup_cons.1 h.nodup).2
  have hlen := length_lt_listRounds h
  obtain ⟨l₁, l₂, rfl⟩ := List.append_of_mem hc
  have hc₁ : c ∉ l₁ := fun h' => (List.nodup_append.1 hnodup).2.2 c h' c List.mem_cons_self rfl
  have hc₂ : c ∉ l₂ := (List.nodup_cons.1 (List.nodup_append.1 hnodup).2.1).1
  obtain ⟨-, hrest⟩ := h
  obtain ⟨middle, h₁, rfl, h₂⟩ := segment_append.1 hrest
  have hfirst : Segment t.next (t.next idle) (l₁ ++ [c]) (t.next c) :=
    segment_append.2 ⟨some c, h₁, rfl, rfl⟩
  have hne : l₁ ++ [c] ≠ [] := by simp
  -- behind `c` up to the end, then from the first real process to `c`
  have hwrap : Segment (t.wrapNext idle) (t.wrapNext idle c) (l₂ ++ (l₁ ++ [c]))
      ((t.next c).or (t.next idle)) := by
    refine segment_append.2 ⟨t.next idle, ?_, segment_wrapNext hfirst hne⟩
    cases l₂ with
    | nil =>
        rw [segment_nil] at h₂
        rw [segment_nil, wrapNext, h₂]
        rfl
    | cons b l₂ =>
        have hb : t.wrapNext idle c = t.next c := by
          rw [wrapNext, h₂.1]
          rfl
        rw [hb]
        exact segment_wrapNext h₂ (List.cons_ne_nil b l₂)
  rw [← List.append_assoc] at hwrap
  rw [cyclicAfter_append hc₁]
  refine scheduleLoop_eq hwrap ?_ ?_
  · intro h'
    rcases List.mem_append.1 h' with h' | h'
    · exact hc₂ h'
    · exact hc₁ h'
  · simp only [List.length_cons, List.length_append] at hlen ⊢
    omega

/-! ## The choice -/

/-- Either `schedule` finds no other process behind the idle one, or it switches, possibly to the
process that is running. -/
theorem schedule_switches (hok : t.schedule = .ok t') :
    (t.procFirst = some t.currentProc ∧ t.next t.currentProc = none ∧ t' = t) ∨
      ∃ q, t' = t.processSwitch q := by
  unfold schedule at hok
  split at hok
  · cases hok
  · rename_i first hfirst
    split at hok
    · rename_i hcur
      subst hcur
      split at hok
      · rename_i hnext
        cases hok
        exact Or.inl ⟨hfirst, hnext, rfl⟩
      · split at hok
        · cases hok
        · cases hok
          exact Or.inr ⟨_, rfl⟩
    · split at hok
      · cases hok
      · cases hok
        exact Or.inr ⟨_, rfl⟩

/-- With a process besides the idle one, `schedule` switches to the round-robin choice. -/
theorem schedule_eq (h : Segment t.next t.procFirst (idle :: rest) none)
    (hcur : t.currentProc ∈ idle :: rest) :
    t.schedule = .ok (if rest = [] then t else t.processSwitch (t.roundRobin idle rest)) := by
  have hfirst : t.procFirst = some idle := h.start_eq
  have hlist : Segment t.next t.procFirst ([] ++ idle :: rest) none := h
  have hnext : t.next idle = rest.head? := hlist.next_eq
  rw [schedule, hfirst]
  simp only
  by_cases hidle : t.currentProc = idle
  · rw [if_pos hidle, hnext]
    cases rest with
    | nil => rfl
    | cons p rest =>
        have hloop := scheduleLoop_cyclicAfter h List.mem_cons_self
        have hstart : searchStart idle (p :: rest) t.currentProc = p := if_pos hidle
        rw [List.head?_cons, if_neg (List.cons_ne_nil p rest), roundRobin, hstart]
        simp only
        rw [hloop]
  · have hmem := (List.mem_cons.1 hcur).resolve_left hidle
    have hne : rest ≠ [] := List.ne_nil_of_mem hmem
    have hstart : searchStart idle rest t.currentProc = t.currentProc := if_neg hidle
    rw [if_neg hidle, if_neg hne, scheduleLoop_cyclicAfter h hmem, roundRobin, hstart]

theorem searchStart_mem (hcur : t.currentProc ∈ idle :: rest) (hne : rest ≠ []) :
    searchStart idle rest t.currentProc ∈ rest := by
  unfold searchStart
  split
  · cases rest with
    | nil => exact absurd rfl hne
    | cons p rest => exact List.mem_cons_self
  · rename_i hidle
    exact (List.mem_cons.1 hcur).resolve_left hidle

/-- The choice is a ready process, or the idle one. -/
theorem roundRobin_spec (hnodup : (idle :: rest).Nodup) (hcur : t.currentProc ∈ idle :: rest)
    (hne : rest ≠ []) :
    (t.roundRobin idle rest = idle ∧ ∀ p ∈ rest, t.status p ≠ .ready) ∨
      (t.roundRobin idle rest ∈ rest ∧ t.status (t.roundRobin idle rest) = .ready) := by
  have hperm := cyclicAfter_perm (List.nodup_cons.1 hnodup).2 (searchStart_mem hcur hne)
  rw [roundRobin]
  cases hfind : (cyclicAfter rest (searchStart idle rest t.currentProc)).find?
      fun p => decide (t.status p = .ready) with
  | none =>
      refine Or.inl ⟨rfl, ?_⟩
      intro p hp
      simpa using List.find?_eq_none.1 hfind p (hperm.mem_iff.2 hp)
  | some p =>
      refine Or.inr ⟨?_, ?_⟩
      · exact hperm.mem_iff.1 (List.mem_of_find?_eq_some hfind)
      · simpa using List.find?_some hfind

/-! ## What scheduling keeps -/

theorem sameLinks_processSwitch (t : ProcTable) (p : ProcId) :
    SameLinks t (t.processSwitch p) := by
  have h₁ : SameLinks t (t.modify t.currentProc fun x =>
      { x with userTime := uint32 (x.userTime + sub32 t.ticksSinceBoot x.lastScheduled) }) :=
    sameLinks_modify rfl rfl
  have h₂ := h₁.trans (sameLinks_modify (p := p)
    (f := fun x => { x with lastScheduled := t.ticksSinceBoot }) rfl rfl)
  exact ⟨h₂.procFirst, h₂.next, h₂.prev⟩

/-- Switching changes the times of two processes and nothing else of any. -/
theorem processSwitch_field {β : Type*} (field : Process → β)
    (hfield : ∀ x : Process, ∀ a b, field { x with userTime := a, lastScheduled := b } = field x)
    (t : ProcTable) (p q : ProcId) :
    field ((t.processSwitch p).allProcesses q) = field (t.allProcesses q) := by
  unfold processSwitch
  rw [show ∀ u : ProcTable, field (({ u with currentProc := p } : ProcTable).allProcesses q) =
    field (u.allProcesses q) from fun _ => rfl]
  rw [modify_field field (hfield _ _ _), modify_field field (hfield _ _ _)]

theorem processSwitch_status (t : ProcTable) (p : ProcId) :
    (t.processSwitch p).status = t.status :=
  funext (processSwitch_field Process.status (fun _ _ _ => rfl) t p)

/-! ## Fairness -/

/-- `n` consecutive calls of `schedule`, with the processes they select. -/
def scheduleTimes (n : Nat) (t : ProcTable) : Except Stuck (List ProcId × ProcTable) :=
  Library.run (fun t (_ : Unit) => t.schedule.map fun t => (t.currentProc, t)) t
    (List.replicate n ())

/-- As many calls as there are ready processes go once through the ready processes in
cyclic order. -/
theorem scheduleTimes_eq (h : Segment t.next t.procFirst (idle :: rest) none)
    (hcur : t.currentProc ∈ idle :: rest) (hne : rest ≠ []) {chosen later : List ProcId}
    (hsplit : (cyclicAfter rest (searchStart idle rest t.currentProc)).filter
      (fun p => t.status p = .ready) = chosen ++ later) :
    ∃ t', scheduleTimes chosen.length t = .ok (chosen, t') := by
  induction chosen generalizing t later with
  | nil => exact ⟨t, rfl⟩
  | cons p chosen ih =>
      have hnodup := h.nodup
      have hrest := (List.nodup_cons.1 hnodup).2
      have hstart := searchStart_mem hcur hne
      -- the first ready process of the order is the one selected
      obtain ⟨m₁, m₂, hm, hm₁, hready, hm₂⟩ := List.filter_eq_cons_iff.1 hsplit
      have hnone : m₁.find? (fun p => decide (t.status p = .ready)) = none :=
        List.find?_eq_none.2 hm₁
      have hchoice : t.roundRobin idle rest = p := by
        rw [roundRobin, hm, List.find?_append, hnone, List.find?_cons, hready]
        rfl
      have hschedule := schedule_eq h hcur
      rw [if_neg hne, hchoice] at hschedule
      have hp : p ∈ rest := by
        rw [← (cyclicAfter_perm hrest hstart).mem_iff, hm]
        exact List.mem_append_right _ List.mem_cons_self
      have hpidle : p ≠ idle := by
        rintro rfl
        exact (List.nodup_cons.1 hnodup).1 hp
      have hnext : searchStart idle rest (t.processSwitch p).currentProc = p := if_neg hpidle
      -- the ready processes behind it follow in the same order
      have hfilter : (cyclicAfter rest (searchStart idle rest (t.processSwitch p).currentProc)).filter
          (fun q => (t.processSwitch p).status q = .ready) = chosen ++ (later ++ [p]) := by
        rw [hnext, cyclicAfter_of_cyclicAfter hrest hstart hm, processSwitch_status]
        rw [List.filter_append, List.filter_append, hm₂,
          List.filter_eq_nil_iff.2 hm₁, List.filter_singleton, hready]
        simp
      obtain ⟨t', ht'⟩ := ih ((sameLinks_processSwitch t p).linked h)
        (List.mem_cons_of_mem idle hp) hfilter
      refine ⟨t', Library.run_cons_eq_ok.2 ⟨p, t.processSwitch p, chosen, ?_, ht', rfl⟩⟩
      rw [hschedule]
      rfl

/-- `schedule` ends, and switches to the first ready process in cyclic order behind the
running one if there is one, and to the idle process exactly if there is none; as many calls
as there are ready processes select each of them once. -/
theorem schedule_roundRobin (h : Segment t.next t.procFirst (idle :: rest) none)
    (hcur : t.currentProc ∈ idle :: rest) :
    (∃ t', t.schedule = .ok t' ∧
      t'.currentProc = ((cyclicAfter rest (searchStart idle rest t.currentProc)).find?
        fun p => t.status p = .ready).getD idle ∧
      (t'.currentProc = idle ↔ ∀ p ∈ rest, t.status p ≠ .ready) ∧
      (t'.currentProc ≠ idle → t'.currentProc ∈ rest ∧ t.status t'.currentProc = .ready)) ∧
    ∃ selected t', scheduleTimes (rest.countP fun p => t.status p = .ready) t =
        .ok (selected, t') ∧
      selected.Perm (rest.filter fun p => t.status p = .ready) := by
  have hnodup := h.nodup
  by_cases hne : rest = []
  · subst hne
    have hidle : t.currentProc = idle := List.mem_singleton.1 hcur
    refine ⟨⟨t, ?_, ?_, ?_, ?_⟩, [], t, rfl, List.Perm.refl _⟩
    · rw [schedule_eq h hcur, if_pos rfl]
    · have hstart : searchStart idle [] t.currentProc = idle := if_pos hidle
      have horder : cyclicAfter [] idle = [idle] := rfl
      rw [hstart, hidle, horder, List.find?_singleton]
      split <;> rfl
    · simp [hidle]
    · intro hno
      exact absurd hidle hno
  · have hspec := roundRobin_spec hnodup hcur hne
    have hschedule := schedule_eq h hcur
    rw [if_neg hne] at hschedule
    have hidle : idle ∉ rest := (List.nodup_cons.1 hnodup).1
    refine ⟨⟨_, hschedule, rfl, ?_, ?_⟩, ?_⟩
    · show t.roundRobin idle rest = idle ↔ _
      constructor
      · intro heq
        rcases hspec with hspec | hspec
        · exact hspec.2
        · rw [heq] at hspec
          exact absurd hspec.1 hidle
      · intro hall
        rcases hspec with hspec | hspec
        · exact hspec.1
        · exact absurd hspec.2 (hall _ hspec.1)
    · show t.roundRobin idle rest ≠ idle → _
      intro hno
      exact hspec.resolve_left fun hspec => hno hspec.1
    · have hperm := (cyclicAfter_perm (List.nodup_cons.1 hnodup).2 (searchStart_mem hcur hne)).filter
        fun p => decide (t.status p = .ready)
      obtain ⟨t', ht'⟩ := scheduleTimes_eq h hcur hne (List.append_nil _).symm
      refine ⟨_, t', ?_, hperm⟩
      rw [List.countP_eq_length_filter, ← hperm.length_eq]
      exact ht'

/-- After booting, init is the one ready process behind the idle one. -/
theorem schedule_roundRobin_booted :
    (∃ t', (startUserspace 0 4096 ⟨[105], 0, 0, 0, 0⟩).schedule = .ok t' ∧
      t'.currentProc = ((cyclicAfter [1] (searchStart 0 [1] 1)).find?
        fun p => (startUserspace 0 4096 ⟨[105], 0, 0, 0, 0⟩).status p = .ready).getD 0 ∧
      (t'.currentProc = 0 ↔
        ∀ p ∈ [1], (startUserspace 0 4096 ⟨[105], 0, 0, 0, 0⟩).status p ≠ .ready) ∧
      (t'.currentProc ≠ 0 → t'.currentProc ∈ [1] ∧
        (startUserspace 0 4096 ⟨[105], 0, 0, 0, 0⟩).status t'.currentProc = .ready)) ∧
    ∃ selected t',
      scheduleTimes ([1].countP fun p =>
        (startUserspace 0 4096 ⟨[105], 0, 0, 0, 0⟩).status p = .ready)
          (startUserspace 0 4096 ⟨[105], 0, 0, 0, 0⟩) = .ok (selected, t') ∧
      selected.Perm ([1].filter fun p =>
        (startUserspace 0 4096 ⟨[105], 0, 0, 0, 0⟩).status p = .ready) :=
  schedule_roundRobin (by decide) (by decide)

end ProcTable

end Vmwos
