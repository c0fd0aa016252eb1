import Mathlib.Logic.Basic

/-!
# Runs of a step function

A system is a step function: from a state and an input to an answer and the next
state, or to an error that ends the run. `run` takes the inputs of a list one after
another. What the steps preserve a run preserves (`run_preserves`); when the steps
preserve it only under a condition on the input and the state before it, the run has
to meet the condition all along (`Along`).
-/

set_option autoImplicit false

namespace Library

variable {σ ι ρ ε : Type*}

/-- The answers to a list of inputs, and the state at the end. -/
def run (step : σ → ι → Except ε (ρ × σ)) : σ → List ι → Except ε (List ρ × σ)
  | s, [] => .ok ([], s)
  | s, i :: is =>
      match step s i with
      | .error e => .error e
      | .ok (r, s) =>
          match run step s is with
          | .error e => .error e
          | .ok (rs, s) => .ok (r :: rs, s)

/-- Every input meets the condition in the state it arrives in. -/
def Along (step : σ → ι → Except ε (ρ × σ)) (P : σ → ι → Prop) : σ → List ι → Prop
  | _, [] => True
  | s, i :: is => P s i ∧ ∀ r s', step s i = .ok (r, s') → Along step P s' is

/-- Every step taken, from a state to the next one, is as `Q` says. -/
def Throughout (step : σ → ι → Except ε (ρ × σ)) (Q : σ → ι → ρ → σ → Prop) : σ → List ι → Prop
  | _, [] => True
  | s, i :: is => ∀ r s', step s i = .ok (r, s') → Q s i r s' ∧ Throughout step Q s' is

variable {step : σ → ι → Except ε (ρ × σ)} {P : σ → ι → Prop}

/-- The condition is followed along the one run there is. -/
instance instDecidableAlong (step : σ → ι → Except ε (ρ × σ)) (P : σ → ι → Prop)
    [∀ s i, Decidable (P s i)] : (s : σ) → (is : List ι) → Decidable (Along step P s is)
  | _, [] => isTrue trivial
  | s, i :: is =>
      match hstep : step s i with
      | .error e =>
          decidable_of_iff (P s i) ⟨fun hP => ⟨hP, fun r s' h => by rw [hstep] at h; cases h⟩,
            fun h => h.1⟩
      | .ok (r, s') =>
          have : Decidable (Along step P s' is) := instDecidableAlong step P s' is
          decidable_of_iff (P s i ∧ Along step P s' is)
            ⟨fun h => ⟨h.1, fun r' s'' h' => by rw [hstep] at h'; cases h'; exact h.2⟩,
              fun h => ⟨h.1, h.2 r s' hstep⟩⟩

theorem map_eq_ok {α β : Type*} {x : Except ε α} {f : α → β} {b : β} :
    x.map f = .ok b ↔ ∃ a, x = .ok a ∧ f a = b := by
  cases x with
  | error e => simp [Except.map]
  | ok a => simp [Except.map]

theorem run_nil (s : σ) : run step s [] = .ok ([], s) := rfl

theorem run_cons_eq_ok {s s' : σ} {i : ι} {is : List ι} {rs : List ρ} :
    run step s (i :: is) = .ok (rs, s') ↔
      ∃ r s₁ rs', step s i = .ok (r, s₁) ∧ run step s₁ is = .ok (rs', s') ∧ rs = r :: rs' := by
  rw [run]
  cases hi : step s i with
  | error e =>
      constructor
      · intro h
        cases h
      · rintro ⟨r, s₁, rs', h, -⟩
        cases h
  | ok q =>
      obtain ⟨r, s₁⟩ := q
      cases hrun : run step s₁ is with
      | error e =>
          simp only [hrun]
          constructor
          · intro h
            cases h
          · rintro ⟨r', s₂, rs', h, hrun', -⟩
            cases h
            rw [hrun] at hrun'
            cases hrun'
      | ok q' =>
          obtain ⟨rs₁, s₂⟩ := q'
          simp only [hrun, Except.ok.injEq, Prod.mk.injEq]
          constructor
          · rintro ⟨rfl, rfl⟩
            exact ⟨r, s₁, rs₁, ⟨rfl, rfl⟩, hrun, rfl⟩
          · rintro ⟨r', s₃, rs', ⟨rfl, rfl⟩, hrun', rfl⟩
            rw [hrun] at hrun'
            simp only [Except.ok.injEq, Prod.mk.injEq] at hrun'
            exact ⟨by rw [hrun'.1], hrun'.2⟩

/-- A run of two lists is a run of the first and, from its end, of the second. -/
theorem run_append_eq_ok {s s' : σ} {is js : List ι} {rs : List ρ} :
    run step s (is ++ js) = .ok (rs, s') ↔
      ∃ rs₁ s₁ rs₂, run step s is = .ok (rs₁, s₁) ∧ run step s₁ js = .ok (rs₂, s') ∧
        rs = rs₁ ++ rs₂ := by
  induction is generalizing s rs with
  | nil =>
      constructor
      · intro h
        exact ⟨[], s, rs, rfl, h, rfl⟩
      · rintro ⟨rs₁, s₁, rs₂, h₁, h₂, rfl⟩
        cases h₁
        exact h₂
  | cons i is ih =>
      rw [List.cons_append, run_cons_eq_ok]
      constructor
      · rintro ⟨r, s₁, rs', hstep, hrun, rfl⟩
        obtain ⟨rs₁, s₂, rs₂, h₁, h₂, rfl⟩ := ih.1 hrun
        exact ⟨r :: rs₁, s₂, rs₂, run_cons_eq_ok.2 ⟨r, s₁, rs₁, hstep, h₁, rfl⟩, h₂, rfl⟩
      · rintro ⟨rs₁, s₂, rs₂, h₁, h₂, rfl⟩
        obtain ⟨r, s₁, rs', hstep, hrun, rfl⟩ := run_cons_eq_ok.1 h₁
        exact ⟨r, s₁, rs' ++ rs₂, hstep, ih.2 ⟨rs', s₂, rs₂, hrun, h₂, rfl⟩, rfl⟩

theorem run_singleton_eq_ok {s s' : σ} {i : ι} {rs : List ρ} :
    run step s [i] = .ok (rs, s') ↔ ∃ r, step s i = .ok (r, s') ∧ rs = [r] := by
  rw [run_cons_eq_ok]
  constructor
  · rintro ⟨r, s₁, rs', hi, hrun, rfl⟩
    cases hrun
    exact ⟨r, hi, rfl⟩
  · rintro ⟨r, hi, rfl⟩
    exact ⟨r, s', [], hi, rfl, rfl⟩

/-- What every step meeting the condition preserves, a run meeting it all along does. -/
theorem run_preserves (Inv : σ → Prop)
    (hstep : ∀ s i r s', Inv s → P s i → step s i = .ok (r, s') → Inv s') {s s' : σ} {is : List ι}
    {rs : List ρ} (hs : Inv s) (hP : Along step P s is) (hrun : run step s is = .ok (rs, s')) :
    Inv s' := by
  induction is generalizing s rs with
  | nil =>
      cases hrun
      exact hs
  | cons i is ih =>
      obtain ⟨r, s₁, rs', hi, hrun', -⟩ := run_cons_eq_ok.1 hrun
      exact ih (hstep s i r s₁ hs hP.1 hi) (hP.2 r s₁ hi) hrun'

/-- Steps that meet the condition are as `Q` says: so is every step of a run. -/
theorem throughout_of_along (Inv : σ → Prop) {Q : σ → ι → ρ → σ → Prop}
    (hstep : ∀ s i r s', Inv s → P s i → step s i = .ok (r, s') → Q s i r s' ∧ Inv s') {s : σ}
    {is : List ι} (hs : Inv s) (hP : Along step P s is) : Throughout step Q s is := by
  induction is generalizing s with
  | nil => trivial
  | cons i is ih =>
      intro r s' hi
      obtain ⟨hQ, hs'⟩ := hstep s i r s' hs hP.1 hi
      exact ⟨hQ, ih hs' (hP.2 r s' hi)⟩

/-- From where a run leads, the steps that follow it are as `Q` says too. -/
theorem throughout_of_run {Q : σ → ι → ρ → σ → Prop} {s s' : σ} {is js : List ι} {rs : List ρ}
    (hrun : run step s is = .ok (rs, s')) (hall : Throughout step Q s (is ++ js)) :
    Throughout step Q s' js := by
  induction is generalizing s rs with
  | nil =>
      cases hrun
      exact hall
  | cons i is ih =>
      obtain ⟨r, s₁, rs', hi, hrun', -⟩ := run_cons_eq_ok.1 hrun
      exact ih hrun' (hall r s₁ hi).2

/-- Steps that meet the condition return: so does the run. -/
theorem run_of_along (Inv : σ → Prop)
    (hstep : ∀ s i, Inv s → P s i → ∃ r s', step s i = .ok (r, s') ∧ Inv s') {s : σ}
    {is : List ι} (hs : Inv s) (hP : Along step P s is) :
    ∃ rs s', run step s is = .ok (rs, s') ∧ Inv s' := by
  induction is generalizing s with
  | nil => exact ⟨[], s, rfl, hs⟩
  | cons i is ih =>
      obtain ⟨r, s₁, hi, hs₁⟩ := hstep s i hs hP.1
      obtain ⟨rs, s', hrun, hs'⟩ := ih hs₁ (hP.2 r s₁ hi)
      exact ⟨r :: rs, s', run_cons_eq_ok.2 ⟨r, s₁, rs, hi, hrun, rfl⟩, hs'⟩

/-- When among steps that meet `R` those that meet `P` are exactly the ones as `Q` says, a run
whose steps all meet `R` meets `P` all along exactly if all its steps are as `Q` says. -/
theorem along_iff_throughout_of_along (Inv : σ → Prop) {R : σ → ι → Prop}
    {Q : σ → ι → ρ → σ → Prop}
    (hiff : ∀ s i r s', Inv s → R s i → step s i = .ok (r, s') → (P s i ↔ Q s i r s'))
    (hkeep : ∀ s i r s', Inv s → R s i → step s i = .ok (r, s') → Q s i r s' → Inv s') {s s' : σ}
    {is : List ι} {rs : List ρ} (hs : Inv s) (hR : Along step R s is)
    (hrun : run step s is = .ok (rs, s')) :
    Along step P s is ↔ Throughout step Q s is := by
  induction is generalizing s rs with
  | nil => exact Iff.rfl
  | cons i is ih =>
      obtain ⟨r, s₁, rs', hi, hrun', -⟩ := run_cons_eq_ok.1 hrun
      have hR₁ := hR.2 r s₁ hi
      constructor
      · intro hP r' s₂ hi'
        rw [hi] at hi'
        cases hi'
        have hQ := (hiff s i r s₁ hs hR.1 hi).1 hP.1
        exact ⟨hQ, (ih (hkeep s i r s₁ hs hR.1 hi hQ) hR₁ hrun').1 (hP.2 r s₁ hi)⟩
      · intro hall
        obtain ⟨hQ, hrest⟩ := hall r s₁ hi
        refine ⟨(hiff s i r s₁ hs hR.1 hi).2 hQ, ?_⟩
        intro r' s₂ hi'
        rw [hi] at hi'
        cases hi'
        exact (ih (hkeep s i r s₁ hs hR.1 hi hQ) hR₁ hrun').2 hrest

/-- A condition that always holds is met all along. -/
theorem along_of_forall {R : σ → ι → Prop} (hR : ∀ s i, R s i) (s : σ) (is : List ι) :
    Along step R s is := by
  induction is generalizing s with
  | nil => trivial
  | cons i is ih => exact ⟨hR s i, fun _ s' _ => ih s'⟩

/-- A condition that follows from another one is met all along where that one is. -/
theorem Along.mono {R : σ → ι → Prop} {s : σ} {is : List ι} (h : Along step P s is)
    (hPR : ∀ s i, P s i → R s i) : Along step R s is := by
  induction is generalizing s with
  | nil => trivial
  | cons i is ih => exact ⟨hPR s i h.1, fun r s' hi => ih (h.2 r s' hi)⟩

/-- When a step meets the condition exactly if it is as `Q` says, a run meets the condition
all along exactly if all its steps are as `Q` says. -/
theorem along_iff_throughout (Inv : σ → Prop) {Q : σ → ι → ρ → σ → Prop}
    (hiff : ∀ s i r s', Inv s → step s i = .ok (r, s') → (P s i ↔ Q s i r s'))
    (hkeep : ∀ s i r s', Inv s → step s i = .ok (r, s') → Q s i r s' → Inv s') {s s' : σ}
    {is : List ι} {rs : List ρ} (hs : Inv s) (hrun : run step s is = .ok (rs, s')) :
    Along step P s is ↔ Throughout step Q s is :=
  along_iff_throughout_of_along (R := fun _ _ => True) Inv
    (fun s i r s' hs _ => hiff s i r s' hs) (fun s i r s' hs _ => hkeep s i r s' hs) hs
    (along_of_forall (fun _ _ => trivial) s is) hrun

/-- When a step returns exactly if it meets the condition, a run returns exactly if it meets the
condition all along. -/
theorem run_returns_iff_along (Inv : σ → Prop)
    (hreturns : ∀ s i, Inv s → (P s i ↔ ∃ r s', step s i = .ok (r, s')))
    (hkeep : ∀ s i r s', Inv s → step s i = .ok (r, s') → Inv s') {s : σ} {is : List ι}
    (hs : Inv s) : (∃ rs s', run step s is = .ok (rs, s')) ↔ Along step P s is := by
  induction is generalizing s with
  | nil => exact ⟨fun _ => trivial, fun _ => ⟨[], s, rfl⟩⟩
  | cons i is ih =>
      constructor
      · rintro ⟨rs, s', hrun⟩
        obtain ⟨r, s₁, rs', hi, hrun', -⟩ := run_cons_eq_ok.1 hrun
        refine ⟨(hreturns s i hs).2 ⟨r, s₁, hi⟩, ?_⟩
        intro r' s₂ hi'
        rw [hi] at hi'
        cases hi'
        exact (ih (hkeep s i r s₁ hs hi)).1 ⟨rs', s', hrun'⟩
      · intro hP
        obtain ⟨r, s₁, hi⟩ := (hreturns s i hs).1 hP.1
        obtain ⟨rs, s', hrun⟩ := (ih (hkeep s i r s₁ hs hi)).2 (hP.2 r s₁ hi)
        exact ⟨r :: rs, s', run_cons_eq_ok.2 ⟨r, s₁, rs, hi, hrun, rfl⟩⟩

/-- When among steps that meet `R`, all of which return, those that meet `P` are exactly the ones as
`Q` says, a run meets `P` all along exactly if all its steps are as `Q` says, and then it returns. -/
theorem along_iff_throughout_of_returns (Inv : σ → Prop) {R : σ → ι → Prop}
    {Q : σ → ι → ρ → σ → Prop}
    (hstep : ∀ s i, Inv s → R s i →
      ∃ r s', step s i = .ok (r, s') ∧ (P s i ↔ Q s i r s') ∧ (P s i → Inv s')) {s : σ}
    {is : List ι} (hs : Inv s) (hR : Along step R s is) :
    (Along step P s is ↔ Throughout step Q s is) ∧
      (Along step P s is → ∃ rs s', run step s is = .ok (rs, s')) := by
  induction is generalizing s with
  | nil => exact ⟨Iff.rfl, fun _ => ⟨[], s, rfl⟩⟩
  | cons i is ih =>
      obtain ⟨r, s₁, hi, hiff, hkeep⟩ := hstep s i hs hR.1
      have hR₁ := hR.2 r s₁ hi
      refine ⟨⟨fun hP => ?_, fun hall => ?_⟩, fun hP => ?_⟩
      · intro r' s₂ hi'
        rw [hi] at hi'
        cases hi'
        exact ⟨hiff.1 hP.1, (ih (hkeep hP.1) hR₁).1.1 (hP.2 r s₁ hi)⟩
      · obtain ⟨hQ, hrest⟩ := hall r s₁ hi
        refine ⟨hiff.2 hQ, ?_⟩
        intro r' s₂ hi'
        rw [hi] at hi'
        cases hi'
        exact (ih (hkeep (hiff.2 hQ)) hR₁).1.2 hrest
      · obtain ⟨rs, s', hrun⟩ := (ih (hkeep hP.1) hR₁).2 (hP.2 r s₁ hi)
        exact ⟨r :: rs, s', run_cons_eq_ok.2 ⟨r, s₁, rs, hi, hrun, rfl⟩⟩

/-- A condition on the inputs alone is met all along a run if every input meets it. -/
theorem along_input {p : ι → Prop} {s s' : σ} {is : List ι} {rs : List ρ}
    (hrun : run step s is = .ok (rs, s')) : Along step (fun _ i => p i) s is ↔ ∀ i ∈ is, p i := by
  induction is generalizing s rs with
  | nil => exact ⟨fun _ i hi => absurd hi List.not_mem_nil, fun _ => trivial⟩
  | cons i is ih =>
      obtain ⟨r, s₁, rs', hi, hrun', -⟩ := run_cons_eq_ok.1 hrun
      rw [List.forall_mem_cons, ← ih hrun']
      constructor
      · intro h
        exact ⟨h.1, h.2 r s₁ hi⟩
      · rintro ⟨hp, h⟩
        refine ⟨hp, ?_⟩
        intro r' s₂ hi'
        rw [hi] at hi'
        cases hi'
        exact h

/-! ## Recording -/

section Recording

variable {η : Type*} {note : σ → ι → η → η}

/-- The same system, which keeps a record of what has happened beside its state. -/
def recording (step : σ → ι → Except ε (ρ × σ)) (note : σ → ι → η → η) :
    σ × η → ι → Except ε (ρ × (σ × η)) := fun s i =>
  match step s.1 i with
  | .error e => .error e
  | .ok (r, s') => .ok (r, s', note s.1 i s.2)

theorem recording_eq_ok {s s' : σ × η} {i : ι} {r : ρ} :
    recording step note s i = .ok (r, s') ↔
      step s.1 i = .ok (r, s'.1) ∧ s'.2 = note s.1 i s.2 := by
  unfold recording
  obtain ⟨s', h'⟩ := s'
  cases step s.1 i with
  | error e =>
      constructor
      · intro h
        cases h
      · rintro ⟨h, -⟩
        cases h
  | ok q =>
      constructor
      · intro h
        cases h
        exact ⟨rfl, rfl⟩
      · rintro ⟨h, rfl⟩
        cases h
        rfl

/-- The record does not influence the run. -/
theorem run_recording {s s' : σ} {h : η} {is : List ι} {rs : List ρ} :
    (∃ h', run (recording step note) (s, h) is = .ok (rs, s', h')) ↔
      run step s is = .ok (rs, s') := by
  induction is generalizing s h rs with
  | nil =>
      constructor
      · rintro ⟨h', hrun⟩
        cases hrun
        rfl
      · intro hrun
        cases hrun
        exact ⟨h, rfl⟩
  | cons i is ih =>
      constructor
      · rintro ⟨h', hrun⟩
        obtain ⟨r, ⟨s₁, h₁⟩, rs', hi, hrun', rfl⟩ := run_cons_eq_ok.1 hrun
        obtain ⟨hi, -⟩ := recording_eq_ok.1 hi
        exact run_cons_eq_ok.2 ⟨r, s₁, rs', hi, ih.1 ⟨h', hrun'⟩, rfl⟩
      · intro hrun
        obtain ⟨r, s₁, rs', hi, hrun', rfl⟩ := run_cons_eq_ok.1 hrun
        obtain ⟨h', hrun'⟩ := (ih (h := note s i h)).2 hrun'
        exact ⟨h', run_cons_eq_ok.2 ⟨r, (s₁, note s i h), rs', recording_eq_ok.2 ⟨hi, rfl⟩,
          hrun', rfl⟩⟩

end Recording

end Library
