import Vmwos.Library.Run

/-!
# Interleaved inputs

Some of the inputs of a run are one's own, the others come in between. When the others change
nothing that a relation `R` between two states sees, and one's own are answered alike in
related states, then the run answers one's own inputs as a run of these alone does
(`run_filter`). These are the two conditions under which the others do not interfere.
-/

set_option autoImplicit false

namespace Library

variable {σ ι ρ ε : Type*}

/-- The answers to one's own inputs. -/
def answersTo (mine : ι → Bool) : List ι → List ρ → List ρ
  | i :: is, r :: rs => if mine i then r :: answersTo mine is rs else answersTo mine is rs
  | _, _ => []

section Interleaving

variable {mine : ι → Bool} {i : ι} {is : List ι} {r : ρ} {rs : List ρ}

@[simp] theorem answersTo_nil : answersTo mine ([] : List ι) rs = [] := rfl

theorem answersTo_cons_of_mine (h : mine i = true) :
    answersTo mine (i :: is) (r :: rs) = r :: answersTo mine is rs := if_pos h

theorem answersTo_cons_of_other (h : ¬ mine i = true) :
    answersTo mine (i :: is) (r :: rs) = answersTo mine is rs := if_neg h

variable {step : σ → ι → Except ε (ρ × σ)} {P : σ → ι → Prop} {R : σ → σ → Prop}

/-- One's own inputs are answered in an interleaving as they are alone. The induction is on the
interleaving: an own input is a step of both runs, another one of the first alone. -/
theorem run_filter
    (hmine : ∀ s t i r s', R s t → mine i = true → step s i = .ok (r, s') →
      ∃ t', step t i = .ok (r, t') ∧ R s' t')
    (hother : ∀ s t i r s', R s t → ¬ mine i = true → P s i → step s i = .ok (r, s') → R s' t)
    {s s' t : σ} (hst : R s t) (hP : Along step P s is) (hrun : run step s is = .ok (rs, s')) :
    ∃ t', run step t (is.filter mine) = .ok (answersTo mine is rs, t') ∧ R s' t' := by
  induction is generalizing s t rs with
  | nil =>
      cases hrun
      exact ⟨t, rfl, hst⟩
  | cons i is ih =>
      obtain ⟨r, s₁, rs', hi, hrun', rfl⟩ := run_cons_eq_ok.1 hrun
      have hP' := hP.2 r s₁ hi
      cases hown : mine i with
      | true =>
          obtain ⟨t₁, hti, hst₁⟩ := hmine s t i r s₁ hst hown hi
          obtain ⟨t', hrest, hst'⟩ := ih hst₁ hP' hrun'
          rw [List.filter_cons_of_pos hown, answersTo_cons_of_mine hown]
          exact ⟨t', run_cons_eq_ok.2 ⟨r, t₁, _, hti, hrest, rfl⟩, hst'⟩
      | false =>
          have hother' : ¬ mine i = true := by
            rw [hown]
            exact Bool.false_ne_true
          rw [List.filter_cons_of_neg hother', answersTo_cons_of_other hother']
          exact ih (hother s t i r s₁ hst hother' hP.1 hi) hP' hrun'

end Interleaving

end Library
