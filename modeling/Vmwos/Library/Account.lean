import Mathlib.Logic.Basic

/-!
# Accounts of shared resources

Users hold resources that come from a pool of free ones. An account is in order
when no resource is held in two ways and no held resource is free. The rules say
when a change of the holdings keeps it in order: one new holding of a resource
that was neither held nor free, holdings given up, and resources returned to the
pool once nobody holds them.
-/

set_option autoImplicit false

namespace Library

variable {ι ρ : Type*}

/-- No resource is held twice, and no held resource is free. -/
structure Account (holds : ι → ρ → Prop) (free : ρ → Prop) : Prop where
  exclusive : ∀ i j r, holds i r → holds j r → i = j
  busy : ∀ i r, holds i r → ¬ free r

/-- In nobody's hands: neither held nor free. -/
def Loose (holds : ι → ρ → Prop) (free : ρ → Prop) (r : ρ) : Prop :=
  (∀ i, ¬ holds i r) ∧ ¬ free r

namespace Account

variable {holds holds' : ι → ρ → Prop} {free free' : ρ → Prop}

/-- Holdings given up, and resources returned that nobody holds afterwards. -/
theorem shrink (h : Account holds free) (hsub : ∀ i r, holds' i r → holds i r)
    (hfree : ∀ r, free' r → free r ∨ ∀ i, ¬ holds' i r) : Account holds' free' where
  exclusive i j r hi hj := h.exclusive i j r (hsub i r hi) (hsub j r hj)
  busy i r hi hf := by
    rcases hfree r hf with hf | hf
    · exact h.busy i r (hsub i r hi) hf
    · exact hf i hi

/-- As `shrink`, with one resource in nobody's hands taken up by one user. -/
theorem take (h : Account holds free) {i₀ : ι} {r₀ : ρ} (hloose : Loose holds free r₀)
    (hsub : ∀ i r, holds' i r → holds i r ∨ (i = i₀ ∧ r = r₀))
    (hfree : ∀ r, free' r → free r ∨ ∀ i, ¬ holds' i r) : Account holds' free' where
  exclusive i j r hi hj := by
    rcases hsub i r hi with hi | ⟨rfl, rfl⟩
    · rcases hsub j r hj with hj | ⟨-, rfl⟩
      · exact h.exclusive i j r hi hj
      · exact absurd hi (hloose.1 i)
    · rcases hsub j r hj with hj | ⟨rfl, -⟩
      · exact absurd hj (hloose.1 j)
      · rfl
  busy i r hi hf := by
    rcases hfree r hf with hf | hf
    · rcases hsub i r hi with hi | ⟨-, rfl⟩
      · exact h.busy i r hi hf
      · exact hloose.2 hf
    · exact hf i hi

end Account

end Library
