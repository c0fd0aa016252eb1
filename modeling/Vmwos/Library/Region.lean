import Mathlib.Data.List.Pairwise
import Mathlib.Data.List.Nodup
import Mathlib.Data.List.Perm.Subperm

/-!
# Regions of memory

A region is a range of addresses. Of regions that are pairwise apart, no two share an address, and a
part of one is apart from all the others.
-/

set_option autoImplicit false

namespace Library

/-- A range of addresses. -/
structure Region where
  start : Nat
  length : Nat
  deriving DecidableEq, Repr

namespace Region

/-- No address is in both regions. -/
def Apart (r r' : Region) : Prop :=
  r.start + r.length ≤ r'.start ∨ r'.start + r'.length ≤ r.start

/-- A region inside another. -/
def Inside (r r' : Region) : Prop :=
  r'.start ≤ r.start ∧ r.start + r.length ≤ r'.start + r'.length

variable {r r' q q' : Region} {regions : List Region}

theorem Apart.symm (h : Apart r r') : Apart r' r := Or.symm h

instance instSymmApart : Std.Symm Apart := ⟨fun _ _ => Apart.symm⟩

instance instDecidableApart (r r' : Region) : Decidable (Apart r r') :=
  inferInstanceAs (Decidable (_ ∨ _))

theorem Apart.inside (h : Apart r r') (hq : q.Inside r) (hq' : q'.Inside r') : Apart q q' := by
  obtain ⟨hlow, hhigh⟩ := hq
  obtain ⟨hlow', hhigh'⟩ := hq'
  exact h.imp (fun hle => Nat.le_trans hhigh (Nat.le_trans hle hlow'))
    fun hle => Nat.le_trans hhigh' (Nat.le_trans hle hlow)

/-- Regions that are apart do not start at the same address. -/
theorem Apart.start_ne (h : Apart r r') (hr : 0 < r.length) (hr' : 0 < r'.length) :
    r.start ≠ r'.start := by
  intro heq
  rcases h with hle | hle
  · rw [heq] at hle
    exact absurd hle (Nat.not_le.2 (Nat.lt_add_of_pos_right hr))
  · rw [heq] at hle
    exact absurd hle (Nat.not_le.2 (Nat.lt_add_of_pos_right hr'))

/-- Regions that can be handed out together: none at the null address, all below the bound, any two
apart. -/
structure Fresh (bound : Nat) (regions : List Region) : Prop where
  start_pos : ∀ r ∈ regions, 0 < r.start
  stop_le : ∀ r ∈ regions, r.start + r.length ≤ bound
  apart : regions.Pairwise Apart

variable {bound : Nat}

instance instDecidableFresh (bound : Nat) (regions : List Region) :
    Decidable (Fresh bound regions) :=
  decidable_of_iff ((∀ r ∈ regions, 0 < r.start) ∧ (∀ r ∈ regions, r.start + r.length ≤ bound) ∧
      regions.Pairwise Apart)
    ⟨fun h => ⟨h.1, h.2.1, h.2.2⟩, fun h => ⟨h.start_pos, h.stop_le, h.apart⟩⟩

theorem Fresh.mono {bound' : Nat} (h : Fresh bound regions) (hle : bound ≤ bound') :
    Fresh bound' regions :=
  ⟨h.start_pos, fun r hr => Nat.le_trans (h.stop_le r hr) hle, h.apart⟩

theorem Fresh.apart_of_ne (h : Fresh bound regions) (hr : r ∈ regions) (hr' : r' ∈ regions)
    (hne : r ≠ r') : Apart r r' := h.apart.forall hr hr' hne

/-- Among fresh regions one is known by its start. -/
theorem Fresh.eq_of_start (h : Fresh bound regions) (hpos : ∀ r ∈ regions, 0 < r.length)
    (hr : r ∈ regions) (hr' : r' ∈ regions) (hstart : r.start = r'.start) : r = r' := by
  by_contra hne
  exact (h.apart_of_ne hr hr' hne).start_ne (hpos r hr) (hpos r' hr') hstart

end Region

/-- There are no more different numbers below a bound than the bound says. -/
theorem length_le_of_nodup {l : List Nat} {bound : Nat} (hl : l.Nodup) (hlt : ∀ a ∈ l, a < bound) :
    l.length ≤ bound := by
  have hsubset : l ⊆ List.range bound := fun a ha => List.mem_range.2 (hlt a ha)
  have hle := (List.subperm_of_subset hl hsubset).length_le
  rwa [List.length_range] at hle

end Library
