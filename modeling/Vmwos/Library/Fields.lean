import Mathlib.Data.List.Basic

/-!
# The words of a list

The fields of a list are its maximal nonempty parts without the separator. A list is a run of
separators, or a run of separators, a field and what follows it.
-/

set_option autoImplicit false

namespace Library

section Fields

variable {α : Type*} [DecidableEq α] {sep : α} {w t : List α}

/-- The nonempty parts between separators. -/
def fields (sep : α) (s : List α) : List (List α) := (s.splitOn sep).filter fun w => w ≠ []

@[simp] theorem fields_nil : fields sep [] = [] := by
  rw [fields, List.splitOn_nil]
  rfl

@[simp] theorem fields_sep_cons (s : List α) : fields sep (sep :: s) = fields sep s := by
  have hsplit := List.splitOn_append_cons_self_of_not_mem (List.not_mem_nil (a := sep)) s
  rw [List.nil_append] at hsplit
  rw [fields, hsplit, List.filter_cons_of_neg (by simp), fields]

theorem fields_replicate_append (sep : α) (k : Nat) (s : List α) :
    fields sep (List.replicate k sep ++ s) = fields sep s := by
  induction k with
  | zero => rfl
  | succ k ih => rw [List.replicate_succ, List.cons_append, fields_sep_cons, ih]

/-- A field, at the end or before a separator. -/
theorem fields_append (hne : w ≠ []) (hw : sep ∉ w) (ht : t = [] ∨ ∃ s, t = sep :: s) :
    fields sep (w ++ t) = w :: fields sep t := by
  rcases ht with rfl | ⟨s, rfl⟩
  · rw [List.append_nil, fields, List.splitOn_eq_singleton hw, fields_nil,
      List.filter_cons_of_pos (by simpa using hne), List.filter_nil]
  · rw [fields_sep_cons, fields, List.splitOn_append_cons_self_of_not_mem hw,
      List.filter_cons_of_pos (by simpa using hne), fields]

/-- A list begins with separators; then comes a field, or the end. -/
theorem fields_cases (sep : α) (s : List α) : ∃ k, s = List.replicate k sep ∨
    ∃ w t, s = List.replicate k sep ++ (w ++ t) ∧ w ≠ [] ∧ sep ∉ w ∧
      (t = [] ∨ ∃ s', t = sep :: s') := by
  induction s with
  | nil => exact ⟨0, .inl rfl⟩
  | cons c s ih =>
      by_cases hc : c = sep
      · subst hc
        obtain ⟨k, rfl | ⟨w, t, rfl, hrest⟩⟩ := ih
        · exact ⟨k + 1, .inl rfl⟩
        · exact ⟨k + 1, .inr ⟨w, t, rfl, hrest⟩⟩
      · refine ⟨0, .inr ?_⟩
        by_cases hsep : sep ∈ s
        · obtain ⟨w, s', rfl, hw⟩ := List.eq_append_cons_of_mem hsep
          refine ⟨c :: w, sep :: s', rfl, List.cons_ne_nil c w, ?_, .inr ⟨s', rfl⟩⟩
          rw [List.mem_cons, not_or]
          exact ⟨fun h => hc h.symm, hw⟩
        · refine ⟨c :: s, [], (List.append_nil _).symm, List.cons_ne_nil c s, ?_, .inl rfl⟩
          rw [List.mem_cons, not_or]
          exact ⟨fun h => hc h.symm, hsep⟩

end Fields

end Library
