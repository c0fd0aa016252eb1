import Mathlib.Data.List.Basic
import Mathlib.Data.List.Nodup
import Mathlib.Logic.Function.Basic

/-!
# Linked lists in a store

A store of nodes is given by the successor of each node (`next`), and for doubly linked
lists by the predecessor (`prev`). `Segment` reads a list off the store; it splits where
lists append (`segment_append`), so a change of one pointer is seen in the segment that holds
it and nowhere else. `findFrom` is the walk that every search along a list makes.
-/

set_option autoImplicit false

namespace Library

variable {α : Type*}

/-- The nodes from `start` to `stop` along `next`, `stop` excluded. -/
def Segment (next : α → Option α) : Option α → List α → Option α → Prop
  | start, [], stop => start = stop
  | start, a :: l, stop => start = some a ∧ Segment next (next a) l stop

/-- The predecessors of the nodes of a list, where `before` precedes the first one. -/
def BackLinked (prev : α → Option α) : Option α → List α → Prop
  | _, [] => True
  | before, a :: l => prev a = before ∧ BackLinked prev (some a) l

instance instDecidableSegment [DecidableEq α] (next : α → Option α) (start stop : Option α) :
    (l : List α) → Decidable (Segment next start l stop)
  | [] => inferInstanceAs (Decidable (start = stop))
  | a :: l =>
      have : Decidable (Segment next (next a) l stop) := instDecidableSegment next (next a) stop l
      inferInstanceAs (Decidable (start = some a ∧ Segment next (next a) l stop))

section Segments

variable {next next' : α → Option α} {start stop : Option α} {l l₁ l₂ : List α} {a b : α}

theorem segment_nil : Segment next start [] stop ↔ start = stop := Iff.rfl

theorem segment_cons :
    Segment next start (a :: l) stop ↔ start = some a ∧ Segment next (next a) l stop := Iff.rfl

theorem segment_singleton : Segment next start [a] stop ↔ start = some a ∧ next a = stop := Iff.rfl

/-- Segments append where the first one stops. -/
theorem segment_append :
    Segment next start (l₁ ++ l₂) stop ↔
      ∃ middle, Segment next start l₁ middle ∧ Segment next middle l₂ stop := by
  induction l₁ generalizing start with
  | nil =>
      constructor
      · intro h
        exact ⟨start, rfl, h⟩
      · rintro ⟨middle, rfl, h⟩
        exact h
  | cons a l₁ ih =>
      rw [List.cons_append, segment_cons, ih]
      constructor
      · rintro ⟨hstart, middle, h₁, h₂⟩
        exact ⟨middle, ⟨hstart, h₁⟩, h₂⟩
      · rintro ⟨middle, ⟨hstart, h₁⟩, h₂⟩
        exact ⟨hstart, middle, h₁, h₂⟩

/-- A segment only reads the pointers of its own nodes. -/
theorem Segment.congr (h : Segment next start l stop) (heq : ∀ a ∈ l, next' a = next a) :
    Segment next' start l stop := by
  induction l generalizing start with
  | nil => exact h
  | cons a l ih =>
      obtain ⟨hstart, hrest⟩ := h
      refine ⟨hstart, ?_⟩
      rw [heq a List.mem_cons_self]
      exact ih hrest fun b hb => heq b (List.mem_cons_of_mem a hb)

/-- The list that ends in a null pointer is determined by where it starts. -/
theorem Segment.unique (h₁ : Segment next start l₁ none) (h₂ : Segment next start l₂ none) :
    l₁ = l₂ := by
  induction l₁ generalizing start l₂ with
  | nil =>
      rw [segment_nil] at h₁
      subst h₁
      cases l₂ with
      | nil => rfl
      | cons b l₂ => cases h₂.1
  | cons a l₁ ih =>
      obtain ⟨rfl, h₁⟩ := h₁
      cases l₂ with
      | nil => cases h₂
      | cons b l₂ =>
          obtain ⟨hab, h₂⟩ := h₂
          cases hab
          rw [ih h₁ h₂]

/-- A null-terminated list visits no node twice. -/
theorem Segment.nodup (h : Segment next start l none) : l.Nodup := by
  induction l generalizing start with
  | nil => exact List.nodup_nil
  | cons a l ih =>
      refine List.nodup_cons.2 ⟨?_, ih h.2⟩
      intro ha
      obtain ⟨l₁, l₂, rfl⟩ := List.append_of_mem ha
      -- the walk from `a` would come back to `a`
      obtain ⟨middle, -, hback⟩ := segment_append.1 h.2
      obtain ⟨rfl, hrest⟩ := hback
      have hloop := Segment.unique h.2 hrest
      have hlen := congrArg List.length hloop
      simp at hlen
      omega

/-- The successor of a node is the next one of the list. -/
theorem Segment.next_eq (h : Segment next start (l₁ ++ a :: l₂) none) : next a = l₂.head? := by
  obtain ⟨middle, -, h₂⟩ := segment_append.1 h
  cases l₂ with
  | nil => exact h₂.2
  | cons b l₂ => exact h₂.2.1

theorem Segment.start_eq (h : Segment next start l none) : start = l.head? := by
  cases l with
  | nil => exact h
  | cons a l => exact h.1

/-- The end of a null-terminated list is such a list itself. -/
theorem Segment.suffix (h : Segment next start (l₁ ++ l₂) none) : Segment next l₂.head? l₂ none := by
  obtain ⟨middle, -, h₂⟩ := segment_append.1 h
  rwa [h₂.start_eq] at h₂

/-- What the first node has and every pointer hands on, all nodes have. -/
theorem Segment.forall_mem {P : α → Prop} (h : Segment next (some a) l none) (ha : P a)
    (hnext : ∀ b ∈ l, ∀ c, next b = some c → P c) : ∀ b ∈ l, P b := by
  induction l generalizing a with
  | nil => exact fun b hb => absurd hb List.not_mem_nil
  | cons x l ih =>
      obtain ⟨hx, hrest⟩ := h
      cases hx
      intro b hb
      rcases List.mem_cons.1 hb with rfl | hb
      · exact ha
      · cases hn : next x with
        | none =>
            rw [hn] at hrest
            cases l with
            | nil => cases hb
            | cons y l => cases hrest.1
        | some c =>
            rw [hn] at hrest
            exact ih hrest (hnext x List.mem_cons_self c hn)
              (fun b hb => hnext b (List.mem_cons_of_mem x hb)) b hb

/-- A node is put behind the last one. -/
theorem Segment.concat (h : Segment next start (l ++ [b]) none) (ha : a ∉ l ++ [b])
    (hb' : next' b = some a) (ha' : next' a = none)
    (heq : ∀ c ∈ l, c ≠ a → c ≠ b → next' c = next c) :
    Segment next' start (l ++ [b] ++ [a]) none := by
  have hnodup := h.nodup
  obtain ⟨middle, hl, hb⟩ := segment_append.1 h
  rw [segment_append]
  refine ⟨some a, ?_, rfl, ha'⟩
  rw [segment_append]
  refine ⟨middle, hl.congr ?_, hb.1, hb'⟩
  intro c hc
  apply heq c hc
  · rintro rfl
    exact ha (List.mem_append_left _ hc)
  · rintro rfl
    exact (List.nodup_append.1 hnodup).2.2 c hc c List.mem_cons_self rfl

/-- The node behind `b` is taken out. -/
theorem Segment.remove (h : Segment next start (l₁ ++ b :: a :: l₂) none)
    (hb' : next' b = next a) (heq : ∀ c, c ≠ b → c ≠ a → next' c = next c) :
    Segment next' start (l₁ ++ b :: l₂) none := by
  have hnodup := h.nodup
  have hapart := (List.nodup_append.1 hnodup).2.2
  have hba := List.nodup_cons.1 (List.nodup_append.1 hnodup).2.1
  obtain ⟨middle, hl, hstart, -, hrest⟩ := segment_append.1 h
  rw [segment_append]
  refine ⟨middle, hl.congr ?_, hstart, ?_⟩
  · intro c hc
    apply heq c
    · rintro rfl
      exact hapart c hc c List.mem_cons_self rfl
    · rintro rfl
      exact hapart c hc c (List.mem_cons_of_mem b List.mem_cons_self) rfl
  · rw [hb']
    refine hrest.congr ?_
    intro c hc
    apply heq c
    · rintro rfl
      exact hba.1 (List.mem_cons_of_mem a hc)
    · rintro rfl
      exact (List.nodup_cons.1 hba.2).1 hc

end Segments

/-! ## Predecessors -/

section Predecessors

variable {next prev prev' : α → Option α} {start before : Option α} {l l₁ l₂ : List α} {a b : α}

theorem backLinked_append :
    BackLinked prev before (l₁ ++ l₂) ↔
      BackLinked prev before l₁ ∧ BackLinked prev (l₁.getLast?.or before) l₂ := by
  induction l₁ generalizing before with
  | nil =>
      constructor
      · intro h
        exact ⟨trivial, h⟩
      · rintro ⟨-, h⟩
        exact h
  | cons a l₁ ih =>
      have hlast : (a :: l₁).getLast?.or before = l₁.getLast?.or (some a) := by
        cases l₁ with
        | nil => rfl
        | cons b l₁ => rw [List.getLast?_cons_cons, List.getLast?_cons]; rfl
      rw [List.cons_append, BackLinked, ih, hlast, BackLinked, and_assoc]

theorem BackLinked.congr (h : BackLinked prev before l) (heq : ∀ a ∈ l, prev' a = prev a) :
    BackLinked prev' before l := by
  induction l generalizing before with
  | nil => trivial
  | cons a l ih =>
      refine ⟨?_, ih h.2 fun b hb => heq b (List.mem_cons_of_mem a hb)⟩
      rw [heq a List.mem_cons_self]
      exact h.1

theorem BackLinked.prev_eq (h : BackLinked prev none (l₁ ++ a :: l₂)) : prev a = l₁.getLast? := by
  have h₂ := (backLinked_append.1 h).2.1
  rw [h₂, Option.or_none]

/-- In a doubly linked list the neighbours agree. -/
theorem next_eq_some_iff (hnext : Segment next start l none) (hprev : BackLinked prev none l)
    (ha : a ∈ l) (hb : b ∈ l) : next a = some b ↔ prev b = some a := by
  constructor
  · intro hab
    obtain ⟨l₁, l₂, rfl⟩ := List.append_of_mem ha
    rw [hnext.next_eq] at hab
    obtain ⟨l₃, rfl⟩ := List.head?_eq_some_iff.1 hab
    have hsplit : l₁ ++ a :: b :: l₃ = (l₁ ++ [a]) ++ b :: l₃ := by simp
    rw [hsplit] at hprev
    rw [hprev.prev_eq, List.getLast?_concat]
  · intro hba
    obtain ⟨l₁, l₂, rfl⟩ := List.append_of_mem hb
    rw [hprev.prev_eq] at hba
    obtain ⟨l₃, rfl⟩ := List.getLast?_eq_some_iff.1 hba
    have hsplit : (l₃ ++ [a]) ++ b :: l₂ = l₃ ++ a :: (b :: l₂) := by simp
    rw [hsplit] at hnext
    rw [hnext.next_eq]
    rfl

/-- A node is put behind the last one. -/
theorem BackLinked.concat (h : BackLinked prev before (l ++ [b])) (ha' : prev' a = some b)
    (ha : a ∉ l ++ [b]) (heq : ∀ c, c ≠ a → prev' c = prev c) :
    BackLinked prev' before (l ++ [b] ++ [a]) := by
  rw [backLinked_append]
  refine ⟨h.congr ?_, ?_, trivial⟩
  · intro c hc
    apply heq c
    rintro rfl
    exact ha hc
  · rw [ha', List.getLast?_concat]
    rfl

/-- The node behind `b` is taken out; the one behind it gets `b` as its predecessor. -/
theorem BackLinked.remove (h : BackLinked prev before (l₁ ++ b :: a :: l₂))
    (hnodup : (l₁ ++ b :: a :: l₂).Nodup) (hnext' : ∀ c, l₂.head? = some c → prev' c = some b)
    (heq : ∀ c, l₂.head? ≠ some c → prev' c = prev c) :
    BackLinked prev' before (l₁ ++ b :: l₂) := by
  obtain ⟨h₁, hb, -, h₂⟩ := backLinked_append.1 h
  have hapart := (List.nodup_append.1 hnodup).2.2
  have hba := List.nodup_cons.1 (List.nodup_append.1 hnodup).2.1
  have hno : ∀ c, c ∉ l₂ → prev' c = prev c := by
    intro c hc
    apply heq c
    intro hhead
    exact hc (List.mem_of_mem_head? hhead)
  rw [backLinked_append]
  refine ⟨h₁.congr ?_, ?_, ?_⟩
  · intro c hc
    apply hno c
    intro hc'
    exact hapart c hc c (List.mem_cons_of_mem b (List.mem_cons_of_mem a hc')) rfl
  · rw [hno b fun hb' => hba.1 (List.mem_cons_of_mem a hb')]
    exact hb
  · cases l₂ with
    | nil => trivial
    | cons c l₂ =>
        refine ⟨hnext' c rfl, h₂.2.congr ?_⟩
        intro d hd
        apply heq d
        intro hhead
        cases hhead
        exact (List.nodup_cons.1 (List.nodup_cons.1 hba.2).2).1 hd

end Predecessors

/-! ## Walks -/

/-- The nodes that a walk from `start` meets in `fuel` steps. -/
def nodesFrom (next : α → Option α) : Nat → Option α → List α
  | 0, _ => []
  | _ + 1, none => []
  | fuel + 1, some a => a :: nodesFrom next fuel (next a)

theorem nodesFrom_eq {next : α → Option α} {start : Option α} {l : List α} {fuel : Nat}
    (h : Segment next start l none) (hfuel : l.length < fuel) : nodesFrom next fuel start = l := by
  induction l generalizing start fuel with
  | nil =>
      rw [segment_nil] at h
      subst h
      cases fuel <;> rfl
  | cons a l ih =>
      obtain ⟨fuel, rfl⟩ := Nat.exists_eq_succ_of_ne_zero (Nat.ne_of_gt (Nat.zero_lt_of_lt hfuel))
      obtain ⟨rfl, hrest⟩ := h
      rw [nodesFrom, ih hrest (Nat.lt_of_succ_lt_succ hfuel)]

/-- The nodes from `start` on, up to the end or to one met before: every pointer that is
followed is cut. -/
def nodesOnce [DecidableEq α] : Nat → (α → Option α) → Option α → List α
  | 0, _, _ => []
  | _ + 1, _, none => []
  | fuel + 1, next, some a => a :: nodesOnce fuel (Function.update next a none) (next a)

/-- On a null-terminated list the walk that cuts the pointers meets the whole list. -/
theorem nodesOnce_eq [DecidableEq α] {next : α → Option α} {start : Option α} {l : List α}
    {fuel : Nat} (h : Segment next start l none) (hfuel : l.length < fuel) :
    nodesOnce fuel next start = l := by
  induction l generalizing next start fuel with
  | nil =>
      obtain ⟨fuel, rfl⟩ := Nat.exists_eq_succ_of_ne_zero (Nat.ne_of_gt hfuel)
      rw [segment_nil] at h
      subst h
      rfl
  | cons a l ih =>
      obtain ⟨fuel, rfl⟩ := Nat.exists_eq_succ_of_ne_zero (Nat.ne_of_gt (Nat.zero_lt_of_lt hfuel))
      have ha := (List.nodup_cons.1 h.nodup).1
      obtain ⟨rfl, hrest⟩ := h
      have hcut : Segment (Function.update next a none) (next a) l none := by
        refine hrest.congr ?_
        intro b hb
        rw [Function.update_of_ne]
        rintro rfl
        exact ha hb
      rw [nodesOnce, ih hcut (Nat.lt_of_succ_lt_succ hfuel)]

section Walks

variable {next : α → Option α} {start : Option α} {l : List α} {p : α → Bool}

/-- The first node from `start` on that has the property: `some none` when the list ends
before one is found, `none` when the walk is longer than `fuel`. -/
def findFrom (next : α → Option α) (p : α → Bool) : Nat → Option α → Option (Option α)
  | 0, _ => none
  | _ + 1, none => some none
  | fuel + 1, some a => if p a then some (some a) else findFrom next p fuel (next a)

/-- On a null-terminated list the walk finds what a search of the list finds. -/
theorem findFrom_eq_find? {fuel : Nat} (h : Segment next start l none) (hfuel : l.length < fuel) :
    findFrom next p fuel start = some (l.find? p) := by
  induction l generalizing start fuel with
  | nil =>
      obtain ⟨fuel, rfl⟩ := Nat.exists_eq_succ_of_ne_zero (Nat.ne_of_gt hfuel)
      rw [segment_nil] at h
      subst h
      rfl
  | cons a l ih =>
      obtain ⟨fuel, rfl⟩ := Nat.exists_eq_succ_of_ne_zero (Nat.ne_of_gt (Nat.zero_lt_of_lt hfuel))
      obtain ⟨rfl, hrest⟩ := h
      rw [findFrom, List.find?_cons]
      cases p a with
      | true => rfl
      | false => exact ih hrest (Nat.lt_of_succ_lt_succ hfuel)

end Walks

end Library
