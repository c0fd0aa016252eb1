import Mathlib.Logic.Relation
import Vmwos.Library.Arm

/-!
# Processors that share a memory

Several 32-bit ARM processors run listings on words of one memory, in any interleaving of their
instructions. A processor has an exclusive monitor, which an exclusive load sets, any store of
another processor to the same address opens and an exclusive store tests, and an event register,
which `sev` sets everywhere and `wfe` waits for. Memory accesses take effect in the order of the
interleaving, so that barriers do nothing here.

`Client` are processors that take a mutex, work and give it back. `Outline` is what has to be shown
of the two listings on a processor of its own, whatever the others do to it in the meantime
(`Disturbed`), and `mutualExclusion` is what follows for all of them.
-/

set_option autoImplicit false

namespace Library.Processors

open Library.Arm (Reg Flags Cond subFlags)

/-! ## State -/

structure Processor where
  regs : Reg → UInt32
  flags : Flags
  /-- The address of the last exclusive load, while the monitor is closed. -/
  monitor : Option UInt32
  event : Bool

/-- Set a register. -/
def Processor.set (p : Processor) (r : Reg) (w : UInt32) : Processor :=
  { p with regs := Function.update p.regs r w }

/-- The processors and the words of the memory. -/
structure System (ι : Type) where
  processors : ι → Processor
  memory : UInt32 → UInt32

section Instructions

variable {ι : Type} [DecidableEq ι]

/-- Change one processor. -/
def System.modify (s : System ι) (i : ι) (f : Processor → Processor) : System ι :=
  { s with processors := Function.update s.processors i (f (s.processors i)) }

/-- A processor stores a word, which opens the monitors that the others have on it. -/
def System.store (s : System ι) (i : ι) (a w : UInt32) : System ι where
  processors j :=
    if j ≠ i ∧ (s.processors j).monitor = some a then { s.processors j with monitor := none }
    else s.processors j
  memory := Function.update s.memory a w

inductive Instr where
  /-- `ldr rt, =value` or `mov rt, #value` -/
  | ldr (rt : Reg) (value : UInt32)
  /-- `ldrex rt, [rn]` -/
  | ldrex (rt rn : Reg)
  /-- `strex rd, rt, [rn]` -/
  | strex (rd rt rn : Reg)
  /-- `str rt, [rn]` -/
  | str (rt rn : Reg)
  /-- `cmp rn, rm` -/
  | cmp (rn rm : Reg)
  /-- `cmp rn, #imm` -/
  | cmpImm (rn : Reg) (imm : UInt32)
  /-- `dmb`, or the instruction for the coprocessor that stands for it -/
  | dmb
  | wfe
  | sev
  deriving DecidableEq, Repr

/-- Execute an instruction whose condition holds: `none` while it waits. -/
def Instr.exec (i : ι) : Instr → System ι → Option (System ι)
  | .ldr rt value, s => some (s.modify i fun p => p.set rt value)
  | .ldrex rt rn, s =>
      let a := (s.processors i).regs rn
      some (s.modify i fun p => { p.set rt (s.memory a) with monitor := some a })
  | .strex rd rt rn, s =>
      let a := (s.processors i).regs rn
      if (s.processors i).monitor = some a then
        some ((s.store i a ((s.processors i).regs rt)).modify i fun p =>
          { p.set rd 0 with monitor := none })
      else some (s.modify i fun p => { p.set rd 1 with monitor := none })
  | .str rt rn, s => some (s.store i ((s.processors i).regs rn) ((s.processors i).regs rt))
  | .cmp rn rm, s => some (s.modify i fun p => { p with flags := subFlags (p.regs rn) (p.regs rm) })
  | .cmpImm rn imm, s => some (s.modify i fun p => { p with flags := subFlags (p.regs rn) imm })
  | .dmb, s => some s
  | .wfe, s =>
      if (s.processors i).event then some (s.modify i fun p => { p with event := false }) else none
  | .sev, s => some { s with processors := fun j => { s.processors j with event := true } }

/-! ## Code -/

/-- A line of a listing. -/
inductive Line (Label : Type) where
  | label (l : Label)
  | op (c : Cond) (x : Instr)
  | branch (c : Cond) (l : Label)
  /-- `bx lr` -/
  | bx
  deriving DecidableEq, Repr

variable {Label : Type} [DecidableEq Label]

/-- The lines from a label on. -/
def codeAt (program : List (Line Label)) (l : Label) : List (Line Label) :=
  program.dropWhile (· ≠ .label l)

/-- A processor executes its next line: the lines it is at then, or `none` when it has returned. -/
def next (program : List (Line Label)) (i : ι) :
    List (Line Label) → System ι → Option (Option (List (Line Label)) × System ι)
  | [], _ => none
  | .label _ :: rest, s => some (some rest, s)
  | .op c x :: rest, s =>
      if c.holds (s.processors i).flags then (x.exec i s).map fun s => (some rest, s)
      else some (some rest, s)
  | .branch c l :: rest, s =>
      if c.holds (s.processors i).flags then some (some (codeAt program l), s)
      else some (some rest, s)
  | .bx :: _, s => some (none, s)

/-- The lines that are left are those below, or those of a label. -/
theorem next_rest {program rest rest' : List (Line Label)} {line : Line Label} {i : ι}
    {s s' : System ι} (h : next program i (line :: rest) s = some (some rest', s')) :
    rest' = rest ∨ ∃ l, rest' = codeAt program l := by
  cases line with
  | label l =>
      cases h
      exact .inl rfl
  | op c x =>
      rw [next] at h
      split at h
      · obtain ⟨s₁, -, heq⟩ := Option.map_eq_some_iff.1 h
        cases heq
        exact .inl rfl
      · cases h
        exact .inl rfl
  | branch c l =>
      rw [next] at h
      split at h
      · cases h
        exact .inr ⟨l, rfl⟩
      · cases h
        exact .inl rfl
  | bx => cases h

/-! ## What the others see -/

@[simp] theorem modify_self (s : System ι) (i : ι) (f : Processor → Processor) :
    (s.modify i f).processors i = f (s.processors i) := Function.update_self _ _ _

theorem modify_of_ne {i j : ι} (h : j ≠ i) (s : System ι) (f : Processor → Processor) :
    (s.modify i f).processors j = s.processors j := Function.update_of_ne h _ _

@[simp] theorem modify_memory (s : System ι) (i : ι) (f : Processor → Processor) :
    (s.modify i f).memory = s.memory := rfl

@[simp] theorem store_self (s : System ι) (i : ι) (a w : UInt32) :
    (s.store i a w).processors i = s.processors i := if_neg fun h => h.1 rfl

@[simp] theorem store_memory (s : System ι) (i : ι) (a w : UInt32) :
    (s.store i a w).memory = Function.update s.memory a w := rfl

/-- What the others may do to a processor: open its monitor, set its event register, and change the
word at `a` while its monitor is not closed on that address. -/
structure Disturbed (a m m' : UInt32) (p p' : Processor) : Prop where
  regs : p'.regs = p.regs
  flags : p'.flags = p.flags
  monitor : p'.monitor = none ∨ p'.monitor = p.monitor ∧ (p.monitor = some a → m' = m)
  event : p.event = true → p'.event = true

theorem Disturbed.refl (a m : UInt32) (p : Processor) : Disturbed a m m p p :=
  ⟨rfl, rfl, .inr ⟨rfl, fun _ => rfl⟩, id⟩

theorem store_disturbed {i j : ι} (h : j ≠ i) (s : System ι) (a b w : UInt32) :
    Disturbed a (s.memory a) ((s.store i b w).memory a) (s.processors j)
      ((s.store i b w).processors j) := by
  by_cases hmonitor : (s.processors j).monitor = some b
  · have hopened : (s.store i b w).processors j = { s.processors j with monitor := none } :=
      if_pos ⟨h, hmonitor⟩
    rw [hopened]
    exact ⟨rfl, rfl, .inl rfl, id⟩
  · have hsame : (s.store i b w).processors j = s.processors j := if_neg fun h' => hmonitor h'.2
    rw [hsame]
    refine ⟨rfl, rfl, .inr ⟨rfl, fun ha => ?_⟩, id⟩
    have hne : a ≠ b := fun hab => hmonitor (hab ▸ ha)
    exact Function.update_of_ne hne _ _

theorem exec_disturbed {i j : ι} (h : j ≠ i) {x : Instr} {s s' : System ι}
    (hexec : x.exec i s = some s') (a : UInt32) :
    Disturbed a (s.memory a) (s'.memory a) (s.processors j) (s'.processors j) := by
  have hmodify (s : System ι) (f : Processor → Processor) :
      Disturbed a (s.memory a) ((s.modify i f).memory a) (s.processors j)
        ((s.modify i f).processors j) := by
    rw [modify_of_ne h, modify_memory]
    exact .refl _ _ _
  cases x with
  | ldr rt value =>
      cases hexec
      exact hmodify _ _
  | ldrex rt rn =>
      cases hexec
      exact hmodify _ _
  | strex rd rt rn =>
      rw [Instr.exec] at hexec
      split at hexec
      · cases hexec
        rw [modify_of_ne h, modify_memory]
        exact store_disturbed h _ _ _ _
      · cases hexec
        exact hmodify _ _
  | str rt rn =>
      cases hexec
      exact store_disturbed h _ _ _ _
  | cmp rn rm =>
      cases hexec
      exact hmodify _ _
  | cmpImm rn imm =>
      cases hexec
      exact hmodify _ _
  | dmb =>
      cases hexec
      exact .refl _ _ _
  | wfe =>
      rw [Instr.exec] at hexec
      split at hexec
      · cases hexec
        exact hmodify _ _
      · cases hexec
  | sev =>
      cases hexec
      exact ⟨rfl, rfl, .inr ⟨rfl, fun _ => rfl⟩, fun _ => rfl⟩

/-- The monitor of a processor opens. -/
theorem lapse_disturbed (s : System ι) (i j : ι) (a : UInt32) :
    Disturbed a (s.memory a) (s.memory a) (s.processors j)
      ((s.modify i fun p => { p with monitor := none }).processors j) := by
  by_cases hj : j = i
  · subst hj
    rw [modify_self]
    exact ⟨rfl, rfl, .inl rfl, id⟩
  · rw [modify_of_ne hj]
    exact .refl _ _ _

/-- The event register of a processor is set. -/
theorem notify_disturbed (s : System ι) (i j : ι) (a : UInt32) :
    Disturbed a (s.memory a) (s.memory a) (s.processors j)
      ((s.modify i fun p => { p with event := true }).processors j) := by
  by_cases hj : j = i
  · subst hj
    rw [modify_self]
    exact ⟨rfl, rfl, .inr ⟨rfl, fun _ => rfl⟩, fun _ => rfl⟩
  · rw [modify_of_ne hj]
    exact .refl _ _ _

theorem next_disturbed {i j : ι} (h : j ≠ i) {program rest : List (Line Label)}
    {left : Option (List (Line Label))} {s s' : System ι}
    (hnext : next program i rest s = some (left, s')) (a : UInt32) :
    Disturbed a (s.memory a) (s'.memory a) (s.processors j) (s'.processors j) := by
  cases rest with
  | nil => cases hnext
  | cons line rest =>
      cases line with
      | label l =>
          cases hnext
          exact .refl _ _ _
      | op c x =>
          rw [next] at hnext
          split at hnext
          · obtain ⟨s₁, hexec, heq⟩ := Option.map_eq_some_iff.1 hnext
            cases heq
            exact exec_disturbed h hexec a
          · cases hnext
            exact .refl _ _ _
      | branch c l =>
          rw [next] at hnext
          split at hnext
          · cases hnext
            exact .refl _ _ _
          · cases hnext
            exact .refl _ _ _
      | bx =>
          cases hnext
          exact .refl _ _ _

end Instructions

/-! ## A mutex -/

section Mutex

variable {ι Label : Type} [DecidableEq ι] [DecidableEq Label]

/-- Where a processor is: in neither listing without the mutex, in one of them with the lines that
are left, or in neither with the mutex. -/
inductive Place (Label : Type) where
  | outside
  | locking (rest : List (Line Label))
  | inside
  | unlocking (rest : List (Line Label))

/-- Processors that use a mutex. -/
structure Client (ι Label : Type) where
  system : System ι
  place : ι → Place Label

/-- The word of the mutex. -/
def Client.word (c : Client ι Label) (mutex : UInt32) : UInt32 := c.system.memory mutex

/-- One step of one processor. Between the two calls a processor does what it likes, but for the
word of the mutex; a monitor may open and an event register be set at any time. -/
inductive Step (lock unlock : List (Line Label)) (mutex : UInt32) :
    Client ι Label → Client ι Label → Prop
  | call (c : Client ι Label) (i : ι) (hplace : c.place i = .outside)
      (hr0 : (c.system.processors i).regs .r0 = mutex) :
      Step lock unlock mutex c ⟨c.system, Function.update c.place i (.locking lock)⟩
  | lockLine (c : Client ι Label) (i : ι) {rest rest' : List (Line Label)} {s : System ι}
      (hplace : c.place i = .locking rest)
      (hnext : next lock i rest c.system = some (some rest', s)) :
      Step lock unlock mutex c ⟨s, Function.update c.place i (.locking rest')⟩
  | locked (c : Client ι Label) (i : ι) {rest : List (Line Label)} {s : System ι}
      (hplace : c.place i = .locking rest) (hnext : next lock i rest c.system = some (none, s)) :
      Step lock unlock mutex c ⟨s, Function.update c.place i .inside⟩
  | release (c : Client ι Label) (i : ι) (hplace : c.place i = .inside)
      (hr0 : (c.system.processors i).regs .r0 = mutex) :
      Step lock unlock mutex c ⟨c.system, Function.update c.place i (.unlocking unlock)⟩
  | unlockLine (c : Client ι Label) (i : ι) {rest rest' : List (Line Label)} {s : System ι}
      (hplace : c.place i = .unlocking rest)
      (hnext : next unlock i rest c.system = some (some rest', s)) :
      Step lock unlock mutex c ⟨s, Function.update c.place i (.unlocking rest')⟩
  | unlocked (c : Client ι Label) (i : ι) {rest : List (Line Label)} {s : System ι}
      (hplace : c.place i = .unlocking rest) (hnext : next unlock i rest c.system = some (none, s)) :
      Step lock unlock mutex c ⟨s, Function.update c.place i .outside⟩
  | work (c : Client ι Label) (i : ι) (hplace : c.place i = .outside ∨ c.place i = .inside)
      (p : Processor) (memory : UInt32 → UInt32) (hmutex : memory mutex = c.word mutex) :
      Step lock unlock mutex c ⟨⟨Function.update c.system.processors i p, memory⟩, c.place⟩
  | lapse (c : Client ι Label) (i : ι) :
      Step lock unlock mutex c ⟨c.system.modify i fun p => { p with monitor := none }, c.place⟩
  | notify (c : Client ι Label) (i : ι) :
      Step lock unlock mutex c ⟨c.system.modify i fun p => { p with event := true }, c.place⟩

/-- No processor has called yet, and the mutex is not locked. -/
structure Client.Initial (c : Client ι Label) (mutex : UInt32) : Prop where
  outside : ∀ i, c.place i = .outside
  unlocked : c.word mutex = 0

/-- The states that the processors can get to. -/
def Reachable (lock unlock : List (Line Label)) (mutex : UInt32) (c : Client ι Label) : Prop :=
  ∃ c₀ : Client ι Label, c₀.Initial mutex ∧ Relation.ReflTransGen (Step lock unlock mutex) c₀ c

/-- What holds initially and is preserved by every step holds of every reachable state. -/
theorem Reachable.induction {lock unlock : List (Line Label)} {mutex : UInt32}
    {P : Client ι Label → Prop} {c : Client ι Label} (h : Reachable lock unlock mutex c)
    (hinitial : ∀ c, c.Initial mutex → P c) (hstep : ∀ c c', P c → Step lock unlock mutex c c' → P c') :
    P c := by
  obtain ⟨c₀, hc₀, hrun⟩ := h
  induction hrun with
  | refl => exact hinitial c₀ hc₀
  | tail _ hlast ih => exact hstep _ _ ih hlast

/-! ## Proof outlines -/

/-- What holds of a processor at each line: with the lines that are left, whether it owns the mutex,
the processor and the word of the mutex. -/
abbrev Assertion (Label : Type) := List (Line Label) → Bool → Processor → UInt32 → Prop

/-- What is to be shown of a line: who owns the mutex changes only with its word. -/
def Proves (program : List (Line Label)) (A : Assertion Label) (mutex : UInt32)
    (returns : Bool) (change : Bool → Bool → UInt32 → UInt32 → Prop) : Prop :=
  ∀ (ι : Type) [DecidableEq ι] (i : ι) (rest : List (Line Label)) (owns : Bool) (s s' : System ι)
    (left : Option (List (Line Label))), A rest owns (s.processors i) (s.memory mutex) →
      s.memory mutex = 0 ∨ s.memory mutex = 1 → next program i rest s = some (left, s') →
        ∃ owns', (owns' = owns ∧ s'.memory mutex = s.memory mutex ∨
            change owns owns' (s.memory mutex) (s'.memory mutex)) ∧
          match left with
          | none => owns' = returns
          | some rest' => A rest' owns' (s'.processors i) (s'.memory mutex)

/-- An assertion holds whatever the others do. -/
def Stable (A : Assertion Label) (mutex : UInt32) : Prop :=
  ∀ (rest : List (Line Label)) (owns : Bool) (p p' : Processor) (m m' : UInt32),
    Disturbed mutex m m' p p' → A rest owns p m → A rest owns p' m'

/-- The mutex is taken when its word is 0, which becomes 1. -/
def Takes (owns owns' : Bool) (m m' : UInt32) : Prop :=
  owns = false ∧ owns' = true ∧ m = 0 ∧ m' = 1

/-- The mutex is given back by its owner. -/
def Gives (owns owns' : Bool) (_ m' : UInt32) : Prop := owns = true ∧ owns' = false ∧ m' = 0

/-- A proof outline of the two listings. -/
structure Outline (lock unlock : List (Line Label)) (mutex : UInt32) where
  locking : Assertion Label
  unlocking : Assertion Label
  stable_locking : Stable locking mutex
  stable_unlocking : Stable unlocking mutex
  call : ∀ p m, p.regs .r0 = mutex → locking lock false p m
  release : ∀ p m, p.regs .r0 = mutex → unlocking unlock true p m
  lock : Proves lock locking mutex true Takes
  unlock : Proves unlock unlocking mutex false Gives

/-! ## Mutual exclusion -/

section Exclusion

variable {lock unlock : List (Line Label)} {mutex : UInt32} {c c' : Client ι Label}

/-- What the outline says of a processor at its place. -/
def Outline.At (outline : Outline lock unlock mutex) :
    Place Label → Bool → Processor → UInt32 → Prop
  | .outside, owns, _, _ => owns = false
  | .locking rest, owns, p, m => outline.locking rest owns p m
  | .inside, owns, _, _ => owns = true
  | .unlocking rest, owns, p, m => outline.unlocking rest owns p m

theorem Outline.At.disturbed {outline : Outline lock unlock mutex} {place : Place Label}
    {owns : Bool} {p p' : Processor} {m m' : UInt32} (h : outline.At place owns p m)
    (hd : Disturbed mutex m m' p p') : outline.At place owns p' m' := by
  cases place with
  | outside => exact h
  | locking rest => exact outline.stable_locking rest owns p p' m m' hd h
  | inside => exact h
  | unlocking rest => exact outline.stable_unlocking rest owns p p' m m' hd h

/-- Every processor is where the outline says, at most one owns the mutex, and the word tells
whether there is one. -/
structure Outline.Holds (outline : Outline lock unlock mutex) (c : Client ι Label)
    (owns : ι → Bool) : Prop where
  at_place : ∀ i, outline.At (c.place i) (owns i) (c.system.processors i) (c.word mutex)
  unique : ∀ i j, owns i = true → owns j = true → i = j
  locked : ∀ i, owns i = true → c.word mutex = 1
  free : (∀ i, owns i = false) → c.word mutex = 0

omit [DecidableEq ι] in
theorem Outline.Holds.word (outline : Outline lock unlock mutex) {owns : ι → Bool}
    (h : outline.Holds c owns) : c.word mutex = 0 ∨ c.word mutex = 1 := by
  by_cases hfree : ∀ i, owns i = false
  · exact .inl (h.free hfree)
  · obtain ⟨i, hi⟩ := not_forall.1 hfree
    exact .inr (h.locked i (Bool.eq_true_of_not_eq_false hi))

omit [DecidableEq ι] in
theorem Outline.Holds.locking_at {outline : Outline lock unlock mutex} {owns : ι → Bool} {i : ι}
    {rest : List (Line Label)} (h : outline.Holds c owns) (hplace : c.place i = .locking rest) :
    ∃ owns', outline.locking rest owns' (c.system.processors i) (c.word mutex) := by
  have hat := h.at_place i
  rw [hplace] at hat
  exact ⟨owns i, hat⟩

omit [DecidableEq ι] in
theorem Outline.Holds.unlocking_at {outline : Outline lock unlock mutex} {owns : ι → Bool} {i : ι}
    {rest : List (Line Label)} (h : outline.Holds c owns) (hplace : c.place i = .unlocking rest) :
    ∃ owns', outline.unlocking rest owns' (c.system.processors i) (c.word mutex) := by
  have hat := h.at_place i
  rw [hplace] at hat
  exact ⟨owns i, hat⟩

/-- A step of one processor after which the ownership is as before, or which takes the mutex or
gives it back. -/
theorem Outline.Holds.change {outline : Outline lock unlock mutex} {owns : ι → Bool}
    (h : outline.Holds c owns) (i : ι) {place : Place Label} {s : System ι} {owns' : Bool}
    (hd : ∀ j, j ≠ i → Disturbed mutex (c.word mutex) (s.memory mutex) (c.system.processors j)
      (s.processors j))
    (hchange : owns' = owns i ∧ s.memory mutex = c.word mutex ∨
      Takes (owns i) owns' (c.word mutex) (s.memory mutex) ∨
      Gives (owns i) owns' (c.word mutex) (s.memory mutex))
    (hat : outline.At place owns' (s.processors i) (s.memory mutex)) :
    outline.Holds ⟨s, Function.update c.place i place⟩ (Function.update owns i owns') := by
  have hat' (j : ι) : outline.At (Function.update c.place i place j)
      (Function.update owns i owns' j) (s.processors j) (s.memory mutex) := by
    by_cases hj : j = i
    · subst hj
      rw [Function.update_self, Function.update_self]
      exact hat
    · rw [Function.update_of_ne hj, Function.update_of_ne hj]
      exact (h.at_place j).disturbed (hd j hj)
  rcases hchange with ⟨rfl, hword⟩ | ⟨hno, rfl, hzero, hone⟩ | ⟨hyes, rfl, hzero⟩
  · -- nothing has changed hands
    rw [Function.update_eq_self] at hat' ⊢
    refine ⟨hat', h.unique, fun j hj => hword.trans (h.locked j hj), fun hall => ?_⟩
    exact hword.trans (h.free hall)
  · -- the word was 0, so there was no owner
    have hnone (j : ι) : owns j = false := by
      by_contra hj
      have hlocked := h.locked j (Bool.eq_true_of_not_eq_false hj)
      rw [hzero] at hlocked
      exact absurd hlocked (by decide)
    have heq (j : ι) (hj : Function.update owns i true j = true) : j = i := by
      by_contra hne
      rw [Function.update_of_ne hne, hnone] at hj
      cases hj
    refine ⟨hat', fun j k hj hk => (heq j hj).trans (heq k hk).symm, fun _ _ => hone, fun hall => ?_⟩
    have hi := hall i
    rw [Function.update_self] at hi
    cases hi
  · -- the owner was the only one
    have hnone (j : ι) : Function.update owns i false j = false := by
      by_cases hj : j = i
      · rw [hj, Function.update_self]
      · rw [Function.update_of_ne hj]
        by_contra howner
        exact hj (h.unique j i (Bool.eq_true_of_not_eq_false howner) hyes)
    refine ⟨hat', fun j k hj => ?_, fun j hj => ?_, fun _ => hzero⟩
    · rw [hnone j] at hj
      cases hj
    · rw [hnone j] at hj
      cases hj

omit [DecidableEq ι] in
/-- A step that leaves the places and the word alone. -/
theorem Outline.Holds.disturb {outline : Outline lock unlock mutex} {owns : ι → Bool}
    (h : outline.Holds c owns) {s : System ι} (hword : s.memory mutex = c.word mutex)
    (hat : ∀ j, outline.At (c.place j) (owns j) (s.processors j) (s.memory mutex)) :
    outline.Holds ⟨s, c.place⟩ owns :=
  ⟨hat, h.unique, fun j hj => hword.trans (h.locked j hj), fun hall => hword.trans (h.free hall)⟩

theorem Outline.Holds.step (outline : Outline lock unlock mutex) {owns : ι → Bool}
    (h : outline.Holds c owns) (hstep : Step lock unlock mutex c c') :
    ∃ owns', outline.Holds c' owns' := by
  have hat {i : ι} {place : Place Label} (hplace : c.place i = place) :
      outline.At place (owns i) (c.system.processors i) (c.word mutex) := hplace ▸ h.at_place i
  cases hstep with
  | call i hplace hr0 =>
      have hno : owns i = false := hat hplace
      exact ⟨_, h.change i (fun _ _ => .refl _ _ _) (.inl ⟨hno.symm, rfl⟩) (outline.call _ _ hr0)⟩
  | lockLine i hplace hnext =>
      obtain ⟨owns', hchange, hleft⟩ := outline.lock ι i _ _ _ _ _ (hat hplace) h.word hnext
      exact ⟨_, h.change i (fun j hj => next_disturbed hj hnext mutex)
        (hchange.imp_right .inl) hleft⟩
  | locked i hplace hnext =>
      obtain ⟨owns', hchange, hleft⟩ := outline.lock ι i _ _ _ _ _ (hat hplace) h.word hnext
      exact ⟨_, h.change i (fun j hj => next_disturbed hj hnext mutex)
        (hchange.imp_right .inl) hleft⟩
  | release i hplace hr0 =>
      have hyes : owns i = true := hat hplace
      exact ⟨_, h.change i (fun _ _ => .refl _ _ _) (.inl ⟨hyes.symm, rfl⟩)
        (outline.release _ _ hr0)⟩
  | unlockLine i hplace hnext =>
      obtain ⟨owns', hchange, hleft⟩ := outline.unlock ι i _ _ _ _ _ (hat hplace) h.word hnext
      exact ⟨_, h.change i (fun j hj => next_disturbed hj hnext mutex)
        (hchange.imp_right .inr) hleft⟩
  | unlocked i hplace hnext =>
      obtain ⟨owns', hchange, hleft⟩ := outline.unlock ι i _ _ _ _ _ (hat hplace) h.word hnext
      exact ⟨_, h.change i (fun j hj => next_disturbed hj hnext mutex)
        (hchange.imp_right .inr) hleft⟩
  | work i hplace p memory hmutex =>
      refine ⟨owns, h.disturb hmutex fun j => ?_⟩
      dsimp only
      rw [hmutex]
      by_cases hj : j = i
      · subst hj
        rcases hplace with hplace | hplace
        · have hno : owns j = false := hat hplace
          rw [hplace]
          exact hno
        · have hyes : owns j = true := hat hplace
          rw [hplace]
          exact hyes
      · rw [Function.update_of_ne hj]
        exact h.at_place j
  | lapse i =>
      exact ⟨owns, h.disturb rfl fun j => (h.at_place j).disturbed (lapse_disturbed _ i j mutex)⟩
  | notify i =>
      exact ⟨owns, h.disturb rfl fun j => (h.at_place j).disturbed (notify_disturbed _ i j mutex)⟩

theorem Outline.holds (outline : Outline lock unlock mutex)
    (h : Reachable lock unlock mutex c) : ∃ owns, outline.Holds c owns := by
  refine @Reachable.induction _ _ _ _ _ _ _ (fun c => ∃ owns, outline.Holds c owns) _ h ?_ ?_
  · intro c hc
    refine ⟨fun _ => false, fun i => ?_, fun i j hi => ?_, fun i hi => ?_, fun _ => hc.unlocked⟩
    · rw [hc.outside i]
      rfl
    · cases hi
    · cases hi
  · rintro c c' ⟨owns, hholds⟩ hstep
    exact hholds.step outline hstep

/-- No two processors are between the two calls. -/
theorem mutualExclusion (outline : Outline lock unlock mutex)
    (h : Reachable lock unlock mutex c) {i j : ι} (hi : c.place i = .inside)
    (hj : c.place j = .inside) : i = j := by
  obtain ⟨owns, hholds⟩ := outline.holds h
  have hat (k : ι) (hk : c.place k = .inside) : owns k = true := by
    have hplace := hholds.at_place k
    rw [hk] at hplace
    exact hplace
  exact hholds.unique i j (hat i hi) (hat j hj)

end Exclusion

/-! ## A processor on its own -/

section Alone

variable {lock unlock : List (Line Label)} {mutex : UInt32} {c : Client ι Label} {i : ι}

/-- A processor executes lines while the others rest, until it returns. -/
inductive ReturnsAlone (program : List (Line Label)) (i : ι) :
    List (Line Label) → System ι → System ι → Prop
  | line {rest rest' : List (Line Label)} {s s₁ s' : System ι}
      (hnext : next program i rest s = some (some rest', s₁))
      (hrest : ReturnsAlone program i rest' s₁ s') : ReturnsAlone program i rest s s'
  | bx {rest : List (Line Label)} {s s' : System ι}
      (hnext : next program i rest s = some (none, s')) : ReturnsAlone program i rest s s'

section Rules

variable {rest : List (Line Label)} {s s₁ s' : System ι} {cond : Cond} {x : Instr} {l : Label}
  {program : List (Line Label)}

theorem ReturnsAlone.label (h : ReturnsAlone program i rest s s') :
    ReturnsAlone program i (.label l :: rest) s s' := .line rfl h

theorem ReturnsAlone.op (hc : cond.holds (s.processors i).flags = true) (hx : x.exec i s = some s₁)
    (h : ReturnsAlone program i rest s₁ s') : ReturnsAlone program i (.op cond x :: rest) s s' := by
  refine .line ?_ h
  rw [next, if_pos hc, hx]
  rfl

/-- An instruction that is skipped. -/
theorem ReturnsAlone.skip (hc : cond.holds (s.processors i).flags = false)
    (h : ReturnsAlone program i rest s s') : ReturnsAlone program i (.op cond x :: rest) s s' := by
  refine .line ?_ h
  rw [next, hc, if_neg Bool.false_ne_true]

theorem ReturnsAlone.branch (hc : cond.holds (s.processors i).flags = true)
    (h : ReturnsAlone program i (codeAt program l) s s') :
    ReturnsAlone program i (.branch cond l :: rest) s s' := by
  refine .line ?_ h
  rw [next, if_pos hc]

theorem ReturnsAlone.pass (hc : cond.holds (s.processors i).flags = false)
    (h : ReturnsAlone program i rest s s') : ReturnsAlone program i (.branch cond l :: rest) s s' := by
  refine .line ?_ h
  rw [next, hc, if_neg Bool.false_ne_true]

end Rules

theorem ReturnsAlone.steps {rest : List (Line Label)} {s' : System ι}
    (h : ReturnsAlone lock i rest c.system s') (hplace : c.place i = .locking rest) :
    Relation.ReflTransGen (Step lock unlock mutex) c ⟨s', Function.update c.place i .inside⟩ := by
  obtain ⟨s, place⟩ := c
  dsimp only at h hplace
  induction h generalizing place with
  | @line rest rest' s s₁ s' hnext _ ih =>
      have hrest := ih (Function.update place i (.locking rest')) (Function.update_self _ _ _)
      rw [Function.update_idem] at hrest
      exact .head (.lockLine ⟨s, place⟩ i hplace hnext) hrest
  | bx hnext => exact .single (.locked _ i hplace hnext)

end Alone

end Mutex

end Library.Processors
