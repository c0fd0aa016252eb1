import Vmwos.Drivers.ConsoleIo
import Vmwos.Processes.WaitQueues
import Vmwos.Library.Run

/-!
# Blocking reads from the console

`console_read` goes to sleep once when the input ring is empty, and takes what it finds when it
goes on. An interrupt that completes a line wakes everybody on `console_wait_queue`, and so does
the end-of-file character on an empty line. Processes read here as they like, and call `vfork`
and `execve` in between.

Who has been woken finds something to read, or has been sent an end of file, as long as no reader
takes the last characters before another one that has been woken, and no `execve` makes a parent
ready that sleeps in `console_read` (`run_readContract`).
-/

set_option autoImplicit false

namespace Vmwos

open Library

namespace Console

/-! ## Waking -/

/-- `console_actual_insert_char` gets to `sleepers_awake`. -/
def actualInsertWakes (s : Console) (ch : UInt8) (empty : Bool) : Bool :=
  (s.actualInsertChar ch empty).1 = 0

/-- The loop that puts the line into the ring wakes the sleepers. -/
def insertCanonWakes : Nat → Nat → Console → Bool
  | 0, _, _ => false
  | n + 1, i, s =>
      s.actualInsertWakes (s.canonBuffer i) false ||
        insertCanonWakes n (i + 1) (s.actualInsertChar (s.canonBuffer i) false).2

/-- `canon_no_add` wakes the sleepers when the line is done. -/
def canonDoneWakes (s : Console) : Bool :=
  let s' := insertCanon s.canonOffset 0 s
  insertCanonWakes s.canonOffset 0 s ||
    if s'.canonOffset = 0 then s'.actualInsertWakes 0 true else false

/-- The part of `console_canonical_read` that adds a character wakes the sleepers. -/
def addCharWakes (s : Console) (ch : UInt8) : Bool :=
  let s := { s with canonBuffer := Function.update s.canonBuffer s.canonOffset ch }
  let s := s.echo ch
  let s := { s with canonOffset := s.canonOffset + 1 }
  if s.canonOffset = canonBufferSize ∨ ch = 10 then s.canonDoneWakes else false

/-- `console_canonical_read` wakes the sleepers. -/
def canonicalReadWakes (s : Console) (ch : UInt8) : Bool :=
  let ch := if s.termio.iflag &&& icrnl ≠ 0 then (if ch = 13 then 10 else ch) else ch
  if s.termio.iflag &&& igncr ≠ 0 ∧ ch = 13 then false
  else if ch = s.termio.cc veof then s.canonDoneWakes
  else if ch = 0x8 ∨ ch = s.termio.cc verase then false
  else s.addCharWakes ch

/-- `console_insert_char` wakes the sleepers. -/
def insertCharWakes (s : Console) (ch : UInt8) : Bool :=
  if s.termio.lflag &&& icanon ≠ 0 then s.canonicalReadWakes ch
  else if s.termio.iflag &&& igncr ≠ 0 ∧ ch = 13 then false
  else
    let ch := if s.termio.iflag &&& icrnl ≠ 0 then (if ch = 13 then 10 else ch) else ch
    s.actualInsertWakes ch false

/-- The character is the end-of-file character and is entered on an empty line. -/
def EndOfFile (s : Console) (ch : UInt8) : Prop :=
  let typed := if s.termio.iflag &&& icrnl ≠ 0 then (if ch = 13 then 10 else ch) else ch
  s.termio.lflag &&& icanon ≠ 0 ∧ ¬ (s.termio.iflag &&& igncr ≠ 0 ∧ typed = 13) ∧
    typed = s.termio.cc veof ∧ s.canonOffset = 0

instance (s : Console) (ch : UInt8) : Decidable (s.EndOfFile ch) :=
  inferInstanceAs (Decidable (_ ∧ _))

/-- Characters have gone behind those in the ring, and the sleepers are woken when there are
any. -/
def Grows (s s' : Console) (woken : Bool) : Prop :=
  ∃ added, s'.input.contents = s.input.contents ++ added ∧ (woken = true ↔ added ≠ [])

section Grows

variable {s s' s'' : Console} {woken woken' : Bool} {ch : UInt8}

theorem Grows.of_input (h : s'.input = s.input) : Grows s s' false := by
  refine ⟨[], ?_, iff_of_false Bool.noConfusion fun h => h rfl⟩
  rw [h, List.append_nil]

theorem Grows.trans (h : Grows s s' woken) (h' : Grows s' s'' woken') :
    Grows s s'' (woken || woken') := by
  obtain ⟨added, hcontents, hwoken⟩ := h
  obtain ⟨added', hcontents', hwoken'⟩ := h'
  refine ⟨added ++ added', ?_, ?_⟩
  · rw [hcontents', hcontents, List.append_assoc]
  · rw [Bool.or_eq_true, hwoken, hwoken', ← not_and_or, ← List.append_eq_nil_iff]

/-- A change of the edit buffer before does not matter. -/
theorem Grows.congr (h : Grows s' s'' woken) (hinput : s'.input = s.input) : Grows s s'' woken := by
  obtain ⟨added, hcontents, hwoken⟩ := h
  refine ⟨added, ?_, hwoken⟩
  rw [hcontents, hinput]

/-- A character is put into the ring or dropped. -/
theorem actualInsertChar_grows (s : Console) (ch : UInt8) :
    Grows s (s.actualInsertChar ch false).2 (s.actualInsertWakes ch false) := by
  unfold actualInsertWakes
  cases hpush : s.input.push ch with
  | none =>
      simp only [actualInsertChar, hpush]
      exact Grows.of_input rfl
  | some input =>
      simp only [actualInsertChar, hpush]
      exact ⟨[ch], Ring.contents_push hpush, iff_of_true rfl (List.cons_ne_nil ch [])⟩

theorem insertCanon_grows (n i : Nat) (s : Console) :
    Grows s (insertCanon n i s) (insertCanonWakes n i s) := by
  induction n generalizing i s with
  | zero => exact Grows.of_input rfl
  | succ n ih => exact (actualInsertChar_grows s _).trans (ih (i + 1) _)

/-- A line that is not empty wakes the sleepers if any of it goes into the ring. -/
theorem canonDone_grows (h : s.canonOffset ≠ 0) : Grows s s.canonDone s.canonDoneWakes := by
  obtain ⟨input, hinput, -⟩ := insertCanon_cases s.canonOffset 0 s
  have hgrows := insertCanon_grows s.canonOffset 0 s
  have hoffset : (insertCanon s.canonOffset 0 s).canonOffset ≠ 0 := by
    rw [hinput]
    exact h
  have hwakes : s.canonDoneWakes = insertCanonWakes s.canonOffset 0 s := by
    simp only [canonDoneWakes, if_neg hoffset, Bool.or_false]
  have hdone : s.canonDone.input = (insertCanon s.canonOffset 0 s).input := by
    simp only [canonDone, if_neg hoffset]
  obtain ⟨added, hcontents, hwoken⟩ := hgrows
  refine ⟨added, ?_, ?_⟩
  · rw [hdone, hcontents]
  · rw [hwakes]
    exact hwoken

/-- An empty line wakes them, with nothing in the ring. -/
theorem canonDone_empty (h : s.canonOffset = 0) :
    s.canonDone.input = s.input ∧ s.canonDoneWakes = true := by
  have hnone : insertCanon s.canonOffset 0 s = s := by
    rw [h]
    rfl
  refine ⟨?_, ?_⟩
  · simp only [canonDone, hnone, if_pos h]
    rfl
  · simp only [canonDoneWakes, hnone, if_pos h, actualInsertWakes, actualInsertChar, if_true]
    exact Bool.or_true _

theorem addChar_grows (s : Console) (ch : UInt8) : Grows s (s.addChar ch) (s.addCharWakes ch) := by
  obtain ⟨written, hecho⟩ := echo_eq { s with
    canonBuffer := Function.update s.canonBuffer s.canonOffset ch } ch
  simp only [addChar, addCharWakes, hecho]
  split
  · exact (canonDone_grows (Nat.succ_ne_zero s.canonOffset)).congr rfl
  · exact Grows.of_input rfl

theorem deleteChar_input (s : Console) : s.deleteChar.input = s.input := by
  unfold deleteChar
  split
  · simp only
    split
    · rfl
    · rfl
  · rfl

/-- What is put into the ring wakes the sleepers; beside that only the end of file on an empty
line does, with nothing in the ring. -/
theorem insertChar_cases (s : Console) (ch : UInt8) :
    (s.EndOfFile ch ∧ s.insertCharWakes ch = true ∧ (s.insertChar ch).2.input = s.input) ∨
      (¬ s.EndOfFile ch ∧ Grows s (s.insertChar ch).2 (s.insertCharWakes ch)) := by
  rw [insertChar, insertCharWakes]
  by_cases hmode : s.termio.lflag &&& icanon ≠ 0
  · rw [if_pos hmode, if_pos hmode, canonicalRead, canonicalReadWakes]
    obtain ⟨typed, htyped⟩ : ∃ typed, (if s.termio.iflag &&& icrnl ≠ 0 then
      (if ch = 13 then 10 else ch) else ch) = typed := ⟨_, rfl⟩
    have heof : s.EndOfFile ch ↔ ¬ (s.termio.iflag &&& igncr ≠ 0 ∧ typed = 13) ∧
        typed = s.termio.cc veof ∧ s.canonOffset = 0 := by
      rw [EndOfFile, htyped]
      exact and_iff_right hmode
    rw [heof, htyped]
    by_cases hignored : s.termio.iflag &&& igncr ≠ 0 ∧ typed = 13
    · simp only [if_pos hignored]
      exact Or.inr ⟨fun h => h.1 hignored, Grows.of_input rfl⟩
    · simp only [if_neg hignored]
      by_cases hend : typed = s.termio.cc veof
      · simp only [if_pos hend]
        by_cases hoffset : s.canonOffset = 0
        · obtain ⟨hinput, hwakes⟩ := canonDone_empty hoffset
          exact Or.inl ⟨⟨hignored, hend, hoffset⟩, hwakes, hinput⟩
        · exact Or.inr ⟨fun h => hoffset h.2.2, canonDone_grows hoffset⟩
      · simp only [if_neg hend]
        refine Or.inr ⟨fun h => hend h.2.1, ?_⟩
        split
        · exact Grows.of_input (deleteChar_input s)
        · exact addChar_grows s typed
  · rw [if_neg hmode, if_neg hmode]
    refine Or.inr ⟨fun h => hmode h.1, ?_⟩
    split
    · exact Grows.of_input rfl
    · exact actualInsertChar_grows s _

end Grows

end Console

/-! ## The system -/

/-- The processes and the console, with the count of the call for each process that sleeps or has
been woken in `console_read`. Kept beside that are for which of them the end of file has been
entered since it fell asleep, the characters that have been put into the ring, and what each read
has returned. -/
structure ConsoleSystem where
  table : ProcTable
  console : Console
  reading : ProcId → Option Nat
  eof : ProcId → Bool
  entered : List UInt8
  delivered : List (ProcId × List UInt8)

/-- A character arrives, a blocking `console_read` is called, a process that has been switched to
inside one goes on with it; or another step: `vfork` or `execve` is called, a parent goes on in
`vfork`, or the timer interrupt switches processes. -/
inductive ConsoleOp where
  | insert (ch : UInt8)
  | read (count : Nat)
  | resume
  | vfork
  | execve (image : Option Image)
  | resumeVfork
  | schedule
  deriving DecidableEq, Repr

/-- A read returns its bytes, another step answers as the machine does. -/
inductive ConsoleReply where
  | bytes (bytes : List UInt8)
  | machine (reply : SysReply)
  deriving DecidableEq, Repr

namespace ConsoleSystem

/-- `console_insert_char` -/
def insertChar (s : ConsoleSystem) (ch : UInt8) : ConsoleSystem :=
  let console := (s.console.insertChar ch).2
  { s with
    table := if s.console.insertCharWakes ch then s.table.waitQueueWake .console else s.table
    console := console
    eof := fun p => s.eof p || decide (s.reading p ≠ none ∧ s.console.EndOfFile ch)
    entered := s.entered ++ console.input.contents.drop s.console.input.contents.length }

/-- The loop of `console_read`, and its return. -/
def take (s : ConsoleSystem) (count : Nat) : ConsoleReply × ConsoleSystem :=
  let caller := s.table.currentProc
  let bytes := (s.console.read count).1
  (.bytes bytes,
    { s with
      console := (s.console.read count).2
      reading := Function.update s.reading caller none
      delivered := s.delivered ++ [(caller, bytes)] })

/-- `console_read`, blocking. -/
def read (s : ConsoleSystem) (count : Nat) : Except Stuck (ConsoleReply × ConsoleSystem) :=
  if s.console.input.head = s.console.input.tail then
    match s.table.waitQueueAdd .console s.table.currentProc with
    | .error e => .error e
    | .ok t =>
        .ok (.machine .suspended,
          { s with
            table := t
            reading := Function.update s.reading s.table.currentProc (some count)
            eof := Function.update s.eof s.table.currentProc false })
  else .ok (s.take count)

/-- System calls are made in user mode, and not by the idle process; interrupts come in while the
running process is in user mode. -/
def Enabled (s : ConsoleSystem) : ConsoleOp → Prop
  | .insert _ | .schedule =>
      s.reading s.table.currentProc = none ∧ (s.table.allProcesses s.table.currentProc).resume = .user
  | .read count =>
      s.reading s.table.currentProc = none ∧
        (s.table.allProcesses s.table.currentProc).resume = .user ∧
          s.table.procFirst ≠ some s.table.currentProc ∧ 1 ≤ count
  | .resume => s.reading s.table.currentProc ≠ none
  | .vfork | .execve _ =>
      s.reading s.table.currentProc = none ∧
        (s.table.allProcesses s.table.currentProc).resume = .user ∧
          s.table.procFirst ≠ some s.table.currentProc
  | .resumeVfork =>
      s.reading s.table.currentProc = none ∧
        match (s.table.allProcesses s.table.currentProc).resume with
        | .vfork _ _ => True
        | _ => False

instance (s : ConsoleSystem) (op : ConsoleOp) : Decidable (s.Enabled op) := by
  cases op with
  | resumeVfork =>
      unfold Enabled
      cases (s.table.allProcesses s.table.currentProc).resume with
      | vfork child childPid => exact inferInstanceAs (Decidable (_ ∧ True))
      | _ => exact inferInstanceAs (Decidable (_ ∧ False))
  | _ =>
      unfold Enabled
      infer_instance

/-- A step of the machine that has nothing to do with the console. -/
def machine (s : ConsoleSystem) (op : SysOp) : Except Stuck (ConsoleReply × ConsoleSystem) :=
  match s.table.perform op with
  | .error e => .error e
  | .ok (r, t) => .ok (.machine r, { s with table := t })

/-- What a step does when it can happen. -/
def perform (s : ConsoleSystem) : ConsoleOp → Except Stuck (ConsoleReply × ConsoleSystem)
  | .insert ch => .ok (.machine .suspended, s.insertChar ch)
  | .read count => s.read count
  | .resume =>
      match s.reading s.table.currentProc with
      | none => .error .badAccess
      | some count => .ok (s.take count)
  | .vfork => s.machine .vfork
  | .execve image => s.machine (.execve image)
  | .resumeVfork => s.machine .resume
  | .schedule => s.machine .schedule

/-- One step. -/
def step (s : ConsoleSystem) (op : ConsoleOp) : Except Fault (ConsoleReply × ConsoleSystem) :=
  if s.Enabled op then
    match s.perform op with
    | .ok r => .ok r
    | .error e => .error (.stuck e)
  else .error .notEnabled

/-- Nobody has read anything yet. -/
def start (t : ProcTable) (termio : Termios) : ConsoleSystem :=
  ⟨t, Console.init termio, fun _ => none, fun _ => false, [], []⟩

/-! ## What readers are promised -/

/-- The process sleeps in `console_read`. -/
def Asleep (s : ConsoleSystem) (p : ProcId) : Prop :=
  s.reading p ≠ none ∧ s.table.status p = .sleeping

instance (s : ConsoleSystem) (p : ProcId) : Decidable (s.Asleep p) :=
  inferInstanceAs (Decidable (_ ∧ _))

/-- A read that slept returns nothing only if the end of file has been entered meanwhile, who
sleeps in a read is on the queue, and what is in the ring is what has not been returned yet. -/
structure ReadContract (s : ConsoleSystem) (op : ConsoleOp) (r : ConsoleReply)
    (s' : ConsoleSystem) : Prop where
  slept : op = .resume → r = .bytes [] → s.eof s.table.currentProc = true
  queued : ∀ p, s'.Asleep p → ∃ q, s'.table.Queue .console q ∧ p ∈ q
  once : s'.entered = (s'.delivered.map Prod.snd).flatten ++ s'.console.input.contents

/-- The process has been woken in `console_read`, and not by an end of file. -/
def Expects (s : ConsoleSystem) (p : ProcId) : Prop :=
  s.reading p ≠ none ∧ ¬ s.Asleep p ∧ s.eof p = false

instance (s : ConsoleSystem) (p : ProcId) : Decidable (s.Expects p) :=
  inferInstanceAs (Decidable (_ ∧ _))

/-- A read leaves something when another process expects characters. -/
def LeavesSome (s : ConsoleSystem) (count : Nat) : Prop :=
  ∀ p, p ≠ s.table.currentProc → s.Expects p → count < s.console.input.used

instance (s : ConsoleSystem) (count : Nat) : Decidable (s.LeavesSome count) :=
  inferInstanceAs (Decidable (∀ _, _))

/-- No reader takes the last characters before another one that has been woken, and `execve` is
not called by a process whose parent sleeps in `console_read`. -/
def KeepsReaders (s : ConsoleSystem) : ConsoleOp → Prop
  | .read count => s.LeavesSome count
  | .resume => ∀ count ∈ s.reading s.table.currentProc, s.LeavesSome count
  | .execve _ =>
      ∀ parent ∈ (s.table.allProcesses s.table.currentProc).parent, ¬ s.Asleep parent
  | _ => True

instance (s : ConsoleSystem) (op : ConsoleOp) : Decidable (s.KeepsReaders op) := by
  cases op <;> unfold KeepsReaders <;> infer_instance

/-- Who has been woken, and not by an end of file, finds something to read. -/
def Served (s : ConsoleSystem) : Prop := ∀ p, s.Expects p → s.console.input.contents ≠ []

/-- The processes on the queue are exactly those that sleep in a read; while there are any, the
ring is empty, and they have not been sent an end of file. -/
structure ConsoleInv (idle : ProcId) (s : ConsoleSystem) (l q : List ProcId) : Prop where
  machine : ProcTable.MachineInv idle s.table l
  idle_outside : s.reading idle = none
  listed : ∀ p, s.reading p ≠ none → p ∈ l
  positive : ∀ p, ∀ count ∈ s.reading p, 1 ≤ count
  queue : s.table.Queue .console q
  mem_queue : ∀ p, p ∈ q ↔ s.Asleep p
  loose : ∀ p, p ∉ q → s.table.waitNext p = none
  inside : ∀ p, s.reading p ≠ none → s.table.status p = .ready ∨ s.Asleep p
  unsent : ∀ p, s.Asleep p → s.eof p = false
  empty : ∀ p, s.Asleep p → s.console.input.contents = []
  account : s.entered = (s.delivered.map Prod.snd).flatten ++ s.console.input.contents

section Steps

variable {idle : ProcId} {s s' : ConsoleSystem} {l q : List ProcId} {r : ConsoleReply}
  {op : ConsoleOp} {count : Nat}

/-- The running process is awake. -/
theorem ConsoleInv.current_not_asleep (h : ConsoleInv idle s l q) :
    ¬ s.Asleep s.table.currentProc := by
  intro hasleep
  have hready := h.machine.ready
  rw [hasleep.2] at hready
  cases hready

theorem ConsoleInv.current_not_mem (h : ConsoleInv idle s l q) : s.table.currentProc ∉ q :=
  fun hmem => h.current_not_asleep ((h.mem_queue _).1 hmem)

/-- Another table in which the readers, their statuses and the queue are the same. -/
theorem ConsoleInv.of_table (h : ConsoleInv idle s l q) {t : ProcTable} {l' : List ProcId}
    (hmachine : ProcTable.MachineInv idle t l') (hlisted : ∀ p ∈ l, p ∈ l')
    (hfirst : t.waitQueueFirst = s.table.waitQueueFirst)
    (hqueue : ∀ p ∈ q, t.waitNext p = s.table.waitNext p)
    (hloose : ∀ p, p ∉ q → t.waitNext p = none)
    (hstatus : ∀ p, s.reading p ≠ none → t.status p = s.table.status p) :
    ConsoleInv idle { s with table := t } l' q ∧
      (Served s → Served { s with table := t }) := by
  have hasleep (p : ProcId) : ({ s with table := t } : ConsoleSystem).Asleep p ↔ s.Asleep p :=
    and_congr_right fun hreading => by rw [hstatus p hreading]
  refine ⟨⟨hmachine, h.idle_outside, fun p hp => hlisted p (h.listed p hp), h.positive, ?_, ?_,
    hloose, ?_, ?_, ?_, h.account⟩, ?_⟩
  · rw [ProcTable.Queue, hfirst]
    exact h.queue.congr hqueue
  · intro p
    rw [h.mem_queue, hasleep]
  · intro p hp
    rw [hasleep, hstatus p hp]
    exact h.inside p hp
  · intro p hp
    exact h.unsent p ((hasleep p).1 hp)
  · intro p hp
    exact h.empty p ((hasleep p).1 hp)
  · intro hserved p hp
    exact hserved p ⟨hp.1, fun h => hp.2.1 ((hasleep p).2 h), hp.2.2⟩

/-! ## A character arrives -/

/-- The characters behind those that were in the ring are entered. -/
theorem drop_of_append {α : Type*} {before after added : List α} (h : after = before ++ added) :
    after.drop before.length = added := by
  rw [h, List.drop_left]

/-- When nobody is woken the ring does not change. -/
theorem ConsoleInv.insert_quiet (h : ConsoleInv idle s l q) (hserved : Served s) {ch : UInt8}
    (hend : ¬ s.console.EndOfFile ch) (hwakes : s.console.insertCharWakes ch = false)
    (hgrows : Console.Grows s.console (s.console.insertChar ch).2 false) :
    ConsoleInv idle (s.insertChar ch) l q ∧ Served (s.insertChar ch) := by
  obtain ⟨added, hcontents, hnone⟩ := hgrows
  have hnothing : added = [] := Decidable.not_not.1 fun hne => Bool.noConfusion (hnone.2 hne)
  rw [hnothing, List.append_nil] at hcontents
  have htable : (s.insertChar ch).table = s.table := by
    simp only [insertChar, hwakes, Bool.false_eq_true, if_false]
  have heof : (s.insertChar ch).eof = s.eof := by
    funext p
    simp only [insertChar, hend, and_false, decide_false, Bool.or_false]
  have hasleep (p : ProcId) : (s.insertChar ch).Asleep p ↔ s.Asleep p := by
    rw [Asleep, Asleep, htable]
    rfl
  have hentered : (s.insertChar ch).entered = s.entered := by
    show s.entered ++ (s.console.insertChar ch).2.input.contents.drop _ = s.entered
    rw [hcontents, List.drop_length, List.append_nil]
  refine ⟨⟨?_, h.idle_outside, h.listed, h.positive, ?_, ?_, ?_, ?_, ?_, ?_, ?_⟩, ?_⟩
  · rw [htable]
    exact h.machine
  · rw [htable]
    exact h.queue
  · intro p
    rw [h.mem_queue, hasleep]
  · rw [htable]
    exact h.loose
  · intro p hp
    rw [hasleep, htable]
    exact h.inside p hp
  · intro p hp
    rw [heof]
    exact h.unsent p ((hasleep p).1 hp)
  · intro p hp
    exact hcontents.trans (h.empty p ((hasleep p).1 hp))
  · rw [hentered, h.account, ← hcontents]
    rfl
  · intro p hp
    have hsame : s.Expects p := ⟨hp.1, fun ha => hp.2.1 ((hasleep p).2 ha), heof ▸ hp.2.2⟩
    show (s.console.insertChar ch).2.input.contents ≠ []
    rw [hcontents]
    exact hserved p hsame

/-- Everybody is woken: for characters that are in the ring now, or for the end of the file. -/
theorem ConsoleInv.insert_wakes (h : ConsoleInv idle s l q) {ch : UInt8} {added : List UInt8}
    (hwakes : s.console.insertCharWakes ch = true)
    (hcontents : (s.console.insertChar ch).2.input.contents = s.console.input.contents ++ added)
    (hreason : added ≠ [] ∨ s.console.EndOfFile ch) :
    ConsoleInv idle (s.insertChar ch) l [] ∧ Served (s.insertChar ch) := by
  have htable : (s.insertChar ch).table = s.table.waitQueueWake .console := by
    simp only [insertChar, hwakes, if_true]
  have hready : ∀ p, s.reading p ≠ none →
      (s.table.waitQueueWake .console).status p = .ready := by
    intro p hp
    rw [ProcTable.waitQueueWake_status, h.queue.queued_eq]
    split
    · rfl
    · rename_i hmem
      exact (h.inside p hp).resolve_right fun ha => hmem ((h.mem_queue p).2 ha)
  have hawake : ∀ p, ¬ (s.insertChar ch).Asleep p := by
    rintro p ⟨hreading, hsleeping⟩
    rw [htable, hready p hreading] at hsleeping
    cases hsleeping
  obtain ⟨hempty, hcut⟩ := h.queue.wake
  refine ⟨⟨?_, h.idle_outside, h.listed, h.positive, ?_, ?_, ?_, ?_, ?_, ?_, ?_⟩, ?_⟩
  · rw [htable]
    refine ⟨h.machine.toListInv.waitQueueWake .console, ?_⟩
    rw [ProcTable.waitQueueWake_status, ProcTable.waitQueueWake_currentProc, h.machine.ready,
      ite_self]
  · rw [htable]
    exact hempty
  · intro p
    exact iff_of_false List.not_mem_nil (hawake p)
  · intro p _
    rw [htable, hcut p]
    split
    · rfl
    · rename_i hp
      exact h.loose p hp
  · intro p hp
    rw [htable]
    exact Or.inl (hready p hp)
  · exact fun p hp => absurd hp (hawake p)
  · exact fun p hp => absurd hp (hawake p)
  · show s.entered ++ (s.console.insertChar ch).2.input.contents.drop _ =
      (s.delivered.map Prod.snd).flatten ++ (s.console.insertChar ch).2.input.contents
    rw [drop_of_append hcontents, hcontents, h.account, List.append_assoc]
  · intro p hp
    show (s.console.insertChar ch).2.input.contents ≠ []
    rw [hcontents]
    rcases hreason with hadded | hend
    · exact fun h => hadded (List.append_eq_nil_iff.1 h).2
    · -- it has been sent the end of the file
      have hsent := hp.2.2
      simp only [insertChar, hend, and_true, Bool.or_eq_false_iff, decide_eq_false_iff_not,
        not_not] at hsent
      exact absurd hsent.2 hp.1

theorem ConsoleInv.insertChar (h : ConsoleInv idle s l q) (hserved : Served s) (ch : UInt8) :
    (∃ q', ConsoleInv idle (s.insertChar ch) l q') ∧ Served (s.insertChar ch) := by
  rcases Console.insertChar_cases s.console ch with ⟨hend, hwakes, hinput⟩ | ⟨hend, hgrows⟩
  · have hsame : (s.console.insertChar ch).2.input.contents = s.console.input.contents ++ [] := by
      rw [hinput, List.append_nil]
    obtain ⟨hinv, hserved'⟩ := h.insert_wakes hwakes hsame (Or.inr hend)
    exact ⟨⟨[], hinv⟩, hserved'⟩
  · cases hwakes : s.console.insertCharWakes ch with
    | false =>
        rw [hwakes] at hgrows
        obtain ⟨hinv, hserved'⟩ := h.insert_quiet hserved hend hwakes hgrows
        exact ⟨⟨q, hinv⟩, hserved'⟩
    | true =>
        obtain ⟨added, hcontents, hany⟩ := hgrows
        obtain ⟨hinv, hserved'⟩ := h.insert_wakes hwakes hcontents (Or.inl (hany.1 hwakes))
        exact ⟨⟨[], hinv⟩, hserved'⟩

/-! ## Reading -/

/-- A call that takes characters leaves the readers in order. -/
theorem ConsoleInv.take (h : ConsoleInv idle s l q) (count : Nat) :
    ConsoleInv idle (s.take count).2 l q := by
  obtain ⟨hbytes, input, hconsole, hdrop⟩ := Console.read_eq count s.console
  have hself : (s.take count).2.reading s.table.currentProc = none := Function.update_self _ _ _
  have hother (p : ProcId) (hp : p ≠ s.table.currentProc) :
      (s.take count).2.reading p = s.reading p := Function.update_of_ne hp _ _
  have hreading (p : ProcId) (hp : (s.take count).2.reading p ≠ none) :
      p ≠ s.table.currentProc ∧ s.reading p ≠ none := by
    have hne : p ≠ s.table.currentProc := by
      rintro rfl
      exact hp hself
    exact ⟨hne, hother p hne ▸ hp⟩
  have hasleep (p : ProcId) : (s.take count).2.Asleep p ↔ s.Asleep p := by
    constructor
    · intro hp
      exact ⟨(hreading p hp.1).2, hp.2⟩
    · intro hp
      have hne : p ≠ s.table.currentProc := by
        rintro rfl
        exact h.current_not_asleep hp
      exact ⟨hother p hne ▸ hp.1, hp.2⟩
  have hcontents : (s.take count).2.console.input.contents =
      s.console.input.contents.drop count := by
    show (s.console.read count).2.input.contents = _
    rw [hconsole]
    exact hdrop
  refine ⟨h.machine, ?_, ?_, ?_, h.queue, ?_, h.loose, ?_, ?_, ?_, ?_⟩
  · by_contra hidle
    exact (hreading idle hidle).2 h.idle_outside
  · exact fun p hp => h.listed p (hreading p hp).2
  · intro p n hn
    have hp : (s.take count).2.reading p ≠ none := by
      rw [hn]
      exact Option.some_ne_none n
    rw [hother p (hreading p hp).1] at hn
    exact h.positive p n hn
  · intro p
    rw [h.mem_queue, hasleep]
  · intro p hp
    rw [hasleep]
    exact h.inside p (hreading p hp).2
  · exact fun p hp => h.unsent p ((hasleep p).1 hp)
  · intro p hp
    rw [hcontents, h.empty p ((hasleep p).1 hp), List.drop_nil]
  · rw [hcontents]
    show s.entered = ((s.delivered ++ [(s.table.currentProc, (s.console.read count).1)]).map
      Prod.snd).flatten ++ _
    rw [List.map_append, List.flatten_append, h.account, hbytes, List.map_singleton,
      List.flatten_singleton, List.append_assoc, List.take_append_drop]

/-- Whoever expects characters still finds some exactly if the call leaves some. -/
theorem take_served_iff (s : ConsoleSystem) (count : Nat) :
    s.LeavesSome count ↔ Served (s.take count).2 := by
  obtain ⟨-, input, hconsole, hdrop⟩ := Console.read_eq count s.console
  have hcontents : (s.take count).2.console.input.contents ≠ [] ↔
      count < s.console.input.used := by
    show (s.console.read count).2.input.contents ≠ [] ↔ _
    rw [hconsole]
    show input.contents ≠ [] ↔ _
    rw [hdrop, Ne, List.drop_eq_nil_iff, Ring.length_contents, Nat.not_le]
  have hexpects (p : ProcId) : (s.take count).2.Expects p ↔
      p ≠ s.table.currentProc ∧ s.Expects p := by
    rcases eq_or_ne p s.table.currentProc with rfl | hp
    · refine iff_of_false ?_ fun hand => hand.1 rfl
      intro hself
      exact hself.1 (Function.update_self _ _ _)
    · have hother : (s.take count).2.reading p = s.reading p := Function.update_of_ne hp _ _
      rw [Expects, Asleep, hother]
      exact (and_iff_right hp).symm
  constructor
  · intro hleaves p hp
    obtain ⟨hne, hexp⟩ := (hexpects p).1 hp
    exact hcontents.2 (hleaves p hne hexp)
  · intro hafter p hne hexp
    exact hcontents.1 (hafter p ((hexpects p).2 ⟨hne, hexp⟩))

/-- A call that finds the ring empty puts its caller on the queue. -/
theorem ConsoleInv.sleep (h : ConsoleInv idle s l q) (hserved : Served s)
    (hcur : idle ≠ s.table.currentProc) (hcount : 1 ≤ count)
    (hempty : s.console.input.head = s.console.input.tail) {t : ProcTable}
    (hadd : s.table.waitQueueAdd .console s.table.currentProc = .ok t)
    (hs' : s' = { s with
      table := t
      reading := Function.update s.reading s.table.currentProc (some count)
      eof := Function.update s.eof s.table.currentProc false }) :
    ConsoleInv idle s' l (q ++ [s.table.currentProc]) ∧ Served s' := by
  obtain ⟨hinv, hsame, hqueue, hothers, -⟩ := h.machine.waitQueueAdd_queue hcur h.queue
    h.current_not_mem (h.loose _ h.current_not_mem) hadd
  have hnone : s.console.input.contents = [] := (Ring.contents_eq_nil _).2 hempty
  have hstatus (p : ProcId) : s'.table.status p =
      if p = s.table.currentProc then .sleeping else s.table.status p := by
    rw [hs', hsame.status, ProcTable.sleepIn_status]
  have hself : s'.reading s.table.currentProc = some count := by
    rw [hs']
    exact Function.update_self _ _ _
  have hreading (p : ProcId) (hp : p ≠ s.table.currentProc) : s'.reading p = s.reading p := by
    rw [hs']
    exact Function.update_of_ne hp _ _
  have heof (p : ProcId) (hp : p ≠ s.table.currentProc) : s'.eof p = s.eof p := by
    rw [hs']
    exact Function.update_of_ne hp _ _
  have hconsole : s'.console = s.console := by rw [hs']
  -- the caller sleeps now, the others as before
  have hcaller : s'.Asleep s.table.currentProc := by
    refine ⟨?_, ?_⟩
    · rw [hself]
      exact Option.some_ne_none count
    · rw [hstatus, if_pos rfl]
  have hasleep (p : ProcId) (hp : p ≠ s.table.currentProc) : s'.Asleep p ↔ s.Asleep p := by
    rw [Asleep, Asleep, hreading p hp, hstatus, if_neg hp]
  refine ⟨⟨?_, ?_, ?_, ?_, ?_, ?_, ?_, ?_, ?_, ?_, ?_⟩, ?_⟩
  · rw [hs']
    exact hinv
  · rw [hreading idle hcur]
    exact h.idle_outside
  · intro p hp
    rcases eq_or_ne p s.table.currentProc with rfl | hne
    · exact h.machine.running
    · exact h.listed p (hreading p hne ▸ hp)
  · intro p n hn
    rcases eq_or_ne p s.table.currentProc with rfl | hne
    · rw [hself] at hn
      cases hn
      exact hcount
    · rw [hreading p hne] at hn
      exact h.positive p n hn
  · rw [hs']
    exact hqueue
  · intro p
    rw [List.mem_append, List.mem_singleton]
    rcases eq_or_ne p s.table.currentProc with rfl | hne
    · exact iff_of_true (Or.inr rfl) hcaller
    · rw [hasleep p hne, h.mem_queue]
      exact or_iff_left hne
  · intro p hp
    have hp' : p ∉ q := fun hmem => hp (List.mem_append_left _ hmem)
    rw [hs', hothers p hp']
    exact h.loose p hp'
  · intro p hp
    rcases eq_or_ne p s.table.currentProc with rfl | hne
    · exact Or.inr hcaller
    · rw [hasleep p hne, hstatus, if_neg hne]
      exact h.inside p (hreading p hne ▸ hp)
  · intro p hp
    rcases eq_or_ne p s.table.currentProc with rfl | hne
    · rw [hs']
      exact Function.update_self _ _ _
    · rw [heof p hne]
      exact h.unsent p ((hasleep p hne).1 hp)
  · intro p _
    rw [hconsole]
    exact hnone
  · rw [hs']
    exact h.account
  · intro p hp
    have hne : p ≠ s.table.currentProc := by
      rintro rfl
      exact hp.2.1 hcaller
    rw [hconsole]
    refine hserved p ⟨hreading p hne ▸ hp.1, ?_, heof p hne ▸ hp.2.2⟩
    exact fun ha => hp.2.1 ((hasleep p hne).2 ha)

/-! ## Other steps -/

/-- A process that calls `vfork` is in no read, and neither is the one whose control block the
child gets. -/
theorem ConsoleInv.vfork (h : ConsoleInv idle s l q) (hcur : idle ≠ s.table.currentProc)
    (houtside : s.reading s.table.currentProc = none) {r : SysReply} {t : ProcTable}
    (hok : s.table.vfork = .ok (r, t)) :
    (∃ l', ConsoleInv idle { s with table := t } l' q) ∧
      (Served s → Served { s with table := t }) := by
  obtain ⟨hfirst, hnext⟩ := ProcTable.vfork_queues h.machine hok
  have hcalm : s.table.waitNext s.table.currentProc = none := h.loose _ h.current_not_mem
  have hqueue : ∀ p ∈ q, t.waitNext p = s.table.waitNext p := by
    intro p hp
    refine (hnext p).resolve_right fun hand => hand.1 ?_
    exact h.listed p ((h.mem_queue p).1 hp).1
  have hloose : ∀ p, p ∉ q → t.waitNext p = none := by
    intro p hp
    rcases hnext p with heq | ⟨-, heq⟩
    · rw [heq]
      exact h.loose p hp
    · rw [heq]
      exact hcalm
  rcases ProcTable.vfork_cases h.machine hcur hok with
    ⟨-, -, rfl⟩ | ⟨child, -, hchild, -, hmachine, hsame⟩
  · exact ⟨⟨l, h⟩, fun hserved => hserved⟩
  · have hne : s.table.currentProc ≠ child := fun hne => hchild (hne ▸ h.machine.running)
    have hstatus : ∀ p, s.reading p ≠ none → t.status p = s.table.status p := by
      intro p hp
      have hp' : p ≠ s.table.currentProc := by
        rintro rfl
        exact hp houtside
      have hp'' : p ≠ child := by
        rintro rfl
        exact hchild (h.listed p hp)
      rw [hsame.status, ProcTable.forked_status hne, if_neg hp', if_neg hp'']
    obtain ⟨hinv, hserved⟩ := h.of_table hmachine (fun p hp => List.mem_append_left _ hp) hfirst
      hqueue hloose hstatus
    exact ⟨⟨_, hinv⟩, hserved⟩

/-- `execve` makes the parent ready, which is harmless unless it sleeps in a read. -/
theorem ConsoleInv.execve (h : ConsoleInv idle s l q) {r : SysReply} {image : Option Image}
    {t : ProcTable} (hok : s.table.execve image = .ok (r, t)) :
    ((∀ parent ∈ (s.table.allProcesses s.table.currentProc).parent, ¬ s.Asleep parent) →
      (∃ l', ConsoleInv idle { s with table := t } l' q) ∧
        (Served s → Served { s with table := t })) ∧
    (Served { s with table := t } →
      ∀ parent ∈ (s.table.allProcesses s.table.currentProc).parent, ¬ s.Asleep parent) := by
  obtain ⟨parent, hparent, -, hmachine, hsame⟩ := ProcTable.execve_cases h.machine hok
  obtain ⟨hfirst, hnext⟩ := ProcTable.execve_queues hok
  have hstatus (p : ProcId) : t.status p = if p = parent then .ready else s.table.status p := by
    rw [hsame.status, ProcTable.execved_status]
  constructor
  · intro hawake
    have hkept : ∀ p, s.reading p ≠ none → t.status p = s.table.status p := by
      intro p hp
      rw [hstatus]
      split
      · rename_i heq
        subst heq
        exact ((h.inside p hp).resolve_right (hawake p hparent)).symm
      · rfl
    obtain ⟨hinv, hserved⟩ := h.of_table hmachine (fun _ hp => hp) hfirst
      (fun p _ => congrFun hnext p) (fun p hp => (congrFun hnext p).trans (h.loose p hp)) hkept
    exact ⟨⟨l, hinv⟩, hserved⟩
  · intro hserved p hp hasleep
    rw [hparent] at hp
    cases hp
    -- the parent has been made ready with nothing in the ring
    have hexpects : ({ s with table := t } : ConsoleSystem).Expects parent := by
      refine ⟨hasleep.1, ?_, h.unsent parent hasleep⟩
      rintro ⟨-, hsleeping⟩
      have hready : t.status parent = .ready := by
        rw [hstatus, if_pos rfl]
      rw [hready] at hsleeping
      cases hsleeping
    exact hserved parent hexpects (h.empty parent hasleep)

/-- A parent goes on in `vfork`. -/
theorem ConsoleInv.resumeVfork (h : ConsoleInv idle s l q) (hcur : idle ≠ s.table.currentProc) :
    (∃ l', ConsoleInv idle { s with table := s.table.setResume .user } l' q) ∧
      (Served s → Served { s with table := s.table.setResume .user }) := by
  have hmachine : ProcTable.MachineInv idle (s.table.setResume .user) l := by
    refine ⟨h.machine.toListInv.setResume hcur .user, ?_⟩
    exact (ProcTable.setResume_status .user _).trans h.machine.ready
  have hnext (p : ProcId) : (s.table.setResume .user).waitNext p = s.table.waitNext p :=
    ProcTable.modify_field Process.waitQueueNext (by rfl) p
  obtain ⟨hinv, hserved⟩ := h.of_table hmachine (fun _ hp => hp) rfl (fun p _ => hnext p)
    (fun p hp => (hnext p).trans (h.loose p hp)) fun p _ => ProcTable.setResume_status .user p
  exact ⟨⟨l, hinv⟩, hserved⟩

/-- The timer interrupt switches to another process. -/
theorem ConsoleInv.schedule (h : ConsoleInv idle s l q) {t : ProcTable}
    (hok : s.table.schedule = .ok t) :
    (∃ l', ConsoleInv idle { s with table := t } l' q) ∧
      (Served s → Served { s with table := t }) := by
  obtain ⟨hmachine, hsame⟩ := h.machine.toListInv.schedule hok
  obtain ⟨hnext, hfirst, -⟩ := ProcTable.schedule_queues hok
  obtain ⟨hinv, hserved⟩ := h.of_table hmachine (fun _ hp => hp) hfirst
    (fun p _ => congrFun hnext p) (fun p hp => (congrFun hnext p).trans (h.loose p hp))
    fun p _ => hsame.status p
  exact ⟨⟨l, hinv⟩, hserved⟩

/-! ## Runs -/

theorem machine_eq_ok {sysOp : SysOp} (hok : s.machine sysOp = .ok (r, s')) :
    ∃ reply t, s.table.perform sysOp = .ok (reply, t) ∧ r = .machine reply ∧
      s' = { s with table := t } := by
  rw [ConsoleSystem.machine] at hok
  split at hok
  · cases hok
  · rename_i reply t hperform
    cases hok
    exact ⟨reply, t, hperform, rfl, rfl⟩

/-- One step of any kind: the readers stay in order exactly if it meets the condition. -/
theorem ConsoleInv.step (h : ConsoleInv idle s l q) (hserved : Served s)
    (hok : s.step op = .ok (r, s')) :
    (s.KeepsReaders op → (∃ l' q', ConsoleInv idle s' l' q') ∧ Served s') ∧
      (Served s' → s.KeepsReaders op) := by
  rw [ConsoleSystem.step] at hok
  split at hok
  · rename_i henabled
    split at hok
    · rename_i result hperform
      cases hok
      -- a step with no condition of its own
      have hfree : (∃ l' q', ConsoleInv idle s' l' q') ∧ Served s' → s.KeepsReaders op →
          (s.KeepsReaders op → (∃ l' q', ConsoleInv idle s' l' q') ∧ Served s') ∧
            (Served s' → s.KeepsReaders op) :=
        fun hgood hkeeps => ⟨fun _ => hgood, fun _ => hkeeps⟩
      cases op with
      | insert ch =>
          cases hperform
          obtain ⟨⟨q', hinv⟩, hserved'⟩ := h.insertChar hserved ch
          exact hfree ⟨⟨l, q', hinv⟩, hserved'⟩ trivial
      | read count =>
          rw [perform, ConsoleSystem.read] at hperform
          split at hperform
          · rename_i hempty
            split at hperform
            · cases hperform
            · rename_i t hadd
              have hs' := (Prod.mk.inj (Except.ok.inj hperform)).2.symm
              obtain ⟨hinv, hserved'⟩ := h.sleep hserved
                (h.machine.toListInv.current_ne_idle henabled.2.2.1) henabled.2.2.2 hempty hadd hs'
              refine hfree ⟨⟨l, _, hinv⟩, hserved'⟩ fun p _ hp => ?_
              exact absurd ((Ring.contents_eq_nil _).2 hempty) (hserved p hp)
          · cases hperform
            have hiff := take_served_iff s count
            exact ⟨fun hkeeps => ⟨⟨l, q, h.take count⟩, hiff.1 hkeeps⟩, hiff.2⟩
      | resume =>
          rw [perform] at hperform
          split at hperform
          · cases hperform
          · rename_i count hcount
            cases hperform
            have hiff := take_served_iff s count
            constructor
            · intro hkeeps
              exact ⟨⟨l, q, h.take count⟩, hiff.1 (hkeeps count hcount)⟩
            · intro hserved' n hn
              rw [hcount] at hn
              cases hn
              exact hiff.2 hserved'
      | vfork =>
          obtain ⟨reply, t, hvfork, -, rfl⟩ := machine_eq_ok hperform
          obtain ⟨⟨l', hinv⟩, hserved'⟩ := h.vfork
            (h.machine.toListInv.current_ne_idle henabled.2.2) henabled.1 hvfork
          exact hfree ⟨⟨l', q, hinv⟩, hserved' hserved⟩ trivial
      | execve image =>
          obtain ⟨reply, t, hexecve, -, rfl⟩ := machine_eq_ok hperform
          obtain ⟨hkeeps, hback⟩ := h.execve hexecve
          refine ⟨fun hawake => ?_, hback⟩
          obtain ⟨⟨l', hinv⟩, hserved'⟩ := hkeeps hawake
          exact ⟨⟨l', q, hinv⟩, hserved' hserved⟩
      | resumeVfork =>
          obtain ⟨reply, t, hresume, -, rfl⟩ := machine_eq_ok hperform
          obtain ⟨-, hvfork⟩ := henabled
          rw [ProcTable.perform, ProcTable.resumeCall] at hresume
          split at hvfork
          · rename_i child childPid hwhere
            rw [hwhere] at hresume
            cases hresume
            have hcur : idle ≠ s.table.currentProc := by
              rintro rfl
              rw [h.machine.idle_user] at hwhere
              cases hwhere
            obtain ⟨⟨l', hinv⟩, hserved'⟩ := h.resumeVfork hcur
            exact hfree ⟨⟨l', q, hinv⟩, hserved' hserved⟩ trivial
          · exact hvfork.elim
      | schedule =>
          obtain ⟨reply, t, hschedule, -, rfl⟩ := machine_eq_ok hperform
          obtain ⟨u, hu, heq⟩ := map_eq_ok.1 hschedule
          cases heq
          obtain ⟨⟨l', hinv⟩, hserved'⟩ := h.schedule hu
          exact hfree ⟨⟨l', q, hinv⟩, hserved' hserved⟩ trivial
    · cases hok
  · cases hok

/-- Readers in order before and after a step: it keeps the contract. -/
theorem ConsoleInv.readContract (h : ConsoleInv idle s l q) (hserved : Served s)
    {l' q' : List ProcId} (h' : ConsoleInv idle s' l' q') (hok : s.step op = .ok (r, s')) :
    ReadContract s op r s' where
  slept := by
    rintro rfl rfl
    rw [ConsoleSystem.step] at hok
    split at hok
    · split at hok
      · rename_i result hperform
        cases hok
        rw [perform] at hperform
        split at hperform
        · cases hperform
        · rename_i count hcount
          have hbytes : (s.console.read count).1 = [] :=
            ConsoleReply.bytes.inj (Prod.mk.inj (Except.ok.inj hperform)).1
          have hpositive := h.positive _ count hcount
          rw [(Console.read_eq count s.console).1, List.take_eq_nil_iff] at hbytes
          -- it has been woken for characters, which are gone, or for the end of the file
          by_contra hnot
          rcases hbytes with hzero | hnone
          · rw [hzero] at hpositive
            cases hpositive
          · refine hserved s.table.currentProc ⟨?_, h.current_not_asleep, ?_⟩ hnone
            · rw [hcount]
              exact Option.some_ne_none count
            · exact Bool.eq_false_iff.2 hnot
      · cases hok
    · cases hok
  queued p hp := ⟨q', h'.queue, (h'.mem_queue p).2 hp⟩
  once := h'.account

end Steps

theorem start_inv {idle : ProcId} {t : ProcTable} {l : List ProcId} (termio : Termios)
    (h : ProcTable.MachineInv idle t l) (hqueue : t.Queue .console [])
    (hloose : ∀ p, t.waitNext p = none) :
    ConsoleInv idle (start t termio) l [] ∧ Served (start t termio) := by
  have hnone : ∀ p, ¬ (start t termio).Asleep p := fun p hp => hp.1 rfl
  refine ⟨⟨h, rfl, fun p hp => absurd rfl hp, ?_, hqueue, ?_, fun p _ => hloose p,
    fun p hp => absurd rfl hp, fun p hp => absurd hp (hnone p), fun p hp => absurd hp (hnone p),
    rfl⟩, fun p hp => absurd rfl hp.1⟩
  · intro p n hn
    cases hn
  · exact fun p => iff_of_false List.not_mem_nil (hnone p)

/-- From any table of processes none of which is on a queue, over any run of characters, reads
and the other steps: if no reader takes the last characters before one that has been woken, and no
parent is made ready while it sleeps in a read, every step keeps the contract. -/
theorem run_readContract {idle : ProcId} {t : ProcTable} {l : List ProcId} (termio : Termios)
    {ops : List ConsoleOp} (h : ProcTable.MachineInv idle t l) (hqueue : t.Queue .console [])
    (hloose : ∀ p, t.waitNext p = none) (hkeeps : Along step KeepsReaders (start t termio) ops) :
    Throughout step ReadContract (start t termio) ops := by
  refine throughout_of_along (fun s => (∃ l q, ConsoleInv idle s l q) ∧ Served s) ?_
    ⟨⟨l, [], (start_inv termio h hqueue hloose).1⟩, (start_inv termio h hqueue hloose).2⟩ hkeeps
  rintro s op r s' ⟨⟨l, q, hinv⟩, hserved⟩ hkeeps hok
  obtain ⟨⟨l', q', hinv'⟩, hserved'⟩ := (hinv.step hserved hok).1 hkeeps
  exact ⟨hinv.readContract hserved hinv' hok, ⟨l', q', hinv'⟩, hserved'⟩

/-- init and its child read, and a character arrives for each of them. -/
theorem run_readContract_pair :
    Throughout step ReadContract
      (start (ProcTable.startUserspace 0 0 ⟨[], 0, 0, 0, 0⟩) ⟨0, 0, fun _ => 0⟩)
      [.vfork, .execve none, .resumeVfork, .read 1, .read 1, .insert 97, .insert 98, .schedule,
        .resume, .schedule, .resume] := by
  have hloose : ∀ p, (ProcTable.startUserspace 0 0 ⟨[], 0, 0, 0, 0⟩).waitNext p = none := by
    decide +kernel
  exact run_readContract ⟨0, 0, fun _ => 0⟩
    (ProcTable.startUserspace_inv 0 0 ⟨[], 0, 0, 0, 0⟩) rfl hloose (by decide +kernel)

/-- Both are woken for one character, and the second one returns nothing. -/
theorem not_readContract : ¬ ∀ (idle : ProcId) (t : ProcTable) (l : List ProcId)
    (termio : Termios) (ops : List ConsoleOp), ProcTable.MachineInv idle t l →
      t.Queue .console [] → (∀ p, t.waitNext p = none) →
        Throughout step ReadContract (start t termio) ops := by
  intro hall
  have hloose : ∀ p, (ProcTable.startUserspace 0 0 ⟨[], 0, 0, 0, 0⟩).waitNext p = none := by
    decide +kernel
  have hrun := hall 0 _ _ ⟨0, 0, fun _ => 0⟩ [.vfork, .execve none, .resumeVfork, .read 1, .read 1,
    .insert 97, .schedule, .resume, .schedule, .resume]
    (ProcTable.startUserspace_inv 0 0 ⟨[], 0, 0, 0, 0⟩) rfl hloose
  obtain ⟨⟨rs, s⟩, hbefore, heof⟩ := map_eq_ok.1 (by decide +kernel :
    (run step (start (ProcTable.startUserspace 0 0 ⟨[], 0, 0, 0, 0⟩) ⟨0, 0, fun _ => 0⟩)
      [.vfork, .execve none, .resumeVfork, .read 1, .read 1, .insert 97, .schedule, .resume,
        .schedule]).map (fun x => (x.2.eof x.2.table.currentProc,
          (x.2.step .resume).map Prod.fst)) = .ok (false, .ok (.bytes [])))
  obtain ⟨hfalse, hlast⟩ := Prod.mk.inj heof
  obtain ⟨⟨r, s'⟩, hstep, hbytes⟩ := map_eq_ok.1 hlast
  have hcontract := throughout_of_run hbefore hrun
  have htrue := (hcontract r s' hstep).1.slept rfl hbytes
  rw [hfalse] at htrue
  cases htrue

end ConsoleSystem

end Vmwos
