import Vmwos.Lib.Base
import Vmwos.Library.Ring
import Mathlib.Data.List.Induction

/-!
# The input side of the console

In canonical mode `console_insert_char` collects characters in `canon_buffer`, where they can be
erased, and puts a completed line into the input ring, from which `console_read` takes its bytes.
`typeChar` says what lines a sequence of characters makes, without buffers; `InputAt` connects it to
the state of the console. The ring holds a byte less than the edit buffer: a line of 256 bytes
loses its last one, any other line is delivered (`delivers_iff`).

Waking the sleepers does not touch the buffers and is left out; a call of `console_read` that sleeps
counts at its loop, which it comes to when it has been woken.
-/

set_option autoImplicit false

namespace Vmwos

open Library

/-- `INPUT_BUFFER_SIZE` -/
abbrev inputBufferSize : Nat := 256
/-- `CANON_BUFFER_SIZE` -/
abbrev canonBufferSize : Nat := 256

/-- `ICRNL` -/
def icrnl : UInt32 := 0o400
/-- `IGNCR` -/
def igncr : UInt32 := 0o200
/-- `ICANON` -/
def icanon : UInt32 := 0o2
/-- `ECHO` -/
def echoFlag : UInt32 := 0o10
/-- `ECHOCTL` -/
def echoctl : UInt32 := 0o1000
/-- `VERASE` -/
def verase : Nat := 2
/-- `VEOF` -/
def veof : Nat := 4

/-- `struct termios`, the part that the input goes by. -/
structure Termios where
  iflag : UInt32
  lflag : UInt32
  cc : Nat → UInt8

/-- `ICANON` and `ICRNL` are set and `IGNCR` is clear. -/
structure Termios.Canonical (termio : Termios) : Prop where
  icanon : termio.lflag &&& icanon ≠ 0
  icrnl : termio.iflag &&& icrnl ≠ 0
  igncr : termio.iflag &&& igncr = 0

/-- The state of `console_io.c`, with what `console_write` has been given. -/
structure Console where
  input : Ring UInt8 inputBufferSize
  canonBuffer : Nat → UInt8
  canonOffset : Nat
  termio : Termios
  written : List UInt8

namespace Console

/-- `console_write` -/
def write (s : Console) (buf : List UInt8) : Console := { s with written := s.written ++ buf }

/-- `console_actual_insert_char` -/
def actualInsertChar (s : Console) (ch : UInt8) (empty : Bool) : Int × Console :=
  if empty then (0, s)
  else
    match s.input.push ch with
    | none => (-1, s)
    | some input => (0, { s with input })

/-- `is_control_char` -/
def isControlChar (ch : UInt8) : Bool :=
  if ch ≥ 32 then false
  else if ch = 10 then false
  else if ch = 9 then false
  else if ch = 0x11 ∨ ch = 0x13 then false
  else true

/-- The loop that puts the line into the ring, `n` more rounds from character `i` on. -/
def insertCanon : Nat → Nat → Console → Console
  | 0, _, s => s
  | n + 1, i, s => insertCanon n (i + 1) (s.actualInsertChar (s.canonBuffer i) false).2

/-- `canon_no_add` when the line is done. -/
def canonDone (s : Console) : Console :=
  let s := insertCanon s.canonOffset 0 s
  let s := if s.canonOffset = 0 then (s.actualInsertChar 0 true).2 else s
  { s with canonOffset := 0 }

/-- The echo of a character. -/
def echo (s : Console) (ch : UInt8) : Console :=
  if s.termio.lflag &&& echoFlag ≠ 0 then
    if s.termio.lflag &&& echoctl ≠ 0 ∧ isControlChar ch then s.write [94, ch + 64]
    else s.write [s.canonBuffer s.canonOffset]
  else s

/-- The part of `console_canonical_read` about delete. -/
def deleteChar (s : Console) : Console :=
  if s.canonOffset > 0 then
    let s := { s with canonOffset := s.canonOffset - 1 }
    if s.termio.lflag &&& echoFlag ≠ 0 then s.write [8, 32, 8] else s
  else s

/-- The part of `console_canonical_read` that adds a character to the buffer. -/
def addChar (s : Console) (ch : UInt8) : Console :=
  let s := { s with canonBuffer := Function.update s.canonBuffer s.canonOffset ch }
  let s := s.echo ch
  let s := { s with canonOffset := s.canonOffset + 1 }
  if s.canonOffset = canonBufferSize ∨ ch = 10 then s.canonDone else s

/-- `console_canonical_read` -/
def canonicalRead (s : Console) (ch : UInt8) : Int × Console :=
  let ch := if s.termio.iflag &&& icrnl ≠ 0 then (if ch = 13 then 10 else ch) else ch
  if s.termio.iflag &&& igncr ≠ 0 ∧ ch = 13 then (0, s)
  else if ch = s.termio.cc veof then (0, s.canonDone)
  else if ch = 0x8 ∨ ch = s.termio.cc verase then (0, s.deleteChar)
  else (0, s.addChar ch)

/-- `console_insert_char` -/
def insertChar (s : Console) (ch : UInt8) : Int × Console :=
  if s.termio.lflag &&& icanon ≠ 0 then s.canonicalRead ch
  else if s.termio.iflag &&& igncr ≠ 0 ∧ ch = 13 then (0, s)
  else
    let ch := if s.termio.iflag &&& icrnl ≠ 0 then (if ch = 13 then 10 else ch) else ch
    s.actualInsertChar ch false

/-- `console_get_char`, none for -1. -/
def getChar (s : Console) : Option (UInt8 × Console) :=
  match s.input.pop with
  | none => none
  | some (ch, input) => some (ch, { s with input })

/-- The loop of `console_read`: the bytes it stores. -/
def read : Nat → Console → List UInt8 × Console
  | 0, s => ([], s)
  | count + 1, s =>
      match s.getChar with
      | none => ([], s)
      | some (ch, s) => (ch :: (read count s).1, (read count s).2)

/-- The console at the start, with some settings. -/
def init (termio : Termios) : Console where
  input := ⟨fun _ => 0, 0, 0⟩
  canonBuffer := fun _ => 0
  canonOffset := 0
  termio := termio
  written := []

/-! ## What the characters mean -/

/-- The lines completed so far and the line that is being typed. -/
structure Typed where
  lines : List (List UInt8)
  current : List UInt8

/-- A line is done. -/
def Typed.finish (t : Typed) (line : List UInt8) : Typed := ⟨t.lines ++ [line], []⟩

/-- A character arrives: it ends the line without being part of it, takes back the last character,
or goes behind the line, which a newline or the 256th character ends. -/
def typeChar (termio : Termios) (t : Typed) (ch : UInt8) : Typed :=
  let ch := if ch = 13 then 10 else ch
  if ch = termio.cc veof then t.finish t.current
  else if ch = 8 ∨ ch = termio.cc verase then { t with current := t.current.dropLast }
  else if ch = 10 ∨ t.current.length + 1 = 256 then t.finish (t.current ++ [ch])
  else { t with current := t.current ++ [ch] }

/-- What happens to the console: a character arrives, or a call of `console_read` takes bytes. -/
inductive Event where
  | receive (ch : UInt8)
  | read (count : Nat)

/-- The console and the bytes returned by `console_read`. -/
structure Session where
  console : Console
  returned : List UInt8

/-- The session after an event. -/
def Session.step (s : Session) : Event → Session
  | .receive ch => { s with console := (s.console.insertChar ch).2 }
  | .read count => ⟨(s.console.read count).2, s.returned ++ (s.console.read count).1⟩

/-- The session after a sequence of events. -/
def session (termio : Termios) (events : List Event) : Session :=
  events.foldl Session.step ⟨init termio, []⟩

/-- What has been typed in a sequence of events. -/
def typed (termio : Termios) (events : List Event) : Typed :=
  events.foldl (fun t event => match event with
    | .receive ch => typeChar termio t ch
    | .read _ => t) ⟨[], []⟩

/-- What has been returned is a part of the lines, and one more call returns the rest. -/
def Delivers (termio : Termios) (events : List Event) : Prop :=
  (session termio events).returned <+: (typed termio events).lines.flatten ∧
    (session termio (events ++ [.read inputBufferSize])).returned =
      (typed termio events).lines.flatten

/-- The input ring is empty whenever a line is completed. -/
def EmptyAtLineEnd (termio : Termios) (events : List Event) : Prop :=
  ∀ before ch, before ++ [.receive ch] <+: events →
    (typed termio (before ++ [.receive ch])).lines ≠ (typed termio before).lines →
    (session termio before).console.input.head = (session termio before).console.input.tail

/-! ## One character, one call -/

section Step

variable {termio : Termios} {t : Typed} {s : Console}

theorem take_append_take {α : Type} (n : Nat) (l m : List α) :
    (l.take n ++ m).take n = (l ++ m).take n := by
  rcases Nat.le_total l.length n with h | h
  · rw [List.take_of_length_le h]
  · rw [List.take_append_of_le_length (by rw [List.length_take]; omega), List.take_take,
      Nat.min_self, List.take_append_of_le_length h]

/-- A character goes behind those in the ring, if there is room. -/
theorem actualInsertChar_cases (s : Console) (ch : UInt8) :
    ∃ input, (s.actualInsertChar ch false).2 = { s with input } ∧
      input.contents = (s.input.contents ++ [ch]).take 255 := by
  have hlt : s.input.used < 256 := s.input.used_lt
  cases hpush : s.input.push ch with
  | none =>
    refine ⟨s.input, by simp [actualInsertChar, hpush], ?_⟩
    have hfull : s.input.used + 1 = 256 := (Ring.push_eq_none _ _).1 hpush
    have hlength : s.input.contents.length = 255 := by
      rw [Ring.length_contents]
      exact Nat.succ.inj hfull
    rw [← hlength, List.take_left]
  | some input =>
    refine ⟨input, by simp [actualInsertChar, hpush], ?_⟩
    have hroom : ¬ s.input.used + 1 = 256 := fun h => by
      rw [(Ring.push_eq_none _ ch).2 h] at hpush
      cases hpush
    rw [Ring.contents_push hpush, List.take_of_length_le]
    rw [List.length_append, Ring.length_contents, List.length_singleton]
    omega

/-- The loop puts the characters of the edit buffer behind those in the ring. -/
theorem insertCanon_cases (n i : Nat) (s : Console) :
    ∃ input, insertCanon n i s = { s with input } ∧
      input.contents =
        (s.input.contents ++ (List.range n).map fun k => s.canonBuffer (i + k)).take 255 := by
  induction n generalizing i s with
  | zero =>
    have hlt : s.input.used < 256 := s.input.used_lt
    refine ⟨s.input, rfl, ?_⟩
    rw [List.range_zero, List.map_nil, List.append_nil, List.take_of_length_le]
    rw [Ring.length_contents]
    exact Nat.le_of_lt_succ hlt
  | succ n ih =>
    obtain ⟨first, hfirst, hcontents⟩ := actualInsertChar_cases s (s.canonBuffer i)
    obtain ⟨input, hinput, hrest⟩ := ih (i + 1) (s.actualInsertChar (s.canonBuffer i) false).2
    refine ⟨input, ?_, ?_⟩
    · rw [insertCanon, hinput, hfirst]
    · rw [hrest, hfirst, hcontents, take_append_take, List.append_assoc,
        List.range_succ_eq_map, List.map_cons, List.map_map, Nat.add_zero]
      congr 2
      refine List.cons_eq_cons.2 ⟨rfl, List.map_congr_left fun k _ => ?_⟩
      rw [Function.comp_apply, Nat.add_right_comm, Nat.add_assoc]

/-- The line in the edit buffer. -/
def line (s : Console) : List UInt8 := (List.range s.canonOffset).map s.canonBuffer

@[simp] theorem length_line (s : Console) : s.line.length = s.canonOffset := by
  rw [line, List.length_map, List.length_range]

/-- The line goes to the ring, and the edit buffer is empty. -/
theorem canonDone_cases (s : Console) :
    ∃ input, s.canonDone = { s with input, canonOffset := 0 } ∧
      input.contents = (s.input.contents ++ s.line).take 255 := by
  obtain ⟨input, hinput, hcontents⟩ := insertCanon_cases s.canonOffset 0 s
  refine ⟨input, ?_, ?_⟩
  · simp only [canonDone, hinput, actualInsertChar]
    split <;> rfl
  · simp only [Nat.zero_add] at hcontents
    exact hcontents

/-- The edit buffer holds the line that is being typed, and has room for a character. -/
structure Follows (termio : Termios) (t : Typed) (s : Console) : Prop where
  termio_eq : s.termio = termio
  line_eq : s.line = t.current
  short : t.current.length < 256

/-- What a character does: it leaves the ring alone, or a line is completed and put into it. -/
def Receives (t t' : Typed) (s s' : Console) : Prop :=
  t'.lines = t.lines ∧ s'.input = s.input ∨
    ∃ line, t'.lines = t.lines ++ [line] ∧ line.length ≤ 256 ∧
      s'.input.contents = (s.input.contents ++ line).take 255

/-- The line is done. -/
theorem canonDone_follows {typedLine : List UInt8} (hline : s.line = typedLine)
    (htermio : s.termio = termio) :
    Follows termio (t.finish typedLine) s.canonDone ∧
      s.canonDone.input.contents = (s.input.contents ++ typedLine).take 255 := by
  obtain ⟨input, hdone, hcontents⟩ := canonDone_cases s
  rw [hdone, ← hline]
  exact ⟨⟨htermio, rfl, (by decide : 0 < 256)⟩, hcontents⟩

/-- The echo goes to the screen only. -/
theorem echo_eq (s : Console) (ch : UInt8) : ∃ written, s.echo ch = { s with written } := by
  unfold echo
  split
  · split
    · exact ⟨_, rfl⟩
    · exact ⟨_, rfl⟩
  · exact ⟨s.written, rfl⟩

theorem line_erase {buffer : Nat → UInt8} {n : Nat} :
    (List.range (n - 1)).map buffer = ((List.range n).map buffer).dropLast := by
  cases n with
  | zero => rfl
  | succ n =>
    rw [Nat.add_sub_cancel, List.range_succ, List.map_append, List.map_singleton,
      List.dropLast_concat]

theorem line_type {buffer : Nat → UInt8} {n : Nat} {ch : UInt8} :
    (List.range (n + 1)).map (Function.update buffer n ch) = (List.range n).map buffer ++ [ch] := by
  rw [List.range_succ, List.map_append, List.map_singleton, Function.update_self]
  congr 1
  refine List.map_congr_left fun k hk => ?_
  exact Function.update_of_ne (Nat.ne_of_lt (List.mem_range.1 hk)) _ _

/-- Delete takes the last character of the line back. -/
theorem deleteChar_follows (hs : Follows termio t s) :
    Follows termio { t with current := t.current.dropLast } s.deleteChar ∧
      s.deleteChar.input = s.input := by
  obtain ⟨htermio, hline, hshort⟩ := hs
  have hshort' : t.current.dropLast.length < 256 := by
    rw [List.length_dropLast]
    exact Nat.lt_of_le_of_lt (Nat.sub_le _ _) hshort
  unfold deleteChar
  split
  · have hline' : (List.range (s.canonOffset - 1)).map s.canonBuffer = t.current.dropLast := by
      rw [line_erase, ← hline]
      rfl
    dsimp only
    split
    · exact ⟨⟨htermio, hline', hshort'⟩, rfl⟩
    · exact ⟨⟨htermio, hline', hshort'⟩, rfl⟩
  · rename_i hpos
    have hzero : s.canonOffset = 0 := Nat.eq_zero_of_not_pos hpos
    have hnil : t.current = [] := by rw [← hline, line, hzero, List.range_zero, List.map_nil]
    refine ⟨⟨htermio, ?_, hshort'⟩, rfl⟩
    rw [hline, hnil, List.dropLast_nil]

/-- Another character goes behind the line, which may be done with it. -/
theorem addChar_follows (hs : Follows termio t s) (ch : UInt8) :
    if ch = 10 ∨ t.current.length + 1 = 256 then
      Follows termio (t.finish (t.current ++ [ch])) (s.addChar ch) ∧
        (s.addChar ch).input.contents = (s.input.contents ++ (t.current ++ [ch])).take 255
    else Follows termio { t with current := t.current ++ [ch] } (s.addChar ch) ∧
      (s.addChar ch).input = s.input := by
  obtain ⟨htermio, hline, hshort⟩ := hs
  have hoffset : s.canonOffset = t.current.length := by rw [← hline, length_line]
  obtain ⟨written, hecho⟩ :=
    echo_eq { s with canonBuffer := Function.update s.canonBuffer s.canonOffset ch } ch
  obtain ⟨s', hs'⟩ : ∃ s', ({ s with
      canonBuffer := Function.update s.canonBuffer s.canonOffset ch
      canonOffset := s.canonOffset + 1
      written } : Console) = s' := ⟨_, rfl⟩
  have hadd : s.addChar ch = if s.canonOffset + 1 = canonBufferSize ∨ ch = 10 then s'.canonDone
      else s' := by
    rw [addChar, hecho, ← hs']
  have hline' : s'.line = t.current ++ [ch] := by
    rw [← hs', ← hline]
    exact line_type
  have htermio' : s'.termio = termio := by rw [← hs', htermio]
  have hinput : s'.input = s.input := by rw [← hs']
  have hdone : s.canonOffset + 1 = canonBufferSize ∨ ch = 10 ↔
      ch = 10 ∨ t.current.length + 1 = 256 := by rw [hoffset, or_comm]
  rw [hadd, ← hinput]
  split
  · rename_i hend
    rw [if_pos (hdone.2 hend)]
    exact canonDone_follows hline' htermio'
  · rename_i hend
    rw [if_neg fun h => hend (hdone.1 h)]
    refine ⟨⟨htermio', hline', ?_⟩, rfl⟩
    rw [List.length_append, List.length_singleton]
    omega

/-- A character changes the line that is being typed and the lines as `typeChar` says. -/
theorem canonicalRead_follows (hcanon : termio.Canonical) (hs : Follows termio t s) (ch : UInt8) :
    Follows termio (typeChar termio t ch) (s.canonicalRead ch).2 ∧
      Receives t (typeChar termio t ch) s (s.canonicalRead ch).2 := by
  have htermio := hs.termio_eq
  have hcr : ¬ (termio.iflag &&& igncr ≠ 0 ∧ (if ch = 13 then 10 else ch) = 13) :=
    fun h => h.1 hcanon.igncr
  unfold canonicalRead typeChar
  rw [htermio]
  simp only [if_pos hcanon.icrnl, if_neg hcr]
  obtain ⟨c, hc⟩ : ∃ c, (if ch = 13 then 10 else ch) = c := ⟨_, rfl⟩
  rw [hc]
  by_cases heof : c = termio.cc veof
  · rw [if_pos heof, if_pos heof]
    obtain ⟨hfollows, hcontents⟩ := canonDone_follows (t := t) hs.line_eq htermio
    exact ⟨hfollows, Or.inr ⟨t.current, rfl, Nat.le_of_lt hs.short, hcontents⟩⟩
  rw [if_neg heof, if_neg heof]
  by_cases herase : c = 8 ∨ c = termio.cc verase
  · rw [if_pos herase, if_pos herase]
    obtain ⟨hfollows, hinput⟩ := deleteChar_follows hs
    exact ⟨hfollows, Or.inl ⟨rfl, hinput⟩⟩
  rw [if_neg herase, if_neg herase]
  have hadd := addChar_follows hs c
  split at hadd
  · rename_i hend
    rw [if_pos hend]
    have hlength : (t.current ++ [c]).length ≤ 256 := by
      rw [List.length_append, List.length_singleton]
      exact hs.short
    exact ⟨hadd.1, Or.inr ⟨_, rfl, hlength, hadd.2⟩⟩
  · rename_i hend
    rw [if_neg hend]
    exact ⟨hadd.1, Or.inl ⟨rfl, hadd.2⟩⟩

/-- A call returns the first bytes of the ring. -/
theorem read_eq (count : Nat) (s : Console) :
    (s.read count).1 = s.input.contents.take count ∧
      ∃ input, (s.read count).2 = { s with input } ∧
        input.contents = s.input.contents.drop count := by
  induction count generalizing s with
  | zero => exact ⟨rfl, s.input, rfl, rfl⟩
  | succ count ih =>
    cases hpop : s.input.pop with
    | none =>
      have hnil := (Ring.pop_eq_none _).1 hpop
      simp only [read, getChar, hpop]
      exact ⟨by rw [hnil, List.take_nil], s.input, rfl, by rw [hnil, List.drop_nil]⟩
    | some q =>
      obtain ⟨ch, rest⟩ := q
      have hcontents := Ring.contents_pop hpop
      obtain ⟨hbytes, input, hinput, hdrop⟩ := ih { s with input := rest }
      simp only [read, getChar, hpop]
      refine ⟨?_, input, hinput, ?_⟩
      · rw [hbytes, hcontents, List.take_succ_cons]
      · rw [hdrop, hcontents, List.drop_succ_cons]

end Step

/-! ## Sequences of characters and calls -/

section Session

variable {termio : Termios} {events before : List Event} {event : Event}

theorem session_concat : session termio (events ++ [event]) = (session termio events).step event := by
  rw [session, List.foldl_append]
  rfl

theorem typed_concat_receive (ch : UInt8) :
    typed termio (events ++ [.receive ch]) = typeChar termio (typed termio events) ch := by
  rw [typed, List.foldl_append]
  rfl

theorem typed_concat_read (count : Nat) :
    typed termio (events ++ [.read count]) = typed termio events := by
  rw [typed, List.foldl_append]
  rfl

theorem insertChar_follows {t : Typed} {s : Console} (hcanon : termio.Canonical)
    (hs : Follows termio t s) (ch : UInt8) :
    Follows termio (typeChar termio t ch) (s.insertChar ch).2 ∧
      Receives t (typeChar termio t ch) s (s.insertChar ch).2 := by
  have hmode : s.termio.lflag &&& icanon ≠ 0 := hs.termio_eq ▸ hcanon.icanon
  rw [insertChar, if_pos hmode]
  exact canonicalRead_follows hcanon hs ch

/-- The edit buffer holds the line that is being typed after every sequence of events. -/
theorem session_follows (hcanon : termio.Canonical) (events : List Event) :
    Follows termio (typed termio events) (session termio events).console := by
  induction events using List.reverseRecOn with
  | nil => exact ⟨rfl, rfl, (by decide : 0 < 256)⟩
  | append_singleton events event ih =>
    rw [session_concat]
    cases event with
    | receive ch =>
      rw [typed_concat_receive]
      exact (insertChar_follows hcanon ih ch).1
    | read count =>
      rw [typed_concat_read]
      obtain ⟨-, input, hinput, -⟩ := read_eq count (session termio events).console
      simp only [Session.step, hinput]
      exact ⟨ih.termio_eq, ih.line_eq, ih.short⟩

/-- What has been returned and what is in the ring. -/
def Session.output (s : Session) : List UInt8 := s.returned ++ s.console.input.contents

theorem Session.output_read (s : Session) (count : Nat) :
    (s.step (.read count)).output = s.output := by
  obtain ⟨hbytes, input, hinput, hdrop⟩ := read_eq count s.console
  simp only [Session.step, Session.output, hbytes, hinput, hdrop]
  rw [List.append_assoc, List.take_append_drop]

/-- One more call returns all that is left. -/
theorem Session.returned_read (s : Session) :
    (s.step (.read inputBufferSize)).returned = s.output := by
  have hlength : s.console.input.contents.length ≤ inputBufferSize := by
    rw [Ring.length_contents]
    exact Nat.le_of_lt s.console.input.used_lt
  simp only [Session.step, Session.output, (read_eq inputBufferSize s.console).1,
    List.take_of_length_le hlength]

theorem delivers_iff_output :
    Delivers termio events ↔
      (session termio events).output = (typed termio events).lines.flatten := by
  rw [Delivers, session_concat, Session.returned_read]
  constructor
  · rintro ⟨-, h⟩
    exact h
  · intro h
    exact ⟨h ▸ List.prefix_append _ _, h⟩

/-- A completed line is put into an empty ring; the last byte of a line of 256 is dropped. -/
theorem output_receive (hcanon : termio.Canonical) {ch : UInt8}
    (hempty : (typed termio (events ++ [.receive ch])).lines ≠ (typed termio events).lines →
      (session termio events).console.input.head = (session termio events).console.input.tail) :
    (typed termio (events ++ [.receive ch])).lines = (typed termio events).lines ∧
        (session termio (events ++ [.receive ch])).output = (session termio events).output ∨
      ∃ line, (typed termio (events ++ [.receive ch])).lines = (typed termio events).lines ++ [line] ∧
        line.length ≤ 256 ∧ (session termio (events ++ [.receive ch])).output =
          (session termio events).output ++ line.take 255 := by
  obtain ⟨-, hreceives⟩ := insertChar_follows hcanon (session_follows hcanon events) ch
  rw [session_concat]
  rw [typed_concat_receive] at hempty ⊢
  rcases hreceives with ⟨hlines, hinput⟩ | ⟨line, hlines, hlength, hcontents⟩
  · exact Or.inl ⟨hlines, by simp only [Session.step, Session.output, hinput]⟩
  · have hne : (typeChar termio (typed termio events) ch).lines ≠ (typed termio events).lines := by
      rw [hlines]
      exact fun h => List.cons_ne_nil _ _ (List.append_right_eq_self.1 h)
    have hnil := (Ring.contents_eq_nil _).2 (hempty hne)
    refine Or.inr ⟨line, hlines, hlength, ?_⟩
    simp only [Session.step, Session.output, hcontents, hnil, List.nil_append, List.append_nil]

theorem EmptyAtLineEnd.of_prefix (h : EmptyAtLineEnd termio events) (hbefore : before <+: events) :
    EmptyAtLineEnd termio before := fun _ _ hstart => h _ _ (hstart.trans hbefore)

/-- Without a line of 256 bytes everything that has been typed is in the ring or returned. -/
theorem output_eq (hcanon : termio.Canonical) (hempty : EmptyAtLineEnd termio events)
    (hlines : ∀ line ∈ (typed termio events).lines, line.length ≠ 256) :
    (session termio events).output = (typed termio events).lines.flatten := by
  induction events using List.reverseRecOn with
  | nil => rfl
  | append_singleton events event ih =>
    have hempty' := hempty.of_prefix (List.prefix_append events [event])
    cases event with
    | receive ch =>
      rcases output_receive hcanon (hempty events ch (List.prefix_refl _)) with
        ⟨hsame, houtput⟩ | ⟨line, hline, hlength, houtput⟩
      · rw [hsame] at hlines ⊢
        rw [houtput]
        exact ih hempty' hlines
      · rw [hline] at hlines ⊢
        have hshort : line.length ≠ 256 :=
          hlines line (List.mem_append_right _ (List.mem_singleton_self _))
        rw [houtput, ih hempty' fun l hl => hlines l (List.mem_append_left _ hl),
          List.take_of_length_le (by omega), List.flatten_append, List.flatten_singleton]
    | read count =>
      rw [typed_concat_read] at hlines ⊢
      rw [session_concat, Session.output_read]
      exact ih hempty' hlines

/-- Lines that have been completed stay. -/
theorem lines_mono (hbefore : before <+: events) :
    (typed termio before).lines <+: (typed termio events).lines := by
  obtain ⟨after, rfl⟩ := hbefore
  induction after using List.reverseRecOn with
  | nil =>
    have hsame : typed termio (before ++ []) = typed termio before := by rw [List.append_nil]
    exact hsame ▸ List.prefix_refl _
  | append_singleton after event ih =>
    rw [← List.append_assoc]
    cases event with
    | receive ch =>
      rw [typed_concat_receive]
      refine ih.trans ?_
      unfold typeChar
      dsimp only
      repeat' split
      all_goals first
        | exact List.prefix_append _ _
        | exact List.prefix_refl _
    | read count =>
      rw [typed_concat_read]
      exact ih

/-- A line of 256 bytes is not delivered as a whole. -/
theorem not_delivers {ch : UInt8} {line : List UInt8} (hdelivers : Delivers termio events)
    (hline : (typed termio (events ++ [.receive ch])).lines = (typed termio events).lines ++ [line])
    (houtput : (session termio (events ++ [.receive ch])).output =
      (session termio events).output ++ line.take 255) (hlength : line.length = 256) :
    ¬ Delivers termio (events ++ [.receive ch]) := by
  intro h
  have hall := delivers_iff_output.1 h
  rw [houtput, delivers_iff_output.1 hdelivers, hline, List.flatten_append,
    List.flatten_singleton] at hall
  have htake := congrArg List.length (List.append_cancel_left hall)
  rw [List.length_take] at htake
  omega

/-- After every sequence of events the lines are delivered, exactly when none has 256 bytes. -/
theorem delivers_iff (termio : Termios) (events : List Event) (hcanon : termio.Canonical)
    (hempty : EmptyAtLineEnd termio events) :
    (∀ before, before <+: events → Delivers termio before) ↔
      ∀ line ∈ (typed termio events).lines, line.length ≠ 256 := by
  constructor
  · intro h
    -- by induction on the events: the first line of 256 bytes is the one that loses a byte
    induction events using List.reverseRecOn with
    | nil => exact fun line hline => absurd hline List.not_mem_nil
    | append_singleton events event ih =>
      have hstart := List.prefix_append events [event]
      have hbefore := ih (hempty.of_prefix hstart) fun before hb => h before (hb.trans hstart)
      cases event with
      | receive ch =>
        rcases output_receive hcanon (hempty events ch (List.prefix_refl _)) with
          ⟨hsame, -⟩ | ⟨last, hlast, -, houtput⟩
        · rw [hsame]
          exact hbefore
        · rw [hlast]
          intro line hline
          rcases List.mem_append.1 hline with hold | hnew
          · exact hbefore line hold
          · obtain rfl := List.mem_singleton.1 hnew
            exact fun hlength => not_delivers (h _ hstart) hlast houtput hlength
              (h _ (List.prefix_refl _))
      | read count =>
        rw [typed_concat_read]
        exact hbefore
  · intro h before hbefore
    exact delivers_iff_output.2 (output_eq hcanon (hempty.of_prefix hbefore) fun line hline =>
      h line ((lines_mono hbefore).subset hline))

/-- The settings that the console starts with. -/
def defaultTermio : Termios where
  iflag := 0o42400
  lflag := 0o105073
  cc i := if i = verase then 0x7f else if i = veof then 0x04 else 0

theorem defaultTermio_canonical : defaultTermio.Canonical := ⟨by decide, by decide, by decide⟩

theorem emptyAtLineEnd_nil : EmptyAtLineEnd termio [] := fun before _ hstart =>
  absurd (List.prefix_nil.1 hstart) (List.append_ne_nil_of_right_ne_nil before (List.cons_ne_nil _ _))

theorem emptyAtLineEnd_concat {ch : UInt8} (h : EmptyAtLineEnd termio events)
    (hlast : (typed termio (events ++ [.receive ch])).lines ≠ (typed termio events).lines →
      (session termio events).console.input.head = (session termio events).console.input.tail) :
    EmptyAtLineEnd termio (events ++ [.receive ch]) := by
  intro before c hstart
  rcases List.prefix_concat_iff.1 hstart with heq | hstart'
  · obtain ⟨rfl, hsame⟩ := List.append_inj' heq rfl
    obtain rfl : c = ch := Event.receive.inj (List.singleton_inj.1 hsame)
    exact hlast
  · exact h before c hstart'

/-- "h" and a newline, read afterwards. -/
theorem delivers_short :
    Delivers defaultTermio ([] ++ [.receive 104] ++ [.receive 10]) :=
  (delivers_iff defaultTermio ([] ++ [.receive 104] ++ [.receive 10]) defaultTermio_canonical
    (emptyAtLineEnd_concat (emptyAtLineEnd_concat emptyAtLineEnd_nil (by decide))
      fun _ => by decide)).2 (by decide) _ (List.prefix_refl _)

/-- 255 letters. -/
def letters (n : Nat) : List Event := List.replicate n (.receive 97)

theorem letters_succ (n : Nat) : letters (n + 1) = letters n ++ [.receive 97] :=
  List.replicate_succ'

theorem typed_letters {n : Nat} (hn : n < 256) :
    typed defaultTermio (letters n) = ⟨[], List.replicate n 97⟩ := by
  induction n with
  | zero => rfl
  | succ n ih =>
    have hlength : ¬ ((97 : UInt8) = 10 ∨ (List.replicate n (97 : UInt8)).length + 1 = 256) := by
      rw [List.length_replicate]
      rintro (h | h)
      · exact absurd h (by decide)
      · omega
    rw [letters_succ, typed_concat_receive, ih (Nat.lt_of_succ_lt hn), List.replicate_succ']
    have hchar : (if (97 : UInt8) = 13 then 10 else 97) = (97 : UInt8) := rfl
    simp only [typeChar]
    rw [hchar, if_neg (by decide), if_neg (by decide), if_neg hlength]

theorem emptyAtLineEnd_letters {n : Nat} (hn : n < 256) :
    EmptyAtLineEnd defaultTermio (letters n) := by
  induction n with
  | zero => exact emptyAtLineEnd_nil
  | succ n ih =>
    rw [letters_succ]
    refine emptyAtLineEnd_concat (ih (Nat.lt_of_succ_lt hn)) fun hne => absurd ?_ hne
    rw [← letters_succ, typed_letters hn, typed_letters (Nat.lt_of_succ_lt hn)]

/-- After 255 letters a newline is the 256th byte of the line. -/
theorem not_delivers_full : EmptyAtLineEnd defaultTermio (letters 255 ++ [.receive 10]) ∧
    ¬ Delivers defaultTermio (letters 255 ++ [.receive 10]) := by
  have hempty := emptyAtLineEnd_letters (by decide : 255 < 256)
  have hoff := typed_letters (by decide : 255 < 256)
  have hbefore : (session defaultTermio (letters 255)).output =
      (typed defaultTermio (letters 255)).lines.flatten :=
    output_eq defaultTermio_canonical hempty fun line hline => by
      rw [hoff] at hline
      exact absurd hline List.not_mem_nil
  have hring : (session defaultTermio (letters 255)).console.input.contents = [] :=
    (List.append_eq_nil_iff.1 (hbefore.trans (by rw [hoff]; rfl))).2
  have hempty' : EmptyAtLineEnd defaultTermio (letters 255 ++ [.receive 10]) :=
    emptyAtLineEnd_concat hempty fun _ => (Ring.contents_eq_nil _).1 hring
  refine ⟨hempty', ?_⟩
  have hlines : (typed defaultTermio (letters 255 ++ [.receive 10])).lines =
      (typed defaultTermio (letters 255)).lines ++ [List.replicate 255 97 ++ [10]] := by
    rw [typed_concat_receive, hoff]
    rfl
  rcases output_receive defaultTermio_canonical
    (hempty' _ _ (List.prefix_refl _)) with ⟨hsame, -⟩ | ⟨line, hline, -, houtput⟩
  · rw [hsame] at hlines
    exact absurd (List.append_right_eq_self.1 hlines.symm) (List.cons_ne_nil _ _)
  · obtain rfl : line = List.replicate 255 97 ++ [10] :=
      List.singleton_inj.1 (List.append_cancel_left (hline.symm.trans hlines))
    exact not_delivers (delivers_iff_output.2 hbefore) hline houtput
      (by rw [List.length_append, List.length_replicate, List.length_singleton])

end Session

end Console


end Vmwos
