import Vmwos.Drivers.ConsoleIo

/-!
# The input ring of the console

`console_actual_insert_char` stores the lowest byte of its argument, and `console_get_char` returns
a byte as a word, so that no byte is taken for the -1 of an empty ring. Between the two the ring is
a queue of at most 255 bytes (`isQueue_run`).
-/

set_option autoImplicit false

namespace Vmwos

open Library

namespace Console

/-- The byte that an `int` is stored as. -/
def inputByte (ch : Int) : UInt8 := UInt8.ofNat (ch % 256).toNat

/-- `console_get_char`: a byte, or -1 as a word. -/
def getCharWord (s : Console) : UInt32 × Console :=
  match s.getChar with
  | none => (0xffffffff, s)
  | some (ch, s) => (ch.toUInt32, s)

/-- A call of `console_actual_insert_char` with a character, or of `console_get_char`. -/
inductive RingCall where
  | insert (ch : Int)
  | get

/-- The console, the bytes that were accepted so far and the words that were returned. -/
structure RingSession where
  console : Console
  accepted : List UInt8
  returned : List UInt32

namespace RingSession

/-- One call. -/
def step (s : RingSession) : RingCall → RingSession
  | .insert ch =>
      let (result, console) := s.console.actualInsertChar (inputByte ch) false
      ⟨console, if result = 0 then s.accepted ++ [inputByte ch] else s.accepted, s.returned⟩
  | .get =>
      let (result, console) := s.console.getCharWord
      ⟨console, s.accepted, if result = 0xffffffff then s.returned else s.returned ++ [result]⟩

/-- Calls from the empty ring on. -/
def run (termio : Termios) (calls : List RingCall) : RingSession :=
  calls.foldl step ⟨Console.init termio, [], []⟩

/-- The number of accepted bytes that were not returned yet. -/
def unread (s : RingSession) : Nat := s.accepted.length - s.returned.length

/-- What was returned are the first accepted bytes; a byte is refused exactly when 255 are unread,
and then nothing changes; -1 is returned exactly when none is unread, and otherwise the first
unread byte. -/
structure IsQueue (s : RingSession) : Prop where
  returned : s.returned = (s.accepted.take s.returned.length).map UInt8.toUInt32
  returned_le : s.returned.length ≤ s.accepted.length
  refused : ∀ ch, (s.console.actualInsertChar ch false).1 ≠ 0 ↔ s.unread = 255
  unchanged : ∀ ch, (s.console.actualInsertChar ch false).1 ≠ 0 →
    s.console.actualInsertChar ch false = (-1, s.console)
  empty : s.console.getCharWord.1 = 0xffffffff ↔ s.unread = 0
  empty_unchanged : s.console.getCharWord.1 = 0xffffffff → s.console.getCharWord.2 = s.console
  first : ∀ ch, s.accepted[s.returned.length]? = some ch → s.console.getCharWord.1 = ch.toUInt32

/-- The ring holds the accepted bytes behind those that were returned. -/
structure Inv (s : RingSession) : Prop where
  returned : s.returned = (s.accepted.take s.returned.length).map UInt8.toUInt32
  contents : s.console.input.contents = s.accepted.drop s.returned.length
  returned_le : s.returned.length ≤ s.accepted.length

section Step

variable {s : RingSession} {c : Console} {ch : UInt8}

/-- A byte is no -1. -/
theorem toUInt32_ne_max (ch : UInt8) : ch.toUInt32 ≠ 0xffffffff := by
  intro h
  have hval := congrArg UInt32.toNat h
  have hlt := ch.toNat_lt
  rw [UInt8.toNat_toUInt32] at hval
  exact absurd hval (Nat.ne_of_lt (Nat.lt_trans hlt (by decide)))

/-- What inserting does: a byte is refused, or is the last one in the ring. -/
theorem actualInsertChar_queue (c : Console) (ch : UInt8) :
    (c.input.contents.length = 255 ∧ c.actualInsertChar ch false = (-1, c)) ∨
      (c.input.contents.length ≠ 255 ∧ ∃ input, c.actualInsertChar ch false = (0, { c with input }) ∧
        input.contents = c.input.contents ++ [ch]) := by
  rw [Ring.length_contents]
  cases hpush : c.input.push ch with
  | none =>
      have hfull : c.input.used + 1 = 256 := (Ring.push_eq_none _ _).1 hpush
      refine Or.inl ⟨Nat.succ.inj hfull, ?_⟩
      simp only [actualInsertChar, hpush, Bool.false_eq_true, if_false]
  | some input =>
      refine Or.inr ⟨fun hfull => ?_, input, ?_, Ring.contents_push hpush⟩
      · rw [(Ring.push_eq_none c.input ch).2 (congrArg Nat.succ hfull)] at hpush
        cases hpush
      · simp only [actualInsertChar, hpush, Bool.false_eq_true, if_false]

/-- What reading does: the ring is empty, or its first byte is taken. -/
theorem getCharWord_queue (c : Console) :
    (c.input.contents = [] ∧ c.getCharWord = (0xffffffff, c)) ∨
      ∃ ch input, c.getCharWord = (ch.toUInt32, { c with input }) ∧
        c.input.contents = ch :: input.contents := by
  cases hpop : c.input.pop with
  | none =>
      refine Or.inl ⟨(Ring.pop_eq_none _).1 hpop, ?_⟩
      simp only [getCharWord, getChar, hpop]
  | some q =>
      obtain ⟨ch, input⟩ := q
      refine Or.inr ⟨ch, input, ?_, Ring.contents_pop hpop⟩
      simp only [getCharWord, getChar, hpop]

theorem Inv.length_contents (h : s.Inv) : s.console.input.contents.length = s.unread := by
  rw [h.contents, List.length_drop, unread]

theorem Inv.isQueue (h : s.Inv) : s.IsQueue where
  returned := h.returned
  returned_le := h.returned_le
  refused ch := by
    rw [← h.length_contents]
    rcases actualInsertChar_queue s.console ch with ⟨hfull, heq⟩ | ⟨hroom, input, heq, -⟩
    · rw [heq]
      exact iff_of_true (show (-1 : Int) ≠ 0 by decide) hfull
    · rw [heq]
      exact iff_of_false (fun hne => hne rfl) hroom
  unchanged ch hne := by
    rcases actualInsertChar_queue s.console ch with ⟨-, heq⟩ | ⟨-, input, heq, -⟩
    · exact heq
    · rw [heq] at hne
      exact absurd rfl hne
  empty := by
    rw [← h.length_contents, List.length_eq_zero_iff]
    rcases getCharWord_queue s.console with ⟨hempty, heq⟩ | ⟨ch, input, heq, hcons⟩
    · rw [heq]
      exact iff_of_true rfl hempty
    · rw [heq, hcons]
      exact iff_of_false (toUInt32_ne_max ch) (List.cons_ne_nil _ _)
  empty_unchanged hmax := by
    rcases getCharWord_queue s.console with ⟨-, heq⟩ | ⟨ch, input, heq, -⟩
    · rw [heq]
    · rw [heq] at hmax
      exact absurd hmax (toUInt32_ne_max ch)
  first ch hch := by
    have hhead : s.console.input.contents.head? = some ch := by
      rw [h.contents, List.head?_drop, hch]
    rcases getCharWord_queue s.console with ⟨hempty, -⟩ | ⟨ch', input, heq, hcons⟩
    · rw [hempty] at hhead
      cases hhead
    · rw [hcons] at hhead
      cases hhead
      rw [heq]

/-- A call keeps the bytes in order. -/
theorem Inv.step (h : s.Inv) (call : RingCall) : (s.step call).Inv := by
  cases call with
  | insert ch =>
      rcases actualInsertChar_queue s.console (inputByte ch) with ⟨-, heq⟩ | ⟨-, input, heq, hcontents⟩
      · simp only [RingSession.step, heq]
        exact h
      · simp only [RingSession.step, heq, if_true]
        refine ⟨?_, ?_, ?_⟩
        · rw [List.take_append_of_le_length h.returned_le]
          exact h.returned
        · rw [hcontents, h.contents, List.drop_append_of_le_length h.returned_le]
        · rw [List.length_append]
          exact Nat.le_add_right_of_le h.returned_le
  | get =>
      rcases getCharWord_queue s.console with ⟨-, heq⟩ | ⟨ch, input, heq, hcons⟩
      · simp only [RingSession.step, heq, if_true]
        exact h
      · simp only [RingSession.step, heq, if_neg (toUInt32_ne_max ch)]
        have hdrop : s.accepted.drop s.returned.length = ch :: input.contents := by
          rw [← h.contents, hcons]
        have hlt : s.returned.length < s.accepted.length := by
          have hne : s.accepted.drop s.returned.length ≠ [] := by
            rw [hdrop]
            exact List.cons_ne_nil _ _
          exact Nat.lt_of_not_le fun hle => hne (List.drop_eq_nil_of_le hle)
        have hlength : (s.returned ++ [ch.toUInt32]).length = s.returned.length + 1 := by
          rw [List.length_append, List.length_singleton]
        -- the byte taken is the one behind those that were returned
        have hch : s.accepted[s.returned.length] = ch := by
          rw [List.drop_eq_getElem_cons hlt] at hdrop
          exact (List.cons.inj hdrop).1
        refine ⟨?_, ?_, ?_⟩
        · rw [hlength, List.take_succ_eq_append_getElem hlt, List.map_append, ← h.returned, hch]
          rfl
        · rw [hlength, ← List.tail_drop, hdrop, List.tail_cons]
        · rw [hlength]
          exact hlt

end Step

theorem inv_run (termio : Termios) (calls : List RingCall) : (run termio calls).Inv := by
  have hstart : Inv ⟨Console.init termio, [], []⟩ := by
    refine ⟨rfl, ?_, Nat.le_refl 0⟩
    exact Ring.contents_empty _ _
  rw [run]
  induction calls using List.reverseRecOn with
  | nil => exact hstart
  | append_singleton calls call ih =>
      rw [List.foldl_append, List.foldl_cons, List.foldl_nil]
      exact ih.step call

/-- Whatever is inserted and read, and in whatever order, the ring is a queue of 255 bytes. -/
theorem isQueue_run (termio : Termios) (calls : List RingCall) : (run termio calls).IsQueue :=
  (inv_run termio calls).isQueue

end RingSession

end Console

end Vmwos
