import Vmwos.Lib.Base
import Vmwos.Library.Numeral
import Mathlib.Data.List.GetD
import Mathlib.Logic.Function.Basic

/-!
# What the two formatters share

The kernel and the C library have a formatter each. Both go through the format in the same loop,
read the width of a conversion in the same way, make digits from the end of a scratch array
backwards, and store characters until `buffer_pointer` is `max_print_size`; they differ in the
conversions (`Formatter`). An argument list is a list of typed values. A store outside the buffer or
the scratch array, and a read behind the end of the format, are errors.

`Piece` is what one round of a formatter stores and how it notices that the buffer is full; a
formatter is a run of `emitAll` over the pieces of its format (`formatLoop_eq`). `emitAll_iff` says
when such a run stays inside the buffer.
-/

set_option autoImplicit false

namespace Vmwos.Format

open Library

/-- An argument of a conversion. -/
inductive Arg where
  | word (x : UInt32)
  | long (x : UInt64)
  | string (s : CString)

/-- `va_arg(ap, unsigned long)` -/
def vaWord : List Arg → Except Stuck (UInt32 × List Arg)
  | .word x :: args => .ok (x, args)
  | _ => .error .badAccess

/-- `va_arg(ap, uint64_t)` -/
def vaLong : List Arg → Except Stuck (UInt64 × List Arg)
  | .long x :: args => .ok (x, args)
  | _ => .error .badAccess

/-- `va_arg(ap, long)` as a pointer to a string. -/
def vaString : List Arg → Except Stuck (CString × List Arg)
  | .string s :: args => .ok (s, args)
  | _ => .error .badAccess

/-- `buffer` and `buffer_pointer`. -/
structure Output where
  buffer : Nat → UInt8
  pointer : Nat

/-- `buffer[buffer_pointer]=c; buffer_pointer++;` -/
def put (size : Nat) (c : UInt8) (out : Output) : Except Stuck Output :=
  if out.pointer < size then .ok ⟨Function.update out.buffer out.pointer c, out.pointer + 1⟩
  else .error .badAccess

/-- A loop that stores characters; true when it is left because `buffer_pointer` is
`max_print_size`. -/
def putLoop (size : Nat) (max : Int) : List UInt8 → Output → Except Stuck (Bool × Output)
  | [], out => .ok (false, out)
  | c :: cs, out =>
      match put size c out with
      | .error e => .error e
      | .ok out => if (out.pointer : Int) = max then .ok (true, out) else putLoop size max cs out

/-- The character of a digit. -/
def digitChar (n : Nat) : UInt8 := if n < 10 then n.toUInt8 + 48 else n.toUInt8 - 10 + 97

/-- The loop that stores the digits of a number backwards, from before a position of `int_buffer`:
the array and the position of the first digit. -/
def digitLoop (base : Nat) : Nat → Nat → (Nat → UInt8) → Except Stuck ((Nat → UInt8) × Nat)
  | _, 0, _ => .error .badAccess
  | x, intPointer + 1, intBuffer =>
      let intBuffer := Function.update intBuffer intPointer (digitChar (x % base))
      if x / base = 0 then .ok (intBuffer, intPointer)
      else digitLoop base (x / base) intPointer intBuffer

/-- The characters of `int_buffer` between two positions. -/
def slice (intBuffer : Nat → UInt8) (start stop : Nat) : List UInt8 :=
  (List.range (stop - start)).map fun i => intBuffer (start + i)

/-! ## Reading a conversion -/

def isDigit (c : UInt8) : Bool := 48 ≤ c ∧ c ≤ 57

/-- The rest of the width, which is an `unsigned char`. -/
def widthLoop : CString → UInt8 → UInt8 × CString
  | [], padLen => (padLen, [])
  | c :: string, padLen =>
      if isDigit c then widthLoop string (padLen * 10 + (c - 48)) else (padLen, c :: string)

/-- The character to pad with, the width and the rest of the format. -/
def padding : CString → UInt8 × UInt8 × CString
  | [] => (32, 0, [])
  | c :: string =>
      if isDigit c then (if c = 48 then 48 else 32, widthLoop string (c - 48))
      else (32, 0, c :: string)

/-- The format behind a precision, which is not used. -/
def skipPrecision : CString → CString
  | 46 :: string => string
  | string => string

/-- What is to be converted. -/
inductive Conversion where
  | decimal
  | unsigned
  | longHex
  | longDecimal
  | longUnsigned
  | hex
  | char
  | percent
  | string
  | unknown
  | overrun
  deriving DecidableEq, Repr

/-! ## The loop -/

/-- A character that is stored with the test behind it. -/
def printChar (size : Nat) (max : Int) (c : UInt8) (out : Output) : Except Stuck (Bool × Output) :=
  match put size c out with
  | .error e => .error e
  | .ok out => .ok (decide ((out.pointer : Int) = max), out)

/-- `%s` -/
def printString (size : Nat) (max : Int) (s : CString) (out : Output) :
    Except Stuck (Bool × Output) :=
  match putLoop size max s out with
  | .error e => .error e
  | .ok (_, out) => .ok (false, out)

/-- A formatter: how it reads a conversion behind a `%` and its width, with the rest of the format,
none when the end of the format is passed; and what it stores for one, true when a `break` ends the
call. -/
structure Formatter where
  conversion : CString → Conversion × Option CString
  convert : (size : Nat) → (max : Int) → (padValue padLen : UInt8) → List Arg → Output →
    Conversion → Except Stuck ((Bool × Output) × List Arg)

/-- The loop over the format, with at most as many rounds as there are characters. -/
def formatLoop (f : Formatter) (size : Nat) (max : Int) :
    Nat → Option CString → List Arg → Output → Except Stuck Output
  | _, none, _, _ => .error .badAccess
  | _, some [], _, out => .ok out
  | 0, some (_ :: _), _, _ => .error .endless
  | n + 1, some (c :: string), args, out => do
      let ((full, out), args, string) ←
        if c = 37 then
          let (padValue, padLen, string) := padding (skipPrecision string)
          let (conv, string) := f.conversion string
          let (r, args) ← f.convert size max padValue padLen args out conv
          pure (r, args, string)
        else
          let r ← printChar size max c out
          pure (r, args, some string)
      if full then return out
      if (out.pointer : Int) = max - 1 then return out
      formatLoop f size max n string args out

/-- The end of both formatters. `max_print_size-1` is not wrapped: where that matters it is below
zero, and the store is outside the buffer. -/
def finish (size : Nat) (max : Int) (out : Output) : Except Stuck (Int × (Nat → UInt8)) :=
  let pointer : Int := if (out.pointer : Int) ≥ max then max - 1 else out.pointer
  if 0 ≤ pointer ∧ pointer < size then
    .ok (pointer, Function.update out.buffer pointer.toNat 0)
  else .error .badAccess

/-- `int max_print_size=size;` -/
def maxPrintSize (size : UInt32) : Int := int32 size.toNat

/-- A formatter called with a buffer. -/
def Formatter.format (f : Formatter) (size : UInt32) (string : CString) (args : List Arg)
    (buffer : Nat → UInt8) : Except Stuck (Int × (Nat → UInt8)) := do
  let out ← formatLoop f size.toNat (maxPrintSize size) string.length (some string) args ⟨buffer, 0⟩
  finish size.toNat (maxPrintSize size) out

theorem vaWord_cases (args : List Arg) :
    vaWord args = .error .badAccess ∨ ∃ x rest, vaWord args = .ok (x, rest) := by
  unfold vaWord
  split
  · exact Or.inr ⟨_, _, rfl⟩
  · exact Or.inl rfl

theorem vaLong_cases (args : List Arg) :
    vaLong args = .error .badAccess ∨ ∃ x rest, vaLong args = .ok (x, rest) := by
  unfold vaLong
  split
  · exact Or.inr ⟨_, _, rfl⟩
  · exact Or.inl rfl

theorem vaString_cases (args : List Arg) :
    vaString args = .error .badAccess ∨ ∃ s rest, vaString args = .ok (s, rest) := by
  unfold vaString
  split
  · exact Or.inr ⟨_, _, rfl⟩
  · exact Or.inl rfl

theorem length_widthLoop_le (string : CString) (padLen : UInt8) :
    (widthLoop string padLen).2.length ≤ string.length := by
  induction string generalizing padLen with
  | nil => exact Nat.le_refl _
  | cons c string ih =>
    rw [widthLoop]
    split
    · exact Nat.le_succ_of_le (ih _)
    · exact Nat.le_refl _

theorem length_padding_le (string : CString) : (padding string).2.2.length ≤ string.length := by
  unfold padding
  split
  · exact Nat.le_refl _
  · split
    · exact Nat.le_succ_of_le (length_widthLoop_le _ _)
    · exact Nat.le_refl _

theorem length_skipPrecision_le (string : CString) :
    (skipPrecision string).length ≤ string.length := by
  unfold skipPrecision
  split
  · exact Nat.le_succ _
  · exact Nat.le_refl _

/-! ## Digits -/

/-- The text of a number. -/
def digits (base x : Nat) : List UInt8 := (numeral base x).map digitChar

theorem digits_ne_nil {base x : Nat} : digits base x ≠ [] := fun h =>
  numeral_ne_nil (List.map_eq_nil_iff.1 h)

theorem length_digits_le {base x k : Nat} (hbase : 1 < base) (hk : 0 < k) (hx : x < base ^ k) :
    (digits base x).length ≤ k := by
  rw [digits, List.length_map]
  exact length_numeral_le hbase hk hx

theorem length_decimal_le (x : UInt32) : (digits 10 x.toNat).length ≤ 10 :=
  length_digits_le (by decide) (by decide) (Nat.lt_trans x.toNat_lt (by decide))

theorem length_hex_le (x : UInt32) : (digits 16 x.toNat).length ≤ 10 :=
  length_digits_le (by decide) (by decide) (Nat.lt_trans x.toNat_lt (by decide))

theorem length_longDecimal_le (x : UInt64) : (digits 10 x.toNat).length ≤ 20 :=
  length_digits_le (by decide) (by decide) (Nat.lt_trans x.toNat_lt (by decide))

theorem length_longHex_le (x : UInt64) : (digits 16 x.toNat).length ≤ 16 :=
  length_digits_le (by decide) (by decide) (Nat.lt_of_lt_of_le x.toNat_lt (by decide))

theorem length_slice (intBuffer : Nat → UInt8) (start stop : Nat) :
    (slice intBuffer start stop).length = stop - start := by
  rw [slice, List.length_map, List.length_range]

/-- The digits end where the loop has begun. -/
theorem digitLoop_eq {base : Nat} (hbase : 1 < base) (x stop : Nat) (intBuffer : Nat → UInt8)
    (hlength : (digits base x).length ≤ stop) :
    ∃ intBuffer' start, digitLoop base x stop intBuffer = .ok (intBuffer', start) ∧
      start + (digits base x).length = stop ∧
      (∀ i < (digits base x).length, intBuffer' (start + i) = (digits base x).getD i 0) ∧
      ∀ i, stop ≤ i → intBuffer' i = intBuffer i := by
  induction x using Nat.strong_induction_on generalizing stop intBuffer with
  | _ x ih =>
    cases stop with
    | zero => exact absurd (List.length_eq_zero_iff.1 (Nat.le_zero.1 hlength)) digits_ne_nil
    | succ intPointer =>
      rw [digitLoop]
      by_cases hx : x < base
      · -- the last round stores the first digit
        have hdigits : digits base x = [digitChar x] := by rw [digits, numeral_of_lt hx]; rfl
        rw [if_pos (Nat.div_eq_of_lt hx), Nat.mod_eq_of_lt hx, hdigits]
        refine ⟨_, intPointer, rfl, rfl, fun i hi => ?_, fun i hi => ?_⟩
        · obtain rfl : i = 0 := Nat.lt_one_iff.1 hi
          exact Function.update_self _ _ _
        · exact Function.update_of_ne (Nat.ne_of_gt hi) _ _
      · have hx' : base ≤ x := Nat.le_of_not_lt hx
        have hpos : 0 < x := Nat.lt_of_lt_of_le (Nat.lt_trans Nat.zero_lt_one hbase) hx'
        have hdiv : x / base ≠ 0 :=
          Nat.ne_of_gt (Nat.div_pos hx' (Nat.lt_trans Nat.zero_lt_one hbase))
        have hdigits : digits base x = digits base (x / base) ++ [digitChar (x % base)] := by
          rw [digits, numeral_of_le hbase hx', List.map_append]
          rfl
        rw [hdigits, List.length_append, List.length_singleton] at hlength
        obtain ⟨intBuffer', start, hloop, hstart, hnew, hold⟩ := ih (x / base)
          (Nat.div_lt_self hpos hbase) intPointer
          (Function.update intBuffer intPointer (digitChar (x % base)))
          (Nat.le_of_succ_le_succ hlength)
        rw [if_neg hdiv, hloop, hdigits, List.length_append, List.length_singleton]
        refine ⟨intBuffer', start, rfl, by rw [← Nat.add_assoc, hstart], fun i hi => ?_, ?_⟩
        · rcases Nat.lt_succ_iff_lt_or_eq.1 hi with hlt | rfl
          · rw [hnew i hlt, List.getD_append _ _ _ _ hlt]
          · rw [List.getD_append_right _ _ _ _ (Nat.le_refl _), Nat.sub_self, hstart,
              hold _ (Nat.le_refl _), Function.update_self]
            rfl
        · intro i hi
          rw [hold i (Nat.le_of_succ_le hi), Function.update_of_ne (Nat.ne_of_gt hi)]

/-- The text that the loop has made. -/
theorem digitLoop_slice {base : Nat} (hbase : 1 < base) (x stop : Nat) (intBuffer : Nat → UInt8)
    (hlength : (digits base x).length ≤ stop) :
    ∃ intBuffer' start, digitLoop base x stop intBuffer = .ok (intBuffer', start) ∧
      start + (digits base x).length = stop ∧ slice intBuffer' start stop = digits base x := by
  obtain ⟨intBuffer', start, hloop, hstart, hnew, -⟩ := digitLoop_eq hbase x stop intBuffer hlength
  refine ⟨intBuffer', start, hloop, hstart, ?_⟩
  have hlen : stop - start = (digits base x).length := by rw [← hstart, Nat.add_sub_cancel_left]
  apply List.ext_getElem
  · rw [length_slice, hlen]
  · intro i hi hi'
    simp only [slice, List.getElem_map, List.getElem_range]
    rw [hnew i hi', List.getD_eq_getElem _ _ hi']

/-! ## Pieces -/

/-- What a round of a formatter stores. The call ends when the buffer is full within a guarded text.
The loops for the padding and the body of a loose one only end themselves; after its sign the call
ends. A stuck round reads behind the end of the format, misses its argument or stores outside its
scratch array. -/
inductive Piece where
  | guarded (text : List UInt8)
  | loose (negative : Bool) (padding body : List UInt8)
  | stuck

/-- The sign of a number. -/
def signText (negative : Bool) : List UInt8 := if negative then [45] else []

/-- What is stored in a round when there is room. -/
def Piece.text : Piece → List UInt8
  | .guarded text => text
  | .loose negative padding body => signText negative ++ padding ++ body
  | .stuck => []

/-- Store a piece; true when the call ends with it. -/
def emit (size : Nat) (max : Int) : Piece → Output → Except Stuck (Bool × Output)
  | .guarded text, out => putLoop size max text out
  | .loose negative padding body, out =>
      match putLoop size max (signText negative) out with
      | .error e => .error e
      | .ok (true, out) => .ok (true, out)
      | .ok (false, out) =>
          match putLoop size max padding out with
          | .error e => .error e
          | .ok (_, out) =>
              match putLoop size max body out with
              | .error e => .error e
              | .ok (_, out) => .ok (false, out)
  | .stuck, _ => .error .badAccess

/-- Store pieces until the buffer is full. -/
def emitAll (size : Nat) (max : Int) : List Piece → Output → Except Stuck Output
  | [], out => .ok out
  | piece :: pieces, out =>
      match emit size max piece out with
      | .error e => .error e
      | .ok (true, out) => .ok out
      | .ok (false, out) =>
          if (out.pointer : Int) = max - 1 then .ok out else emitAll size max pieces out

/-! ## Storing characters -/

/-- The output with a text behind it. -/
def Output.append (out : Output) (text : List UInt8) : Output where
  buffer i := if out.pointer ≤ i ∧ i < out.pointer + text.length then
    text.getD (i - out.pointer) 0 else out.buffer i
  pointer := out.pointer + text.length

section Store

variable {size : Nat} {out : Output}

@[simp] theorem Output.pointer_append (out : Output) (text : List UInt8) :
    (out.append text).pointer = out.pointer + text.length := rfl

@[simp] theorem Output.append_nil (out : Output) : out.append [] = out := by
  unfold append
  congr
  funext i
  rw [if_neg]
  rintro ⟨hlow, hhigh⟩
  exact absurd (Nat.lt_of_le_of_lt hlow hhigh) (Nat.lt_irrefl _)

theorem Output.append_cons (out : Output) (c : UInt8) (cs : List UInt8) :
    (Output.append ⟨Function.update out.buffer out.pointer c, out.pointer + 1⟩ cs) =
      out.append (c :: cs) := by
  unfold append
  simp only [List.length_cons]
  congr 1
  · funext i
    rcases Nat.lt_trichotomy i out.pointer with hi | rfl | hi
    · rw [if_neg (by omega), if_neg (by omega), Function.update_of_ne (Nat.ne_of_lt hi)]
    · rw [if_neg (by omega), if_pos (by omega), Function.update_self, Nat.sub_self]
      rfl
    · obtain ⟨k, rfl⟩ := Nat.exists_eq_add_of_lt hi
      have hsub : out.pointer + k + 1 - out.pointer = k + 1 := by omega
      have hsub' : out.pointer + k + 1 - (out.pointer + 1) = k := by omega
      rw [hsub, hsub', List.getD_cons_succ]
      exact if_congr (by omega) rfl (Function.update_of_ne (Nat.ne_of_gt hi) _ _)
  · omega

theorem Output.append_append (out : Output) (s t : List UInt8) :
    (out.append s).append t = out.append (s ++ t) := by
  induction s generalizing out with
  | nil => rw [append_nil, List.nil_append]
  | cons c s ih => rw [← append_cons, ih, append_cons, List.cons_append]

theorem putLoop_cons {max : Int} (c : UInt8) (cs : List UInt8) :
    putLoop size max (c :: cs) out =
      match put size c out with
      | .error e => .error e
      | .ok out => if (out.pointer : Int) = max then .ok (true, out) else putLoop size max cs out := rfl

/-- One loop after another. -/
theorem putLoop_append {max : Int} (s t : List UInt8) :
    putLoop size max (s ++ t) out =
      match putLoop size max s out with
      | .error e => .error e
      | .ok (true, out) => .ok (true, out)
      | .ok (false, out) => putLoop size max t out := by
  induction s generalizing out with
  | nil => rfl
  | cons c s ih =>
    rw [List.cons_append, putLoop_cons, putLoop_cons]
    cases put size c out with
    | error e => rfl
    | ok out' =>
      dsimp only
      by_cases hfull : (out'.pointer : Int) = max
      · rw [if_pos hfull, if_pos hfull]
      · rw [if_neg hfull, if_neg hfull]
        exact ih

/-- A text that leaves room is stored. -/
theorem putLoop_of_lt {text : List UInt8} (h : out.pointer + text.length < size) :
    putLoop size size text out = .ok (false, out.append text) := by
  induction text generalizing out with
  | nil =>
    rw [Output.append_nil]
    rfl
  | cons c cs ih =>
    rw [List.length_cons] at h
    have hne : ((out.pointer + 1 : Nat) : Int) ≠ size := by omega
    rw [putLoop_cons, put, if_pos (by omega)]
    simp only [hne, if_false]
    rw [ih (by simp only; omega), Output.append_cons]

/-- A text that does not leaves the buffer full. -/
theorem putLoop_of_le {text : List UInt8} (hroom : out.pointer < size)
    (h : size ≤ out.pointer + text.length) :
    ∃ out', putLoop size size text out = .ok (true, out') ∧ out'.pointer = size := by
  induction text generalizing out with
  | nil => exact absurd (Nat.lt_of_lt_of_le hroom h) (Nat.lt_irrefl _)
  | cons c cs ih =>
    rw [List.length_cons] at h
    rw [putLoop_cons, put, if_pos hroom]
    by_cases hfull : out.pointer + 1 = size
    · have heq : ((out.pointer + 1 : Nat) : Int) = size := by rw [hfull]
      simp only [heq, if_true]
      exact ⟨_, rfl, hfull⟩
    · have hne : ((out.pointer + 1 : Nat) : Int) ≠ size := by omega
      simp only [hne, if_false]
      exact ih (by simp only; omega) (by simp only; omega)

/-- Nothing can be stored in a full buffer. -/
theorem putLoop_of_full {text : List UInt8} {max : Int} (hfull : out.pointer = size)
    (htext : text ≠ []) : putLoop size max text out = .error .badAccess := by
  cases text with
  | nil => exact absurd rfl htext
  | cons c cs =>
    rw [putLoop_cons, put, if_neg (Nat.not_lt.2 (Nat.le_of_eq hfull.symm))]

end Store

/-! ## When the pieces stay inside the buffer -/

/-- Nothing is stored. -/
def Piece.Silent (piece : Piece) : Prop := piece.text = [] ∧ piece ≠ .stuck

/-- A loose piece with nothing in its last loop has nothing at all. -/
def Piece.Printable : Piece → Prop
  | .loose negative padding body => body = [] → padding = [] ∧ negative = false
  | _ => True

/-- A piece that begins at `start` and is followed by some others stays inside the buffer: a loose
one fits, or its sign fills the buffer, or its last loop does and nothing follows. -/
def Piece.Fits (size start : Nat) (after : List Piece) : Piece → Prop
  | .guarded _ => True
  | .loose negative padding body =>
      size ≤ start + (signText negative ++ padding ++ body).length →
        negative = true ∧ start + 1 = size ∨
          start + (signText negative ++ padding).length < size ∧ ∀ piece ∈ after, piece.Silent
  | .stuck => False

/-- The text of a sequence of pieces. -/
def texts (pieces : List Piece) : List UInt8 := (pieces.map Piece.text).flatten

/-- Every piece that is reached stays inside the buffer: the first one, and those that begin before
its last two bytes. -/
def Contained (size start : Nat) (pieces : List Piece) : Prop :=
  ∀ before piece after, pieces = before ++ piece :: after →
    (before = [] ∨ start + (texts before).length + 1 < size) →
    piece.Fits size (start + (texts before).length) after

@[simp] theorem texts_nil : texts [] = [] := rfl

@[simp] theorem texts_cons (piece : Piece) (pieces : List Piece) :
    texts (piece :: pieces) = piece.text ++ texts pieces := by
  rw [texts, List.map_cons, List.flatten_cons, texts]

theorem texts_append (ps qs : List Piece) : texts (ps ++ qs) = texts ps ++ texts qs := by
  rw [texts, List.map_append, List.flatten_append, texts, texts]

theorem contained_nil (size start : Nat) : Contained size start [] := fun before piece _ h =>
  absurd h.symm (List.append_ne_nil_of_right_ne_nil before (List.cons_ne_nil piece _))

theorem contained_cons (size start : Nat) (piece : Piece) (pieces : List Piece) :
    Contained size start (piece :: pieces) ↔ piece.Fits size start pieces ∧
      (start + piece.text.length + 1 < size →
        Contained size (start + piece.text.length) pieces) := by
  constructor
  · refine fun h => ⟨?_, fun hroom before piece' after heq hreached => ?_⟩
    · exact h [] piece pieces rfl (Or.inl rfl)
    · have hfits := h (piece :: before) piece' after (by rw [heq]; rfl)
      rw [texts_cons, List.length_append, ← Nat.add_assoc] at hfits
      refine hfits (Or.inr ?_)
      rcases hreached with rfl | hreached
      · exact hroom
      · exact hreached
  · rintro ⟨hfits, hrest⟩ before piece' after heq hreached
    cases before with
    | nil =>
      obtain ⟨rfl, rfl⟩ := List.cons.inj heq
      exact hfits
    | cons first before =>
      obtain ⟨rfl, rfl⟩ := List.cons.inj heq
      rw [texts_cons, List.length_append, ← Nat.add_assoc] at hreached ⊢
      have hroom := hreached.resolve_left (List.cons_ne_nil _ _)
      exact hrest (by omega) before piece' after rfl (Or.inr hroom)

section Emit

variable {size : Nat} {out : Output} {piece : Piece} {pieces : List Piece}

/-- A call has stored everything inside the buffer. -/
def Inside (size : Nat) (r : Except Stuck Output) : Prop :=
  ∃ out, r = .ok out ∧ out.pointer ≤ size

theorem length_text_loose (negative : Bool) (padding body : List UInt8) :
    (Piece.loose negative padding body).text.length =
      (signText negative ++ padding).length + body.length := by
  rw [Piece.text, List.length_append]

theorem putLoop_nil (size : Nat) (max : Int) (out : Output) :
    putLoop size max [] out = .ok (false, out) := rfl

theorem emit_loose (size : Nat) (max : Int) (negative : Bool) (padding body : List UInt8)
    (out : Output) : emit size max (.loose negative padding body) out =
      match putLoop size max (signText negative) out with
      | .error e => .error e
      | .ok (true, out) => .ok (true, out)
      | .ok (false, out) =>
          match putLoop size max padding out with
          | .error e => .error e
          | .ok (_, out) =>
              match putLoop size max body out with
              | .error e => .error e
              | .ok (_, out) => .ok (false, out) := rfl

theorem emitAll_cons (size : Nat) (max : Int) (piece : Piece) (pieces : List Piece) (out : Output) :
    emitAll size max (piece :: pieces) out =
      match emit size max piece out with
      | .error e => .error e
      | .ok (true, out) => .ok out
      | .ok (false, out) =>
          if (out.pointer : Int) = max - 1 then .ok out else emitAll size max pieces out := rfl

/-- A piece that leaves room is stored. -/
theorem emit_of_lt (hstuck : piece ≠ .stuck) (h : out.pointer + piece.text.length < size) :
    emit size size piece out = .ok (false, out.append piece.text) := by
  cases piece with
  | guarded text => exact putLoop_of_lt h
  | loose negative padding body =>
    rw [length_text_loose, List.length_append] at h
    have hsign : out.pointer + (signText negative).length < size := by omega
    have hpadding : (out.append (signText negative)).pointer + padding.length < size := by
      rw [Output.pointer_append]
      omega
    have hbody : ((out.append (signText negative)).append padding).pointer + body.length < size := by
      rw [Output.pointer_append, Output.pointer_append]
      omega
    simp only [emit_loose, putLoop_of_lt hsign, putLoop_of_lt hpadding, putLoop_of_lt hbody]
    rw [Output.append_append, Output.append_append, Piece.text, List.append_assoc]
  | stuck => exact absurd rfl hstuck

/-- A piece that does not: it ends the call, leaves the buffer full or stores outside of it. -/
theorem emit_of_le (hprintable : piece.Printable) (hroom : out.pointer < size)
    (h : size ≤ out.pointer + piece.text.length) :
    (∃ out', emit size size piece out = .ok (true, out') ∧ out'.pointer = size ∧
        ∀ after, piece.Fits size out.pointer after) ∨
      (∃ out', emit size size piece out = .ok (false, out') ∧ out'.pointer = size ∧
        ∀ after, piece.Fits size out.pointer after ↔ ∀ piece ∈ after, piece.Silent) ∨
      emit size size piece out = .error .badAccess ∧
        ∀ after, ¬ piece.Fits size out.pointer after := by
  cases piece with
  | guarded text =>
    obtain ⟨out', hput, hfull⟩ := putLoop_of_le hroom h
    exact Or.inl ⟨out', hput, hfull, fun _ => trivial⟩
  | loose negative padding body =>
    have hlength := length_text_loose negative padding body
    by_cases hsign : size ≤ out.pointer + (signText negative).length
    · -- the sign fills the buffer
      obtain ⟨out', hput, hfull⟩ := putLoop_of_le hroom hsign
      have hneg : negative = true ∧ out.pointer + 1 = size := by
        cases negative with
        | true => exact ⟨rfl, Nat.le_antisymm hroom hsign⟩
        | false => exact absurd (Nat.lt_of_lt_of_le hroom hsign) (Nat.lt_irrefl _)
      exact Or.inl ⟨out', by simp only [emit_loose, hput], hfull, fun _ _ => Or.inl hneg⟩
    have hsign' := Nat.lt_of_not_le hsign
    have hnotneg : ¬ (negative = true ∧ out.pointer + 1 = size) := by
      rintro ⟨rfl, hlast⟩
      exact hsign (Nat.le_of_eq hlast.symm)
    have hcross : size ≤ out.pointer + (signText negative ++ padding ++ body).length := h
    rw [hlength, List.length_append] at h
    by_cases hpadding : (out.append (signText negative)).pointer + padding.length < size
    · -- the last loop fills it
      have hbody : size ≤
          ((out.append (signText negative)).append padding).pointer + body.length := by
        rw [Output.pointer_append, Output.pointer_append]
        omega
      obtain ⟨out', hput, hfull⟩ := putLoop_of_le hpadding hbody
      refine Or.inr (Or.inl ⟨out', ?_, hfull, fun after => ?_⟩)
      · simp only [emit_loose, putLoop_of_lt hsign', putLoop_of_lt hpadding, hput]
      · have hbefore : out.pointer + (signText negative ++ padding).length < size := by
          rw [List.length_append, ← Nat.add_assoc]
          exact hpadding
        exact ⟨fun hfits => ((hfits hcross).resolve_left hnotneg).2, fun hsilent _ =>
          Or.inr ⟨hbefore, hsilent⟩⟩
    · -- the padding fills it, and the body goes behind its end
      have hpadding' : size ≤ (out.append (signText negative)).pointer + padding.length :=
        Nat.le_of_not_lt hpadding
      obtain ⟨out', hput, hfull⟩ := putLoop_of_le hsign' hpadding'
      have hbody : body ≠ [] := by
        intro hnil
        obtain ⟨rfl, rfl⟩ := hprintable hnil
        exact hpadding hsign'
      refine Or.inr (Or.inr ⟨?_, fun after hfits => ?_⟩)
      · simp only [emit_loose, putLoop_of_lt hsign', hput, putLoop_of_full hfull hbody]
      · have hbefore := ((hfits hcross).resolve_left hnotneg).1
        rw [List.length_append, ← Nat.add_assoc] at hbefore
        exact hpadding hbefore
  | stuck => exact absurd (Nat.lt_of_lt_of_le hroom h) (Nat.lt_irrefl _)

/-- A silent piece leaves the output alone. -/
theorem emit_of_silent (hsilent : piece.Silent) (max : Int) :
    emit size max piece out = .ok (false, out) := by
  obtain ⟨htext, hstuck⟩ := hsilent
  cases piece with
  | guarded text =>
    obtain rfl : text = [] := htext
    rfl
  | loose negative padding body =>
    obtain ⟨hhead, rfl⟩ := List.append_eq_nil_iff.1 htext
    obtain ⟨hsign, rfl⟩ := List.append_eq_nil_iff.1 hhead
    simp only [emit_loose, hsign, putLoop_nil]
  | stuck => exact absurd rfl hstuck

/-- Any other has no place behind a full buffer. -/
theorem emit_of_full (hfull : out.pointer = size) (hsilent : ¬ piece.Silent) (max : Int) :
    emit size max piece out = .error .badAccess := by
  cases piece with
  | guarded text =>
    exact putLoop_of_full hfull fun h => hsilent ⟨h, Piece.noConfusion⟩
  | loose negative padding body =>
    by_cases hsign : signText negative = []
    · by_cases hpadding : padding = []
      · have hbody : body ≠ [] := fun h =>
          hsilent ⟨by rw [Piece.text, hsign, hpadding, h]; rfl, Piece.noConfusion⟩
        simp only [emit_loose, hsign, hpadding, putLoop_nil, putLoop_of_full hfull hbody]
      · simp only [emit_loose, hsign, putLoop_nil, putLoop_of_full hfull hpadding]
    · simp only [emit_loose, putLoop_of_full hfull hsign]
  | stuck => rfl

theorem not_inside_error (e : Stuck) : ¬ Inside size (.error e) := by
  rintro ⟨out, h, -⟩
  cases h

/-- A call with a full buffer goes on without harm exactly when nothing follows. -/
theorem emitAll_of_full (hfull : out.pointer = size) :
    Inside size (emitAll size size pieces out) ↔ ∀ piece ∈ pieces, piece.Silent := by
  induction pieces with
  | nil =>
    refine iff_of_true ⟨out, rfl, Nat.le_of_eq hfull⟩ fun piece hpiece => ?_
    exact absurd hpiece List.not_mem_nil
  | cons piece pieces ih =>
    rw [List.forall_mem_cons]
    by_cases hsilent : piece.Silent
    · have hne : (out.pointer : Int) ≠ size - 1 := by omega
      rw [emitAll_cons, emit_of_silent hsilent]
      simp only [hne, if_false]
      rw [ih]
      exact (and_iff_right hsilent).symm
    · rw [emitAll_cons, emit_of_full hfull hsilent]
      exact iff_of_false (not_inside_error _) fun h => hsilent h.1

/-- The pieces stay inside the buffer exactly when each that is reached does. -/
theorem emitAll_iff (hprintable : ∀ piece ∈ pieces, piece.Printable) (hroom : out.pointer < size) :
    Inside size (emitAll size size pieces out) ↔ Contained size out.pointer pieces := by
  induction pieces generalizing out with
  | nil => exact iff_of_true ⟨out, rfl, Nat.le_of_lt hroom⟩ (contained_nil _ _)
  | cons piece pieces ih =>
    obtain ⟨hpiece, hpieces⟩ := List.forall_mem_cons.1 hprintable
    rw [contained_cons, emitAll_cons]
    by_cases hstuck : piece = .stuck
    · rw [hstuck]
      exact iff_of_false (not_inside_error _) fun h => h.1
    rcases Nat.lt_or_ge (out.pointer + piece.text.length) size with hlt | hle
    · -- the piece leaves room; the call ends here when only the last byte is left
      have hfits : piece.Fits size out.pointer pieces := by
        cases piece with
        | guarded text => trivial
        | loose negative padding body => exact fun h => absurd hlt (Nat.not_lt.2 h)
        | stuck => exact absurd rfl hstuck
      rw [emit_of_lt hstuck hlt, and_iff_right hfits]
      by_cases hlast : out.pointer + piece.text.length + 1 = size
      · have heq : ((out.append piece.text).pointer : Int) = size - 1 := by
          rw [Output.pointer_append]
          omega
        simp only [heq, if_true]
        refine iff_of_true ⟨_, rfl, Nat.le_of_lt hlt⟩ fun h => ?_
        exact absurd hlast (Nat.ne_of_lt h)
      · have hne : ((out.append piece.text).pointer : Int) ≠ size - 1 := by
          rw [Output.pointer_append]
          omega
        simp only [hne, if_false]
        rw [ih hpieces hlt]
        exact ⟨fun h _ => h, fun h => h (by omega)⟩
    · -- it does not: the buffer is full behind it, or the call has gone wrong
      have hover : ¬ out.pointer + piece.text.length + 1 < size := by omega
      rw [and_iff_left fun h => absurd h hover]
      rcases emit_of_le hpiece hroom hle with
        ⟨out', hemit, hfull, hfits⟩ | ⟨out', hemit, hfull, hfits⟩ | ⟨hemit, hfits⟩
      · rw [hemit]
        exact iff_of_true ⟨out', rfl, Nat.le_of_eq hfull⟩ (hfits pieces)
      · have hne : (out'.pointer : Int) ≠ size - 1 := by omega
        rw [hemit, hfits]
        simp only [hne, if_false]
        exact emitAll_of_full hfull
      · rw [hemit]
        exact iff_of_false (not_inside_error _) (hfits pieces)

/-- Pieces that leave room are all stored. -/
theorem emitAll_of_lt (hstuck : ∀ piece ∈ pieces, piece ≠ .stuck)
    (hroom : out.pointer + (texts pieces).length + 1 < size) :
    emitAll size size pieces out = .ok (out.append (texts pieces)) := by
  induction pieces generalizing out with
  | nil => rw [emitAll, texts_nil, Output.append_nil]
  | cons piece pieces ih =>
    obtain ⟨hpiece, hpieces⟩ := List.forall_mem_cons.1 hstuck
    rw [texts_cons, List.length_append] at hroom
    have hlt : out.pointer + piece.text.length < size := by omega
    have hne : ((out.append piece.text).pointer : Int) ≠ size - 1 := by
      rw [Output.pointer_append]
      omega
    rw [emitAll_cons, emit_of_lt hpiece hlt]
    simp only [hne, if_false]
    rw [ih hpieces (by rw [Output.pointer_append]; omega), Output.append_append, texts_cons]

/-- A stuck piece behind others that leave room is reached. -/
theorem emitAll_of_stuck (hpiece : .stuck ∈ pieces)
    (hroom : out.pointer + (texts pieces).length + 1 < size) :
    emitAll size size pieces out = .error .badAccess := by
  induction pieces generalizing out with
  | nil => exact absurd hpiece List.not_mem_nil
  | cons piece pieces ih =>
    by_cases hstuck : piece = .stuck
    · rw [hstuck]
      rfl
    · rw [texts_cons, List.length_append] at hroom
      have hlt : out.pointer + piece.text.length < size := by omega
      have hne : ((out.append piece.text).pointer : Int) ≠ size - 1 := by
        rw [Output.pointer_append]
        omega
      rw [emitAll_cons, emit_of_lt hstuck hlt]
      simp only [hne, if_false]
      refine ih ((List.mem_cons.1 hpiece).resolve_left fun h => hstuck h.symm) ?_
      rw [Output.pointer_append]
      omega

/-! ## The whole call -/

theorem putLoop_le {max : Int} {text : List UInt8} {full : Bool} {out' : Output}
    (h : putLoop size max text out = .ok (full, out')) (hle : out.pointer ≤ size) :
    out'.pointer ≤ size := by
  induction text generalizing out with
  | nil =>
    obtain ⟨-, rfl⟩ := Prod.mk.inj (Except.ok.inj h)
    exact hle
  | cons c cs ih =>
    rw [putLoop, put] at h
    by_cases hroom : out.pointer < size
    · rw [if_pos hroom] at h
      dsimp only at h
      split at h
      · obtain ⟨-, rfl⟩ := Prod.mk.inj (Except.ok.inj h)
        exact hroom
      · exact ih h hroom
    · rw [if_neg hroom] at h
      cases h

theorem emit_le {max : Int} {full : Bool} {out' : Output}
    (h : emit size max piece out = .ok (full, out')) (hle : out.pointer ≤ size) :
    out'.pointer ≤ size := by
  cases piece with
  | guarded text => exact putLoop_le h hle
  | loose negative padding body =>
    rw [emit] at h
    split at h
    · cases h
    · rename_i out₁ hsign
      obtain ⟨-, rfl⟩ := Prod.mk.inj (Except.ok.inj h)
      exact putLoop_le hsign hle
    · rename_i out₁ hsign
      split at h
      · cases h
      · rename_i out₂ hpadding
        split at h
        · cases h
        · rename_i out₃ hbody
          obtain ⟨-, rfl⟩ := Prod.mk.inj (Except.ok.inj h)
          exact putLoop_le hbody (putLoop_le hpadding (putLoop_le hsign hle))
  | stuck => cases h

theorem emitAll_le {max : Int} {out' : Output} (h : emitAll size max pieces out = .ok out')
    (hle : out.pointer ≤ size) : out'.pointer ≤ size := by
  induction pieces generalizing out with
  | nil =>
    obtain rfl := Except.ok.inj h
    exact hle
  | cons piece pieces ih =>
    rw [emitAll] at h
    split at h
    · cases h
    · rename_i out₁ hemit
      obtain rfl := Except.ok.inj h
      exact emit_le hemit hle
    · rename_i out₁ hemit
      split at h
      · obtain rfl := Except.ok.inj h
        exact emit_le hemit hle
      · exact ih h (emit_le hemit hle)

/-- A call returns, and the text ends with a NUL inside the buffer. -/
def Bounded (size : UInt32) (r : Except Stuck (Int × (Nat → UInt8))) : Prop :=
  ∃ (n : Nat) (buffer : Nat → UInt8), r = .ok ((n : Int), buffer) ∧ n < size.toNat ∧ buffer n = 0

/-- A call that stores some pieces. -/
def call (size : UInt32) (pieces : List Piece) (buffer : Nat → UInt8) :
    Except Stuck (Int × (Nat → UInt8)) :=
  match emitAll size.toNat (maxPrintSize size) pieces ⟨buffer, 0⟩ with
  | .error e => .error e
  | .ok out => finish size.toNat (maxPrintSize size) out

theorem finish_of_lt {out : Output} (h : out.pointer < size) :
    finish size size out = .ok ((out.pointer : Int), Function.update out.buffer out.pointer 0) := by
  have hnot : ¬ (out.pointer : Int) ≥ size := by omega
  have hin : (0 : Int) ≤ out.pointer ∧ (out.pointer : Int) < size := by omega
  rw [finish]
  rw [if_neg hnot, if_pos hin, Int.toNat_natCast]

theorem finish_of_eq {out : Output} (hsize : 0 < size) (h : out.pointer = size) :
    finish size size out =
      .ok (((size - 1 : Nat) : Int), Function.update out.buffer (size - 1) 0) := by
  have hge : (out.pointer : Int) ≥ size := by omega
  have hin : (0 : Int) ≤ size - 1 ∧ (size : Int) - 1 < size := by omega
  have hcast : (size : Int) - 1 = ((size - 1 : Nat) : Int) := by omega
  rw [finish]
  rw [if_pos hge, if_pos hin, hcast, Int.toNat_natCast]

theorem finish_of_neg {max : Int} {out : Output} (hmax : max ≤ 0) :
    finish size max out = .error .badAccess := by
  have hge : (out.pointer : Int) ≥ max := by omega
  have hout : ¬ ((0 : Int) ≤ max - 1 ∧ max - 1 < size) := by omega
  rw [finish]
  rw [if_pos hge, if_neg hout]

theorem maxPrintSize_of_lt {size : UInt32} (h : size.toNat < 2147483648) :
    maxPrintSize size = size.toNat := int32_of_lt h

theorem maxPrintSize_of_le {size : UInt32} (h : 2147483648 ≤ size.toNat) :
    maxPrintSize size ≤ 0 := by
  have hlt := size.toNat_lt
  unfold maxPrintSize int32
  omega

/-- A call is bounded exactly when the size is an `int` and the pieces stay inside the buffer. -/
theorem bounded_call_iff {size : UInt32} (hsize : 1 ≤ size.toNat) (buffer : Nat → UInt8)
    (hprintable : ∀ piece ∈ pieces, piece.Printable) :
    Bounded size (call size pieces buffer) ↔
      size.toNat < 2147483648 ∧ Contained size.toNat 0 pieces := by
  rcases Nat.lt_or_ge size.toNat 2147483648 with hlt | hge
  · have hiff := @emitAll_iff size.toNat ⟨buffer, 0⟩ pieces hprintable hsize
    rw [and_iff_right hlt, ← hiff, call, maxPrintSize_of_lt hlt]
    cases hemit : emitAll size.toNat size.toNat pieces ⟨buffer, 0⟩ with
    | error e =>
      refine iff_of_false ?_ (not_inside_error e)
      rintro ⟨n, buffer', h, -⟩
      cases h
    | ok out =>
      have hle : out.pointer ≤ size.toNat := emitAll_le hemit (Nat.zero_le _)
      refine iff_of_true ?_ ⟨out, rfl, hle⟩
      rcases Nat.lt_or_eq_of_le hle with hin | hfull
      · exact ⟨_, _, finish_of_lt hin, hin, Function.update_self _ _ _⟩
      · exact ⟨_, _, finish_of_eq hsize hfull, Nat.sub_lt hsize Nat.zero_lt_one,
          Function.update_self _ _ _⟩
  · refine iff_of_false ?_ fun h => absurd h.1 (Nat.not_lt.2 hge)
    rintro ⟨n, buffer', h, -⟩
    rw [call] at h
    split at h
    · cases h
    · rw [finish_of_neg (maxPrintSize_of_le hge)] at h
      cases h

end Emit

/-! ## Formatters -/

/-- The pieces of a format. -/
def pieces (f : Formatter) (piece : UInt8 → UInt8 → List Arg → Conversion → Piece × List Arg) :
    Nat → Option CString → List Arg → List Piece
  | _, none, _ => [.stuck]
  | _, some [], _ => []
  | 0, some (_ :: _), _ => [.stuck]
  | n + 1, some (c :: string), args =>
      if c = 37 then
        let (padValue, padLen, string) := padding (skipPrecision string)
        let (conv, string) := f.conversion string
        let (p, args) := piece padValue padLen args conv
        p :: pieces f piece n string args
      else .guarded [c] :: pieces f piece n (some string) args

/-- A formatter stores a piece for every conversion, and reads on behind it. -/
structure Formatter.Stores (f : Formatter)
    (piece : UInt8 → UInt8 → List Arg → Conversion → Piece × List Arg) : Prop where
  convert_eq : ∀ size max padValue padLen args out conv,
    f.convert size max padValue padLen args out conv =
      (emit size max (piece padValue padLen args conv).1 out).map
        fun r => (r, (piece padValue padLen args conv).2)
  length_le : ∀ string rest, (f.conversion string).2 = some rest → rest.length ≤ string.length
  printable : ∀ padValue padLen args conv, (piece padValue padLen args conv).1.Printable

/-- The buffer with a text and its NUL. -/
def withText (buffer : Nat → UInt8) (text : List UInt8) : Nat → UInt8 :=
  Function.update (Output.append ⟨buffer, 0⟩ text).buffer text.length 0

theorem withText_of_lt {buffer : Nat → UInt8} {text : List UInt8} {i : Nat}
    (hi : i < text.length) : withText buffer text i = text.getD i 0 := by
  rw [withText, Function.update_of_ne (Nat.ne_of_lt hi)]
  simp only [Output.append, Nat.zero_add, Nat.zero_le, true_and, Nat.sub_zero]
  rw [if_pos hi]

theorem withText_length (buffer : Nat → UInt8) (text : List UInt8) :
    withText buffer text text.length = 0 := Function.update_self _ _ _

/-- The characters of a text are read back from the buffer. -/
theorem map_withText (buffer : Nat → UInt8) (text : List UInt8) :
    (List.range text.length).map (withText buffer text) = text := by
  apply List.ext_getElem (by rw [List.length_map, List.length_range])
  intro i hi hi'
  rw [List.getElem_map, List.getElem_range, withText_of_lt hi', List.getD_eq_getElem _ _ hi']

section Formatter

variable {f : Formatter} {piece : UInt8 → UInt8 → List Arg → Conversion → Piece × List Arg}

theorem printChar_eq {size : Nat} {max : Int} {out : Output} (c : UInt8) :
    printChar size max c out = emit size max (.guarded [c]) out := by
  rw [printChar, emit, putLoop]
  cases put size c out with
  | error e => rfl
  | ok out' =>
    dsimp only
    by_cases hfull : (out'.pointer : Int) = max
    · rw [if_pos hfull, decide_eq_true hfull]
    · rw [if_neg hfull, decide_eq_false hfull]
      rfl

theorem printString_eq {size : Nat} {max : Int} {out : Output} (s : CString) :
    printString size max s out = emit size max (.loose false [] s) out := by
  rw [printString, emit]
  rfl

/-- A round stores a piece and goes on behind it. -/
theorem formatLoop_succ (hf : f.Stores piece) (size : Nat) (max : Int) (args : List Arg)
    (out : Output) (n : Nat) (c : UInt8) (string : CString) :
    ∃ p string' args', p.Printable ∧
      pieces f piece (n + 1) (some (c :: string)) args = p :: pieces f piece n string' args' ∧
      (∀ rest, string' = some rest → rest.length ≤ string.length) ∧
      formatLoop f size max (n + 1) (some (c :: string)) args out =
        match emit size max p out with
        | .error e => .error e
        | .ok (full, out) =>
            if full then .ok out
            else if (out.pointer : Int) = max - 1 then .ok out
            else formatLoop f size max n string' args' out := by
  by_cases hc : c = 37
  · obtain ⟨padValue, hpadValue⟩ : ∃ v, (padding (skipPrecision string)).1 = v := ⟨_, rfl⟩
    obtain ⟨padLen, hpadLen⟩ : ∃ l, (padding (skipPrecision string)).2.1 = l := ⟨_, rfl⟩
    obtain ⟨behind, hbehind⟩ : ∃ s, (padding (skipPrecision string)).2.2 = s := ⟨_, rfl⟩
    obtain ⟨conv, hconv⟩ : ∃ c, (f.conversion behind).1 = c := ⟨_, rfl⟩
    refine ⟨(piece padValue padLen args conv).1, (f.conversion behind).2,
      (piece padValue padLen args conv).2, hf.printable _ _ _ _, ?_, fun rest hrest => ?_, ?_⟩
    · rw [pieces, if_pos hc, ← hconv, ← hbehind, ← hpadLen, ← hpadValue]
    · refine Nat.le_trans (hf.length_le behind rest hrest) ?_
      rw [← hbehind]
      exact Nat.le_trans (length_padding_le _) (length_skipPrecision_le _)
    · rw [formatLoop, if_pos hc]
      simp only [hpadValue, hpadLen, hbehind, hconv, hf.convert_eq, bind, Except.bind]
      cases emit size max (piece padValue padLen args conv).1 out with
      | error e => rfl
      | ok r => rfl
  · refine ⟨.guarded [c], some string, args, trivial, ?_, fun rest hrest => ?_, ?_⟩
    · rw [pieces, if_neg hc]
    · obtain rfl := Option.some.inj hrest
      exact Nat.le_refl _
    · rw [formatLoop, if_neg hc]
      simp only [printChar_eq, bind, Except.bind]
      cases emit size max (.guarded [c]) out with
      | error e => rfl
      | ok r => rfl

/-- The loop stores the pieces of the format. -/
theorem formatLoop_eq (hf : f.Stores piece) (size : Nat) (max : Int) (args : List Arg)
    (out : Output) (n : Nat) (string : Option CString)
    (hn : ∀ rest, string = some rest → rest.length ≤ n) :
    formatLoop f size max n string args out =
      emitAll size max (pieces f piece n string args) out := by
  induction n generalizing string args out with
  | zero =>
    match string with
    | none => rfl
    | some [] => rfl
    | some (c :: rest) => exact absurd (hn _ rfl) (Nat.not_succ_le_zero _)
  | succ n ih =>
    match string with
    | none => rfl
    | some [] => rfl
    | some (c :: rest) =>
      have hrest : rest.length ≤ n := Nat.le_of_succ_le_succ (hn _ rfl)
      obtain ⟨p, string', args', -, hpieces, hlength, hloop⟩ :=
        formatLoop_succ hf size max args out n c rest
      rw [hpieces, hloop, emitAll_cons]
      cases emit size max p out with
      | error e => rfl
      | ok r =>
        obtain ⟨full, out'⟩ := r
        cases full with
        | true => rfl
        | false =>
          dsimp only
          rw [ih _ _ string' fun s hs => Nat.le_trans (hlength s hs) hrest]
          rfl

theorem printable_pieces (hf : f.Stores piece) (n : Nat) (string : Option CString)
    (args : List Arg) : ∀ p ∈ pieces f piece n string args, p.Printable := by
  induction n generalizing string args with
  | zero =>
    match string with
    | none => exact List.forall_mem_singleton.2 trivial
    | some [] => exact fun p hp => absurd hp List.not_mem_nil
    | some (c :: rest) => exact List.forall_mem_singleton.2 trivial
  | succ n ih =>
    match string with
    | none => exact List.forall_mem_singleton.2 trivial
    | some [] => exact fun p hp => absurd hp List.not_mem_nil
    | some (c :: rest) =>
      obtain ⟨p, string', args', hprintable, hpieces, -⟩ :=
        formatLoop_succ hf 0 0 args ⟨fun _ => 0, 0⟩ n c rest
      rw [hpieces]
      exact List.forall_mem_cons.2 ⟨hprintable, ih _ _⟩

/-- The piece of a conversion. -/
theorem pieces_percent {n : Nat} {string letters : CString} {padValue padLen : UInt8}
    {conv : Conversion} {rest : Option CString} (args : List Arg)
    (hpadding : padding (skipPrecision string) = (padValue, padLen, letters))
    (hconv : f.conversion letters = (conv, rest)) :
    pieces f piece (n + 1) (some (37 :: string)) args =
      (piece padValue padLen args conv).1 ::
        pieces f piece n rest (piece padValue padLen args conv).2 := by
  rw [pieces, if_pos rfl, hpadding]
  simp only [hconv]

/-- The formatter stores the pieces of the format. -/
theorem format_eq (hf : f.Stores piece) (size : UInt32) (string : CString) (args : List Arg)
    (buffer : Nat → UInt8) :
    f.format size string args buffer =
      call size (pieces f piece string.length (some string) args) buffer := by
  rw [Formatter.format, call, formatLoop_eq hf]
  · simp only [bind, Except.bind]
    generalize emitAll size.toNat (maxPrintSize size) _ _ = r
    cases r with
    | error e => rfl
    | ok out => simp only
  · intro rest hrest
    obtain rfl := Option.some.inj hrest
    exact Nat.le_refl _

/-- A formatter stays inside the buffer exactly when every piece that is reached does. -/
theorem bounded_format_iff (hf : f.Stores piece) {size : UInt32} (hsize : 1 ≤ size.toNat)
    (string : CString) (args : List Arg) (buffer : Nat → UInt8) :
    Bounded size (f.format size string args buffer) ↔ size.toNat < 2147483648 ∧
      Contained size.toNat 0 (pieces f piece string.length (some string) args) := by
  rw [format_eq hf]
  exact bounded_call_iff hsize buffer (printable_pieces hf _ _ _)

/-- Pieces that leave room are stored with a NUL behind them. -/
theorem format_of_lt (hf : f.Stores piece) {size : UInt32} {string : CString} {args : List Arg}
    (hstuck : ∀ p ∈ pieces f piece string.length (some string) args, p ≠ .stuck)
    (hlt : size.toNat < 2147483648)
    (hroom : (texts (pieces f piece string.length (some string) args)).length + 2 ≤ size.toNat)
    (buffer : Nat → UInt8) :
    f.format size string args buffer =
      .ok (((texts (pieces f piece string.length (some string) args)).length : Int),
        withText buffer (texts (pieces f piece string.length (some string) args))) := by
  rw [format_eq hf, call, maxPrintSize_of_lt hlt]
  generalize pieces f piece string.length (some string) args = ps at hstuck hroom ⊢
  have hpointer : (Output.append ⟨buffer, 0⟩ (texts ps)).pointer < size.toNat := by
    rw [Output.pointer_append, Nat.zero_add]
    omega
  rw [emitAll_of_lt hstuck (by show 0 + _ + 1 < _; omega)]
  simp only [finish_of_lt hpointer]
  rw [Output.pointer_append, Nat.zero_add]
  rfl

/-- The pieces of characters before a conversion or the end. -/
theorem pieces_literal {text : List UInt8} (htext : 37 ∉ text) (n : Nat) (rest : CString)
    (args : List Arg) :
    pieces f piece (text.length + n) (some (text ++ rest)) args =
      text.map (fun c => .guarded [c]) ++ pieces f piece n (some rest) args := by
  induction text with
  | nil => rw [List.length_nil, Nat.zero_add]; rfl
  | cons c text ih =>
    obtain ⟨hc, htext⟩ := not_or.1 fun h => htext (List.mem_cons.2 h)
    have hlength : (c :: text).length + n = (text.length + n) + 1 := by
      rw [List.length_cons, Nat.add_right_comm]
    rw [hlength, List.cons_append, pieces, if_neg (Ne.symm hc), ih htext]
    rfl

theorem texts_literal (text : List UInt8) : texts (text.map fun c => .guarded [c]) = text := by
  induction text with
  | nil => rfl
  | cons c text ih =>
    rw [List.map_cons, texts_cons, ih]
    rfl

end Formatter

end Vmwos.Format
