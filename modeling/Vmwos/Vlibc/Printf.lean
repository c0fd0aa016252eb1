import Vmwos.Lib.Printk

/-!
# The formatter of the C library

`vsnprintf_internal` of `printf.c`. A number is made with its sign in the scratch array, and the
call ends when the buffer is full within it. `convert_decimal32` stores its NUL behind the 32 bytes
of `int_buffer`: `room` is the number of bytes from `int_buffer` on that can be stored to, 32 by its
declaration, more when the compiler has left bytes behind it unused.
-/

set_option autoImplicit false

namespace Vmwos.Printf

open Library Format

/-- The size of `int_buffer`. -/
abbrev intBufferSize : Nat := 32

/-- The end of the four functions that convert: the NUL at position `stop`, the digits before it,
the sign before them. -/
def convertNumber (room base x stop : Nat) (negative : Bool) : Except Stuck (List UInt8) :=
  if stop < room then
    match digitLoop base x stop (Function.update (fun _ => 0) stop 0) with
    | .error e => .error e
    | .ok (intBuffer, start) =>
        if negative then
          match start with
          | 0 => .error .badAccess
          | start + 1 => .ok (slice (Function.update intBuffer start 45) start stop)
        else .ok (slice intBuffer start stop)
  else .error .badAccess

/-- `convert_decimal32` -/
def convertDecimal32 (room : Nat) (x : UInt32) (isSigned : Bool) : Except Stuck (List UInt8) :=
  if isSigned ∧ x &&& 0x80000000 ≠ 0 then convertNumber room 10 (~~~x + 1).toNat 32 true
  else convertNumber room 10 x.toNat 32 false

/-- `convert_hex32` -/
def convertHex32 (room : Nat) (x : UInt32) : Except Stuck (List UInt8) :=
  convertNumber room 16 x.toNat 31 false

/-- `convert_decimal64` -/
def convertDecimal64 (room : Nat) (x : UInt64) (isSigned : Bool) : Except Stuck (List UInt8) :=
  if isSigned ∧ x &&& 0x8000000000000000 ≠ 0 then convertNumber room 10 (~~~x + 1).toNat 31 true
  else convertNumber room 10 x.toNat 31 false

/-- `convert_hex64` -/
def convertHex64 (room : Nat) (x : UInt64) : Except Stuck (List UInt8) :=
  convertNumber room 16 x.toNat 18 false

/-- `pad`, true for -1. -/
def pad (size : Nat) (max : Int) (padLen : UInt8) (printedSize : Nat) (padValue : UInt8)
    (out : Output) : Except Stuck (Bool × Output) :=
  putLoop size max (List.replicate (padLen.toNat - printedSize) padValue) out

/-- `append_buffer`, true for -1. -/
def appendBuffer (size : Nat) (max : Int) (input : List UInt8) (out : Output) :
    Except Stuck (Bool × Output) :=
  putLoop size max input out

/-- What every number conversion does with its text. -/
def printNumber (size : Nat) (max : Int) (padValue padLen : UInt8) (text : List UInt8)
    (out : Output) : Except Stuck (Bool × Output) :=
  match pad size max padLen text.length padValue out with
  | .error e => .error e
  | .ok (true, out) => .ok (true, out)
  | .ok (false, out) => appendBuffer size max text out

/-- The conversion behind a `%` and the rest of the format, none when that is passed. -/
def conversion : CString → Conversion × Option CString
  | 100 :: string => (.decimal, some string)
  | 105 :: string => (.decimal, some string)
  | 117 :: string => (.unsigned, some string)
  | [108] => (.overrun, none)
  | 108 :: _ :: 120 :: string => (.longHex, some string)
  | 108 :: _ :: 100 :: string => (.longDecimal, some string)
  | 108 :: _ :: 117 :: string => (.longUnsigned, some string)
  | 108 :: _ :: string => (.unknown, some string)
  | 120 :: string => (.hex, some string)
  | 112 :: string => (.hex, some string)
  | 99 :: string => (.char, some string)
  | 37 :: string => (.percent, some string)
  | 115 :: string => (.string, some string)
  | string => (.unknown, some string)

/-- What a conversion stores: true when the `break` ends the call. -/
def convert (room size : Nat) (max : Int) (padValue padLen : UInt8) (args : List Arg)
    (out : Output) : Conversion → Except Stuck ((Bool × Output) × List Arg)
  | .decimal => do
      let (x, args) ← vaWord args
      return (← printNumber size max padValue padLen (← convertDecimal32 room x true) out, args)
  | .unsigned => do
      let (x, args) ← vaWord args
      return (← printNumber size max padValue padLen (← convertDecimal32 room x false) out, args)
  | .longHex => do
      let (x, args) ← vaLong args
      return (← printNumber size max padValue padLen (← convertHex64 room x) out, args)
  | .longDecimal => do
      let (x, args) ← vaLong args
      return (← printNumber size max padValue padLen (← convertDecimal64 room x true) out, args)
  | .longUnsigned => do
      let (x, args) ← vaLong args
      return (← printNumber size max padValue padLen (← convertDecimal64 room x false) out, args)
  | .hex => do
      let (x, args) ← vaWord args
      return (← printNumber size max padValue padLen (← convertHex32 room x) out, args)
  | .char => do
      let (x, args) ← vaWord args
      return (← printChar size max x.toUInt8 out, args)
  | .percent => return (← printChar size max 37 out, args)
  | .string => do
      let (s, args) ← vaString args
      return (← printString size max s out, args)
  | .overrun => .error .badAccess
  | .unknown => .ok ((false, out), args)

/-- The conversions of the C library. -/
def formatter (room : Nat) : Formatter := ⟨conversion, convert room⟩

/-- `vsnprintf_internal` -/
def vsnprintfInternal (room : Nat) (size : UInt32) (string : CString) (args : List Arg)
    (buffer : Nat → UInt8) : Except Stuck (Int × (Nat → UInt8)) :=
  (formatter room).format size string args buffer

/-! ## What is stored for the conversions -/

/-- A number with its padding; stuck when the scratch array is too small. -/
def numberPiece (room stop : Nat) (padValue padLen : UInt8) (text : List UInt8) : Piece :=
  if stop < room then .guarded (List.replicate (padLen.toNat - text.length) padValue ++ text)
  else .stuck

/-- The text of a signed number. -/
def signedText (negative : Bool) (base x : Nat) : List UInt8 := signText negative ++ digits base x

/-- The text of a 32-bit decimal number. -/
def decimalText (isSigned : Bool) (x : UInt32) : List UInt8 :=
  if isSigned ∧ x &&& 0x80000000 ≠ 0 then signedText true 10 (~~~x + 1).toNat
  else signedText false 10 x.toNat

/-- The text of a 64-bit decimal number. -/
def longDecimalText (isSigned : Bool) (x : UInt64) : List UInt8 :=
  if isSigned ∧ x &&& 0x8000000000000000 ≠ 0 then signedText true 10 (~~~x + 1).toNat
  else signedText false 10 x.toNat

/-- The piece of a conversion, stuck when there is no argument for it. -/
def piece (room : Nat) (padValue padLen : UInt8) (args : List Arg) :
    Conversion → Piece × List Arg
  | .decimal =>
      match vaWord args with
      | .error _ => (.stuck, args)
      | .ok (x, args) => (numberPiece room 32 padValue padLen (decimalText true x), args)
  | .unsigned =>
      match vaWord args with
      | .error _ => (.stuck, args)
      | .ok (x, args) => (numberPiece room 32 padValue padLen (decimalText false x), args)
  | .longHex =>
      match vaLong args with
      | .error _ => (.stuck, args)
      | .ok (x, args) => (numberPiece room 18 padValue padLen (digits 16 x.toNat), args)
  | .longDecimal =>
      match vaLong args with
      | .error _ => (.stuck, args)
      | .ok (x, args) => (numberPiece room 31 padValue padLen (longDecimalText true x), args)
  | .longUnsigned =>
      match vaLong args with
      | .error _ => (.stuck, args)
      | .ok (x, args) => (numberPiece room 31 padValue padLen (longDecimalText false x), args)
  | .hex =>
      match vaWord args with
      | .error _ => (.stuck, args)
      | .ok (x, args) => (numberPiece room 31 padValue padLen (digits 16 x.toNat), args)
  | .char =>
      match vaWord args with
      | .error _ => (.stuck, args)
      | .ok (x, args) => (.guarded [x.toUInt8], args)
  | .percent => (.guarded [37], args)
  | .string =>
      match vaString args with
      | .error _ => (.stuck, args)
      | .ok (s, args) => (.loose false [] s, args)
  | .overrun => (.stuck, args)
  | .unknown => (.guarded [], args)

section Stores

variable {room size : Nat} {max : Int} {padValue padLen : UInt8} {args : List Arg} {out : Output}

/-- The text with its sign, when there is room for the NUL. -/
theorem convertNumber_eq {base x stop : Nat} (hbase : 1 < base) (negative : Bool)
    (hlength : (digits base x).length < stop) :
    convertNumber room base x stop negative =
      if stop < room then .ok (signedText negative base x) else .error .badAccess := by
  obtain ⟨intBuffer, start, hloop, hstart, hslice⟩ :=
    digitLoop_slice hbase x stop (Function.update (fun _ => 0) stop 0) (Nat.le_of_lt hlength)
  rw [convertNumber, hloop]
  by_cases hroom : stop < room
  · rw [if_pos hroom, if_pos hroom]
    cases negative with
    | false =>
      simp only [Bool.false_eq_true, if_false, hslice]
      rfl
    | true =>
      cases start with
      | zero =>
        rw [Nat.zero_add] at hstart
        exact absurd hstart (Nat.ne_of_lt hlength)
      | succ start =>
        -- the sign stands before the first digit
        have hcount : stop - start = stop - (start + 1) + 1 := by omega
        simp only [if_true]
        rw [signedText, ← hslice, slice, slice, hcount, List.range_succ_eq_map, List.map_cons,
          List.map_map, Nat.add_zero, Function.update_self, signText, if_pos rfl]
        congr 1
        refine congrArg _ (List.map_congr_left fun i _ => ?_)
        rw [Function.comp_apply, Function.update_of_ne (by omega)]
        congr 1
        omega
  · rw [if_neg hroom, if_neg hroom]

/-- The padding and the text are stored, unless the buffer is full before. -/
theorem printNumber_eq (text : List UInt8) :
    printNumber size max padValue padLen text out =
      putLoop size max (List.replicate (padLen.toNat - text.length) padValue ++ text) out := by
  rw [putLoop_append]
  rfl

/-- A number is converted and stored, or the scratch array is too small. -/
theorem emit_number (stop : Nat) (text : List UInt8) :
    ((if stop < room then .ok text else .error .badAccess : Except Stuck (List UInt8)).bind
        fun text => printNumber size max padValue padLen text out) =
      emit size max (numberPiece room stop padValue padLen text) out := by
  unfold numberPiece
  split
  · exact printNumber_eq text
  · rfl

theorem convertDecimal32_eq (x : UInt32) (isSigned : Bool) :
    convertDecimal32 room x isSigned =
      if 32 < room then .ok (decimalText isSigned x) else .error .badAccess := by
  unfold convertDecimal32 decimalText
  split
  · exact convertNumber_eq (by decide) true (Nat.lt_of_le_of_lt (length_decimal_le _) (by decide))
  · exact convertNumber_eq (by decide) false (Nat.lt_of_le_of_lt (length_decimal_le _) (by decide))

theorem convertDecimal64_eq (x : UInt64) (isSigned : Bool) :
    convertDecimal64 room x isSigned =
      if 31 < room then .ok (longDecimalText isSigned x) else .error .badAccess := by
  unfold convertDecimal64 longDecimalText
  split
  · exact convertNumber_eq (by decide) true
      (Nat.lt_of_le_of_lt (length_longDecimal_le _) (by decide))
  · exact convertNumber_eq (by decide) false
      (Nat.lt_of_le_of_lt (length_longDecimal_le _) (by decide))

theorem convertHex32_eq (x : UInt32) :
    convertHex32 room x = if 31 < room then .ok (digits 16 x.toNat) else .error .badAccess :=
  convertNumber_eq (by decide) false (Nat.lt_of_le_of_lt (length_hex_le x) (by decide))

theorem convertHex64_eq (x : UInt64) :
    convertHex64 room x = if 18 < room then .ok (digits 16 x.toNat) else .error .badAccess :=
  convertNumber_eq (by decide) false (Nat.lt_of_le_of_lt (length_longHex_le x) (by decide))

/-- A conversion of a number stores its piece and takes its argument. -/
theorem bind_number (stop : Nat) (text : List UInt8) (rest : List Arg) :
    ((if stop < room then .ok text else .error .badAccess : Except Stuck (List UInt8)).bind
        fun text => (printNumber size max padValue padLen text out).bind
          fun r => .ok (r, rest)) =
      (emit size max (numberPiece room stop padValue padLen text) out).map fun r => (r, rest) := by
  rw [← emit_number]
  split
  · rfl
  · rfl

/-- A conversion stores its piece. -/
theorem convert_eq (conv : Conversion) :
    convert room size max padValue padLen args out conv =
      (emit size max (piece room padValue padLen args conv).1 out).map
        fun r => (r, (piece room padValue padLen args conv).2) := by
  cases conv with
  | decimal =>
    rcases vaWord_cases args with harg | ⟨x, rest, harg⟩
    · simp only [convert, piece, harg, bind, Except.bind]
      rfl
    · simp only [convert, piece, harg]
      rw [← bind_number, ← convertDecimal32_eq]
      rfl
  | unsigned =>
    rcases vaWord_cases args with harg | ⟨x, rest, harg⟩
    · simp only [convert, piece, harg, bind, Except.bind]
      rfl
    · simp only [convert, piece, harg]
      rw [← bind_number, ← convertDecimal32_eq]
      rfl
  | longHex =>
    rcases vaLong_cases args with harg | ⟨x, rest, harg⟩
    · simp only [convert, piece, harg, bind, Except.bind]
      rfl
    · simp only [convert, piece, harg]
      rw [← bind_number, ← convertHex64_eq]
      rfl
  | longDecimal =>
    rcases vaLong_cases args with harg | ⟨x, rest, harg⟩
    · simp only [convert, piece, harg, bind, Except.bind]
      rfl
    · simp only [convert, piece, harg]
      rw [← bind_number, ← convertDecimal64_eq]
      rfl
  | longUnsigned =>
    rcases vaLong_cases args with harg | ⟨x, rest, harg⟩
    · simp only [convert, piece, harg, bind, Except.bind]
      rfl
    · simp only [convert, piece, harg]
      rw [← bind_number, ← convertDecimal64_eq]
      rfl
  | hex =>
    rcases vaWord_cases args with harg | ⟨x, rest, harg⟩
    · simp only [convert, piece, harg, bind, Except.bind]
      rfl
    · simp only [convert, piece, harg]
      rw [← bind_number, ← convertHex32_eq]
      rfl
  | char =>
    rcases vaWord_cases args with harg | ⟨x, rest, harg⟩
    · simp only [convert, piece, harg, bind, Except.bind]
      rfl
    · simp only [convert, piece, harg, bind, Except.bind, printChar_eq]
      rfl
  | percent =>
    simp only [convert, piece, bind, Except.bind, printChar_eq]
    rfl
  | string =>
    rcases vaString_cases args with harg | ⟨s, rest, harg⟩
    · simp only [convert, piece, harg, bind, Except.bind]
      rfl
    · simp only [convert, piece, harg, bind, Except.bind, printString_eq]
      rfl
  | overrun => rfl
  | unknown => rfl

theorem length_conversion_le (string rest : CString) (h : (conversion string).2 = some rest) :
    rest.length ≤ string.length := by
  unfold conversion at h
  split at h
  all_goals first
    | (obtain rfl := Option.some.inj h
       simp only [List.length_cons]
       omega)
    | (obtain rfl := Option.some.inj h
       exact Nat.le_refl _)
    | cases h

theorem printable_numberPiece (stop : Nat) (text : List UInt8) :
    (numberPiece room stop padValue padLen text).Printable := by
  unfold numberPiece
  split
  · trivial
  · trivial

theorem printable_piece (conv : Conversion) :
    (piece room padValue padLen args conv).1.Printable := by
  unfold piece
  repeat' split
  all_goals first
    | trivial
    | exact printable_numberPiece _ _
    | exact fun _ => ⟨rfl, rfl⟩

theorem formatter_stores (room : Nat) : (formatter room).Stores (piece room) where
  convert_eq _ _ _ _ _ _ conv := convert_eq conv
  length_le := length_conversion_le
  printable _ _ _ conv := printable_piece conv

end Stores

/-! ## The two formatters and their buffers -/

theorem contained_singleton (size start : Nat) (text : List UInt8) :
    Contained size start [.guarded text] :=
  (contained_cons _ _ _ _).2 ⟨trivial, fun _ => contained_nil _ _⟩

theorem isOk_of_bounded {size : UInt32} {r : Except Stuck (Int × (Nat → UInt8))}
    (h : Bounded size r) : r.isOk = true := by
  obtain ⟨n, buffer, rfl, -⟩ := h
  rfl

end Vmwos.Printf
