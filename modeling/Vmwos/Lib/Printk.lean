import Vmwos.Lib.Format

/-!
# The formatter of the kernel

`vsnprintf` of `printk.c`. The loops for the padding, the digits and a string only leave themselves
when the buffer is full; the test behind the conversion looks for one byte less. `formatter_stores`
says what is stored for the conversions.
-/

set_option autoImplicit false

namespace Vmwos.Printk

open Library Format

/-- The conversion behind a `%` and the rest of the format, none when that is passed. -/
def conversion : CString → Conversion × Option CString
  | 100 :: string => (.decimal, some string)
  | 105 :: string => (.decimal, some string)
  | [108] => (.overrun, none)
  | [108, _] => (.longHex, none)
  | 108 :: _ :: _ :: string => (.longHex, some string)
  | 120 :: string => (.hex, some string)
  | 88 :: string => (.hex, some string)
  | 112 :: string => (.hex, some string)
  | 99 :: string => (.char, some string)
  | 37 :: string => (.percent, some string)
  | 115 :: string => (.string, some string)
  | string => (.unknown, some string)

/-- A number behind its sign: the digits, made in `int_buffer` from before position `stop`, and the
padding before them. -/
def printNumber (size : Nat) (max : Int) (padValue padLen : UInt8) (base x stop printedSize : Nat)
    (out : Output) : Except Stuck (Bool × Output) :=
  match digitLoop base x stop fun _ => 0 with
  | .error e => .error e
  | .ok (intBuffer, start) =>
      let printedSize := printedSize + (stop - start)
      match putLoop size max (List.replicate (padLen.toNat - printedSize) padValue) out with
      | .error e => .error e
      | .ok (_, out) =>
          match putLoop size max (slice intBuffer start stop) out with
          | .error e => .error e
          | .ok (_, out) => .ok (false, out)

/-- `%d` -/
def printDecimal (size : Nat) (max : Int) (padValue padLen : UInt8) (x : UInt32) (out : Output) :
    Except Stuck (Bool × Output) :=
  if x &&& 0x80000000 ≠ 0 then
    match put size 45 out with
    | .error e => .error e
    | .ok out =>
        if (out.pointer : Int) = max then .ok (true, out)
        else printNumber size max padValue padLen 10 (~~~x + 1).toNat 10 1 out
  else printNumber size max padValue padLen 10 x.toNat 10 0 out

/-- What a conversion stores: true when the `break` ends the call. -/
def convert (size : Nat) (max : Int) (padValue padLen : UInt8) (args : List Arg) (out : Output) :
    Conversion → Except Stuck ((Bool × Output) × List Arg)
  | .decimal => do
      let (x, args) ← vaWord args
      return (← printDecimal size max padValue padLen x out, args)
  | .longHex => do
      -- no padding here
      let (x, args) ← vaLong args
      return (← printNumber size max 32 0 16 x.toNat 18 0 out, args)
  | .hex => do
      let (x, args) ← vaWord args
      return (← printNumber size max padValue padLen 16 x.toNat 10 0 out, args)
  | .char => do
      let (x, args) ← vaWord args
      return (← printChar size max x.toUInt8 out, args)
  | .percent => return (← printChar size max 37 out, args)
  | .string => do
      let (s, args) ← vaString args
      return (← printString size max s out, args)
  | .overrun => .error .badAccess
  | _ => .ok ((false, out), args)

/-- The conversions of the kernel. -/
def formatter : Formatter := ⟨conversion, convert⟩

/-- `vsnprintf` of `printk.c` -/
def vsnprintf (size : UInt32) (string : CString) (args : List Arg) (buffer : Nat → UInt8) :
    Except Stuck (Int × (Nat → UInt8)) := formatter.format size string args buffer

/-! ## What the rounds store -/

/-- A number with its padding. -/
def numberPiece (negative : Bool) (padValue padLen : UInt8) (base x : Nat) : Piece :=
  .loose negative (List.replicate
    (padLen.toNat - ((signText negative).length + (digits base x).length)) padValue) (digits base x)

/-- `%d` -/
def decimalPiece (padValue padLen : UInt8) (x : UInt32) : Piece :=
  if x &&& 0x80000000 ≠ 0 then numberPiece true padValue padLen 10 (~~~x + 1).toNat
  else numberPiece false padValue padLen 10 x.toNat

/-- The piece of a conversion, stuck when there is no argument for it. -/
def piece (padValue padLen : UInt8) (args : List Arg) : Conversion → Piece × List Arg
  | .decimal =>
      match vaWord args with
      | .error _ => (.stuck, args)
      | .ok (x, args) => (decimalPiece padValue padLen x, args)
  | .longHex =>
      match vaLong args with
      | .error _ => (.stuck, args)
      | .ok (x, args) => (numberPiece false 32 0 16 x.toNat, args)
  | .hex =>
      match vaWord args with
      | .error _ => (.stuck, args)
      | .ok (x, args) => (numberPiece false padValue padLen 16 x.toNat, args)
  | .char =>
      match vaWord args with
      | .error _ => (.stuck, args)
      | .ok (x, args) => (.guarded [x.toUInt8], args)
  | .percent => (.guarded [37], args)
  | .string =>
      match vaString args with
      | .error _ => (.stuck, args)
      | .ok (s, args) => (.loose false [] s, args)
  | .overrun => (.stuck, args)
  | _ => (.guarded [], args)

section Pieces

variable {size : Nat} {max : Int} {padValue padLen : UInt8} {args : List Arg} {out : Output}

theorem printNumber_eq {base x stop : Nat} (hbase : 1 < base) (negative : Bool)
    (hlength : (digits base x).length ≤ stop) :
    printNumber size max padValue padLen base x stop (signText negative).length out =
      match putLoop size max (List.replicate (padLen.toNat -
        ((signText negative).length + (digits base x).length)) padValue) out with
      | .error e => .error e
      | .ok (_, out) =>
          match putLoop size max (digits base x) out with
          | .error e => .error e
          | .ok (_, out) => .ok (false, out) := by
  obtain ⟨intBuffer, start, hloop, hstart, hslice⟩ :=
    digitLoop_slice hbase x stop (fun _ => 0) hlength
  have hprinted : stop - start = (digits base x).length := by
    rw [← hstart, Nat.add_sub_cancel_left]
  rw [printNumber, hloop]
  simp only [hprinted, hslice]

theorem emit_unsigned {base x stop : Nat} (hbase : 1 < base)
    (hlength : (digits base x).length ≤ stop) :
    printNumber size max padValue padLen base x stop 0 out =
      emit size max (numberPiece false padValue padLen base x) out :=
  printNumber_eq hbase false hlength

theorem printDecimal_eq (x : UInt32) :
    printDecimal size max padValue padLen x out =
      emit size max (decimalPiece padValue padLen x) out := by
  unfold printDecimal decimalPiece
  split
  · rw [numberPiece, emit, signText, if_pos rfl, putLoop]
    cases put size 45 out with
    | error e => rfl
    | ok out' =>
      dsimp only
      by_cases hfull : (out'.pointer : Int) = max
      · rw [if_pos hfull, if_pos hfull]
      · rw [if_neg hfull, if_neg hfull]
        exact printNumber_eq (by decide) true (length_decimal_le _)
  · exact emit_unsigned (by decide) (length_decimal_le _)

/-- A conversion stores its piece. -/
theorem convert_eq (conv : Conversion) :
    convert size max padValue padLen args out conv =
      (emit size max (piece padValue padLen args conv).1 out).map
        fun r => (r, (piece padValue padLen args conv).2) := by
  cases conv with
  | decimal =>
    rcases vaWord_cases args with harg | ⟨x, rest, harg⟩
    · simp only [convert, piece, harg, bind, Except.bind]
      rfl
    · simp only [convert, piece, harg, bind, Except.bind, printDecimal_eq]
      rfl
  | longHex =>
    rcases vaLong_cases args with harg | ⟨x, rest, harg⟩
    · simp only [convert, piece, harg, bind, Except.bind]
      rfl
    · have hlength : (digits 16 x.toNat).length ≤ 18 :=
        Nat.le_trans (length_longHex_le x) (by decide)
      simp only [convert, piece, harg, bind, Except.bind, emit_unsigned (by decide) hlength]
      rfl
  | hex =>
    rcases vaWord_cases args with harg | ⟨x, rest, harg⟩
    · simp only [convert, piece, harg, bind, Except.bind]
      rfl
    · simp only [convert, piece, harg, bind, Except.bind,
        emit_unsigned (by decide) (length_hex_le x)]
      rfl
  | char =>
    rcases vaWord_cases args with harg | ⟨x, rest, harg⟩
    · simp only [convert, piece, harg, bind, Except.bind]
      rfl
    · simp only [convert, piece, harg, bind, Except.bind, printChar_eq]
      rfl
  | percent =>
    simp only [convert, piece, bind, Except.bind, printChar_eq]
    rfl
  | string =>
    rcases vaString_cases args with harg | ⟨s, rest, harg⟩
    · simp only [convert, piece, harg, bind, Except.bind]
      rfl
    · simp only [convert, piece, harg, bind, Except.bind, printString_eq]
      rfl
  | overrun => rfl
  | unsigned => rfl
  | longDecimal => rfl
  | longUnsigned => rfl
  | unknown => rfl

theorem length_conversion_le (string rest : CString) (h : (conversion string).2 = some rest) :
    rest.length ≤ string.length := by
  unfold conversion at h
  split at h
  all_goals first
    | (obtain rfl := Option.some.inj h
       simp only [List.length_cons]
       omega)
    | (obtain rfl := Option.some.inj h
       exact Nat.le_refl _)
    | cases h

theorem printable_numberPiece (negative : Bool) (base x : Nat) :
    (numberPiece negative padValue padLen base x).Printable := fun h => absurd h digits_ne_nil

theorem printable_piece (conv : Conversion) : (piece padValue padLen args conv).1.Printable := by
  unfold piece decimalPiece
  repeat' split
  all_goals first
    | trivial
    | exact printable_numberPiece _ _ _
    | exact fun _ => ⟨rfl, rfl⟩

theorem formatter_stores : formatter.Stores piece where
  convert_eq _ _ _ _ _ _ conv := convert_eq conv
  length_le := length_conversion_le
  printable _ _ _ conv := printable_piece conv

end Pieces

end Vmwos.Printk
