import Mathlib.Data.Nat.Bitwise
import Vmwos.Vlibc.PrintfAgrees

/-!
# Numbers in the two formatters

The four functions of `printf.c` that convert a number leave the text in `int_buffer`, where it
begins in `out_pointer`, and return its size. Here they are with that count, and
`convertDecimal32_text` and its like compare them with what the formatter takes from them.
`integersExact_iff` says that the texts are the numerals of the numbers; `convert_decimal32` stores
its NUL behind the 32 bytes of `int_buffer`.
-/

set_option autoImplicit false

namespace Vmwos.Printf

open Library Format

/-! ## The conversions with their sizes -/

/-- What a conversion leaves. -/
structure Converted where
  intBuffer : Nat → UInt8
  outPointer : Nat
  printedSize : Nat

/-- What the caller appends to its buffer. -/
def Converted.text (r : Converted) : List UInt8 :=
  slice r.intBuffer r.outPointer (r.outPointer + r.printedSize)

namespace Counted

/-- The loop of the digits; `outPointer` is one more than `int_pointer` at the end. -/
def digitLoop (base : Nat) : (x intPointer printedSize : Nat) → (Nat → UInt8) →
    Except Stuck Converted
  | _, 0, _, _ => .error .badAccess
  | x, intPointer + 1, printedSize, intBuffer =>
      let intBuffer := Function.update intBuffer intPointer (digitChar (x % base))
      if x / base = 0 then .ok ⟨intBuffer, intPointer, printedSize + 1⟩
      else digitLoop base (x / base) intPointer (printedSize + 1) intBuffer

/-- From the NUL at position `stop` to the sign. -/
def convertNumber (room base x stop : Nat) (negative : Bool) : Except Stuck Converted :=
  if stop < room then
    match digitLoop base x stop 0 (Function.update (fun _ => 0) stop 0) with
    | .error e => .error e
    | .ok r =>
        if negative then
          match r.outPointer with
          | 0 => .error .badAccess
          | start + 1 =>
              .ok ⟨Function.update r.intBuffer start 45, start, r.printedSize + 1⟩
        else .ok r
  else .error .badAccess

/-- `convert_decimal32` -/
def convertDecimal32 (room : Nat) (x : UInt32) (isSigned : Bool) : Except Stuck Converted :=
  if isSigned ∧ x &&& 0x80000000 ≠ 0 then convertNumber room 10 (~~~x + 1).toNat 32 true
  else convertNumber room 10 x.toNat 32 false

/-- `convert_hex32` -/
def convertHex32 (room : Nat) (x : UInt32) : Except Stuck Converted :=
  convertNumber room 16 x.toNat 31 false

/-- `convert_decimal64` -/
def convertDecimal64 (room : Nat) (x : UInt64) (isSigned : Bool) : Except Stuck Converted :=
  if isSigned ∧ x &&& 0x8000000000000000 ≠ 0 then convertNumber room 10 (~~~x + 1).toNat 31 true
  else convertNumber room 10 x.toNat 31 false

/-- `convert_hex64` -/
def convertHex64 (room : Nat) (x : UInt64) : Except Stuck Converted :=
  convertNumber room 16 x.toNat 18 false

end Counted

/-! ## What is to be printed -/

/-- A text is the numeral of a number: a minus sign for a negative one, and the digits of the
absolute value, without leading zeros. -/
def IsIntegerText (base : Nat) (v : Int) (text : List UInt8) : Prop :=
  ∃ ds, IsNumeral base v.natAbs ds ∧ text = signText (decide (v < 0)) ++ ds.map digitChar

/-- The value of a 32-bit number for `%d` and `%u`. -/
def value32 (isSigned : Bool) (x : UInt32) : Int := if isSigned then x.toBitVec.toInt else x.toNat

/-- The same for 64 bits. -/
def value64 (isSigned : Bool) (x : UInt64) : Int := if isSigned then x.toBitVec.toInt else x.toNat

/-- A conversion leaves the numeral, with a NUL behind it, and its length. -/
def Converts (base : Nat) (v : Int) (r : Except Stuck Converted) : Prop :=
  ∃ converted text, r = .ok converted ∧ IsIntegerText base v text ∧
    converted.printedSize = text.length ∧ converted.text = text ∧
    converted.intBuffer (converted.outPointer + text.length) = 0

/-- The kernel stores the numeral with its NUL and returns its length, when the buffer is large
enough. -/
def KernelPrints (base : Nat) (v : Int) (item : Item) : Prop :=
  ∃ text, IsIntegerText base v text ∧ ∀ (size : UInt32) (buffer : Nat → UInt8),
    text.length + 2 ≤ size.toNat → size.toNat < 2147483648 →
      Printk.vsnprintf size item.render item.args buffer =
        .ok ((text.length : Int), withText buffer text)

/-- No digits for the width. -/
def noWidth : Width := ⟨[], fun _ h => absurd h List.not_mem_nil, by decide⟩

/-- Every number is printed as its numeral, by the kernel for `%d`, `%x` and `%llx`, and by the four
functions of the C library. -/
structure IntegersExact (room : Nat) : Prop where
  decimal32 : ∀ isSigned x, Converts 10 (value32 isSigned x) (Counted.convertDecimal32 room x isSigned)
  hex32 : ∀ x, Converts 16 (value32 false x) (Counted.convertHex32 room x)
  decimal64 : ∀ isSigned x, Converts 10 (value64 isSigned x) (Counted.convertDecimal64 room x isSigned)
  hex64 : ∀ x, Converts 16 (value64 false x) (Counted.convertHex64 room x)
  kernelDecimal : ∀ x, KernelPrints 10 (value32 true x) (.decimal false noWidth x)
  kernelHex : ∀ x, KernelPrints 16 (value32 false x) (.hex false noWidth x)
  kernelLongHex : ∀ x, KernelPrints 16 (value64 false x) (.longHex x)

/-! ## The loop with its count -/

section Loop

variable {base room x stop printedSize : Nat} {intBuffer : Nat → UInt8}

/-- The loop passes at least one position. -/
theorem digitLoop_lt {r : (Nat → UInt8) × Nat} (h : digitLoop base x stop intBuffer = .ok r) :
    r.2 < stop := by
  induction stop generalizing x intBuffer with
  | zero => cases h
  | succ intPointer ih =>
      rw [digitLoop] at h
      split at h
      · rw [← Except.ok.inj h]
        exact Nat.lt_succ_self intPointer
      · exact Nat.lt_succ_of_lt (ih h)

/-- The loop with its count is the loop, and counts the positions it has passed. -/
theorem digitLoop_counted (base x stop printedSize : Nat) (intBuffer : Nat → UInt8) :
    Counted.digitLoop base x stop printedSize intBuffer =
      (digitLoop base x stop intBuffer).map fun r => ⟨r.1, r.2, printedSize + (stop - r.2)⟩ := by
  induction stop generalizing x printedSize intBuffer with
  | zero => rfl
  | succ intPointer ih =>
      rw [Counted.digitLoop, digitLoop]
      split
      · have hcount : intPointer + 1 - intPointer = 1 := Nat.add_sub_cancel_left _ _
        show Except.ok (Converted.mk _ _ _) = Except.ok (Converted.mk _ _ _)
        rw [hcount]
      · rw [ih]
        cases hloop : digitLoop base (x / base) intPointer
            (Function.update intBuffer intPointer (digitChar (x % base))) with
        | error e => rfl
        | ok r =>
            have hlt := digitLoop_lt hloop
            have hcount : printedSize + 1 + (intPointer - r.2) =
                printedSize + (intPointer + 1 - r.2) := by omega
            show Except.ok (Converted.mk _ _ _) = Except.ok (Converted.mk _ _ _)
            rw [hcount]

/-- A conversion leaves the text of the number, with the NUL behind it. -/
theorem convertNumber_counted (hbase : 1 < base) (negative : Bool)
    (hlength : (digits base x).length < stop) (hroom : stop < room) :
    ∃ r, Counted.convertNumber room base x stop negative = .ok r ∧
      r.text = signedText negative base x ∧
      r.printedSize = (signedText negative base x).length ∧
      r.intBuffer (r.outPointer + (signedText negative base x).length) = 0 := by
  obtain ⟨intBuffer, start, hloop, hstart, hnew, hold⟩ :=
    digitLoop_eq hbase x stop (Function.update (fun _ => 0) stop 0) (Nat.le_of_lt hlength)
  have hcount : 0 + (stop - start) = (digits base x).length := by omega
  have hnul : intBuffer stop = 0 := (hold stop (Nat.le_refl _)).trans (Function.update_self _ _ _)
  rw [Counted.convertNumber, if_pos hroom, digitLoop_counted, hloop]
  cases negative with
  | false =>
      refine ⟨⟨intBuffer, start, 0 + (stop - start)⟩, rfl, ?_, hcount, ?_⟩
      · apply List.ext_getElem
        · rw [Converted.text, length_slice, hcount, Nat.add_sub_cancel_left]
          rfl
        · intro i hi hi'
          have hi'' : i < (digits base x).length := hi'
          simp only [Converted.text, slice, List.getElem_map, List.getElem_range]
          rw [hnew i hi'', List.getD_eq_getElem _ _ hi'']
          rfl
      · show intBuffer (start + (digits base x).length) = 0
        rw [hstart, hnul]
  | true =>
      obtain ⟨before, rfl⟩ : ∃ before, start = before + 1 := ⟨start - 1, by omega⟩
      have hlen : (signedText true base x).length = (digits base x).length + 1 := by
        rw [signedText, signText, if_pos rfl, List.length_append, List.length_singleton,
          Nat.add_comm]
      refine ⟨⟨Function.update intBuffer before 45, before, 0 + (stop - (before + 1)) + 1⟩, rfl,
        ?_, ?_, ?_⟩
      · -- the sign stands before the first digit
        apply List.ext_getElem
        · rw [Converted.text, length_slice, hcount, hlen, Nat.add_sub_cancel_left]
        · intro i hi hi'
          simp only [Converted.text, slice, List.getElem_map, List.getElem_range]
          cases i with
          | zero => exact Function.update_self _ _ _
          | succ i =>
              have hi'' : i < (digits base x).length := by omega
              have hplace : before + (i + 1) = before + 1 + i := by omega
              rw [hplace, Function.update_of_ne (by omega), hnew i hi'',
                List.getD_eq_getElem _ _ hi'']
              rfl
      · rw [hcount, hlen]
      · show Function.update intBuffer before 45 (before + (signedText true base x).length) = 0
        have hplace : before + (signedText true base x).length = stop := by omega
        rw [hplace, Function.update_of_ne (by omega), hnul]

end Loop

/-! ## The numerals -/

section Numerals

variable {base room : Nat}

/-- The sign bit of a number is set when it is not below it. -/
theorem and_sign_ne_zero {n k : Nat} (h : n < 2 ^ (k + 1)) : n &&& 2 ^ k ≠ 0 ↔ 2 ^ k ≤ n := by
  have hpos : 0 < 2 ^ k := Nat.two_pow_pos k
  have hquotient : n / 2 ^ k < 2 := by
    rw [Nat.div_lt_iff_lt_mul hpos]
    rwa [Nat.pow_succ, Nat.mul_comm] at h
  rw [Nat.and_two_pow, Nat.testBit_eq_decide_div_mod_eq, Nat.mod_eq_of_lt hquotient]
  by_cases hle : 2 ^ k ≤ n
  · have hone : n / 2 ^ k = 1 := Nat.le_antisymm (Nat.le_of_lt_succ hquotient)
      ((Nat.one_le_div_iff hpos).2 hle)
    refine iff_of_true ?_ hle
    rw [hone]
    simp
  · have hzero : n / 2 ^ k = 0 := Nat.div_eq_of_lt (Nat.lt_of_not_le hle)
    refine iff_of_false ?_ hle
    rw [hzero]
    simp

theorem isNegative32 (x : UInt32) : x &&& 0x80000000 ≠ 0 ↔ 2147483648 ≤ x.toNat := by
  have hand : (x &&& 0x80000000).toNat = x.toNat &&& 2 ^ 31 := UInt32.toNat_and _ _
  rw [Ne, ← UInt32.toNat_inj, hand]
  exact and_sign_ne_zero x.toNat_lt

theorem isNegative64 (x : UInt64) :
    x &&& 0x8000000000000000 ≠ 0 ↔ 9223372036854775808 ≤ x.toNat := by
  have hand : (x &&& 0x8000000000000000).toNat = x.toNat &&& 2 ^ 63 := UInt64.toNat_and _ _
  rw [Ne, ← UInt64.toNat_inj, hand]
  exact and_sign_ne_zero x.toNat_lt

theorem isIntegerText_natCast (hbase : 1 < base) (n : Nat) :
    IsIntegerText base n (signedText false base n) := by
  refine ⟨numeral base n, numeral_canonical hbase n, ?_⟩
  have hsign : decide ((n : Int) < 0) = false := decide_eq_false (Int.not_lt.2 (Int.natCast_nonneg n))
  rw [hsign]
  rfl

theorem isIntegerText_neg (hbase : 1 < base) {n : Nat} (hn : n ≠ 0) :
    IsIntegerText base (-(n : Int)) (signedText true base n) := by
  refine ⟨numeral base n, ?_, ?_⟩
  · rw [Int.natAbs_neg, Int.natAbs_natCast]
    exact numeral_canonical hbase n
  · have hsign : decide (-(n : Int) < 0) = true := decide_eq_true (by omega)
    rw [hsign]
    rfl

/-- Two's complement with `k+1` bits. -/
theorem isIntegerText_signed (hbase : 1 < base) {k n : Nat} (h : n < 2 ^ (k + 1)) :
    IsIntegerText base (if 2 ^ k ≤ n then (n : Int) - (2 ^ (k + 1) : Nat) else n)
      (if 2 ^ k ≤ n then signedText true base (2 ^ (k + 1) - n) else signedText false base n) := by
  split
  · have hneg : (n : Int) - (2 ^ (k + 1) : Nat) = -((2 ^ (k + 1) - n : Nat) : Int) := by omega
    rw [hneg]
    exact isIntegerText_neg hbase (Nat.sub_ne_zero_of_lt h)
  · exact isIntegerText_natCast hbase n

/-- The complement of a negative number with one more is its absolute value. -/
theorem decimalText_signed (x : UInt32) :
    decimalText true x = if 2 ^ 31 ≤ x.toNat then signedText true 10 (2 ^ (31 + 1) - x.toNat)
      else signedText false 10 x.toNat := by
  rw [decimalText]
  by_cases hneg : x &&& 0x80000000 ≠ 0
  · have hle := (isNegative32 x).1 hneg
    have hlt := x.toNat_lt
    have hone : (1 : UInt32).toNat = 1 := rfl
    have hsize : UInt32.size = 4294967296 := rfl
    have hcomplement : (~~~x + 1).toNat = 2 ^ (31 + 1) - x.toNat := by
      rw [UInt32.toNat_add, UInt32.toNat_not, hone]
      omega
    rw [if_pos ⟨rfl, hneg⟩, hcomplement]
    exact (if_pos hle).symm
  · rw [if_neg fun h => hneg h.2]
    exact (if_neg fun h => hneg ((isNegative32 x).2 h)).symm

theorem value32_signed (x : UInt32) :
    value32 true x =
      if 2 ^ 31 ≤ x.toNat then (x.toNat : Int) - (2 ^ (31 + 1) : Nat) else x.toNat := by
  show x.toBitVec.toInt = _
  rw [BitVec.toInt_eq_toNat_cond, UInt32.toNat_toBitVec]
  split <;> split <;> omega

theorem isIntegerText_decimalText (isSigned : Bool) (x : UInt32) :
    IsIntegerText 10 (value32 isSigned x) (decimalText isSigned x) := by
  cases isSigned with
  | false => exact isIntegerText_natCast (by decide) x.toNat
  | true =>
      rw [value32_signed, decimalText_signed]
      exact isIntegerText_signed (by decide) x.toNat_lt

theorem longDecimalText_signed (x : UInt64) :
    longDecimalText true x = if 2 ^ 63 ≤ x.toNat then signedText true 10 (2 ^ (63 + 1) - x.toNat)
      else signedText false 10 x.toNat := by
  rw [longDecimalText]
  by_cases hneg : x &&& 0x8000000000000000 ≠ 0
  · have hle := (isNegative64 x).1 hneg
    have hlt := x.toNat_lt
    have hone : (1 : UInt64).toNat = 1 := rfl
    have hsize : UInt64.size = 18446744073709551616 := rfl
    have hcomplement : (~~~x + 1).toNat = 2 ^ (63 + 1) - x.toNat := by
      rw [UInt64.toNat_add, UInt64.toNat_not, hone]
      omega
    rw [if_pos ⟨rfl, hneg⟩, hcomplement]
    exact (if_pos hle).symm
  · rw [if_neg fun h => hneg h.2]
    exact (if_neg fun h => hneg ((isNegative64 x).2 h)).symm

theorem value64_signed (x : UInt64) :
    value64 true x =
      if 2 ^ 63 ≤ x.toNat then (x.toNat : Int) - (2 ^ (63 + 1) : Nat) else x.toNat := by
  show x.toBitVec.toInt = _
  rw [BitVec.toInt_eq_toNat_cond, UInt64.toNat_toBitVec]
  split <;> split <;> omega

theorem isIntegerText_longDecimalText (isSigned : Bool) (x : UInt64) :
    IsIntegerText 10 (value64 isSigned x) (longDecimalText isSigned x) := by
  cases isSigned with
  | false => exact isIntegerText_natCast (by decide) x.toNat
  | true =>
      rw [value64_signed, longDecimalText_signed]
      exact isIntegerText_signed (by decide) x.toNat_lt

end Numerals

/-! ## The four functions -/

section Functions

variable {base room x stop : Nat}

/-- The text with its count is the text that the formatter takes. -/
theorem convertNumber_text (hbase : 1 < base) (negative : Bool)
    (hlength : (digits base x).length < stop) :
    (Counted.convertNumber room base x stop negative).map Converted.text =
      convertNumber room base x stop negative := by
  rw [convertNumber_eq hbase negative hlength]
  by_cases hroom : stop < room
  · obtain ⟨r, hr, htext, -⟩ := convertNumber_counted hbase negative hlength hroom
    rw [hr, if_pos hroom]
    exact congrArg Except.ok htext
  · rw [Counted.convertNumber, if_neg hroom, if_neg hroom]
    rfl

theorem convertDecimal32_text (x : UInt32) (isSigned : Bool) :
    (Counted.convertDecimal32 room x isSigned).map Converted.text =
      convertDecimal32 room x isSigned := by
  have hlt (y : UInt32) : (digits 10 y.toNat).length < 32 :=
    Nat.lt_of_le_of_lt (length_decimal_le y) (by decide)
  unfold Counted.convertDecimal32 convertDecimal32
  split
  · exact convertNumber_text (by decide) true (hlt _)
  · exact convertNumber_text (by decide) false (hlt _)

theorem convertDecimal64_text (x : UInt64) (isSigned : Bool) :
    (Counted.convertDecimal64 room x isSigned).map Converted.text =
      convertDecimal64 room x isSigned := by
  have hlt (y : UInt64) : (digits 10 y.toNat).length < 31 :=
    Nat.lt_of_le_of_lt (length_longDecimal_le y) (by decide)
  unfold Counted.convertDecimal64 convertDecimal64
  split
  · exact convertNumber_text (by decide) true (hlt _)
  · exact convertNumber_text (by decide) false (hlt _)

theorem convertHex32_text (x : UInt32) :
    (Counted.convertHex32 room x).map Converted.text = convertHex32 room x :=
  convertNumber_text (by decide) false (Nat.lt_of_le_of_lt (length_hex_le x) (by decide))

theorem convertHex64_text (x : UInt64) :
    (Counted.convertHex64 room x).map Converted.text = convertHex64 room x :=
  convertNumber_text (by decide) false (Nat.lt_of_le_of_lt (length_longHex_le x) (by decide))

/-- A conversion with room for its NUL leaves the numeral. -/
theorem converts_number {v : Int} (hbase : 1 < base) (negative : Bool)
    (hlength : (digits base x).length < stop) (hroom : stop < room)
    (hv : IsIntegerText base v (signedText negative base x)) :
    Converts base v (Counted.convertNumber room base x stop negative) := by
  obtain ⟨r, hr, htext, hsize, hnul⟩ := convertNumber_counted hbase negative hlength hroom
  exact ⟨r, _, hr, hv, hsize, htext, hnul⟩

theorem converts_decimal32 (hroom : 32 < room) (isSigned : Bool) (x : UInt32) :
    Converts 10 (value32 isSigned x) (Counted.convertDecimal32 room x isSigned) := by
  have hlt (y : UInt32) : (digits 10 y.toNat).length < 32 :=
    Nat.lt_of_le_of_lt (length_decimal_le y) (by decide)
  have htext := isIntegerText_decimalText isSigned x
  unfold decimalText at htext
  unfold Counted.convertDecimal32
  split at htext
  · rename_i hneg
    rw [if_pos hneg]
    exact converts_number (by decide) true (hlt _) hroom htext
  · rename_i hneg
    rw [if_neg hneg]
    exact converts_number (by decide) false (hlt _) hroom htext

theorem converts_decimal64 (hroom : 31 < room) (isSigned : Bool) (x : UInt64) :
    Converts 10 (value64 isSigned x) (Counted.convertDecimal64 room x isSigned) := by
  have hlt (y : UInt64) : (digits 10 y.toNat).length < 31 :=
    Nat.lt_of_le_of_lt (length_longDecimal_le y) (by decide)
  have htext := isIntegerText_longDecimalText isSigned x
  unfold longDecimalText at htext
  unfold Counted.convertDecimal64
  split at htext
  · rename_i hneg
    rw [if_pos hneg]
    exact converts_number (by decide) true (hlt _) hroom htext
  · rename_i hneg
    rw [if_neg hneg]
    exact converts_number (by decide) false (hlt _) hroom htext

/-- Without that room the NUL misses the array. -/
theorem not_converts_decimal32 (hroom : room ≤ 32) (isSigned : Bool) (x : UInt32) (v : Int) :
    ¬ Converts 10 v (Counted.convertDecimal32 room x isSigned) := by
  rintro ⟨r, text, hr, -⟩
  unfold Counted.convertDecimal32 at hr
  split at hr
  · rw [Counted.convertNumber, if_neg (Nat.not_lt.2 hroom)] at hr
    cases hr
  · rw [Counted.convertNumber, if_neg (Nat.not_lt.2 hroom)] at hr
    cases hr

end Functions

/-! ## The kernel -/

/-- What the kernel prints for a format with one conversion. -/
theorem kernelPrints_of_text {base : Nat} {v : Int} {item : Item}
    (htext : IsIntegerText base v item.kernelText) : KernelPrints base v item := by
  refine ⟨item.kernelText, htext, fun size buffer hsize hlt => ?_⟩
  have hrender : render [item] = item.render := List.append_nil _
  have hargs : args [item] = item.args := List.append_nil _
  have hresult : ([item].map Item.kernelText).flatten = item.kernelText := List.append_nil _
  have hformat := @format_items _ _ size [item] Printk.formatter_stores printk_readsItems
    Item.kernelText (fun item _ => text_kernel item) hlt (by rw [hresult]; exact hsize) buffer
  rwa [hrender, hargs, hresult] at hformat

theorem padding_noWidth (length : Nat) : noWidth.padding length = [] := by
  have hzero : noWidth.value - length = 0 := Nat.zero_sub _
  rw [Width.padding, hzero]
  rfl

theorem kernelText_decimal (x : UInt32) :
    (Item.decimal false noWidth x).kernelText = decimalText true x := by
  rw [Item.kernelText, padding_noWidth, List.append_nil, decimalText_eq]

theorem kernelText_hex (x : UInt32) :
    (Item.hex false noWidth x).kernelText = signedText false 16 x.toNat := by
  rw [Item.kernelText, padding_noWidth]
  rfl

end Vmwos.Printf
