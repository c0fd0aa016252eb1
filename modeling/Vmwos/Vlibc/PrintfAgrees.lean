import Vmwos.Vlibc.Printf

/-!
# The two formatters against each other

A format of literal characters and the conversions that both formatters have is a list of items,
with the argument of each. For a buffer with room to spare both formatters store the texts of the
items (`format_items`). The texts are the same except for a padded negative number: the kernel puts
the sign before the padding, the C library behind it.
-/

set_option autoImplicit false

namespace Vmwos.Printf

open Library Format

/-- The digits of a width, with their value below 128. -/
structure Width where
  text : List UInt8
  isDigit_text : ∀ c ∈ text, isDigit c = true
  value_lt : text.foldl (fun n c => n * 10 + (c.toNat - 48)) 0 < 128

/-- The value of a width. -/
def Width.value (width : Width) : Nat := width.text.foldl (fun n c => n * 10 + (c.toNat - 48)) 0

/-- A part of a format and its argument. -/
inductive Item where
  | literal (c : UInt8) (h : c ≠ 37)
  | percent
  | char (x : UInt32)
  | string (s : CString)
  | decimal (i : Bool) (width : Width) (x : UInt32)
  | hex (p : Bool) (width : Width) (x : UInt32)
  | longHex (x : UInt64)

/-- The text of an item in the format. -/
def Item.render : Item → CString
  | .literal c _ => [c]
  | .percent => [37, 37]
  | .char _ => [37, 99]
  | .string _ => [37, 115]
  | .decimal i width _ => 37 :: (width.text ++ [if i then 105 else 100])
  | .hex p width _ => 37 :: (width.text ++ [if p then 112 else 120])
  | .longHex _ => [37, 108, 108, 120]

/-- The argument of an item. -/
def Item.args : Item → List Arg
  | .literal _ _ => []
  | .percent => []
  | .char x => [.word x]
  | .string s => [.string s]
  | .decimal _ _ x => [.word x]
  | .hex _ _ x => [.word x]
  | .longHex x => [.long x]

/-- The format. -/
def render (items : List Item) : CString := (items.map Item.render).flatten

/-- The argument list. -/
def args (items : List Item) : List Arg := (items.map Item.args).flatten

/-- A number is negative for `%d`. -/
def isNegative (x : UInt32) : Bool := x &&& 0x80000000 ≠ 0

/-- The digits of a number for `%d`. -/
def magnitude (x : UInt32) : List UInt8 :=
  if isNegative x then digits 10 (~~~x + 1).toNat else digits 10 x.toNat

/-- The character that fills up a number. -/
def Width.padValue (width : Width) : UInt8 := if width.text.head? = some 48 then 48 else 32

/-- What fills up a text of a length. -/
def Width.padding (width : Width) (length : Nat) : List UInt8 :=
  List.replicate (width.value - length) width.padValue

/-- The text of an item of the kernel. -/
def Item.kernelText : Item → List UInt8
  | .literal c _ => [c]
  | .percent => [37]
  | .char x => [x.toUInt8]
  | .string s => s
  | .decimal _ width x => signText (isNegative x) ++
      width.padding ((signText (isNegative x)).length + (magnitude x).length) ++ magnitude x
  | .hex _ width x => width.padding (digits 16 x.toNat).length ++ digits 16 x.toNat
  | .longHex x => digits 16 x.toNat

/-- The text of an item of the C library. -/
def Item.libcText : Item → List UInt8
  | .decimal _ width x =>
      width.padding ((signText (isNegative x)).length + (magnitude x).length) ++
        (signText (isNegative x) ++ magnitude x)
  | item => item.kernelText

/-- The two texts are the same: a negative number is not filled up. -/
def Item.NotPadded : Item → Prop
  | .decimal _ width x =>
      isNegative x = true → width.value ≤ (signText (isNegative x)).length + (magnitude x).length
  | _ => True

/-- `%d` or `%i` -/
def Item.IsDecimal : Item → Prop
  | .decimal _ _ _ => True
  | _ => False

section Texts

theorem length_libcText (item : Item) : item.libcText.length = item.kernelText.length := by
  cases item with
  | decimal i width x =>
    simp only [Item.libcText, Item.kernelText, List.length_append]
    omega
  | literal c h => rfl
  | percent => rfl
  | char x => rfl
  | string s => rfl
  | hex p width x => rfl
  | longHex x => rfl

theorem padValue_ne (width : Width) : width.padValue ≠ 45 := by
  unfold Width.padValue
  split
  · decide
  · decide

/-- The sign before or behind the padding makes a difference when there is both. -/
theorem kernelText_eq_iff (item : Item) : item.kernelText = item.libcText ↔ item.NotPadded := by
  cases item with
  | decimal i width x =>
    simp only [Item.libcText, Item.kernelText, Item.NotPadded]
    cases isNegative x with
    | false =>
      refine iff_of_true ?_ fun h => absurd h Bool.false_ne_true
      simp only [signText, Bool.false_eq_true, if_false, List.nil_append]
    | true =>
      have hsign : signText true = [45] := rfl
      rw [hsign, List.length_singleton]
      constructor
      · intro h _
        by_contra hlt
        obtain ⟨n, hn⟩ : ∃ n, width.value - (1 + (magnitude x).length) = n + 1 :=
          ⟨width.value - (1 + (magnitude x).length) - 1, by omega⟩
        rw [Width.padding, hn, List.replicate_succ] at h
        exact padValue_ne width (List.cons.inj h).1.symm
      · intro h
        have hzero : width.value - (1 + (magnitude x).length) = 0 := Nat.sub_eq_zero_of_le (h rfl)
        rw [Width.padding, hzero]
        rfl
  | literal c h => exact iff_of_true rfl trivial
  | percent => exact iff_of_true rfl trivial
  | char x => exact iff_of_true rfl trivial
  | string s => exact iff_of_true rfl trivial
  | hex p width x => exact iff_of_true rfl trivial
  | longHex x => exact iff_of_true rfl trivial

end Texts

/-! ## Reading the items -/

theorem toUInt8_step {n : Nat} {c : UInt8} (hc : isDigit c = true) :
    n.toUInt8 * 10 + (c - 48) = (n * 10 + (c.toNat - 48)).toUInt8 := by
  have hle : (48 : UInt8) ≤ c := by
    simp only [isDigit, decide_eq_true_eq] at hc
    exact hc.1
  have hle' : 48 ≤ c.toNat := UInt8.le_iff_toNat_le.1 hle
  apply UInt8.toNat_inj.1
  rw [UInt8.toNat_add, UInt8.toNat_mul, UInt8.toNat_sub_of_le c 48 hle]
  show (n % 256 * 10 % 256 + (c.toNat - 48)) % 256 = (n * 10 + (c.toNat - 48)) % 256
  omega

theorem widthLoop_text (text : List UInt8) (htext : ∀ c ∈ text, isDigit c = true) {letter : UInt8}
    (hletter : isDigit letter = false) (rest : CString) (n : Nat) :
    widthLoop (text ++ letter :: rest) n.toUInt8 =
      ((text.foldl (fun n c => n * 10 + (c.toNat - 48)) n).toUInt8, letter :: rest) := by
  induction text generalizing n with
  | nil =>
    rw [List.nil_append, widthLoop, hletter]
    rfl
  | cons c text ih =>
    obtain ⟨hc, htext'⟩ := List.forall_mem_cons.1 htext
    rw [List.cons_append, widthLoop, if_pos hc, toUInt8_step hc, ih htext']
    rfl

/-- The width is read up to the letter of the conversion. -/
theorem padding_width (width : Width) (letter : UInt8) (hletter : isDigit letter = false)
    (hpoint : letter ≠ 46) (rest : CString) :
    padding (skipPrecision (width.text ++ letter :: rest)) =
      (width.padValue, width.value.toUInt8, letter :: rest) := by
  obtain ⟨text, htext, hvalue⟩ := width
  cases text with
  | nil =>
    have hskip : skipPrecision ([] ++ letter :: rest) = letter :: rest := by
      unfold skipPrecision
      split
      · rename_i h
        exact absurd (List.cons.inj h).1 hpoint
      · rfl
    rw [hskip, padding, hletter]
    rfl
  | cons c text =>
    obtain ⟨hc, htext'⟩ := List.forall_mem_cons.1 htext
    have hskip : skipPrecision (c :: text ++ letter :: rest) = c :: text ++ letter :: rest := by
      unfold skipPrecision
      split
      · rename_i h
        rw [(List.cons.inj h).1] at hc
        exact absurd hc (by decide)
      · rfl
    have hfirst : c - 48 = (c.toNat - 48).toUInt8 := by
      have hstep := toUInt8_step (n := 0) hc
      rw [Nat.zero_mul, Nat.zero_add] at hstep
      rw [← hstep]
      exact (UInt8.zero_add _).symm
    rw [hskip, List.cons_append, padding, if_pos hc, hfirst,
      widthLoop_text text htext' hletter rest]
    simp only [Width.padValue, Width.value, List.head?_cons, Option.some.injEq, List.foldl_cons,
      Nat.zero_mul, Nat.zero_add]

theorem toNat_value (width : Width) : width.value.toUInt8.toNat = width.value := by
  have hlt : width.value < 128 := width.value_lt
  show width.value % 256 = width.value
  omega

/-- A conversion takes its arguments and leaves the others. -/
def Takes (piece : UInt8 → UInt8 → List Arg → Conversion → Piece × List Arg) (args : List Arg)
    (conv : Conversion) : Prop :=
  ∀ padValue padLen rest,
    piece padValue padLen (args ++ rest) conv = ((piece padValue padLen args conv).1, rest)

/-- A formatter reads the items as conversions that take their arguments. -/
structure ReadsItems (f : Formatter)
    (piece : UInt8 → UInt8 → List Arg → Conversion → Piece × List Arg) : Prop where
  decimal : ∀ (i : Bool) rest,
    f.conversion ((if i then 105 else 100) :: rest) = (.decimal, some rest)
  hex : ∀ (p : Bool) rest, f.conversion ((if p then 112 else 120) :: rest) = (.hex, some rest)
  longHex : ∀ rest, f.conversion (108 :: 108 :: 120 :: rest) = (.longHex, some rest)
  char : ∀ rest, f.conversion (99 :: rest) = (.char, some rest)
  percent : ∀ rest, f.conversion (37 :: rest) = (.percent, some rest)
  string : ∀ rest, f.conversion (115 :: rest) = (.string, some rest)
  takes_word : ∀ x, Takes piece [.word x] .decimal ∧ Takes piece [.word x] .hex ∧
    Takes piece [.word x] .char
  takes_long : ∀ x, Takes piece [.long x] .longHex
  takes_string : ∀ s, Takes piece [.string s] .string
  takes_nothing : Takes piece [] .percent

theorem printk_readsItems : ReadsItems Printk.formatter Printk.piece where
  decimal i rest := by cases i <;> rfl
  hex p rest := by cases p <;> rfl
  longHex rest := by cases rest <;> rfl
  char _ := rfl
  percent _ := rfl
  string _ := rfl
  takes_word _ := ⟨fun _ _ _ => rfl, fun _ _ _ => rfl, fun _ _ _ => rfl⟩
  takes_long _ _ _ _ := rfl
  takes_string _ _ _ _ := rfl
  takes_nothing _ _ _ := rfl

theorem printf_readsItems (room : Nat) : ReadsItems (formatter room) (piece room) where
  decimal i rest := by cases i <;> rfl
  hex p rest := by cases p <;> rfl
  longHex _ := rfl
  char _ := rfl
  percent _ := rfl
  string _ := rfl
  takes_word _ := ⟨fun _ _ _ => rfl, fun _ _ _ => rfl, fun _ _ _ => rfl⟩
  takes_long _ _ _ _ := rfl
  takes_string _ _ _ _ := rfl
  takes_nothing _ _ _ := rfl

/-- The piece of an item. -/
def itemPiece (piece : UInt8 → UInt8 → List Arg → Conversion → Piece × List Arg) : Item → Piece
  | .literal c _ => .guarded [c]
  | .percent => (piece 32 0 [] .percent).1
  | .char x => (piece 32 0 [.word x] .char).1
  | .string s => (piece 32 0 [.string s] .string).1
  | .decimal _ width x => (piece width.padValue width.value.toUInt8 [.word x] .decimal).1
  | .hex _ width x => (piece width.padValue width.value.toUInt8 [.word x] .hex).1
  | .longHex x => (piece 32 0 [.long x] .longHex).1

section Items

variable {f : Formatter} {piece : UInt8 → UInt8 → List Arg → Conversion → Piece × List Arg}

/-- A conversion that takes its arguments gives its piece. -/
theorem pieces_takes {n : Nat} {string letters : CString} {padValue padLen : UInt8}
    {conv : Conversion} {rest : CString} {itemArgs : List Arg} (restArgs : List Arg)
    (hpadding : Format.padding (skipPrecision string) = (padValue, padLen, letters))
    (hconv : f.conversion letters = (conv, some rest)) (htakes : Takes piece itemArgs conv) :
    pieces f piece (n + 1) (some (37 :: string)) (itemArgs ++ restArgs) =
      (piece padValue padLen itemArgs conv).1 :: pieces f piece n (some rest) restArgs := by
  rw [pieces_percent _ hpadding hconv, htakes]

/-- An item is read in one round. -/
theorem pieces_item (hf : ReadsItems f piece) (item : Item) (rest : CString)
    (restArgs : List Arg) (n : Nat) :
    pieces f piece (n + 1) (some (item.render ++ rest)) (item.args ++ restArgs) =
      itemPiece piece item :: pieces f piece n (some rest) restArgs := by
  cases item with
  | literal c h =>
    rw [Item.render, List.singleton_append, pieces, if_neg h]
    rfl
  | percent => exact pieces_takes restArgs rfl (hf.percent rest) hf.takes_nothing
  | char x => exact pieces_takes restArgs rfl (hf.char rest) (hf.takes_word x).2.2
  | string s => exact pieces_takes restArgs rfl (hf.string rest) (hf.takes_string s)
  | decimal i width x =>
    have hpadding := padding_width width (if i then 105 else 100) (by cases i <;> rfl)
      (by cases i <;> decide) rest
    rw [Item.render, List.cons_append, List.append_assoc, List.singleton_append]
    exact pieces_takes restArgs hpadding (hf.decimal i rest) (hf.takes_word x).1
  | hex p width x =>
    have hpadding := padding_width width (if p then 112 else 120) (by cases p <;> rfl)
      (by cases p <;> decide) rest
    rw [Item.render, List.cons_append, List.append_assoc, List.singleton_append]
    exact pieces_takes restArgs hpadding (hf.hex p rest) (hf.takes_word x).2.1
  | longHex x => exact pieces_takes restArgs rfl (hf.longHex rest) (hf.takes_long x)

theorem length_render_pos (item : Item) : 0 < item.render.length := by
  cases item <;> exact Nat.succ_pos _

/-- The pieces of the format are those of the items. -/
theorem pieces_items (hf : ReadsItems f piece) (items : List Item) (n : Nat)
    (hn : (render items).length ≤ n) :
    pieces f piece n (some (render items)) (args items) = items.map (itemPiece piece) := by
  induction items generalizing n with
  | nil => cases n <;> rfl
  | cons item items ih =>
    have hrender : render (item :: items) = item.render ++ render items := by
      rw [render, List.map_cons, List.flatten_cons, render]
    have hargs : args (item :: items) = item.args ++ args items := by
      rw [args, List.map_cons, List.flatten_cons, args]
    have hpos := length_render_pos item
    rw [hrender, List.length_append] at hn
    cases n with
    | zero => omega
    | succ n =>
      rw [hrender, hargs, pieces_item hf, ih n (by omega), List.map_cons]

end Items

/-! ## The texts of the items -/

theorem text_numberPiece (negative : Bool) (width : Width) (base x : Nat) :
    (Printk.numberPiece negative width.padValue width.value.toUInt8 base x).text =
      signText negative ++ width.padding ((signText negative).length + (digits base x).length) ++
        digits base x := by
  rw [Printk.numberPiece, Piece.text, toNat_value, Width.padding]

/-- The pieces of the kernel. -/
theorem text_kernel (item : Item) : itemPiece Printk.piece item ≠ .stuck ∧
    (itemPiece Printk.piece item).text = item.kernelText := by
  cases item with
  | literal c h => exact ⟨Piece.noConfusion, rfl⟩
  | percent => exact ⟨Piece.noConfusion, rfl⟩
  | char x => exact ⟨Piece.noConfusion, rfl⟩
  | string s => exact ⟨Piece.noConfusion, rfl⟩
  | decimal i width x =>
    have hpiece : itemPiece Printk.piece (.decimal i width x) =
        Printk.decimalPiece width.padValue width.value.toUInt8 x := rfl
    rw [hpiece, Printk.decimalPiece, Item.kernelText, magnitude]
    by_cases hneg : x &&& 0x80000000 ≠ 0
    · have hisneg : isNegative x = true := decide_eq_true hneg
      rw [if_pos hneg, hisneg, if_pos rfl]
      exact ⟨Piece.noConfusion, text_numberPiece true width 10 _⟩
    · have hisneg : isNegative x = false := decide_eq_false hneg
      rw [if_neg hneg, hisneg, if_neg Bool.false_ne_true]
      exact ⟨Piece.noConfusion, text_numberPiece false width 10 _⟩
  | hex p width x =>
    refine ⟨Piece.noConfusion, (text_numberPiece false width 16 x.toNat).trans ?_⟩
    rw [signText, if_neg Bool.false_ne_true, List.nil_append, List.length_nil, Nat.zero_add,
      Item.kernelText]
  | longHex x =>
    refine ⟨Piece.noConfusion, ?_⟩
    show signText false ++ List.replicate (0 - _) 32 ++ digits 16 x.toNat = _
    rw [Nat.zero_sub]
    rfl

theorem decimalText_eq (x : UInt32) :
    decimalText true x = signText (isNegative x) ++ magnitude x := by
  rw [decimalText, magnitude]
  by_cases hneg : x &&& 0x80000000 ≠ 0
  · have hisneg : isNegative x = true := decide_eq_true hneg
    rw [if_pos ⟨rfl, hneg⟩, hisneg, if_pos rfl, signedText]
  · have hisneg : isNegative x = false := decide_eq_false hneg
    rw [if_neg fun h => hneg h.2, hisneg, if_neg Bool.false_ne_true, signedText]

/-- The pieces of the C library, when the scratch array has room for the NUL of a decimal number. -/
theorem text_libc {room : Nat} (hroom : 32 ≤ room) (item : Item)
    (hdecimal : item.IsDecimal → 32 < room) :
    itemPiece (piece room) item ≠ .stuck ∧ (itemPiece (piece room) item).text = item.libcText := by
  cases item with
  | literal c h => exact ⟨Piece.noConfusion, rfl⟩
  | percent => exact ⟨Piece.noConfusion, rfl⟩
  | char x => exact ⟨Piece.noConfusion, rfl⟩
  | string s => exact ⟨Piece.noConfusion, rfl⟩
  | decimal i width x =>
    have hpiece : itemPiece (piece room) (.decimal i width x) =
        numberPiece room 32 width.padValue width.value.toUInt8 (decimalText true x) := rfl
    rw [hpiece, numberPiece, if_pos (hdecimal trivial), decimalText_eq, toNat_value]
    refine ⟨Piece.noConfusion, ?_⟩
    rw [Piece.text, List.length_append, Item.libcText, Width.padding]
  | hex p width x =>
    have hpiece : itemPiece (piece room) (.hex p width x) =
        numberPiece room 31 width.padValue width.value.toUInt8 (digits 16 x.toNat) := rfl
    rw [hpiece, numberPiece, if_pos (Nat.lt_of_lt_of_le (by decide) hroom), toNat_value]
    exact ⟨Piece.noConfusion, rfl⟩
  | longHex x =>
    have hpiece : itemPiece (piece room) (.longHex x) =
        numberPiece room 18 32 0 (digits 16 x.toNat) := rfl
    rw [hpiece, numberPiece, if_pos (Nat.lt_of_lt_of_le (by decide) hroom)]
    refine ⟨Piece.noConfusion, ?_⟩
    show List.replicate (0 - _) 32 ++ digits 16 x.toNat = digits 16 x.toNat
    rw [Nat.zero_sub]
    rfl

/-- Without that room a decimal number is stored behind the scratch array. -/
theorem stuck_libc {item : Item} (hdecimal : item.IsDecimal) :
    itemPiece (piece intBufferSize) item = .stuck := by
  cases item with
  | decimal i width x => rfl
  | literal c h => exact hdecimal.elim
  | percent => exact hdecimal.elim
  | char x => exact hdecimal.elim
  | string s => exact hdecimal.elim
  | hex p width x => exact hdecimal.elim
  | longHex x => exact hdecimal.elim

/-- The text that the kernel makes of a format. -/
def kernelResult (items : List Item) : List UInt8 := (items.map Item.kernelText).flatten

/-- The text that the C library makes of a format. -/
def libcResult (items : List Item) : List UInt8 := (items.map Item.libcText).flatten

theorem length_libcResult (items : List Item) :
    (libcResult items).length = (kernelResult items).length := by
  induction items with
  | nil => rfl
  | cons item items ih =>
    simp only [libcResult, kernelResult, List.map_cons, List.flatten_cons, List.length_append]
      at ih ⊢
    rw [ih, length_libcText]

/-- The two texts are the same when those of all items are. -/
theorem kernelResult_eq_iff (items : List Item) :
    kernelResult items = libcResult items ↔ ∀ item ∈ items, item.NotPadded := by
  induction items with
  | nil => exact iff_of_true rfl fun item hitem => absurd hitem List.not_mem_nil
  | cons item items ih =>
    rw [List.forall_mem_cons, ← ih, ← kernelText_eq_iff]
    simp only [libcResult, kernelResult, List.map_cons, List.flatten_cons]
    constructor
    · intro h
      exact List.append_inj h (length_libcText item).symm
    · rintro ⟨hitem, hitems⟩
      rw [hitem, hitems]

/-! ## The two calls -/

/-- The same return value and the same text, up to its NUL. -/
def Agree (r r' : Except Stuck (Int × (Nat → UInt8))) : Prop :=
  ∃ (n : Nat) (buffer buffer' : Nat → UInt8), r = .ok ((n : Int), buffer) ∧
    r' = .ok ((n : Int), buffer') ∧ ∀ i ≤ n, buffer i = buffer' i

/-- What the pieces of the C library store is no longer than the result. -/
theorem length_texts_le (items : List Item) :
    (texts (items.map (itemPiece (piece intBufferSize)))).length ≤
      (kernelResult items).length := by
  induction items with
  | nil => exact Nat.le_refl _
  | cons item items ih =>
    have hitem : (itemPiece (piece intBufferSize) item).text.length ≤ item.kernelText.length := by
      by_cases hdecimal : item.IsDecimal
      · rw [stuck_libc hdecimal]
        exact Nat.zero_le _
      · rw [(text_libc (Nat.le_refl _) item fun h => absurd h hdecimal).2, length_libcText]
    rw [List.map_cons, texts_cons, List.length_append]
    simp only [kernelResult, List.map_cons, List.flatten_cons, List.length_append] at ih ⊢
    exact Nat.add_le_add hitem ih

/-- Two buffers hold the same text up to the NUL when the texts are the same. -/
theorem withText_eq_iff (buffer buffer' : Nat → UInt8) {text text' : List UInt8}
    (hlength : text'.length = text.length) :
    (∀ i ≤ text.length, withText buffer text i = withText buffer' text' i) ↔ text = text' := by
  constructor
  · intro h
    apply List.ext_getElem hlength.symm
    intro i hi hi'
    have hbyte := h i (Nat.le_of_lt hi)
    rwa [withText_of_lt hi, withText_of_lt hi', List.getD_eq_getElem _ _ hi,
      List.getD_eq_getElem _ _ hi'] at hbyte
  · rintro rfl i hi
    rcases Nat.lt_or_eq_of_le hi with hlt | rfl
    · rw [withText_of_lt hlt, withText_of_lt hlt]
    · rw [withText_length, withText_length]

section Calls

variable {f : Formatter} {piece : UInt8 → UInt8 → List Arg → Conversion → Piece × List Arg}
  {size : UInt32} {items : List Item}

/-- For a buffer with room to spare the texts of the items are stored. -/
theorem format_items (hf : f.Stores piece) (hitems : ReadsItems f piece)
    (text : Item → List UInt8) (htext : ∀ item ∈ items,
      itemPiece piece item ≠ .stuck ∧ (itemPiece piece item).text = text item)
    (hlt : size.toNat < 2147483648)
    (hsize : (items.map text).flatten.length + 2 ≤ size.toNat) (buffer : Nat → UInt8) :
    f.format size (render items) (args items) buffer =
      .ok (((items.map text).flatten.length : Int),
        withText buffer (items.map text).flatten) := by
  have hstuck : ∀ p ∈ items.map (itemPiece piece), p ≠ .stuck := by
    intro p hp
    obtain ⟨item, hitem, rfl⟩ := List.mem_map.1 hp
    exact (htext item hitem).1
  have htexts : texts (items.map (itemPiece piece)) = (items.map text).flatten := by
    rw [texts, List.map_map]
    exact congrArg List.flatten (List.map_congr_left fun item hitem => (htext item hitem).2)
  have hpieces := pieces_items hitems items _ (Nat.le_refl _)
  rw [← htexts, ← hpieces]
  refine format_of_lt hf (fun p hp => hstuck p (hpieces ▸ hp)) hlt ?_ buffer
  rw [hpieces, htexts]
  exact hsize

theorem agree_ok {n : Nat} {buffer buffer' : Nat → UInt8} :
    Agree (.ok ((n : Int), buffer)) (.ok ((n : Int), buffer')) ↔
      ∀ i ≤ n, buffer i = buffer' i := by
  constructor
  · rintro ⟨m, b, b', hb, hb', h⟩
    obtain ⟨hn, rfl⟩ := Prod.mk.inj (Except.ok.inj hb)
    obtain ⟨-, rfl⟩ := Prod.mk.inj (Except.ok.inj hb')
    obtain rfl : n = m := Int.ofNat.inj hn
    exact h
  · exact fun h => ⟨n, buffer, buffer', rfl, rfl, h⟩

theorem not_agree_error {r : Except Stuck (Int × (Nat → UInt8))} (e : Stuck) :
    ¬ Agree r (.error e) := by
  rintro ⟨n, buffer, buffer', -, h, -⟩
  cases h

/-- A size that is no `int` makes the last store miss the buffer. -/
theorem format_of_le (hf : f.Stores piece) (items : List Item) (hle : 2147483648 ≤ size.toNat)
    (buffer : Nat → UInt8) : 
    ∃ e, f.format size (render items) (args items) buffer = .error e := by
  rw [format_eq hf, call]
  cases emitAll size.toNat (maxPrintSize size) _ _ with
  | error e => exact ⟨e, rfl⟩
  | ok out => exact ⟨_, finish_of_neg (maxPrintSize_of_le hle)⟩

/-- A decimal number with no room behind `int_buffer` is an error. -/
theorem format_decimal (hlt : size.toNat < 2147483648)
    (hsize : (kernelResult items).length + 2 ≤ size.toNat) {item : Item} (hitem : item ∈ items)
    (hdecimal : item.IsDecimal) (buffer : Nat → UInt8) :
    (formatter intBufferSize).format size (render items) (args items) buffer =
      .error .badAccess := by
  have hstuck : Piece.stuck ∈ items.map (itemPiece (Printf.piece intBufferSize)) :=
    List.mem_map.2 ⟨item, hitem, stuck_libc hdecimal⟩
  have hlength : (texts (items.map (itemPiece (Printf.piece intBufferSize)))).length ≤
      (kernelResult items).length := length_texts_le items
  have hroom : (⟨buffer, 0⟩ : Output).pointer +
      (texts (items.map (itemPiece (Printf.piece intBufferSize)))).length + 1 < size.toNat := by
    show 0 + _ + 1 < _
    omega
  rw [format_eq (formatter_stores intBufferSize),
    pieces_items (printf_readsItems intBufferSize) _ _ (Nat.le_refl _), call,
    maxPrintSize_of_lt hlt, emitAll_of_stuck hstuck hroom]

end Calls

/-- For a buffer with room to spare the two formatters agree exactly when no negative number is
filled up, the size is an `int`, and there is room for the NUL behind `int_buffer`, or no decimal
number. -/
theorem agree_iff (room : Nat) (size : UInt32) (items : List Item) (buffer buffer' : Nat → UInt8)
    (hroom : intBufferSize ≤ room) (hsize : (kernelResult items).length + 2 ≤ size.toNat) :
    Agree (Printk.vsnprintf size (render items) (args items) buffer)
        (vsnprintfInternal room size (render items) (args items) buffer') ↔
      size.toNat < 2147483648 ∧ (∀ item ∈ items, item.NotPadded) ∧
        (room = intBufferSize → ∀ item ∈ items, ¬ item.IsDecimal) := by
  rw [Printk.vsnprintf, vsnprintfInternal]
  rcases Nat.lt_or_ge size.toNat 2147483648 with hlt | hge
  · by_cases hdecimal : room = intBufferSize → ∀ item ∈ items, ¬ item.IsDecimal
    · have hlibc : ∀ item ∈ items,
          itemPiece (piece room) item ≠ .stuck ∧ (itemPiece (piece room) item).text = item.libcText :=
        fun item hitem => text_libc hroom item fun h =>
          Nat.lt_of_le_of_ne hroom fun heq => hdecimal heq.symm item hitem h
      rw [format_items Printk.formatter_stores printk_readsItems Item.kernelText
          (fun item _ => text_kernel item) hlt hsize,
        format_items (formatter_stores room) (printf_readsItems room) Item.libcText hlibc hlt
          (by rw [← libcResult, length_libcResult]; exact hsize),
        and_iff_right hlt, and_iff_left hdecimal, ← kernelResult_eq_iff,
        ← withText_eq_iff buffer buffer' (length_libcResult items), ← libcResult,
        length_libcResult]
      exact agree_ok
    · refine iff_of_false ?_ fun h => hdecimal h.2.2
      push Not at hdecimal
      obtain ⟨rfl, item, hitem, hitem'⟩ := hdecimal
      rw [format_decimal hlt hsize hitem hitem']
      exact not_agree_error _
  · obtain ⟨e, he⟩ := format_of_le (formatter_stores room) items hge buffer'
    rw [he]
    exact iff_of_false (not_agree_error e) fun h => absurd h.1 (Nat.not_lt.2 hge)

/-- The width 5. -/
def fiveWide : Width := ⟨[53], List.forall_mem_singleton.2 (by decide), by decide⟩

/-- The format "%5d" with 42. -/
theorem agree_positive :
    Agree (Printk.vsnprintf 16 (render [.decimal false fiveWide 42])
        (args [.decimal false fiveWide 42]) fun _ => 0)
      (vsnprintfInternal 33 16 (render [.decimal false fiveWide 42])
        (args [.decimal false fiveWide 42]) fun _ => 0) :=
  (agree_iff 33 16 [.decimal false fiveWide 42] (fun _ => 0) (fun _ => 0) (by decide)
    (by decide)).2
    ⟨by decide, List.forall_mem_singleton.2 fun h => absurd h (by decide), fun h =>
      absurd h (by decide)⟩

/-- The first byte of a result. -/
def firstByte (r : Except Stuck (Int × (Nat → UInt8))) : Option UInt8 :=
  match r with
  | .error _ => none
  | .ok (_, buffer) => some (buffer 0)

theorem firstByte_of_agree {r r' : Except Stuck (Int × (Nat → UInt8))} (h : Agree r r') :
    firstByte r = firstByte r' := by
  obtain ⟨n, buffer, buffer', rfl, rfl, hbytes⟩ := h
  exact congrArg some (hbytes 0 (Nat.zero_le n))

/-- The format "%5d" with -42. -/
def paddedNegative : List Item := [.decimal false fiveWide 0xffffffd6]

/-- The kernel begins with the sign. The C library begins with a blank when there is room for the
NUL that it stores behind `int_buffer`. -/
theorem not_agree_negative :
    (kernelResult paddedNegative).length + 2 ≤ 16 ∧
      ¬ Agree (Printk.vsnprintf 16 (render paddedNegative) (args paddedNegative) fun _ => 0)
        (vsnprintfInternal 33 16 (render paddedNegative) (args paddedNegative) fun _ => 0) ∧
      ¬ Agree (Printk.vsnprintf 16 (render paddedNegative) (args paddedNegative) fun _ => 0)
        (vsnprintfInternal intBufferSize 16 (render paddedNegative) (args paddedNegative)
          fun _ => 0) :=
  ⟨by decide, fun h => absurd (firstByte_of_agree h) (by decide),
    fun h => absurd (firstByte_of_agree h) (by decide)⟩

end Vmwos.Printf
