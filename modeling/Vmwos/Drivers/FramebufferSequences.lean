import Vmwos.Drivers.FramebufferChunks

/-!
# What an escape sequence depends on

The numbers of a sequence are in a static array, of which `[` resets the first entry only. Two
consoles that look the same go through a sequence alike: what a byte between `[` and the command
stores depends on the bytes before it (`scan_same`), and a command that reads no other entries does
the same in both (`agree_step_command`). The command `H` with one number reads the second entry too,
which is what an earlier sequence has left there (`sequence_means_iff`).
-/

set_option autoImplicit false

namespace Vmwos.FramebufferConsole

open Library Format

variable {p : CString → List Arg → FramebufferConsole → Except Stuck FramebufferConsole}
  {s s' s₁ s₂ : FramebufferConsole} {ch : UInt8} {text : List UInt8}

/-! ## Sequences -/

/-- The bytes of the parameters: numbers, which may be missing, with `;` between them. -/
structure IsParameters (text : List UInt8) : Prop where
  bytes : ∀ ch ∈ text, ch = 59 ∨ 48 ≤ ch ∧ ch ≤ 57
  atMostTen : text.count 59 < 10

/-- The commands that the console knows: `A`, `B`, `C`, `D`, `H`, `J` and `m`. -/
def supported : List UInt8 := [65, 66, 67, 68, 72, 74, 109]

/-- `ESC [ parameters command` -/
def sequence (text : List UInt8) (command : UInt8) : List UInt8 := 27 :: 91 :: (text ++ [command])

/-- A number with one more digit. -/
def addDigit (n : UInt32) (ch : UInt8) : UInt32 := n * 10 + (ch.toUInt32 - 48)

/-- The first number of the parameters. A `;` that they start with belongs to it. -/
def firstNumber : List UInt8 → UInt32
  | [] => ansiDefault
  | ch :: text => (text.takeWhile (· ≠ 59)).foldl addDigit (if ch = 59 then 0 else addDigit 0 ch)

/-- A row without a column: the command `H` with one number, which goes to the column that is in
the second entry of the array. -/
def RowAlone (text : List UInt8) (command : UInt8) : Prop :=
  command = 72 ∧ text ≠ [] ∧ 59 ∉ text.tail ∧ firstNumber text ≠ ansiDefault

/-- A part of the screen that cannot be cleared. -/
def ClearsPart (text : List UInt8) (command : UInt8) : Prop :=
  command = 74 ∧ firstNumber text ≠ 2

/-! ## Consoles that look the same -/

/-- Two consoles agree on screen, colours and cursor. -/
structure Agree (s₁ s₂ : FramebufferConsole) : Prop where
  text : ∀ i < 2800, s₁.textConsole i = s₂.textConsole i
  color : ∀ i < 2800, s₁.textColor i = s₂.textColor i
  fore : s₁.foreColor = s₂.foreColor
  back : s₁.backColor = s₂.backColor
  bright : s₁.foreBright = s₂.foreBright
  x : s₁.consoleX = s₂.consoleX
  y : s₁.consoleY = s₂.consoleY

/-- The states of a console that is up: earlier calls have returned, and the lock of
`console_write` is switched on, taken and released in between. -/
inductive Reached : FramebufferConsole → Prop
  | start (lockingEnabled printMutex : Bool) : Reached (start lockingEnabled printMutex)
  | write {s s' : FramebufferConsole} {depth : Nat} {buffer : List UInt8} {result : Int}
      (hs : Reached s) (h : write depth s buffer = .ok (result, s')) : Reached s'
  | lock {s : FramebufferConsole} (hs : Reached s) (lockingEnabled printMutex : Bool) :
      Reached { s with lockingEnabled, printMutex }

/-- The bytes have been written, in any number of calls. -/
def WritesAll (s : FramebufferConsole) (calls : List (List UInt8)) (s' : FramebufferConsole) :
    Prop :=
  ∃ depth rs, run (write depth) s calls = .ok (rs, s')

/-- A text means only what it says: whatever has been written before, consoles that agree do so
behind it. -/
def MeansWhatItSays (bytes : List UInt8) : Prop :=
  ∀ s₁ s₂, Reached s₁ → Reached s₂ → s₁.ansiState = .normal → s₂.ansiState = .normal →
    Agree s₁ s₂ → ∀ calls, [] ∉ calls → calls.flatten = bytes →
      ∃ s₁' s₂', WritesAll s₁ calls s₁' ∧ WritesAll s₂ calls s₂' ∧ Agree s₁' s₂'

/-- The cursor is moved to the same place in both. -/
theorem Agree.move (h : Agree s₁ s₂) (x y : Int) :
    Agree { s₁ with consoleX := x, consoleY := y } { s₂ with consoleX := x, consoleY := y } :=
  ⟨h.text, h.color, h.fore, h.back, h.bright, rfl, rfl⟩

theorem Agree.clear (h : Agree s₁ s₂) : Agree s₁.clear.home s₂.clear.home where
  text := by
    intro i hi
    simp only [home, FramebufferConsole.clear, if_pos hi]
  color := by
    intro i hi
    simp only [home, FramebufferConsole.clear, if_pos hi]
  fore := h.fore
  back := h.back
  bright := h.bright
  x := rfl
  y := rfl

/-- Every row comes from one that is the same in both. -/
theorem Agree.scroll (h : Agree s₁ s₂) : Agree s₁.scroll s₂.scroll where
  text := by
    intro i hi
    simp only [FramebufferConsole.scroll, if_pos hi]
    split
    · rename_i hrow
      exact h.text _ (Nat.add_lt_add_right hrow 80)
    · rfl
  color := by
    intro i hi
    simp only [FramebufferConsole.scroll, if_pos hi]
    split
    · rename_i hrow
      exact h.color _ (Nat.add_lt_add_right hrow 80)
    · rfl
  fore := h.fore
  back := h.back
  bright := h.bright
  x := h.x
  y := h.y

/-! ## The bounds check, side by side -/

/-- The cursor comes back from the left of the screen. -/
def leftEdge (s : FramebufferConsole) : FramebufferConsole :=
  if s.consoleX < 0 then { s with consoleX := 0 } else s

/-- The cursor comes back from above the screen. -/
def topEdge (s : FramebufferConsole) : FramebufferConsole :=
  if s.consoleY < 0 then { s with consoleY := 0 } else s

/-- The cursor comes back from the right of the screen, in the next row. -/
def rightEdge (s : FramebufferConsole) : FramebufferConsole :=
  if s.consoleX ≥ 80 then
    { s with consoleX := s.consoleX % 80, consoleY := int32 (s.consoleY + 1) }
  else s

/-- Below the screen a line is scrolled. -/
def bottomEdge (s : FramebufferConsole) : FramebufferConsole :=
  if s.consoleY ≥ 35 then { s.scroll with consoleY := s.consoleY - 1 } else s

theorem boundsCheck_eq (s : FramebufferConsole) :
    s.boundsCheck = s.leftEdge.topEdge.rightEdge.bottomEdge := rfl

theorem Agree.leftEdge (h : Agree s₁ s₂) : Agree s₁.leftEdge s₂.leftEdge := by
  unfold FramebufferConsole.leftEdge
  rw [h.x]
  split
  · exact ⟨h.text, h.color, h.fore, h.back, h.bright, rfl, h.y⟩
  · exact h

theorem Agree.topEdge (h : Agree s₁ s₂) : Agree s₁.topEdge s₂.topEdge := by
  unfold FramebufferConsole.topEdge
  rw [h.y]
  split
  · exact ⟨h.text, h.color, h.fore, h.back, h.bright, h.x, rfl⟩
  · exact h

theorem Agree.rightEdge (h : Agree s₁ s₂) : Agree s₁.rightEdge s₂.rightEdge := by
  unfold FramebufferConsole.rightEdge
  rw [h.x, h.y]
  split
  · exact h.move _ _
  · exact h

theorem Agree.bottomEdge (h : Agree s₁ s₂) : Agree s₁.bottomEdge s₂.bottomEdge := by
  have hscroll := h.scroll
  unfold FramebufferConsole.bottomEdge
  rw [h.y]
  split
  · exact ⟨hscroll.text, hscroll.color, h.fore, h.back, h.bright, h.x, rfl⟩
  · exact h

theorem Agree.boundsCheck (h : Agree s₁ s₂) : Agree s₁.boundsCheck s₂.boundsCheck := by
  rw [boundsCheck_eq, boundsCheck_eq]
  exact h.leftEdge.topEdge.rightEdge.bottomEdge

/-- A column left of the right edge is kept, or it is the first one. -/
theorem boundsCheck_consoleX (h : s.consoleX < 80) :
    s.boundsCheck.consoleX = if s.consoleX < 0 then 0 else s.consoleX := by
  have hleft : s.leftEdge.consoleX = if s.consoleX < 0 then 0 else s.consoleX := by
    unfold leftEdge
    split <;> rfl
  have htop : s.leftEdge.topEdge.consoleX = s.leftEdge.consoleX := by
    unfold topEdge
    split <;> rfl
  have hright : s.leftEdge.topEdge.rightEdge = s.leftEdge.topEdge := by
    refine if_neg (Int.not_le.2 ?_)
    rw [htop, hleft]
    split
    · decide
    · exact h
  have hbottom : s.boundsCheck.consoleX = s.leftEdge.topEdge.consoleX := by
    rw [boundsCheck_eq, hright]
    unfold bottomEdge
    split <;> rfl
  rw [hbottom, htop, hleft]

/-! ## The numbers -/

/-- What a byte of the parameters does to `which_number` and `numbers`. -/
def scanByte (q : Int × (Nat → UInt32)) (ch : UInt8) : Int × (Nat → UInt32) :=
  if ch = 59 then (q.1 + 1, Function.update q.2 (q.1 + 1).toNat 0)
  else if q.1 = -1 then (0, Function.update q.2 0 (addDigit 0 ch))
  else (q.1, Function.update q.2 q.1.toNat (addDigit (q.2 q.1.toNat) ch))

/-- What `[` does, and then the parameters. -/
def scan (numbers : Nat → UInt32) (text : List UInt8) : Int × (Nat → UInt32) :=
  text.foldl scanByte (-1, Function.update numbers 0 ansiDefault)

theorem scanByte_separator (k : Nat) (numbers : Nat → UInt32) :
    scanByte (k, numbers) 59 = (((k + 1 : Nat) : Int), Function.update numbers (k + 1) 0) := rfl

theorem scanByte_digit (k : Nat) (numbers : Nat → UInt32) (hch : ch ≠ 59) :
    scanByte (k, numbers) ch = ((k : Int), Function.update numbers k (addDigit (numbers k) ch)) := by
  have hne : (k : Int) ≠ -1 := by omega
  rw [scanByte, if_neg hch, if_neg hne]
  rfl

/-- The first byte begins the first number, whatever it is. -/
theorem scan_cons (numbers : Nat → UInt32) (ch : UInt8) (text : List UInt8) :
    scan numbers (ch :: text) = text.foldl scanByte (((0 : Nat) : Int),
      Function.update numbers 0 (if ch = 59 then 0 else addDigit 0 ch)) := by
  rw [scan, List.foldl_cons]
  congr 1
  by_cases hch : ch = 59
  · subst hch
    rw [if_pos rfl, ← Function.update_idem (v := ansiDefault) (w := 0)]
    rfl
  · rw [if_neg hch, scanByte, if_neg hch, if_pos rfl, Function.update_idem]
    rfl

/-- Behind the first byte the numbers are counted by the separators. -/
theorem scanByte_which (k : Nat) (numbers : Nat → UInt32) (text : List UInt8) :
    (text.foldl scanByte (k, numbers)).1 = ((k + text.count 59 : Nat) : Int) := by
  induction text generalizing k numbers with
  | nil => rfl
  | cons ch text ih =>
      rw [List.foldl_cons]
      by_cases hch : ch = 59
      · rw [hch, scanByte_separator, ih, List.count_cons_self, Nat.add_right_comm, Nat.add_assoc]
      · rw [scanByte_digit k numbers hch, ih, List.count_cons_of_ne hch]

theorem scan_which (numbers : Nat → UInt32) (text : List UInt8) :
    (scan numbers text).1 = if text = [] then -1 else (text.tail.count 59 : Int) := by
  cases text with
  | nil => rfl
  | cons ch text =>
      rw [scan_cons, scanByte_which, Nat.zero_add]
      rfl

/-- Behind the first separator the first number stays. -/
theorem scanByte_first_of_pos {k : Nat} (hk : k ≠ 0) (numbers : Nat → UInt32) (text : List UInt8) :
    (text.foldl scanByte (k, numbers)).2 0 = numbers 0 := by
  induction text generalizing k numbers with
  | nil => rfl
  | cons ch text ih =>
      rw [List.foldl_cons]
      by_cases hch : ch = 59
      · rw [hch, scanByte_separator, ih (Nat.succ_ne_zero k),
          Function.update_of_ne (Nat.succ_ne_zero k).symm]
      · rw [scanByte_digit k numbers hch, ih hk, Function.update_of_ne hk.symm]

/-- Up to it the digits make the first number. -/
theorem scanByte_first (numbers : Nat → UInt32) (text : List UInt8) :
    (text.foldl scanByte (((0 : Nat) : Int), numbers)).2 0 =
      (text.takeWhile (· ≠ 59)).foldl addDigit (numbers 0) := by
  induction text generalizing numbers with
  | nil => rfl
  | cons ch text ih =>
      rw [List.foldl_cons]
      by_cases hch : ch = 59
      · rw [hch, scanByte_separator, scanByte_first_of_pos (Nat.succ_ne_zero 0),
          Function.update_of_ne (Nat.succ_ne_zero 0).symm]
        rfl
      · rw [scanByte_digit 0 numbers hch, ih, Function.update_self,
          List.takeWhile_cons_of_pos (by simp [hch]), List.foldl_cons]

theorem scan_first (numbers : Nat → UInt32) (text : List UInt8) :
    (scan numbers text).2 0 = firstNumber text := by
  cases text with
  | nil => exact Function.update_self 0 ansiDefault numbers
  | cons ch text => rw [scan_cons, scanByte_first, Function.update_self, firstNumber]

/-- Entries behind the last number are what they were. -/
theorem scanByte_behind {k i : Nat} {numbers : Nat → UInt32} {text : List UInt8}
    (hi : k + text.count 59 < i) : (text.foldl scanByte (k, numbers)).2 i = numbers i := by
  induction text generalizing k numbers with
  | nil => rfl
  | cons ch text ih =>
      rw [List.foldl_cons]
      by_cases hch : ch = 59
      · rw [hch, List.count_cons_self] at hi
        rw [hch, scanByte_separator, ih (by omega), Function.update_of_ne (by omega)]
      · rw [List.count_cons_of_ne hch] at hi
        rw [scanByte_digit k numbers hch, ih hi, Function.update_of_ne (by omega)]

/-- Entries up to the last number do not depend on what they were. -/
theorem scanByte_stored {k : Nat} {numbers₁ numbers₂ : Nat → UInt32}
    (h : ∀ i ≤ k, numbers₁ i = numbers₂ i) (text : List UInt8) {i : Nat}
    (hi : i ≤ k + text.count 59) :
    (text.foldl scanByte (k, numbers₁)).2 i = (text.foldl scanByte (k, numbers₂)).2 i := by
  induction text generalizing k numbers₁ numbers₂ with
  | nil => exact h i hi
  | cons ch text ih =>
      rw [List.foldl_cons, List.foldl_cons]
      by_cases hch : ch = 59
      · rw [hch, List.count_cons_self] at hi
        rw [hch, scanByte_separator, scanByte_separator]
        refine ih ?_ (by omega)
        intro j hj
        rcases eq_or_ne j (k + 1) with rfl | hne
        · rw [Function.update_self, Function.update_self]
        · rw [Function.update_of_ne hne, Function.update_of_ne hne]
          exact h j (by omega)
      · rw [List.count_cons_of_ne hch] at hi
        rw [scanByte_digit k numbers₁ hch, scanByte_digit k numbers₂ hch]
        refine ih ?_ hi
        intro j hj
        rcases eq_or_ne j k with rfl | hne
        · rw [Function.update_self, Function.update_self, h j hj]
        · rw [Function.update_of_ne hne, Function.update_of_ne hne]
          exact h j hj

/-- So the numbers of a sequence are the same whatever the array held before it. -/
theorem scan_stored (numbers₁ numbers₂ : Nat → UInt32) (text : List UInt8) {i : Nat}
    (hi : (i : Int) ≤ (scan numbers₁ text).1) :
    (scan numbers₁ text).2 i = (scan numbers₂ text).2 i := by
  cases text with
  | nil =>
      have hneg : (i : Int) ≤ -1 := hi
      omega
  | cons ch text =>
      rw [scan_cons, scanByte_which] at hi
      rw [scan_cons, scan_cons]
      refine scanByte_stored ?_ text (Int.ofNat_le.1 hi)
      intro j hj
      obtain rfl := Nat.le_zero.1 hj
      rw [Function.update_self, Function.update_self]

/-- With one number the second entry is what it was. -/
theorem scan_second {numbers : Nat → UInt32} (htext : text ≠ []) (hone : 59 ∉ text.tail) :
    (scan numbers text).2 1 = numbers 1 := by
  obtain ⟨ch, text, rfl⟩ := List.exists_cons_of_ne_nil htext
  have hcount : text.count 59 = 0 := List.count_eq_zero.2 hone
  rw [scan_cons, scanByte_behind (by omega), Function.update_of_ne Nat.one_ne_zero]

/-! ## The bytes before the command -/

/-- The console behind `ESC [`. -/
def opened (s : FramebufferConsole) : FramebufferConsole :=
  boundsCheck { boundsCheck { s with ansiState := .escape } with
    whichNumber := -1, numbers := Function.update s.numbers 0 ansiDefault, ansiState := .number }

/-- The console behind one more byte of the parameters. -/
def scanNext (s : FramebufferConsole) (ch : UInt8) : FramebufferConsole :=
  boundsCheck { s with
    whichNumber := (scanByte (s.whichNumber, s.numbers) ch).1
    numbers := (scanByte (s.whichNumber, s.numbers) ch).2 }

/-- The console behind `ESC [` and the parameters. -/
def scanned (s : FramebufferConsole) (text : List UInt8) : FramebufferConsole :=
  text.foldl scanNext s.opened

theorem scanned_concat (s : FramebufferConsole) (text : List UInt8) (ch : UInt8) :
    s.scanned (text ++ [ch]) = (s.scanned text).scanNext ch :=
  List.foldl_concat _ _ _ _

theorem scan_concat (numbers : Nat → UInt32) (text : List UInt8) (ch : UInt8) :
    scan numbers (text ++ [ch]) = scanByte (scan numbers text) ch :=
  List.foldl_concat _ _ _ _

/-- The bounds check leaves the parser, its numbers and the lock alone. -/
theorem boundsCheck_parsing (s : FramebufferConsole) :
    s.boundsCheck.ansiState = s.ansiState ∧ s.boundsCheck.whichNumber = s.whichNumber ∧
      s.boundsCheck.numbers = s.numbers ∧ s.boundsCheck.initialized = s.initialized := by
  obtain ⟨x, y, text, color, cells, h⟩ := boundsCheck_frame s
  rw [h]
  exact ⟨rfl, rfl, rfl, rfl⟩

/-- What the parser holds there. -/
structure Parsed (s : FramebufferConsole) (q : Int × (Nat → UInt32)) (initialized : Bool) : Prop where
  state : s.ansiState = .number
  which : s.whichNumber = q.1
  numbers : s.numbers = q.2
  initialized : s.initialized = initialized

theorem parsed_boundsCheck {q : Int × (Nat → UInt32)} {initialized : Bool}
    (h : Parsed s q initialized) : Parsed s.boundsCheck q initialized := by
  obtain ⟨hstate, hwhich, hnumbers, hinitialized⟩ := boundsCheck_parsing s
  exact ⟨hstate.trans h.state, hwhich.trans h.which, hnumbers.trans h.numbers,
    hinitialized.trans h.initialized⟩

theorem parsed_scanned (s : FramebufferConsole) (text : List UInt8) :
    Parsed (s.scanned text) (scan s.numbers text) s.initialized := by
  induction text using List.reverseRecOn with
  | nil =>
      apply parsed_boundsCheck
      obtain ⟨-, -, -, hinitialized⟩ := boundsCheck_parsing { s with ansiState := .escape }
      exact ⟨rfl, rfl, rfl, hinitialized⟩
  | append_singleton text ch ih =>
      rw [scanned_concat, scan_concat]
      apply parsed_boundsCheck
      have hbyte : ((s.scanned text).whichNumber, (s.scanned text).numbers) =
          scan s.numbers text := Prod.ext ih.which ih.numbers
      rw [hbyte]
      exact ⟨ih.state, rfl, rfl, ih.initialized⟩

theorem Agree.opened (h : Agree s₁ s₂) : Agree s₁.opened s₂.opened := by
  apply Agree.boundsCheck
  have hescape : Agree { s₁ with ansiState := .escape } { s₂ with ansiState := .escape } :=
    ⟨h.text, h.color, h.fore, h.back, h.bright, h.x, h.y⟩
  have hchecked := hescape.boundsCheck
  exact ⟨hchecked.text, hchecked.color, hchecked.fore, hchecked.back, hchecked.bright, hchecked.x,
    hchecked.y⟩

/-- Consoles that agree do so behind the parameters. -/
theorem Agree.scanned (h : Agree s₁ s₂) (text : List UInt8) :
    Agree (s₁.scanned text) (s₂.scanned text) := by
  induction text using List.reverseRecOn with
  | nil => exact h.opened
  | append_singleton text ch ih =>
      rw [scanned_concat, scanned_concat]
      apply Agree.boundsCheck
      exact ⟨ih.text, ih.color, ih.fore, ih.back, ih.bright, ih.x, ih.y⟩

theorem IsParameters.of_append {a b : List UInt8} (h : IsParameters (a ++ b)) : IsParameters a where
  bytes := fun ch hch => h.bytes ch (List.mem_append_left b hch)
  atMostTen := by
    have hcount := h.atMostTen
    rw [List.count_append] at hcount
    exact Nat.lt_of_le_of_lt (Nat.le_add_right _ _) hcount

/-- The parser has room for the numbers. -/
theorem IsParameters.scan_which (h : IsParameters text) (numbers : Nat → UInt32) :
    -1 ≤ (scan numbers text).1 ∧ (scan numbers text).1 < 10 := by
  rw [FramebufferConsole.scan_which]
  have hcount := h.atMostTen
  have htail : text.tail.count 59 ≤ text.count 59 := (List.tail_sublist text).count_le 59
  split
  · decide
  · omega

theorem setNumber_of_mem {n : Int} (hn : 0 ≤ n ∧ n < 10) (numbers : Nat → UInt32) (v : UInt32) :
    setNumber { s with whichNumber := n, numbers := numbers } v =
      .ok { s with whichNumber := n, numbers := Function.update numbers n.toNat v } :=
  if_pos hn

/-- A byte of the parameters is stored. -/
theorem number_parameter (hlow : -1 ≤ s.whichNumber)
    (hhigh : (scanByte (s.whichNumber, s.numbers) ch).1 < 10) (hch : ch = 59 ∨ 48 ≤ ch ∧ ch ≤ 57) :
    s.number p ch = .ok (false, { s with
      whichNumber := (scanByte (s.whichNumber, s.numbers) ch).1
      numbers := (scanByte (s.whichNumber, s.numbers) ch).2 }) := by
  rw [FramebufferConsole.number]
  by_cases hsemicolon : ch = 59
  · have hscan : scanByte (s.whichNumber, s.numbers) ch =
        (s.whichNumber + 1, Function.update s.numbers (s.whichNumber + 1).toNat 0) :=
      if_pos hsemicolon
    rw [hscan] at hhigh
    have hnext : int32 (s.whichNumber + 1) = s.whichNumber + 1 :=
      int32_of_mem (by omega) (by omega)
    have hroom : ¬ s.whichNumber + 1 = 10 := Int.ne_of_lt hhigh
    rw [hscan, if_pos (by rw [hsemicolon]; decide), if_pos hsemicolon]
    dsimp only
    rw [hnext, if_neg hroom, setNumber_of_mem ⟨by omega, hhigh⟩]
    rfl
  · have hdigit : ¬ (ch < 48 ∨ 57 < ch) := by
      obtain ⟨hfrom, hto⟩ := hch.resolve_left hsemicolon
      rintro (hlt | hlt)
      · exact absurd hfrom (UInt8.not_le.2 hlt)
      · exact absurd hto (UInt8.not_le.2 hlt)
    rw [if_neg hdigit]
    dsimp only
    by_cases hfirst : s.whichNumber = -1
    · -- the first digit of the first number
      have hscan : scanByte (s.whichNumber, s.numbers) ch =
          (0, Function.update s.numbers 0 (addDigit 0 ch)) :=
        (if_neg hsemicolon).trans (if_pos hfirst)
      rw [hscan, if_pos hfirst]
      have hset := setNumber_of_mem (s := s) (n := 0) (by decide)
        (Function.update s.numbers 0 0) (addDigit 0 ch)
      rw [show (0 : Int).toNat = 0 from rfl, Function.update_idem] at hset
      exact congrArg (Except.map fun s => (false, s)) hset
    · have hscan : scanByte (s.whichNumber, s.numbers) ch =
          (s.whichNumber, Function.update s.numbers s.whichNumber.toNat
            (addDigit (s.numbers s.whichNumber.toNat) ch)) :=
        (if_neg hsemicolon).trans (if_neg hfirst)
      rw [hscan] at hhigh
      rw [hscan, if_neg hfirst]
      have hset := setNumber_of_mem (s := s) (n := s.whichNumber) ⟨by omega, hhigh⟩ s.numbers
        (addDigit (s.numbers s.whichNumber.toNat) ch)
      exact congrArg (Except.map fun s => (false, s)) hset

theorem step_parameter (hstate : s.ansiState = .number) (hlow : -1 ≤ s.whichNumber)
    (hhigh : (scanByte (s.whichNumber, s.numbers) ch).1 < 10) (hch : ch = 59 ∨ 48 ≤ ch ∧ ch ≤ 57) :
    s.step p ch = .ok (false, s.scanNext ch) := by
  have hopen : s.ansiState ≠ .complete := by
    rw [hstate]
    exact AnsiState.noConfusion
  rw [step, parse, hstate]
  dsimp only
  rw [number_parameter hlow hhigh hch]
  exact if_neg hopen

theorem writeLoop_singleton (s : FramebufferConsole) (ch : UInt8) :
    s.writeLoop p [ch] = s.step p ch := by
  rw [writeLoop]
  cases s.step p ch with
  | error e => rfl
  | ok r =>
      obtain ⟨stop, s'⟩ := r
      cases stop <;> rfl

theorem writeLoop_concat {a : List UInt8} (ha : a ≠ []) (h : s.writeLoop p a = .ok (false, s'))
    (ch : UInt8) : s.writeLoop p (a ++ [ch]) = s'.step p ch := by
  rw [writeLoop_append ha (List.cons_ne_nil ch []), h]
  exact writeLoop_singleton s' ch

/-- From its normal state the parser takes in `ESC [` and the parameters. -/
theorem writeLoop_scanned (hstate : s.ansiState = .normal) (htext : IsParameters text) :
    s.writeLoop p (27 :: 91 :: text) = .ok (false, s.scanned text) := by
  induction text using List.reverseRecOn with
  | nil =>
      have hescape : s.step p 27 = .ok (false, boundsCheck { s with ansiState := .escape }) := by
        rw [step, parse, hstate]
        rfl
      have hbracket : (boundsCheck { s with ansiState := .escape }).step p 91 =
          .ok (false, s.opened) := by
        obtain ⟨hchecked, -, hnumbers, -⟩ := boundsCheck_parsing { s with ansiState := .escape }
        rw [step, parse, hchecked]
        dsimp only
        rw [FramebufferConsole.escape, if_pos rfl, hnumbers]
        rfl
      have hfirst : s.writeLoop p [27] = .ok (false, boundsCheck { s with ansiState := .escape }) :=
        (writeLoop_singleton s 27).trans hescape
      exact (writeLoop_concat (List.cons_ne_nil 27 []) hfirst 91).trans hbracket
  | append_singleton text ch ih =>
      have hparsed := parsed_scanned s text
      have hbefore := htext.of_append
      have hlow := (hbefore.scan_which s.numbers).1
      have hhigh := (htext.scan_which s.numbers).2
      have hbyte : ((s.scanned text).whichNumber, (s.scanned text).numbers) =
          scan s.numbers text := Prod.ext hparsed.which hparsed.numbers
      rw [scan_concat, ← hbyte] at hhigh
      rw [← hparsed.which] at hlow
      have hch := htext.bytes ch (List.mem_append_right text List.mem_cons_self)
      rw [scanned_concat, ← step_parameter hparsed.state hlow hhigh hch]
      exact writeLoop_concat (List.cons_ne_nil 27 _) (ih hbefore) ch

/-! ## The command -/

theorem Agree.colored (h : Agree s₁ s₂) (n : UInt32) : Agree (s₁.color n) (s₂.color n) := by
  unfold FramebufferConsole.color
  dsimp only
  split_ifs
  all_goals
    refine ⟨h.text, h.color, ?_, ?_, ?_, h.x, h.y⟩
    all_goals simp only [h.fore, h.back, h.bright]

theorem color_numbers (s : FramebufferConsole) (n : UInt32) : (s.color n).numbers = s.numbers := by
  obtain ⟨fore, back, bright, h⟩ := color_spec s n
  rw [h]

/-- The command `m` goes through numbers that the sequence has stored. -/
theorem Agree.colorLoop {n c : Nat} (h : Agree s₁ s₂)
    (hnumbers : ∀ i < c + n, s₁.numbers i = s₂.numbers i) (hroom : c + n ≤ 10) :
    ∃ v₁ v₂, colorLoop n c s₁ = .ok v₁ ∧ colorLoop n c s₂ = .ok v₂ ∧ Agree v₁ v₂ := by
  induction n generalizing c s₁ s₂ with
  | zero => exact ⟨s₁, s₂, rfl, rfl, h⟩
  | succ n ih =>
      have hc : c < 10 := by omega
      have hfirst := hnumbers c (by omega)
      have hcolored := h.colored (s₁.numbers c)
      obtain ⟨v₁, v₂, h₁, h₂, hagree⟩ := ih (c := c + 1) hcolored (by
        intro i hi
        rw [color_numbers, color_numbers]
        exact hnumbers i (by omega)) (by omega)
      refine ⟨v₁, v₂, (if_pos hc).trans h₁, ?_, hagree⟩
      rw [hfirst] at h₂
      exact (if_pos hc).trans h₂

/-- The command `H` goes to the same place when it finds the same numbers. -/
theorem Agree.goto (h : Agree s₁ s₂) (hwhich : s₁.whichNumber = s₂.whichNumber)
    (hfirst : s₁.numbers 0 = s₂.numbers 0)
    (hsecond : s₁.numbers 0 ≠ ansiDefault → s₁.whichNumber ≠ 0 → s₁.numbers 1 = s₂.numbers 1) :
    Agree s₁.gotoXY s₂.gotoXY := by
  unfold gotoXY
  rw [← hwhich, ← hfirst]
  split_ifs with hdefault hnone
  · exact ⟨h.text, h.color, h.fore, h.back, h.bright, rfl, rfl⟩
  · exact ⟨h.text, h.color, h.fore, h.back, h.bright, h.x, rfl⟩
  · rw [hsecond hdefault hnone]
    exact ⟨h.text, h.color, h.fore, h.back, h.bright, rfl, rfl⟩

/-- A command that reads what its sequence has stored does the same in both consoles. -/
theorem Agree.command (h : Agree s₁ s₂) (hwhich : s₁.whichNumber = s₂.whichNumber)
    (hlow : -1 ≤ s₁.whichNumber) (hhigh : s₁.whichNumber < 10)
    (hfirst : s₁.numbers 0 = s₂.numbers 0)
    (hstored : ∀ i : Nat, (i : Int) ≤ s₁.whichNumber → s₁.numbers i = s₂.numbers i)
    (hch : ch ∈ supported)
    (hsecond : ch = 72 → s₁.numbers 0 ≠ ansiDefault → s₁.whichNumber + 1 ≠ 0 →
      s₁.numbers 1 = s₂.numbers 1)
    (hclear : ch = 74 → s₁.numbers 0 = 2) :
    ∃ v₁ v₂, (s₁.withCommand ch).command p = .ok v₁ ∧ (s₂.withCommand ch).command p = .ok v₂ ∧
      Agree v₁ v₂ := by
  have hagree : Agree (s₁.withCommand ch) (s₂.withCommand ch) :=
    ⟨h.text, h.color, h.fore, h.back, h.bright, h.x, h.y⟩
  have hdistance : (s₁.withCommand ch).distance = (s₂.withCommand ch).distance := by
    unfold distance withCommand
    rw [hfirst]
  simp only [supported, List.mem_cons, List.not_mem_nil, or_false] at hch
  rcases hch with rfl | rfl | rfl | rfl | rfl | rfl | rfl
  · refine ⟨_, _, rfl, rfl, ⟨h.text, h.color, h.fore, h.back, h.bright, h.x, ?_⟩⟩
    exact congrArg₂ (fun y d => int32 (y - d)) h.y hdistance
  · refine ⟨_, _, rfl, rfl, ⟨h.text, h.color, h.fore, h.back, h.bright, h.x, ?_⟩⟩
    exact congrArg₂ (fun y d => int32 (y + d)) h.y hdistance
  · refine ⟨_, _, rfl, rfl, ⟨h.text, h.color, h.fore, h.back, h.bright, ?_, h.y⟩⟩
    exact congrArg₂ (fun x d => int32 (x + d)) h.x hdistance
  · refine ⟨_, _, rfl, rfl, ⟨h.text, h.color, h.fore, h.back, h.bright, ?_, h.y⟩⟩
    exact congrArg₂ (fun x d => int32 (x - d)) h.x hdistance
  · exact ⟨_, _, rfl, rfl, hagree.goto (congrArg (· + 1) hwhich) hfirst (hsecond rfl)⟩
  · have hclear₁ := hclear rfl
    have hclear₂ : s₂.numbers 0 = 2 := hfirst.symm.trans hclear₁
    exact ⟨_, _, if_pos hclear₁, if_pos hclear₂, hagree.clear⟩
  · have hloop := hagree.colorLoop (n := (s₁.whichNumber + 1).toNat) (c := 0) (by
      intro i hi
      exact hstored i (by omega)) (by omega)
    obtain ⟨v₁, v₂, h₁, h₂, hv⟩ := hloop
    rw [hwhich] at h₂
    exact ⟨v₁, v₂, h₁, h₂, hv⟩

theorem not_parameter_of_supported (hch : ch ∈ supported) : ch ≠ 59 ∧ (ch < 48 ∨ 57 < ch) := by
  simp only [supported, List.mem_cons, List.not_mem_nil, or_false] at hch
  rcases hch with rfl | rfl | rfl | rfl | rfl | rfl | rfl <;> decide

/-- The last byte of a sequence has the command executed. -/
theorem step_command (hstate : s.ansiState = .number) (hlow : -1 ≤ s.whichNumber)
    (hhigh : s.whichNumber < 10) (hbyte : ch ≠ 59 ∧ (ch < 48 ∨ 57 < ch)) :
    s.step p ch = ((s.withCommand ch).execute p).map fun s => (false, s.boundsCheck) := by
  have hnext : int32 (s.whichNumber + 1) = s.whichNumber + 1 :=
    int32_of_mem (by omega) (by omega)
  have hnumber : s.number p ch = .ok (false, s.withCommand ch) := by
    rw [FramebufferConsole.number, if_pos hbyte.2, if_neg hbyte.1, hnext]
    rfl
  have hcomplete : (s.withCommand ch).ansiState = .complete := rfl
  rw [step, parse, hstate]
  dsimp only
  rw [hnumber]
  exact if_pos hcomplete

/-! ## A sequence -/

/-- What the loop makes of a sequence. -/
theorem writeLoop_sequence (hstate : s.ansiState = .normal) (htext : IsParameters text)
    (hch : ch ∈ supported) :
    s.writeLoop p (sequence text ch) =
      (((s.scanned text).withCommand ch).execute p).map fun s => (false, s.boundsCheck) := by
  have hparsed := parsed_scanned s text
  obtain ⟨hlow, hhigh⟩ := htext.scan_which s.numbers
  rw [← hparsed.which] at hlow hhigh
  rw [← step_command hparsed.state hlow hhigh (not_parameter_of_supported hch)]
  exact writeLoop_concat (List.cons_ne_nil 27 _) (writeLoop_scanned hstate htext) ch

/-- A sequence that reads no old number, and whose command is known, does the same in consoles
that agree. -/
theorem Agree.sequence (h : Agree s₁ s₂) (hstate₁ : s₁.ansiState = .normal)
    (hstate₂ : s₂.ansiState = .normal) (htext : IsParameters text) (hch : ch ∈ supported)
    (hrow : ¬ RowAlone text ch) (hclear : ¬ ClearsPart text ch) :
    ∃ v₁ v₂, s₁.writeLoop p (sequence text ch) = .ok (false, v₁) ∧
      s₂.writeLoop p (sequence text ch) = .ok (false, v₂) ∧ Agree v₁ v₂ := by
  have hparsed₁ := parsed_scanned s₁ text
  have hparsed₂ := parsed_scanned s₂ text
  obtain ⟨hlow, hhigh⟩ := htext.scan_which s₁.numbers
  have hfirst : (s₁.scanned text).numbers 0 = firstNumber text := by
    rw [hparsed₁.numbers, scan_first]
  have hcommand := (h.scanned text).command (p := p)
    (by rw [hparsed₁.which, hparsed₂.which, scan_which, scan_which])
    (by rw [hparsed₁.which]; exact hlow) (by rw [hparsed₁.which]; exact hhigh)
    (by rw [hfirst, hparsed₂.numbers, scan_first])
    (by
      intro i hi
      rw [hparsed₁.which] at hi
      rw [hparsed₁.numbers, hparsed₂.numbers]
      exact scan_stored _ _ _ hi)
    hch
    (by
      intro hH hnumber hcount
      rw [hfirst] at hnumber
      rw [hparsed₁.which, scan_which] at hcount
      rw [hparsed₁.numbers, hparsed₂.numbers]
      apply scan_stored
      rw [scan_which]
      split at hcount
      · exact absurd rfl hcount
      · -- it is not the first number alone
        rename_i hne
        rw [if_neg hne]
        by_contra hfew
        have hnone : text.tail.count 59 = 0 := by omega
        exact hrow ⟨hH, hne, List.count_eq_zero.1 hnone, hnumber⟩)
    (by
      intro hJ
      rw [hfirst]
      by_contra htwo
      exact hclear ⟨hJ, htwo⟩)
  obtain ⟨v₁, v₂, h₁, h₂, hagree⟩ := hcommand
  rw [writeLoop_sequence hstate₁ htext hch, writeLoop_sequence hstate₂ htext hch, execute, execute,
    h₁, h₂]
  refine ⟨_, _, rfl, rfl, Agree.boundsCheck ?_⟩
  exact ⟨hagree.text, hagree.color, hagree.fore, hagree.back, hagree.bright, hagree.x, hagree.y⟩

/-! ## In several calls -/

/-- A text that the loop gets through can be written in any number of calls. -/
theorem run_of_writeLoop {depth : Nat} {calls : List (List UInt8)} (hs : s.initialized = true)
    (hcalls : [] ∉ calls) (hne : calls ≠ [])
    (h : s.writeLoop (printk (write depth)) calls.flatten = .ok (false, s')) :
    ∃ rs, run (write (depth + 1)) s calls = .ok (rs, s') := by
  induction calls generalizing s with
  | nil => exact absurd rfl hne
  | cons call calls ih =>
      obtain ⟨hcall, hrest⟩ := not_or.1 fun hmem => hcalls (List.mem_cons.2 hmem)
      have hcall' : call ≠ [] := Ne.symm hcall
      cases calls with
      | nil =>
          have hflat : [call].flatten = call := by simp
          rw [hflat] at h
          refine ⟨[0], run_singleton_eq_ok.2 ⟨0, ?_, rfl⟩⟩
          rw [write_of_initialized hs, h]
          rfl
      | cons next calls =>
          have hnext : next ≠ [] := Ne.symm fun hmem => hrest (hmem ▸ List.mem_cons_self)
          have hflat : (call :: next :: calls).flatten = call ++ (next :: calls).flatten :=
            List.flatten_cons
          have hmore : (next :: calls).flatten ≠ [] := by
            rw [List.flatten_cons]
            exact List.append_ne_nil_of_left_ne_nil hnext _
          rw [hflat, writeLoop_append hcall' hmore] at h
          cases hfirst : s.writeLoop (printk (write depth)) call with
          | error e =>
              rw [hfirst] at h
              cases h
          | ok r =>
              obtain ⟨stop, s₁⟩ := r
              rw [hfirst] at h
              cases stop with
              | true => cases h
              | false =>
                  have hs₁ := (writeLoop_spec (keepsInitialized_printk depth) hfirst).1.trans hs
                  obtain ⟨rs, hrun⟩ := ih hs₁ hrest (List.cons_ne_nil next calls) h
                  refine ⟨0 :: rs, run_cons_eq_ok.2 ⟨0, s₁, rs, ?_, hrun, rfl⟩⟩
                  rw [write_of_initialized hs, hfirst]
                  rfl

/-- The console stays up. -/
theorem Reached.initialized (h : Reached s) : s.initialized = true := by
  induction h with
  | start lockingEnabled printMutex => rfl
  | write hs hwrite ih => exact (initialized_write hwrite).trans ih
  | lock hs lockingEnabled printMutex ih => exact ih

/-- The diagnostic for a part of the screen never comes back. -/
theorem write_clearsPart (hs : s.initialized = true) (hstate : s.ansiState = .normal)
    (htext : IsParameters text) (hclear : ClearsPart text ch) (depth : Nat) :
    write depth s (sequence text ch) = .error .endless := by
  obtain ⟨rfl, hnumber⟩ := hclear
  have hparsed := parsed_scanned s text
  have hfirst : (s.scanned text).numbers 0 ≠ 2 := by
    rw [hparsed.numbers, scan_first]
    exact hnumber
  have hdiagnosed : ((s.scanned text).withCommand 74).Diagnosed := ⟨rfl, .inl ⟨rfl, hfirst⟩⟩
  have hup : ((s.scanned text).withCommand 74).initialized = true := hparsed.initialized.trans hs
  cases depth with
  | zero => rw [write.eq_def, if_pos hs]
  | succ depth =>
      rw [write_of_initialized hs, writeLoop_sequence hstate htext (by decide),
        execute_diagnosed depth hup hdiagnosed]
      rfl

/-! ## Going to a column -/

theorem boundsCheck_of_onScreen (h : OnScreen s.cursor) : s.boundsCheck = s := by
  obtain ⟨hx, hx', hy, hy'⟩ := h
  have hleft : s.leftEdge = s := if_neg (Int.not_lt.2 hx)
  have htop : s.topEdge = s := if_neg (Int.not_lt.2 hy)
  have hright : s.rightEdge = s := if_neg (Int.not_le.2 hx')
  have hbottom : s.bottomEdge = s := if_neg (Int.not_le.2 hy')
  rw [boundsCheck_eq, hleft, htop, hright, hbottom]

theorem Agree.checked (h : Agree s₁ s₂) (hscreen : OnScreen s₂.cursor) :
    Agree s₁ s₂.boundsCheck := by
  rw [boundsCheck_of_onScreen hscreen]
  exact h

/-- Parameters do not show. -/
theorem agree_scanned (h : OnScreen s.cursor) (text : List UInt8) : Agree s (s.scanned text) := by
  induction text using List.reverseRecOn with
  | nil =>
      have hescape : boundsCheck { s with ansiState := .escape } = { s with ansiState := .escape } :=
        boundsCheck_of_onScreen h
      rw [show s.scanned [] = s.opened from rfl, opened, hescape]
      exact Agree.checked ⟨fun _ _ => rfl, fun _ _ => rfl, rfl, rfl, rfl, rfl, rfl⟩ h
  | append_singleton text ch ih =>
      have hcursor : OnScreen (s.scanned text).cursor := by
        rw [cursor, ← ih.x, ← ih.y]
        exact h
      rw [scanned_concat]
      exact Agree.checked ⟨ih.text, ih.color, ih.fore, ih.back, ih.bright, ih.x, ih.y⟩ hcursor

/-- The command `H`, when it goes to a place on the screen, moves the cursor there. -/
theorem writeLoop_goto (hstate : s.ansiState = .normal) (htext : IsParameters text)
    (h : OnScreen s.cursor) {x y : Int} (hplace : OnScreen (x, y))
    (hx : ((s.scanned text).withCommand 72).gotoXY.consoleX = x)
    (hy : ((s.scanned text).withCommand 72).gotoXY.consoleY = y) :
    ∃ v, s.writeLoop p (sequence text 72) = .ok (false, v) ∧ v.ansiState = .normal ∧
      v.numbers = (scan s.numbers text).2 ∧ Agree { s with consoleX := x, consoleY := y } v := by
  have hagree := agree_scanned h text
  obtain ⟨x', y', hgoto⟩ : ∃ x' y', ((s.scanned text).withCommand 72).gotoXY =
      { (s.scanned text).withCommand 72 with consoleX := x', consoleY := y' } := by
    unfold gotoXY
    split_ifs <;> exact ⟨_, _, rfl⟩
  have hcommand : ((s.scanned text).withCommand 72).command p =
      .ok { (s.scanned text).withCommand 72 with consoleX := x', consoleY := y' } :=
    congrArg Except.ok hgoto
  rw [hgoto] at hx hy
  obtain rfl : x' = x := hx
  obtain rfl : y' = y := hy
  obtain ⟨hnormal, -, hnumbers, -⟩ := boundsCheck_parsing { (s.scanned text).withCommand 72 with
    consoleX := x', consoleY := y', whichNumber := -1, ansiState := .normal }
  refine ⟨boundsCheck { (s.scanned text).withCommand 72 with
    consoleX := x', consoleY := y', whichNumber := -1, ansiState := .normal }, ?_, hnormal,
    hnumbers.trans (parsed_scanned s text).numbers, ?_⟩
  · rw [writeLoop_sequence hstate htext (by decide), execute, hcommand]
    rfl
  · exact Agree.checked ⟨hagree.text, hagree.color, hagree.fore, hagree.back, hagree.bright, rfl,
      rfl⟩ hplace

/-- With one number the command `H` goes to the column that the second entry holds. -/
theorem consoleX_of_rowAlone (hs : s.initialized = true) (hstate : s.ansiState = .normal)
    (htext : IsParameters text) (hrow : RowAlone text ch)
    (hsecond : int32 (s.numbers 1 - 1).toNat < 80)
    (hwrites : WritesAll s [sequence text ch] s') :
    s'.consoleX =
      if int32 (s.numbers 1 - 1).toNat < 0 then 0 else int32 (s.numbers 1 - 1).toNat := by
  obtain ⟨rfl, hne, hone, hnumber⟩ := hrow
  have hparsed := parsed_scanned s text
  have hcount : text.tail.count 59 = 0 := List.count_eq_zero.2 hone
  have hwhich : ¬ (s.scanned text).whichNumber + 1 = 0 := by
    rw [hparsed.which, scan_which, if_neg hne, hcount]
    decide
  have hfirst : (s.scanned text).numbers 0 ≠ ansiDefault := by
    rw [hparsed.numbers, scan_first]
    exact hnumber
  have hentry : (s.scanned text).numbers 1 = s.numbers 1 := by
    rw [hparsed.numbers, scan_second hne hone]
  have hgoto : ((s.scanned text).withCommand 72).gotoXY =
      { (s.scanned text).withCommand 72 with
        consoleY := int32 ((s.scanned text).numbers 0 - 1).toNat
        consoleX := int32 ((s.scanned text).numbers 1 - 1).toNat } :=
    (if_neg hfirst).trans (if_neg hwhich)
  have hcommand : ((s.scanned text).withCommand 72).command (printk (write 0)) =
      .ok ((s.scanned text).withCommand 72).gotoXY := rfl
  rw [hgoto, hentry] at hcommand
  -- the call at any depth is the one at the first
  obtain ⟨depth, rs, hrun⟩ := hwrites
  obtain ⟨result, hwrite, -⟩ := run_singleton_eq_ok.1 hrun
  have hx := boundsCheck_consoleX (s := { (s.scanned text).withCommand 72 with
    consoleY := int32 ((s.scanned text).numbers 0 - 1).toNat
    consoleX := int32 (s.numbers 1 - 1).toNat
    whichNumber := -1, ansiState := .normal }) hsecond
  have hloop := writeLoop_sequence (p := printk (write 0)) hstate htext
    (show (72 : UInt8) ∈ supported by decide)
  rw [execute, hcommand] at hloop
  simp only [Except.map] at hloop
  obtain ⟨-, heq⟩ := Writes.unique ⟨depth, hwrite⟩ ((writes_iff hs).2 ⟨rfl, 0, false, hloop⟩)
  rw [heq]
  exact hx

/-- Behind `ESC [ 1 ; 5 H` and `ESC [ H` the cursor is where it was, and the array holds the column
still. -/
theorem exists_column : ∃ s, Reached s ∧ s.ansiState = .normal ∧ s.numbers 1 = 5 ∧
    Agree (start false false) s := by
  have hscreen : OnScreen (start false false).cursor := (valid_start false false).onScreen
  have htext : IsParameters [49, 59, 53] := ⟨by decide +kernel, by decide +kernel⟩
  have hempty : IsParameters [] := ⟨by simp, by simp⟩
  obtain ⟨s₁, hwrite₁, hstate₁, hnumbers₁, hagree₁⟩ := writeLoop_goto (p := printk (write 0))
    (s := start false false) (x := 4) (y := 0) rfl htext hscreen
    ⟨by decide, by decide, by decide, by decide⟩ (by decide +kernel) (by decide +kernel)
  have hscreen₁ : OnScreen s₁.cursor := by
    rw [cursor, ← hagree₁.x, ← hagree₁.y]
    exact ⟨by decide, by decide, by decide, by decide⟩
  have hdefault : (s₁.scanned []).numbers 0 = ansiDefault := by
    rw [(parsed_scanned s₁ []).numbers, scan_first]
    rfl
  have hhome : ((s₁.scanned []).withCommand 72).gotoXY =
      { (s₁.scanned []).withCommand 72 with consoleX := 0, consoleY := 0 } := if_pos hdefault
  obtain ⟨s₂, hwrite₂, hstate₂, hnumbers₂, hagree₂⟩ := writeLoop_goto (p := printk (write 0))
    (s := s₁) (x := 0) (y := 0) hstate₁ hempty hscreen₁ ⟨by decide, by decide, by decide, by decide⟩
    (by rw [hhome]) (by rw [hhome])
  refine ⟨s₂, ?_, hstate₂, ?_, ?_⟩
  · obtain ⟨depth₁, hcall₁⟩ := (writes_iff rfl).2 ⟨rfl, 0, false, hwrite₁⟩
    have hreached₁ : Reached s₁ := .write (.start false false) hcall₁
    obtain ⟨depth₂, hcall₂⟩ := (writes_iff hreached₁.initialized).2 ⟨rfl, 0, false, hwrite₂⟩
    exact .write hreached₁ hcall₂
  · -- `ESC [ H` resets the first entry only
    rw [hnumbers₂, hnumbers₁]
    decide
  · exact ⟨fun i hi => (hagree₁.text i hi).trans (hagree₂.text i hi),
      fun i hi => (hagree₁.color i hi).trans (hagree₂.color i hi),
      hagree₁.fore.trans hagree₂.fore, hagree₁.back.trans hagree₂.back,
      hagree₁.bright.trans hagree₂.bright, hagree₂.x, hagree₂.y⟩

/-- A row alone: the console behind its start and one that remembers a column go to different
places. -/
theorem not_means_of_rowAlone (htext : IsParameters text) (hrow : RowAlone text ch) :
    ¬ MeansWhatItSays (sequence text ch) := by
  intro hmeans
  obtain ⟨s, hs, hstate, hcolumn, hagree⟩ := exists_column
  obtain ⟨v₁, v₂, hwrites₁, hwrites₂, hsame⟩ :=
    hmeans _ s (.start false false) hs rfl hstate hagree [sequence text ch]
      (by simp [sequence]) (by simp)
  have hleft := consoleX_of_rowAlone rfl rfl htext hrow (by decide) hwrites₁
  have hright := consoleX_of_rowAlone hs.initialized hstate htext hrow
    (by rw [hcolumn]; decide) hwrites₂
  rw [hcolumn, ← hsame.x, hleft] at hright
  exact absurd hright (by decide)

/-- Of the sequences with a command that the console knows, those mean only what they say that are
neither a row alone nor a part of the screen to be cleared; on these parts no call returns. -/
theorem sequence_means_iff (htext : IsParameters text) (hch : ch ∈ supported) :
    (MeansWhatItSays (sequence text ch) ↔ ¬ RowAlone text ch ∧ ¬ ClearsPart text ch) ∧
      (ClearsPart text ch → ∀ s, Reached s → s.ansiState = .normal →
        ∀ depth, write depth s (sequence text ch) = .error .endless) := by
  have hendless : ClearsPart text ch → ∀ s, Reached s → s.ansiState = .normal →
      ∀ depth, write depth s (sequence text ch) = .error .endless :=
    fun hclear s hs hstate depth => write_clearsPart hs.initialized hstate htext hclear depth
  refine ⟨⟨fun hmeans => ⟨fun hrow => not_means_of_rowAlone htext hrow hmeans,
    fun hclear => ?_⟩, ?_⟩, hendless⟩
  · obtain ⟨v₁, v₂, ⟨depth, rs, hrun⟩, -⟩ := hmeans _ _ (.start false false)
      (.start false false) rfl rfl
      ⟨fun _ _ => rfl, fun _ _ => rfl, rfl, rfl, rfl, rfl, rfl⟩ [sequence text ch]
      (by simp [sequence]) (by simp)
    obtain ⟨r, hwrite, -⟩ := run_singleton_eq_ok.1 hrun
    rw [hendless hclear _ (.start false false) rfl] at hwrite
    cases hwrite
  · rintro ⟨hrow, hclear⟩ s₁ s₂ hs₁ hs₂ hstate₁ hstate₂ hagree calls hcalls hflat
    have hne : calls ≠ [] := by
      rintro rfl
      cases hflat
    obtain ⟨v₁, v₂, h₁, h₂, hsame⟩ :=
      hagree.sequence (p := printk (write 0)) hstate₁ hstate₂ htext hch hrow hclear
    rw [← hflat] at h₁ h₂
    obtain ⟨rs₁, hrun₁⟩ := run_of_writeLoop hs₁.initialized hcalls hne h₁
    obtain ⟨rs₂, hrun₂⟩ := run_of_writeLoop hs₂.initialized hcalls hne h₂
    exact ⟨v₁, v₂, ⟨1, rs₁, hrun₁⟩, ⟨1, rs₂, hrun₂⟩, hsame⟩

/-- A row and a column. -/
theorem sequence_means_iff_place : MeansWhatItSays (sequence [49, 59, 53] 72) :=
  (sequence_means_iff ⟨by decide +kernel, by decide +kernel⟩ (by decide)).1.2
    ⟨fun hrow => absurd hrow.2.2.1 (by decide), fun hclear => absurd hclear.1 (by decide)⟩

/-- The first row. -/
theorem not_meansWhatItSays : IsParameters [49] ∧ 72 ∈ supported ∧
    ¬ MeansWhatItSays (sequence [49] 72) := by
  have htext : IsParameters [49] := ⟨by decide +kernel, by decide +kernel⟩
  exact ⟨htext, by decide, not_means_of_rowAlone htext
    ⟨rfl, List.cons_ne_nil 49 [], by decide, by decide⟩⟩

end Vmwos.FramebufferConsole
