import Vmwos.Drivers.FramebufferConsole

/-!
# The cursor of the framebuffer console

The bounds check behind every byte scrolls by one line. It brings the cursor back on the screen
when a byte moves it at most one row below the last (`onScreen_boundsCheck_iff`), and only a number
of rows in a command can do more (`KeepsRow`, `onScreen_step_iff`). As long as no command does, all
cells that are written are on the screen (`staysOnScreen_of_keepsRows`).

A diagnostic for a command never comes back: the parser is still in `ANSI_STATE_COMPLETE` when
`printk` comes to the framebuffer (`write_diagnosed`). The one for too many numbers is printed.
-/

set_option autoImplicit false

namespace Vmwos.FramebufferConsole

open Library Format

/-! ## The texts of the diagnostics -/

section Texts

variable {write : FramebufferConsole → List UInt8 → Except Stuck (Int × FramebufferConsole)}

/-- `printk` hands on the text of pieces that leave room in its buffer. -/
theorem printk_of_lt {string : CString} {args : List Arg} {ps : List Piece}
    (hpieces : pieces Printk.formatter Printk.piece string.length (some string) args = ps)
    (hstuck : ∀ piece ∈ ps, piece ≠ .stuck) (hroom : (texts ps).length + 2 ≤ 256)
    (s : FramebufferConsole) : printk write string args s = consoleWrite write (texts ps) s := by
  have hformat := @format_of_lt _ _ Printk.formatter_stores 256 _ _ (hpieces ▸ hstuck) (by decide)
    (by rw [hpieces]; exact hroom) fun _ => 0
  rw [hpieces] at hformat
  rw [printk, Printk.vsnprintf, hformat]
  dsimp only
  rw [Int.toNat_natCast, map_withText]

theorem printk_tooMany (s : FramebufferConsole) :
    printk write tooManyText [] s = consoleWrite write tooManyText s := by
  have hpieces : pieces Printk.formatter Printk.piece tooManyText.length (some tooManyText) [] =
      tooManyText.map fun c => .guarded [c] := by
    have hliteral := @pieces_literal Printk.formatter Printk.piece tooManyText (by decide) 0 [] []
    rw [List.append_nil, Nat.add_zero] at hliteral
    rw [hliteral]
    exact List.append_nil _
  rw [printk_of_lt hpieces, texts_literal]
  · intro piece hpiece
    obtain ⟨c, -, rfl⟩ := List.mem_map.1 hpiece
    exact Piece.noConfusion
  · rw [texts_literal]
    decide

/-- The text of a format with a word in it. -/
theorem printk_word {before behind : CString} {conv : UInt8} {body : Piece} (x : UInt32)
    (hbefore : 37 ∉ before) (hlength : before.length + body.text.length + behind.length + 2 ≤ 256)
    (hstuck : body ≠ .stuck)
    (hpieces : pieces Printk.formatter Printk.piece (behind.length + 2)
      (some (37 :: conv :: behind)) [.word x] = body :: behind.map fun c => .guarded [c])
    (s : FramebufferConsole) :
    printk write (before ++ 37 :: conv :: behind) [.word x] s =
      consoleWrite write (before ++ (body.text ++ behind)) s := by
  have hall : pieces Printk.formatter Printk.piece (before ++ 37 :: conv :: behind).length
      (some (before ++ 37 :: conv :: behind)) [.word x] =
        before.map (fun c => .guarded [c]) ++ body :: behind.map fun c => .guarded [c] := by
    rw [List.length_append, pieces_literal hbefore, List.length_cons, List.length_cons, hpieces]
  have htexts : texts (before.map (fun c => Piece.guarded [c]) ++
      body :: behind.map fun c => .guarded [c]) = before ++ (body.text ++ behind) := by
    rw [texts_append, texts_cons, texts_literal, texts_literal]
  rw [printk_of_lt hall, htexts]
  · intro piece hpiece
    rcases List.mem_append.1 hpiece with h | h
    · obtain ⟨c, -, rfl⟩ := List.mem_map.1 h
      exact Piece.noConfusion
    · rcases List.mem_cons.1 h with rfl | h
      · exact hstuck
      · obtain ⟨c, -, rfl⟩ := List.mem_map.1 h
        exact Piece.noConfusion
  · rw [htexts, List.length_append, List.length_append]
    omega

theorem length_numberPiece_le {negative : Bool} {x : UInt32} :
    (Printk.numberPiece negative 32 0 10 x.toNat).text.length ≤ 11 := by
  have hle := length_decimal_le x
  have hpadding : (0 : UInt8).toNat - ((signText negative).length + (digits 10 x.toNat).length) =
    0 := Nat.zero_sub _
  rw [Printk.numberPiece, hpadding, Piece.text, List.length_append, List.length_append]
  cases negative with
  | false => exact Nat.le_trans (Nat.le_of_eq (Nat.zero_add _)) (Nat.le_succ_of_le hle)
  | true => exact Nat.le_trans (Nat.le_of_eq (Nat.add_comm 1 _)) (Nat.succ_le_succ hle)

theorem length_decimalPiece_le (x : UInt32) : (Printk.decimalPiece 32 0 x).text.length ≤ 11 := by
  rw [Printk.decimalPiece]
  split
  · exact length_numberPiece_le
  · exact length_numberPiece_le

theorem printk_unknownClear (n : UInt32) : ∃ text, text ≠ [] ∧ ∀ write s,
    printk write unknownClearText [.word n] s = consoleWrite write text s := by
  refine ⟨_, List.cons_ne_nil _ _, fun write s => @printk_word write (unknownClearText.take 20) [10] 100
    (Printk.decimalPiece 32 0 n) n (by decide) ?_ ?_ rfl s⟩
  · have hle := length_decimalPiece_le n
    show 20 + _ + 1 + 2 ≤ 256
    omega
  · rw [Printk.decimalPiece]
    split <;> exact Piece.noConfusion

theorem printk_unknownCommand (n : UInt32) : ∃ text, text ≠ [] ∧ ∀ write s,
    printk write unknownCommandText [.word n] s = consoleWrite write text s := by
  refine ⟨_, List.cons_ne_nil _ _, fun write s => @printk_word write (unknownCommandText.take 22) [39] 99
    (.guarded [n.toUInt8]) n (by decide) ?_ ?_ rfl s⟩
  · show 22 + 1 + 1 + 2 ≤ 256
    decide
  · exact Piece.noConfusion

end Texts

/-! ## Diagnostics for a command -/

/-- A complete command that a diagnostic is printed for. -/
def Diagnosed (s : FramebufferConsole) : Prop :=
  s.ansiState = .complete ∧
    (s.ansiCommand = 74 ∧ s.numbers 0 ≠ 2 ∨
      s.ansiCommand ∉ ([65, 66, 67, 68, 72, 74, 109] : List UInt8))

section Diagnostics

variable {s : FramebufferConsole}

/-- Such a command prints something. -/
theorem command_of_diagnosed (hs : s.Diagnosed) : ∃ text, text ≠ [] ∧
    ∀ write, s.command (printk write) = consoleWrite write text s := by
  obtain ⟨-, ⟨hJ, hclear⟩ | hcommand⟩ := hs
  · obtain ⟨text, htext, hprint⟩ := printk_unknownClear (s.numbers 0)
    refine ⟨text, htext, fun write => ?_⟩
    rw [← hprint, command, hJ]
    simp [hclear]
  · obtain ⟨text, htext, hprint⟩ := printk_unknownCommand s.ansiCommand.toUInt32
    refine ⟨text, htext, fun write => ?_⟩
    simp only [List.mem_cons, List.not_mem_nil, or_false, not_or] at hcommand
    rw [← hprint, command]
    simp [hcommand]

theorem consoleWrite_endless
    {write : FramebufferConsole → List UInt8 → Except Stuck (Int × FramebufferConsole)}
    {buf : List UInt8}
    (h : ∀ mutex, write { s with printMutex := mutex } buf = .error .endless) :
    consoleWrite write buf s = .error .endless := by
  rw [consoleWrite]
  split_ifs with hlocking hmutex
  · rfl
  · rw [h]
    rfl
  · rw [show write s buf = _ from h s.printMutex]
    rfl

theorem execute_endless
    {write : FramebufferConsole → List UInt8 → Except Stuck (Int × FramebufferConsole)}
    (hs : s.Diagnosed)
    (h : ∀ mutex text, text ≠ [] →
      write { s with printMutex := mutex } text = .error .endless) :
    s.execute (printk write) = .error .endless := by
  obtain ⟨text, htext, hcommand⟩ := command_of_diagnosed hs
  rw [execute, hcommand, consoleWrite_endless fun mutex => h mutex text htext]
  rfl

/-- With such a command still there, the console prints its diagnostic for the first byte that it
gets, and so on for ever. -/
theorem write_diagnosed (depth : Nat) (hinitialized : s.initialized = true) (hs : s.Diagnosed)
    {buffer : List UInt8} (hbuffer : buffer ≠ []) : write depth s buffer = .error .endless := by
  induction depth generalizing s buffer with
  | zero => rw [write.eq_def, if_pos hinitialized]
  | succ depth ih =>
    obtain ⟨ch, buffer, rfl⟩ := List.exists_cons_of_ne_nil hbuffer
    have hexecute : s.execute (printk (write depth)) = .error .endless :=
      execute_endless hs fun mutex text htext => ih (s := { s with printMutex := mutex })
        hinitialized hs htext
    rw [write_of_initialized hinitialized, writeLoop, step, parse, hs.1]
    dsimp only
    rw [if_pos hs.1, hexecute]
    rfl

theorem execute_diagnosed (depth : Nat) (hinitialized : s.initialized = true) (hs : s.Diagnosed) :
    s.execute (printk (write depth)) = .error .endless :=
  execute_endless hs fun mutex _ htext =>
    write_diagnosed (s := { s with printMutex := mutex }) depth hinitialized hs htext

end Diagnostics

/-! ## The bounds check -/

/-- A cell of the screen. -/
def OnScreen (cell : Int × Int) : Prop := 0 ≤ cell.1 ∧ cell.1 < 80 ∧ 0 ≤ cell.2 ∧ cell.2 < 35

/-- The cursor. -/
def cursor (s : FramebufferConsole) : Int × Int := (s.consoleX, s.consoleY)

/-- All cells that have been written are on the screen. -/
def CellsOnScreen (s : FramebufferConsole) : Prop := ∀ cell ∈ s.written, OnScreen cell

/-- The cursor is at most one row below the screen when a line that is too long ends. -/
def RowFits (s : FramebufferConsole) : Prop :=
  s.consoleY + (if 80 ≤ s.consoleX then 1 else 0) ≤ 35

theorem onScreen_screenCells : ∀ cell ∈ screenCells, OnScreen cell := by
  intro cell hcell
  obtain ⟨y, hy, hcell⟩ := List.mem_flatMap.1 hcell
  obtain ⟨x, hx, rfl⟩ := List.mem_map.1 hcell
  rw [List.mem_range] at hx hy
  exact ⟨Int.natCast_nonneg x, Int.ofNat_lt.2 hx, Int.natCast_nonneg y, Int.ofNat_lt.2 hy⟩

variable {s : FramebufferConsole}

theorem CellsOnScreen.append {cells : List (Int × Int)} {s' : FramebufferConsole}
    (hs : s.CellsOnScreen) (hcells : ∀ cell ∈ cells, OnScreen cell)
    (h : s'.written = s.written ++ cells) : s'.CellsOnScreen := by
  intro cell hcell
  rw [h] at hcell
  exact (List.mem_append.1 hcell).elim (hs cell) (hcells cell)

theorem cellsOnScreen_boundsCheck (hs : s.CellsOnScreen) : s.boundsCheck.CellsOnScreen := by
  unfold boundsCheck
  dsimp only
  split_ifs
  all_goals first
    | exact hs
    | exact hs.append onScreen_screenCells rfl

/-- Where the bounds check leaves the cursor, one step of the check after the other. -/
theorem cursor_boundsCheck (s : FramebufferConsole) : ∃ x y row,
    x = (if s.consoleX < 0 then 0 else s.consoleX) ∧ y = (if s.consoleY < 0 then 0 else s.consoleY) ∧
      row = (if x ≥ 80 then int32 (y + 1) else y) ∧
        s.boundsCheck.cursor = (if x ≥ 80 then x % 80 else x, if row ≥ 35 then row - 1 else row) := by
  refine ⟨_, _, _, rfl, rfl, rfl, ?_⟩
  simp only [boundsCheck, cursor, scroll, apply_ite consoleX, apply_ite consoleY, ite_self]

/-- The bounds check brings the cursor back when it is not too far below. -/
theorem onScreen_boundsCheck_iff (hy : s.consoleY < 2147483648) :
    OnScreen s.boundsCheck.cursor ↔ s.RowFits := by
  obtain ⟨x, y, row, hx, hy', hrow, hcursor⟩ := cursor_boundsCheck s
  rw [hcursor, OnScreen, RowFits]
  dsimp only
  unfold int32 at hrow
  split_ifs <;> omega

/-! ## A byte -/

/-- A command moves the cursor at most one row below the screen. -/
def KeepsRow (s : FramebufferConsole) (ch : UInt8) : Prop :=
  s.ansiState = .number →
    (ch = 65 → int32 (s.consoleY - s.distance) ≤ 35) ∧
    (ch = 66 → int32 (s.consoleY + s.distance) ≤ 35) ∧
    (ch = 72 → s.numbers 0 ≠ ansiDefault → int32 (s.numbers 0 - 1).toNat +
      (if s.whichNumber ≠ -1 ∧ 80 ≤ int32 (s.numbers 1 - 1).toNat then 1 else 0) ≤ 35)

instance instDecidableKeepsRow (s : FramebufferConsole) (ch : UInt8) : Decidable (s.KeepsRow ch) :=
  inferInstanceAs (Decidable (_ → _))

theorem keepsRow_of_ne (h : s.ansiState ≠ .number) (ch : UInt8) : s.KeepsRow ch :=
  fun hnumber => absurd hnumber h

theorem keepsRow_of_not_command {ch : UInt8} (hA : ch ≠ 65) (hB : ch ≠ 66) (hH : ch ≠ 72) :
    s.KeepsRow ch :=
  fun _ => ⟨fun h => absurd h hA, fun h => absurd h hB, fun h => absurd h hH⟩

/-- A state between two bytes: the parser has room for the number it is at. -/
structure Valid (s : FramebufferConsole) : Prop where
  initialized : s.initialized = true
  onScreen : OnScreen s.cursor
  notComplete : s.ansiState ≠ .complete
  number : s.ansiState = .number → -1 ≤ s.whichNumber ∧ s.whichNumber < 10
  cells : s.CellsOnScreen

/-- A state before the bounds check. -/
structure Moved (s : FramebufferConsole) : Prop where
  initialized : s.initialized = true
  notComplete : s.ansiState ≠ .complete
  number : s.ansiState = .number → -1 ≤ s.whichNumber ∧ s.whichNumber < 10
  row : s.consoleY < 2147483648
  cells : s.CellsOnScreen

theorem Moved.valid_iff (hs : s.Moved) : s.boundsCheck.Valid ↔ s.RowFits := by
  rw [← onScreen_boundsCheck_iff hs.row]
  obtain ⟨hstate, hwhich⟩ := Prod.mk.inj (parser_boundsCheck s)
  constructor
  · exact Valid.onScreen
  · intro honScreen
    refine ⟨?_, honScreen, ?_, ?_, cellsOnScreen_boundsCheck hs.cells⟩
    · rw [initialized_boundsCheck, hs.initialized]
    · rw [hstate]
      exact hs.notComplete
    · rw [hstate, hwhich]
      exact hs.number

theorem Valid.row (hs : s.Valid) : 0 ≤ s.consoleX ∧ s.consoleX < 80 ∧ 0 ≤ s.consoleY ∧
    s.consoleY < 35 := hs.onScreen

theorem int32_of_mem {n : Int} (hlow : -2147483648 ≤ n) (hhigh : n < 2147483648) :
    int32 n = n := by
  unfold int32
  omega

/-- Moving the cursor leaves the rest as it is. -/
theorem Valid.moved (hs : s.Valid) {x y : Int} (hy : y < 2147483648) :
    ({ s with consoleX := x, consoleY := y } : FramebufferConsole).Moved :=
  ⟨hs.initialized, hs.notComplete, hs.number, hy, hs.cells⟩

theorem rowFits_of_lt {x y : Int} (hx : x < 80) (hy : y ≤ 35) :
    ({ s with consoleX := x, consoleY := y } : FramebufferConsole).RowFits := by
  rw [RowFits, if_neg (Int.not_le.2 hx), Int.add_zero]
  exact hy

theorem rowFits_of_row_lt (hy : s.consoleY < 35) : s.RowFits := by
  unfold RowFits
  split <;> omega

theorem putChar_of_onScreen (hs : OnScreen s.cursor) (ch : UInt8) : ∃ text color,
    s.putChar ch = .ok { s with
      textConsole := text, textColor := color, consoleX := s.consoleX + 1
      written := s.written ++ [s.cursor] } := by
  obtain ⟨hx, hx', hy, hy'⟩ : 0 ≤ s.consoleX ∧ s.consoleX < 80 ∧ 0 ≤ s.consoleY ∧
    s.consoleY < 35 := hs
  have hindex : int32 (s.consoleX + s.consoleY * 80) = s.consoleX + s.consoleY * 80 :=
    int32_of_mem (by omega) (by omega)
  have hrange : 0 ≤ s.consoleX + s.consoleY * 80 ∧ s.consoleX + s.consoleY * 80 < 2800 := by
    omega
  have hright : int32 (s.consoleX + 1) = s.consoleX + 1 := int32_of_mem (by omega) (by omega)
  rw [putChar, hindex, hright]
  rw [if_pos hrange]
  exact ⟨_, _, rfl⟩

/-- A character in `ANSI_STATE_NORMAL` moves the cursor by a row at most. -/
theorem Valid.normal (hs : s.Valid) (ch : UInt8) :
    ∃ s', s.normal ch = .ok s' ∧ s'.Moved ∧ s'.RowFits := by
  obtain ⟨hx, hx', hy, hy'⟩ := hs.row
  have hbig : s.consoleY < 2147483648 := by omega
  rw [FramebufferConsole.normal]
  split_ifs with hreturn hline htab hback hleft hescape
  · exact ⟨_, rfl, hs.moved hbig, rowFits_of_row_lt hy'⟩
  · have hdown : int32 (s.consoleY + 1) = s.consoleY + 1 := int32_of_mem (by omega) (by omega)
    rw [hdown]
    exact ⟨_, rfl, hs.moved (by omega), rowFits_of_lt (by decide) (by omega)⟩
  · exact ⟨_, rfl, hs.moved hbig, rowFits_of_row_lt hy'⟩
  · exact ⟨_, rfl, hs.moved hbig, rowFits_of_row_lt hy'⟩
  · exact ⟨_, rfl, hs.moved hbig, rowFits_of_row_lt hy'⟩
  · refine ⟨_, rfl, ⟨hs.initialized, AnsiState.noConfusion, ?_, hbig, hs.cells⟩,
      rowFits_of_row_lt hy'⟩
    exact fun h => AnsiState.noConfusion h
  · obtain ⟨text, color, hput⟩ := putChar_of_onScreen hs.onScreen ch
    refine ⟨_, hput, ⟨hs.initialized, hs.notComplete, hs.number, hbig, ?_⟩,
      rowFits_of_row_lt hy'⟩
    exact hs.cells.append (List.forall_mem_singleton.2 hs.onScreen) rfl

theorem Valid.escape (hs : s.Valid) (ch : UInt8) :
    (s.escape ch).Moved ∧ (s.escape ch).RowFits := by
  have hrow := hs.row
  have hbig : s.consoleY < 2147483648 := by omega
  rw [FramebufferConsole.escape]
  split
  · refine ⟨⟨hs.initialized, AnsiState.noConfusion, fun _ => ?_, hbig, hs.cells⟩,
      rowFits_of_row_lt hrow.2.2.2⟩
    show (-1 : Int) ≤ -1 ∧ (-1 : Int) < 10
    decide
  · exact ⟨⟨hs.initialized, AnsiState.noConfusion, fun h => AnsiState.noConfusion h, hbig,
      hs.cells⟩, rowFits_of_row_lt hrow.2.2.2⟩

/-! ## A command -/

/-- The state with a command that has just been read. -/
def withCommand (s : FramebufferConsole) (ch : UInt8) : FramebufferConsole :=
  { s with whichNumber := s.whichNumber + 1, ansiCommand := ch, ansiState := .complete }

section Command

variable {p : CString → List Arg → FramebufferConsole → Except Stuck FramebufferConsole}
  {ch : UInt8}

theorem execute_of_command {s' : FramebufferConsole} (hcommand : s.command p = .ok s')
    (hinitialized : s'.initialized = true) (hrow : s'.consoleY < 2147483648)
    (hcells : s'.CellsOnScreen) :
    ∃ s₁, s.execute p = .ok s₁ ∧ s₁.Moved ∧ (s₁.RowFits ↔ s'.RowFits) := by
  rw [execute, hcommand]
  exact ⟨_, rfl, ⟨hinitialized, AnsiState.noConfusion, fun h => AnsiState.noConfusion h, hrow,
    hcells⟩, Iff.rfl⟩

theorem int32_lt (n : Int) : int32 n < 2147483648 := by
  unfold int32
  omega

theorem rowFits_iff {x : Int} (hx : x < 80) (y : Int) :
    ({ s with consoleX := x, consoleY := y } : FramebufferConsole).RowFits ↔ y ≤ 35 := by
  rw [RowFits, if_neg (Int.not_le.2 hx), Int.add_zero]

/-- The loop over the numbers of the command `m` stays inside the array. -/
theorem colorLoop_ok {n c : Nat} (h : c + n ≤ 10) : ∃ s', colorLoop n c s = .ok s' := by
  induction n generalizing c s with
  | zero => exact ⟨s, rfl⟩
  | succ n ih =>
    rw [colorLoop, if_pos (by omega)]
    exact ih (by omega)

/-- A command that moves the cursor. -/
theorem Valid.execute_move (hs : s.Valid) {x y : Int}
    (hcommand : (s.withCommand ch).command p =
      .ok { s.withCommand ch with consoleX := x, consoleY := y })
    (hy : y < 2147483648)
    (hiff : y + (if 80 ≤ x then 1 else 0) ≤ 35 ↔ s.KeepsRow ch) :
    ∃ s', (s.withCommand ch).execute p = .ok s' ∧ s'.Moved ∧ (s'.RowFits ↔ s.KeepsRow ch) := by
  obtain ⟨s', hexecute, hmoved, hfits⟩ := execute_of_command hcommand hs.initialized hy hs.cells
  exact ⟨s', hexecute, hmoved, hfits.trans hiff⟩

theorem keepsRow_up (hstate : s.ansiState = .number) :
    s.KeepsRow 65 ↔ int32 (s.consoleY - s.distance) ≤ 35 :=
  ⟨fun h => (h hstate).1 rfl,
    fun h _ => ⟨fun _ => h, fun h => absurd h (by decide), fun h => absurd h (by decide)⟩⟩

theorem keepsRow_down (hstate : s.ansiState = .number) :
    s.KeepsRow 66 ↔ int32 (s.consoleY + s.distance) ≤ 35 :=
  ⟨fun h => (h hstate).2.1 rfl,
    fun h _ => ⟨fun h => absurd h (by decide), fun _ => h, fun h => absurd h (by decide)⟩⟩

theorem keepsRow_goto (hstate : s.ansiState = .number) (hnumber : s.numbers 0 ≠ ansiDefault) :
    s.KeepsRow 72 ↔ int32 (s.numbers 0 - 1).toNat +
      (if s.whichNumber ≠ -1 ∧ 80 ≤ int32 (s.numbers 1 - 1).toNat then 1 else 0) ≤ 35 :=
  ⟨fun h => (h hstate).2.2 rfl hnumber,
    fun h _ => ⟨fun h => absurd h (by decide), fun h => absurd h (by decide), fun _ _ => h⟩⟩

/-- A command without a diagnostic is done. The bounds check copes with the cursor when the command
keeps the row. -/
theorem Valid.command (hs : s.Valid) (hstate : s.ansiState = .number)
    (hdiagnosed : ¬ (s.withCommand ch).Diagnosed) :
    ∃ s', (s.withCommand ch).execute p = .ok s' ∧ s'.Moved ∧ (s'.RowFits ↔ s.KeepsRow ch) := by
  obtain ⟨hx, hx', hy, hy'⟩ := hs.row
  have hbig : s.consoleY < 2147483648 := by omega
  have hright : ¬ 80 ≤ s.consoleX := Int.not_le.2 hx'
  have hside (x : Int) : s.consoleY + (if 80 ≤ x then 1 else 0) ≤ 35 := by
    split <;> omega
  by_cases hA : ch = 65
  · refine hs.execute_move (if_pos hA) (int32_lt _) ?_
    rw [hA, keepsRow_up hstate]
    exact rowFits_iff (s := s) hx' _
  by_cases hB : ch = 66
  · refine hs.execute_move ((if_neg hA).trans (if_pos hB)) (int32_lt _) ?_
    rw [hB, keepsRow_down hstate]
    exact rowFits_iff (s := s) hx' _
  by_cases hC : ch = 67
  · exact hs.execute_move ((if_neg hA).trans ((if_neg hB).trans (if_pos hC))) hbig
      (iff_of_true (hside _) (keepsRow_of_not_command hA hB (by rw [hC]; decide)))
  by_cases hD : ch = 68
  · exact hs.execute_move ((if_neg hA).trans ((if_neg hB).trans ((if_neg hC).trans (if_pos hD))))
      hbig (iff_of_true (hside _) (keepsRow_of_not_command hA hB (by rw [hD]; decide)))
  by_cases hH : ch = 72
  · have hgoto : (s.withCommand ch).command p = .ok (s.withCommand ch).gotoXY :=
      (if_neg hA).trans ((if_neg hB).trans ((if_neg hC).trans ((if_neg hD).trans (if_pos hH))))
    by_cases hdefault : s.numbers 0 = ansiDefault
    · refine hs.execute_move (hgoto.trans (congrArg _ (if_pos hdefault))) (by decide) ?_
      rw [hH]
      exact iff_of_true (by decide) fun _ =>
        ⟨fun h => absurd h (by decide), fun h => absurd h (by decide), fun _ h => absurd hdefault h⟩
    · by_cases hfirst : s.whichNumber + 1 = 0
      · refine hs.execute_move (hgoto.trans (congrArg _
          ((if_neg hdefault).trans (if_pos hfirst)))) (int32_lt _) ?_
        have hnot : ¬ (s.whichNumber ≠ -1 ∧ 80 ≤ int32 (s.numbers 1 - 1).toNat) :=
          fun h => h.1 (by omega)
        rw [hH, keepsRow_goto hstate hdefault, if_neg hnot]
        show int32 (s.numbers 0 - 1).toNat + (if 80 ≤ s.consoleX then 1 else 0) ≤ 35 ↔ _
        rw [if_neg hright]
      · refine hs.execute_move (hgoto.trans (congrArg _
          ((if_neg hdefault).trans (if_neg hfirst)))) (int32_lt _) ?_
        have hwhich : s.whichNumber ≠ -1 := by omega
        rw [hH, keepsRow_goto hstate hdefault]
        simp only [hwhich, ne_eq, not_false_eq_true, true_and]
        rfl
  have hkeeps : s.KeepsRow ch := keepsRow_of_not_command hA hB hH
  by_cases hJ : ch = 74
  · have hclear : s.numbers 0 = 2 := by
      by_contra hclear
      exact hdiagnosed ⟨rfl, .inl ⟨hJ, hclear⟩⟩
    have hcommand : (s.withCommand ch).command p = .ok (s.withCommand ch).clear.home :=
      (if_neg hA).trans ((if_neg hB).trans ((if_neg hC).trans ((if_neg hD).trans ((if_neg hH).trans
        ((if_pos hJ).trans (if_pos hclear))))))
    obtain ⟨s', hexecute, hmoved, hfits⟩ := execute_of_command hcommand hs.initialized
      (show (0 : Int) < 2147483648 by decide) (hs.cells.append onScreen_screenCells rfl)
    exact ⟨s', hexecute, hmoved, hfits.trans (iff_of_true
      (show (0 : Int) + (if 80 ≤ (0 : Int) then 1 else 0) ≤ 35 by decide) hkeeps)⟩
  by_cases hm : ch = 109
  · have hcommand : (s.withCommand ch).command p =
        colorLoop (s.whichNumber + 1).toNat 0 (s.withCommand ch) :=
      (if_neg hA).trans ((if_neg hB).trans ((if_neg hC).trans ((if_neg hD).trans ((if_neg hH).trans
        ((if_neg hJ).trans (if_pos hm))))))
    obtain ⟨s₁, hloop⟩ := colorLoop_ok (s := s.withCommand ch) (n := (s.whichNumber + 1).toNat)
      (c := 0) (by have := hs.number hstate; omega)
    obtain ⟨fore, back, bright, rfl⟩ := colorLoop_spec hloop
    obtain ⟨s', hexecute, hmoved, hfits⟩ := execute_of_command (hcommand.trans hloop)
      hs.initialized hbig hs.cells
    exact ⟨s', hexecute, hmoved, hfits.trans (iff_of_true (hside s.consoleX) hkeeps)⟩
  · refine absurd ⟨rfl, .inr ?_⟩ hdiagnosed
    show ch ∉ ([65, 66, 67, 68, 72, 74, 109] : List UInt8)
    simp only [List.mem_cons, List.not_mem_nil, or_false, not_or]
    exact ⟨hA, hB, hC, hD, hH, hJ, hm⟩

end Command

/-! ## A byte, a buffer, a call -/

/-- A call may be endless, but does not access memory outside the arrays; when it returns, the
state is as `P` says. -/
def Sound {α : Type} (P : α → Prop) : Except Stuck α → Prop
  | .ok a => P a
  | .error e => e = .endless

theorem Sound.map {α β : Type} {P : α → Prop} {Q : β → Prop} {r : Except Stuck α} {f : α → β}
    (h : Sound P r) (hf : ∀ a, P a → Q (f a)) : Sound Q (r.map f) := by
  cases r with
  | error e => exact h
  | ok a => exact hf a h

/-- What the bytes rely on when a diagnostic is printed. -/
structure PrintsSound
    (p : CString → List Arg → FramebufferConsole → Except Stuck FramebufferConsole) : Prop where
  tooMany : ∀ s : FramebufferConsole, s.Valid → s.ansiState = .normal →
    Sound Valid (p tooManyText [] s)
  diagnosed : ∀ s : FramebufferConsole, s.initialized = true → s.Diagnosed →
    s.execute p = .error .endless

/-- All bytes that are reached keep the row. -/
def KeepsRows (p : CString → List Arg → FramebufferConsole → Except Stuck FramebufferConsole) :
    FramebufferConsole → List UInt8 → Prop
  | _, [] => True
  | s, ch :: buffer =>
      s.KeepsRow ch ∧ ∀ s', s.step p ch = .ok (false, s') → KeepsRows p s' buffer

/-- The bytes are followed as far as the loop gets. -/
instance instDecidableKeepsRows
    (p : CString → List Arg → FramebufferConsole → Except Stuck FramebufferConsole) :
    (s : FramebufferConsole) → (buffer : List UInt8) → Decidable (KeepsRows p s buffer)
  | _, [] => isTrue trivial
  | s, ch :: buffer =>
      match hstep : s.step p ch with
      | .ok (false, s') =>
          have : Decidable (KeepsRows p s' buffer) := instDecidableKeepsRows p s' buffer
          decidable_of_iff (s.KeepsRow ch ∧ KeepsRows p s' buffer)
            ⟨fun h => ⟨h.1, fun s'' h' => by rw [hstep] at h'; cases h'; exact h.2⟩,
              fun h => ⟨h.1, h.2 s' hstep⟩⟩
      | .ok (true, s') =>
          decidable_of_iff (s.KeepsRow ch)
            ⟨fun h => ⟨h, fun s'' h' => by rw [hstep] at h'; cases h'⟩, fun h => h.1⟩
      | .error e =>
          decidable_of_iff (s.KeepsRow ch)
            ⟨fun h => ⟨h, fun s'' h' => by rw [hstep] at h'; cases h'⟩, fun h => h.1⟩

section Bytes

variable {p : CString → List Arg → FramebufferConsole → Except Stuck FramebufferConsole}
  {ch : UInt8}

/-- A number that the parser stores. -/
theorem Valid.setNumber (hs : s.Valid) {n : Int} (hn : 0 ≤ n ∧ n < 10)
    (hstate : s.ansiState = .number) (numbers : Nat → UInt32) (v : UInt32) :
    ∃ s', ({ s with whichNumber := n, numbers := numbers } : FramebufferConsole).setNumber v =
      .ok s' ∧ s'.Moved ∧ s'.RowFits ∧ s'.ansiState = .number := by
  have hrow := hs.row
  rw [FramebufferConsole.setNumber, if_pos hn]
  refine ⟨_, rfl, ⟨hs.initialized, hs.notComplete, fun _ => ⟨?_, hn.2⟩, ?_, hs.cells⟩,
    rowFits_of_row_lt hrow.2.2.2, hstate⟩
  · exact Int.le_trans (by decide) hn.1
  · exact Int.lt_trans hrow.2.2.2 (by decide)

/-- A byte between the digits leaves the parser there, or is a command, or is one too many. -/
theorem Valid.parse_number (hs : s.Valid) (hp : PrintsSound p) (hstate : s.ansiState = .number)
    (ch : UInt8) :
    (∃ s', s.number p ch = .ok (false, s') ∧ s'.Moved ∧ s'.RowFits ∧ s.KeepsRow ch) ∨
      s.number p ch = .ok (false, s.withCommand ch) ∨
      Sound (fun r => r.1 = true ∧ r.2.Valid) (s.number p ch) := by
  obtain ⟨hlow, hhigh⟩ := hs.number hstate
  have hnext : int32 (s.whichNumber + 1) = s.whichNumber + 1 :=
    int32_of_mem (by omega) (by omega)
  rw [FramebufferConsole.number, hnext]
  by_cases hdigit : ch < 48 ∨ 57 < ch
  · rw [if_pos hdigit]
    by_cases hsemicolon : ch = 59
    · rw [if_pos hsemicolon]
      dsimp only
      by_cases hmany : s.whichNumber + 1 = 10
      · rw [if_pos hmany]
        refine .inr (.inr ((hp.tooMany _ ?_ rfl).map fun s' hs' => ⟨rfl, hs'⟩))
        exact ⟨hs.initialized, hs.onScreen, AnsiState.noConfusion,
          fun h => AnsiState.noConfusion h, hs.cells⟩
      · rw [if_neg hmany]
        obtain ⟨s', hset, hmoved, hfits, -⟩ :=
          hs.setNumber (n := s.whichNumber + 1) (by omega) hstate s.numbers 0
        refine .inl ⟨s', ?_, hmoved, hfits, ?_⟩
        · rw [hset]
          rfl
        · rw [hsemicolon]
          exact keepsRow_of_not_command (by decide) (by decide) (by decide)
    · rw [if_neg hsemicolon]
      exact .inr (.inl rfl)
  · rw [if_neg hdigit]
    dsimp only
    obtain ⟨n, numbers, hn, hfirst⟩ : ∃ n numbers, (0 ≤ n ∧ n < 10) ∧
        (if s.whichNumber = -1 then
          { s with whichNumber := 0, numbers := Function.update s.numbers 0 0 }
        else s) = { s with whichNumber := n, numbers := numbers } := by
      split
      · exact ⟨0, _, by decide, rfl⟩
      · exact ⟨s.whichNumber, s.numbers, by omega, rfl⟩
    rw [hfirst]
    obtain ⟨s', hset, hmoved, hfits, -⟩ := hs.setNumber hn hstate numbers
      (numbers n.toNat * 10 + (ch.toUInt32 - 48))
    refine .inl ⟨s', ?_, hmoved, hfits, ?_⟩
    · rw [hset]
      rfl
    · refine keepsRow_of_not_command ?_ ?_ ?_
      all_goals
        rintro rfl
        exact hdigit (by decide)

/-- A byte keeps the state valid exactly when it keeps the row. -/
theorem step_sound (hp : PrintsSound p) (hs : s.Valid) (ch : UInt8) :
    Sound (fun r => if r.1 then r.2.Valid else (r.2.Valid ↔ s.KeepsRow ch)) (s.step p ch) := by
  rw [step, parse]
  cases hstate : s.ansiState with
  | normal =>
    obtain ⟨s', hnormal, hmoved, hfits⟩ := hs.normal ch
    simp only [hnormal, Except.map]
    rw [if_neg hmoved.notComplete]
    refine iff_of_true (hmoved.valid_iff.2 hfits) (keepsRow_of_ne ?_ ch)
    rw [hstate]
    exact AnsiState.noConfusion
  | escape =>
    obtain ⟨hmoved, hfits⟩ := hs.escape ch
    dsimp only
    rw [if_neg hmoved.notComplete]
    refine iff_of_true (hmoved.valid_iff.2 hfits) (keepsRow_of_ne ?_ ch)
    rw [hstate]
    exact AnsiState.noConfusion
  | number =>
    dsimp only
    rcases hs.parse_number hp hstate ch with ⟨s', hnumber, hmoved, hfits, hkeeps⟩ |
      hcommand | hmany
    · rw [hnumber]
      dsimp only
      rw [if_neg hmoved.notComplete]
      exact iff_of_true (hmoved.valid_iff.2 hfits) hkeeps
    · have hcomplete : (s.withCommand ch).ansiState = .complete := rfl
      rw [hcommand]
      dsimp only
      rw [if_pos hcomplete]
      by_cases hdiagnosed : (s.withCommand ch).Diagnosed
      · rw [hp.diagnosed (s.withCommand ch) hs.initialized hdiagnosed]
        rfl
      · obtain ⟨s', hexecute, hmoved, hiff⟩ := hs.command (p := p) hstate hdiagnosed
        rw [hexecute]
        exact hmoved.valid_iff.trans hiff
    · cases hnumber : s.number p ch with
      | error e =>
        rw [hnumber] at hmany
        exact hmany
      | ok r =>
        rw [hnumber] at hmany
        obtain ⟨stop, s'⟩ := r
        obtain ⟨rfl, hvalid⟩ := hmany
        exact hvalid
  | complete => exact absurd hstate hs.notComplete

/-- A buffer whose bytes keep the row leaves a valid state. -/
theorem writeLoop_sound (hp : PrintsSound p) {buffer : List UInt8} (hs : s.Valid)
    (hbuffer : buffer ≠ []) (hkeeps : KeepsRows p s buffer) :
    Sound (fun r => r.2.Valid) (s.writeLoop p buffer) := by
  induction buffer generalizing s with
  | nil => exact absurd rfl hbuffer
  | cons ch buffer ih =>
    have hstep := step_sound hp hs ch
    rw [writeLoop]
    cases h : s.step p ch with
    | error e =>
      rw [h] at hstep
      exact hstep
    | ok r =>
      obtain ⟨stop, s'⟩ := r
      rw [h] at hstep
      cases stop with
      | true => exact hstep
      | false =>
        have hvalid : s'.Valid := Iff.mpr hstep hkeeps.1
        dsimp only
        split
        · exact hvalid
        · rename_i hrest
          exact ih hvalid hrest (hkeeps.2 s' h)

/-- Characters without an escape keep the row. -/
theorem keepsRows_of_plain (hp : KeepsInitialized p) {buffer : List UInt8}
    (hplain : 27 ∉ buffer) (hstate : s.ansiState = .normal) : KeepsRows p s buffer := by
  induction buffer generalizing s with
  | nil => trivial
  | cons ch buffer ih =>
    obtain ⟨hch, hrest⟩ := not_or.1 fun h => hplain (List.mem_cons.2 h)
    refine ⟨keepsRow_of_ne (by rw [hstate]; exact AnsiState.noConfusion) ch,
      fun s' hstep => ih hrest ?_⟩
    have hnext := (step_spec hp hstep).2
    rw [parser, hstate, parserNext, if_neg (Ne.symm hch)] at hnext
    exact (congrArg Prod.fst (Option.some.inj hnext)).symm

end Bytes

theorem sound_consoleWrite
    {write : FramebufferConsole → List UInt8 → Except Stuck (Int × FramebufferConsole)}
    {buf : List UInt8}
    (h : ∀ mutex, Sound (fun r => r.2.Valid) (write { s with printMutex := mutex } buf)) :
    Sound Valid (consoleWrite write buf s) := by
  rw [consoleWrite]
  split_ifs with hlocking hmutex
  · rfl
  · exact (h true).map fun r hr => ⟨hr.initialized, hr.onScreen, hr.notComplete, hr.number, hr.cells⟩
  · exact (h s.printMutex).map fun r hr => hr

/-- The console at any depth prints the diagnostics as the bytes rely on. -/
theorem printsSound (depth : Nat) : PrintsSound (printk (write depth)) := by
  induction depth with
  | zero =>
    refine ⟨fun s hs _ => ?_, fun s => execute_diagnosed 0⟩
    rw [printk_tooMany]
    refine sound_consoleWrite fun mutex => ?_
    rw [write.eq_def, if_pos hs.initialized]
    rfl
  | succ depth ih =>
    refine ⟨fun s hs hstate => ?_, fun s => execute_diagnosed (depth + 1)⟩
    rw [printk_tooMany]
    refine sound_consoleWrite fun mutex => ?_
    have hs' : ({ s with printMutex := mutex } : FramebufferConsole).Valid :=
      ⟨hs.initialized, hs.onScreen, hs.notComplete, hs.number, hs.cells⟩
    rw [write_of_initialized hs'.initialized]
    refine (writeLoop_sound ih hs' (by decide) ?_).map fun r hr => hr
    exact keepsRows_of_plain (keepsInitialized_printk depth) (by decide) hstate

/-- A call whose bytes keep the row leaves a valid state. -/
theorem write_sound (depth : Nat) {buffer : List UInt8} (hs : s.Valid) (hbuffer : buffer ≠ [])
    (hkeeps : KeepsRows (printk (write depth)) s buffer) :
    Sound (fun r => r.2.Valid) (write (depth + 1) s buffer) := by
  rw [write_of_initialized hs.initialized]
  exact (writeLoop_sound (printsSound depth) hs hbuffer hkeeps).map fun r hr => hr

/-! ## Runs -/

/-- The console behind `framebuffer_console_init`, with the lock of `console_write` in any state. -/
def start (lockingEnabled printMutex : Bool) : FramebufferConsole :=
  { boot.init with lockingEnabled, printMutex }

theorem valid_start (lockingEnabled printMutex : Bool) :
    (start lockingEnabled printMutex).Valid where
  initialized := rfl
  onScreen := by
    show (0 : Int) ≤ 0 ∧ (0 : Int) < 80 ∧ (0 : Int) ≤ 0 ∧ (0 : Int) < 35
    decide
  notComplete := AnsiState.noConfusion
  number := fun h => AnsiState.noConfusion h
  cells := onScreen_screenCells

/-- In a run of calls no array is left, and behind every call the cursor is on the screen, as are
all cells that have been written. -/
def StaysOnScreen (depth : Nat) (s : FramebufferConsole) (calls : List (List UInt8)) : Prop :=
  (∀ e, run (write depth) s calls = .error e → e = .endless) ∧
    Throughout (write depth) (fun _ _ _ s' => OnScreen s'.cursor ∧ s'.CellsOnScreen) s calls

/-- A run whose commands keep the row stays on the screen. -/
theorem staysOnScreen_of_keepsRows (depth : Nat) (lockingEnabled printMutex : Bool)
    (calls : List (List UInt8)) (hcalls : ∀ buffer ∈ calls, buffer ≠ [])
    (hkeeps : Along (write (depth + 1)) (KeepsRows (printk (write depth)))
      (start lockingEnabled printMutex) calls) :
    StaysOnScreen (depth + 1) (start lockingEnabled printMutex) calls := by
  have hvalid := valid_start lockingEnabled printMutex
  generalize start lockingEnabled printMutex = s at hvalid hkeeps ⊢
  induction calls generalizing s with
  | nil =>
    refine ⟨fun e h => ?_, trivial⟩
    cases h
  | cons buffer calls ih =>
    obtain ⟨hbuffer, hrest⟩ := List.forall_mem_cons.1 hcalls
    have hwrite := write_sound depth hvalid hbuffer hkeeps.1
    constructor
    · intro e herror
      rw [run] at herror
      cases h : write (depth + 1) s buffer with
      | error e' =>
        rw [h] at herror hwrite
        obtain rfl := Except.error.inj herror
        exact hwrite
      | ok r =>
        obtain ⟨result, s'⟩ := r
        rw [h] at herror hwrite
        have hsound := (ih hrest s' hwrite (hkeeps.2 _ _ h)).1
        dsimp only at herror
        split at herror
        · rename_i e' hrun
          obtain rfl := Except.error.inj herror
          exact hsound _ hrun
        · cases herror
    · intro result s' h
      rw [h] at hwrite
      exact ⟨⟨hwrite.onScreen, hwrite.cells⟩, (ih hrest s' hwrite (hkeeps.2 _ _ h)).2⟩

/-- Two lines and a command that goes down by two rows. -/
theorem staysOnScreen_down : StaysOnScreen 2 (start false false)
    [[104, 105, 10], [27, 91, 50], [66, 33]] :=
  staysOnScreen_of_keepsRows 1 false false [[104, 105, 10], [27, 91, 50], [66, 33]]
    (by decide) (by decide +kernel)

/-- The command that goes down by 50 rows leaves the cursor in row 49. -/
theorem not_staysOnScreen :
    ¬ StaysOnScreen 1 (start false false) [[27, 91, 53, 48, 66]] := by
  intro h
  have hrow : ((write 1 (start false false) [27, 91, 53, 48, 66]).toOption.map
      fun r => r.2.consoleY) = some 49 := by decide +kernel
  cases hwrite : write 1 (start false false) [27, 91, 53, 48, 66] with
  | error e =>
    rw [hwrite] at hrow
    cases hrow
  | ok r =>
    rw [hwrite] at hrow
    have hin : r.2.consoleY < 35 := (h.2 r.1 r.2 hwrite).1.1.2.2.2
    have heq : r.2.consoleY = 49 := Option.some.inj hrow
    rw [heq] at hin
    exact absurd hin (by decide)

end Vmwos.FramebufferConsole
