import Vmwos.Lib.Base
import Vmwos.Library.Buffer

/-!
# The text editor

`userspace/nano.c` keeps the lines of a file in an array of rows. A row owns three buffers: its
characters, what they are rendered to, and the highlighting. A pointer to a row is its index in
the array, of which the first `numrows` rows are in use; the bytes of a string that is passed are
those it points to. No syntax highlighting is selected, and every allocation succeeds. What a new
block of memory holds is `junk`.
-/

set_option autoImplicit false

namespace Vmwos

open Library

namespace Nano

def nanoTabStop : Nat := 8

def hlNormal : UInt8 := 0

/-- `struct editor_row` -/
structure EditorRow where
  idx : Int
  size : Nat
  rsize : Nat
  chars : List UInt8
  render : List UInt8
  hl : List UInt8
  hlOpenComment : Int

/-- A row of the array that is not in use. -/
def EditorRow.unused : EditorRow := ⟨0, 0, 0, [], [], [], 0⟩

/-- `struct editor_config`. The array is empty when it has not been allocated. -/
structure EditorConfig where
  screenrows : Int
  screencols : Int
  cx : Int
  cy : Int
  rx : Int
  rowoff : Int
  coloff : Int
  numrows : Nat
  row : List EditorRow
  dirty : Nat

/-- An access to memory. -/
def access {α : Type} : Option α → Except Stuck α
  | none => .error .badAccess
  | some a => .ok a

/-- The row a pointer is to. -/
def EditorConfig.rowAt (s : EditorConfig) (y : Int) : Except Stuck EditorRow :=
  if 0 ≤ y ∧ y < s.numrows then access s.row[y.toNat]? else .error .badAccess

/-- Store the row a pointer is to. -/
def EditorConfig.setRow (s : EditorConfig) (y : Int) (row : EditorRow) :
    Except Stuck EditorConfig :=
  if 0 ≤ y ∧ y < s.numrows then .ok { s with row := s.row.set y.toNat row }
  else .error .badAccess

/-! ## Rendering -/

/-- The inner loop of `editor_update_row`, for the rest of a tab. -/
def padToTabStop : Nat → List UInt8 → Nat → Except Stuck (List UInt8 × Nat)
  | 0, _, _ => .error .endless
  | fuel + 1, render, idx =>
      if idx % nanoTabStop ≠ 0 then do
        let render ← access (Buffer.store render idx [0x20])
        padToTabStop fuel render (idx + 1)
      else .ok (render, idx)

/-- The second loop of `editor_update_row`, over the characters. -/
def renderLoop : List UInt8 → List UInt8 → Nat → Except Stuck (List UInt8 × Nat)
  | [], render, idx => .ok (render, idx)
  | c :: chars, render, idx =>
      if c = 0x09 then do
        let render ← access (Buffer.store render idx [0x20])
        let (render, idx) ← padToTabStop nanoTabStop render (idx + 1)
        renderLoop chars render idx
      else do
        let render ← access (Buffer.store render idx [c])
        renderLoop chars render (idx + 1)

section Rows

variable (junk : Nat → UInt8)

/-- `editor_update_syntax` -/
def editorUpdateSyntax (row : EditorRow) : Except Stuck EditorRow := do
  let hl := Buffer.grow junk row.hl row.rsize
  let hl ← access (Buffer.store hl 0 (List.replicate row.rsize hlNormal))
  .ok { row with hl := hl }

/-- `editor_update_row` -/
def editorUpdateRow (row : EditorRow) : Except Stuck EditorRow := do
  let chars ← access (Buffer.load row.chars 0 row.size)
  let tabs := chars.count 0x09
  let render := Buffer.alloc junk (row.size + tabs * (nanoTabStop - 1) + 1)
  let (render, idx) ← renderLoop chars render 0
  let render ← access (Buffer.store render idx [0])
  editorUpdateSyntax junk { row with render := render, rsize := idx }

/-- `editor_insert_row` -/
def editorInsertRow (s : EditorConfig) («at» : Int) (str : List UInt8) :
    Except Stuck EditorConfig :=
  if «at» < 0 ∨ «at» > s.numrows then .ok s
  else do
    let k := «at».toNat
    let array := Buffer.grow (fun _ => EditorRow.unused) s.row (s.numrows + 1)
    let array ← access (Buffer.move array (k + 1) k (s.numrows - k))
    -- the loop over `idx++`
    let moved ← access (Buffer.load array (k + 1) (s.numrows - k))
    let array ← access
      (Buffer.store array (k + 1) (moved.map fun row => { row with idx := row.idx + 1 }))
    let chars ← access (Buffer.store (Buffer.alloc junk (str.length + 1)) 0 str)
    let chars ← access (Buffer.store chars str.length [0])
    let row ← editorUpdateRow junk
      { idx := «at», size := str.length, chars := chars, rsize := 0, render := [], hl := [],
        hlOpenComment := 0 }
    let array ← access (Buffer.store array k [row])
    .ok { s with row := array, numrows := s.numrows + 1, dirty := s.dirty + 1 }

/-- `editor_delete_row` -/
def editorDeleteRow (s : EditorConfig) («at» : Int) : Except Stuck EditorConfig :=
  if «at» < 0 ∨ «at» ≥ s.numrows then .ok s
  else do
    let k := «at».toNat
    let array ← access (Buffer.move s.row k (k + 1) (s.numrows - k - 1))
    -- the loop over `idx--`
    let moved ← access (Buffer.load array k (s.numrows - k - 1))
    let array ← access
      (Buffer.store array k (moved.map fun row => { row with idx := row.idx - 1 }))
    .ok { s with row := array, numrows := s.numrows - 1, dirty := s.dirty + 1 }

/-- `editor_row_insert_char` -/
def editorRowInsertChar (s : EditorConfig) (y «at» : Int) (c : Nat) :
    Except Stuck EditorConfig := do
  let row ← s.rowAt y
  let k := if «at» < 0 ∨ «at» > row.size then row.size else «at».toNat
  let chars := Buffer.grow junk row.chars (row.size + 2)
  let chars ← access (Buffer.move chars (k + 1) k (row.size - k + 1))
  let chars ← access (Buffer.store chars k [UInt8.ofNat c])
  let row ← editorUpdateRow junk { row with chars := chars, size := row.size + 1 }
  let s ← s.setRow y row
  .ok { s with dirty := s.dirty + 1 }

/-- `editor_row_append_string` -/
def editorRowAppendString (s : EditorConfig) (y : Int) (str : List UInt8) :
    Except Stuck EditorConfig := do
  let row ← s.rowAt y
  let chars := Buffer.grow junk row.chars (row.size + str.length + 1)
  let chars ← access (Buffer.store chars row.size str)
  let chars ← access (Buffer.store chars (row.size + str.length) [0])
  let row ← editorUpdateRow junk { row with chars := chars, size := row.size + str.length }
  let s ← s.setRow y row
  .ok { s with dirty := s.dirty + 1 }

/-- `editor_row_delete_char` -/
def editorRowDeleteChar (s : EditorConfig) (y «at» : Int) : Except Stuck EditorConfig := do
  let row ← s.rowAt y
  if «at» < 0 ∨ «at» ≥ row.size then .ok s
  else
    let k := «at».toNat
    let chars ← access (Buffer.move row.chars k (k + 1) (row.size - k))
    let row ← editorUpdateRow junk { row with chars := chars, size := row.size - 1 }
    let s ← s.setRow y row
    .ok { s with dirty := s.dirty + 1 }

/-! ## Editing at the cursor -/

/-- `editor_insert_char` -/
def editorInsertChar (s : EditorConfig) (c : Nat) : Except Stuck EditorConfig := do
  let s ← if s.cy = s.numrows then editorInsertRow junk s s.numrows [] else .ok s
  let s ← editorRowInsertChar junk s s.cy s.cx c
  .ok { s with cx := s.cx + 1 }

/-- `editor_insert_newline`. The length of what is right of the cursor is a `size_t`: right of
the end of the row, no buffer holds as many characters. -/
def editorInsertNewline (s : EditorConfig) : Except Stuck EditorConfig := do
  let s ←
    if s.cx = 0 then editorInsertRow junk s s.cy []
    else do
      let row ← s.rowAt s.cy
      if s.cx < 0 ∨ s.cx > row.size then .error .badAccess
      else
        let rest ← access (Buffer.load row.chars s.cx.toNat (row.size - s.cx.toNat))
        let s ← editorInsertRow junk s (s.cy + 1) rest
        let row ← s.rowAt s.cy
        let chars ← access (Buffer.store row.chars s.cx.toNat [0])
        let row ← editorUpdateRow junk { row with chars := chars, size := s.cx.toNat }
        s.setRow s.cy row
  .ok { s with cy := s.cy + 1, cx := 0 }

/-- `editor_delete_char` -/
def editorDeleteChar (s : EditorConfig) : Except Stuck EditorConfig :=
  if s.cy = s.numrows then .ok s
  else if s.cx = 0 ∧ s.cy = 0 then .ok s
  else do
    let row ← s.rowAt s.cy
    if s.cx > 0 then
      let s ← editorRowDeleteChar junk s s.cy (s.cx - 1)
      .ok { s with cx := s.cx - 1 }
    else
      let above ← s.rowAt (s.cy - 1)
      let s := { s with cx := above.size }
      let str ← access (Buffer.load row.chars 0 row.size)
      let s ← editorRowAppendString junk s (s.cy - 1) str
      let s ← editorDeleteRow s s.cy
      .ok { s with cy := s.cy - 1 }

/-! ## The text as one string -/

/-- The second loop of `editor_rows_to_string`. -/
def copyRows : List EditorRow → List UInt8 → Nat → Except Stuck (List UInt8)
  | [], buf, _ => .ok buf
  | row :: rows, buf, p => do
      let chars ← access (Buffer.load row.chars 0 row.size)
      let buf ← access (Buffer.store buf p chars)
      let buf ← access (Buffer.store buf (p + row.size) [0x0a])
      copyRows rows buf (p + row.size + 1)

/-- `editor_rows_to_string`: the buffer and its length. -/
def editorRowsToString (s : EditorConfig) : Except Stuck (List UInt8 × Nat) := do
  let rows ← access (Buffer.load s.row 0 s.numrows)
  let totlen := (rows.map fun row => row.size + 1).sum
  let buf ← copyRows rows (Buffer.alloc junk totlen) 0
  .ok (buf, totlen)

/-- The loop of `editor_open` over the lines of a file. -/
def editorOpen : EditorConfig → List (List UInt8) → Except Stuck EditorConfig
  | s, [] => .ok { s with dirty := 0 }
  | s, line :: lines => do
      let s ← editorInsertRow junk s s.numrows line
      editorOpen s lines

end Rows

/-! ## The cursor -/

/-- The arrow keys. -/
inductive Arrow where
  | left
  | right
  | up
  | down
  deriving DecidableEq

/-- The switch of `editor_move_cursor`. The pointer `row` is NULL below the array, and for the
first row when there is no array; the row past the last one is no exception. -/
def moveArrow (s : EditorConfig) : Arrow → Except Stuck EditorConfig
  | .left =>
      if s.cx ≠ 0 then .ok { s with cx := s.cx - 1 }
      else if s.cy > 0 then do
        let row ← s.rowAt (s.cy - 1)
        .ok { s with cy := s.cy - 1, cx := row.size }
      else .ok s
  | .right =>
      if s.cy > s.numrows ∨ s.row.isEmpty then .ok s
      else do
        let row ← s.rowAt s.cy
        if s.cx < row.size then .ok { s with cx := s.cx + 1 }
        else if s.cx = row.size then .ok { s with cy := s.cy + 1, cx := 0 }
        else .ok s
  | .up => if s.cy ≠ 0 then .ok { s with cy := s.cy - 1 } else .ok s
  | .down => if s.cy < s.numrows then .ok { s with cy := s.cy + 1 } else .ok s

/-- The end of `editor_move_cursor`: not right of the end of the row. -/
def clampCursor (s : EditorConfig) : Except Stuck EditorConfig := do
  let rowlen ←
    if s.cy ≥ s.numrows then .ok 0
    else do
      let row ← s.rowAt s.cy
      .ok row.size
  if s.cx > rowlen then .ok { s with cx := rowlen } else .ok s

/-- `editor_move_cursor` -/
def editorMoveCursor (s : EditorConfig) (key : Arrow) : Except Stuck EditorConfig := do
  let s ← moveArrow s key
  clampCursor s

/-- The loop of `editor_row_cx_to_rx` over the characters left of the cursor. -/
def cxToRxLoop : List UInt8 → Nat → Nat
  | [], rx => rx
  | c :: chars, rx =>
      let rx := if c = 0x09 then rx + (nanoTabStop - 1 - rx % nanoTabStop) else rx
      cxToRxLoop chars (rx + 1)

/-- `editor_row_cx_to_rx` -/
def editorRowCxToRx (row : EditorRow) (cx : Int) : Except Stuck Int := do
  let chars ← access (Buffer.load row.chars 0 cx.toNat)
  .ok (cxToRxLoop chars 0)

/-- The beginning of `editor_scroll`: the column of the cursor on the screen. -/
def cursorColumn (s : EditorConfig) : Except Stuck Int :=
  if s.cy < s.numrows then do
    let row ← s.rowAt s.cy
    editorRowCxToRx row s.cx
  else .ok 0

/-- `editor_scroll` -/
def editorScroll (s : EditorConfig) : Except Stuck EditorConfig := do
  let rx ← cursorColumn s
  let rowoff := if s.cy < s.rowoff then s.cy else s.rowoff
  let rowoff := if s.cy ≥ rowoff + s.screenrows then s.cy - s.screenrows + 1 else rowoff
  let coloff := if rx < s.coloff then rx else s.coloff
  let coloff := if rx ≥ coloff + s.screencols then rx - s.screencols + 1 else coloff
  .ok { s with rx := rx, rowoff := rowoff, coloff := coloff }

/-! ## Keys -/

/-- The keys that move the cursor or change the text. -/
inductive EditorKey where
  | enter
  | home
  | «end»
  | backspace
  | delete
  | pageUp
  | pageDown
  | arrow (a : Arrow)
  | char (c : Nat)
  deriving DecidableEq

/-- `n` moves in one direction. -/
def moveRounds (key : Arrow) : Nat → EditorConfig → Except Stuck EditorConfig
  | 0, s => .ok s
  | n + 1, s => do
      let s ← editorMoveCursor s key
      moveRounds key n s

/-- `while (times--)`, which does not end for a negative count. -/
def moveTimes (key : Arrow) (times : Int) (s : EditorConfig) : Except Stuck EditorConfig :=
  if times < 0 then .error .endless else moveRounds key times.toNat s

/-- `editor_process_key` for these keys. -/
def editorProcessKey (junk : Nat → UInt8) (s : EditorConfig) : EditorKey → Except Stuck EditorConfig
  | .enter => editorInsertNewline junk s
  | .home => .ok { s with cx := 0 }
  | .end =>
      if s.cy < s.numrows then do
        let row ← s.rowAt s.cy
        .ok { s with cx := row.size }
      else .ok s
  | .backspace => editorDeleteChar junk s
  | .delete => do
      let s ← editorMoveCursor s .right
      editorDeleteChar junk s
  | .pageUp => moveTimes .up s.screenrows { s with cy := s.rowoff }
  | .pageDown =>
      let cy := s.rowoff + s.screenrows - 1
      let cy := if cy > s.numrows then (s.numrows : Int) else cy
      moveTimes .down s.screenrows { s with cy := cy }
  | .arrow a => editorMoveCursor s a
  | .char c => editorInsertChar junk s c

/-- One round of the main loop: the window follows the cursor, and a key is processed. -/
def keyStep (s : EditorConfig) (op : (Nat → UInt8) × EditorKey) :
    Except Stuck (Unit × EditorConfig) := do
  let s ← editorScroll s
  let s ← editorProcessKey op.1 s op.2
  .ok ((), s)

/-- `editor_init`, for a window of `screenrows` lines of text. -/
def editorInit (screenrows screencols : Int) : EditorConfig where
  screenrows := screenrows
  screencols := screencols
  cx := 0
  cy := 0
  rx := 0
  rowoff := 0
  coloff := 0
  numrows := 0
  row := []
  dirty := 0

end Nano

end Vmwos
