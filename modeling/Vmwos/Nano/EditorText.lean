import Vmwos.Nano.Editor
import Mathlib.Algebra.BigOperators.Group.List.Basic
import Mathlib.Data.List.GetD
import Mathlib.Data.List.TakeDrop

/-!
# The text an editor holds

A text is the list of its lines. `Shows` ties the array of rows to it: the rows in use hold the
lines in order, each numbered by its position and rendered with its tabs expanded. What the
functions of the editor do to the array is then an insertion, a split, a deletion or a join in the
list, and the string that is saved is that of the lines.
-/

set_option autoImplicit false

namespace Vmwos

open Library

namespace Nano

/-! ## Texts -/

/-- The lines of a text. -/
abbrev Text := List (List UInt8)

/-- The lines one after another, each with its newline. -/
def Text.bytes (text : Text) : List UInt8 := text.flatMap fun line => line ++ [0x0a]

/-- The line at a position; the one past the last is empty. -/
def Text.line (text : Text) (cy : Nat) : List UInt8 := text.getD cy []

/-- A line with its tabs expanded to the next multiple of `nanoTabStop`, from column `col` on. -/
def expandTabs : Nat → List UInt8 → List UInt8
  | _, [] => []
  | col, c :: line =>
      if c = 0x09 then
        List.replicate (nanoTabStop - col % nanoTabStop) 0x20 ++
          expandTabs (col + (nanoTabStop - col % nanoTabStop)) line
      else c :: expandTabs (col + 1) line

/-- The three edits. -/
inductive Edit where
  | insertChar (c : Nat)
  | insertNewline
  | deleteChar

/-- An edit at a cursor position. -/
structure EditAt where
  cy : Nat
  cx : Nat
  edit : Edit

/-- The cursor is on a character or at the end of a line, or past the last line. -/
def EditAt.Legal (e : EditAt) (text : Text) : Prop :=
  e.cy ≤ text.length ∧ e.cx ≤ (text.line e.cy).length

/-- The lines after an edit. -/
def Text.apply (text : Text) (e : EditAt) : Text :=
  let line := text.line e.cy
  match e.edit with
  | .insertChar c =>
      text.take e.cy ++ (line.take e.cx ++ UInt8.ofNat c :: line.drop e.cx) :: text.drop (e.cy + 1)
  | .insertNewline =>
      if e.cy = text.length then text ++ [[]]
      else text.take e.cy ++ line.take e.cx :: line.drop e.cx :: text.drop (e.cy + 1)
  | .deleteChar =>
      if e.cy = text.length then text
      else if 0 < e.cx then
        text.take e.cy ++ (line.take (e.cx - 1) ++ line.drop e.cx) :: text.drop (e.cy + 1)
      else
        match e.cy with
        | 0 => text
        | k + 1 => text.take k ++ (text.line k ++ line) :: text.drop (k + 2)

/-- Where the cursor goes with an edit. -/
def Text.cursor (text : Text) (e : EditAt) : Nat × Nat :=
  match e.edit with
  | .insertChar _ => (e.cy, e.cx + 1)
  | .insertNewline => (e.cy + 1, 0)
  | .deleteChar =>
      if e.cy = text.length then (e.cy, e.cx)
      else if 0 < e.cx then (e.cy, e.cx - 1)
      else
        match e.cy with
        | 0 => (0, 0)
        | k + 1 => (k, (text.line k).length)

/-- The function that performs an edit. -/
def perform (junk : Nat → UInt8) (s : EditorConfig) : Edit → Except Stuck EditorConfig
  | .insertChar c => editorInsertChar junk s c
  | .insertNewline => editorInsertNewline junk s
  | .deleteChar => editorDeleteChar junk s

/-! ## Rendering -/

@[simp] theorem access_some {α : Type} (a : α) : access (some a) = .ok a := rfl

/-- The columns from `idx` to the next tab stop. -/
def padding (idx : Nat) : Nat := (nanoTabStop - idx % nanoTabStop) % nanoTabStop

theorem padToTabStop_eq (post : List UInt8) (n : Nat) : ∀ (fuel idx : Nat) (pre mid : List UInt8),
    n = padding idx → n < fuel → pre.length = idx → mid.length = n →
      padToTabStop fuel (pre ++ mid ++ post) idx =
        .ok (pre ++ List.replicate n 0x20 ++ post, idx + n) := by
  induction n with
  | zero =>
      intro fuel idx pre mid hn hfuel _ hmid
      obtain ⟨fuel, rfl⟩ := Nat.exists_eq_succ_of_ne_zero (Nat.ne_of_gt hfuel)
      have hstop : ¬ idx % nanoTabStop ≠ 0 := by
        unfold padding nanoTabStop at *
        omega
      rw [padToTabStop, if_neg hstop, List.length_eq_zero_iff.1 hmid]
      rfl
  | succ n ih =>
      intro fuel idx pre mid hn hfuel hpre hmid
      obtain ⟨fuel, rfl⟩ := Nat.exists_eq_succ_of_ne_zero (Nat.ne_of_gt (Nat.zero_lt_of_lt hfuel))
      obtain ⟨c, mid, rfl⟩ := List.exists_cons_of_length_eq_add_one hmid
      have hgo : idx % nanoTabStop ≠ 0 ∧ n = padding (idx + 1) := by
        unfold padding nanoTabStop at *
        omega
      have hstore : Buffer.store (pre ++ c :: mid ++ post) idx [0x20] =
          some (pre ++ [0x20] ++ (mid ++ post)) := by
        have := Buffer.store_append [0x20] [c] pre (mid ++ post) rfl
        rw [hpre] at this
        simpa using this
      rw [padToTabStop, if_pos hgo.1, hstore, access_some, ok_bind, ← List.append_assoc,
        ih fuel (idx + 1) (pre ++ [0x20]) mid hgo.2 (Nat.lt_of_succ_lt_succ hfuel)
          (by rw [List.length_append, hpre]; rfl) (Nat.succ.inj hmid)]
      rw [List.replicate_succ, List.append_assoc pre, List.singleton_append, Nat.add_assoc,
        Nat.add_comm 1 n]

/-- A tab fills the columns up to the next tab stop, and at least one. -/
theorem tab_eq (col : Nat) : nanoTabStop - col % nanoTabStop = padding (col + 1) + 1 := by
  unfold padding nanoTabStop
  omega

theorem renderLoop_eq (post : List UInt8) (line : List UInt8) :
    ∀ (idx : Nat) (pre mid : List UInt8), pre.length = idx →
      mid.length = (expandTabs idx line).length →
      renderLoop line (pre ++ mid ++ post) idx =
        .ok (pre ++ expandTabs idx line ++ post, idx + (expandTabs idx line).length) := by
  induction line with
  | nil =>
      intro idx pre mid _ hmid
      rw [expandTabs, List.length_nil, List.length_eq_zero_iff] at hmid
      rw [hmid]
      rfl
  | cons c line ih =>
      intro idx pre mid hpre hmid
      have hstore (b : UInt8) (x : UInt8) (rest : List UInt8) :
          Buffer.store (pre ++ x :: rest ++ post) idx [b] =
            some (pre ++ [b] ++ rest ++ post) := by
        have := Buffer.store_append [b] [x] pre (rest ++ post) rfl
        rw [hpre] at this
        simpa using this
      by_cases hc : c = 0x09
      · -- a tab: one column, and then those up to the next stop
        rw [expandTabs, if_pos hc, tab_eq] at hmid ⊢
        obtain ⟨x, rest, rfl⟩ : ∃ x rest, mid = x :: rest := by
          apply List.exists_cons_of_length_pos
          rw [hmid, List.length_append, List.length_replicate]
          exact Nat.lt_of_lt_of_le (Nat.succ_pos _) (Nat.le_add_right _ _)
        rw [List.length_append, List.length_replicate, List.length_cons] at hmid
        obtain ⟨pads, rest, rfl, hpads⟩ : ∃ pads rest', rest = pads ++ rest' ∧
            pads.length = padding (idx + 1) :=
          ⟨rest.take _, rest.drop _, (List.take_append_drop _ _).symm,
            List.length_take_of_le (by omega)⟩
        rw [List.length_append] at hmid
        have hpad := padToTabStop_eq (rest ++ post) (padding (idx + 1)) nanoTabStop (idx + 1)
          (pre ++ [0x20]) pads rfl (Nat.mod_lt _ (by decide))
          (by rw [List.length_append, hpre]; rfl) hpads
        have hih := ih (idx + 1 + padding (idx + 1))
          (pre ++ [0x20] ++ List.replicate (padding (idx + 1)) 0x20) rest
          (by simp only [List.length_append, List.length_replicate, hpre]; rfl)
          (by rw [show idx + 1 + padding (idx + 1) = idx + (padding (idx + 1) + 1) by omega]; omega)
        rw [renderLoop, if_pos hc, hstore, access_some, ok_bind,
          show pre ++ [0x20] ++ (pads ++ rest) ++ post = pre ++ [0x20] ++ pads ++ (rest ++ post) by
            simp only [List.append_assoc], hpad, ok_bind, ← List.append_assoc]
        dsimp only
        rw [hih]
        simp only [List.replicate_succ, List.append_assoc, List.cons_append, List.nil_append,
          List.length_append, List.length_cons, List.length_replicate, Nat.add_assoc,
          Nat.add_comm 1]
      · rw [expandTabs, if_neg hc] at hmid ⊢
        obtain ⟨x, rest, rfl⟩ := List.exists_cons_of_length_eq_add_one hmid
        rw [renderLoop, if_neg hc, hstore, access_some, ok_bind,
          ih (idx + 1) (pre ++ [c]) rest (by rw [List.length_append, hpre]; rfl)
            (Nat.succ.inj hmid)]
        simp only [List.append_assoc, List.cons_append, List.nil_append, List.length_cons,
          Nat.add_assoc, Nat.add_comm 1]

/-- The room that is made for a line is enough. -/
theorem length_expandTabs_le (line : List UInt8) : ∀ col : Nat,
    (expandTabs col line).length ≤ line.length + line.count 0x09 * (nanoTabStop - 1) := by
  induction line with
  | nil => exact fun _ => Nat.le_refl 0
  | cons c line ih =>
      intro col
      by_cases hc : c = 0x09
      · have htab : padding (col + 1) ≤ nanoTabStop - 1 := Nat.le_pred_of_lt (Nat.mod_lt _ (by decide))
        have := ih (col + (padding (col + 1) + 1))
        rw [expandTabs, if_pos hc, tab_eq, hc, List.count_cons_self, List.length_append,
          List.length_replicate, List.length_cons, Nat.succ_mul]
        omega
      · have := ih (col + 1)
        rw [expandTabs, if_neg hc, List.count_cons_of_ne hc, List.length_cons, List.length_cons]
        omega

/-! ## Rows -/

/-- Row number `k` holds a line. -/
structure RowShows (k : Int) (row : EditorRow) (line : List UInt8) : Prop where
  idx : row.idx = k
  size : row.size = line.length
  chars : line ++ [0] <+: row.chars
  rsize : row.rsize = (expandTabs 0 line).length
  render : expandTabs 0 line ++ [0] <+: row.render

/-- Rows from number `k` on hold the lines of a text. -/
def RowsShow : Int → List EditorRow → Text → Prop
  | _, [], [] => True
  | k, row :: rows, line :: text => RowShows k row line ∧ RowsShow (k + 1) rows text
  | _, _, _ => False

/-- The rows in use hold the lines of a text. -/
def Shows (s : EditorConfig) (text : Text) : Prop :=
  ∃ rows rest, s.row = rows ++ rest ∧ s.numrows = rows.length ∧ RowsShow 0 rows text

theorem RowsShow.length_eq {rows : List EditorRow} {text : Text} :
    ∀ {k : Int}, RowsShow k rows text → rows.length = text.length := by
  induction rows generalizing text with
  | nil =>
      intro k h
      cases text with
      | nil => rfl
      | cons line text => exact h.elim
  | cons row rows ih =>
      intro k h
      cases text with
      | nil => exact h.elim
      | cons line text => rw [List.length_cons, List.length_cons, ih h.2]

theorem rowsShow_append {rows₁ rows₂ : List EditorRow} {text₁ text₂ : Text} {k : Int}
    (h₁ : RowsShow k rows₁ text₁) (h₂ : RowsShow (k + text₁.length) rows₂ text₂) :
    RowsShow k (rows₁ ++ rows₂) (text₁ ++ text₂) := by
  induction text₁ generalizing rows₁ k with
  | nil =>
      rw [List.length_eq_zero_iff.1 h₁.length_eq]
      simpa using h₂
  | cons line text₁ ih =>
      obtain ⟨row, rows₁, rfl⟩ := List.exists_cons_of_length_eq_add_one h₁.length_eq
      refine ⟨h₁.1, ih h₁.2 ?_⟩
      rw [List.length_cons, Int.natCast_succ] at h₂
      rwa [Int.add_assoc, Int.add_comm 1]

theorem RowsShow.split {rows : List EditorRow} {text₁ text₂ : Text} {k : Int}
    (h : RowsShow k rows (text₁ ++ text₂)) :
    ∃ rows₁ rows₂, rows = rows₁ ++ rows₂ ∧ RowsShow k rows₁ text₁ ∧
      RowsShow (k + text₁.length) rows₂ text₂ := by
  induction text₁ generalizing rows k with
  | nil =>
      refine ⟨[], rows, rfl, trivial, ?_⟩
      simpa using h
  | cons line text₁ ih =>
      obtain ⟨row, rows, rfl⟩ := List.exists_cons_of_length_eq_add_one h.length_eq
      obtain ⟨rows₁, rows₂, rfl, h₁, h₂⟩ := ih h.2
      refine ⟨row :: rows₁, rows₂, rfl, ⟨h.1, h₁⟩, ?_⟩
      rwa [List.length_cons, Int.natCast_succ, Int.add_comm (text₁.length : Int), ← Int.add_assoc]

/-- Renumbering. -/
theorem RowsShow.renumber {rows : List EditorRow} {text : Text} (d : Int) :
    ∀ {k : Int}, RowsShow k rows text →
      RowsShow (k + d) (rows.map fun row => { row with idx := row.idx + d }) text := by
  induction rows generalizing text with
  | nil =>
      intro k h
      cases text with
      | nil => trivial
      | cons line text => exact h.elim
  | cons row rows ih =>
      intro k h
      cases text with
      | nil => exact h.elim
      | cons line text =>
          refine ⟨⟨congrArg (· + d) h.1.idx, h.1.size, h.1.chars, h.1.rsize, h.1.render⟩, ?_⟩
          rw [Int.add_right_comm]
          exact ih h.2

/-- What `RowsShow` says of one row. -/
theorem RowsShow.get {rows : List EditorRow} {text : Text} {k : Int} (h : RowsShow k rows text)
    {i : Nat} {line : List UInt8} (hline : text[i]? = some line) :
    ∃ row, rows[i]? = some row ∧ RowShows (k + i) row line := by
  induction i generalizing rows text k with
  | zero =>
      obtain ⟨_, rfl⟩ : ∃ t, text = line :: t := by
        cases text with
        | nil => cases hline
        | cons l t => exact ⟨t, by rw [List.getElem?_cons_zero, Option.some.injEq] at hline; rw [hline]⟩
      obtain ⟨row, rows, rfl⟩ := List.exists_cons_of_length_eq_add_one h.length_eq
      exact ⟨row, rfl, by simpa using h.1⟩
  | succ i ih =>
      obtain ⟨l, text, rfl⟩ : ∃ l t, text = l :: t := by
        cases text with
        | nil => cases hline
        | cons l t => exact ⟨l, t, rfl⟩
      obtain ⟨row, rows, rfl⟩ := List.exists_cons_of_length_eq_add_one h.length_eq
      obtain ⟨row', hrow', hshows⟩ := ih h.2 hline
      refine ⟨row', hrow', ?_⟩
      rwa [Int.natCast_succ, Int.add_comm (i : Int), ← Int.add_assoc]

section Ops

variable (junk : Nat → UInt8) {s : EditorConfig} {text above below : Text} {line : List UInt8}

/-- A row that has been given its characters is rendered. -/
theorem editorUpdateRow_spec (row : EditorRow) (line : List UInt8) (hsize : row.size = line.length)
    (hchars : line ++ [0] <+: row.chars) :
    ∃ row', editorUpdateRow junk row = .ok row' ∧ RowShows row.idx row' line := by
  obtain ⟨rest, hrest⟩ := hchars
  have hload : Buffer.load row.chars 0 row.size = some line := by
    have := Buffer.load_append [] line ([0] ++ rest)
    rw [← hrest, hsize, List.append_assoc]
    exact this
  obtain ⟨mid, post, hbuf, hmid⟩ : ∃ mid post,
      Buffer.alloc junk (row.size + line.count 0x09 * (nanoTabStop - 1) + 1) = mid ++ post ∧
        mid.length = (expandTabs 0 line ++ [0]).length := by
    refine ⟨_, _, (List.take_append_drop (expandTabs 0 line ++ [0]).length _).symm, ?_⟩
    have := length_expandTabs_le line 0
    rw [List.length_take, Buffer.length_alloc, List.length_append, List.length_singleton, hsize]
    omega
  rw [List.length_append, List.length_singleton] at hmid
  obtain ⟨mid, last, rfl⟩ : ∃ mid' last, mid = mid' ++ [last] := by
    obtain ⟨hd, tl, rfl⟩ := List.exists_cons_of_length_eq_add_one hmid
    exact ⟨_, _, (List.dropLast_append_getLast (List.cons_ne_nil hd tl)).symm⟩
  rw [List.length_append, List.length_singleton] at hmid
  have hloop := renderLoop_eq ([last] ++ post) line 0 [] mid rfl (Nat.succ.inj hmid)
  rw [List.nil_append, Nat.zero_add, ← List.append_assoc, ← hbuf] at hloop
  have hnul := Buffer.store_append [(0 : UInt8)] [last] (expandTabs 0 line) post rfl
  -- the highlighting is filled in
  obtain ⟨ys, post', hgrow, hys⟩ := Buffer.exists_grow junk row.hl [] row.hl
    (List.replicate (expandTabs 0 line).length hlNormal) (expandTabs 0 line).length rfl (by simp)
  have hhl : Buffer.store ([] ++ ys ++ post') 0 _ = some _ := Buffer.store_append _ _ [] post' hys
  refine ⟨{ row with
    render := expandTabs 0 line ++ [0] ++ post
    rsize := (expandTabs 0 line).length
    hl := [] ++ List.replicate (expandTabs 0 line).length hlNormal ++ post' }, ?_,
    rfl, hsize, ⟨rest, hrest⟩, rfl, ⟨post, rfl⟩⟩
  rw [editorUpdateRow, hload, access_some, ok_bind]
  dsimp only
  rw [hloop, ok_bind]
  dsimp only
  rw [← List.append_assoc, List.nil_append, hnul, access_some, ok_bind, editorUpdateSyntax]
  dsimp only
  rw [hgrow, hhl, access_some, ok_bind]

/-- The string of a new row, with its NUL. -/
theorem store_string (junk : Nat → UInt8) (str : List UInt8) :
    Buffer.store (Buffer.alloc junk (str.length + 1)) 0 str = some (str ++ [junk str.length]) ∧
      Buffer.store (str ++ [junk str.length]) str.length [0] = some (str ++ [0]) := by
  have halloc : Buffer.alloc junk (str.length + 1) =
      [] ++ Buffer.alloc junk str.length ++ [junk str.length] := by
    rw [Buffer.alloc, List.range_succ, List.map_append]
    rfl
  have hput := Buffer.store_append [(0 : UInt8)] [junk str.length] str [] rfl
  rw [List.append_nil, List.append_nil] at hput
  refine ⟨?_, hput⟩
  rw [halloc]
  exact Buffer.store_append _ _ [] _ (Buffer.length_alloc junk _)

/-- The row of a line, with those above and below it. -/
theorem Shows.split (h : Shows s (above ++ line :: below)) :
    ∃ rows₁ row rows₂ rest, s.row = rows₁ ++ row :: (rows₂ ++ rest) ∧
      s.numrows = rows₁.length + (rows₂.length + 1) ∧ rows₁.length = above.length ∧
      RowsShow 0 rows₁ above ∧ RowShows above.length row line ∧
      RowsShow (above.length + 1) rows₂ below := by
  obtain ⟨rows, rest, hrow, hnum, hshow⟩ := h
  obtain ⟨rows₁, rows₂, rfl, h₁, h₂⟩ := hshow.split
  obtain ⟨row, rows₂, rfl⟩ := List.exists_cons_of_length_eq_add_one h₂.length_eq
  rw [Int.zero_add] at h₂
  refine ⟨rows₁, row, rows₂, rest, ?_, ?_, h₁.length_eq, h₁, h₂.1, h₂.2⟩
  · rw [hrow, List.append_assoc, List.cons_append]
  · rw [hnum, List.length_append, List.length_cons]

/-- The other way round. -/
theorem Shows.mk {rows₁ rows₂ rest : List EditorRow} {row : EditorRow}
    (hrow : s.row = rows₁ ++ row :: (rows₂ ++ rest))
    (hnum : s.numrows = rows₁.length + (rows₂.length + 1)) (h₁ : RowsShow 0 rows₁ above)
    (hline : RowShows above.length row line) (h₂ : RowsShow (above.length + 1) rows₂ below) :
    Shows s (above ++ line :: below) := by
  refine ⟨rows₁ ++ row :: rows₂, rest, ?_, ?_, rowsShow_append h₁ ⟨?_, ?_⟩⟩
  · rw [hrow, List.append_assoc, List.cons_append]
  · rw [hnum, List.length_append, List.length_cons]
  · rwa [Int.zero_add]
  · rwa [Int.zero_add]

theorem Shows.numrows_eq {text : Text} (h : Shows s text) : s.numrows = text.length := by
  obtain ⟨rows, rest, -, hnum, hshow⟩ := h
  rw [hnum, hshow.length_eq]

theorem Shows.inRange (h : Shows s (above ++ line :: below)) :
    (0 : Int) ≤ above.length ∧ (above.length : Int) < s.numrows := by
  have := h.numrows_eq
  rw [List.length_append, List.length_cons] at this
  omega

theorem Shows.rowAt (h : Shows s (above ++ line :: below)) :
    ∃ row, s.rowAt above.length = .ok row ∧ RowShows above.length row line := by
  obtain ⟨rows₁, row, rows₂, rest, hrow, -, hlen, -, hline, -⟩ := h.split
  refine ⟨row, ?_, hline⟩
  rw [EditorConfig.rowAt, if_pos h.inRange, Int.toNat_natCast, hrow, ← hlen,
    List.getElem?_append_right (Nat.le_refl _), Nat.sub_self]
  rfl

theorem Shows.setRow {row : EditorRow} {line' : List UInt8} (h : Shows s (above ++ line :: below))
    (hrow : RowShows above.length row line') :
    ∃ array, s.setRow above.length row = .ok { s with row := array } ∧
      Shows { s with row := array } (above ++ line' :: below) := by
  obtain ⟨rows₁, old, rows₂, rest, harray, hnum, hlen, h₁, -, h₂⟩ := h.split
  refine ⟨rows₁ ++ row :: (rows₂ ++ rest), ?_, Shows.mk rfl hnum h₁ hrow h₂⟩
  rw [EditorConfig.setRow, if_pos h.inRange, Int.toNat_natCast, harray, ← hlen,
    List.set_append_right _ _ (Nat.le_refl _), Nat.sub_self]
  rfl

/-! ## The array -/

/-- A row is put in at a line's place. -/
theorem editorInsertRow_spec (above below : Text) (h : Shows s (above ++ below)) (str : List UInt8) :
    ∃ array, editorInsertRow junk s above.length str =
        .ok { s with row := array, numrows := s.numrows + 1, dirty := s.dirty + 1 } ∧
      Shows { s with row := array, numrows := s.numrows + 1, dirty := s.dirty + 1 }
        (above ++ str :: below) := by
  obtain ⟨rows, rest, hrow, hnum, hshow⟩ := h
  obtain ⟨rows₁, rows₂, rfl, h₁, h₂⟩ := hshow.split
  rw [Int.zero_add] at h₂
  have hlen := h₁.length_eq
  have hrange : ¬ ((above.length : Int) < 0 ∨ (above.length : Int) > s.numrows) := by
    rw [hnum, List.length_append]
    omega
  have hcount : s.numrows - above.length = rows₂.length := by
    rw [hnum, List.length_append]
    omega
  -- the array with room for one more, and its rows moved
  obtain ⟨ys, post, hgrow, hys⟩ := Buffer.exists_grow (fun _ => EditorRow.unused) s.row
    (rows₁ ++ rows₂) rest [EditorRow.unused] (s.numrows + 1) hrow (by rw [hnum]; exact Nat.le_refl _)
  obtain ⟨y, rfl⟩ := List.length_eq_one_iff.1 hys
  rw [List.append_assoc _ [y], List.singleton_append] at hgrow
  obtain ⟨c, hmove⟩ := Buffer.exists_move_right rows₁ rows₂ y post
  have hmoved := Buffer.load_append (rows₁ ++ [c]) rows₂ post
  have hplace : (rows₁ ++ [c]).length = above.length + 1 := by
    rw [List.length_append, hlen, List.length_singleton]
  have hrenumbered := Buffer.store_append
    (rows₂.map fun row => { row with idx := row.idx + 1 }) rows₂ (rows₁ ++ [c]) post
    (List.length_map _).symm
  rw [hplace] at hmoved hrenumbered
  rw [hlen] at hmove
  -- the new row
  obtain ⟨hcopy, hnul⟩ := store_string junk str
  obtain ⟨row, hupdate, hshows⟩ := editorUpdateRow_spec junk
    ⟨above.length, str.length, 0, str ++ [0], [], [], 0⟩ str rfl (List.prefix_refl _)
  have hput := Buffer.store_append [row] [c] rows₁
    ((rows₂.map fun row => { row with idx := row.idx + 1 }) ++ post) rfl
  rw [hlen, ← List.append_assoc] at hput
  refine ⟨rows₁ ++ row :: ((rows₂.map fun row => { row with idx := row.idx + 1 }) ++ post),
    ?_, Shows.mk rfl ?_ h₁ hshows (h₂.renumber 1)⟩
  · rw [editorInsertRow, if_neg hrange]
    dsimp only
    rw [Int.toNat_natCast, hcount, hgrow, hmove, access_some, ok_bind, hmoved, access_some, ok_bind,
      hrenumbered, access_some, ok_bind, hcopy, access_some, ok_bind, hnul, access_some, ok_bind,
      hupdate, ok_bind, hput, access_some, ok_bind, List.append_assoc, List.singleton_append]
  · rw [List.length_map, hnum, List.length_append]
    rfl

/-- The row of a line is taken out. -/
theorem editorDeleteRow_spec (h : Shows s (above ++ line :: below)) :
    ∃ array, editorDeleteRow s above.length =
        .ok { s with row := array, numrows := s.numrows - 1, dirty := s.dirty + 1 } ∧
      Shows { s with row := array, numrows := s.numrows - 1, dirty := s.dirty + 1 }
        (above ++ below) := by
  obtain ⟨rows₁, row, rows₂, rest, hrow, hnum, hlen, h₁, -, h₂⟩ := h.split
  have hrange : ¬ ((above.length : Int) < 0 ∨ (above.length : Int) ≥ s.numrows) := by
    have := h.inRange
    omega
  have hcount : s.numrows - above.length - 1 = rows₂.length := by
    rw [hnum, hlen]
    omega
  obtain ⟨c, hmove⟩ := Buffer.exists_move_left rows₁ rows₂ row rest
  have hmoved := Buffer.load_append rows₁ rows₂ (c :: rest)
  have hrenumbered := Buffer.store_append
    (rows₂.map fun row => { row with idx := row.idx - 1 }) rows₂ rows₁ (c :: rest)
    (List.length_map _).symm
  have hbelow := h₂.renumber (-1)
  rw [Int.add_neg_cancel_right] at hbelow
  rw [hlen] at hmove hmoved hrenumbered
  rw [List.append_assoc, List.cons_append] at hmove
  refine ⟨rows₁ ++ (rows₂.map fun row => { row with idx := row.idx - 1 }) ++ c :: rest, ?_,
    rows₁ ++ rows₂.map (fun row => { row with idx := row.idx - 1 }), c :: rest, rfl, ?_,
    rowsShow_append h₁ ?_⟩
  · rw [editorDeleteRow, if_neg hrange]
    dsimp only
    rw [Int.toNat_natCast, hcount, hrow, hmove, access_some, ok_bind, hmoved, access_some, ok_bind,
      hrenumbered, access_some, ok_bind]
  · rw [List.length_append, List.length_map, hnum]
    rfl
  · rw [Int.zero_add]
    exact hbelow

/-! ## One row -/

/-- A character is put in at its place. -/
theorem editorRowInsertChar_spec {left right : List UInt8}
    (h : Shows s (above ++ (left ++ right) :: below)) (c : Nat) :
    ∃ array, editorRowInsertChar junk s above.length left.length c =
        .ok { s with row := array, dirty := s.dirty + 1 } ∧
      Shows { s with row := array, dirty := s.dirty + 1 }
        (above ++ (left ++ UInt8.ofNat c :: right) :: below) := by
  obtain ⟨row, hrow, hshows⟩ := h.rowAt
  obtain ⟨rest, hchars⟩ := hshows.chars
  have hsize := hshows.size
  rw [List.length_append] at hsize
  have hplace : ¬ ((left.length : Int) < 0 ∨ (left.length : Int) > row.size) := by omega
  have hcount : row.size - left.length + 1 = (right ++ [0]).length := by
    rw [List.length_append, List.length_singleton, hsize]
    omega
  -- what is right of the cursor is moved with the NUL
  obtain ⟨ys, post, hgrow, hys⟩ := Buffer.exists_grow junk row.chars
    (left ++ (right ++ [0])) rest [0] (row.size + 2) (by rw [← hchars, ← List.append_assoc])
    (by simp only [List.length_append, List.length_singleton, hsize]; omega)
  obtain ⟨y, rfl⟩ := List.length_eq_one_iff.1 hys
  rw [List.append_assoc _ [y], List.singleton_append] at hgrow
  obtain ⟨old, hmove⟩ := Buffer.exists_move_right left (right ++ [0]) y post
  have hput := Buffer.store_append [UInt8.ofNat c] [old] left
    ((right ++ [0]) ++ post) rfl
  rw [← List.append_assoc] at hput
  obtain ⟨row', hupdate, hshows'⟩ := editorUpdateRow_spec junk
    { row with chars := left ++ [UInt8.ofNat c] ++ ((right ++ [0]) ++ post), size := row.size + 1 }
    (left ++ UInt8.ofNat c :: right)
    (by rw [List.length_append, List.length_cons, hsize]; rfl)
    ⟨post, by simp only [List.append_assoc, List.cons_append, List.nil_append]⟩
  rw [hshows.idx] at hshows'
  obtain ⟨array, hset, hshows''⟩ := h.setRow hshows'
  refine ⟨array, ?_, hshows''⟩
  rw [editorRowInsertChar, hrow, ok_bind]
  dsimp only
  rw [if_neg hplace, Int.toNat_natCast, hgrow, hcount, hmove, access_some, ok_bind, hput,
    access_some, ok_bind, hupdate, ok_bind, hset, ok_bind]

/-- A string is put at the end. -/
theorem editorRowAppendString_spec (h : Shows s (above ++ line :: below)) (str : List UInt8) :
    ∃ array, editorRowAppendString junk s above.length str =
        .ok { s with row := array, dirty := s.dirty + 1 } ∧
      Shows { s with row := array, dirty := s.dirty + 1 } (above ++ (line ++ str) :: below) := by
  obtain ⟨row, hrow, hshows⟩ := h.rowAt
  obtain ⟨rest, hchars⟩ := hshows.chars
  obtain ⟨ys, post, hgrow, hys⟩ := Buffer.exists_grow junk row.chars
    line ([0] ++ rest) (str ++ [0]) (row.size + str.length + 1)
    (by rw [← hchars, ← List.append_assoc])
    (Nat.le_of_eq (by
      rw [List.length_append, List.length_singleton, hshows.size, Nat.add_assoc]))
  obtain ⟨ys, last, rfl⟩ : ∃ ys' last, ys = ys' ++ [last] := by
    rw [List.length_append, List.length_singleton] at hys
    obtain ⟨hd, tl, rfl⟩ := List.exists_cons_of_length_eq_add_one hys
    exact ⟨_, _, (List.dropLast_append_getLast (List.cons_ne_nil hd tl)).symm⟩
  rw [List.length_append, List.length_append, List.length_singleton] at hys
  have hcopy := Buffer.store_append str ys line ([last] ++ post) (Nat.succ.inj hys)
  have hnul := Buffer.store_append [(0 : UInt8)] [last] (line ++ str) post rfl
  rw [List.length_append] at hnul
  obtain ⟨row', hupdate, hshows'⟩ := editorUpdateRow_spec junk
    { row with chars := line ++ str ++ [0] ++ post, size := row.size + str.length } (line ++ str)
    (by rw [List.length_append, hshows.size]) ⟨post, rfl⟩
  rw [hshows.idx] at hshows'
  obtain ⟨array, hset, hshows''⟩ := h.setRow hshows'
  refine ⟨array, ?_, hshows''⟩
  rw [editorRowAppendString, hrow, ok_bind]
  dsimp only
  rw [hgrow, hshows.size, List.append_assoc line, List.append_assoc ys, ← List.append_assoc line,
    hcopy, access_some, ok_bind, ← List.append_assoc, hnul, access_some, ok_bind, ← hshows.size,
    hupdate, ok_bind, hset, ok_bind]

/-- The character left of a place is taken out. -/
theorem editorRowDeleteChar_spec {left right : List UInt8} {c : UInt8}
    (h : Shows s (above ++ (left ++ c :: right) :: below)) :
    ∃ array, editorRowDeleteChar junk s above.length left.length =
        .ok { s with row := array, dirty := s.dirty + 1 } ∧
      Shows { s with row := array, dirty := s.dirty + 1 } (above ++ (left ++ right) :: below) := by
  obtain ⟨row, hrow, hshows⟩ := h.rowAt
  obtain ⟨rest, hchars⟩ := hshows.chars
  have hsize := hshows.size
  rw [List.length_append, List.length_cons] at hsize
  have hplace : ¬ ((left.length : Int) < 0 ∨ (left.length : Int) ≥ row.size) := by omega
  have hcount : row.size - left.length = (right ++ [0]).length := by
    rw [List.length_append, List.length_singleton, hsize]
    omega
  obtain ⟨old, hmove⟩ := Buffer.exists_move_left left (right ++ [0]) c rest
  have hbuf : row.chars = left ++ c :: (right ++ [0]) ++ rest := by
    rw [← hchars]
    simp only [List.append_assoc, List.cons_append]
  obtain ⟨row', hupdate, hshows'⟩ := editorUpdateRow_spec junk
    { row with chars := left ++ (right ++ [0]) ++ old :: rest, size := row.size - 1 } (left ++ right)
    (by rw [List.length_append, hsize]; rfl)
    ⟨old :: rest, by simp only [List.append_assoc]⟩
  rw [hshows.idx] at hshows'
  obtain ⟨array, hset, hshows''⟩ := h.setRow hshows'
  refine ⟨array, ?_, hshows''⟩
  rw [editorRowDeleteChar, hrow, ok_bind, if_neg hplace]
  dsimp only
  rw [Int.toNat_natCast, hcount, hbuf, hmove, access_some, ok_bind, hupdate, ok_bind, hset, ok_bind]

/-! ## Edits -/

/-- What an edit leaves: the text, the cursor, and the window as it was. -/
structure Edited (s s' : EditorConfig) (text : Text) (cursor : Nat × Nat) : Prop where
  shows : Shows s' text
  cy : s'.cy = cursor.1
  cx : s'.cx = cursor.2
  rowoff : s'.rowoff = s.rowoff
  screenrows : s'.screenrows = s.screenrows

theorem length_take_line {text : Text} {k : Nat} (h : k ≤ text.length) :
    (text.take k).length = k := List.length_take_of_le h

/-- A text around one of its lines. -/
theorem text_eq {text : Text} {k : Nat} (h : k < text.length) :
    text = text.take k ++ text.line k :: text.drop (k + 1) := by
  rw [Text.line, List.getD_eq_getElem _ _ h, List.getElem_cons_drop, List.take_append_drop]

theorem take_succ_line {text : Text} {k : Nat} (h : k < text.length) :
    text.take (k + 1) = text.take k ++ [text.line k] := by
  rw [Text.line, List.getD_eq_getElem _ _ h, List.take_succ_eq_append_getElem h]

theorem line_length (text : Text) : text.line text.length = [] :=
  List.getD_eq_default _ _ (Nat.le_refl _)

variable {text : Text} {e : EditAt}

/-- A character goes into a row that is there. -/
theorem editorRowInsertChar_cursor (h : Shows s text) (hlt : e.cy < text.length)
    (hle : e.cx ≤ (text.line e.cy).length) (hcy : s.cy = e.cy) (hcx : s.cx = e.cx) (c : Nat) :
    ∃ array, editorRowInsertChar junk s s.cy s.cx c =
        .ok { s with row := array, dirty := s.dirty + 1 } ∧
      Shows { s with row := array, dirty := s.dirty + 1 }
        (text.take e.cy ++ ((text.line e.cy).take e.cx ++
          UInt8.ofNat c :: (text.line e.cy).drop e.cx) :: text.drop (e.cy + 1)) := by
  rw [text_eq hlt, ← List.take_append_drop e.cx (text.line e.cy)] at h
  have := editorRowInsertChar_spec junk h c
  rwa [length_take_line (Nat.le_of_lt hlt), List.length_take_of_le hle, ← hcy, ← hcx] at this

theorem editorInsertChar_spec (h : Shows s text) (hlegal : e.Legal text) (hcy : s.cy = e.cy)
    (hcx : s.cx = e.cx) (c : Nat) (hedit : e.edit = .insertChar c) :
    ∃ s', editorInsertChar junk s c = .ok s' ∧
      Edited s s' (text.apply e) (text.cursor e) := by
  have hcursor : text.cursor e = (e.cy, e.cx + 1) := by
    rw [Text.cursor, hedit]
  by_cases hend : e.cy = text.length
  · -- past the last line: an empty row first
    have hcx0 : e.cx = 0 := by
      have := hlegal.2
      rwa [hend, line_length, List.length_nil, Nat.le_zero] at this
    have hat : s.cy = s.numrows := by rw [hcy, hend, h.numrows_eq]
    have hline : (text ++ [[]] : Text).line e.cy = [] := by
      rw [Text.line, hend, List.getD_append_right _ _ _ _ (Nat.le_refl _), Nat.sub_self]
      rfl
    obtain ⟨array, hrow, hshows⟩ := editorInsertRow_spec junk text []
      (by rwa [List.append_nil]) []
    rw [← h.numrows_eq] at hrow
    obtain ⟨array', hchar, hshows'⟩ := editorRowInsertChar_cursor junk hshows
      (by rw [hend, List.length_append]; exact Nat.lt_succ_self _)
      (by rw [hcx0]; exact Nat.zero_le _) hcy hcx c
    refine ⟨⟨s.screenrows, s.screencols, s.cx + 1, s.cy, s.rx, s.rowoff, s.coloff, s.numrows + 1,
      array', s.dirty + 1 + 1⟩, ?_, ?_, ?_, ?_, rfl, rfl⟩
    · rw [editorInsertChar, if_pos hat, hrow, ok_bind]
      dsimp only at hchar ⊢
      rw [hchar, ok_bind]
    · have hafter : (text ++ [[]] : Text).drop (text.length + 1) = [] :=
        List.drop_eq_nil_of_le (by simp)
      rw [hline, hcx0, hend, List.take_left, hafter] at hshows'
      rw [Text.apply, hedit]
      dsimp only
      rw [hcx0, hend, line_length, List.take_length, List.drop_eq_nil_of_le (Nat.le_succ _)]
      exact hshows'
    · rw [hcursor]
      exact hcy
    · rw [hcursor]
      exact congrArg (· + 1) hcx
  · have hlt : e.cy < text.length := Nat.lt_of_le_of_ne hlegal.1 hend
    have hat : s.cy ≠ s.numrows := by
      rw [hcy, h.numrows_eq]
      exact fun heq => hend (Int.ofNat_inj.1 heq)
    obtain ⟨array, hchar, hshows⟩ := editorRowInsertChar_cursor junk h hlt hlegal.2 hcy hcx c
    refine ⟨{ s with row := array, dirty := s.dirty + 1, cx := s.cx + 1 }, ?_, ?_, ?_, ?_, rfl, rfl⟩
    · rw [editorInsertChar, if_neg hat, ok_bind]
      dsimp only
      rw [hchar, ok_bind]
    · rw [Text.apply, hedit]
      exact hshows
    · rw [hcursor]
      exact hcy
    · rw [hcursor]
      exact congrArg (· + 1) hcx

/-- The row is cut off at the cursor, after what is right of it has become the next row. -/
theorem splitRow_spec {left right : List UInt8}
    (h : Shows s (above ++ (left ++ right) :: below)) (hcy : s.cy = above.length)
    (hcx : s.cx = left.length) (hleft : left ≠ []) :
    ∃ array, editorInsertNewline junk s =
        .ok { s with
          row := array, numrows := s.numrows + 1, dirty := s.dirty + 1, cy := s.cy + 1, cx := 0 } ∧
      Shows { s with row := array, numrows := s.numrows + 1, dirty := s.dirty + 1 }
        (above ++ left :: right :: below) := by
  obtain ⟨row, hrow, hshows⟩ := h.rowAt
  obtain ⟨rest, hchars⟩ := hshows.chars
  have hsize := hshows.size
  rw [List.length_append] at hsize
  have hne : s.cx ≠ 0 := by
    have := List.length_pos_iff.2 hleft
    omega
  have hplace : ¬ (s.cx < 0 ∨ s.cx > row.size) := by omega
  have hload : Buffer.load row.chars left.length (row.size - left.length) = some right := by
    have := Buffer.load_append left right ([0] ++ rest)
    rw [← hchars, hsize, Nat.add_sub_cancel_left]
    rwa [← List.append_assoc] at this
  -- the next row
  have hsplit : above ++ (left ++ right) :: below = (above ++ [left ++ right]) ++ below := by
    rw [List.append_assoc, List.singleton_append]
  obtain ⟨array, hinsert, hshows₁⟩ := editorInsertRow_spec junk _ _ (hsplit ▸ h) right
  rw [List.length_append, List.length_singleton, Int.natCast_add_one] at hinsert
  rw [List.append_assoc, List.singleton_append] at hshows₁
  -- what is left of the cursor
  obtain ⟨row₁, hrow₁, hrows₁⟩ := hshows₁.rowAt
  obtain ⟨rest₁, hchars₁⟩ := hrows₁.chars
  obtain ⟨c, cs, hcons⟩ : ∃ c cs, right ++ [0] = c :: cs :=
    List.exists_cons_of_length_pos (by simp)
  have hbuf : row₁.chars = left ++ [c] ++ (cs ++ rest₁) := by
    rw [← hchars₁, List.append_assoc left, List.append_assoc left, List.append_assoc left, hcons,
      List.cons_append, List.singleton_append]
  have hnul := Buffer.store_append [(0 : UInt8)] [c] left (cs ++ rest₁) rfl
  obtain ⟨row₂, hupdate, hrows₂⟩ := editorUpdateRow_spec junk
    { row₁ with chars := left ++ [0] ++ (cs ++ rest₁), size := left.length } left rfl ⟨_, rfl⟩
  rw [hrows₁.idx] at hrows₂
  obtain ⟨array', hset, hshows₂⟩ := hshows₁.setRow hrows₂
  have hcxNat : s.cx.toNat = left.length := by rw [hcx, Int.toNat_natCast]
  refine ⟨array', ?_, hshows₂⟩
  rw [← hcy] at hrow hinsert hrow₁ hset
  rw [editorInsertNewline, if_neg hne, hrow, ok_bind, if_neg hplace, hcxNat, hload, access_some,
    ok_bind, hinsert, ok_bind]
  dsimp only
  rw [hrow₁, ok_bind, hcxNat, hbuf, hnul, access_some, ok_bind, hupdate, ok_bind, hset, ok_bind]

theorem editorInsertNewline_spec (h : Shows s text) (hlegal : e.Legal text) (hcy : s.cy = e.cy)
    (hcx : s.cx = e.cx) (hedit : e.edit = .insertNewline) :
    ∃ s', editorInsertNewline junk s = .ok s' ∧ Edited s s' (text.apply e) (text.cursor e) := by
  have hcursor : text.cursor e = (e.cy + 1, 0) := by
    rw [Text.cursor, hedit]
  by_cases hzero : e.cx = 0
  · -- an empty row above that of the cursor
    obtain ⟨array, hinsert, hshows⟩ := editorInsertRow_spec junk
      (text.take e.cy) (text.drop e.cy) (by rwa [List.take_append_drop]) []
    rw [length_take_line hlegal.1, ← hcy] at hinsert
    refine ⟨⟨s.screenrows, s.screencols, 0, s.cy + 1, s.rx, s.rowoff, s.coloff, s.numrows + 1,
      array, s.dirty + 1⟩, ?_, ?_, ?_, ?_, rfl, rfl⟩
    · rw [editorInsertNewline, if_pos (by rw [hcx, hzero]; rfl), hinsert, ok_bind]
    · rw [Text.apply, hedit]
      dsimp only
      by_cases hend : e.cy = text.length
      · rw [if_pos hend]
        rwa [hend, List.take_length, List.drop_length] at hshows
      · have hlt : e.cy < text.length := Nat.lt_of_le_of_ne hlegal.1 hend
        have hbelow : text.drop e.cy = text.line e.cy :: text.drop (e.cy + 1) := by
          rw [Text.line, List.getD_eq_getElem _ _ hlt, List.getElem_cons_drop]
        rw [if_neg hend, hzero, List.take_zero, List.drop_zero, ← hbelow]
        exact hshows
    · rw [hcursor]
      exact congrArg (· + 1) hcy
    · rw [hcursor]
      rfl
  · have hlt : e.cy < text.length := by
      apply Nat.lt_of_le_of_ne hlegal.1
      intro hend
      have := hlegal.2
      rw [hend, line_length] at this
      exact hzero (Nat.le_zero.1 this)
    have hline := List.take_append_drop e.cx (text.line e.cy)
    have hlen := length_take_line hlegal.1
    rw [text_eq hlt, ← hline] at h
    obtain ⟨array, hnewline, hshows⟩ := splitRow_spec junk h (by rw [hlen, hcy])
      (by rw [List.length_take_of_le hlegal.2, hcx])
      (by
        intro hnil
        have := congrArg List.length hnil
        rw [List.length_take_of_le hlegal.2] at this
        exact hzero this)
    refine ⟨_, hnewline, ?_, ?_, ?_, rfl, rfl⟩
    · rw [Text.apply, hedit]
      dsimp only
      rw [if_neg (Nat.ne_of_lt hlt)]
      exact hshows
    · rw [hcursor]
      exact congrArg (· + 1) hcy
    · rw [hcursor]
      rfl

theorem editorDeleteChar_spec (h : Shows s text) (hlegal : e.Legal text) (hcy : s.cy = e.cy)
    (hcx : s.cx = e.cx) (hedit : e.edit = .deleteChar) :
    ∃ s', editorDeleteChar junk s = .ok s' ∧ Edited s s' (text.apply e) (text.cursor e) := by
  rw [Text.apply, Text.cursor, hedit]
  dsimp only
  by_cases hend : e.cy = text.length
  · have hat : s.cy = s.numrows := by rw [hcy, hend, h.numrows_eq]
    rw [if_pos hend, if_pos hend]
    exact ⟨s, by rw [editorDeleteChar, if_pos hat], h, hcy, hcx, rfl, rfl⟩
  rw [if_neg hend, if_neg hend]
  have hlt : e.cy < text.length := Nat.lt_of_le_of_ne hlegal.1 hend
  have hat : s.cy ≠ s.numrows := by
    rw [hcy, h.numrows_eq]
    exact fun heq => hend (Int.ofNat_inj.1 heq)
  have hlen := length_take_line hlegal.1
  have hshows := h
  rw [text_eq hlt] at hshows
  obtain ⟨row, hrow, hrows⟩ := hshows.rowAt
  rw [hlen, ← hcy] at hrow
  by_cases hpos : 0 < e.cx
  · -- the character left of the cursor
    have hstart : ¬ (s.cx = 0 ∧ s.cy = 0) := by
      rw [hcx]
      omega
    have hleft : ((text.line e.cy).take (e.cx - 1)).length = e.cx - 1 :=
      List.length_take_of_le (Nat.le_trans (Nat.sub_le _ _) hlegal.2)
    obtain ⟨c, hc⟩ : ∃ c, (text.line e.cy).drop (e.cx - 1) = c :: (text.line e.cy).drop e.cx := by
      have hlast : e.cx - 1 < (text.line e.cy).length := by
        have := hlegal.2
        omega
      refine ⟨(text.line e.cy)[e.cx - 1], ?_⟩
      rw [← List.getElem_cons_drop hlast, Nat.sub_add_cancel hpos]
    rw [← List.take_append_drop (e.cx - 1) (text.line e.cy), hc] at hshows
    obtain ⟨array, hdelete, hshows'⟩ := editorRowDeleteChar_spec junk hshows
    have hcxPred : ((e.cx - 1 : Nat) : Int) = s.cx - 1 := by
      rw [hcx]
      omega
    rw [hlen, hleft, ← hcy, hcxPred] at hdelete
    rw [if_pos hpos, if_pos hpos]
    refine ⟨{ s with row := array, dirty := s.dirty + 1, cx := s.cx - 1 }, ?_, hshows', hcy,
      hcxPred.symm, rfl, rfl⟩
    rw [editorDeleteChar, if_neg hat, if_neg hstart, hrow, ok_bind,
      if_pos (by rw [hcx]; exact Int.natCast_pos.2 hpos), hdelete, ok_bind]
  · rw [if_neg hpos, if_neg hpos]
    have hcx0 : e.cx = 0 := Nat.eq_zero_of_not_pos hpos
    have hcxInt : s.cx = 0 := by rw [hcx, hcx0]; rfl
    cases hk : e.cy with
    | zero =>
        rw [hk] at hcy
        refine ⟨s, ?_, h, hcy, hcxInt, rfl, rfl⟩
        rw [editorDeleteChar, if_neg hat, if_pos ⟨hcxInt, hcy⟩]
    | succ k =>
        -- the line is joined to the one above
        rw [hk] at hcy hlt hrows hlen
        have hkText : k ≤ text.length := Nat.le_of_lt (Nat.lt_of_succ_lt hlt)
        have hstart : ¬ (s.cx = 0 ∧ s.cy = 0) := by
          rw [hcy]
          omega
        have hcyPred : s.cy - 1 = k := by
          rw [hcy]
          omega
        have hjoin := h
        rw [text_eq hlt, take_succ_line (Nat.lt_of_succ_lt hlt), List.append_assoc,
          List.singleton_append] at hjoin
        have hlenk := length_take_line hkText
        obtain ⟨row₀, hrow₀, hrows₀⟩ := hjoin.rowAt
        rw [hlenk, ← hcyPred] at hrow₀
        obtain ⟨rest, hchars⟩ := hrows.chars
        have hload : Buffer.load row.chars 0 row.size = some (text.line (k + 1)) := by
          have := Buffer.load_append [] (text.line (k + 1)) ([0] ++ rest)
          rw [← hchars, hrows.size, List.append_assoc]
          exact this
        obtain ⟨array, happend, hshows₁⟩ := @editorRowAppendString_spec junk
          { s with cx := row₀.size } _ _ _ hjoin (text.line (k + 1))
        rw [hlenk, ← hcyPred] at happend
        rw [← List.singleton_append, ← List.append_assoc] at hshows₁
        obtain ⟨array', hdelete, hshows₂⟩ := editorDeleteRow_spec hshows₁
        rw [List.length_append, hlenk, List.length_singleton, ← hcy] at hdelete
        rw [List.append_assoc, List.singleton_append] at hshows₂
        refine ⟨⟨s.screenrows, s.screencols, row₀.size, s.cy - 1, s.rx, s.rowoff, s.coloff,
          s.numrows - 1, array', s.dirty + 1 + 1⟩, ?_, hshows₂, hcyPred,
          congrArg Nat.cast hrows₀.size, rfl, rfl⟩
        rw [editorDeleteChar, if_neg hat, if_neg hstart, hrow, ok_bind, if_neg (by rw [hcxInt]; decide),
          hrow₀, ok_bind]
        dsimp only
        rw [hload, access_some, ok_bind, happend, ok_bind]
        dsimp only
        rw [hdelete, ok_bind]

/-! ## The text as one string -/

theorem Text.bytes_cons (line : List UInt8) (text : Text) :
    Text.bytes (line :: text) = line ++ [0x0a] ++ Text.bytes text := by
  rw [Text.bytes, List.flatMap_cons, Text.bytes]

theorem copyRows_eq (post : List UInt8) {rows : List EditorRow} {text : Text} :
    ∀ {k : Int} (pre mid : List UInt8) (p : Nat), RowsShow k rows text → pre.length = p →
      mid.length = text.bytes.length →
      copyRows rows (pre ++ mid ++ post) p = .ok (pre ++ text.bytes ++ post) := by
  induction rows generalizing text with
  | nil =>
      intro k pre mid p h _ hmid
      cases text with
      | nil =>
          rw [List.length_eq_zero_iff.1 hmid]
          rfl
      | cons line text => exact h.elim
  | cons row rows ih =>
      intro k pre mid p h hp hmid
      cases text with
      | nil => exact h.elim
      | cons line text =>
          obtain ⟨rest, hchars⟩ := h.1.chars
          have hload : Buffer.load row.chars 0 row.size = some line := by
            have := Buffer.load_append [] line ([0] ++ rest)
            rw [← hchars, h.1.size, List.append_assoc]
            exact this
          have htext := Text.bytes_cons line text
          rw [htext, List.length_append, List.length_append, List.length_singleton] at hmid
          -- the places of the line, its newline and the lines after it
          obtain ⟨chars, newline, later, rfl, hchars', hlater⟩ : ∃ chars newline later,
              mid = chars ++ [newline] ++ later ∧ chars.length = line.length ∧
                later.length = (Text.bytes text).length := by
            obtain ⟨newline, later, hcons⟩ : ∃ newline later,
                mid.drop line.length = newline :: later := by
              apply List.exists_cons_of_length_pos
              rw [List.length_drop]
              omega
            refine ⟨mid.take line.length, newline, later, ?_, List.length_take_of_le (by omega), ?_⟩
            · rw [List.append_assoc, List.singleton_append, ← hcons, List.take_append_drop]
            · have := congrArg List.length hcons
              rw [List.length_drop, List.length_cons] at this
              omega
          have hcopy := Buffer.store_append _ _ pre ([newline] ++ later ++ post) hchars'
          have hnewline := Buffer.store_append [(0x0a : UInt8)] [newline]
            (pre ++ line) (later ++ post) rfl
          have hih := ih (pre ++ line ++ [0x0a]) later (p + row.size + 1) h.2
            (by simp only [List.length_append, List.length_singleton, hp, h.1.size]) hlater
          rw [hp] at hcopy
          rw [List.length_append, hp, ← h.1.size] at hnewline
          rw [copyRows, hload, access_some, ok_bind,
            show pre ++ (chars ++ [newline] ++ later) ++ post =
              pre ++ chars ++ ([newline] ++ later ++ post) by simp only [List.append_assoc],
            hcopy, access_some, ok_bind,
            show pre ++ line ++ ([newline] ++ later ++ post) =
              pre ++ line ++ [newline] ++ (later ++ post) by simp only [List.append_assoc],
            hnewline, access_some, ok_bind, ← List.append_assoc, hih, htext]
          simp only [List.append_assoc]

theorem RowsShow.sum_sizes {rows : List EditorRow} {text : Text} {k : Int}
    (h : RowsShow k rows text) :
    (rows.map fun row => row.size + 1).sum = text.bytes.length := by
  induction rows generalizing text k with
  | nil =>
      cases text with
      | nil => rfl
      | cons line text => exact h.elim
  | cons row rows ih =>
      cases text with
      | nil => exact h.elim
      | cons line text =>
          rw [List.map_cons, List.sum_cons, ih h.2, Text.bytes_cons, List.length_append,
            List.length_append, List.length_singleton, h.1.size]

theorem editorRowsToString_eq (h : Shows s text) :
    editorRowsToString junk s = .ok (text.bytes, text.bytes.length) := by
  obtain ⟨rows, rest, hrow, hnum, hshow⟩ := h
  have hload := Buffer.load_append [] rows rest
  rw [List.nil_append, List.length_nil, ← hrow, ← hnum] at hload
  have hcopy := copyRows_eq [] [] (Buffer.alloc junk text.bytes.length) 0 hshow rfl
    (Buffer.length_alloc junk _)
  rw [List.nil_append, List.nil_append, List.append_nil, List.append_nil] at hcopy
  rw [editorRowsToString, hload, access_some, ok_bind]
  dsimp only
  rw [hshow.sum_sizes, hcopy, ok_bind]

/-! ## Histories of edits -/

/-- An edit is performed by its function. -/
theorem perform_spec (h : Shows s text) (hlegal : e.Legal text) (hcy : s.cy = e.cy)
    (hcx : s.cx = e.cx) :
    ∃ s', perform junk s e.edit = .ok s' ∧ Edited s s' (text.apply e) (text.cursor e) := by
  cases hedit : e.edit with
  | insertChar c => exact editorInsertChar_spec junk h hlegal hcy hcx c hedit
  | insertNewline => exact editorInsertNewline_spec junk h hlegal hcy hcx hedit
  | deleteChar => exact editorDeleteChar_spec junk h hlegal hcy hcx hedit

end Ops

/-- The cursor is moved and an edit performed, with `junk` in the memory it allocates. -/
def editStep (s : EditorConfig) (op : (Nat → UInt8) × EditAt) : Except Stuck EditorConfig :=
  perform op.1 { s with cy := op.2.cy, cx := op.2.cx } op.2.edit

/-- Every edit is at a legal position. -/
def LegalRun : Text → List EditAt → Prop
  | _, [] => True
  | text, e :: es => e.Legal text ∧ LegalRun (text.apply e) es

instance (text : Text) (e : EditAt) : Decidable (e.Legal text) :=
  inferInstanceAs (Decidable (_ ∧ _))

instance instDecidableLegalRun : (text : Text) → (es : List EditAt) → Decidable (LegalRun text es)
  | _, [] => isTrue trivial
  | text, e :: es =>
      have := instDecidableLegalRun (text.apply e) es
      inferInstanceAs (Decidable (_ ∧ _))

/-- A history of edits keeps the rows in step with the lines. -/
theorem edits_shows {ops : List ((Nat → UInt8) × EditAt)} :
    ∀ {s : EditorConfig} {text : Text}, Shows s text → LegalRun text (ops.map (·.2)) →
      ∃ s', ops.foldlM editStep s = .ok s' ∧ Shows s' ((ops.map (·.2)).foldl Text.apply text) := by
  induction ops with
  | nil => exact fun h _ => ⟨_, rfl, h⟩
  | cons op ops ih =>
      intro s text h hlegal
      have hmoved : Shows { s with cy := op.2.cy, cx := op.2.cx } text := h
      obtain ⟨s₁, hstep, hedited⟩ := perform_spec op.1 hmoved hlegal.1 rfl rfl
      obtain ⟨s', hrest, hshows⟩ := ih hedited.shows hlegal.2
      refine ⟨s', ?_, hshows⟩
      rw [List.foldlM_cons, editStep, hstep]
      exact hrest

/-- The lines of a file are put into the array. -/
theorem editorOpen_shows (junk : Nat → UInt8) (lines : Text) :
    ∀ {s : EditorConfig} {text : Text}, Shows s text →
      ∃ s', editorOpen junk s lines = .ok s' ∧ Shows s' (text ++ lines) ∧ s'.cy = s.cy ∧
        s'.cx = s.cx ∧ s'.rowoff = s.rowoff ∧ s'.screenrows = s.screenrows := by
  induction lines with
  | nil =>
      intro s text h
      exact ⟨{ s with dirty := 0 }, rfl, by rwa [List.append_nil], rfl, rfl, rfl, rfl⟩
  | cons line lines ih =>
      intro s text h
      obtain ⟨array, hinsert, hshows⟩ := editorInsertRow_spec junk text []
        (by rwa [List.append_nil]) line
      rw [← h.numrows_eq] at hinsert
      obtain ⟨s', hopen, hshows', hframe⟩ := ih hshows
      rw [List.append_assoc, List.singleton_append] at hshows'
      refine ⟨s', ?_, hshows', hframe⟩
      rw [editorOpen, hinsert, ok_bind, hopen]

theorem shows_editorInit (screenrows screencols : Int) :
    Shows (editorInit screenrows screencols) [] := ⟨[], [], rfl, rfl, trivial⟩

/-- After any history of edits the rows hold the edited lines, in order, numbered and rendered,
and they are saved as the text of these lines. -/
theorem editor_text {s : EditorConfig} {text : Text} (h : Shows s text)
    {ops : List ((Nat → UInt8) × EditAt)} (hlegal : LegalRun text (ops.map (·.2))) :
    ∃ (s' : EditorConfig) (text' : Text), text' = (ops.map (·.2)).foldl Text.apply text ∧
      ops.foldlM editStep s = .ok s' ∧
      (∀ junk, editorRowsToString junk s' = .ok (text'.bytes, text'.bytes.length)) ∧
      s'.numrows = text'.length ∧
      ∀ (i : Nat) (line : List UInt8), text'[i]? = some line → ∃ row : EditorRow,
        s'.row[i]? = some row ∧ row.idx = i ∧
        row.size = line.length ∧ row.chars.take row.size = line ∧
        row.rsize = (expandTabs 0 line).length ∧
        row.render.take row.rsize = expandTabs 0 line := by
  obtain ⟨s', hrun, hshows⟩ := edits_shows h hlegal
  refine ⟨s', _, rfl, hrun, fun junk => editorRowsToString_eq junk hshows, hshows.numrows_eq,
    fun i line hline => ?_⟩
  obtain ⟨rows, rest, hrow, -, hrows⟩ := hshows
  obtain ⟨row, hget, hrow'⟩ := hrows.get hline
  obtain ⟨tail, htail⟩ := hrow'.chars
  obtain ⟨tail', htail'⟩ := hrow'.render
  rw [Int.zero_add] at hrow'
  have hlt := (List.getElem?_eq_some_iff.1 hget).1
  refine ⟨row, ?_, hrow'.idx, hrow'.size, ?_, hrow'.rsize, ?_⟩
  · rw [hrow, List.getElem?_append_left hlt, hget]
  · rw [← htail, hrow'.size, List.append_assoc, List.take_left]
  · rw [← htail', hrow'.rsize, List.append_assoc, List.take_left]

/-- A line is split after its tab, and joined again from the line below. -/
theorem editor_text_splitJoin :
    ∃ s s' : EditorConfig, Shows s [[0x61, 0x09, 0x62]] ∧
      [((fun _ => 0), EditAt.mk 0 2 .insertNewline), ((fun _ => 0xff), ⟨1, 0, .insertChar 0x63⟩),
        ((fun _ => 0), ⟨1, 0, .deleteChar⟩)].foldlM editStep s = .ok s' ∧
      editorRowsToString (fun _ => 0) s' = .ok ([0x61, 0x09, 0x63, 0x62, 0x0a], 5) := by
  obtain ⟨s, -, hshows, -⟩ := editorOpen_shows (fun _ => 0) [[0x61, 0x09, 0x62]]
    (shows_editorInit 22 80)
  obtain ⟨s', text', rfl, hrun, hstring, -⟩ := @editor_text s _ hshows
    [((fun _ => 0), EditAt.mk 0 2 .insertNewline),
      ((fun _ => 0xff), ⟨1, 0, .insertChar 0x63⟩), ((fun _ => 0), ⟨1, 0, .deleteChar⟩)]
    (by decide)
  exact ⟨s, s', hshows, hrun, hstring _⟩

end Nano

end Vmwos
