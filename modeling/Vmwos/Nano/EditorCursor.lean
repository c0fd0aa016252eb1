import Vmwos.Nano.EditorText
import Vmwos.Library.Run

/-!
# The cursor of the editor

The cursor is on a row in use or just past the last one. The keys keep it there, with one
exception: `editor_move_cursor` takes the row past the last one for a row, so that a move to the
right from there, and the delete key, which begins with such a move, read a row that is not in use.
-/

set_option autoImplicit false

namespace Vmwos

open Library

namespace Nano

/-- The length of the row of the cursor, 0 past the last row. -/
def rowLength (s : EditorConfig) : Int :=
  match s.rowAt s.cy with
  | .ok row => row.size
  | .error _ => 0

/-- The cursor is on a row or just past the last one, and not right of the end of its row. -/
structure CursorOk (s : EditorConfig) : Prop where
  cy_nonneg : 0 ≤ s.cy
  cy_le : s.cy ≤ s.numrows
  cx_nonneg : 0 ≤ s.cx
  cx_le : s.cx ≤ rowLength s

/-- The key does not move right from the row past the last one. -/
def OnRow (s : EditorConfig) (key : EditorKey) : Prop :=
  (key = .arrow .right ∨ key = .delete) → s.cy = s.numrows → s.row = []

/-- And pages are not empty. -/
def KeyOk (s : EditorConfig) (op : (Nat → UInt8) × EditorKey) : Prop :=
  OnRow s op.2 ∧ (op.2 = .pageUp ∨ op.2 = .pageDown → 0 < s.screenrows)

/-! ## The cursor in the text -/

/-- The cursor is at a position of a text. -/
def OnText (s : EditorConfig) (text : Text) : Prop :=
  ∃ cy cx : Nat, s.cy = cy ∧ s.cx = cx ∧ cy ≤ text.length ∧ cx ≤ (text.line cy).length

section Text

variable {s : EditorConfig} {text : Text}

/-- The row at a position. -/
theorem Shows.rowAt_line (h : Shows s text) {cy : Nat} (hlt : cy < text.length) :
    ∃ row, s.rowAt cy = .ok row ∧ RowShows cy row (text.line cy) := by
  rw [text_eq hlt] at h
  obtain ⟨row, hrow, hshows⟩ := h.rowAt
  rw [length_take_line (Nat.le_of_lt hlt)] at hrow hshows
  exact ⟨row, hrow, hshows⟩

theorem Shows.rowAt_end (h : Shows s text) : s.rowAt text.length = .error .badAccess := by
  rw [EditorConfig.rowAt, if_neg]
  rw [h.numrows_eq]
  exact fun hlt => Int.lt_irrefl _ hlt.2

theorem OnText.cursorOk (h : Shows s text) (hon : OnText s text) : CursorOk s := by
  obtain ⟨cy, cx, hcy, hcx, hle, hlen⟩ := hon
  refine ⟨by rw [hcy]; exact Int.natCast_nonneg _, ?_, by rw [hcx]; exact Int.natCast_nonneg _, ?_⟩
  · rw [hcy, h.numrows_eq]
    exact Int.ofNat_le.2 hle
  · rw [rowLength, hcy, hcx]
    by_cases hend : cy = text.length
    · rw [hend, h.rowAt_end]
      rw [hend, line_length] at hlen
      exact Int.ofNat_le.2 hlen
    · obtain ⟨row, hrow, hshows⟩ := h.rowAt_line (Nat.lt_of_le_of_ne hle hend)
      rw [hrow]
      dsimp only
      rw [hshows.size]
      exact Int.ofNat_le.2 hlen

/-! ## Moves -/

/-- The cursor is put back to the end of its row. -/
theorem clampCursor_spec (h : Shows s text) {cy cx : Nat} (hcy : s.cy = cy) (hcx : s.cx = cx)
    (hle : cy ≤ text.length) :
    ∃ cx' : Nat, clampCursor s = .ok { s with cx := cx' } ∧ cx' ≤ (text.line cy).length := by
  have hlen : ∃ rowlen : Nat, rowlen = (text.line cy).length ∧
      clampCursor s = .ok (if s.cx > rowlen then { s with cx := rowlen } else s) := by
    by_cases hend : cy = text.length
    · refine ⟨0, by rw [hend, line_length]; rfl, ?_⟩
      rw [clampCursor, if_pos (Int.le_of_eq (by rw [hcy, h.numrows_eq, hend])).ge, ok_bind]
      dsimp only
      split <;> rfl
    · have hlt := Nat.lt_of_le_of_ne hle hend
      obtain ⟨row, hrow, hshows⟩ := h.rowAt_line hlt
      refine ⟨row.size, hshows.size, ?_⟩
      rw [clampCursor, if_neg (by rw [hcy, h.numrows_eq]; exact Int.not_le.2 (Int.ofNat_lt.2 hlt)),
        hcy, hrow, ok_bind, ok_bind]
      dsimp only
      split <;> rfl
  obtain ⟨rowlen, hrowlen, hclamp⟩ := hlen
  rw [hclamp, ← hrowlen]
  by_cases hgt : s.cx > rowlen
  · exact ⟨rowlen, by rw [if_pos hgt], Nat.le_refl _⟩
  · refine ⟨cx, by rw [if_neg hgt, ← hcx], ?_⟩
    rw [hcx] at hgt
    omega

/-- A move goes to a position of the text, from any place in its rows. -/
theorem moveArrow_spec (h : Shows s text) {cy cx : Nat} (hcy : s.cy = cy) (hcx : s.cx = cx)
    (hle : cy ≤ text.length) {key : Arrow} (hkey : key = .right → cy = text.length → s.row = []) :
    ∃ cy' cx' : Nat, moveArrow s key = .ok { s with cy := cy', cx := cx' } ∧
      cy' ≤ text.length := by
  have hsame : s = { s with cy := cy, cx := cx } := by rw [← hcy, ← hcx]
  cases key with
  | left =>
      by_cases hzero : s.cx = 0
      · by_cases hpos : s.cy > 0
        · obtain ⟨k, rfl⟩ : ∃ k, cy = k + 1 := Nat.exists_eq_succ_of_ne_zero (by omega)
          obtain ⟨row, hrow, -⟩ := h.rowAt_line (Nat.lt_of_succ_le hle)
          have hpred : s.cy - 1 = k := by omega
          refine ⟨k, row.size, ?_, Nat.le_of_succ_le hle⟩
          rw [moveArrow, if_neg (not_not_intro hzero), if_pos hpos, hpred, hrow, ok_bind]
        · refine ⟨cy, cx, ?_, hle⟩
          rw [moveArrow, if_neg (not_not_intro hzero), if_neg hpos, ← hsame]
      · have hpred : s.cx - 1 = ((cx - 1 : Nat) : Int) := by omega
        refine ⟨cy, cx - 1, ?_, hle⟩
        rw [moveArrow, if_pos hzero, hpred, ← hcy]
  | right =>
      by_cases hnull : s.cy > s.numrows ∨ s.row.isEmpty
      · refine ⟨cy, cx, ?_, hle⟩
        rw [moveArrow, if_pos hnull, ← hsame]
      · have hlt : cy < text.length := by
          refine Nat.lt_of_le_of_ne hle fun hend => hnull (Or.inr ?_)
          rw [hkey rfl hend]
          rfl
        obtain ⟨row, hrow, -⟩ := h.rowAt_line hlt
        rw [moveArrow, if_neg hnull, hcy, hrow, ok_bind]
        split
        · exact ⟨cy, cx + 1, by rw [hcx, ← hcy]; rfl, hle⟩
        · split
          · exact ⟨cy + 1, 0, rfl, hlt⟩
          · exact ⟨cy, cx, by rw [← hsame], hle⟩
  | up =>
      by_cases hzero : s.cy = 0
      · refine ⟨cy, cx, ?_, hle⟩
        rw [moveArrow, if_neg (not_not_intro hzero), ← hsame]
      · have hpred : s.cy - 1 = ((cy - 1 : Nat) : Int) := by omega
        refine ⟨cy - 1, cx, ?_, Nat.le_trans (Nat.sub_le _ _) hle⟩
        rw [moveArrow, if_pos hzero, hpred, ← hcx]
  | down =>
      by_cases hlt : s.cy < s.numrows
      · refine ⟨cy + 1, cx, ?_, ?_⟩
        · rw [moveArrow, if_pos hlt, ← hcx, hcy]
          rfl
        · rw [hcy, h.numrows_eq] at hlt
          exact Int.ofNat_lt.1 hlt
      · refine ⟨cy, cx, ?_, hle⟩
        rw [moveArrow, if_neg hlt, ← hsame]

theorem editorMoveCursor_spec (h : Shows s text) {cy cx : Nat} (hcy : s.cy = cy) (hcx : s.cx = cx)
    (hle : cy ≤ text.length) {key : Arrow} (hkey : key = .right → cy = text.length → s.row = []) :
    ∃ cy' cx' : Nat, editorMoveCursor s key = .ok { s with cy := cy', cx := cx' } ∧
      cy' ≤ text.length ∧ cx' ≤ (text.line cy').length := by
  obtain ⟨cy', cx₁, hmove, hle'⟩ := moveArrow_spec h hcy hcx hle hkey
  have hmoved : Shows { s with cy := cy', cx := cx₁ } text := h
  obtain ⟨cx', hclamp, hlen⟩ := clampCursor_spec hmoved rfl rfl hle'
  exact ⟨cy', cx', by rw [editorMoveCursor, hmove, ok_bind, hclamp], hle', hlen⟩

/-- Moves up and down any number of times. -/
theorem moveRounds_spec (key : Arrow) (hkey : key ≠ .right) (n : Nat) : ∀ {s : EditorConfig},
    Shows s text → OnText s text →
      ∃ s', moveRounds key n s = .ok s' ∧ Shows s' text ∧ OnText s' text ∧
        s'.rowoff = s.rowoff ∧ s'.screenrows = s.screenrows := by
  induction n with
  | zero => exact fun h hon => ⟨_, rfl, h, hon, rfl, rfl⟩
  | succ n ih =>
      intro s h hon
      obtain ⟨cy, cx, hcy, hcx, hle, -⟩ := hon
      obtain ⟨cy', cx', hmove, hle', hlen'⟩ :=
        editorMoveCursor_spec h hcy hcx hle fun heq => absurd heq hkey
      obtain ⟨s', hrest, hshows, hon', hoff, hrows⟩ :=
        ih (s := { s with cy := cy', cx := cx' }) h ⟨cy', cx', rfl, rfl, hle', hlen'⟩
      exact ⟨s', by rw [moveRounds, hmove, ok_bind, hrest], hshows, hon', hoff, hrows⟩

/-- A page of moves, from any row: the first of them puts the cursor into its row. -/
theorem moveTimes_spec (h : Shows s text) {cy cx : Nat} (hcy : s.cy = cy) (hcx : s.cx = cx)
    (hle : cy ≤ text.length) {key : Arrow} (hkey : key ≠ .right) {times : Int}
    (htimes : 0 < times) :
    ∃ s', moveTimes key times s = .ok s' ∧ Shows s' text ∧ OnText s' text ∧
      s'.rowoff = s.rowoff ∧ s'.screenrows = s.screenrows := by
  obtain ⟨n, rfl⟩ : ∃ n : Nat, times = n + 1 := ⟨(times - 1).toNat, by omega⟩
  obtain ⟨cy', cx', hmove, hle', hlen'⟩ :=
    editorMoveCursor_spec h hcy hcx hle fun heq => absurd heq hkey
  obtain ⟨s', hrest, hshows, hon', hoff, hrows⟩ :=
    moveRounds_spec key hkey n (s := { s with cy := cy', cx := cx' }) h
      ⟨cy', cx', rfl, rfl, hle', hlen'⟩
  refine ⟨s', ?_, hshows, hon', hoff, hrows⟩
  rw [moveTimes, if_neg (by omega), show ((n : Int) + 1).toNat = n + 1 from rfl, moveRounds, hmove,
    ok_bind, hrest]

/-! ## Edits -/

theorem line_append_cons (above below : Text) (line : List UInt8) :
    Text.line (above ++ line :: below) above.length = line := by
  rw [Text.line, List.getD_append_right _ _ _ _ (Nat.le_refl _), Nat.sub_self, List.getD_cons_zero]

/-- An edit leaves the cursor at a position of the edited text. -/
theorem cursor_legal {e : EditAt} (hlegal : e.Legal text) :
    (text.cursor e).1 ≤ (text.apply e).length ∧
      (text.cursor e).2 ≤ (Text.line (text.apply e) (text.cursor e).1).length := by
  have htake := length_take_line hlegal.1
  have hline (line : List UInt8) (below : Text) :
      Text.line (text.take e.cy ++ line :: below) e.cy = line := by
    have := line_append_cons (text.take e.cy) below line
    rwa [htake] at this
  have hroom (line : List UInt8) (below : Text) :
      e.cy + 1 ≤ (text.take e.cy ++ line :: below).length := by
    rw [List.length_append, htake, List.length_cons]
    omega
  have hlen := hlegal.2
  unfold Text.cursor Text.apply
  cases e.edit with
  | insertChar c =>
      dsimp only
      refine ⟨Nat.le_of_succ_le (hroom _ _), ?_⟩
      rw [hline, List.length_append, List.length_take_of_le hlen, List.length_cons]
      exact Nat.add_le_add_left (Nat.succ_le_succ (Nat.zero_le _)) _
  | insertNewline =>
      dsimp only
      refine ⟨?_, Nat.zero_le _⟩
      by_cases hend : e.cy = text.length
      · rw [if_pos hend, List.length_append, hend]
        exact Nat.le_refl _
      · rw [if_neg hend]
        exact hroom _ _
  | deleteChar =>
      dsimp only
      by_cases hend : e.cy = text.length
      · rw [if_pos hend, if_pos hend]
        exact hlegal
      rw [if_neg hend, if_neg hend]
      by_cases hpos : 0 < e.cx
      · rw [if_pos hpos, if_pos hpos]
        dsimp only
        refine ⟨Nat.le_of_succ_le (hroom _ _), ?_⟩
        rw [hline, List.length_append,
          List.length_take_of_le (Nat.le_trans (Nat.sub_le _ _) hlen)]
        exact Nat.le_add_right _ _
      · rw [if_neg hpos, if_neg hpos]
        cases hk : e.cy with
        | zero => exact ⟨Nat.zero_le _, Nat.zero_le _⟩
        | succ k =>
            dsimp only
            have hk' : k ≤ text.length := by
              have := hlegal.1
              rw [hk] at this
              exact Nat.le_of_succ_le this
            have hjoin := line_append_cons (text.take k) (text.drop (k + 2))
              (text.line k ++ text.line (k + 1))
            rw [length_take_line hk'] at hjoin
            refine ⟨?_, ?_⟩
            · rw [List.length_append, length_take_line hk']
              exact Nat.le_add_right _ _
            · rw [hjoin, List.length_append]
              exact Nat.le_add_right _ _

/-- An edit at the cursor. -/
theorem perform_onText (junk : Nat → UInt8) (h : Shows s text) (hon : OnText s text) (edit : Edit) :
    ∃ s' text', perform junk s edit = .ok s' ∧ Shows s' text' ∧ OnText s' text' ∧
      s'.rowoff = s.rowoff ∧ s'.screenrows = s.screenrows := by
  obtain ⟨cy, cx, hcy, hcx, hle, hlen⟩ := hon
  have hlegal : (EditAt.mk cy cx edit).Legal text := ⟨hle, hlen⟩
  obtain ⟨s', hperform, hedited⟩ := perform_spec junk h hlegal hcy hcx
  exact ⟨s', _, hperform, hedited.shows, ⟨_, _, hedited.cy, hedited.cx, cursor_legal hlegal⟩,
    hedited.rowoff, hedited.screenrows⟩

/-! ## Keys -/

/-- The window has followed the cursor. -/
theorem editorScroll_spec (h : Shows s text) (hon : OnText s text) (hoff : 0 ≤ s.rowoff) :
    ∃ rx rowoff coloff, editorScroll s = .ok { s with rx := rx, rowoff := rowoff, coloff := coloff } ∧
      0 ≤ rowoff ∧ (0 < s.screenrows → rowoff ≤ s.cy) := by
  obtain ⟨cy, cx, hcy, hcx, hle, hlen⟩ := hon
  obtain ⟨rx, hrx⟩ : ∃ rx, cursorColumn s = .ok rx := by
    by_cases hlt : s.cy < s.numrows
    · have hlt' : cy < text.length := by
        rw [hcy, h.numrows_eq] at hlt
        exact Int.ofNat_lt.1 hlt
      obtain ⟨row, hrow, hshows⟩ := h.rowAt_line hlt'
      obtain ⟨rest, hchars⟩ := hshows.chars
      -- the characters left of the cursor
      have hload : Buffer.load row.chars 0 cx = some ((text.line cy).take cx) := by
        have := Buffer.load_append [] ((text.line cy).take cx) ((text.line cy).drop cx ++ ([0] ++ rest))
        rw [List.length_take_of_le hlen, List.nil_append, ← List.append_assoc,
          List.take_append_drop, ← List.append_assoc] at this
        rwa [← hchars]
      refine ⟨cxToRxLoop ((text.line cy).take cx) 0, ?_⟩
      rw [cursorColumn, if_pos hlt, hcy, hrow, ok_bind, editorRowCxToRx, hcx, Int.toNat_natCast, hload,
        access_some, ok_bind]
    · exact ⟨0, by rw [cursorColumn, if_neg hlt]⟩
  refine ⟨rx, _, _, by rw [editorScroll, hrx, ok_bind], ?_, ?_⟩
  · split <;> split <;> omega
  · split <;> split <;> omega

/-- A key is processed. -/
theorem editorProcessKey_spec (junk : Nat → UInt8) (h : Shows s text) (hon : OnText s text)
    {key : EditorKey} (hrow : OnRow s key) (hoff : 0 ≤ s.rowoff)
    (hpage : key = .pageUp ∨ key = .pageDown → 0 < s.screenrows ∧ s.rowoff ≤ s.cy) :
    ∃ s' text', editorProcessKey junk s key = .ok s' ∧ Shows s' text' ∧ OnText s' text' ∧
      s'.rowoff = s.rowoff ∧ s'.screenrows = s.screenrows := by
  have hon' := hon
  obtain ⟨cy, cx, hcy, hcx, hle, hlen⟩ := hon'
  have hmoveKey {a : Arrow} (ha : a = .right → key = .arrow .right ∨ key = .delete) :
      ∃ s', editorMoveCursor s a = .ok s' ∧ Shows s' text ∧ OnText s' text ∧
        s'.rowoff = s.rowoff ∧ s'.screenrows = s.screenrows := by
    obtain ⟨cy', cx', hmove, hle', hlen'⟩ := editorMoveCursor_spec h hcy hcx hle fun heq hend =>
      hrow (ha heq) (by rw [hcy, hend, h.numrows_eq])
    exact ⟨_, hmove, h, ⟨cy', cx', rfl, rfl, hle', hlen'⟩, rfl, rfl⟩
  cases key with
  | enter => exact perform_onText junk h hon .insertNewline
  | home => exact ⟨_, text, rfl, h, ⟨cy, 0, hcy, rfl, hle, Nat.zero_le _⟩, rfl, rfl⟩
  | «end» =>
      by_cases hlt : s.cy < s.numrows
      · have hlt' : cy < text.length := by
          rw [hcy, h.numrows_eq] at hlt
          exact Int.ofNat_lt.1 hlt
        obtain ⟨row, hrowAt, hshows⟩ := h.rowAt_line hlt'
        refine ⟨{ s with cx := row.size }, text, ?_, h,
          ⟨cy, row.size, hcy, rfl, hle, Nat.le_of_eq hshows.size⟩, rfl, rfl⟩
        rw [editorProcessKey, if_pos hlt, hcy, hrowAt, ok_bind]
      · exact ⟨s, text, by rw [editorProcessKey, if_neg hlt], h, hon, rfl, rfl⟩
  | backspace => exact perform_onText junk h hon .deleteChar
  | delete =>
      obtain ⟨s₁, hmove, h₁, hon₁, hoff₁, hrows₁⟩ := hmoveKey fun _ => Or.inr rfl
      obtain ⟨s', text', hdelete, h', hon', hoff', hrows'⟩ := perform_onText junk h₁ hon₁ .deleteChar
      exact ⟨s', text', by rw [editorProcessKey, hmove, ok_bind]; exact hdelete, h', hon',
        hoff'.trans hoff₁, hrows'.trans hrows₁⟩
  | pageUp =>
      obtain ⟨hpos, hbelow⟩ := hpage (Or.inl rfl)
      obtain ⟨k, hk⟩ := Int.eq_ofNat_of_zero_le hoff
      have hk' : k ≤ text.length := by omega
      have hpaged : Shows { s with cy := s.rowoff } text := h
      obtain ⟨s', hmove, h', hon', hframe⟩ := moveTimes_spec hpaged hk hcx hk'
        (by decide : Arrow.up ≠ .right) hpos
      exact ⟨s', text, hmove, h', hon', hframe⟩
  | pageDown =>
      obtain ⟨hpos, -⟩ := hpage (Or.inr rfl)
      have hnum := h.numrows_eq
      obtain ⟨k, hk, hk'⟩ : ∃ k : Nat, (if s.rowoff + s.screenrows - 1 > s.numrows then
          (s.numrows : Int) else s.rowoff + s.screenrows - 1) = k ∧ k ≤ text.length := by
        split
        · exact ⟨s.numrows, rfl, Nat.le_of_eq hnum⟩
        · exact ⟨(s.rowoff + s.screenrows - 1).toNat, by omega, by omega⟩
      have hpaged : Shows { s with cy := k } text := h
      obtain ⟨s', hmove, h', hon', hframe⟩ := moveTimes_spec hpaged rfl hcx hk'
        (by decide : Arrow.down ≠ .right) hpos
      refine ⟨s', text, ?_, h', hon', hframe⟩
      rw [editorProcessKey, ← hmove, ← hk]
  | arrow a =>
      obtain ⟨s', hmove, h', hon', hframe⟩ := @hmoveKey a fun heq => Or.inl (by rw [heq])
      exact ⟨s', text, hmove, h', hon', hframe⟩
  | char c => exact perform_onText junk h hon (.insertChar c)

/-! ## Runs -/

/-- What the rounds of the main loop keep. -/
def Edits (s : EditorConfig) : Prop := ∃ text, Shows s text ∧ OnText s text ∧ 0 ≤ s.rowoff

theorem Edits.cursorOk (h : Edits s) : CursorOk s := by
  obtain ⟨text, hshows, hon, -⟩ := h
  exact hon.cursorOk hshows

/-- A round, for a key that meets the condition. -/
theorem keyStep_spec (h : Edits s) {op : (Nat → UInt8) × EditorKey} (hop : KeyOk s op) :
    ∃ s', keyStep s op = .ok ((), s') ∧ Edits s' ∧ s'.screenrows = s.screenrows := by
  obtain ⟨text, hshows, hon, hoff⟩ := h
  obtain ⟨rx, rowoff, coloff, hscroll, hoff', hbelow⟩ := editorScroll_spec hshows hon hoff
  have hscrolled : Shows { s with rx := rx, rowoff := rowoff, coloff := coloff } text := hshows
  obtain ⟨s', text', hkey, hshows', hon', hrowoff, hrows⟩ :=
    editorProcessKey_spec op.1 hscrolled hon hop.1 hoff' fun hpage =>
      ⟨hop.2 hpage, hbelow (hop.2 hpage)⟩
  refine ⟨s', ?_, ⟨text', hshows', hon', ?_⟩, hrows⟩
  · rw [keyStep, hscroll, ok_bind, hkey, ok_bind]
  · rw [hrowoff]
    exact hoff'

/-- A move right from the row past the last one reads a row that is not there. -/
theorem keyStep_offRow (h : Edits s) {op : (Nat → UInt8) × EditorKey} (hop : ¬ OnRow s op.2) :
    keyStep s op = .error .badAccess := by
  obtain ⟨text, hshows, hon, hoff⟩ := h
  obtain ⟨rx, rowoff, coloff, hscroll, -, -⟩ := editorScroll_spec hshows hon hoff
  have hscrolled : Shows { s with rx := rx, rowoff := rowoff, coloff := coloff } text := hshows
  rw [OnRow, Classical.not_imp, Classical.not_imp] at hop
  obtain ⟨hkey, hend, hrow⟩ := hop
  have hnull : ¬ (s.cy > s.numrows ∨ s.row.isEmpty) := by
    rintro (hgt | hempty)
    · omega
    · exact hrow (List.isEmpty_iff.1 hempty)
  have hmove : editorMoveCursor { s with rx := rx, rowoff := rowoff, coloff := coloff } .right =
      .error .badAccess := by
    have hread : EditorConfig.rowAt { s with rx := rx, rowoff := rowoff, coloff := coloff } s.cy =
        .error .badAccess := by
      have hcy : s.cy = (text.length : Int) := hend.trans (congrArg _ hshows.numrows_eq)
      exact (congrArg _ hcy).trans (Shows.rowAt_end hscrolled)
    rw [editorMoveCursor, moveArrow, if_neg hnull, hread]
    rfl
  rw [keyStep, hscroll, ok_bind]
  rcases hkey with hkey | hkey
  · rw [hkey, editorProcessKey, hmove]
    rfl
  · rw [hkey, editorProcessKey, hmove]
    rfl

/-- A file is opened, with the cursor at its beginning. -/
theorem editorOpen_edits (junk : Nat → UInt8) (lines : Text) (screenrows screencols : Int) :
    ∃ s, editorOpen junk (editorInit screenrows screencols) lines = .ok s ∧ Edits s ∧
      s.screenrows = screenrows := by
  obtain ⟨s, hopen, hshows, hcy, hcx, hoff, hrows⟩ :=
    editorOpen_shows junk lines (shows_editorInit screenrows screencols)
  exact ⟨s, hopen, ⟨lines, hshows, ⟨0, 0, hcy, hcx, Nat.zero_le _, Nat.zero_le _⟩,
    Int.le_of_eq hoff.symm⟩, hrows⟩

end Text

/-- In every run whose keys meet the condition, each key leaves the cursor in place and reaches
rows in use only; and when the window has a line, no other run does so. -/
theorem editor_cursor (junk : Nat → UInt8) (lines : Text) (screenrows screencols : Int)
    (ops : List ((Nat → UInt8) × EditorKey)) :
    ∃ s, editorOpen junk (editorInit screenrows screencols) lines = .ok s ∧ CursorOk s ∧
      (Along keyStep KeyOk s ops →
        (∃ rs s', run keyStep s ops = .ok (rs, s')) ∧
          Throughout keyStep (fun _ _ _ s' => CursorOk s') s ops) ∧
      (0 < screenrows → (∃ rs s', run keyStep s ops = .ok (rs, s')) → Along keyStep KeyOk s ops) := by
  obtain ⟨s, hopen, hedits, hrows⟩ := editorOpen_edits junk lines screenrows screencols
  refine ⟨s, hopen, hedits.cursorOk, fun halong => ⟨?_, ?_⟩, fun hpos hrun => ?_⟩
  · obtain ⟨rs, s', hrun, -⟩ := run_of_along Edits (fun s₁ op h hop => by
      obtain ⟨s', hstep, h', -⟩ := keyStep_spec h hop
      exact ⟨(), s', hstep, h'⟩) hedits halong
    exact ⟨rs, s', hrun⟩
  · refine throughout_of_along Edits (fun s₁ op r s₂ h hop hstep => ?_) hedits halong
    obtain ⟨s', hstep', h', -⟩ := keyStep_spec h hop
    rw [hstep', Except.ok.injEq, Prod.mk.injEq] at hstep
    obtain ⟨-, rfl⟩ := hstep
    exact ⟨h'.cursorOk, h'⟩
  · -- a key that does not meet the condition stops the run
    have hstop (s₁ : EditorConfig) (op : (Nat → UInt8) × EditorKey)
        (h : Edits s₁ ∧ 0 < s₁.screenrows) (r : Unit) (s₂ : EditorConfig)
        (hstep : keyStep s₁ op = .ok (r, s₂)) : KeyOk s₁ op := by
      refine ⟨?_, fun _ => h.2⟩
      by_contra hoff
      rw [keyStep_offRow h.1 hoff] at hstep
      cases hstep
    refine (run_returns_iff_along (fun s => Edits s ∧ 0 < s.screenrows) (fun s₁ op h => ⟨?_, ?_⟩)
      (fun s₁ op r s₂ h hstep => ?_) ⟨hedits, by rwa [hrows]⟩).1 hrun
    · intro hop
      obtain ⟨s', hstep, -, -⟩ := keyStep_spec h.1 hop
      exact ⟨(), s', hstep⟩
    · rintro ⟨r, s₂, hstep⟩
      exact hstop s₁ op h r s₂ hstep
    · obtain ⟨s', hstep', h', hkeep⟩ := keyStep_spec h.1 (hstop s₁ op h r s₂ hstep)
      rw [hstep', Except.ok.injEq, Prod.mk.injEq] at hstep
      obtain ⟨-, rfl⟩ := hstep
      exact ⟨h', by rw [hkeep]; exact h.2⟩

/-- A file of one line: down, and right. -/
theorem not_editor_cursor :
    ∃ s, editorOpen (fun _ => 0) (editorInit 22 80) [[0x61]] = .ok s ∧ CursorOk s ∧
      run keyStep s [((fun _ => 0), .arrow .down), ((fun _ => 0), .arrow .right)] =
        .error .badAccess := by
  obtain ⟨s, hopen, hedits, -⟩ := editorOpen_edits (fun _ => 0) [[0x61]] 22 80
  refine ⟨s, hopen, hedits.cursorOk, ?_⟩
  have hrun : (editorOpen (fun _ => 0) (editorInit 22 80) [[0x61]]).bind (fun s =>
      (run keyStep s [((fun _ => 0), .arrow .down), ((fun _ => 0), .arrow .right)]).map (·.1)) =
        .error .badAccess := by
    decide
  rw [hopen] at hrun
  cases hcase : run keyStep s [((fun _ => 0), .arrow .down), ((fun _ => 0), .arrow .right)] with
  | error e =>
      rw [Except.bind, hcase, Except.map, Except.error.injEq] at hrun
      rw [hrun]
  | ok q =>
      rw [Except.bind, hcase] at hrun
      cases hrun

end Nano

end Vmwos
