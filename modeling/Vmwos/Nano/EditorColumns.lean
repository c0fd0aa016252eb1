import Vmwos.Nano.EditorText
import Mathlib.Data.Nat.Bitwise

/-!
# Characters and rendered columns

`editor_row_cx_to_rx` finds the column a character of a row is rendered at, and
`editor_row_rx_to_cx` the character a rendered column belongs to. A character is rendered in the
cells from its own start column to that of the next one. The second function adds up the columns
with the tab stop as a bit mask: a tab then takes a whole tab stop where bit 3 of the column is
clear, and no column where it is set. The two functions are inverse on a row just when each of
its tabs begins at a multiple of two tab stops.
-/

set_option autoImplicit false

namespace Vmwos

open Library

namespace Nano

/-- The loop of `editor_row_rx_to_cx`, at character `cx` with the column `curRx`. -/
def rxToCxLoop (rx : Int) : List UInt8 → Nat → Nat → Nat
  | [], cx, _ => cx
  | c :: chars, cx, curRx =>
      let curRx := if c = 0x09 then curRx + (nanoTabStop - 1) - (curRx &&& nanoTabStop) else curRx
      let curRx := curRx + 1
      if (curRx : Int) > rx then cx else rxToCxLoop rx chars (cx + 1) curRx

/-- `editor_row_rx_to_cx` -/
def editorRowRxToCx (row : EditorRow) (rx : Int) : Except Stuck Int := do
  let chars ← access (Buffer.load row.chars 0 row.size)
  .ok (rxToCxLoop rx chars 0 0)

/-! ## The columns of a line -/

/-- The column at which the character at a position is rendered, in a line that begins at column
`col`. -/
def startColumn (col : Nat) (line : List UInt8) (cx : Nat) : Nat :=
  col + (expandTabs col (line.take cx)).length

/-- The number of columns a character takes. -/
def advance (col : Nat) (c : UInt8) : Nat :=
  if c = 0x09 then nanoTabStop - col % nanoTabStop else 1

/-- Every tab begins at a multiple of two tab stops. -/
def TabsAligned (col : Nat) (chars : List UInt8) : Prop :=
  ∀ cx : Nat, chars[cx]? = some 0x09 → startColumn col chars cx % (2 * nanoTabStop) = 0

/-- The two functions are inverse: a character is found again at its column, and at every rendered
column the character whose cells it is among. -/
def ColumnsInverse (row : EditorRow) (line : List UInt8) : Prop :=
  (∀ cx : Nat, cx ≤ row.size → ∃ rx,
    editorRowCxToRx row cx = .ok rx ∧ editorRowRxToCx row rx = .ok cx) ∧
  ∀ rx : Nat, rx < row.rsize → ∃ cx : Nat, editorRowRxToCx row rx = .ok cx ∧ cx < row.size ∧
    startColumn 0 line cx ≤ rx ∧ rx < startColumn 0 line (cx + 1)

section Columns

variable {col cx : Nat} {c : UInt8} {line : List UInt8}

theorem advance_pos (col : Nat) (c : UInt8) : 0 < advance col c := by
  rw [advance]
  split
  · exact Nat.sub_pos_of_lt (Nat.mod_lt _ (by decide))
  · exact Nat.one_pos

theorem length_expandTabs_cons (col : Nat) (c : UInt8) (line : List UInt8) :
    (expandTabs col (c :: line)).length =
      advance col c + (expandTabs (col + advance col c) line).length := by
  by_cases hc : c = 0x09
  · rw [expandTabs, if_pos hc, advance, if_pos hc, List.length_append, List.length_replicate]
  · rw [expandTabs, if_neg hc, advance, if_neg hc, List.length_cons, Nat.add_comm]

@[simp] theorem startColumn_zero (col : Nat) (line : List UInt8) : startColumn col line 0 = col := rfl

theorem startColumn_cons_succ (col : Nat) (c : UInt8) (line : List UInt8) (cx : Nat) :
    startColumn col (c :: line) (cx + 1) = startColumn (col + advance col c) line cx := by
  rw [startColumn, List.take_succ_cons, length_expandTabs_cons, startColumn, Nat.add_assoc]

theorem le_startColumn (col : Nat) (line : List UInt8) (cx : Nat) : col ≤ startColumn col line cx :=
  Nat.le_add_right _ _

theorem startColumn_append (col : Nat) (pre rest : List UInt8) :
    startColumn col (pre ++ rest) pre.length = startColumn col pre pre.length := by
  rw [startColumn, startColumn, List.take_left, List.take_length]

/-- The character after one that begins at column `c`. -/
theorem startColumn_append_succ (col : Nat) (pre : List UInt8) (c : UInt8) (post : List UInt8) :
    startColumn col (pre ++ c :: post) (pre.length + 1) =
      startColumn col pre pre.length + advance (startColumn col pre pre.length) c := by
  induction pre generalizing col with
  | nil => exact startColumn_cons_succ col c post 0
  | cons d pre ih =>
      rw [List.cons_append, List.length_cons, startColumn_cons_succ, startColumn_cons_succ, ih]

/-- Every column the line is rendered in belongs to a character. -/
theorem exists_startColumn (line : List UInt8) : ∀ {col rx : Nat}, col ≤ rx →
    rx < startColumn col line line.length → ∃ cx < line.length,
      startColumn col line cx ≤ rx ∧ rx < startColumn col line (cx + 1) := by
  induction line with
  | nil =>
      intro col rx hle hlt
      exact absurd hle (Nat.not_le.2 hlt)
  | cons c line ih =>
      intro col rx hle hlt
      rcases Nat.lt_or_ge rx (col + advance col c) with hfirst | hlater
      · refine ⟨0, Nat.succ_pos _, hle, ?_⟩
        rwa [startColumn_cons_succ, startColumn_zero]
      · rw [List.length_cons, startColumn_cons_succ] at hlt
        obtain ⟨cx, hcx, hstart, hnext⟩ := ih hlater hlt
        refine ⟨cx + 1, Nat.succ_lt_succ hcx, ?_, ?_⟩
        · rwa [startColumn_cons_succ]
        · rwa [startColumn_cons_succ]

theorem tabsAligned_cons : TabsAligned col (c :: line) ↔
    (c = 0x09 → col % (2 * nanoTabStop) = 0) ∧ TabsAligned (col + advance col c) line := by
  constructor
  · intro h
    refine ⟨fun hc => h 0 (congrArg some hc), fun cx hcx => ?_⟩
    have := h (cx + 1) hcx
    rwa [startColumn_cons_succ] at this
  · rintro ⟨hfirst, hrest⟩ cx hcx
    cases cx with
    | zero => exact hfirst (Option.some.inj hcx)
    | succ cx =>
        rw [startColumn_cons_succ]
        exact hrest cx hcx

/-- The first tab that is not aligned. -/
theorem exists_tab_of_not_tabsAligned (line : List UInt8) : ∀ {col : Nat}, ¬ TabsAligned col line →
    ∃ pre post, line = pre ++ 0x09 :: post ∧ TabsAligned col pre ∧
      startColumn col pre pre.length % (2 * nanoTabStop) ≠ 0 := by
  induction line with
  | nil =>
      intro col h
      refine absurd ?_ h
      intro cx hcx
      cases hcx
  | cons c line ih =>
      intro col h
      by_cases hfirst : c = 0x09 → col % (2 * nanoTabStop) = 0
      · have hrest : ¬ TabsAligned (col + advance col c) line := fun hrest =>
          h (tabsAligned_cons.2 ⟨hfirst, hrest⟩)
        obtain ⟨pre, post, rfl, hpre, hcol⟩ := ih hrest
        refine ⟨c :: pre, post, rfl, tabsAligned_cons.2 ⟨hfirst, hpre⟩, ?_⟩
        rwa [List.length_cons, startColumn_cons_succ]
      · rw [Classical.not_imp] at hfirst
        obtain ⟨rfl, hcol⟩ := hfirst
        refine ⟨[], line, rfl, ?_, hcol⟩
        intro cx hcx
        cases hcx

end Columns

/-! ## The loops -/

section Loops

variable {col rx : Nat} {line : List UInt8}

theorem cxToRxLoop_eq (line : List UInt8) : ∀ col : Nat,
    cxToRxLoop line col = col + (expandTabs col line).length := by
  induction line with
  | nil => exact fun _ => rfl
  | cons c line ih =>
      intro col
      rw [cxToRxLoop, length_expandTabs_cons, ← Nat.add_assoc]
      by_cases hc : c = 0x09
      · have hmod : col % nanoTabStop < nanoTabStop := Nat.mod_lt _ (by decide)
        have hnext : col + (nanoTabStop - 1 - col % nanoTabStop) + 1 = col + advance col c := by
          rw [advance, if_pos hc]
          omega
        simp only [if_pos hc]
        rw [hnext, ih]
      · have hnext : col + 1 = col + advance col c := by
          rw [advance, if_neg hc]
        simp only [if_neg hc]
        rw [hnext, ih]

/-- The mask keeps bit 3 of the column. -/
theorem and_nanoTabStop (col : Nat) :
    col &&& nanoTabStop = if col % (2 * nanoTabStop) < nanoTabStop then 0 else nanoTabStop := by
  have hbit : col &&& 2 ^ 3 = (col.testBit 3).toNat * 2 ^ 3 := Nat.and_two_pow col 3
  rw [Nat.testBit_eq_decide_div_mod_eq] at hbit
  have hshift : (2 : Nat) ^ 3 = nanoTabStop := rfl
  rw [hshift] at hbit
  rw [hbit]
  unfold nanoTabStop
  split
  · rw [decide_eq_false (by omega)]
    rfl
  · rw [decide_eq_true (by omega)]
    rfl

/-- What a tab adds to the column in `editor_row_rx_to_cx`. -/
theorem masked_tab (col : Nat) : col + (nanoTabStop - 1) - (col &&& nanoTabStop) + 1 =
    if col % (2 * nanoTabStop) < nanoTabStop then col + nanoTabStop else col := by
  rw [and_nanoTabStop]
  unfold nanoTabStop
  split <;> omega

/-- A character whose column is right. -/
theorem rxToCxLoop_cons {c : UInt8} (hc : c = 0x09 → col % (2 * nanoTabStop) = 0)
    (line : List UInt8) (rx cx : Nat) :
    rxToCxLoop rx (c :: line) cx col =
      if col + advance col c > rx then cx
      else rxToCxLoop rx line (cx + 1) (col + advance col c) := by
  have hnext : (if c = 0x09 then col + (nanoTabStop - 1) - (col &&& nanoTabStop) else col) + 1 =
      col + advance col c := by
    rw [advance]
    split
    · rename_i htab
      have halign := hc htab
      have hstop : col % nanoTabStop = 0 := by
        unfold nanoTabStop at *
        omega
      rw [masked_tab, halign, if_pos (by decide), hstop]
      rfl
    · rfl
  simp only [rxToCxLoop, hnext, gt_iff_lt, Int.ofNat_lt]

theorem le_rxToCxLoop (rx : Int) (line : List UInt8) : ∀ cx col : Nat,
    cx ≤ rxToCxLoop rx line cx col := by
  induction line with
  | nil => exact fun cx _ => Nat.le_refl cx
  | cons c line ih =>
      intro cx col
      simp only [rxToCxLoop]
      generalize (if c = 0x09 then col + (nanoTabStop - 1) - (col &&& nanoTabStop) else col) = next
      split
      · exact Nat.le_refl cx
      · exact Nat.le_trans (Nat.le_succ cx) (ih _ _)

/-- Up to a column that begins after `pre`, the loop passes over `pre`. -/
theorem rxToCxLoop_append (pre rest : List UInt8) : ∀ {cx col : Nat}, TabsAligned col pre →
    startColumn col pre pre.length ≤ rx →
      rxToCxLoop rx (pre ++ rest) cx col =
        rxToCxLoop rx rest (cx + pre.length) (startColumn col pre pre.length) := by
  induction pre with
  | nil => exact fun _ _ => rfl
  | cons c pre ih =>
      intro cx col halign hle
      rw [tabsAligned_cons] at halign
      rw [List.length_cons, startColumn_cons_succ] at hle ⊢
      have hnot : ¬ col + advance col c > rx :=
        Nat.not_lt.2 (Nat.le_trans (le_startColumn _ _ _) hle)
      rw [List.cons_append, rxToCxLoop_cons halign.1, if_neg hnot, ih halign.2 hle, Nat.add_assoc,
        Nat.add_comm 1]

/-- With aligned tabs the loop finds the character a column belongs to. -/
theorem rxToCxLoop_cell (line : List UInt8) : ∀ {start col cx : Nat}, TabsAligned col line →
    cx < line.length → startColumn col line cx ≤ rx → rx < startColumn col line (cx + 1) →
      rxToCxLoop rx line start col = start + cx := by
  induction line with
  | nil =>
      intro start col cx _ hcx
      exact absurd hcx (Nat.not_lt_zero cx)
  | cons c line ih =>
      intro start col cx halign hcx hstart hnext
      rw [tabsAligned_cons] at halign
      rw [startColumn_cons_succ] at hnext
      rw [rxToCxLoop_cons halign.1]
      cases cx with
      | zero => exact if_pos hnext
      | succ cx =>
          rw [startColumn_cons_succ] at hstart
          have hnot : ¬ col + advance col c > rx :=
            Nat.not_lt.2 (Nat.le_trans (le_startColumn _ _ _) hstart)
          rw [if_neg hnot, ih halign.2 (Nat.lt_of_succ_lt_succ hcx) hstart hnext, Nat.add_assoc,
            Nat.add_comm 1]

/-- Past the rendered columns the loop ends behind the last character. -/
theorem rxToCxLoop_end (halign : TabsAligned col line) (start : Nat)
    (hle : startColumn col line line.length ≤ rx) :
    rxToCxLoop rx line start col = start + line.length := by
  have := @rxToCxLoop_append rx line [] start col halign hle
  rwa [List.append_nil] at this

/-- At a tab that is not aligned, the loop misses the tab's own first column or the column after
the tab. -/
theorem rxToCxLoop_tab (hcol : col % (2 * nanoTabStop) ≠ 0) (post : List UInt8) (cx : Nat) :
    rxToCxLoop col (0x09 :: post) cx col ≠ cx ∨
      rxToCxLoop (col + advance col 0x09 : Nat) (0x09 :: post) cx col ≠ cx + 1 := by
  simp only [rxToCxLoop, if_true]
  rw [masked_tab]
  by_cases hbit : col % (2 * nanoTabStop) < nanoTabStop
  · -- a whole tab stop is added, which is more than the tab has
    right
    have hmore : ((col + nanoTabStop : Nat) : Int) > (col + advance col 0x09 : Nat) := by
      have hmod : col % nanoTabStop ≠ 0 := by
        unfold nanoTabStop at *
        omega
      rw [advance, if_pos rfl]
      omega
    rw [if_pos hbit, if_pos hmore]
    exact (Nat.succ_ne_self cx).symm
  · -- nothing is added, and the loop goes on
    left
    rw [if_neg hbit, if_neg (Int.lt_irrefl _)]
    exact Nat.ne_of_gt (le_rxToCxLoop _ post (cx + 1) _)

end Loops

/-! ## Rows -/

section Rows

variable {k : Int} {row : EditorRow} {line : List UInt8}

theorem RowShows.cxToRx (h : RowShows k row line) {cx : Nat} (hcx : cx ≤ line.length) :
    editorRowCxToRx row cx = .ok (startColumn 0 line cx : Nat) := by
  obtain ⟨rest, hrest⟩ := h.chars
  have hload : Buffer.load row.chars 0 cx = some (line.take cx) := by
    have := Buffer.load_append [] (line.take cx) (line.drop cx ++ ([0] ++ rest))
    rw [← hrest, List.append_assoc]
    rwa [List.nil_append, ← List.append_assoc, List.take_append_drop, List.length_take,
      Nat.min_eq_left hcx] at this
  rw [editorRowCxToRx, Int.toNat_natCast, hload, access_some, ok_bind, cxToRxLoop_eq, startColumn]

theorem RowShows.rxToCx (h : RowShows k row line) (rx : Int) :
    editorRowRxToCx row rx = .ok (rxToCxLoop rx line 0 0) := by
  obtain ⟨rest, hrest⟩ := h.chars
  have hload : Buffer.load row.chars 0 row.size = some line := by
    have := Buffer.load_append [] line ([0] ++ rest)
    rw [← hrest, h.size, List.append_assoc]
    exact this
  rw [editorRowRxToCx, hload, access_some, ok_bind]

theorem RowShows.rsize_eq (h : RowShows k row line) :
    row.rsize = startColumn 0 line line.length := by
  rw [h.rsize, startColumn, List.take_length, Nat.zero_add]

theorem RowShows.columnsInverse (h : RowShows k row line) (halign : TabsAligned 0 line) :
    ColumnsInverse row line := by
  have hcell (rx cx : Nat) (hcx : cx < line.length) (hle : startColumn 0 line cx ≤ rx)
      (hlt : rx < startColumn 0 line (cx + 1)) : editorRowRxToCx row rx = .ok cx := by
    rw [h.rxToCx, rxToCxLoop_cell line halign hcx hle hlt, Nat.zero_add]
  constructor
  · intro cx hcx
    rw [h.size] at hcx
    refine ⟨_, h.cxToRx hcx, ?_⟩
    rcases Nat.lt_or_eq_of_le hcx with hlt | rfl
    · apply hcell _ _ hlt (Nat.le_refl _)
      -- a character takes a column at least
      obtain ⟨c, hsplit⟩ : ∃ c, line = line.take cx ++ c :: line.drop (cx + 1) :=
        ⟨line.get ⟨cx, hlt⟩, by
          rw [List.get_eq_getElem, List.getElem_cons_drop, List.take_append_drop]⟩
      have hlen : (line.take cx).length = cx := List.length_take_of_le hcx
      have hstart := startColumn_append 0 (line.take cx) (c :: line.drop (cx + 1))
      have hnext := startColumn_append_succ 0 (line.take cx) c (line.drop (cx + 1))
      rw [← hsplit, hlen] at hstart hnext
      rw [hnext, ← hstart]
      exact Nat.lt_add_of_pos_right (advance_pos _ _)
    · rw [h.rxToCx, rxToCxLoop_end halign 0 (Nat.le_refl _), Nat.zero_add]
  · intro rx hrx
    rw [h.rsize_eq] at hrx
    obtain ⟨cx, hcx, hle, hlt⟩ := exists_startColumn line (Nat.zero_le rx) hrx
    exact ⟨cx, hcell rx cx hcx hle hlt, h.size ▸ hcx, hle, hlt⟩

theorem RowShows.tabsAligned (h : RowShows k row line) (hinv : ColumnsInverse row line) :
    TabsAligned 0 line := by
  by_contra hnot
  obtain ⟨pre, post, rfl, halign, hcol⟩ := exists_tab_of_not_tabsAligned line hnot
  -- a character of the row is found again at its column
  have hback (cx : Nat) (hcx : cx ≤ (pre ++ 0x09 :: post).length) :
      rxToCxLoop (startColumn 0 (pre ++ 0x09 :: post) cx : Nat) (pre ++ 0x09 :: post) 0 0 = cx := by
    obtain ⟨rx, hrx, hcx'⟩ := hinv.1 cx (h.size ▸ hcx)
    rw [h.cxToRx hcx, Except.ok.injEq] at hrx
    rw [← hrx, h.rxToCx, Except.ok.injEq] at hcx'
    exact Int.ofNat.inj hcx'
  have hlen : (pre ++ 0x09 :: post).length = pre.length + (post.length + 1) :=
    List.length_append
  have hfirst := hback pre.length (hlen ▸ Nat.le_add_right _ _)
  have hsecond := hback (pre.length + 1) (by rw [hlen]; omega)
  rw [startColumn_append, rxToCxLoop_append pre _ halign (Nat.le_refl _), Nat.zero_add] at hfirst
  rw [startColumn_append_succ, rxToCxLoop_append pre _ halign (Nat.le_add_right _ _),
    Nat.zero_add] at hsecond
  exact (rxToCxLoop_tab hcol post pre.length).elim (fun hne => hne hfirst) fun hne => hne hsecond

end Rows

/-- On a row that has been rendered the two functions are inverse exactly when every tab begins at
a column that is a multiple of two tab stops. -/
theorem columnsInverse_iff (junk : Nat → UInt8) (row : EditorRow) (line : List UInt8)
    (hsize : row.size = line.length) (hchars : line ++ [0] <+: row.chars) :
    ∃ row', editorUpdateRow junk row = .ok row' ∧ row'.size = line.length ∧
      line ++ [0] <+: row'.chars ∧ row'.rsize = startColumn 0 line line.length ∧
      expandTabs 0 line ++ [0] <+: row'.render ∧
      (ColumnsInverse row' line ↔ TabsAligned 0 line) := by
  obtain ⟨row', hrow', hshows⟩ := editorUpdateRow_spec junk row line hsize hchars
  exact ⟨row', hrow', hshows.size, hshows.chars, hshows.rsize_eq, hshows.render,
    hshows.tabsAligned, hshows.columnsInverse⟩

/-- A tab, and a second one sixteen columns on. -/
theorem columnsInverse_iff_twoTabs :
    ∃ row', editorUpdateRow (fun _ => 0xff)
        ⟨0, 10, 0, [0x09, 0x61, 0x62, 0x63, 0x64, 0x65, 0x66, 0x67, 0x68, 0x09, 0], [], [], 0⟩ =
          .ok row' ∧
      ColumnsInverse row' [0x09, 0x61, 0x62, 0x63, 0x64, 0x65, 0x66, 0x67, 0x68, 0x09] := by
  obtain ⟨row', hrow', -, -, -, -, hiff⟩ := columnsInverse_iff (fun _ => 0xff)
    ⟨0, 10, 0, [0x09, 0x61, 0x62, 0x63, 0x64, 0x65, 0x66, 0x67, 0x68, 0x09, 0], [], [], 0⟩
    [0x09, 0x61, 0x62, 0x63, 0x64, 0x65, 0x66, 0x67, 0x68, 0x09] rfl ⟨[], rfl⟩
  refine ⟨row', hrow', hiff.2 ?_⟩
  intro cx hcx
  have hall : ∀ i < 10, [(9 : UInt8), 97, 98, 99, 100, 101, 102, 103, 104, 9][i]? = some 9 →
      startColumn 0 [9, 97, 98, 99, 100, 101, 102, 103, 104, 9] i % (2 * nanoTabStop) = 0 := by
    decide
  exact hall cx (List.getElem?_eq_some_iff.1 hcx).1 hcx

/-- In a row of a letter, a tab and a letter, the second letter is at column 8, and the tab is
found there. -/
theorem not_columnsInverse :
    ¬ ∀ (junk : Nat → UInt8) (row row' : EditorRow) (line : List UInt8),
      row.size = line.length → line ++ [0] <+: row.chars → editorUpdateRow junk row = .ok row' →
        ColumnsInverse row' line := by
  intro h
  obtain ⟨row', hrow', hshows⟩ := editorUpdateRow_spec (fun _ => 0)
    ⟨0, 3, 0, [0x61, 0x09, 0x62, 0], [], [], 0⟩ [0x61, 0x09, 0x62] rfl ⟨[], rfl⟩
  have hinv := h _ _ row' [0x61, 0x09, 0x62] rfl ⟨[], rfl⟩ hrow'
  have halign := hshows.tabsAligned hinv 1 rfl
  exact absurd halign (by decide)

end Nano

end Vmwos
