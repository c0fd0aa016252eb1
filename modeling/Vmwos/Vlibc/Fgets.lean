import Vmwos.Vlibc.Stdio

/-!
# Lines read into a buffer

`fgets` counts the characters it has stored before a newline, and not the newline. So an empty line
looks like the end of the file, the NUL goes one behind an unterminated line, and behind the buffer
where it is full; a byte that comes then has been read and is lost. `fgets_lossless_iff` says for
which files and buffers the calls still give the content.
-/

set_option autoImplicit false

namespace Vmwos

open Library

namespace Fgets

/-! ## What `fgets` should do -/

/-- The string in a buffer. -/
def stringOf (s : List UInt8) : CString := s.takeWhile (· ≠ 0)

/-- Calls of `fgets` with one buffer until NULL is returned: the strings. -/
def fgetsAll (size : Int) : Nat → InFile → List UInt8 → Except Stuck (List CString)
  | 0, _, _ => .error .endless
  | calls + 1, stream, s => do
      let (found, s, stream) ← fgets s size stream
      if found then do
        let strings ← fgetsAll size calls stream s
        .ok (stringOf s :: strings)
      else .ok []

/-- The strings are what a content is cut into: each ends at its first newline, where the buffer is
full, or where the file ends. -/
def Pieces (size : Nat) : List UInt8 → List CString → Prop
  | content, [] => content = []
  | content, string :: strings => ∃ rest, content = string ++ rest ∧ string ≠ [] ∧
      string.length + 1 ≤ size ∧ 0x0a ∉ string.dropLast ∧
      (string.getLast? = some 0x0a ∨ string.length + 1 = size ∨ rest = []) ∧
      Pieces size rest strings

/-- Reading a file in a buffer gives its content, and stores nothing behind the buffer. -/
def Lossless (s content : List UInt8) : Prop :=
  ∀ eof, ∃ strings, fgetsAll s.length (content.length + 1) ⟨content, eof⟩ s = .ok strings ∧
    strings.flatten = content ∧ Pieces s.length content strings

/-- The byte behind `k` characters is 0 when some lines have been read into the buffer: the last
line that reached there ended there, or none did. -/
def ZeroBehind (s : List UInt8) (lines : List CString) (k : Nat) : Prop :=
  match (lines.filter fun w => decide (k ≤ w.length + 1)).getLast? with
  | none => s[k]? = some 0
  | some w => w.length + 1 = k

/-- Every line has a character and fits into the buffer with its newline and a NUL. What is behind
the last newline fits with two more bytes, and there is a 0 behind it already. -/
def Fits (s : List UInt8) (lines : List CString) (last : CString) : Prop :=
  (∀ w ∈ lines, w ≠ [] ∧ w.length + 2 ≤ s.length) ∧
    (last = [] ∨ last.length + 2 ≤ s.length ∧ ZeroBehind s lines last.length)

/-- The lines of a content, without their newlines. -/
def linesOf (content : List UInt8) : List CString := (content.splitOn 0x0a).dropLast

/-- What is behind the last newline. -/
def lastOf (content : List UInt8) : CString := (content.splitOn 0x0a).getLastD []

section Loop

variable {size : Int} {rounds : Nat} {w rest old pre post s : List UInt8} {eof : Bool} {c : UInt8}

theorem fgetsLoop_nil (size : Int) (rounds : Nat) (eof : Bool) (s : List UInt8) (count : Nat) :
    fgetsLoop size (rounds + 1) ⟨[], eof⟩ s count = .ok (⟨[], eof⟩, s, count) := rfl

theorem fgetsLoop_cons (size : Int) (rounds : Nat) (c : UInt8) (rest : List UInt8) (eof : Bool)
    (s : List UInt8) (count : Nat) :
    fgetsLoop size (rounds + 1) ⟨c :: rest, eof⟩ s count =
      if size - 1 ≤ count then .ok (⟨rest, eof⟩, s, count)
      else
        match Buffer.store s count [c] with
        | none => .error .badAccess
        | some s =>
            if c = 0x0a then .ok (⟨rest, eof⟩, s, count)
            else fgetsLoop size rounds ⟨rest, eof⟩ s (count + 1) := rfl

/-- Characters other than a newline are stored one after the other. -/
theorem fgetsLoop_append (w : List UInt8) : ∀ {pre old : List UInt8}, 0x0a ∉ w →
    w.length = old.length → (pre.length + w.length : Int) < size →
    fgetsLoop size (w.length + rounds) ⟨w ++ rest, eof⟩ (pre ++ (old ++ post)) pre.length =
      fgetsLoop size rounds ⟨rest, eof⟩ (pre ++ w ++ post) (pre ++ w).length := by
  induction w with
  | nil =>
      intro pre old _ hold _
      obtain rfl := List.length_eq_zero_iff.1 hold.symm
      rw [List.length_nil, Nat.zero_add, List.append_nil, List.nil_append, List.nil_append]
  | cons c w ih =>
      intro pre old hnewline hold hsize
      obtain ⟨x, old, rfl⟩ := List.exists_cons_of_length_eq_add_one hold.symm
      rw [List.mem_cons, not_or] at hnewline
      rw [List.length_cons] at hold hsize
      have hroom : ¬ size - 1 ≤ pre.length := by omega
      have hstore := Buffer.store_cell pre c x (old ++ post)
      have hloop := @ih (pre ++ [c]) old hnewline.2 (Nat.succ_inj.1 hold) (by
        rw [List.length_append, List.length_singleton]
        omega)
      rw [List.length_append, List.length_singleton] at hloop
      rw [List.length_cons, Nat.add_right_comm, List.cons_append, fgetsLoop_cons, if_neg hroom,
        List.cons_append, hstore]
      dsimp only
      rw [if_neg (Ne.symm hnewline.1)]
      simp only [List.append_assoc, List.singleton_append] at hloop ⊢
      exact hloop

/-- The loop over a whole buffer, or a part of it. -/
theorem fgetsLoop_start (hnewline : 0x0a ∉ w) (hold : w.length = old.length)
    (hsize : (w.length : Int) < size) :
    fgetsLoop size ((w ++ rest).length + 1) ⟨w ++ rest, eof⟩ (old ++ post) 0 =
      fgetsLoop size (rest.length + 1) ⟨rest, eof⟩ (w ++ post) w.length := by
  have hloop := @fgetsLoop_append size (rest.length + 1) rest post eof w [] old hnewline hold
    (by rwa [List.length_nil, Int.natCast_zero, Int.zero_add])
  rw [List.length_append, Nat.add_assoc]
  exact hloop

theorem fgets_eq {stream stream' : InFile} {s' : List UInt8} {count : Nat}
    (h : fgetsLoop size (stream.unread.length + 1) stream s 0 = .ok (stream', s', count)) :
    fgets s size stream =
      if count = 0 then .ok (false, s', stream')
      else
        match Buffer.store s' (count + 1) [0] with
        | none => .error .badAccess
        | some s => .ok (true, s, stream') := by
  rw [fgets, h]
  rfl

theorem store_next (w post : List UInt8) (x y c : UInt8) :
    Buffer.store (w ++ x :: y :: post) (w.length + 1) [c] = some (w ++ x :: c :: post) := by
  have hstore := Buffer.store_cell (w ++ [x]) c y post
  rw [List.length_append, List.append_assoc, List.append_assoc] at hstore
  exact hstore

theorem length_ne_zero (hne : w ≠ []) : w.length ≠ 0 := fun h => hne (List.length_eq_zero_iff.1 h)

theorem fgets_nil (s : List UInt8) (size : Int) (eof : Bool) :
    fgets s size ⟨[], eof⟩ = .ok (false, s, ⟨[], eof⟩) := rfl

/-- An empty line is taken for the end. -/
theorem fgets_blank {x : UInt8} (hsize : 2 ≤ size) :
    fgets (x :: post) size ⟨0x0a :: rest, eof⟩ = .ok (false, 0x0a :: post, ⟨rest, eof⟩) := by
  have hroom : ¬ size - 1 ≤ (0 : Nat) := by omega
  have hstore := Buffer.store_cell [] 0x0a x post
  rw [List.nil_append, List.nil_append, List.length_nil] at hstore
  have hloop : fgetsLoop size ((0x0a :: rest).length + 1) ⟨0x0a :: rest, eof⟩ (x :: post) 0 =
      .ok (⟨rest, eof⟩, 0x0a :: post, 0) := by
    rw [fgetsLoop_cons, if_neg hroom, hstore]
    rfl
  exact @fgets_eq size (x :: post) ⟨0x0a :: rest, eof⟩ _ _ _ hloop

/-- A line that fits. -/
theorem fgets_line {x y : UInt8} (hne : w ≠ []) (hnewline : 0x0a ∉ w) (hold : w.length = old.length)
    (hs : s = old ++ x :: y :: post) :
    fgets s s.length ⟨w ++ 0x0a :: rest, eof⟩ =
      .ok (true, w ++ 0x0a :: 0 :: post, ⟨rest, eof⟩) := by
  have hlen : s.length = w.length + (post.length + 2) := by
    rw [hs, List.length_append, hold]
    rfl
  have hloop := @fgetsLoop_start s.length w (0x0a :: rest) old (x :: y :: post) eof hnewline hold
    (by omega)
  have hstore := Buffer.store_cell w 0x0a x (y :: post)
  have hroom : ¬ (s.length : Int) - 1 ≤ w.length := by omega
  rw [← hs, fgetsLoop_cons, if_neg hroom, hstore] at hloop
  rw [fgets_eq hloop, if_neg (length_ne_zero hne)]
  rw [store_next]

/-- The end of the file behind some characters: the NUL leaves one byte as it is. -/
theorem fgets_last {x y : UInt8} (hne : w ≠ []) (hnewline : 0x0a ∉ w) (hold : w.length = old.length)
    (hs : s = old ++ x :: y :: post) :
    fgets s s.length ⟨w, eof⟩ = .ok (true, w ++ x :: 0 :: post, ⟨[], eof⟩) := by
  have hlen : s.length = w.length + (post.length + 2) := by
    rw [hs, List.length_append, hold]
    rfl
  have hloop := @fgetsLoop_start s.length w [] old (x :: y :: post) eof hnewline hold (by omega)
  rw [← hs, List.append_nil, fgetsLoop_nil] at hloop
  rw [fgets_eq hloop, if_neg (length_ne_zero hne)]
  rw [store_next]

/-- The buffer is full: the NUL goes behind it. -/
theorem fgets_full (hne : w ≠ []) (hnewline : 0x0a ∉ w) (hs : s.length = w.length + 1) :
    fgets s s.length ⟨w ++ rest, eof⟩ = .error .badAccess := by
  obtain ⟨old, x, rfl⟩ : ∃ old x, s = old ++ [x] := by
    have hs' : s ≠ [] := List.ne_nil_of_length_pos (hs ▸ Nat.succ_pos _)
    exact ⟨s.dropLast, s.getLast hs', (List.dropLast_append_getLast hs').symm⟩
  rw [List.length_append] at hs
  have hold : w.length = old.length := (Nat.succ_inj.1 hs).symm
  have hloop := @fgetsLoop_start (old ++ [x]).length w rest old [x] eof hnewline hold (by
    rw [List.length_append, List.length_singleton]
    omega)
  -- where a byte comes, it has been read
  obtain ⟨stream', hstop⟩ : ∃ stream', fgetsLoop (old ++ [x]).length (rest.length + 1)
      ⟨rest, eof⟩ (w ++ [x]) w.length = .ok (stream', w ++ [x], w.length) := by
    cases rest with
    | nil => exact ⟨_, fgetsLoop_nil _ _ _ _ _⟩
    | cons c rest =>
        refine ⟨⟨rest, eof⟩, ?_⟩
        rw [fgetsLoop_cons, if_pos]
        rw [List.length_append, List.length_singleton]
        omega
  have hnone : Buffer.store (w ++ [x]) (w.length + 1) [0] = none := by
    refine if_neg ?_
    rw [List.length_append]
    exact Nat.not_le.2 (Nat.lt_succ_self _)
  rw [fgets_eq (hloop.trans hstop), if_neg (length_ne_zero hne), hnone]

/-- Nor does a longer line fit. -/
theorem fgets_long (hsize : 2 ≤ s.length) (hnewline : 0x0a ∉ w) (hlong : s.length < w.length + 2) :
    fgets s s.length ⟨w ++ rest, eof⟩ = .error .badAccess := by
  have hsplit := List.take_append_drop (s.length - 1) w
  have hlen : (w.take (s.length - 1)).length = s.length - 1 := List.length_take_of_le (by omega)
  rw [← hsplit, List.append_assoc]
  apply fgets_full
  · intro hnil
    rw [hnil] at hlen
    rw [List.length_nil] at hlen
    omega
  · exact fun hmem => hnewline (List.mem_of_mem_take hmem)
  · omega

end Loop

/-! ## The bytes behind a line -/

section Behind

variable {w old post : List UInt8} {x y : UInt8} {lines : List CString} {k : Nat}

theorem stringOf_line (hnul : 0 ∉ w) (post : List UInt8) : stringOf (w ++ 0 :: post) = w :=
  takeWhile_terminated hnul post

/-- A line that is read decides what is behind the characters up to its end. -/
theorem zeroBehind_cons (hnul : 0 ∉ w) (hold : w.length = old.length) :
    ZeroBehind (old ++ x :: y :: post) (w :: lines) k ↔
      ZeroBehind (w ++ 0x0a :: 0 :: post) lines k := by
  by_cases hlater : ∃ v, (lines.filter fun w => decide (k ≤ w.length + 1)).getLast? = some v
  · obtain ⟨v, hv⟩ := hlater
    have hv' : ((w :: lines).filter fun w => decide (k ≤ w.length + 1)).getLast? = some v := by
      rw [List.filter_cons]
      split
      · rw [List.getLast?_cons, hv]
        rfl
      · exact hv
    rw [ZeroBehind, ZeroBehind, hv, hv']
  · -- no later line reaches there
    have hnone : lines.filter (fun w => decide (k ≤ w.length + 1)) = [] := by
      rw [← List.getLast?_eq_none_iff, Option.eq_none_iff_forall_ne_some]
      exact fun v hv => hlater ⟨v, hv⟩
    by_cases hk : k ≤ w.length + 1
    · have hkeep : (w :: lines).filter (fun w => decide (k ≤ w.length + 1)) =
          w :: lines.filter fun w => decide (k ≤ w.length + 1) :=
        List.filter_cons_of_pos (decide_eq_true hk)
      rw [ZeroBehind, ZeroBehind, hkeep, hnone]
      show w.length + 1 = k ↔ (w ++ 0x0a :: 0 :: post)[k]? = some 0
      rcases Nat.lt_trichotomy k w.length with hlt | rfl | hgt
      · rw [List.getElem?_append_left hlt, List.getElem?_eq_getElem hlt]
        refine iff_of_false (by omega) fun h0 => hnul ?_
        exact Option.some.inj h0 ▸ List.getElem_mem hlt
      · rw [List.getElem?_append_right (Nat.le_refl _), Nat.sub_self]
        exact iff_of_false (by omega) fun h => absurd (Option.some.inj h) (by decide)
      · obtain rfl : k = w.length + 1 := Nat.le_antisymm hk hgt
        rw [List.getElem?_append_right (Nat.le_add_right _ 1), Nat.add_sub_cancel_left]
        exact iff_of_true rfl rfl
    · have hdrop : (w :: lines).filter (fun w => decide (k ≤ w.length + 1)) =
          lines.filter fun w => decide (k ≤ w.length + 1) :=
        List.filter_cons_of_neg (ne_true_of_eq_false (decide_eq_false hk))
      rw [ZeroBehind, ZeroBehind, hdrop, hnone]
      show (old ++ x :: y :: post)[k]? = some 0 ↔ (w ++ 0x0a :: 0 :: post)[k]? = some 0
      obtain ⟨j, rfl⟩ : ∃ j, k = w.length + (j + 2) := ⟨k - w.length - 2, by omega⟩
      rw [List.getElem?_append_right (Nat.le_add_right _ _), Nat.add_sub_cancel_left, hold,
        List.getElem?_append_right (Nat.le_add_right _ _), Nat.add_sub_cancel_left]
      rfl

theorem fits_cons (hnul : 0 ∉ w) (hold : w.length = old.length) {last : CString} :
    Fits (old ++ x :: y :: post) (w :: lines) last ↔
      w ≠ [] ∧ Fits (w ++ 0x0a :: 0 :: post) lines last := by
  have hlen : (w ++ 0x0a :: 0 :: post).length = (old ++ x :: y :: post).length := by
    rw [List.length_append, List.length_append, hold]
    rfl
  have hfit : w.length + 2 ≤ (old ++ x :: y :: post).length := by
    rw [← hlen, List.length_append, List.length_cons, List.length_cons]
    omega
  rw [Fits, Fits, List.forall_mem_cons, zeroBehind_cons hnul hold, hlen]
  constructor
  · rintro ⟨⟨⟨hne, -⟩, hlines⟩, hlast⟩
    exact ⟨hne, hlines, hlast⟩
  · rintro ⟨hne, hlines, hlast⟩
    exact ⟨⟨⟨hne, hfit⟩, hlines⟩, hlast⟩

end Behind

/-! ## Whole files -/

section Files

variable {s w rest : List UInt8}

theorem linesOf_line (hnewline : 0x0a ∉ w) (rest : List UInt8) :
    linesOf (w ++ 0x0a :: rest) = w :: linesOf rest ∧ lastOf (w ++ 0x0a :: rest) = lastOf rest := by
  rw [linesOf, linesOf, lastOf, lastOf, List.splitOn_append_cons_self_of_not_mem hnewline]
  obtain ⟨v, vs, hsplit⟩ := List.exists_cons_of_ne_nil (List.splitOn_ne_nil 0x0a rest)
  rw [hsplit]
  exact ⟨rfl, rfl⟩

theorem linesOf_last (hnewline : 0x0a ∉ w) : linesOf w = [] ∧ lastOf w = w := by
  rw [linesOf, lastOf, List.splitOn_eq_singleton hnewline]
  exact ⟨rfl, rfl⟩

/-- A file has a line, or there is no newline in it. -/
theorem file_cases (content : List UInt8) :
    0x0a ∉ content ∨ ∃ w rest, content = w ++ 0x0a :: rest ∧ 0x0a ∉ w := by
  by_cases hnewline : 0x0a ∈ content
  · obtain ⟨w, rest, hsplit, hw⟩ := List.eq_append_cons_of_mem hnewline
    exact .inr ⟨w, rest, hsplit, hw⟩
  · exact .inl hnewline

/-- A buffer with room for two more bytes, cut behind some of them. -/
theorem buffer_cases (h : w.length + 2 ≤ s.length) : ∃ old x y post, s = old ++ x :: y :: post ∧
    w.length = old.length := by
  have hlen : (s.drop w.length).length = s.length - w.length := List.length_drop
  obtain ⟨x, t, hx⟩ := List.exists_cons_of_length_pos (show 0 < (s.drop w.length).length by omega)
  rw [hx, List.length_cons] at hlen
  obtain ⟨y, post, rfl⟩ := List.exists_cons_of_length_pos (show 0 < t.length by omega)
  refine ⟨s.take w.length, x, y, post, ?_, ?_⟩
  · rw [← hx, List.take_append_drop]
  · rw [List.length_take_of_le (by omega)]

/-- What some calls of `fgets` give. -/
def Gives (s content : List UInt8) (eof : Bool) (calls : Nat) : Prop :=
  ∃ strings, fgetsAll s.length calls ⟨content, eof⟩ s = .ok strings ∧
    strings.flatten = content ∧ Pieces s.length content strings

theorem fgetsAll_null {size : Int} {stream stream' : InFile} {s' : List UInt8} {calls : Nat}
    (h : fgets s size stream = .ok (false, s', stream')) :
    fgetsAll size (calls + 1) stream s = .ok [] := by
  rw [fgetsAll, h]
  rfl

theorem fgetsAll_string {size : Int} {stream stream' : InFile} {s' : List UInt8} {calls : Nat}
    (h : fgets s size stream = .ok (true, s', stream')) :
    fgetsAll size (calls + 1) stream s =
      fgetsAll size calls stream' s' >>= fun strings => .ok (stringOf s' :: strings) := by
  rw [fgetsAll, h]
  rfl

theorem not_gives_of_error {content : List UInt8} {eof : Bool} {calls : Nat}
    (h : fgets s s.length ⟨content, eof⟩ = .error .badAccess) :
    ¬ Gives s content eof (calls + 1) := by
  rintro ⟨strings, hall, -⟩
  rw [fgetsAll, h] at hall
  cases hall

/-- Lines that do not fit are not among those that do. -/
theorem not_fits_line {lines : List CString} {last : CString} (h : ¬ w.length + 2 ≤ s.length) :
    ¬ Fits s (w :: lines) last := fun hfits => h (hfits.1 w List.mem_cons_self).2

/-- A line that fits is given, and then the rest. -/
theorem gives_line {old post : List UInt8} {x y : UInt8} {eof : Bool} {calls : Nat} (hne : w ≠ [])
    (hnewline : 0x0a ∉ w) (hnul : 0 ∉ w) (hold : w.length = old.length)
    (hs : s = old ++ x :: y :: post) :
    Gives s (w ++ 0x0a :: rest) eof (calls + 1) ↔
      Gives (w ++ 0x0a :: 0 :: post) rest eof calls := by
  have hcall := @fgets_line w rest old post s eof x y hne hnewline hold hs
  have hlen : (w ++ 0x0a :: 0 :: post).length = s.length := by
    rw [hs, List.length_append, List.length_append, hold]
    rfl
  have hstring : stringOf (w ++ 0x0a :: 0 :: post) = w ++ [0x0a] := by
    have hnul' : 0 ∉ w ++ [0x0a] := by
      rw [List.mem_append, not_or]
      exact ⟨hnul, by decide⟩
    have hline := stringOf_line hnul' post
    rwa [List.append_assoc, List.singleton_append] at hline
  have happend : w ++ 0x0a :: rest = w ++ [0x0a] ++ rest := by
    rw [List.append_assoc, List.singleton_append]
  rw [Gives, Gives, fgetsAll_string hcall, hlen, hstring]
  constructor
  · -- the line is the first of the strings, so what is left of both sides is the rest
    rintro ⟨strings, hall, hflatten, hpieces⟩
    cases hrest : fgetsAll s.length calls ⟨rest, eof⟩ (w ++ 0x0a :: 0 :: post) with
    | error e =>
        rw [hrest] at hall
        cases hall
    | ok strings' =>
        rw [hrest] at hall
        obtain rfl := Except.ok.inj hall
        obtain ⟨rest', hrest', -, -, -, -, hpieces'⟩ := hpieces
        rw [happend] at hrest' hflatten
        rw [List.flatten_cons] at hflatten
        obtain rfl := List.append_cancel_left hrest'
        exact ⟨strings', rfl, List.append_cancel_left hflatten, hpieces'⟩
  · rintro ⟨strings, hall, hflatten, hpieces⟩
    refine ⟨(w ++ [0x0a]) :: strings, by rw [hall]; rfl, ?_, rest, happend, ?_, ?_, ?_, ?_, hpieces⟩
    · rw [List.flatten_cons, hflatten, happend]
    · exact List.append_ne_nil_of_right_ne_nil _ (List.cons_ne_nil _ _)
    · rw [← hlen, List.length_append, List.length_append]
      exact Nat.add_le_add_left (Nat.le_add_left 2 post.length) w.length
    · rwa [List.dropLast_concat]
    · exact .inl List.getLast?_concat

/-- What follows the last newline is given just if there is a 0 behind it in the buffer. -/
theorem gives_last {old post : List UInt8} {x y : UInt8} {eof : Bool} {calls : Nat} (hne : w ≠ [])
    (hnewline : 0x0a ∉ w) (hnul : 0 ∉ w) (hold : w.length = old.length)
    (hs : s = old ++ x :: y :: post) : Gives s w eof (calls + 2) ↔ x = 0 := by
  have hcall := @fgets_last w old post s eof x y hne hnewline hold hs
  have hall : fgetsAll s.length (calls + 2) ⟨w, eof⟩ s = .ok [stringOf (w ++ x :: 0 :: post)] := by
    rw [fgetsAll_string hcall, fgetsAll_null (fgets_nil _ _ _)]
    rfl
  rw [Gives, hall]
  constructor
  · rintro ⟨strings, hstrings, hflatten, -⟩
    obtain rfl := Except.ok.inj hstrings
    rw [List.flatten_singleton] at hflatten
    by_contra hx
    -- the string goes on with the byte that the buffer held behind the line
    have hnul' : 0 ∉ w ++ [x] := by
      rw [List.mem_append, List.mem_singleton, not_or]
      exact ⟨hnul, fun h => hx h.symm⟩
    have hstring := stringOf_line hnul' post
    rw [List.append_assoc, List.singleton_append, hflatten] at hstring
    exact List.cons_ne_nil x [] (List.append_cancel_left (hstring.symm.trans (List.append_nil w).symm))
  · rintro rfl
    have hlen : w.length + 1 ≤ s.length := by
      rw [hs, List.length_append, hold]
      exact Nat.add_le_add_left (Nat.le_add_left 1 _) _
    rw [stringOf_line hnul]
    refine ⟨[w], rfl, List.flatten_singleton, [], (List.append_nil w).symm, hne, hlen, ?_, ?_, rfl⟩
    · exact fun hmem => hnewline (List.dropLast_subset w hmem)
    · exact .inr (.inr rfl)

theorem gives_iff (calls : Nat) : ∀ {s content : List UInt8} {eof : Bool}, 2 ≤ s.length →
    0 ∉ content → content.length < calls →
    (Gives s content eof calls ↔ Fits s (linesOf content) (lastOf content)) := by
  induction calls with
  | zero => exact fun _ _ h => absurd h (Nat.not_lt_zero _)
  | succ calls ih =>
      intro s content eof hsize hnul hcalls
      rcases file_cases content with hnewline | ⟨w, rest, rfl, hnewline⟩
      · -- the end of the file
        rw [(linesOf_last hnewline).1, (linesOf_last hnewline).2]
        by_cases hnil : content = []
        · subst hnil
          refine iff_of_true ⟨[], fgetsAll_null (fgets_nil _ _ _), rfl, rfl⟩ ⟨?_, .inl rfl⟩
          exact fun w h => absurd h List.not_mem_nil
        · by_cases hfit : content.length + 2 ≤ s.length
          · obtain ⟨old, x, y, post, hs, hold⟩ := buffer_cases hfit
            obtain ⟨calls, rfl⟩ : ∃ n, calls = n + 1 := by
              apply Nat.exists_eq_succ_of_ne_zero
              have hpos := List.length_pos_of_ne_nil hnil
              omega
            have hbyte : s[content.length]? = some x := by
              rw [hs, hold, List.getElem?_append_right (Nat.le_refl _), Nat.sub_self]
              rfl
            rw [gives_last hnil hnewline hnul hold hs]
            constructor
            · rintro rfl
              exact ⟨fun w h => absurd h List.not_mem_nil, .inr ⟨hfit, hbyte⟩⟩
            · rintro ⟨-, hlast⟩
              have hzero : s[content.length]? = some 0 := (hlast.resolve_left hnil).2
              exact Option.some.inj (hbyte.symm.trans hzero)
          · have hlong := @fgets_long content [] s eof hsize hnewline (Nat.not_le.1 hfit)
            rw [List.append_nil] at hlong
            refine iff_of_false (not_gives_of_error hlong) ?_
            rintro ⟨-, hlast⟩
            exact hfit (hlast.resolve_left hnil).1
      · rw [(linesOf_line hnewline rest).1, (linesOf_line hnewline rest).2]
        rw [List.mem_append, List.mem_cons, not_or, not_or] at hnul
        by_cases hnil : w = []
        · subst hnil
          obtain ⟨x, post, rfl⟩ := List.exists_cons_of_length_pos (Nat.lt_of_lt_of_le (by decide) hsize)
          refine iff_of_false ?_ fun hfits => (hfits.1 [] List.mem_cons_self).1 rfl
          rintro ⟨strings, hall, hflatten, -⟩
          have hblank := @fgets_blank (x :: post).length rest post eof x (by omega)
          rw [List.nil_append] at hall hflatten
          rw [fgetsAll_null hblank] at hall
          obtain rfl := Except.ok.inj hall
          exact List.cons_ne_nil _ _ hflatten.symm
        · by_cases hfit : w.length + 2 ≤ s.length
          · obtain ⟨old, x, y, post, hs, hold⟩ := buffer_cases hfit
            have hlen : (w ++ 0x0a :: 0 :: post).length = s.length := by
              rw [hs, List.length_append, List.length_append, hold]
              rfl
            have hrest : rest.length < calls := by
              rw [List.length_append, List.length_cons] at hcalls
              omega
            rw [gives_line hnil hnewline hnul.1 hold hs,
              ih (hlen ▸ hsize) hnul.2.2 hrest, hs, fits_cons hnul.1 hold]
            exact (and_iff_right hnil).symm
          · have hlong := @fgets_long w (0x0a :: rest) s eof hsize hnewline (Nat.not_le.1 hfit)
            exact iff_of_false (not_gives_of_error hlong) (not_fits_line hfit)

/-- A file is read without loss just if its lines fit into the buffer, none is empty, and what is
behind the last newline finds a 0 behind it. -/
theorem fgets_lossless_iff (s content : List UInt8) (hsize : 2 ≤ s.length) (hnul : 0 ∉ content) :
    Lossless s content ↔ Fits s (linesOf content) (lastOf content) := by
  constructor
  · intro hall
    exact (gives_iff _ hsize hnul (Nat.lt_succ_self _)).1 (hall false)
  · intro hfits eof
    exact (gives_iff _ hsize hnul (Nat.lt_succ_self _)).2 hfits

/-- Two lines, and what follows them. -/
theorem fgets_lossless_iff_two :
    Lossless [0, 0, 0, 0] [0x61, 0x0a, 0x62, 0x63] ↔
      Fits [0, 0, 0, 0] (linesOf [0x61, 0x0a, 0x62, 0x63]) (lastOf [0x61, 0x0a, 0x62, 0x63]) :=
  fgets_lossless_iff _ _ (by decide) (by decide)

/-- A file with an empty line. -/
theorem not_fgets_lossless :
    ¬ ∀ s content : List UInt8, 2 ≤ s.length → 0 ∉ content → Lossless s content := by
  intro hall
  obtain ⟨strings, hstrings, hflatten, -⟩ := hall [0, 0] [0x0a] (by decide) (by decide) false
  obtain rfl : [] = strings := Except.ok.inj hstrings
  cases hflatten

end Files

end Fgets

end Vmwos
