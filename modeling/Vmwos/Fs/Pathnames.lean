import Vmwos.Lib.Base

/-!
# Path names

The functions that take path names apart. A position in a C string is the string that
starts there.
-/

set_option autoImplicit false

namespace Vmwos

/-- `MAX_FILENAME_SIZE` -/
abbrev maxFilenameSize : Nat := 256
/-- `MAX_PATH_LEN` -/
abbrev maxPathLen : Nat := 1024

/-- The loop of `split_filename`, after `length` characters of the name. -/
def splitFilenameLoop (len : Nat) : Nat → CString → CString × Option CString
  | _, [] => ([], none)
  | length, c :: cs =>
      if length ≥ len - 1 then ([], none)
      else if c = 0x2f then ([], some cs)
      else
        let rest := splitFilenameLoop len (length + 1) cs
        (c :: rest.1, rest.2)

/-- `split_filename`: the part of a path before the next slash, in a buffer of `len` bytes, and
what follows the slash. A name too long for the buffer ends the path. -/
def splitFilename (start : CString) (len : Nat) : CString × Option CString :=
  splitFilenameLoop len 0 start

/-! ## Paths made of components -/

/-- A component that fits into the buffer of a path walk. -/
structure IsComponent (c : CString) : Prop where
  nonempty : c ≠ []
  short : c.length < maxFilenameSize - 1
  noSlash : 0x2f ∉ c
  noNul : 0 ∉ c

/-- Components separated by single slashes. -/
def joinPath : List CString → CString
  | [] => []
  | [c] => c
  | c :: c' :: cs => c ++ 0x2f :: joinPath (c' :: cs)

theorem splitFilenameLoop_last {len length : Nat} {c : CString} (hslash : 0x2f ∉ c)
    (hlen : length + c.length ≤ len - 1) : splitFilenameLoop len length c = (c, none) := by
  induction c generalizing length with
  | nil => rfl
  | cons a c ih =>
      rw [List.length_cons] at hlen
      have ha : a ≠ 0x2f := fun h => hslash (h ▸ List.mem_cons_self)
      rw [splitFilenameLoop, if_neg (by omega), if_neg ha,
        ih (fun h => hslash (List.mem_cons_of_mem a h)) (by omega)]

theorem splitFilenameLoop_slash {len length : Nat} {c rest : CString} (hslash : 0x2f ∉ c)
    (hlen : length + c.length < len - 1) :
    splitFilenameLoop len length (c ++ 0x2f :: rest) = (c, some rest) := by
  induction c generalizing length with
  | nil =>
      rw [List.length_nil, Nat.add_zero] at hlen
      rw [List.nil_append, splitFilenameLoop, if_neg (Nat.not_le.2 hlen), if_pos rfl]
  | cons a c ih =>
      rw [List.length_cons] at hlen
      have ha : a ≠ 0x2f := fun h => hslash (h ▸ List.mem_cons_self)
      rw [List.cons_append, splitFilenameLoop, if_neg (by omega), if_neg ha,
        ih (fun h => hslash (List.mem_cons_of_mem a h)) (by omega)]

/-- The last component of a path is split off whole. -/
theorem splitFilename_last {c : CString} (hc : IsComponent c) :
    splitFilename c maxFilenameSize = (c, none) := by
  apply splitFilenameLoop_last hc.noSlash
  rw [Nat.zero_add]
  exact Nat.le_of_lt hc.short

/-- Any other component is split off with what follows its slash. -/
theorem splitFilename_slash {c rest : CString} (hc : IsComponent c) :
    splitFilename (c ++ 0x2f :: rest) maxFilenameSize = (c, some rest) := by
  apply splitFilenameLoop_slash hc.noSlash
  rw [Nat.zero_add]
  exact hc.short

theorem joinPath_ne_nil {c : CString} {cs : List CString} (hc : IsComponent c) :
    joinPath (c :: cs) ≠ [] := by
  cases cs with
  | nil => exact hc.nonempty
  | cons c' cs =>
      rw [joinPath]
      simp

theorem length_joinPath {cs : List CString} (hcs : ∀ c ∈ cs, IsComponent c) :
    cs.length ≤ (joinPath cs).length := by
  induction cs with
  | nil => exact Nat.zero_le 0
  | cons c cs ih =>
      have hc := List.length_pos_of_ne_nil (hcs c List.mem_cons_self).nonempty
      cases cs with
      | nil => exact hc
      | cons c' cs =>
          have ih := ih fun c hc => hcs c (List.mem_cons_of_mem _ hc)
          simp only [joinPath, List.length_append, List.length_cons] at ih ⊢
          omega

end Vmwos
