import Vmwos.Fs.Pathnames
import Vmwos.Library.Buffer
import Mathlib.Data.List.TakeWhile

/-!
# Taking a whole path apart

The walks of the filesystems call `split_filename` on what it returned the last time, with one
buffer of `MAX_FILENAME_SIZE` bytes, until it returns NULL. NULL is returned for the last
component and for one that does not fit into the buffer. The walk sees every component exactly
when all of them fit, where a component that a slash follows has to leave one more byte free.
-/

set_option autoImplicit false

namespace Vmwos

open Library

/-! ## The buffer -/

/-- The loop of `split_filename` with its stores to the buffer `name`. -/
def splitFilenameStores (len : Nat) :
    Nat → CString → List UInt8 → Option (List UInt8 × Option CString)
  | length, [], name => do
      let name ← Buffer.store name length [0]
      some (name, none)
  | length, c :: cs, name =>
      if length ≥ len - 1 then do
        let name ← Buffer.store name length [0]
        some (name, none)
      else if c = 0x2f then do
        let name ← Buffer.store name length [0]
        some (name, some cs)
      else do
        let name ← Buffer.store name length [c]
        splitFilenameStores len (length + 1) cs name

/-- The loop of `dos33fs_lookup_inode` and `romfs_lookup_inode` around `split_filename`: the
strings found in the buffer. -/
def splitRounds : Nat → CString → List UInt8 → Except Stuck (List CString)
  | 0, _, _ => .error .endless
  | fuel + 1, path, dir =>
      match splitFilenameStores maxFilenameSize 0 path dir with
      | none => .error .badAccess
      | some (dir, none) => .ok [dir.takeWhile (· ≠ 0)]
      | some (dir, some rest) => do
          let names ← splitRounds fuel rest dir
          .ok (dir.takeWhile (· ≠ 0) :: names)

/-- The components of a path fit into the buffer: a component before a slash with two bytes to
spare, the last one with its NUL. -/
structure FitBuffer (components : List CString) : Prop where
  inner : ∀ c ∈ components.dropLast, c.length < maxFilenameSize - 1
  last : ∀ c ∈ components.getLast?, c.length ≤ maxFilenameSize - 1

/-- What a walk sees of the components: none after the first that is too long, and of that one
what fits. -/
def cutComponents : List CString → List CString
  | [] => []
  | c :: components =>
      if c.length < maxFilenameSize - 1 then c :: cutComponents components
      else [c.take (maxFilenameSize - 1)]

/-- The stores are those of the name `splitFilename` gives, and its NUL. -/
theorem splitFilenameStores_eq {len : Nat} (cs : CString) : ∀ (pre mid : List UInt8),
    pre.length + 1 ≤ len → pre.length + mid.length = len →
      ∃ post, splitFilenameStores len pre.length cs (pre ++ mid) =
          some (pre ++ (splitFilenameLoop len pre.length cs).1 ++ 0 :: post,
            (splitFilenameLoop len pre.length cs).2) ∧
        (pre ++ (splitFilenameLoop len pre.length cs).1 ++ 0 :: post).length = len := by
  -- every store is to the cell after `pre`
  have hcell (pre mid : List UInt8) (hlt : pre.length + 1 ≤ len)
      (hlen : pre.length + mid.length = len) : ∃ y post, mid = y :: post ∧
        pre.length + (post.length + 1) = len := by
    obtain ⟨y, post, rfl⟩ : ∃ y post, mid = y :: post := by
      apply List.exists_cons_of_length_pos
      omega
    exact ⟨y, post, rfl, hlen⟩
  have hlast (pre mid : List UInt8) (hlt : pre.length + 1 ≤ len)
      (hlen : pre.length + mid.length = len) (r : Option CString) : ∃ post,
        (Buffer.store (pre ++ mid) pre.length [0]).bind (fun name => some (name, r)) =
            some (pre ++ [] ++ 0 :: post, r) ∧
          (pre ++ [] ++ 0 :: post).length = len := by
    obtain ⟨y, post, rfl, hpost⟩ := hcell pre mid hlt hlen
    refine ⟨post, ?_, ?_⟩
    · rw [Buffer.store_cell, Option.bind_some, List.append_nil]
    · rw [List.append_nil, List.length_append, List.length_cons, hpost]
  induction cs with
  | nil => exact fun pre mid hlt hlen => hlast pre mid hlt hlen none
  | cons c cs ih =>
      intro pre mid hlt hlen
      rw [splitFilenameStores, splitFilenameLoop]
      by_cases hfull : pre.length ≥ len - 1
      · rw [if_pos hfull, if_pos hfull]
        exact hlast pre mid hlt hlen none
      rw [if_neg hfull, if_neg hfull]
      by_cases hslash : c = 0x2f
      · rw [if_pos hslash, if_pos hslash]
        exact hlast pre mid hlt hlen (some cs)
      rw [if_neg hslash, if_neg hslash]
      obtain ⟨y, rest, rfl, hrest⟩ := hcell pre mid hlt hlen
      have hpre : (pre ++ [c]).length = pre.length + 1 := by
        rw [List.length_append, List.length_singleton]
      have hmid : (pre ++ [c]).length + rest.length = len := by
        rw [hpre, ← hrest, Nat.add_assoc, Nat.add_comm 1]
      obtain ⟨post, hloop, hpost⟩ := ih (pre ++ [c]) rest (by omega) hmid
      rw [hpre] at hloop hpost
      refine ⟨post, ?_, ?_⟩
      · rw [Buffer.store_cell]
        simpa [List.append_assoc] using hloop
      · simpa [List.append_assoc] using hpost

/-- The name is made of bytes of the path. -/
theorem mem_of_mem_splitFilenameLoop {maxLen length : Nat} {path : CString} {x : UInt8}
    (hx : x ∈ (splitFilenameLoop maxLen length path).1) : x ∈ path := by
  induction path generalizing length with
  | nil => exact hx
  | cons c cs ih =>
      rw [splitFilenameLoop] at hx
      split at hx
      · cases hx
      split at hx
      · cases hx
      rcases List.mem_cons.1 hx with rfl | hx
      · exact List.mem_cons_self
      · exact List.mem_cons_of_mem _ (ih hx)

/-- One call, as the walk sees it. -/
theorem exists_splitFilenameStores {path : CString} (hnul : 0 ∉ path) {dir : List UInt8}
    (hdir : dir.length = maxFilenameSize) :
    ∃ dir', splitFilenameStores maxFilenameSize 0 path dir =
        some (dir', (splitFilename path maxFilenameSize).2) ∧ dir'.length = maxFilenameSize ∧
      dir'.takeWhile (· ≠ 0) = (splitFilename path maxFilenameSize).1 := by
  obtain ⟨post, hstores, hlen⟩ := splitFilenameStores_eq path [] dir
    (show 0 + 1 ≤ maxFilenameSize by decide) (by rw [List.length_nil, Nat.zero_add, hdir])
  refine ⟨_, hstores, hlen, ?_⟩
  exact takeWhile_terminated (fun hmem => hnul (mem_of_mem_splitFilenameLoop hmem)) _

/-! ## The components -/

/-- A component that fills the buffer ends the path, whatever follows. -/
theorem splitFilenameLoop_full {len : Nat} (rest : CString) (c : CString) : ∀ {length : Nat},
    0x2f ∉ c → length + c.length = len - 1 → splitFilenameLoop len length (c ++ rest) = (c, none) := by
  induction c with
  | nil =>
      intro length _ hlen
      cases rest with
      | nil => rfl
      | cons d rest =>
          rw [List.length_nil, Nat.add_zero] at hlen
          rw [List.nil_append, splitFilenameLoop, if_pos (Nat.le_of_eq hlen.symm)]
  | cons a c ih =>
      intro length hslash hlen
      rw [List.length_cons] at hlen
      have ha : a ≠ 0x2f := fun h => hslash (h ▸ List.mem_cons_self)
      rw [List.cons_append, splitFilenameLoop, if_neg (by omega), if_neg ha,
        ih (fun h => hslash (List.mem_cons_of_mem a h)) (by omega)]

/-- A path is its last component, or a component before a slash. -/
theorem path_cases (path : CString) :
    0x2f ∉ path ∧ path.splitOn 0x2f = [path] ∨
      ∃ c rest, path = c ++ 0x2f :: rest ∧ 0x2f ∉ c ∧
        path.splitOn 0x2f = c :: rest.splitOn 0x2f := by
  by_cases hslash : 0x2f ∈ path
  · right
    obtain ⟨c, rest, rfl, hc⟩ := List.eq_append_cons_of_mem hslash
    exact ⟨c, rest, rfl, hc, List.splitOn_append_cons_self_of_not_mem hc rest⟩
  · exact .inl ⟨hslash, List.splitOn_eq_singleton hslash⟩

/-- One call for a component that is too long. -/
theorem splitFilename_component {c : CString} (hslash : 0x2f ∉ c) (rest : CString)
    (hlong : ¬ c.length < maxFilenameSize - 1) :
    splitFilename (c ++ rest) maxFilenameSize = (c.take (maxFilenameSize - 1), none) := by
  have hlen : (c.take (maxFilenameSize - 1)).length = maxFilenameSize - 1 :=
    List.length_take_of_le (Nat.not_lt.1 hlong)
  have hfull := @splitFilenameLoop_full maxFilenameSize (c.drop (maxFilenameSize - 1) ++ rest)
    (c.take (maxFilenameSize - 1)) 0 (fun h => hslash (List.mem_of_mem_take h))
    (by rw [hlen, Nat.zero_add])
  rwa [← List.append_assoc, List.take_append_drop] at hfull

/-- A walk ends, stays in its buffer, and sees the components up to the first that is too long. -/
theorem splitRounds_eq (fuel : Nat) : ∀ {path : CString} {dir : List UInt8}, path.length < fuel →
    0 ∉ path → dir.length = maxFilenameSize →
      splitRounds fuel path dir = .ok (cutComponents (path.splitOn 0x2f)) := by
  induction fuel with
  | zero => exact fun hfuel => absurd hfuel (Nat.not_lt_zero _)
  | succ fuel ih =>
      intro path dir hfuel hnul hdir
      obtain ⟨dir', hstores, hlen, hname⟩ := exists_splitFilenameStores hnul hdir
      rcases path_cases path with ⟨hslash, hsplit⟩ | ⟨c, rest, rfl, hslash, hsplit⟩
      · -- the last component
        have hcall : splitFilename path maxFilenameSize =
            (path.take (maxFilenameSize - 1), none) := by
          by_cases hshort : path.length < maxFilenameSize - 1
          · rw [List.take_of_length_le (Nat.le_of_lt hshort)]
            exact splitFilenameLoop_last hslash (by rw [Nat.zero_add]; exact Nat.le_of_lt hshort)
          · have := splitFilename_component hslash [] hshort
            rwa [List.append_nil] at this
        have hcut : cutComponents [path] = [path.take (maxFilenameSize - 1)] := by
          rw [cutComponents, cutComponents]
          split
          · rename_i hshort
            rw [List.take_of_length_le (Nat.le_of_lt hshort)]
          · rfl
        rw [hcall] at hstores hname
        rw [splitRounds, hstores, hsplit, hcut]
        simp only [hname]
      · rw [hsplit, cutComponents]
        by_cases hshort : c.length < maxFilenameSize - 1
        · have hcall : splitFilename (c ++ 0x2f :: rest) maxFilenameSize = (c, some rest) :=
            splitFilenameLoop_slash hslash (by rwa [Nat.zero_add])
          rw [hcall] at hstores hname
          have hrest : rest.length < fuel := by
            rw [List.length_append, List.length_cons] at hfuel
            omega
          have hnul' : 0 ∉ rest := fun h =>
            hnul (List.mem_append_right c (List.mem_cons_of_mem _ h))
          rw [if_pos hshort, splitRounds, hstores]
          simp only [hname, ih hrest hnul' hlen]
          rfl
        · have hcall := splitFilename_component hslash (0x2f :: rest) hshort
          rw [hcall] at hstores hname
          rw [if_neg hshort, splitRounds, hstores]
          simp only [hname]

theorem fitBuffer_cons {c : CString} {components : List CString} (hne : components ≠ []) :
    FitBuffer (c :: components) ↔ c.length < maxFilenameSize - 1 ∧ FitBuffer components := by
  have hdrop : (c :: components).dropLast = c :: components.dropLast :=
    List.dropLast_cons_of_ne_nil hne
  have hlast : (c :: components).getLast? = components.getLast? := by
    obtain ⟨d, ds, rfl⟩ := List.exists_cons_of_ne_nil hne
    exact List.getLast?_cons_cons
  constructor
  · rintro ⟨hinner, hl⟩
    rw [hdrop] at hinner
    rw [hlast] at hl
    exact ⟨hinner c List.mem_cons_self, fun d hd => hinner d (List.mem_cons_of_mem c hd), hl⟩
  · rintro ⟨hc, hinner, hl⟩
    refine ⟨?_, hlast ▸ hl⟩
    rw [hdrop]
    intro d hd
    rcases List.mem_cons.1 hd with rfl | hd
    · exact hc
    · exact hinner d hd

/-- Nothing is cut off just when the components fit. -/
theorem cutComponents_eq_iff (components : List CString) :
    cutComponents components = components ↔ FitBuffer components := by
  induction components with
  | nil => exact ⟨fun _ => ⟨by simp, by simp⟩, fun _ => rfl⟩
  | cons c components ih =>
      rw [cutComponents]
      by_cases hne : components = []
      · -- the last component may fill the buffer up to the NUL
        subst hne
        have hfit : FitBuffer [c] ↔ c.length ≤ maxFilenameSize - 1 :=
          ⟨fun h => h.last c rfl, fun h => ⟨by simp, by simpa using h⟩⟩
        rw [hfit, cutComponents]
        split
        · rename_i hshort
          exact ⟨fun _ => Nat.le_of_lt hshort, fun _ => rfl⟩
        · constructor
          · intro h
            have hlen := congrArg List.length (List.cons.inj h).1
            rw [List.length_take] at hlen
            exact hlen ▸ Nat.min_le_left _ _
          · intro h
            rw [List.take_of_length_le h]
      · -- before a slash there has to be room for one more
        rw [fitBuffer_cons hne]
        split
        · rename_i hshort
          rw [List.cons.injEq, ih]
          exact ⟨fun h => ⟨hshort, h.2⟩, fun h => ⟨rfl, h.2⟩⟩
        · rename_i hlong
          refine ⟨fun h => ?_, fun h => absurd h.1 hlong⟩
          rw [List.cons.injEq] at h
          exact absurd h.2.symm hne

/-- Every walk over a path ends without a store beyond its buffer. The strings it finds are the
components of the path exactly when they fit into the buffer: otherwise the rest of the path is
dropped, and NULL is returned as for a last component. -/
theorem splitRounds_iff (path : CString) (hnul : 0 ∉ path) (dir : List UInt8)
    (hdir : dir.length = maxFilenameSize) :
    ∃ names, splitRounds (path.length + 1) path dir = .ok names ∧
      (names = path.splitOn 0x2f ↔ FitBuffer (path.splitOn 0x2f)) :=
  ⟨_, splitRounds_eq _ (Nat.lt_succ_self _) hnul hdir, cutComponents_eq_iff _⟩

/-- The path `usr//bin/`. -/
theorem splitRounds_iff_usr_bin :
    ∃ names, splitRounds 10 [0x75, 0x73, 0x72, 0x2f, 0x2f, 0x62, 0x69, 0x6e, 0x2f]
        (List.replicate maxFilenameSize 0xff) = .ok names ∧
      names = [[0x75, 0x73, 0x72], [], [0x62, 0x69, 0x6e], []] := by
  obtain ⟨names, hrounds, hiff⟩ := splitRounds_iff
    [0x75, 0x73, 0x72, 0x2f, 0x2f, 0x62, 0x69, 0x6e, 0x2f] (by decide)
    (List.replicate maxFilenameSize 0xff) List.length_replicate
  exact ⟨names, hrounds, hiff.2 ⟨by decide, by decide⟩⟩

/-- Of a component of 255 bytes, a slash and another component, the second one is dropped. -/
theorem not_splitRounds :
    ¬ ∀ (path : CString) (dir : List UInt8), 0 ∉ path → dir.length = maxFilenameSize →
      ∃ fuel, splitRounds fuel path dir = .ok (path.splitOn 0x2f) := by
  intro h
  have hslash : 0x2f ∉ List.replicate 255 (0x61 : UInt8) := fun hmem =>
    absurd (List.eq_of_mem_replicate hmem) (by decide)
  have hnul : (0 : UInt8) ∉ List.replicate 255 (0x61 : UInt8) ++ 0x2f :: [0x62] := by
    rw [List.mem_append, List.mem_replicate]
    decide
  have hsplit : (List.replicate 255 (0x61 : UInt8) ++ 0x2f :: [0x62]).splitOn 0x2f =
      [List.replicate 255 0x61, [0x62]] :=
    List.splitOn_append_cons_self_of_not_mem hslash [0x62]
  obtain ⟨fuel, hrounds⟩ := h _ (List.replicate maxFilenameSize 0) hnul List.length_replicate
  obtain ⟨dir', hstores, -⟩ := exists_splitFilenameStores hnul
    (@List.length_replicate _ maxFilenameSize (0 : UInt8))
  rw [splitFilename_component hslash _ (by rw [List.length_replicate]; decide)] at hstores
  cases fuel with
  | zero => cases hrounds
  | succ fuel =>
      rw [splitRounds, hstores, hsplit] at hrounds
      have hnil := (List.cons.inj (Except.ok.inj hrounds)).2
      cases hnil

end Vmwos
