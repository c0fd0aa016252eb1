import Vmwos.Boot.DeviceTreeSearch

/-!
# What the search reads

The search of `DeviceTreeSearch.lean` again, with the words of the tree that it reads beside the
result. Only between two nodes at the top is there a test for the size of the tree, so nothing stops
the loops inside a node when its end token is missing. `Tokens` is how the words can be read as
tokens up to the end of a node or up to a property that is looked for, and
`bounded_iff` says that the search stays inside exactly when the struct block can be read so.
-/

set_option autoImplicit false

namespace Vmwos.Devicetree

open Library FileBytes

/-! ## The search with its reads -/

/-- A result with the new index and the words that have been read. -/
structure Parsed where
  result : Nat
  next : Nat
  reads : List Nat

section

variable (memory : Nat → UInt8) (deviceTree : DeviceTreeType)

/-- How many characters `strlcpy` looks at, with room for `n` before the terminator. -/
def strlcpyCount : (n src : Nat) → Nat
  | 0, _ => 0
  | n + 1, src => if memory (uint32 src) = 0 then 1 else strlcpyCount n (src + 1) + 1

/-- The words from which the name of a node at an index is copied. -/
def nameReads (i : Nat) : List Nat :=
  (List.range (strlcpyCount memory (dtStringMaxsize - 1) (tree deviceTree + 4 * i))).map fun k =>
    i + k / 4

/-- `dt_parse_prop`. Both loops over the value read all of it. -/
def dtParsePropReads (node : Option CString) (prop : CString) (currentNodeName : CString) (i : Nat) :
    Parsed :=
  let length := bigAt memory (tree deviceTree) i
  let string := dtCopyString memory deviceTree (bigAt memory (tree deviceTree) (i + 1))
    dtStringMaxsize
  let words := uint32 (length + 3) / 4
  if isNode node currentNodeName ∧ strncmp string prop dtStringMaxsize = 0 then
    ⟨uint32 i, i + 1, [i, i + 1]⟩
  else ⟨0, i + 2 + words, i :: (i + 1) :: (List.range' (i + 2) words ++ List.range' (i + 2) words)⟩

mutual

/-- `dt_parse_node`. The words of the name are read by the copy and by the loop over its padding. -/
def dtParseNodeReads (node : Option CString) (prop : CString) : Nat → Nat → Except Stuck Parsed
  | 0, _ => .error .endless
  | rounds + 1, i =>
      if bigAt memory (tree deviceTree) i ≠ fdtBeginNode then .ok ⟨4294967295, i + 1, [i]⟩
      else
        let nodeName := strlcpy memory (tree deviceTree + 4 * (i + 1)) dtStringMaxsize
        match skipName memory deviceTree rounds (i + 1) with
        | .error stuck => .error stuck
        | .ok j =>
            match dtParseNodeLoopReads node prop nodeName rounds j with
            | .error stuck => .error stuck
            | .ok parsed =>
                .ok ⟨parsed.result, parsed.next, i :: (nameReads memory deviceTree (i + 1) ++
                  (List.range' (i + 1) (j - (i + 1)) ++ parsed.reads))⟩

/-- The loop of `dt_parse_node` over the tokens of a node. -/
def dtParseNodeLoopReads (node : Option CString) (prop : CString) (nodeName : CString) :
    Nat → Nat → Except Stuck Parsed
  | 0, _ => .error .endless
  | rounds + 1, i =>
      let token := bigAt memory (tree deviceTree) i
      if token = fdtProp then
        let parsed := dtParsePropReads memory deviceTree node prop nodeName (i + 1)
        if 0 < parsed.result then .ok ⟨parsed.result, parsed.next, i :: parsed.reads⟩
        else
          match dtParseNodeLoopReads node prop nodeName rounds parsed.next with
          | .error stuck => .error stuck
          | .ok rest => .ok ⟨rest.result, rest.next, i :: (parsed.reads ++ rest.reads)⟩
      else if token = fdtBeginNode then
        match dtParseNodeReads node prop rounds i with
        | .error stuck => .error stuck
        | .ok parsed =>
            if 0 < parsed.result then .ok ⟨parsed.result, parsed.next, i :: parsed.reads⟩
            else
              match dtParseNodeLoopReads node prop nodeName rounds parsed.next with
              | .error stuck => .error stuck
              | .ok rest => .ok ⟨rest.result, rest.next, i :: (parsed.reads ++ rest.reads)⟩
      else if token = fdtEndNode then .ok ⟨0, i + 1, [i]⟩
      -- an empty or an unexpected token
      else
        match dtParseNodeLoopReads node prop nodeName rounds (i + 1) with
        | .error stuck => .error stuck
        | .ok rest => .ok ⟨rest.result, rest.next, i :: rest.reads⟩

end

/-- The loop of `devicetree_find_node_prop`. -/
def findLoopReads (node : Option CString) (prop : CString) :
    Nat → Nat → Except Stuck (Int × List Nat)
  | 0, _ => .error .endless
  | rounds + 1, i =>
      match dtParseNodeReads memory deviceTree node prop rounds i with
      | .error stuck => .error stuck
      | .ok parsed =>
          if 0 < parsed.result then .ok (int32 parsed.result, parsed.reads)
          else if bigAt memory (tree deviceTree) parsed.next = fdtEnd then
            .ok (-enoent, parsed.reads ++ [parsed.next])
          else if deviceTree.totalsize < uint32 (deviceTree.offStruct + 4 * parsed.next) then
            .ok (-enoent, parsed.reads ++ [parsed.next])
          else
            match findLoopReads node prop rounds parsed.next with
            | .error stuck => .error stuck
            | .ok rest => .ok (rest.1, parsed.reads ++ parsed.next :: rest.2)

/-- `devicetree_find_node_prop` -/
def devicetreeFindNodePropReads (rounds : Nat) (node : Option CString) (prop : CString) :
    Except Stuck (Int × List Nat) :=
  if deviceTree.valid = 0 then .ok (-enodev, [])
  else findLoopReads memory deviceTree node prop rounds 0

end

/-! ## It is the same search -/

section

variable {memory : Nat → UInt8} {deviceTree : DeviceTreeType} {node : Option CString}
  {prop : CString}

/-- The result and the new index of a search. -/
def Parsed.found (parsed : Parsed) : Nat × Nat := (parsed.result, parsed.next)

theorem found_dtParsePropReads (nodeName : CString) (i : Nat) :
    (dtParsePropReads memory deviceTree node prop nodeName i).found =
      dtParseProp memory deviceTree node prop nodeName i := by
  unfold dtParsePropReads dtParseProp
  dsimp only
  split
  · rfl
  · rfl

/-- Both functions agree with the ones without reads, by induction on the rounds that are left. -/
theorem found_dtParseReads (rounds : Nat) :
    (∀ i, (dtParseNodeReads memory deviceTree node prop rounds i).map Parsed.found =
        dtParseNode memory deviceTree node prop rounds i) ∧
      ∀ nodeName i, (dtParseNodeLoopReads memory deviceTree node prop nodeName rounds i).map
        Parsed.found = dtParseNodeLoop memory deviceTree node prop nodeName rounds i := by
  induction rounds with
  | zero => exact ⟨fun _ => rfl, fun _ _ => rfl⟩
  | succ rounds ih =>
      obtain ⟨ihnode, ihloop⟩ := ih
      constructor
      · intro i
        rw [dtParseNodeReads, dtParseNode]
        split
        · rfl
        · cases skipName memory deviceTree rounds (i + 1) with
          | error stuck => rfl
          | ok j =>
              dsimp only
              rw [← ihloop]
              cases dtParseNodeLoopReads memory deviceTree node prop
                (strlcpy memory (tree deviceTree + 4 * (i + 1)) dtStringMaxsize) rounds j with
              | error stuck => rfl
              | ok parsed => rfl
      · intro nodeName i
        rw [dtParseNodeLoopReads, dtParseNodeLoop]
        dsimp only
        by_cases hprop : bigAt memory (tree deviceTree) i = fdtProp
        · have hnop : ¬ bigAt memory (tree deviceTree) i = fdtNop := by rw [hprop]; decide
          rw [if_pos hprop, if_neg hnop, if_pos hprop, ← found_dtParsePropReads]
          unfold Parsed.found
          dsimp only
          split
          · rfl
          · rw [← ihloop]
            cases dtParseNodeLoopReads memory deviceTree node prop nodeName rounds
              (dtParsePropReads memory deviceTree node prop nodeName (i + 1)).next with
            | error stuck => rfl
            | ok rest => rfl
        · by_cases hbegin : bigAt memory (tree deviceTree) i = fdtBeginNode
          · have hnop : ¬ bigAt memory (tree deviceTree) i = fdtNop := by rw [hbegin]; decide
            rw [if_neg hprop, if_pos hbegin, if_neg hnop, if_neg hprop, if_pos hbegin, ← ihnode]
            cases dtParseNodeReads memory deviceTree node prop rounds i with
            | error stuck => rfl
            | ok parsed =>
                unfold Parsed.found
                dsimp only [Except.map]
                by_cases hpos : 0 < parsed.result
                · rw [if_pos hpos, if_pos hpos]
                · rw [if_neg hpos, if_neg hpos, ← ihloop]
                  cases dtParseNodeLoopReads memory deviceTree node prop nodeName rounds
                    parsed.next with
                  | error stuck => rfl
                  | ok rest => rfl
          · rw [if_neg hprop, if_neg hbegin, if_neg hprop, if_neg hbegin]
            by_cases hend : bigAt memory (tree deviceTree) i = fdtEndNode
            · have hnop : ¬ bigAt memory (tree deviceTree) i = fdtNop := by rw [hend]; decide
              rw [if_pos hend, if_neg hnop, if_pos hend]
              rfl
            · rw [if_neg hend, if_neg hend, ite_self, ← ihloop]
              cases dtParseNodeLoopReads memory deviceTree node prop nodeName rounds (i + 1) with
              | error stuck => rfl
              | ok rest => rfl

theorem fst_findLoopReads (rounds i : Nat) :
    (findLoopReads memory deviceTree node prop rounds i).map Prod.fst =
      findLoop memory deviceTree node prop rounds i := by
  induction rounds generalizing i with
  | zero => rfl
  | succ rounds ih =>
      rw [findLoopReads, findLoop, ← (found_dtParseReads rounds).1 i]
      cases dtParseNodeReads memory deviceTree node prop rounds i with
      | error stuck => rfl
      | ok parsed =>
          unfold Parsed.found
          dsimp only [Except.map]
          by_cases hpos : 0 < parsed.result
          · rw [if_pos hpos, if_pos hpos]
          · rw [if_neg hpos, if_neg hpos]
            by_cases hend : bigAt memory (tree deviceTree) parsed.next = fdtEnd
            · rw [if_pos hend, if_pos hend]
            · rw [if_neg hend, if_neg hend]
              by_cases hsize :
                  deviceTree.totalsize < uint32 (deviceTree.offStruct + 4 * parsed.next)
              · rw [if_pos hsize, if_pos hsize]
              · rw [if_neg hsize, if_neg hsize, ← ih]
                cases findLoopReads memory deviceTree node prop rounds parsed.next with
                | error stuck => rfl
                | ok rest => rfl

/-- The search with its reads returns what the search returns. -/
theorem fst_devicetreeFindNodePropReads (rounds : Nat) :
    (devicetreeFindNodePropReads memory deviceTree rounds node prop).map Prod.fst =
      devicetreeFindNodeProp memory deviceTree rounds node prop := by
  rw [devicetreeFindNodePropReads, devicetreeFindNodeProp]
  split
  · rfl
  · exact fst_findLoopReads rounds 0

end

/-! ## Words read as tokens

Nothing is asked of the words but that they can be read to an end: a name has any words up to one
whose last byte is 0, a value has as many words as its length says, and every word that is none of
the known tokens counts as one that is passed over. -/

/-- What stands inside a node from some point on, up to its end token or up to a property that is
looked for. -/
inductive Tokens where
  | close
  | hit
  | other (rest : Tokens)
  | prop (value : Nat) (rest : Tokens)
  | node (name : Nat) (contents rest : Tokens)
  | into (name : Nat) (contents : Tokens)

/-- Is the end token of the node reached? -/
def Tokens.closed : Tokens → Bool
  | close => true
  | hit => false
  | other rest => rest.closed
  | prop _ rest => rest.closed
  | node _ _ rest => rest.closed
  | into _ _ => false

/-- The number of words. -/
def Tokens.words : Tokens → Nat
  | close => 1
  | hit => 3
  | other rest => 1 + rest.words
  | prop value rest => 3 + value + rest.words
  | node name contents rest => 2 + name + contents.words + rest.words
  | into name contents => 2 + name + contents.words

/-- The nodes at the top, up to a word that begins none or up to a property that is looked for. -/
inductive Nodes where
  | stop
  | node (name : Nat) (contents : Tokens) (rest : Nodes)
  | into (name : Nat) (contents : Tokens)

def Nodes.words : Nodes → Nat
  | stop => 1
  | node name contents rest => 2 + name + contents.words + rest.words
  | into name contents => 2 + name + contents.words

section

variable (memory : Nat → UInt8) (deviceTree : DeviceTreeType) (node : Option CString)
  (prop : CString)

/-- The words of a name: `name` of them, and one more that ends with 0. -/
structure HasName (i name : Nat) : Prop where
  more : ∀ k < name, bigAt memory (tree deviceTree) (i + k) &&& 0xff ≠ 0
  last : bigAt memory (tree deviceTree) (i + name) &&& 0xff = 0

/-- The name of a node that begins at an index. -/
def nameAt (i : Nat) : CString := strlcpy memory (tree deviceTree + 4 * (i + 1)) dtStringMaxsize

/-- The property with its length word at an index is looked for. -/
def WantedAt (nodeName : CString) (i : Nat) : Prop :=
  isNode node nodeName ∧ strncmp (dtCopyString memory deviceTree
    (bigAt memory (tree deviceTree) (i + 1)) dtStringMaxsize) prop dtStringMaxsize = 0

/-- The words from an index on can be read as these tokens. -/
def Tokens.Stand : Tokens → CString → Nat → Prop
  | close, _, i => bigAt memory (tree deviceTree) i = fdtEndNode
  | hit, nodeName, i => bigAt memory (tree deviceTree) i = fdtProp ∧
      WantedAt memory deviceTree node prop nodeName (i + 1)
  | other rest, nodeName, i =>
      bigAt memory (tree deviceTree) i ∉ [fdtProp, fdtBeginNode, fdtEndNode] ∧
        rest.Stand nodeName (i + 1)
  | .prop value rest, nodeName, i => bigAt memory (tree deviceTree) i = fdtProp ∧
      uint32 (bigAt memory (tree deviceTree) (i + 1) + 3) / 4 = value ∧
        rest.Stand nodeName (i + 3 + value)
  | .node name contents rest, nodeName, i => bigAt memory (tree deviceTree) i = fdtBeginNode ∧
      HasName memory deviceTree (i + 1) name ∧ contents.closed = true ∧
        contents.Stand (nameAt memory deviceTree i) (i + 2 + name) ∧
          rest.Stand nodeName (i + 2 + name + contents.words)
  | into name contents, _, i => bigAt memory (tree deviceTree) i = fdtBeginNode ∧
      HasName memory deviceTree (i + 1) name ∧ contents.closed = false ∧
        contents.Stand (nameAt memory deviceTree i) (i + 2 + name)

/-- The same at the top. -/
def Nodes.Stand : Nodes → Nat → Prop
  | stop, i => bigAt memory (tree deviceTree) i ≠ fdtBeginNode
  | .node name contents rest, i => bigAt memory (tree deviceTree) i = fdtBeginNode ∧
      HasName memory deviceTree (i + 1) name ∧ contents.closed = true ∧
        contents.Stand memory deviceTree node prop (nameAt memory deviceTree i) (i + 2 + name) ∧
          rest.Stand (i + 2 + name + contents.words)
  | into name contents, i => bigAt memory (tree deviceTree) i = fdtBeginNode ∧
      HasName memory deviceTree (i + 1) name ∧ contents.closed = false ∧
        contents.Stand memory deviceTree node prop (nameAt memory deviceTree i) (i + 2 + name)

end

/-- So many words of the tree are inside it. -/
def Fits (deviceTree : DeviceTreeType) (words : Nat) : Prop :=
  deviceTree.offStruct + 4 * words ≤ deviceTree.totalsize

/-- The words of the tree with these indices are inside it. -/
def Inside (deviceTree : DeviceTreeType) (reads : List Nat) : Prop :=
  ∀ w ∈ reads, Fits deviceTree (w + 1)

/-- The search ends, and reads nothing outside the tree. -/
def Bounded (memory : Nat → UInt8) (deviceTree : DeviceTreeType) (node : Option CString)
    (prop : CString) : Prop :=
  ∃ rounds found reads,
    devicetreeFindNodePropReads memory deviceTree rounds node prop = .ok (found, reads) ∧
      Inside deviceTree reads

/-! ## Names -/

section Names

variable {memory : Nat → UInt8} {deviceTree : DeviceTreeType} {rounds i j name : Nat}

theorem Fits.mono {m n : Nat} (h : Fits deviceTree n) (hle : m ≤ n) : Fits deviceTree m := by
  unfold Fits at h ⊢
  omega

theorem inside_append {a b : List Nat} :
    Inside deviceTree (a ++ b) ↔ Inside deviceTree a ∧ Inside deviceTree b := by
  unfold Inside
  exact List.forall_mem_append

theorem inside_cons {w : Nat} {reads : List Nat} :
    Inside deviceTree (w :: reads) ↔ Fits deviceTree (w + 1) ∧ Inside deviceTree reads := by
  unfold Inside
  exact List.forall_mem_cons

theorem inside_range {n : Nat} (h : Fits deviceTree (i + n)) :
    Inside deviceTree (List.range' i n) := by
  intro w hw
  obtain ⟨-, hlt⟩ := List.mem_range'_1.1 hw
  exact h.mono hlt

/-- The last word of a range tells about all of it. -/
theorem fits_of_inside_range {n : Nat} (hfirst : Fits deviceTree i)
    (h : Inside deviceTree (List.range' i n)) : Fits deviceTree (i + n) := by
  cases n with
  | zero => exact hfirst
  | succ n =>
      refine h (i + n) (List.mem_range'_1.2 ⟨Nat.le_add_right i n, ?_⟩)
      exact Nat.lt_succ_self (i + n)

theorem skipName_of_name (h : HasName memory deviceTree i name) (hrounds : name < rounds) :
    skipName memory deviceTree rounds i = .ok (i + name + 1) := by
  induction name generalizing rounds i with
  | zero =>
      obtain ⟨rounds, rfl⟩ := Nat.exists_eq_succ_of_ne_zero (Nat.ne_of_gt hrounds)
      have hlast : bigAt memory (tree deviceTree) i &&& 0xff = 0 := h.last
      rw [skipName, if_pos hlast, Nat.add_zero]
  | succ name ih =>
      obtain ⟨rounds, rfl⟩ := Nat.exists_eq_succ_of_ne_zero (Nat.ne_of_gt (Nat.zero_lt_of_lt hrounds))
      have hshift (k : Nat) : i + 1 + k = i + (k + 1) := by omega
      have hrest : HasName memory deviceTree (i + 1) name := by
        constructor
        · intro k hk
          rw [hshift]
          exact h.more (k + 1) (Nat.succ_lt_succ hk)
        · rw [hshift]
          exact h.last
      have hfirst : bigAt memory (tree deviceTree) i &&& 0xff ≠ 0 := h.more 0 (Nat.zero_lt_succ name)
      rw [skipName, if_neg hfirst, ih hrest (Nat.lt_of_succ_lt_succ hrounds), hshift]

theorem name_of_skipName (h : skipName memory deviceTree rounds i = .ok j) :
    ∃ name, HasName memory deviceTree i name ∧ j = i + name + 1 := by
  induction rounds generalizing i with
  | zero => cases h
  | succ rounds ih =>
      rw [skipName] at h
      by_cases hlast : bigAt memory (tree deviceTree) i &&& 0xff = 0
      · rw [if_pos hlast] at h
        exact ⟨0, ⟨fun k hk => absurd hk (Nat.not_lt_zero k), hlast⟩, (Except.ok.inj h).symm⟩
      · rw [if_neg hlast] at h
        obtain ⟨name, hname, rfl⟩ := ih h
        have hshift (k : Nat) : i + 1 + k = i + (k + 1) := by omega
        refine ⟨name + 1, ⟨fun k hk => ?_, ?_⟩, by omega⟩
        · cases k with
          | zero => exact hlast
          | succ k =>
              rw [← hshift]
              exact hname.more k (Nat.lt_of_succ_lt_succ hk)
        · rw [← hshift]
          exact hname.last

/-- The copy of a name does not look behind a 0. -/
theorem strlcpyCount_le {n src d : Nat} (h : memory (uint32 (src + d)) = 0) :
    strlcpyCount memory n src ≤ d + 1 := by
  induction d generalizing n src with
  | zero =>
      cases n with
      | zero => exact Nat.zero_le _
      | succ n =>
          have hzero : memory (uint32 src) = 0 := h
          rw [strlcpyCount]
          exact Nat.le_of_eq (if_pos hzero)
  | succ d ih =>
      cases n with
      | zero => exact Nat.zero_le _
      | succ n =>
          have hshift : src + 1 + d = src + (d + 1) := by omega
          rw [strlcpyCount]
          split
          · exact Nat.succ_le_succ (Nat.zero_le _)
          · exact Nat.succ_le_succ (ih (by rw [hshift]; exact h))

/-- The copy of a name stays in its words. -/
theorem inside_nameReads (hname : HasName memory deviceTree i name)
    (hspace : tree deviceTree + 4 * (i + name + 1) ≤ 4294967296)
    (hfits : Fits deviceTree (i + name + 1)) :
    Inside deviceTree (nameReads memory deviceTree i) := by
  have hlast := (bigAt_and_eq_zero_iff (by omega)).1 hname.last
  have hzero : memory (uint32 (tree deviceTree + 4 * i + (4 * name + 3))) = 0 := by
    have hplace : tree deviceTree + 4 * i + (4 * name + 3) =
      tree deviceTree + 4 * (i + name) + 3 := by omega
    rw [hplace, uint32_of_lt (by omega), hlast]
  intro w hw
  obtain ⟨k, hk, rfl⟩ := List.mem_map.1 hw
  have hlt := List.mem_range.1 hk
  have hle := @strlcpyCount_le memory (dtStringMaxsize - 1) (tree deviceTree + 4 * i) _ hzero
  exact hfits.mono (by omega)

end Names

/-! ## From a search to tokens -/

section Search

variable {memory : Nat → UInt8} {deviceTree : DeviceTreeType} {node : Option CString}
  {prop nodeName : CString} {rounds i name : Nat} {parsed : Parsed}

/-- How a part of the search ends: behind the closed node, or with a property. -/
def Parsed.Leads (parsed : Parsed) (closed : Bool) (next : Nat) : Prop :=
  closed = true ∧ parsed.result = 0 ∧ parsed.next = next ∨ closed = false ∧ 0 < parsed.result

/-- A node that has been gone over has a name, and what is read behind it belongs to the loop. -/
theorem dtParseNodeReads_ok
    (h : dtParseNodeReads memory deviceTree node prop (rounds + 1) i = .ok parsed)
    (hbegin : bigAt memory (tree deviceTree) i = fdtBeginNode) (hin : Inside deviceTree parsed.reads) :
    ∃ name contents, HasName memory deviceTree (i + 1) name ∧ Fits deviceTree (i + 2 + name) ∧
      dtParseNodeLoopReads memory deviceTree node prop (nameAt memory deviceTree i) rounds
        (i + 2 + name) = .ok contents ∧ Inside deviceTree contents.reads ∧
      parsed.result = contents.result ∧ parsed.next = contents.next := by
  rw [dtParseNodeReads, if_neg (not_not_intro hbegin)] at h
  dsimp only at h
  cases hskip : skipName memory deviceTree rounds (i + 1) with
  | error stuck =>
      rw [hskip] at h
      cases h
  | ok j =>
      obtain ⟨name, hname, rfl⟩ := name_of_skipName hskip
      have hplace : i + 1 + name + 1 = i + 2 + name := by omega
      rw [hskip, hplace] at h
      dsimp only at h
      cases hloop : dtParseNodeLoopReads memory deviceTree node prop
          (strlcpy memory (tree deviceTree + 4 * (i + 1)) dtStringMaxsize) rounds (i + 2 + name) with
      | error stuck =>
          rw [hloop] at h
          cases h
      | ok contents =>
          rw [hloop] at h
          cases h
          rw [inside_cons, inside_append, inside_append] at hin
          obtain ⟨hfirst, -, hrange, hcontents⟩ := hin
          have hcount : i + 2 + name - (i + 1) = name + 1 := by omega
          have hfits := fits_of_inside_range hfirst hrange
          rw [hcount] at hfits
          exact ⟨name, contents, hname, hfits.mono (by omega), hloop, hcontents, rfl, rfl⟩

theorem uint32_pos (h : Fits deviceTree (i + 2)) (hsize : deviceTree.totalsize < 4294967296) :
    0 < uint32 (i + 1) := by
  unfold Fits at h
  rw [uint32_of_lt (by omega)]
  exact Nat.succ_pos i

/-- A search inside a node that reads nothing outside the tree has gone over tokens. The induction
is on the rounds, and each token is one round of the loop. -/
theorem tokens_of_loop (hsize : deviceTree.totalsize < 4294967296)
    (h : dtParseNodeLoopReads memory deviceTree node prop nodeName rounds i = .ok parsed)
    (hin : Inside deviceTree parsed.reads) :
    ∃ tokens : Tokens, tokens.Stand memory deviceTree node prop nodeName i ∧
      Fits deviceTree (i + tokens.words) ∧ parsed.Leads tokens.closed (i + tokens.words) := by
  induction rounds using Nat.strong_induction_on generalizing nodeName i parsed with
  | _ rounds ih =>
  cases rounds with
  | zero => cases h
  | succ rounds =>
      rw [dtParseNodeLoopReads] at h
      dsimp only at h
      by_cases hprop : bigAt memory (tree deviceTree) i = fdtProp
      · rw [if_pos hprop] at h
        by_cases hwanted : WantedAt memory deviceTree node prop nodeName (i + 1)
        · -- the property is found
          have hparse : dtParsePropReads memory deviceTree node prop nodeName (i + 1) =
              ⟨uint32 (i + 1), i + 2, [i + 1, i + 2]⟩ := if_pos hwanted
          rw [hparse] at h
          dsimp only at h
          by_cases hpos : 0 < uint32 (i + 1)
          · rw [if_pos hpos] at h
            cases h
            rw [inside_cons, inside_cons, inside_cons] at hin
            exact ⟨.hit, ⟨hprop, hwanted⟩, hin.2.2.1, Or.inr ⟨rfl, hpos⟩⟩
          · rw [if_neg hpos] at h
            cases hrest : dtParseNodeLoopReads memory deviceTree node prop nodeName rounds (i + 2) with
            | error stuck =>
                rw [hrest] at h
                cases h
            | ok rest =>
                rw [hrest] at h
                cases h
                rw [inside_cons] at hin
                have hsecond := (inside_append.1 hin.2).1 (i + 1) List.mem_cons_self
                exact absurd (uint32_pos hsecond hsize) hpos
        · have hparse : dtParsePropReads memory deviceTree node prop nodeName (i + 1) =
              ⟨0, i + 1 + 2 + uint32 (bigAt memory (tree deviceTree) (i + 1) + 3) / 4,
                (i + 1) :: (i + 2) ::
                  (List.range' (i + 3) (uint32 (bigAt memory (tree deviceTree) (i + 1) + 3) / 4) ++
                    List.range' (i + 3)
                      (uint32 (bigAt memory (tree deviceTree) (i + 1) + 3) / 4))⟩ := if_neg hwanted
          rw [hparse] at h
          dsimp only at h
          generalize hvalue : uint32 (bigAt memory (tree deviceTree) (i + 1) + 3) / 4 = value at h
          have hplace : i + 1 + 2 + value = i + 3 + value := by omega
          rw [if_neg (Nat.lt_irrefl 0), hplace] at h
          cases hrest : dtParseNodeLoopReads memory deviceTree node prop nodeName rounds
              (i + 3 + value) with
          | error stuck =>
              rw [hrest] at h
              cases h
          | ok rest =>
              rw [hrest] at h
              cases h
              rw [inside_cons, inside_append] at hin
              obtain ⟨tokens, hstand, hfits, hleads⟩ :=
                ih rounds (Nat.lt_succ_self rounds) hrest hin.2.2
              have hwords : i + (Tokens.prop value tokens).words = i + 3 + value + tokens.words := by
                rw [Tokens.words]
                omega
              refine ⟨.prop value tokens, ⟨hprop, hvalue, hstand⟩, ?_, ?_⟩
              · rw [hwords]
                exact hfits
              · rw [hwords]
                exact hleads
      · rw [if_neg hprop] at h
        by_cases hbegin : bigAt memory (tree deviceTree) i = fdtBeginNode
        · rw [if_pos hbegin] at h
          cases hnode : dtParseNodeReads memory deviceTree node prop rounds i with
          | error stuck =>
              rw [hnode] at h
              cases h
          | ok inner =>
              rw [hnode] at h
              dsimp only at h
              cases rounds with
              | zero => cases hnode
              | succ rounds =>
                  by_cases hpos : 0 < inner.result
                  · -- the property is found inside
                    rw [if_pos hpos] at h
                    cases h
                    obtain ⟨name, contents, hname, hfits, hloop, hcontents, hresult, -⟩ :=
                      dtParseNodeReads_ok hnode hbegin (inside_cons.1 hin).2
                    obtain ⟨tokens, hstand, hfits, hleads⟩ :=
                      ih rounds (by omega) hloop hcontents
                    have hclosed : tokens.closed = false := by
                      rcases hleads with ⟨-, hzero, -⟩ | ⟨hopen, -⟩
                      · omega
                      · exact hopen
                    have hwords : i + (Tokens.into name tokens).words =
                        i + 2 + name + tokens.words := by
                      rw [Tokens.words]
                      omega
                    refine ⟨.into name tokens, ⟨hbegin, hname, hclosed, hstand⟩, ?_, ?_⟩
                    · rw [hwords]
                      exact hfits
                    · exact Or.inr ⟨rfl, hpos⟩
                  · rw [if_neg hpos] at h
                    cases hrest : dtParseNodeLoopReads memory deviceTree node prop nodeName
                        (rounds + 1) inner.next with
                    | error stuck =>
                        rw [hrest] at h
                        cases h
                    | ok rest =>
                        rw [hrest] at h
                        cases h
                        rw [inside_cons, inside_append] at hin
                        obtain ⟨name, contents, hname, hfits, hloop, hcontents, hresult, hnext⟩ :=
                          dtParseNodeReads_ok hnode hbegin hin.2.1
                        obtain ⟨tokens, hstand, -, hleads⟩ :=
                          ih rounds (by omega) hloop hcontents
                        have hclosed : tokens.closed = true ∧
                            inner.next = i + 2 + name + tokens.words := by
                          rcases hleads with ⟨hclosed, -, hend⟩ | ⟨-, hfound⟩
                          · exact ⟨hclosed, hnext.trans hend⟩
                          · omega
                        rw [hclosed.2] at hrest
                        obtain ⟨behind, hbehind, hfits, hleads⟩ :=
                          ih (rounds + 1) (by omega) hrest hin.2.2
                        have hwords : i + (Tokens.node name tokens behind).words =
                            i + 2 + name + tokens.words + behind.words := by
                          rw [Tokens.words]
                          omega
                        refine ⟨.node name tokens behind,
                          ⟨hbegin, hname, hclosed.1, hstand, hbehind⟩, ?_, ?_⟩
                        · rw [hwords]
                          exact hfits
                        · rw [hwords]
                          exact hleads
        · rw [if_neg hbegin] at h
          by_cases hend : bigAt memory (tree deviceTree) i = fdtEndNode
          · rw [if_pos hend] at h
            cases h
            exact ⟨.close, hend, hin i List.mem_cons_self, Or.inl ⟨rfl, rfl, rfl⟩⟩
          · rw [if_neg hend] at h
            cases hrest : dtParseNodeLoopReads memory deviceTree node prop nodeName rounds (i + 1) with
            | error stuck =>
                rw [hrest] at h
                cases h
            | ok rest =>
                rw [hrest] at h
                cases h
                obtain ⟨tokens, hstand, hfits, hleads⟩ :=
                  ih rounds (Nat.lt_succ_self rounds) hrest (inside_cons.1 hin).2
                have hwords : i + (Tokens.other tokens).words = i + 1 + tokens.words := by
                  rw [Tokens.words]
                  omega
                refine ⟨.other tokens, ⟨by simp [hprop, hbegin, hend], hstand⟩, ?_, ?_⟩
                · rw [hwords]
                  exact hfits
                · rw [hwords]
                  exact hleads

end Search

/-! ## From tokens to a search -/

section Tokens

variable {memory : Nat → UInt8} {deviceTree : DeviceTreeType} {node : Option CString}
  {prop nodeName : CString} {rounds i name : Nat} {parsed : Parsed}

theorem Tokens.words_pos (tokens : Tokens) : 0 < tokens.words := by
  cases tokens <;> rw [words] <;> omega

/-- The node is gone over as its contents are. -/
theorem dtParseNodeReads_of_contents (hbegin : bigAt memory (tree deviceTree) i = fdtBeginNode)
    (hname : HasName memory deviceTree (i + 1) name) (hrounds : name < rounds)
    (hspace : ∀ n, Fits deviceTree n → tree deviceTree + 4 * n ≤ 4294967296)
    (hfits : Fits deviceTree (i + 2 + name))
    (hloop : dtParseNodeLoopReads memory deviceTree node prop (nameAt memory deviceTree i) rounds
      (i + 2 + name) = .ok parsed) (hin : Inside deviceTree parsed.reads) :
    ∃ reads, dtParseNodeReads memory deviceTree node prop (rounds + 1) i =
      .ok ⟨parsed.result, parsed.next, reads⟩ ∧ Inside deviceTree reads := by
  have hplace : i + 1 + name + 1 = i + 2 + name := by omega
  have hcount : i + 2 + name - (i + 1) = name + 1 := by omega
  have hend : i + 1 + (name + 1) = i + 2 + name := by omega
  rw [nameAt] at hloop
  rw [dtParseNodeReads, if_neg (not_not_intro hbegin), skipName_of_name hname hrounds, hplace]
  dsimp only
  rw [hloop]
  refine ⟨_, rfl, ?_⟩
  rw [inside_cons, inside_append, inside_append]
  refine ⟨hfits.mono (by omega), ?_, ?_, hin⟩
  · apply inside_nameReads hname
    · rw [hplace]
      exact hspace _ hfits
    · rw [hplace]
      exact hfits
  · apply inside_range
    rw [hcount, hend]
    exact hfits

/-- What is known of a part of the search over some tokens: it stops at a property on the way, or it
reaches their end. -/
def Parsed.Follows (parsed : Parsed) (deviceTree : DeviceTreeType) (closed : Bool) (next : Nat) :
    Prop :=
  Inside deviceTree parsed.reads ∧
    (0 < parsed.result ∨ closed = true ∧ parsed.result = 0 ∧ parsed.next = next)

/-- The search inside a node follows the tokens, by induction on them. -/
theorem loop_of_tokens (hsize : deviceTree.totalsize < 4294967296)
    (hspace : ∀ n, Fits deviceTree n → tree deviceTree + 4 * n ≤ 4294967296) (tokens : Tokens)
    (hstand : tokens.Stand memory deviceTree node prop nodeName i)
    (hfits : Fits deviceTree (i + tokens.words)) (hrounds : tokens.words ≤ rounds) :
    ∃ parsed, dtParseNodeLoopReads memory deviceTree node prop nodeName rounds i = .ok parsed ∧
      parsed.Follows deviceTree tokens.closed (i + tokens.words) := by
  obtain ⟨rounds, rfl⟩ : ∃ m, rounds = m + 1 := by
    have := tokens.words_pos
    exact ⟨rounds - 1, by omega⟩
  induction tokens generalizing nodeName i rounds with
  | close =>
      have htoken : bigAt memory (tree deviceTree) i = fdtEndNode := hstand
      rw [dtParseNodeLoopReads, htoken]
      refine ⟨⟨0, i + 1, [i]⟩, rfl, ?_, Or.inr ⟨rfl, rfl, rfl⟩⟩
      intro w hw
      rw [List.mem_singleton.1 hw]
      exact hfits
  | hit =>
      obtain ⟨htoken, hwanted⟩ := hstand
      have hpos := uint32_pos (hfits.mono (Nat.add_le_add_left (by decide) i)) hsize
      have hparse : dtParsePropReads memory deviceTree node prop nodeName (i + 1) =
          ⟨uint32 (i + 1), i + 2, [i + 1, i + 2]⟩ := if_pos hwanted
      rw [dtParseNodeLoopReads]
      dsimp only
      rw [if_pos htoken, hparse]
      dsimp only
      rw [if_pos hpos]
      refine ⟨_, rfl, ?_, Or.inl hpos⟩
      exact @inside_range deviceTree i 3 hfits
  | other rest ih =>
      obtain ⟨htoken, hstand⟩ := hstand
      rw [Tokens.words, ← Nat.add_assoc] at hfits
      rw [Tokens.words] at hrounds
      obtain ⟨rounds, rfl⟩ : ∃ m, rounds = m + 1 := by
        have := rest.words_pos
        exact ⟨rounds - 1, by omega⟩
      obtain ⟨parsed, hloop, hin, hends⟩ := ih hstand hfits rounds (by omega)
      simp only [List.mem_cons, List.not_mem_nil, or_false, not_or] at htoken
      rw [dtParseNodeLoopReads]
      dsimp only
      rw [if_neg htoken.1, if_neg htoken.2.1, if_neg htoken.2.2, hloop, Tokens.words,
        ← Nat.add_assoc]
      refine ⟨_, rfl, ?_, hends⟩
      exact inside_cons.2 ⟨hfits.mono (Nat.le_add_right _ _), hin⟩
  | prop value rest ih =>
      obtain ⟨htoken, hvalue, hstand⟩ := hstand
      have hwords : i + (Tokens.prop value rest).words = i + 3 + value + rest.words := by
        rw [Tokens.words]
        omega
      rw [hwords] at hfits ⊢
      rw [Tokens.words] at hrounds
      obtain ⟨rounds, rfl⟩ : ∃ m, rounds = m + 1 := by
        have := rest.words_pos
        exact ⟨rounds - 1, by omega⟩
      obtain ⟨parsed, hloop, hin, hends⟩ := ih hstand hfits rounds (by omega)
      rw [dtParseNodeLoopReads]
      dsimp only
      rw [if_pos htoken]
      have hthree : Inside deviceTree [i, i + 1, i + 2] :=
        @inside_range deviceTree i 3 (hfits.mono (by omega))
      by_cases hwanted : WantedAt memory deviceTree node prop nodeName (i + 1)
      · -- the search stops earlier
        have hpos := uint32_pos (i := i) (hfits.mono (by omega)) hsize
        have hparse : dtParsePropReads memory deviceTree node prop nodeName (i + 1) =
            ⟨uint32 (i + 1), i + 2, [i + 1, i + 2]⟩ := if_pos hwanted
        rw [hparse]
        dsimp only
        rw [if_pos hpos]
        exact ⟨_, rfl, hthree, Or.inl hpos⟩
      · have hparse : dtParsePropReads memory deviceTree node prop nodeName (i + 1) =
            ⟨0, i + 1 + 2 + value, (i + 1) :: (i + 2) ::
              (List.range' (i + 3) value ++ List.range' (i + 3) value)⟩ := by
          rw [← hvalue]
          exact if_neg hwanted
        have hplace : i + 1 + 2 + value = i + 3 + value := by omega
        rw [hparse]
        dsimp only
        rw [if_neg (Nat.lt_irrefl 0), hplace, hloop]
        refine ⟨_, rfl, ?_, hends⟩
        have hrange : Inside deviceTree (List.range' (i + 3) value) :=
          inside_range (hfits.mono (Nat.le_add_right _ _))
        rw [inside_cons, inside_cons, inside_cons] at hthree
        rw [inside_cons, List.cons_append, List.cons_append, inside_cons, inside_cons,
          inside_append, inside_append]
        exact ⟨hthree.1, hthree.2.1, hthree.2.2.1, ⟨hrange, hrange⟩, hin⟩
  | node name contents rest ihc ihr =>
      obtain ⟨htoken, hname, hclosed, hcontents, hrest⟩ := hstand
      have hwords : i + (Tokens.node name contents rest).words =
          i + 2 + name + contents.words + rest.words := by
        rw [Tokens.words]
        omega
      rw [hwords] at hfits ⊢
      rw [Tokens.words] at hrounds
      have hcpos := contents.words_pos
      have hrpos := rest.words_pos
      obtain ⟨rounds, rfl⟩ : ∃ m, rounds = m + 2 := ⟨rounds - 2, by omega⟩
      obtain ⟨inner, hloop, hin, hends⟩ := ihc hcontents (hfits.mono (by omega)) rounds (by omega)
      obtain ⟨reads, hnode, hreads⟩ := dtParseNodeReads_of_contents htoken hname (by omega) hspace
        (hfits.mono (by omega)) hloop hin
      have hprop : ¬ bigAt memory (tree deviceTree) i = fdtProp := by rw [htoken]; decide
      rw [dtParseNodeLoopReads]
      dsimp only
      rw [if_neg hprop, if_pos htoken, hnode]
      dsimp only
      have hfirst : Fits deviceTree (i + 1) := hfits.mono (by omega)
      by_cases hpos : 0 < inner.result
      · rw [if_pos hpos]
        exact ⟨_, rfl, inside_cons.2 ⟨hfirst, hreads⟩, Or.inl hpos⟩
      · have hnext := (hends.resolve_left hpos).2.2
        obtain ⟨parsed, hbehind, hin', hends'⟩ := ihr hrest hfits (rounds + 1) (by omega)
        rw [if_neg hpos, hnext, hbehind]
        refine ⟨_, rfl, ?_, hends'⟩
        rw [inside_cons, inside_append]
        exact ⟨hfirst, hreads, hin'⟩
  | into name contents ih =>
      obtain ⟨htoken, hname, hopen, hcontents⟩ := hstand
      have hwords : i + (Tokens.into name contents).words = i + 2 + name + contents.words := by
        rw [Tokens.words]
        omega
      rw [hwords] at hfits ⊢
      rw [Tokens.words] at hrounds
      have hcpos := contents.words_pos
      obtain ⟨rounds, rfl⟩ : ∃ m, rounds = m + 2 := ⟨rounds - 2, by omega⟩
      obtain ⟨inner, hloop, hin, hends⟩ := ih hcontents hfits rounds (by omega)
      obtain ⟨reads, hnode, hreads⟩ := dtParseNodeReads_of_contents htoken hname (by omega) hspace
        (hfits.mono (by omega)) hloop hin
      have hprop : ¬ bigAt memory (tree deviceTree) i = fdtProp := by rw [htoken]; decide
      have hpos : 0 < inner.result := by
        refine hends.resolve_right fun hclosed => ?_
        rw [hopen] at hclosed
        cases hclosed.1
      rw [dtParseNodeLoopReads]
      dsimp only
      rw [if_neg hprop, if_pos htoken, hnode]
      dsimp only
      rw [if_pos hpos]
      exact ⟨_, rfl, inside_cons.2 ⟨hfits.mono (by omega), hreads⟩, Or.inl hpos⟩

end Tokens

/-! ## The nodes at the top -/

section Top

variable {memory : Nat → UInt8} {deviceTree : DeviceTreeType} {node : Option CString}
  {prop : CString} {rounds i : Nat}

theorem Nodes.words_pos (nodes : Nodes) : 0 < nodes.words := by
  cases nodes <;> rw [words] <;> omega

theorem dtParseNodeReads_stop (h : bigAt memory (tree deviceTree) i ≠ fdtBeginNode) :
    dtParseNodeReads memory deviceTree node prop (rounds + 1) i =
      .ok ⟨4294967295, i + 1, [i]⟩ := by
  rw [dtParseNodeReads]
  exact if_pos h

/-- The `-1` of a word that begins no node counts as something found. -/
theorem minusOne_pos : 0 < 4294967295 := by
  norm_num

/-- A word inside the tree passes the test for the size. -/
theorem not_totalsize_lt (h : Fits deviceTree i) (hsize : deviceTree.totalsize < 4294967296) :
    ¬ deviceTree.totalsize < uint32 (deviceTree.offStruct + 4 * i) := by
  unfold Fits at h
  rw [uint32_of_lt (by omega)]
  omega

theorem nodes_of_findLoop (hsize : deviceTree.totalsize < 4294967296) {found : Int}
    {reads : List Nat}
    (h : findLoopReads memory deviceTree node prop rounds i = .ok (found, reads))
    (hin : Inside deviceTree reads) :
    ∃ nodes : Nodes, nodes.Stand memory deviceTree node prop i ∧
      Fits deviceTree (i + nodes.words) := by
  induction rounds generalizing i found reads with
  | zero => cases h
  | succ rounds ih =>
      rw [findLoopReads] at h
      cases hnode : dtParseNodeReads memory deviceTree node prop rounds i with
      | error stuck =>
          rw [hnode] at h
          cases h
      | ok parsed =>
          rw [hnode] at h
          dsimp only at h
          cases rounds with
          | zero => cases hnode
          | succ rounds =>
              by_cases hbegin : bigAt memory (tree deviceTree) i = fdtBeginNode
              · by_cases hpos : 0 < parsed.result
                · rw [if_pos hpos] at h
                  obtain ⟨-, rfl⟩ := Prod.mk.inj (Except.ok.inj h)
                  obtain ⟨name, contents, hname, -, hloop, hcontents, hresult, -⟩ :=
                    dtParseNodeReads_ok hnode hbegin hin
                  obtain ⟨tokens, hstand, hfits, hleads⟩ := tokens_of_loop hsize hloop hcontents
                  have hopen : tokens.closed = false := by
                    rcases hleads with ⟨-, hzero, -⟩ | ⟨hopen, -⟩
                    · omega
                    · exact hopen
                  have hwords : i + (Nodes.into name tokens).words = i + 2 + name + tokens.words := by
                    rw [Nodes.words]
                    omega
                  refine ⟨.into name tokens, ⟨hbegin, hname, hopen, hstand⟩, ?_⟩
                  rw [hwords]
                  exact hfits
                · -- the node is left, and the word behind it is read
                  rw [if_neg hpos] at h
                  have hparts : Inside deviceTree parsed.reads ∧ Fits deviceTree (parsed.next + 1) ∧
                      ∃ rest : Nodes, rest.Stand memory deviceTree node prop parsed.next ∧
                        Fits deviceTree (parsed.next + rest.words) := by
                    by_cases hend : bigAt memory (tree deviceTree) parsed.next = fdtEnd
                    · rw [if_pos hend] at h
                      cases h
                      obtain ⟨hnodeIn, hlast⟩ := inside_append.1 hin
                      have hfits := hlast parsed.next List.mem_cons_self
                      refine ⟨hnodeIn, hfits, .stop, ?_, hfits⟩
                      intro hagain
                      rw [hend] at hagain
                      exact absurd hagain (by decide)
                    · rw [if_neg hend] at h
                      by_cases htotal : deviceTree.totalsize <
                          uint32 (deviceTree.offStruct + 4 * parsed.next)
                      · rw [if_pos htotal] at h
                        cases h
                        have hlast := (inside_append.1 hin).2 parsed.next List.mem_cons_self
                        exact absurd htotal
                          (not_totalsize_lt (hlast.mono (Nat.le_succ parsed.next)) hsize)
                      · rw [if_neg htotal] at h
                        cases hrest : findLoopReads memory deviceTree node prop (rounds + 1)
                            parsed.next with
                        | error stuck =>
                            rw [hrest] at h
                            cases h
                        | ok rest =>
                            rw [hrest] at h
                            cases h
                            rw [inside_append, inside_cons] at hin
                            exact ⟨hin.1, hin.2.1, ih hrest hin.2.2⟩
                  obtain ⟨hnodeIn, -, rest, hrest, hfits⟩ := hparts
                  obtain ⟨name, contents, hname, -, hloop, hcontents, hresult, hnext⟩ :=
                    dtParseNodeReads_ok hnode hbegin hnodeIn
                  obtain ⟨tokens, hstand, -, hleads⟩ := tokens_of_loop hsize hloop hcontents
                  have hclosed : tokens.closed = true ∧
                      parsed.next = i + 2 + name + tokens.words := by
                    rcases hleads with ⟨hclosed, -, hend⟩ | ⟨-, hfound⟩
                    · exact ⟨hclosed, hnext.trans hend⟩
                    · omega
                  rw [hclosed.2] at hrest hfits
                  have hwords : i + (Nodes.node name tokens rest).words =
                      i + 2 + name + tokens.words + rest.words := by
                    rw [Nodes.words]
                    omega
                  refine ⟨.node name tokens rest, ⟨hbegin, hname, hclosed.1, hstand, hrest⟩, ?_⟩
                  rw [hwords]
                  exact hfits
              · rw [dtParseNodeReads_stop hbegin] at hnode
                cases hnode
                dsimp only at h
                rw [if_pos minusOne_pos] at h
                cases h
                exact ⟨.stop, hbegin, hin i List.mem_cons_self⟩

theorem findLoop_of_nodes (hsize : deviceTree.totalsize < 4294967296)
    (hspace : ∀ n, Fits deviceTree n → tree deviceTree + 4 * n ≤ 4294967296) (nodes : Nodes)
    (hstand : nodes.Stand memory deviceTree node prop i)
    (hfits : Fits deviceTree (i + nodes.words)) (hrounds : nodes.words < rounds) :
    ∃ found reads, findLoopReads memory deviceTree node prop rounds i = .ok (found, reads) ∧
      Inside deviceTree reads := by
  induction nodes generalizing i rounds with
  | stop =>
      have hlt : 1 < rounds := hrounds
      obtain ⟨rounds, rfl⟩ : ∃ m, rounds = m + 2 := ⟨rounds - 2, by omega⟩
      rw [findLoopReads, dtParseNodeReads_stop hstand]
      refine ⟨_, _, if_pos minusOne_pos, ?_⟩
      intro w hw
      rw [List.mem_singleton.1 hw]
      exact hfits
  | node name contents rest ih =>
      obtain ⟨htoken, hname, hclosed, hcontents, hrest⟩ := hstand
      have hwords : i + (Nodes.node name contents rest).words =
          i + 2 + name + contents.words + rest.words := by
        rw [Nodes.words]
        omega
      rw [hwords] at hfits
      rw [Nodes.words] at hrounds
      have hcpos := contents.words_pos
      have hrpos := rest.words_pos
      obtain ⟨rounds, rfl⟩ : ∃ m, rounds = m + 2 := ⟨rounds - 2, by omega⟩
      obtain ⟨inner, hloop, hin, hends⟩ := loop_of_tokens hsize hspace contents hcontents
        (hfits.mono (by omega)) (by omega : contents.words ≤ rounds)
      obtain ⟨reads, hnode, hreads⟩ := dtParseNodeReads_of_contents htoken hname (by omega) hspace
        (hfits.mono (by omega)) hloop hin
      rw [findLoopReads, hnode]
      dsimp only
      by_cases hpos : 0 < inner.result
      · rw [if_pos hpos]
        exact ⟨_, _, rfl, hreads⟩
      · have hnext := (hends.resolve_left hpos).2.2
        have hlast : Fits deviceTree (i + 2 + name + contents.words + 1) := hfits.mono (by omega)
        have hwith : Inside deviceTree (reads ++ [i + 2 + name + contents.words]) := by
          rw [inside_append, inside_cons]
          exact ⟨hreads, hlast, fun w hw => absurd hw List.not_mem_nil⟩
        rw [if_neg hpos, hnext]
        by_cases hend : bigAt memory (tree deviceTree) (i + 2 + name + contents.words) = fdtEnd
        · rw [if_pos hend]
          exact ⟨_, _, rfl, hwith⟩
        · rw [if_neg hend, if_neg (not_totalsize_lt (hlast.mono (Nat.le_succ _)) hsize)]
          obtain ⟨found, reads', hfind, hin'⟩ := ih hrest hfits (by omega : rest.words < rounds + 1)
          rw [hfind]
          refine ⟨_, _, rfl, ?_⟩
          rw [inside_append, inside_cons]
          exact ⟨hreads, hlast, hin'⟩
  | into name contents =>
      obtain ⟨htoken, hname, hopen, hcontents⟩ := hstand
      have hwords : i + (Nodes.into name contents).words = i + 2 + name + contents.words := by
        rw [Nodes.words]
        omega
      rw [hwords] at hfits
      rw [Nodes.words] at hrounds
      have hcpos := contents.words_pos
      obtain ⟨rounds, rfl⟩ : ∃ m, rounds = m + 2 := ⟨rounds - 2, by omega⟩
      obtain ⟨inner, hloop, hin, hends⟩ := loop_of_tokens hsize hspace contents hcontents hfits
        (by omega : contents.words ≤ rounds)
      obtain ⟨reads, hnode, hreads⟩ := dtParseNodeReads_of_contents htoken hname (by omega) hspace
        (hfits.mono (by omega)) hloop hin
      have hpos : 0 < inner.result := by
        refine hends.resolve_right fun hclosed => ?_
        rw [hopen] at hclosed
        cases hclosed.1
      rw [findLoopReads, hnode]
      exact ⟨_, _, if_pos hpos, hreads⟩

end Top

/-! ## The whole search -/

theorem bigAt_lt (memory : Nat → UInt8) (pointer i : Nat) :
    bigAt memory pointer i < 4294967296 := by
  have hword : wordAt memory (uint32 (pointer + 4 * i)) < 4294967296 := by
    have h0 := byte_lt (memory (uint32 (pointer + 4 * i)))
    have h1 := byte_lt (memory (uint32 (pointer + 4 * i) + 1))
    have h2 := byte_lt (memory (uint32 (pointer + 4 * i) + 2))
    have h3 := byte_lt (memory (uint32 (pointer + 4 * i) + 3))
    rw [wordAt_eq]
    omega
  rw [bigAt, bigToLittle_eq hword]
  omega

/-- The search in a blob with a valid magic ends and stays inside exactly when the struct block can
be read as nodes that end inside, up to the property that is looked for. -/
theorem bounded_iff {memory : Nat → UInt8} {dtPtr : Nat}
    (hmagic : bigAt memory dtPtr 0 = 0xd00dfeed) (before : DeviceTreeType)
    (hspace : dtPtr + (devicetreeSetup memory dtPtr before).1.totalsize ≤ 4294967296)
    (node : Option CString) (prop : CString) :
    Bounded memory (devicetreeSetup memory dtPtr before).1 node prop ↔
      ∃ nodes : Nodes,
        nodes.Stand memory (devicetreeSetup memory dtPtr before).1 node prop 0 ∧
          Fits (devicetreeSetup memory dtPtr before).1 nodes.words := by
  have hfields : (devicetreeSetup memory dtPtr before).1.valid = 1 ∧
      (devicetreeSetup memory dtPtr before).1.address = dtPtr ∧
      (devicetreeSetup memory dtPtr before).1.totalsize < 4294967296 := by
    unfold devicetreeSetup
    dsimp only
    rw [if_neg (not_not_intro hmagic)]
    exact ⟨rfl, rfl, bigAt_lt memory dtPtr 1⟩
  generalize (devicetreeSetup memory dtPtr before).1 = deviceTree at *
  obtain ⟨hvalid, haddress, hsize⟩ := hfields
  have hspace : ∀ n, Fits deviceTree n → tree deviceTree + 4 * n ≤ 4294967296 := by
    intro n hfits
    have htree : tree deviceTree ≤ dtPtr + deviceTree.offStruct := by
      rw [tree, haddress]
      exact Nat.mod_le _ _
    unfold Fits at hfits
    omega
  unfold Bounded devicetreeFindNodePropReads
  rw [hvalid]
  simp only [Nat.one_ne_zero, if_false]
  constructor
  · rintro ⟨rounds, found, reads, hloop, hin⟩
    obtain ⟨nodes, hstand, hfits⟩ := nodes_of_findLoop hsize hloop hin
    rw [Nat.zero_add] at hfits
    exact ⟨nodes, hstand, hfits⟩
  · rintro ⟨nodes, hstand, hfits⟩
    rw [← Nat.zero_add nodes.words] at hfits
    obtain ⟨found, reads, hloop, hin⟩ :=
      findLoop_of_nodes hsize hspace nodes hstand hfits (Nat.lt_succ_self _)
    exact ⟨_, found, reads, hloop, hin⟩

/-- The small tree, read as tokens: an empty one, and a node with two properties. -/
def smallNodes : Nodes := .node 0 (.other (.node 0 (.prop 2 (.prop 0 .close)) .close)) .stop

/-- The device tree of the small blob. -/
def smallTree : DeviceTreeType :=
  (devicetreeSetup smallMemory 256 ⟨0, 0, 0, 0, 0, 0, 0, 0, 0, 0, 0⟩).1

theorem smallNodes_stand : smallNodes.Stand smallMemory smallTree none [0x78] 0 := by
  have hname (i : Nat) (h : bigAt smallMemory (tree smallTree) (i + 0) &&& 0xff = 0) :
      HasName smallMemory smallTree i 0 :=
    ⟨fun k hk => absurd hk (Nat.not_lt_zero k), h⟩
  have hclose : ∀ i ∈ [13, 14], bigAt smallMemory (tree smallTree) i = fdtEndNode := by
    decide
  have hend : bigAt smallMemory (tree smallTree) 15 ≠ fdtBeginNode := by decide
  have hcontents : (Tokens.prop 2 (.prop 0 .close)).Stand smallMemory smallTree none [0x78]
      (nameAt smallMemory smallTree 3) 5 :=
    ⟨by decide, by decide, by decide, by decide,
      hclose 13 (by decide)⟩
  have hnode : (Tokens.node 0 (.prop 2 (.prop 0 .close)) .close).Stand smallMemory smallTree none
      [0x78] (nameAt smallMemory smallTree 0) 3 :=
    ⟨by decide, hname 4 (by decide), rfl, hcontents, hclose 14 (by decide)⟩
  exact ⟨by decide, hname 1 (by decide), rfl, ⟨by decide, hnode⟩, hend⟩

/-- The search for a property `x` goes over all of the small tree. -/
theorem bounded_iff_small : Bounded smallMemory
    (devicetreeSetup smallMemory 256 ⟨0, 0, 0, 0, 0, 0, 0, 0, 0, 0, 0⟩).1 none [0x78] :=
  (bounded_iff (by decide) ⟨0, 0, 0, 0, 0, 0, 0, 0, 0, 0, 0⟩ (by decide) none
    [0x78]).2 ⟨smallNodes, smallNodes_stand, by unfold Fits; decide⟩

/-- A blob whose struct block has been cut off behind the first token. -/
def cutMemory : Nat → UInt8 :=
  memcpy (fun _ => 0) 256 (bigEndian 0xd00dfeed ++ bigEndian 60 ++ bigEndian 56 ++ bigEndian 40 ++
    bigEndian 40 ++ bigEndian 17 ++ bigEndian 16 ++ List.replicate 28 0 ++ bigEndian fdtBeginNode)

/-- The name of the root is looked for behind the end of the blob. -/
theorem not_bounded : ¬ ∀ (memory : Nat → UInt8) (dtPtr : Nat),
    bigAt memory dtPtr 0 = 0xd00dfeed → ∀ before : DeviceTreeType,
      dtPtr + (devicetreeSetup memory dtPtr before).1.totalsize ≤ 4294967296 →
        ∀ (node : Option CString) (prop : CString),
          Bounded memory (devicetreeSetup memory dtPtr before).1 node prop := by
  intro hall
  have hmagic : bigAt cutMemory 256 0 = 0xd00dfeed := by decide
  have hspace : 256 + (devicetreeSetup cutMemory 256 ⟨0, 0, 0, 0, 0, 0, 0, 0, 0, 0, 0⟩).1.totalsize ≤
      4294967296 := by decide
  have hfirst : bigAt cutMemory (tree (devicetreeSetup cutMemory 256
      ⟨0, 0, 0, 0, 0, 0, 0, 0, 0, 0, 0⟩).1) 0 = fdtBeginNode := by decide
  have hshort : ¬ Fits (devicetreeSetup cutMemory 256 ⟨0, 0, 0, 0, 0, 0, 0, 0, 0, 0, 0⟩).1 2 := by
    unfold Fits
    decide
  have h := hall cutMemory 256 hmagic ⟨0, 0, 0, 0, 0, 0, 0, 0, 0, 0, 0⟩ hspace none [0x78]
  rw [Bounded] at h
  obtain ⟨rounds, found, reads, hsearch, hin⟩ := h
  have hvalid : (devicetreeSetup cutMemory 256 ⟨0, 0, 0, 0, 0, 0, 0, 0, 0, 0, 0⟩).1.valid = 1 := by
    decide
  rw [devicetreeFindNodePropReads, hvalid, if_neg Nat.one_ne_zero] at hsearch
  obtain ⟨nodes, hstand, hfits⟩ := nodes_of_findLoop (bigAt_lt _ _ _) hsearch hin
  -- there is room for one word only
  cases nodes with
  | stop => exact hstand hfirst
  | node name contents rest =>
      rw [Nodes.words] at hfits
      exact hshort (hfits.mono (by omega))
  | into name contents =>
      rw [Nodes.words] at hfits
      exact hshort (hfits.mono (by omega))

end Vmwos.Devicetree
