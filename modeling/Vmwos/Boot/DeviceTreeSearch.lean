import Vmwos.Boot.DeviceTree
import Mathlib.Data.List.Infix
import Mathlib.Tactic.Ring

/-!
# The search for a property

`Items` is what the struct block of a device tree says inside one node: properties and further
nodes, in any order, with empty tokens between them. `Items.bytes` is how it is written down and
`Items.properties` lists its properties in document order. The search goes over the bytes and
finds the first property of the list that was asked for.
-/

set_option autoImplicit false

namespace Vmwos.Devicetree

open Library FileBytes

/-! ## Trees and their bytes -/

/-- The contents of a node from some point on. -/
inductive Items where
  | done
  | nop (rest : Items)
  | prop (name : CString) (nameOffset : Nat) (value : List UInt8) (rest : Items)
  | node (name : CString) (contents rest : Items)

/-- The bytes of a big-endian word. -/
def bigEndian (n : Nat) : List UInt8 :=
  [UInt8.ofNat (n >>> 24), UInt8.ofNat (n >>> 16), UInt8.ofNat (n >>> 8), UInt8.ofNat n]

/-- The words that hold so many bytes. -/
def wordsFor (n : Nat) : Nat := (n + 3) / 4

/-- Bytes filled up to whole words. -/
def padded (bytes : List UInt8) : List UInt8 :=
  bytes ++ List.replicate (4 * wordsFor bytes.length - bytes.length) 0

/-- A name with its terminator, filled up to whole words. -/
def nameBytes (name : CString) : List UInt8 := padded (name ++ [0])

/-- A node whose contents have these bytes. -/
def nodeBytes (name : CString) (contents : List UInt8) : List UInt8 :=
  bigEndian fdtBeginNode ++ (nameBytes name ++ (contents ++ bigEndian fdtEndNode))

def Items.bytes : Items → List UInt8
  | done => []
  | nop rest => bigEndian fdtNop ++ rest.bytes
  | prop _ nameOffset value rest =>
      bigEndian fdtProp ++ (bigEndian value.length ++ (bigEndian nameOffset ++
        (padded value ++ rest.bytes)))
  | node name contents rest => nodeBytes name contents.bytes ++ rest.bytes

/-- The words of a node whose contents take so many words. -/
def nodeWords (name : CString) (contents : Nat) : Nat :=
  1 + wordsFor (name.length + 1) + contents + 1

def Items.words : Items → Nat
  | done => 0
  | nop rest => 1 + rest.words
  | prop _ _ value rest => 3 + wordsFor value.length + rest.words
  | node name contents rest => nodeWords name contents.words + rest.words

/-- The struct block of a tree: its root and the end token. -/
def structBlock (name : CString) (contents : Items) : List UInt8 :=
  nodeBytes name contents.bytes ++ bigEndian fdtEnd

/-- A name that fits into the buffers of the search. -/
structure IsName (name : CString) : Prop where
  noNul : 0 ∉ name
  short : name.length < dtStringMaxsize

/-- The names are names, and those of properties stand in the strings block. -/
def Items.WellFormed (strings : List UInt8) : Items → Prop
  | done => True
  | nop rest => rest.WellFormed strings
  | prop name nameOffset _ rest =>
      IsName name ∧ name ++ [0] <+: strings.drop nameOffset ∧ rest.WellFormed strings
  | node name contents rest =>
      IsName name ∧ contents.WellFormed strings ∧ rest.WellFormed strings

/-- A flattened device tree: where it is, the header and the two blocks that it points to. -/
structure Blob where
  address : Nat
  totalsize : Nat
  offStruct : Nat
  offStrs : Nat
  strings : List UInt8
  rootName : CString
  contents : Items

/-- The blob is well formed and stands in memory. -/
structure Blob.InMemory (b : Blob) (memory : Nat → UInt8) : Prop where
  header : Stored memory b.address (bigEndian 0xd00dfeed ++ (bigEndian b.totalsize ++
    (bigEndian b.offStruct ++ bigEndian b.offStrs)))
  struct : Stored memory (b.address + b.offStruct) (structBlock b.rootName b.contents)
  strings : Stored memory (b.address + b.offStrs) b.strings
  structInside : b.offStruct + (structBlock b.rootName b.contents).length ≤ b.totalsize
  stringsInside : b.offStrs + b.strings.length ≤ b.totalsize
  sizeFits : b.totalsize < 4294967296
  inRange : b.address + b.totalsize ≤ 4294967296
  rootName : IsName b.rootName
  contents : b.contents.WellFormed b.strings

/-! ## Properties -/

/-- A property: the name of its node, its own and the index of its length word. -/
structure Property where
  node : CString
  name : CString
  index : Nat

/-- The properties in document order, for items of a node from an index on. -/
def Items.properties : Items → CString → Nat → List Property
  | done, _, _ => []
  | nop rest, nodeName, i => rest.properties nodeName (i + 1)
  | prop name _ value rest, nodeName, i =>
      ⟨nodeName, name, i + 1⟩ :: rest.properties nodeName (i + 3 + wordsFor value.length)
  | node name contents rest, nodeName, i =>
      contents.properties name (i + 1 + wordsFor (name.length + 1)) ++
        rest.properties nodeName (i + nodeWords name contents.words)

/-- The properties of a tree. -/
def Blob.properties (b : Blob) : List Property :=
  b.contents.properties b.rootName (1 + wordsFor (b.rootName.length + 1))

/-- Is this the property that is looked for? -/
def Property.isWanted (node : Option CString) (prop : CString) (p : Property) : Bool :=
  (node = none ∨ node = some p.node) ∧ p.name = prop

/-! ## Lengths -/

variable {memory : Nat → UInt8}

theorem wordsFor_succ (n : Nat) : wordsFor (n + 1) = n / 4 + 1 := by
  unfold wordsFor
  omega

theorem length_padded (bytes : List UInt8) : (padded bytes).length = 4 * wordsFor bytes.length := by
  have h : bytes.length ≤ 4 * wordsFor bytes.length := by unfold wordsFor; omega
  rw [padded, List.length_append, List.length_replicate, Nat.add_sub_of_le h]

theorem length_nameBytes (name : CString) :
    (nameBytes name).length = 4 * wordsFor (name.length + 1) := by
  rw [nameBytes, length_padded, List.length_append, List.length_singleton]

theorem length_nodeBytes (name : CString) {contents : List UInt8} {n : Nat}
    (h : contents.length = 4 * n) : (nodeBytes name contents).length = 4 * nodeWords name n := by
  simp only [nodeBytes, nodeWords, List.length_append, length_nameBytes, h, bigEndian,
    List.length_cons, List.length_nil]
  ring

theorem Items.length_bytes (items : Items) : items.bytes.length = 4 * items.words := by
  induction items with
  | done => rfl
  | nop rest ih =>
      simp only [bytes, words, List.length_append, ih, bigEndian, List.length_cons,
        List.length_nil]
      ring
  | prop name nameOffset value rest ih =>
      simp only [bytes, words, List.length_append, length_padded, ih, bigEndian,
        List.length_cons, List.length_nil]
      ring
  | node name contents rest ihc ihr =>
      rw [bytes, words, List.length_append, length_nodeBytes name ihc, ihr, Nat.mul_add]

/-! ## Reading words and names -/

theorem byte_lt (b : UInt8) : b.toNat < 256 := b.toNat_lt

/-- A word of the tree from its four bytes. -/
theorem bigAt_eq {pointer i : Nat} (hrange : pointer + 4 * i < 4294967296) :
    bigAt memory pointer i =
      (memory (pointer + 4 * i + 3)).toNat + (memory (pointer + 4 * i + 2)).toNat * 256 +
        (memory (pointer + 4 * i + 1)).toNat * 65536 +
        (memory (pointer + 4 * i)).toNat * 16777216 := by
  rw [bigAt, uint32_of_lt hrange, wordAt_eq,
    bigToLittle_bytes (byte_lt _) (byte_lt _) (byte_lt _) (byte_lt _)]

/-- A stored word is read back. -/
theorem bigAt_of_stored {pointer i n : Nat} (h : Stored memory (pointer + 4 * i) (bigEndian n))
    (hn : n < 4294967296) (hrange : pointer + 4 * i < 4294967296) :
    bigAt memory pointer i = n := by
  have h0 : memory (pointer + 4 * i) = UInt8.ofNat (n >>> 24) := h 0 (by decide : 0 < 4)
  have h1 : memory (pointer + 4 * i + 1) = UInt8.ofNat (n >>> 16) := h 1 (by decide : 1 < 4)
  have h2 : memory (pointer + 4 * i + 2) = UInt8.ofNat (n >>> 8) := h 2 (by decide : 2 < 4)
  have h3 : memory (pointer + 4 * i + 3) = UInt8.ofNat n := h 3 (by decide : 3 < 4)
  rw [bigAt_eq hrange, h0, h1, h2, h3]
  simp only [UInt8.toNat_ofNat', Nat.shiftRight_eq_div_pow]
  exact bytes_sum hn

theorem strlcpyLoop_stored {name : CString} {src n : Nat} (hnul : 0 ∉ name)
    (h : Stored memory src (name ++ [0])) (hlen : name.length ≤ n)
    (hrange : src + name.length < 4294967296) : strlcpyLoop memory n src = name := by
  induction name generalizing src n with
  | nil =>
      cases n with
      | zero => rfl
      | succ n =>
          have h0 : memory src = 0 := h 0 (by decide)
          rw [strlcpyLoop, uint32_of_lt (n := src) hrange]
          exact if_pos h0
  | cons c name ih =>
      obtain ⟨n, rfl⟩ : ∃ m, n = m + 1 := ⟨n - 1, by rw [List.length_cons] at hlen; omega⟩
      rw [List.cons_append, ← List.singleton_append, stored_append] at h
      have h0 : memory src = c := h.1 0 (by decide : 0 < 1)
      have hc : c ≠ 0 := fun hc => hnul (by rw [hc]; exact List.mem_cons_self)
      rw [List.length_cons] at hlen hrange
      have hrest : strlcpyLoop memory n (src + 1) = name :=
        ih (fun hmem => hnul (List.mem_cons_of_mem c hmem)) h.2 (by omega) (by omega)
      rw [strlcpyLoop, uint32_of_lt (by omega), h0, if_neg hc, hrest]

/-- A name that is short enough is copied whole. -/
theorem strlcpy_stored {name : CString} {src : Nat} (hname : IsName name)
    (h : Stored memory src (name ++ [0])) (hrange : src + name.length < 4294967296) :
    strlcpy memory src dtStringMaxsize = name :=
  strlcpyLoop_stored hname.noNul h (Nat.le_sub_one_of_lt hname.short) hrange

theorem stored_name {name : CString} {src : Nat} (h : Stored memory src (nameBytes name)) :
    Stored memory src (name ++ [0]) :=
  (stored_append.1 h).1

theorem byteAt_nameBytes (name : CString) (i : Nat) : byteAt (nameBytes name) i = byteAt name i := by
  -- everything behind the name is 0, and so is every byte past its end
  rw [nameBytes, padded, List.append_assoc, ← List.replicate_one, List.replicate_append_replicate,
    byteAt_append]
  by_cases hi : i < name.length
  · rw [if_pos hi]
  · rw [if_neg hi, byteAt_replicate_zero, byteAt_of_le (Nat.le_of_not_lt hi)]

/-- The last byte of a word is the one that the padding is recognised by. -/
theorem bigAt_and_eq_zero_iff {pointer i : Nat} (hrange : pointer + 4 * i < 4294967296) :
    bigAt memory pointer i &&& 0xff = 0 ↔ memory (pointer + 4 * i + 3) = 0 := by
  have hlow := byte_lt (memory (pointer + 4 * i + 3))
  rw [← UInt8.toNat_inj, show bigAt memory pointer i &&& 0xff = bigAt memory pointer i % 256 from
    Nat.and_two_pow_sub_one_eq_mod _ 8, bigAt_eq hrange]
  generalize (memory (pointer + 4 * i + 3)).toNat = a at *
  generalize (memory (pointer + 4 * i + 2)).toNat = b
  generalize (memory (pointer + 4 * i + 1)).toNat = c
  generalize (memory (pointer + 4 * i)).toNat = d
  have h : (a + b * 256 + c * 65536 + d * 16777216) % 256 = a := by omega
  rw [h]
  rfl

section

variable {deviceTree : DeviceTreeType}

theorem skipName_eq {m rounds i : Nat} (hrounds : m < rounds)
    (hrange : tree deviceTree + 4 * (i + m) < 4294967296)
    (hmore : ∀ k < m, memory (tree deviceTree + 4 * (i + k) + 3) ≠ 0)
    (hlast : memory (tree deviceTree + 4 * (i + m) + 3) = 0) :
    skipName memory deviceTree rounds i = .ok (i + m + 1) := by
  induction m generalizing rounds i with
  | zero =>
      obtain ⟨rounds, rfl⟩ := Nat.exists_eq_succ_of_ne_zero (Nat.ne_of_gt hrounds)
      rw [Nat.add_zero] at hrange hlast ⊢
      rw [skipName, if_pos ((bigAt_and_eq_zero_iff hrange).2 hlast)]
  | succ m ih =>
      obtain ⟨rounds, rfl⟩ := Nat.exists_eq_succ_of_ne_zero (Nat.ne_of_gt (Nat.zero_lt_of_lt hrounds))
      have hfirst : memory (tree deviceTree + 4 * i + 3) ≠ 0 := hmore 0 (Nat.zero_lt_succ m)
      have hshift (k : Nat) : i + 1 + k = i + (k + 1) := by omega
      have hrest : skipName memory deviceTree rounds (i + 1) = .ok (i + 1 + m + 1) := by
        apply ih (Nat.lt_of_succ_lt_succ hrounds)
        · rwa [hshift]
        · intro k hk
          rw [hshift]
          exact hmore (k + 1) (Nat.succ_lt_succ hk)
        · rwa [hshift]
      rw [skipName, if_neg (mt (bigAt_and_eq_zero_iff (by omega)).1 hfirst), hrest, hshift]

/-- The words of a name are skipped. -/
theorem skipName_stored {name : CString} {rounds i : Nat} (hname : IsName name)
    (h : Stored memory (tree deviceTree + 4 * i) (nameBytes name))
    (hrange : tree deviceTree + 4 * (i + wordsFor (name.length + 1)) ≤ 4294967296)
    (hrounds : wordsFor (name.length + 1) ≤ rounds) :
    skipName memory deviceTree rounds i = .ok (i + wordsFor (name.length + 1)) := by
  rw [wordsFor_succ] at hrange hrounds ⊢
  have hbyte (k : Nat) (hk : k ≤ name.length / 4) :
      memory (tree deviceTree + 4 * (i + k) + 3) = byteAt name (4 * k + 3) := by
    have hlt : 4 * k + 3 < (nameBytes name).length := by
      rw [length_nameBytes, wordsFor_succ]
      omega
    have hplace : tree deviceTree + 4 * (i + k) + 3 = tree deviceTree + 4 * i + (4 * k + 3) := by
      omega
    rw [hplace, h (4 * k + 3) hlt, byteAt_nameBytes]
  refine skipName_eq hrounds (by omega) (fun k hk => ?_) ?_
  · -- a whole word of the name is left
    have hlt : 4 * k + 3 < name.length := by omega
    rw [hbyte k (Nat.le_of_lt hk), byteAt_of_lt hlt]
    exact fun h0 => hname.noNul (h0 ▸ List.getElem_mem hlt)
  · rw [hbyte _ (Nat.le_refl _)]
    exact byteAt_of_le (by omega)

end

/-! ## Comparing names -/

/-- A name is as long as the comparison looks, so that it is compared to its end. -/
theorem strncmp_name_right {s name : CString} (hs : 0 ∉ s) (hname : IsName name) :
    strncmp s name dtStringMaxsize = 0 ↔ s = name := by
  rw [strncmp_eq_zero_iff hs hname.noNul, List.take_of_length_le (Nat.le_of_lt hname.short)]
  constructor
  · intro h
    have hlt : min dtStringMaxsize s.length < dtStringMaxsize := by
      rw [← List.length_take, h]
      exact hname.short
    have hshort : s.length ≤ dtStringMaxsize := by omega
    rwa [List.take_of_length_le hshort] at h
  · rintro rfl
    exact List.take_of_length_le (Nat.le_of_lt hname.short)

theorem strncmp_name_left {s name : CString} (hs : 0 ∉ s) (hname : IsName name) :
    strncmp name s dtStringMaxsize = 0 ↔ name = s := by
  rw [@eq_comm _ name s, ← strncmp_name_right hs hname, strncmp_eq_zero_iff hname.noNul hs,
    strncmp_eq_zero_iff hs hname.noNul]
  exact eq_comm

theorem isNode_eq {node : Option CString} {nodeName : CString} (hnode : ∀ n ∈ node, 0 ∉ n)
    (hname : IsName nodeName) : isNode node nodeName = true ↔ node = none ∨ node = some nodeName := by
  cases node with
  | none => simp [isNode]
  | some n => simp [isNode, strncmp_name_right (hnode n rfl) hname]

/-! ## The descent -/

/-- The strings block stands in memory. -/
structure HasStrings (memory : Nat → UInt8) (deviceTree : DeviceTreeType) (strings : List UInt8) :
    Prop where
  stored : Stored memory (deviceTree.address + deviceTree.offStrs) strings
  inRange : deviceTree.address + deviceTree.offStrs + strings.length ≤ 4294967296

/-- Going over a part of the tree ends at the property that is found, or else behind the part. -/
def Finds (found : Option Property) (next : Nat) (result : Except Stuck (Nat × Nat)) : Prop :=
  match found with
  | some p => 0 < p.index ∧ ∃ j, result = .ok (p.index, j)
  | none => result = .ok (0, next)

section

variable {deviceTree : DeviceTreeType} {strings : List UInt8}

theorem dtCopyString_eq (hstrings : HasStrings memory deviceTree strings) {name : CString}
    {nameOffset : Nat} (hname : IsName name) (hstands : name ++ [0] <+: strings.drop nameOffset) :
    dtCopyString memory deviceTree nameOffset dtStringMaxsize = name := by
  obtain ⟨rest, hrest⟩ := hstands
  have hlen := congrArg List.length hrest
  simp only [List.length_append, List.length_drop, List.length_singleton] at hlen
  have hparts : strings = strings.take nameOffset ++ ((name ++ [0]) ++ rest) := by
    rw [hrest, List.take_append_drop]
  have hstored := hstrings.stored
  rw [hparts, stored_append, stored_append, List.length_take, Nat.min_eq_left (by omega)] at hstored
  exact strlcpy_stored hname hstored.2.1 (by have := hstrings.inRange; omega)

theorem dtParseProp_eq (hstrings : HasStrings memory deviceTree strings) {node : Option CString}
    {prop nodeName name : CString} {nameOffset length i : Nat} (hnode : ∀ n ∈ node, 0 ∉ n)
    (hprop : 0 ∉ prop) (hnodeName : IsName nodeName) (hname : IsName name)
    (hstands : name ++ [0] <+: strings.drop nameOffset)
    (hlength : bigAt memory (tree deviceTree) i = length)
    (hoffset : bigAt memory (tree deviceTree) (i + 1) = nameOffset)
    (hrange : length + 3 < 4294967296) (hi : i < 4294967296) :
    dtParseProp memory deviceTree node prop nodeName i =
      if Property.isWanted node prop ⟨nodeName, name, i⟩ then (i, i + 1)
      else (0, i + 2 + wordsFor length) := by
  have hwanted : (isNode node nodeName = true ∧ strncmp name prop dtStringMaxsize = 0) ↔
      Property.isWanted node prop ⟨nodeName, name, i⟩ = true := by
    rw [isNode_eq hnode hnodeName, strncmp_name_left hprop hname, Property.isWanted,
      decide_eq_true_eq]
  rw [dtParseProp, hlength, hoffset, dtCopyString_eq hstrings hname hstands, uint32_of_lt hi,
    uint32_of_lt hrange]
  simp only [hwanted]
  rfl

theorem Finds.none_iff {next : Nat} {result : Except Stuck (Nat × Nat)} :
    Finds none next result ↔ result = .ok (0, next) :=
  Iff.rfl

variable {node : Option CString} {prop nodeName : CString} {rounds i : Nat}

/-! What the loop does with each token. -/

theorem dtParseNodeLoop_succ :
    dtParseNodeLoop memory deviceTree node prop nodeName (rounds + 1) i =
      if bigAt memory (tree deviceTree) i = fdtNop then
        dtParseNodeLoop memory deviceTree node prop nodeName rounds (i + 1)
      else if bigAt memory (tree deviceTree) i = fdtProp then
        let result := dtParseProp memory deviceTree node prop nodeName (i + 1)
        if 0 < result.1 then .ok result
        else dtParseNodeLoop memory deviceTree node prop nodeName rounds result.2
      else if bigAt memory (tree deviceTree) i = fdtBeginNode then
        match dtParseNode memory deviceTree node prop rounds i with
        | .error stuck => .error stuck
        | .ok result =>
            if 0 < result.1 then .ok result
            else dtParseNodeLoop memory deviceTree node prop nodeName rounds result.2
      else if bigAt memory (tree deviceTree) i = fdtEndNode then .ok (0, i + 1)
      else dtParseNodeLoop memory deviceTree node prop nodeName rounds (i + 1) := rfl

theorem dtParseNodeLoop_end (h : bigAt memory (tree deviceTree) i = fdtEndNode) :
    dtParseNodeLoop memory deviceTree node prop nodeName (rounds + 1) i = .ok (0, i + 1) := by
  rw [dtParseNodeLoop_succ, h]
  rfl

theorem dtParseNodeLoop_nop (h : bigAt memory (tree deviceTree) i = fdtNop) :
    dtParseNodeLoop memory deviceTree node prop nodeName (rounds + 1) i =
      dtParseNodeLoop memory deviceTree node prop nodeName rounds (i + 1) := by
  rw [dtParseNodeLoop_succ, h]
  rfl

theorem dtParseNodeLoop_prop (h : bigAt memory (tree deviceTree) i = fdtProp) :
    dtParseNodeLoop memory deviceTree node prop nodeName (rounds + 1) i =
      let result := dtParseProp memory deviceTree node prop nodeName (i + 1)
      if 0 < result.1 then .ok result
      else dtParseNodeLoop memory deviceTree node prop nodeName rounds result.2 := by
  rw [dtParseNodeLoop_succ, h]
  rfl

theorem dtParseNodeLoop_node (h : bigAt memory (tree deviceTree) i = fdtBeginNode)
    {result : Nat × Nat} (hresult : dtParseNode memory deviceTree node prop rounds i = .ok result) :
    dtParseNodeLoop memory deviceTree node prop nodeName (rounds + 1) i =
      if 0 < result.1 then .ok result
      else dtParseNodeLoop memory deviceTree node prop nodeName rounds result.2 := by
  rw [dtParseNodeLoop_succ, h]
  simp only [hresult]
  rfl

/-- At a node the loop over its contents is started behind its name. -/
theorem dtParseNode_eq {name : CString} {contents : List UInt8} {n : Nat} (hname : IsName name)
    (hcontents : contents.length = 4 * n)
    (h : Stored memory (tree deviceTree + 4 * i) (nodeBytes name contents))
    (hrange : tree deviceTree + 4 * (i + nodeWords name n) ≤ 4294967296)
    (hrounds : wordsFor (name.length + 1) ≤ rounds) :
    dtParseNode memory deviceTree node prop (rounds + 1) i =
      dtParseNodeLoop memory deviceTree node prop name rounds
        (i + 1 + wordsFor (name.length + 1)) := by
  unfold nodeWords at hrange
  obtain ⟨htoken, hrest⟩ := stored_append.1 h
  have hnameStored : Stored memory (tree deviceTree + 4 * (i + 1)) (nameBytes name) :=
    (stored_append.1 hrest).1
  have hlen : name.length < 4 * wordsFor (name.length + 1) := by unfold wordsFor; omega
  have hword : bigAt memory (tree deviceTree) i = fdtBeginNode :=
    bigAt_of_stored htoken (by decide) (by omega)
  have hcopy : strlcpy memory (tree deviceTree + 4 * (i + 1)) dtStringMaxsize = name :=
    strlcpy_stored hname (stored_name hnameStored) (by omega)
  rw [dtParseNode, hword, if_neg (fun h => h rfl), hcopy,
    skipName_stored hname hnameStored (by omega) hrounds]

/-- Behind the name of a node stand its contents and the end token. -/
theorem stored_contents {name : CString} {contents : List UInt8} {location : Nat}
    (h : Stored memory (location + 4 * i) (nodeBytes name contents)) :
    Stored memory (location + 4 * (i + 1 + wordsFor (name.length + 1)))
      (contents ++ bigEndian fdtEndNode) := by
  have hrest := (stored_append.1 (stored_append.1 h).2).2
  rw [length_nameBytes] at hrest
  have hplace : location + 4 * (i + 1 + wordsFor (name.length + 1)) =
      location + 4 * i + 4 + 4 * wordsFor (name.length + 1) := by omega
  rw [hplace]
  exact hrest

/-- The loop over the tokens of a node finds the first wanted property of the items in front of
it, or goes on behind the end token. -/
theorem dtParseNodeLoop_items (hstrings : HasStrings memory deviceTree strings)
    (hnode : ∀ n ∈ node, 0 ∉ n) (hprop : 0 ∉ prop) (items : Items) (hnodeName : IsName nodeName)
    (hwf : items.WellFormed strings)
    (h : Stored memory (tree deviceTree + 4 * i) (items.bytes ++ bigEndian fdtEndNode))
    (hrange : tree deviceTree + 4 * (i + items.words + 1) ≤ 4294967296)
    (hrounds : items.words < rounds) :
    Finds ((items.properties nodeName i).find? (Property.isWanted node prop)) (i + items.words + 1)
      (dtParseNodeLoop memory deviceTree node prop nodeName rounds i) := by
  induction items generalizing nodeName rounds i with
  | done =>
      obtain ⟨rounds, rfl⟩ := Nat.exists_eq_succ_of_ne_zero (Nat.ne_of_gt hrounds)
      have htoken : bigAt memory (tree deviceTree) i = fdtEndNode :=
        bigAt_of_stored h (by decide) (by omega)
      exact dtParseNodeLoop_end htoken
  | nop rest ih =>
      obtain ⟨rounds, rfl⟩ := Nat.exists_eq_succ_of_ne_zero (Nat.ne_of_gt (Nat.zero_lt_of_lt hrounds))
      rw [Items.bytes, List.append_assoc, stored_append] at h
      rw [Items.words] at hrange hrounds ⊢
      have htoken : bigAt memory (tree deviceTree) i = fdtNop :=
        bigAt_of_stored h.1 (by decide) (by omega)
      have hrest := @ih nodeName rounds (i + 1) hnodeName hwf h.2 (by omega) (by omega)
      rw [dtParseNodeLoop_nop htoken, ← Nat.add_assoc]
      exact hrest
  | prop name nameOffset value rest ih =>
      obtain ⟨hname, hstands, hwf⟩ := hwf
      obtain ⟨rounds, rfl⟩ := Nat.exists_eq_succ_of_ne_zero (Nat.ne_of_gt (Nat.zero_lt_of_lt hrounds))
      rw [Items.words] at hrange hrounds ⊢
      simp only [Items.bytes, List.append_assoc] at h
      obtain ⟨htoken, h⟩ := stored_append.1 h
      obtain ⟨hlength, h⟩ := stored_append.1 h
      obtain ⟨hoffset, h⟩ := stored_append.1 h
      obtain ⟨-, h⟩ := stored_append.1 h
      rw [length_padded] at h
      have hvalue : value.length ≤ 4 * wordsFor value.length := by unfold wordsFor; omega
      have hoffsetLt : nameOffset < 4294967296 := by
        have hlen := hstands.length_le
        simp only [List.length_append, List.length_drop, List.length_singleton] at hlen
        have hinRange := hstrings.inRange
        omega
      have htoken : bigAt memory (tree deviceTree) i = fdtProp :=
        bigAt_of_stored htoken (by decide) (by omega)
      have hlength : bigAt memory (tree deviceTree) (i + 1) = value.length :=
        bigAt_of_stored hlength (by omega) (by omega)
      have hoffset : bigAt memory (tree deviceTree) (i + 1 + 1) = nameOffset :=
        bigAt_of_stored hoffset hoffsetLt (by omega)
      have hparse := dtParseProp_eq hstrings hnode hprop hnodeName hname hstands hlength hoffset
        (by omega) (by omega)
      rw [dtParseNodeLoop_prop htoken, hparse, Items.properties, List.find?_cons]
      cases hwanted : Property.isWanted node prop ⟨nodeName, name, i + 1⟩ with
      | true =>
          rw [if_pos rfl]
          exact ⟨Nat.zero_lt_succ i, i + 1 + 1, if_pos (Nat.zero_lt_succ i)⟩
      | false =>
          -- the rest of the items starts behind the value
          have hnext : i + 1 + 2 + wordsFor value.length = i + 3 + wordsFor value.length := by omega
          have hplace : tree deviceTree + 4 * (i + 3 + wordsFor value.length) =
              tree deviceTree + 4 * i + 4 + 4 + 4 + 4 * wordsFor value.length := by omega
          have hrest := @ih nodeName rounds (i + 3 + wordsFor value.length) hnodeName hwf
            (hplace ▸ h) (by omega) (by omega)
          rw [if_neg Bool.false_ne_true, hnext, ← Nat.add_assoc, ← Nat.add_assoc]
          exact hrest
  | node name contents rest ihc ihr =>
      obtain ⟨hname, hwfContents, hwfRest⟩ := hwf
      rw [Items.words] at hrange hrounds ⊢
      rw [Items.bytes, List.append_assoc] at h
      obtain ⟨hnodeStored, hrestStored⟩ := stored_append.1 h
      rw [length_nodeBytes name contents.length_bytes] at hrestStored
      have hwords : nodeWords name contents.words =
        1 + wordsFor (name.length + 1) + contents.words + 1 := rfl
      obtain ⟨rounds, rfl⟩ : ∃ m, rounds = m + 2 := ⟨rounds - 2, by omega⟩
      have htoken : bigAt memory (tree deviceTree) i = fdtBeginNode :=
        bigAt_of_stored (stored_append.1 hnodeStored).1 (by decide) (by omega)
      have hcontents := @ihc name rounds (i + 1 + wordsFor (name.length + 1)) hname
        hwfContents (stored_contents hnodeStored) (by omega) (by omega)
      rw [← dtParseNode_eq hname contents.length_bytes hnodeStored (by omega) (by omega)]
        at hcontents
      rw [Items.properties, List.find?_append]
      cases hfound : (contents.properties name (i + 1 + wordsFor (name.length + 1))).find?
          (Property.isWanted node prop) with
      | some p =>
          rw [hfound] at hcontents
          obtain ⟨hpos, j, hj⟩ := hcontents
          rw [dtParseNodeLoop_node htoken hj]
          exact ⟨hpos, j, if_pos hpos⟩
      | none =>
          rw [hfound] at hcontents
          have hnext : i + 1 + wordsFor (name.length + 1) + contents.words + 1 =
              i + nodeWords name contents.words := by omega
          have hplace : tree deviceTree + 4 * (i + nodeWords name contents.words) =
              tree deviceTree + 4 * i + 4 * nodeWords name contents.words := by omega
          have hrest := @ihr nodeName (rounds + 1) (i + nodeWords name contents.words)
            hnodeName hwfRest (hplace ▸ hrestStored) (by omega) (by omega)
          rw [dtParseNodeLoop_node htoken (Finds.none_iff.1 hcontents), hnext, ← Nat.add_assoc]
          exact hrest

end

/-! ## The search -/

theorem Items.index_lt (items : Items) {nodeName : CString} {i : Nat} {p : Property}
    (h : p ∈ items.properties nodeName i) : p.index < i + items.words := by
  induction items generalizing nodeName i with
  | done => exact absurd h List.not_mem_nil
  | nop rest ih =>
      have := ih h
      rw [words]
      omega
  | prop name nameOffset value rest ih =>
      rw [words]
      obtain rfl | h := List.mem_cons.1 h
      · dsimp only
        omega
      · have := ih h
        omega
  | node name contents rest ihc ihr =>
      rw [words]
      obtain h | h := List.mem_append.1 h
      · have := ihc h
        unfold nodeWords
        omega
      · have := ihr h
        omega

namespace Blob

variable {b : Blob}

/-- The words of the struct block. -/
def structWords (b : Blob) : Nat := nodeWords b.rootName b.contents.words + 1

theorem length_structBlock (b : Blob) :
    (structBlock b.rootName b.contents).length = 4 * b.structWords := by
  rw [structBlock, List.length_append, length_nodeBytes b.rootName b.contents.length_bytes,
    structWords, Nat.mul_add]
  rfl

theorem InMemory.totalsize_ge (hb : b.InMemory memory) :
    b.offStruct + 4 * b.structWords ≤ b.totalsize := by
  rw [← length_structBlock]
  exact hb.structInside

theorem four_le_structWords (b : Blob) : 4 ≤ b.structWords := by
  have := wordsFor_succ b.rootName.length
  unfold structWords nodeWords
  omega

/-- What `devicetree_setup` finds in the header. -/
theorem InMemory.setup (hb : b.InMemory memory) (before : DeviceTreeType) :
    let deviceTree := (devicetreeSetup memory b.address before).1
    deviceTree.valid = 1 ∧ deviceTree.address = b.address ∧ deviceTree.offStruct = b.offStruct ∧
      deviceTree.offStrs = b.offStrs := by
  have hsize := hb.totalsize_ge
  have hfour := b.four_le_structWords
  have hrange := hb.inRange
  have hstrs := hb.stringsInside
  have hfits := hb.sizeFits
  obtain ⟨h0, h⟩ := stored_append.1 hb.header
  obtain ⟨-, h⟩ := stored_append.1 h
  obtain ⟨h2, h3⟩ := stored_append.1 h
  have hmagic : bigAt memory b.address 0 = 0xd00dfeed :=
    bigAt_of_stored h0 (by decide) (by omega)
  have hstruct : bigAt memory b.address 2 = b.offStruct :=
    bigAt_of_stored h2 (by omega) (by omega)
  have hstrings : bigAt memory b.address 3 = b.offStrs :=
    bigAt_of_stored h3 (by omega) (by omega)
  unfold devicetreeSetup
  dsimp only
  rw [if_neg (fun hne => hne hmagic)]
  exact ⟨rfl, rfl, hstruct, hstrings⟩

end Blob

/-- In a well-formed device tree the search ends and finds the first wanted property in document
order, if there is one. -/
theorem devicetreeFindNodeProp_eq {b : Blob} (hb : b.InMemory memory) (before : DeviceTreeType)
    {node : Option CString} {prop : CString} (hnode : ∀ n ∈ node, 0 ∉ n) (hprop : 0 ∉ prop)
    {rounds : Nat} (hrounds : b.structWords < rounds) :
    devicetreeFindNodeProp memory (devicetreeSetup memory b.address before).1 rounds node prop =
      .ok (match b.properties.find? (Property.isWanted node prop) with
        | some p => p.index
        | none => -enoent) := by
  obtain ⟨hvalid, haddress, hoffStruct, hoffStrs⟩ := hb.setup before
  generalize (devicetreeSetup memory b.address before).1 = deviceTree at *
  have hsize := hb.totalsize_ge
  have hrange := hb.inRange
  have hinside := hb.stringsInside
  have htree : tree deviceTree = b.address + b.offStruct := by
    rw [tree, haddress, hoffStruct, uint32_of_lt (by have := b.four_le_structWords; omega)]
  have hstrings : HasStrings memory deviceTree b.strings := by
    constructor
    · rw [haddress, hoffStrs]
      exact hb.strings
    · rw [haddress, hoffStrs]
      omega
  have hwords : b.structWords = 1 + wordsFor (b.rootName.length + 1) + b.contents.words + 1 + 1 :=
    rfl
  obtain ⟨hroot, hend⟩ := stored_append.1 hb.struct
  rw [length_nodeBytes b.rootName b.contents.length_bytes] at hend
  have hroot : Stored memory (tree deviceTree + 4 * 0) (nodeBytes b.rootName b.contents.bytes) :=
    htree ▸ hroot
  obtain ⟨rounds, rfl⟩ : ∃ m, rounds = m + 2 := ⟨rounds - 2, by omega⟩
  have hloop := @dtParseNodeLoop_items memory deviceTree b.strings node prop b.rootName rounds
    (0 + 1 + wordsFor (b.rootName.length + 1)) hstrings hnode hprop b.contents hb.rootName
    hb.contents (stored_contents hroot) (by omega) (by omega)
  rw [← dtParseNode_eq hb.rootName b.contents.length_bytes hroot (by unfold nodeWords; omega)
    (by omega)] at hloop
  rw [devicetreeFindNodeProp, hvalid, if_neg Nat.one_ne_zero, findLoop]
  rw [Nat.zero_add] at hloop
  unfold Blob.properties
  cases hfound : (b.contents.properties b.rootName (1 + wordsFor (b.rootName.length + 1))).find?
      (Property.isWanted node prop) with
  | some p =>
      rw [hfound] at hloop
      obtain ⟨hpos, j, hj⟩ := hloop
      have hindex := b.contents.index_lt (List.mem_of_find?_eq_some hfound)
      simp only [hj, if_pos hpos]
      rw [int32_of_lt (by omega)]
  | none =>
      rw [hfound] at hloop
      -- behind the root stands the end token
      have hlast : bigAt memory (tree deviceTree)
          (1 + wordsFor (b.rootName.length + 1) + b.contents.words + 1) = fdtEnd := by
        refine bigAt_of_stored ?_ (by decide) (by omega)
        rw [htree]
        exact hend
      simp only [Finds.none_iff.1 hloop, hlast]
      rfl

/-- A tree whose root has an empty token and a node `b@1` with the properties `reg` and `c`. -/
def smallBlob : Blob where
  address := 256
  totalsize := 86
  offStruct := 16
  offStrs := 80
  strings := [0x72, 0x65, 0x67, 0, 0x63, 0]
  rootName := []
  contents := .nop (.node [0x62, 0x40, 0x31]
    (.prop [0x72, 0x65, 0x67] 0 [0, 0, 0, 1, 2] (.prop [0x63] 4 [] .done)) .done)

/-- The bytes of the small tree in a memory that is zero elsewhere. -/
def smallMemory : Nat → UInt8 :=
  memcpy (fun _ => 0) 256 (bigEndian 0xd00dfeed ++ bigEndian 86 ++ bigEndian 16 ++ bigEndian 80 ++
    structBlock smallBlob.rootName smallBlob.contents ++ smallBlob.strings)

theorem smallBlob_inMemory : smallBlob.InMemory smallMemory where
  header := by decide
  struct := by decide
  strings := by decide
  structInside := by decide
  stringsInside := by decide
  sizeFits := by decide
  inRange := by decide
  rootName := ⟨by decide, by decide⟩
  contents := ⟨⟨by decide, by decide⟩, ⟨⟨by decide, by decide⟩, by decide, ⟨by decide, by decide⟩,
    by decide, trivial⟩, trivial⟩

/-- The property `c` of `b@1` is the second one, and its length stands in word 11. -/
theorem devicetreeFindNodeProp_small :
    devicetreeFindNodeProp smallMemory
      (devicetreeSetup smallMemory 256 ⟨0, 0, 0, 0, 0, 0, 0, 0, 0, 0, 0⟩).1 20
      (some [0x62, 0x40, 0x31]) [0x63] = .ok 11 := by
  have h := @devicetreeFindNodeProp_eq smallMemory smallBlob smallBlob_inMemory
    ⟨0, 0, 0, 0, 0, 0, 0, 0, 0, 0, 0⟩ (some [0x62, 0x40, 0x31]) [0x63] (by decide) (by decide) 20
    (by decide)
  exact h

end Vmwos.Devicetree
