import Vmwos.Boot.DeviceTreeSearch

/-!
# The value of a property

What the kernel does with the property that a search has found, and with a search that has found
none. `devicetree_find_node_prop` returns a negative error code, but its callers keep the result in
an unsigned variable and then ask whether it is below 0. So they go on with the words in front of
the tree. A string is copied by the length that the tree gives it, whatever the length of the
buffer. `answers_iff` says what is left.
-/

set_option autoImplicit false

namespace Vmwos.Devicetree

open Library FileBytes

/-- Conversion of a signed value to `uint32_t`. -/
def toUint32 (n : Int) : Nat := (n % 4294967296).toNat

section

variable (memory : Nat → UInt8) (deviceTree : DeviceTreeType)

/-- `devicetree_prop_int`: the result and what is stored in `*value`, if anything. The length of the
property is only compared for a warning. -/
def devicetreePropInt (startI : Int) : Nat × Option Nat :=
  if deviceTree.valid = 0 then (toUint32 (-enodev), none)
  else
    let i := toUint32 startI
    (0, some (bigAt memory (tree deviceTree) (i + 2)))

/-- `devicetree_prop_int64` -/
def devicetreePropInt64 (startI : Int) : Nat × Option Nat :=
  if deviceTree.valid = 0 then (toUint32 (-enodev), none)
  else
    let i := toUint32 startI
    let value1 := bigAt memory (tree deviceTree) (i + 2)
    let value2 := bigAt memory (tree deviceTree) (i + 3)
    (0, some (value1 <<< 32 ||| value2))

/-- The copying loop of `devicetree_prop_string`: the memory behind it and the addresses that have
been written. -/
def propStringLoop : (n : Nat) → (Nat → UInt8) → (string ptr : Nat) → (Nat → UInt8) × List Nat
  | 0, memory, _, _ => (memory, [])
  | n + 1, memory, string, ptr =>
      let written := memcpy memory (uint32 string) [memory (uint32 ptr)]
      let rest := propStringLoop n written (string + 1) (ptr + 1)
      (rest.1, uint32 string :: rest.2)

/-- `devicetree_prop_string`, which does not look at `len`. -/
def devicetreePropString (startI : Int) (string _len : Nat) : Nat × (Nat → UInt8) × List Nat :=
  if deviceTree.valid = 0 then (toUint32 (-enodev), memory, [])
  else
    let i := toUint32 startI
    let length := bigAt memory (tree deviceTree) i
    (0, propStringLoop length memory string (tree deviceTree + 4 * (i + 2)))

/-- `devicetree_find_int`. The test is one of an unsigned variable. -/
def devicetreeFindInt (rounds : Nat) (node : Option CString) (prop : CString) :
    Except Stuck (Nat × Option Nat) :=
  match devicetreeFindNodeProp memory deviceTree rounds node prop with
  | .error stuck => .error stuck
  | .ok found =>
      let result := toUint32 found
      if result < 0 then .ok (result, none)
      else .ok (0, (devicetreePropInt memory deviceTree (int32 result)).2)

/-- `devicetree_find_int64` -/
def devicetreeFindInt64 (rounds : Nat) (node : Option CString) (prop : CString) :
    Except Stuck (Nat × Option Nat) :=
  match devicetreeFindNodeProp memory deviceTree rounds node prop with
  | .error stuck => .error stuck
  | .ok found =>
      let result := toUint32 found
      if result < 0 then .ok (result, none)
      else .ok (0, (devicetreePropInt64 memory deviceTree (int32 result)).2)

/-- `devicetree_find_string` -/
def devicetreeFindString (rounds : Nat) (node : Option CString) (prop : CString) (string len : Nat) :
    Except Stuck (Nat × (Nat → UInt8) × List Nat) :=
  match devicetreeFindNodeProp memory deviceTree rounds node prop with
  | .error stuck => .error stuck
  | .ok found =>
      let result := toUint32 found
      if result < 0 then .ok (result, memory, [])
      else .ok (0, (devicetreePropString memory deviceTree (int32 result) string len).2)

end

theorem toUint32_int32 {n : Nat} (h : n < 4294967296) : toUint32 (int32 n) = n := by
  unfold toUint32 int32
  omega

/-- The index of a property survives all the conversions. -/
theorem toUint32_index {n : Nat} (h : n < 4294967296) :
    toUint32 (int32 (toUint32 (n : Int))) = n := by
  have hsame : toUint32 (n : Int) = n := by
    unfold toUint32
    omega
  rw [hsame, toUint32_int32 h]

/-! ## Properties with their values -/

/-- A property with what stands behind its length word. -/
structure Entry where
  property : Property
  nameOffset : Nat
  value : List UInt8

/-- The properties in document order, with their values. -/
def Items.entries : Items → CString → Nat → List Entry
  | done, _, _ => []
  | nop rest, nodeName, i => rest.entries nodeName (i + 1)
  | prop name nameOffset value rest, nodeName, i =>
      ⟨⟨nodeName, name, i + 1⟩, nameOffset, value⟩ ::
        rest.entries nodeName (i + 3 + wordsFor value.length)
  | node name contents rest, nodeName, i =>
      contents.entries name (i + 1 + wordsFor (name.length + 1)) ++
        rest.entries nodeName (i + nodeWords name contents.words)

/-- The bytes of a property from its length word on. -/
def Entry.bytes (e : Entry) : List UInt8 :=
  bigEndian e.value.length ++ (bigEndian e.nameOffset ++ padded e.value)

/-- The words of a property from its length word on. -/
def Entry.words (e : Entry) : Nat := 2 + wordsFor e.value.length

/-- The first property of a tree that is looked for. -/
def Blob.first (b : Blob) (node : Option CString) (prop : CString) : Option Entry :=
  (b.contents.entries b.rootName (1 + wordsFor (b.rootName.length + 1))).find? fun e =>
    e.property.isWanted node prop

theorem Items.properties_eq (items : Items) (nodeName : CString) (i : Nat) :
    items.properties nodeName i = (items.entries nodeName i).map Entry.property := by
  induction items generalizing nodeName i with
  | done => rfl
  | nop rest ih => exact ih nodeName (i + 1)
  | prop name nameOffset value rest ih =>
      rw [properties, entries, List.map_cons, ih]
  | node name contents rest ihc ihr =>
      rw [properties, entries, List.map_append, ihc, ihr]

/-- The search is one for the first entry. -/
theorem Blob.find_eq (b : Blob) (node : Option CString) (prop : CString) :
    b.properties.find? (Property.isWanted node prop) =
      (b.first node prop).map Entry.property := by
  rw [properties, Items.properties_eq, List.find?_map, first]
  rfl

/-- The bytes of a property stand at its index, and inside the items. -/
theorem Items.entries_stored {memory : Nat → UInt8} {location : Nat} (items : Items)
    {nodeName : CString} {i : Nat} (h : Stored memory (location + 4 * i) items.bytes) :
    ∀ e ∈ items.entries nodeName i, 0 < e.property.index ∧
      e.property.index + e.words ≤ i + items.words ∧
      Stored memory (location + 4 * e.property.index) e.bytes := by
  induction items generalizing nodeName i with
  | done => exact fun e he => absurd he List.not_mem_nil
  | nop rest ih =>
      intro e he
      have hrest := ih (stored_append.1 h).2 e he
      rw [words]
      exact ⟨hrest.1, by omega, hrest.2.2⟩
  | prop name nameOffset value rest ih =>
      intro e he
      rw [bytes] at h
      obtain ⟨-, h⟩ := stored_append.1 h
      rw [words]
      obtain rfl | he := List.mem_cons.1 he
      · refine ⟨Nat.succ_pos i, by rw [Entry.words]; dsimp only; omega, ?_⟩
        have hassoc : bigEndian value.length ++ (bigEndian nameOffset ++
            (padded value ++ rest.bytes)) = Entry.bytes ⟨⟨nodeName, name, i + 1⟩, nameOffset, value⟩ ++
              rest.bytes := by
          simp only [Entry.bytes, List.append_assoc]
        rw [hassoc] at h
        exact (stored_append.1 h).1
      · obtain ⟨-, h⟩ := stored_append.1 (stored_append.1 h).2
        obtain ⟨-, h⟩ := stored_append.1 h
        rw [length_padded] at h
        have hplace : location + 4 * (i + 3 + wordsFor value.length) =
            location + 4 * i + 4 + 4 + 4 + 4 * wordsFor value.length := by omega
        have hrest := ih (hplace ▸ h) e he
        exact ⟨hrest.1, by omega, hrest.2.2⟩
  | node name contents rest ihc ihr =>
      intro e he
      rw [bytes] at h
      obtain ⟨hnode, hrest⟩ := stored_append.1 h
      rw [length_nodeBytes name contents.length_bytes] at hrest
      have hwords : nodeWords name contents.words =
        1 + wordsFor (name.length + 1) + contents.words + 1 := rfl
      rw [words]
      obtain he | he := List.mem_append.1 he
      · have hcontents := ihc (stored_append.1 (stored_contents hnode)).1 e he
        exact ⟨hcontents.1, by omega, hcontents.2.2⟩
      · have hplace : location + 4 * (i + nodeWords name contents.words) =
            location + 4 * i + 4 * nodeWords name contents.words := by omega
        have hbehind := ihr (hplace ▸ hrest) e he
        exact ⟨hbehind.1, by omega, hbehind.2.2⟩

/-! ## The tree in memory -/

section

variable {memory : Nat → UInt8} {b : Blob} {node : Option CString} {prop : CString} {e : Entry}

/-- The first property stands in the struct block. -/
theorem Blob.first_stored (hb : b.InMemory memory) (h : b.first node prop = some e) :
    0 < e.property.index ∧ e.property.index + e.words < b.structWords ∧
      Stored memory (b.address + b.offStruct + 4 * e.property.index) e.bytes := by
  have hroot : Stored memory (b.address + b.offStruct + 4 * 0)
      (nodeBytes b.rootName b.contents.bytes) := (stored_append.1 hb.struct).1
  have hcontents := (stored_append.1 (stored_contents hroot)).1
  have hmem := List.mem_of_find?_eq_some h
  rw [← Nat.zero_add 1] at hmem
  have hentry := b.contents.entries_stored hcontents e hmem
  have hwords : b.structWords = 1 + wordsFor (b.rootName.length + 1) + b.contents.words + 1 + 1 :=
    rfl
  exact ⟨hentry.1, by omega, hentry.2.2⟩

/-- The words of the struct block have addresses below the end of the address space. -/
theorem Blob.InMemory.inAddressSpace (hb : b.InMemory memory) :
    b.address + b.offStruct + 4 * b.structWords ≤ 4294967296 := by
  have hsize := hb.totalsize_ge
  have hrange := hb.inRange
  omega

theorem Blob.first_index_lt (hb : b.InMemory memory) (h : b.first node prop = some e) :
    e.property.index < 4294967296 := by
  have hspace := hb.inAddressSpace
  have hbound := (Blob.first_stored hb h).2.1
  omega

/-- The value of the property that is found stands behind its two words. -/
theorem Blob.first_value (hb : b.InMemory memory) (h : b.first node prop = some e) :
    Stored memory (b.address + b.offStruct + 4 * (e.property.index + 2)) e.value := by
  obtain ⟨-, -, hstored⟩ := Blob.first_stored hb h
  obtain ⟨-, hstored⟩ := stored_append.1 (stored_append.1 hstored).2
  have hplace : b.address + b.offStruct + 4 * (e.property.index + 2) =
      b.address + b.offStruct + 4 * e.property.index + 4 + 4 := by omega
  rw [hplace]
  exact (stored_append.1 hstored).1

/-- The length word of the property that is found. -/
theorem Blob.first_length (hb : b.InMemory memory) (h : b.first node prop = some e) :
    bigAt memory (b.address + b.offStruct) e.property.index = e.value.length := by
  obtain ⟨-, hbound, hstored⟩ := Blob.first_stored hb h
  have hspace := hb.inAddressSpace
  have hwords : e.words = 2 + (e.value.length + 3) / 4 := rfl
  exact bigAt_of_stored (stored_append.1 hstored).1 (by omega) (by omega)

/-- After `devicetree_setup` the tree is where the blob has its struct block. -/
theorem Blob.InMemory.tree_eq (hb : b.InMemory memory) (before : DeviceTreeType) :
    tree (devicetreeSetup memory b.address before).1 = b.address + b.offStruct := by
  obtain ⟨-, haddress, hoffStruct, -⟩ := hb.setup before
  have hspace := hb.inAddressSpace
  have hfour := b.four_le_structWords
  rw [tree, haddress, hoffStruct, uint32_of_lt (by omega)]

end

/-! What the search returns, by the first property. -/

section

variable {memory : Nat → UInt8} {b : Blob} {node : Option CString} {prop : CString} {rounds : Nat}

theorem findNodeProp_missing (hb : b.InMemory memory) (before : DeviceTreeType)
    (hnode : ∀ n ∈ node, 0 ∉ n) (hprop : 0 ∉ prop) (hrounds : b.structWords < rounds)
    (h : b.first node prop = none) :
    devicetreeFindNodeProp memory (devicetreeSetup memory b.address before).1 rounds node prop =
      .ok (-enoent) := by
  rw [devicetreeFindNodeProp_eq hb before hnode hprop hrounds, b.find_eq, h]
  rfl

theorem findNodeProp_found (hb : b.InMemory memory) (before : DeviceTreeType)
    (hnode : ∀ n ∈ node, 0 ∉ n) (hprop : 0 ∉ prop) (hrounds : b.structWords < rounds) {e : Entry}
    (h : b.first node prop = some e) :
    devicetreeFindNodeProp memory (devicetreeSetup memory b.address before).1 rounds node prop =
      .ok e.property.index := by
  rw [devicetreeFindNodeProp_eq hb before hnode hprop hrounds, b.find_eq, h]
  rfl

end

/-! ## Missing properties -/

/-- What is promised for a query: an error that leaves the output alone when the property is
missing, and otherwise a string of at most `len` bytes. -/
structure Answers (memory : Nat → UInt8) (deviceTree : DeviceTreeType) (rounds : Nat)
    (found : Option Entry) (node : Option CString) (prop : CString) (string len : Nat) : Prop where
  int_missing : found = none → ∃ result,
    devicetreeFindInt memory deviceTree rounds node prop = .ok (result, none) ∧ int32 result < 0
  int64_missing : found = none → ∃ result,
    devicetreeFindInt64 memory deviceTree rounds node prop = .ok (result, none) ∧ int32 result < 0
  string_missing : found = none → ∃ result,
    devicetreeFindString memory deviceTree rounds node prop string len =
      .ok (result, memory, []) ∧ int32 result < 0
  string_short : found ≠ none → ∃ result after writes,
    devicetreeFindString memory deviceTree rounds node prop string len =
      .ok (result, after, writes) ∧ writes.length ≤ len

theorem length_propStringLoop (n : Nat) (memory : Nat → UInt8) (string ptr : Nat) :
    (propStringLoop n memory string ptr).2.length = n := by
  induction n generalizing memory string ptr with
  | zero => rfl
  | succ n ih =>
      rw [propStringLoop]
      exact congrArg Nat.succ (ih _ _ _)

section

variable {memory : Nat → UInt8} {deviceTree : DeviceTreeType} {rounds : Nat} {node : Option CString}
  {prop : CString} {string len : Nat} {found : Int}

/-- The test for an error never succeeds. -/
theorem devicetreeFindInt_eq
    (h : devicetreeFindNodeProp memory deviceTree rounds node prop = .ok found) :
    devicetreeFindInt memory deviceTree rounds node prop =
      .ok (0, (devicetreePropInt memory deviceTree (int32 (toUint32 found))).2) := by
  rw [devicetreeFindInt, h]
  exact if_neg (Nat.not_lt_zero _)

theorem devicetreeFindString_eq
    (h : devicetreeFindNodeProp memory deviceTree rounds node prop = .ok found) :
    devicetreeFindString memory deviceTree rounds node prop string len =
      .ok (0, (devicetreePropString memory deviceTree (int32 (toUint32 found)) string len).2) := by
  rw [devicetreeFindString, h]
  exact if_neg (Nat.not_lt_zero _)

/-- As many bytes are written as the tree says that the property has. -/
theorem devicetreeFindString_length
    (h : devicetreeFindNodeProp memory deviceTree rounds node prop = .ok found)
    (hvalid : deviceTree.valid = 1) {after : Nat → UInt8} {result : Nat} {writes : List Nat}
    (hstring : devicetreeFindString memory deviceTree rounds node prop string len =
      .ok (result, after, writes)) :
    writes.length =
      bigAt memory (tree deviceTree) (toUint32 (int32 (toUint32 found))) := by
  rw [devicetreeFindString_eq h, devicetreePropString, hvalid, if_neg Nat.one_ne_zero] at hstring
  have hwrites := congrArg (fun answer => answer.2.2) (Except.ok.inj hstring)
  dsimp only at hwrites
  rw [← hwrites]
  exact length_propStringLoop _ _ _ _

end

/-- A query is answered as promised exactly when the property occurs and is not longer than the
buffer. -/
theorem answers_iff {memory : Nat → UInt8} {b : Blob} (hb : b.InMemory memory)
    (before : DeviceTreeType) {node : Option CString} {prop : CString} (hnode : ∀ n ∈ node, 0 ∉ n)
    (hprop : 0 ∉ prop) {rounds : Nat} (hrounds : b.structWords < rounds) (string len : Nat) :
    Answers memory (devicetreeSetup memory b.address before).1 rounds (b.first node prop) node prop
        string len ↔
      ∃ e, b.first node prop = some e ∧ e.value.length ≤ len := by
  have hvalid := (hb.setup before).1
  have htree := hb.tree_eq before
  have hmissing := findNodeProp_missing hb before hnode hprop hrounds
  have hfound := @findNodeProp_found _ _ _ _ _ hb before hnode hprop hrounds
  generalize (devicetreeSetup memory b.address before).1 = deviceTree at *
  cases hfirst : b.first node prop with
  | none =>
      refine iff_of_false (fun h => ?_) (by rintro ⟨e, he, -⟩; cases he)
      -- the result of the search is taken for a place in front of the tree
      obtain ⟨result, hint, hneg⟩ := h.int_missing rfl
      rw [devicetreeFindInt_eq (hmissing hfirst)] at hint
      obtain rfl : 0 = result := congrArg Prod.fst (Except.ok.inj hint)
      exact absurd hneg (by decide)
  | some e =>
      have hfind := hfound hfirst
      have hlength : bigAt memory (tree deviceTree)
          (toUint32 (int32 (toUint32 (e.property.index : Int)))) = e.value.length := by
        rw [toUint32_index (Blob.first_index_lt hb hfirst), htree]
        exact Blob.first_length hb hfirst
      constructor
      · intro h
        obtain ⟨result, after, writes, hstring, hle⟩ := h.string_short (Option.some_ne_none e)
        rw [devicetreeFindString_length hfind hvalid hstring, hlength] at hle
        exact ⟨e, rfl, hle⟩
      · rintro ⟨_, hsame, hle⟩
        obtain rfl := Option.some.inj hsame
        refine ⟨fun hnone => ?_, fun hnone => ?_, fun hnone => ?_, fun _ => ?_⟩
        · cases hnone
        · cases hnone
        · cases hnone
        · have hstring := @devicetreeFindString_eq memory deviceTree rounds node prop string len
            _ hfind
          refine ⟨_, _, _, hstring, ?_⟩
          rw [devicetreeFindString_length hfind hvalid hstring, hlength]
          exact hle

/-- The property `reg` of the small tree has five bytes. -/
theorem answers_iff_small : Answers smallMemory
    (devicetreeSetup smallMemory 256 ⟨0, 0, 0, 0, 0, 0, 0, 0, 0, 0, 0⟩).1 20
    (smallBlob.first (some [0x62, 0x40, 0x31]) [0x72, 0x65, 0x67]) (some [0x62, 0x40, 0x31])
    [0x72, 0x65, 0x67] 4096 5 :=
  (answers_iff smallBlob_inMemory ⟨0, 0, 0, 0, 0, 0, 0, 0, 0, 0, 0⟩ (by decide) (by decide)
    (by decide) 4096 5).2 ⟨_, rfl, by decide⟩

/-- A property `x` does not occur in the small tree, and yet it is reported as found. -/
theorem not_answers : ¬ ∀ (memory : Nat → UInt8) (b : Blob), b.InMemory memory →
    ∀ (before : DeviceTreeType) (node : Option CString) (prop : CString), (∀ n ∈ node, 0 ∉ n) →
      0 ∉ prop → ∀ rounds, b.structWords < rounds → ∀ string len,
        Answers memory (devicetreeSetup memory b.address before).1 rounds (b.first node prop) node
          prop string len := by
  intro hall
  have h := hall smallMemory smallBlob smallBlob_inMemory ⟨0, 0, 0, 0, 0, 0, 0, 0, 0, 0, 0⟩ none
    [0x78] (by decide) (by decide) 20 (by decide) 4096 5
  have hfirst : smallBlob.first none [0x78] = none := by decide
  obtain ⟨result, hint, hneg⟩ := h.int_missing hfirst
  have hmissing := findNodeProp_missing smallBlob_inMemory ⟨0, 0, 0, 0, 0, 0, 0, 0, 0, 0, 0⟩
    (by decide) (by decide) (by decide : smallBlob.structWords < 20) hfirst
  rw [devicetreeFindInt_eq hmissing] at hint
  obtain rfl : 0 = result := congrArg Prod.fst (Except.ok.inj hint)
  exact absurd hneg (by decide)

end Vmwos.Devicetree
