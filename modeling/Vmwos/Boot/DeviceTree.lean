import Vmwos.Lib.Base
import Vmwos.Lib.Words

/-!
# The flattened device tree

The bootloader leaves a device tree in memory: a header, a block of words that describes the
nodes and their properties, and a block of strings with the names of the properties. All words
are big-endian. A property is looked for by a recursive descent over the words, in which every
level moves the same index.
-/

set_option autoImplicit false

namespace Vmwos.Devicetree

def fdtBeginNode : Nat := 1
def fdtEndNode : Nat := 2
def fdtProp : Nat := 3
def fdtNop : Nat := 4
def fdtEnd : Nat := 9

/-- `DT_STRING_MAXSIZE` -/
def dtStringMaxsize : Nat := 128

/-- `struct device_tree_type` -/
structure DeviceTreeType where
  address : Nat
  valid : Nat
  magic : Nat
  totalsize : Nat
  offStruct : Nat
  offStrs : Nat
  offRsvmap : Nat
  version : Nat
  lastCompVer : Nat
  bootCpuId : Nat
  sizeStrs : Nat

/-- `big_to_little` -/
def bigToLittle (big : Nat) : Nat :=
  ((big &&& 0xff000000) >>> 24) ||| ((big &&& 0x00ff0000) >>> 8) |||
    ((big &&& 0x0000ff00) <<< 8) ||| ((big &&& 0x000000ff) <<< 24)

/-- `big_to_little(pointer[i])` -/
def bigAt (memory : Nat → UInt8) (pointer i : Nat) : Nat :=
  bigToLittle (wordAt memory (uint32 (pointer + 4 * i)))

/-- `devicetree_setup`. The two last fields are not in the oldest versions of the header. -/
def devicetreeSetup (memory : Nat → UInt8) (dtPtr : Nat) (deviceTree : DeviceTreeType) :
    DeviceTreeType × Int :=
  let magic := bigAt memory dtPtr 0
  if magic ≠ 0xd00dfeed then ({ deviceTree with valid := 0, magic := magic }, -enodev)
  else
    let version := bigAt memory dtPtr 5
    ({ address := dtPtr
       valid := 1
       magic := magic
       totalsize := bigAt memory dtPtr 1
       offStruct := bigAt memory dtPtr 2
       offStrs := bigAt memory dtPtr 3
       offRsvmap := bigAt memory dtPtr 4
       version := version
       lastCompVer := bigAt memory dtPtr 6
       bootCpuId := if 2 ≤ version then bigAt memory dtPtr 7 else deviceTree.bootCpuId
       sizeStrs := if 3 ≤ version then bigAt memory dtPtr 8 else deviceTree.sizeStrs }, 0)

/-- The copying loop of `strlcpy`. -/
def strlcpyLoop (memory : Nat → UInt8) : Nat → Nat → CString
  | 0, _ => []
  | n + 1, src =>
      let c := memory (uint32 src)
      if c = 0 then [] else c :: strlcpyLoop memory n (src + 1)

/-- `strlcpy`: the string in the destination, which has room for `n` characters. -/
def strlcpy (memory : Nat → UInt8) (src n : Nat) : CString := strlcpyLoop memory (n - 1) src

section

variable (memory : Nat → UInt8) (deviceTree : DeviceTreeType)

/-- `tree` -/
def tree : Nat := uint32 (deviceTree.address + deviceTree.offStruct)

/-- `dt_copy_string` -/
def dtCopyString (offset len : Nat) : CString :=
  strlcpy memory (deviceTree.address + deviceTree.offStrs + offset) len

/-- Is the current node the one that is looked for? `NULL` stands for any node. -/
def isNode : Option CString → CString → Bool
  | none, _ => true
  | some node, currentNodeName => strncmp node currentNodeName dtStringMaxsize = 0

/-- `dt_parse_prop`, which starts at the length word of a property: the result and the new index.
The two loops over the value read it and use nothing of it; the second starts again where the
first did. -/
def dtParseProp (node : Option CString) (prop : CString) (currentNodeName : CString) (i : Nat) :
    Nat × Nat :=
  let length := bigAt memory (tree deviceTree) i
  let string := dtCopyString memory deviceTree (bigAt memory (tree deviceTree) (i + 1))
    dtStringMaxsize
  if isNode node currentNodeName ∧ strncmp string prop dtStringMaxsize = 0 then (uint32 i, i + 1)
  else (0, i + 2 + uint32 (length + 3) / 4)

/-- The loop of `dt_parse_node` over the padding of the name. -/
def skipName : Nat → Nat → Except Stuck Nat
  | 0, _ => .error .endless
  | rounds + 1, i =>
      if bigAt memory (tree deviceTree) i &&& 0xff = 0 then .ok (i + 1)
      else skipName rounds (i + 1)

mutual

/-- `dt_parse_node`: the result and the new index. `rounds` bounds the nesting and the rounds of
the loops inside. -/
def dtParseNode (node : Option CString) (prop : CString) : Nat → Nat → Except Stuck (Nat × Nat)
  | 0, _ => .error .endless
  | rounds + 1, i =>
      if bigAt memory (tree deviceTree) i ≠ fdtBeginNode then
        -- `return -1` from a function whose result is unsigned
        .ok (4294967295, i + 1)
      else
        let nodeName := strlcpy memory (tree deviceTree + 4 * (i + 1)) dtStringMaxsize
        match skipName memory deviceTree rounds (i + 1) with
        | .error stuck => .error stuck
        | .ok j => dtParseNodeLoop node prop nodeName rounds j

/-- The loop of `dt_parse_node` over the tokens of a node. -/
def dtParseNodeLoop (node : Option CString) (prop : CString) (nodeName : CString) :
    Nat → Nat → Except Stuck (Nat × Nat)
  | 0, _ => .error .endless
  | rounds + 1, i =>
      let token := bigAt memory (tree deviceTree) i
      if token = fdtNop then dtParseNodeLoop node prop nodeName rounds (i + 1)
      else if token = fdtProp then
        let result := dtParseProp memory deviceTree node prop nodeName (i + 1)
        if 0 < result.1 then .ok result
        else dtParseNodeLoop node prop nodeName rounds result.2
      else if token = fdtBeginNode then
        match dtParseNode node prop rounds i with
        | .error stuck => .error stuck
        | .ok result =>
            if 0 < result.1 then .ok result
            else dtParseNodeLoop node prop nodeName rounds result.2
      else if token = fdtEndNode then .ok (0, i + 1)
      -- an unexpected token is passed over
      else dtParseNodeLoop node prop nodeName rounds (i + 1)

end

/-- The loop of `devicetree_find_node_prop`. -/
def findLoop (node : Option CString) (prop : CString) : Nat → Nat → Except Stuck Int
  | 0, _ => .error .endless
  | rounds + 1, i =>
      match dtParseNode memory deviceTree node prop rounds i with
      | .error stuck => .error stuck
      | .ok result =>
          if 0 < result.1 then .ok (int32 result.1)
          else if bigAt memory (tree deviceTree) result.2 = fdtEnd then .ok (-enoent)
          else if deviceTree.totalsize < uint32 (deviceTree.offStruct + 4 * result.2) then
            .ok (-enoent)
          else findLoop node prop rounds result.2

/-- `devicetree_find_node_prop` -/
def devicetreeFindNodeProp (rounds : Nat) (node : Option CString) (prop : CString) :
    Except Stuck Int :=
  if deviceTree.valid = 0 then .ok (-enodev) else findLoop memory deviceTree node prop rounds 0

end

/-! ## Big-endian words -/

theorem and_byte (n k : Nat) : n &&& (255 <<< k) = (n / 2 ^ k % 256) <<< k := by
  apply Nat.eq_of_testBit_eq
  intro j
  have h : n / 2 ^ k % 256 = (n >>> k) &&& 255 := by
    rw [Nat.shiftRight_eq_div_pow]
    exact (Nat.and_two_pow_sub_one_eq_mod (n / 2 ^ k) 8).symm
  rw [h, Nat.testBit_and, Nat.testBit_shiftLeft, Nat.testBit_shiftLeft, Nat.testBit_and,
    Nat.testBit_shiftRight]
  by_cases hj : k ≤ j
  · simp [hj]
  · simp [hj]

/-- A value below a shifted one. -/
theorem or_shiftLeft {x k : Nat} (h : x < 2 ^ k) (c : Nat) : x ||| c <<< k = x + c * 2 ^ k := by
  rw [Nat.or_comm, ← Nat.shiftLeft_add_eq_or_of_lt h, Nat.shiftLeft_eq, Nat.add_comm]

/-- Bytes in separate places are added. -/
theorem or_bytes {a b c : Nat} (ha : a < 256) (hb : b < 256) (hc : c < 256) (d : Nat) :
    a ||| b <<< 8 ||| c <<< 16 ||| d <<< 24 = a + b * 256 + c * 65536 + d * 16777216 := by
  have hab : a + b * 256 < 65536 := by omega
  have habc : a + b * 256 + c * 65536 < 16777216 := by omega
  have h8 : a ||| b <<< 8 = a + b * 256 := or_shiftLeft (k := 8) ha b
  have h16 : a + b * 256 ||| c <<< 16 = a + b * 256 + c * 65536 := or_shiftLeft (k := 16) hab c
  rw [h8, h16]
  exact or_shiftLeft (k := 24) habc d

theorem bigToLittle_eq {n : Nat} (h : n < 4294967296) :
    bigToLittle n =
      n / 16777216 + n / 65536 % 256 * 256 + n / 256 % 256 * 65536 + n % 256 * 16777216 := by
  have h3 : (n &&& 0xff000000) >>> 24 = n / 16777216 % 256 :=
    calc (n &&& 255 <<< 24) >>> 24 = (n / 2 ^ 24 % 256) <<< 24 >>> 24 := by rw [and_byte]
      _ = n / 2 ^ 24 % 256 := Nat.shiftLeft_shiftRight _ _
  have h2 : (n &&& 0xff0000) >>> 8 = (n / 65536 % 256) <<< 8 := by
    rw [show (0xff0000 : Nat) = 255 <<< 16 from rfl, and_byte, Nat.shiftLeft_eq, Nat.shiftLeft_eq,
      Nat.shiftRight_eq_div_pow]
    omega
  have h1 : (n &&& 0xff00) <<< 8 = (n / 256 % 256) <<< 16 :=
    calc (n &&& 255 <<< 8) <<< 8 = (n / 2 ^ 8 % 256) <<< 8 <<< 8 := by rw [and_byte]
      _ = (n / 2 ^ 8 % 256) <<< 16 := (Nat.shiftLeft_add _ 8 8).symm
  have h0 : n &&& 0xff = n % 256 := Nat.and_two_pow_sub_one_eq_mod n 8
  have htop : n / 16777216 % 256 = n / 16777216 := by omega
  rw [bigToLittle, h3, h2, h1, h0, or_bytes (by omega) (by omega) (by omega), htop]
/-- The four bytes of a word change places. -/
theorem bigToLittle_bytes {a b c d : Nat} (ha : a < 256) (hb : b < 256) (hc : c < 256)
    (hd : d < 256) :
    bigToLittle (a + b * 256 + c * 65536 + d * 16777216) =
      d + c * 256 + b * 65536 + a * 16777216 := by
  have h3 : (a + b * 256 + c * 65536 + d * 16777216) / 16777216 = d := by omega
  have h2 : (a + b * 256 + c * 65536 + d * 16777216) / 65536 % 256 = c := by omega
  have h1 : (a + b * 256 + c * 65536 + d * 16777216) / 256 % 256 = b := by omega
  have h0 : (a + b * 256 + c * 65536 + d * 16777216) % 256 = a := by omega
  rw [bigToLittle_eq (by omega), h3, h2, h1, h0]

end Vmwos.Devicetree
