import Vmwos.Boot.DeviceTreeValues
import Mathlib.Data.Nat.Digits.Lemmas
import Mathlib.Tactic.IntervalCases

/-!
# The size of the memory

The size is the second number in the property `reg` of the node `memory`, or of `memory@0` as newer
firmware calls it. How many cells the two numbers have is said by two properties of the root. The
old detection is tried first. When there is no node `memory` it does not notice, and reads the words
at the beginning of the tree instead. Numbers of two cells go through `big_to_little64`, which puts
the bytes in wrong places.
-/

set_option autoImplicit false

namespace Vmwos.Devicetree

open Library FileBytes

/-! ## The detection -/

/-- `"#address-cells"` -/
def addressCellsName : CString :=
  [0x23, 0x61, 0x64, 0x64, 0x72, 0x65, 0x73, 0x73, 0x2d, 0x63, 0x65, 0x6c, 0x6c, 0x73]

/-- `"#size-cells"` -/
def sizeCellsName : CString :=
  [0x23, 0x73, 0x69, 0x7a, 0x65, 0x2d, 0x63, 0x65, 0x6c, 0x6c, 0x73]

/-- `"memory"` -/
def memoryName : CString := [0x6d, 0x65, 0x6d, 0x6f, 0x72, 0x79]

/-- `"memory@0"` -/
def memoryAtName : CString := [0x6d, 0x65, 0x6d, 0x6f, 0x72, 0x79, 0x40, 0x30]

/-- `"reg"` -/
def regName : CString := [0x72, 0x65, 0x67]

/-- `big_to_little64` -/
def bigToLittle64 (big : Nat) : Nat :=
  ((big &&& 0xff00000000000000) >>> 48) ||| ((big &&& 0x00ff000000000000) >>> 32) |||
    ((big &&& 0x0000ff0000000000) >>> 16) ||| ((big &&& 0x000000ff00000000) >>> 8) |||
    ((big &&& 0x00000000ff000000) <<< 8) ||| ((big &&& 0x0000000000ff0000) <<< 16) |||
    ((big &&& 0x000000000000ff00) <<< 32) ||| ((big &&& 0x00000000000000ff) <<< 48)

/-- A word of 64 bits in memory. -/
def doubleAt (memory : Nat → UInt8) (location : Nat) : Nat :=
  wordAt memory location + wordAt memory (location + 4) <<< 32

section

variable (memory : Nat → UInt8) (deviceTree : DeviceTreeType)

/-- `tree[i]` -/
def treeWord (i : Nat) : Nat := wordAt memory (uint32 (tree deviceTree + 4 * i))

/-- The eight bytes at `&tree[i]`. -/
def treeDouble (i : Nat) : Nat := doubleAt memory (uint32 (tree deviceTree + 4 * i))

/-- The branches of the old detection by the number of cells: the number, and 0 for an unknown
size. -/
def oldNumber (cells i : Nat) : Nat :=
  if cells = 1 then bigAt memory (tree deviceTree) i
  else if cells = 2 then bigToLittle64 (treeDouble memory deviceTree i)
  else 0

/-- How far these branches move the index. -/
def oldAdvance (cells : Nat) : Nat := if cells = 1 then 1 else if cells = 2 then 2 else 0

/-- `devicetree_get_memory_old`: the length and `*return_address`. `stack` is what the two variables
for the numbers of cells hold when nothing is stored in them. The length of the property is only
compared for a warning. -/
def devicetreeGetMemoryOld (rounds : Nat) (stack : Nat × Nat) : Except Stuck (Nat × Nat) :=
  match devicetreeFindInt memory deviceTree rounds none addressCellsName with
  | .error stuck => .error stuck
  | .ok address =>
      match devicetreeFindInt memory deviceTree rounds none sizeCellsName with
      | .error stuck => .error stuck
      | .ok size =>
          let addressCells := address.2.getD stack.1
          let sizeCells := size.2.getD stack.2
          match devicetreeFindNodeProp memory deviceTree rounds (some memoryName) regName with
          | .error stuck => .error stuck
          | .ok found =>
              let result := toUint32 found
              if result < 0 then .ok (result, 0)
              else
                let i := toUint32 (int32 result) + 2
                .ok (oldNumber memory deviceTree sizeCells (i + oldAdvance addressCells),
                  oldNumber memory deviceTree addressCells i)

/-- `devicetree_get_memory_new`. In the case of 12 bytes the word of the length goes through
`big_to_little64`; a second range is not used. -/
def devicetreeGetMemoryNew (rounds : Nat) : Except Stuck (Nat × Nat) :=
  match devicetreeFindNodeProp memory deviceTree rounds (some memoryAtName) regName with
  | .error stuck => .error stuck
  | .ok found =>
      let result := toUint32 found
      if result < 0 then .ok (result, 0)
      else
        let i := toUint32 (int32 result)
        let valLen := bigAt memory (tree deviceTree) i
        let i := i + 2
        if valLen = 8 then
          .ok (bigAt memory (tree deviceTree) (i + 1), bigAt memory (tree deviceTree) i)
        else if valLen = 12 then
          .ok (bigToLittle64 (treeWord memory deviceTree (i + 2)),
            bigToLittle64 (treeDouble memory deviceTree i))
        else if valLen = 24 then
          .ok (bigAt memory (tree deviceTree) (i + 2),
            bigToLittle64 (treeDouble memory deviceTree i))
        else .ok (0, 0)

/-- `devicetree_get_memory` -/
def devicetreeGetMemory (rounds : Nat) (stack : Nat × Nat) : Except Stuck Nat :=
  match devicetreeGetMemoryOld memory deviceTree rounds stack with
  | .error stuck => .error stuck
  | .ok old =>
      if old.1 < 1024 then
        match devicetreeGetMemoryNew memory deviceTree rounds with
        | .error stuck => .error stuck
        | .ok new => if new.1 < 1024 then .ok (256 * 1024 * 1024) else .ok new.1
      else .ok old.1

end

/-! ## Trees that say how much memory there is -/

/-- The value of a property of the node itself. -/
def Items.own : Items → CString → Option (List UInt8)
  | done, _ => none
  | nop rest, name => rest.own name
  | prop name' _ value rest, name => if name' = name then some value else rest.own name
  | node _ _ rest, name => rest.own name

/-- No properties. -/
def Items.NoProperties : Items → Prop
  | done => True
  | nop rest => rest.NoProperties
  | prop _ _ _ _ => False
  | node _ _ rest => rest.NoProperties

/-- The properties of the node stand in front of the nodes in it. -/
def Items.PropertiesFirst : Items → Prop
  | done => True
  | nop rest => rest.PropertiesFirst
  | prop _ _ _ rest => rest.PropertiesFirst
  | node _ _ rest => rest.NoProperties

/-- A number of one or two cells. -/
def cellBytes (cells n : Nat) : List UInt8 :=
  if cells = 1 then bigEndian n else bigEndian (n / 4294967296) ++ bigEndian (n % 4294967296)

/-- The property that says where the memory is: the one of `memory`, or else of `memory@0`. -/
def Blob.memoryReg (b : Blob) : Option Entry :=
  (b.first (some memoryName) regName).or (b.first (some memoryAtName) regName)

/-- The root of the tree gives the numbers of cells, and one entry of such numbers says where the
memory is and how much there is. -/
structure Blob.HasMemory (b : Blob) (addressCells sizeCells address size : Nat) : Prop where
  propertiesFirst : b.contents.PropertiesFirst
  address_own : b.contents.own addressCellsName = some (bigEndian addressCells)
  size_own : b.contents.own sizeCellsName = some (bigEndian sizeCells)
  addressCells_eq : addressCells = 1 ∨ addressCells = 2
  sizeCells_eq : sizeCells = 1 ∨ sizeCells = 2
  reg : ∃ e, b.memoryReg = some e ∧
    e.value = cellBytes addressCells address ++ cellBytes sizeCells size
  address_lt : address < 4294967296 ^ addressCells
  size_lt : size < 4294967296 ^ sizeCells
  size_ge : 1024 ≤ size

/-- What the old detection takes for the size in a tree without a node `memory`: it reads a number
behind the first words of the tree. -/
def strayNumber (memory : Nat → UInt8) (deviceTree : DeviceTreeType) (addressCells sizeCells : Nat) :
    Nat :=
  oldNumber memory deviceTree sizeCells addressCells

/-- When the size is detected. With a node `memory` the size is a number of one cell, or the bytes
that `big_to_little64` misplaces are 0. With `memory@0` only, the beginning of the tree is not taken
for a size and the numbers have one cell each, or else the wrong value happens to be the right
one. -/
def Detected (memory : Nat → UInt8) (deviceTree : DeviceTreeType) (b : Blob)
    (addressCells sizeCells size : Nat) : Prop :=
  if (b.first (some memoryName) regName).isSome then
    sizeCells = 1 ∨ size % 16777216 = 0 ∧ size < 1099511627776
  else if strayNumber memory deviceTree addressCells sizeCells < 1024 then
    addressCells = 1 ∧ sizeCells = 1 ∨
      addressCells = 2 ∧ sizeCells = 2 ∧ size = 256 * 1024 * 1024
  else size = strayNumber memory deviceTree addressCells sizeCells

/-! ## The 64-bit swap -/

theorem and_byte_shiftRight (n k j : Nat) :
    (n &&& (255 <<< (k + j))) >>> j = (n / 2 ^ (k + j) % 256) <<< k := by
  rw [and_byte, Nat.shiftLeft_add, Nat.shiftLeft_shiftRight]

theorem and_byte_shiftLeft (n k j : Nat) :
    (n &&& (255 <<< k)) <<< j = (n / 2 ^ k % 256) <<< (k + j) := by
  rw [and_byte, ← Nat.shiftLeft_add]

/-- Where the bytes of a 64-bit word go. Two places get two bytes, and the lowest and the highest
get none. -/
theorem bigToLittle64_eq {n : Nat} {t : Nat → Nat} (ht : ∀ k < 8, n / 256 ^ k % 256 = t k) :
    bigToLittle64 n =
      Nat.ofDigits 256 [0, t 7, t 6, t 5 ||| t 4, t 3 ||| t 2, t 1, t 0, 0] := by
  have hlt (k : Nat) (hk : k < 8) : t k < 256 := by
    rw [← ht k hk]
    exact Nat.mod_lt _ (by decide)
  have hor (i j : Nat) (hi : i < 8) (hj : j < 8) : t i ||| t j < 256 :=
    Nat.or_lt_two_pow (n := 8) (hlt i hi) (hlt j hj)
  have h7 : (n &&& 0xff00000000000000) >>> 48 = t 7 <<< 8 := by
    rw [← ht 7 (by decide)]
    exact and_byte_shiftRight n 8 48
  have h6 : (n &&& 0x00ff000000000000) >>> 32 = t 6 <<< 16 := by
    rw [← ht 6 (by decide)]
    exact and_byte_shiftRight n 16 32
  have h5 : (n &&& 0x0000ff0000000000) >>> 16 = t 5 <<< 24 := by
    rw [← ht 5 (by decide)]
    exact and_byte_shiftRight n 24 16
  have h4 : (n &&& 0x000000ff00000000) >>> 8 = t 4 <<< 24 := by
    rw [← ht 4 (by decide)]
    exact and_byte_shiftRight n 24 8
  have h3 : (n &&& 0x00000000ff000000) <<< 8 = t 3 <<< 32 := by
    rw [← ht 3 (by decide)]
    exact and_byte_shiftLeft n 24 8
  have h2 : (n &&& 0x0000000000ff0000) <<< 16 = t 2 <<< 32 := by
    rw [← ht 2 (by decide)]
    exact and_byte_shiftLeft n 16 16
  have h1 : (n &&& 0x000000000000ff00) <<< 32 = t 1 <<< 40 := by
    rw [← ht 1 (by decide)]
    exact and_byte_shiftLeft n 8 32
  have h0 : (n &&& 0x00000000000000ff) <<< 48 = t 0 <<< 48 := by
    rw [← ht 0 (by decide)]
    exact and_byte_shiftLeft n 0 48
  have hlow := hlt 7 (by decide)
  have hsix := hlt 6 (by decide)
  have hfive := hor 5 4 (by decide) (by decide)
  have hthree := hor 3 2 (by decide) (by decide)
  have hone := hlt 1 (by decide)
  have hjoin5 : t 5 <<< 24 ||| t 4 <<< 24 = (t 5 ||| t 4) <<< 24 := (Nat.shiftLeft_or_distrib ..).symm
  have hjoin3 : t 3 <<< 32 ||| t 2 <<< 32 = (t 3 ||| t 2) <<< 32 := (Nat.shiftLeft_or_distrib ..).symm
  -- from the lowest place up, each part lies above the sum of those before it
  have s7 : t 7 <<< 8 = t 7 * 256 := Nat.shiftLeft_eq _ _
  have s6 : t 7 * 256 ||| t 6 <<< 16 = t 7 * 256 + t 6 * 65536 :=
    or_shiftLeft (k := 16) (by omega) (t 6)
  have s5 : t 7 * 256 + t 6 * 65536 ||| (t 5 ||| t 4) <<< 24 =
      t 7 * 256 + t 6 * 65536 + (t 5 ||| t 4) * 16777216 :=
    or_shiftLeft (k := 24) (by omega) (t 5 ||| t 4)
  have s3 : t 7 * 256 + t 6 * 65536 + (t 5 ||| t 4) * 16777216 ||| (t 3 ||| t 2) <<< 32 =
      t 7 * 256 + t 6 * 65536 + (t 5 ||| t 4) * 16777216 + (t 3 ||| t 2) * 4294967296 :=
    or_shiftLeft (k := 32) (by omega) (t 3 ||| t 2)
  have s1 : t 7 * 256 + t 6 * 65536 + (t 5 ||| t 4) * 16777216 + (t 3 ||| t 2) * 4294967296 |||
      t 1 <<< 40 = t 7 * 256 + t 6 * 65536 + (t 5 ||| t 4) * 16777216 +
        (t 3 ||| t 2) * 4294967296 + t 1 * 1099511627776 :=
    or_shiftLeft (k := 40) (by omega) (t 1)
  have s0 : t 7 * 256 + t 6 * 65536 + (t 5 ||| t 4) * 16777216 + (t 3 ||| t 2) * 4294967296 +
      t 1 * 1099511627776 ||| t 0 <<< 48 = t 7 * 256 + t 6 * 65536 + (t 5 ||| t 4) * 16777216 +
        (t 3 ||| t 2) * 4294967296 + t 1 * 1099511627776 + t 0 * 281474976710656 :=
    or_shiftLeft (k := 48) (by omega) (t 0)
  rw [bigToLittle64, h7, h6, h5, h4, h3, h2, h1, h0, s7, s6,
    Nat.or_assoc _ (t 5 <<< 24) (t 4 <<< 24), hjoin5, s5, Nat.or_assoc _ (t 3 <<< 32) (t 2 <<< 32),
    hjoin3, s3, s1, s0]
  simp only [Nat.ofDigits_cons, Nat.ofDigits_nil]
  omega

/-- A byte of a number that is written in base 256. -/
theorem ofDigits_byte {digits : List Nat} (h : ∀ d ∈ digits, d < 256) (k : Nat) :
    Nat.ofDigits 256 digits / 256 ^ k % 256 = digits.getD k 0 := by
  induction digits generalizing k with
  | nil => simp
  | cons d digits ih =>
      obtain ⟨hd, hdigits⟩ := List.forall_mem_cons.1 h
      rw [Nat.ofDigits_cons]
      cases k with
      | zero =>
          rw [Nat.pow_zero, Nat.div_one, List.getD_cons_zero]
          exact (Nat.add_mul_mod_self_left _ _ _).trans (Nat.mod_eq_of_lt hd)
      | succ k =>
          have hdiv : (d + 256 * Nat.ofDigits 256 digits) / 256 = Nat.ofDigits 256 digits := by
            omega
          rw [Nat.pow_succ', ← Nat.div_div_eq_div_mul, List.getD_cons_succ, ← ih hdigits k]
          exact congrArg (· / 256 ^ k % 256) hdiv

/-- The bytes of a number from the lowest one. -/
def bytesOf (n : Nat) : Nat → List Nat
  | 0 => []
  | k + 1 => n % 256 :: bytesOf (n / 256) k

theorem bytesOf_lt (n k : Nat) : ∀ d ∈ bytesOf n k, d < 256 := by
  induction k generalizing n with
  | zero => exact fun d hd => absurd hd List.not_mem_nil
  | succ k ih => exact List.forall_mem_cons.2 ⟨Nat.mod_lt n (by decide), ih (n / 256)⟩

theorem ofDigits_bytesOf {n k : Nat} (h : n < 256 ^ k) : Nat.ofDigits 256 (bytesOf n k) = n := by
  induction k generalizing n with
  | zero => exact (Nat.lt_one_iff.1 h).symm
  | succ k ih =>
      have hrest : n / 256 < 256 ^ k := Nat.div_lt_of_lt_mul (by rwa [← Nat.pow_succ'])
      rw [bytesOf, Nat.ofDigits_cons, ih hrest]
      exact Nat.mod_add_div n 256

/-- What is made of a number of two cells. -/
def misplaced (n : Nat) : Nat :=
  Nat.ofDigits 256 [0, n % 256, n / 256 % 256, n / 65536 % 256 ||| n / 16777216 % 256,
    n / 4294967296 % 256 ||| n / 1099511627776 % 256, n / 281474976710656 % 256,
    n / 72057594037927936 % 256, 0]

theorem byte_or_lt (a b : Nat) : a % 256 ||| b % 256 < 256 :=
  Nat.or_lt_two_pow (n := 8) (Nat.mod_lt a (by decide)) (Nat.mod_lt b (by decide))

theorem misplaced_digits_lt (n : Nat) : ∀ d ∈ [0, n % 256, n / 256 % 256,
    n / 65536 % 256 ||| n / 16777216 % 256, n / 4294967296 % 256 ||| n / 1099511627776 % 256,
    n / 281474976710656 % 256, n / 72057594037927936 % 256, 0], d < 256 := by
  have hmod (k : Nat) : k % 256 < 256 := Nat.mod_lt k (by decide)
  simp only [List.forall_mem_cons, byte_or_lt, hmod, true_and]
  decide

/-- A number of 64 bits is read back exactly when only two of its bytes are in use. -/
theorem misplaced_self_iff {n : Nat} (h : n < 18446744073709551616) :
    misplaced n = n ↔ n % 16777216 = 0 ∧ n < 1099511627776 := by
  have hn : Nat.ofDigits 256 (bytesOf n 8) = n := ofDigits_bytesOf h
  have hsame : misplaced n = Nat.ofDigits 256 (bytesOf n 8) ↔
      [0, n % 256, n / 256 % 256, n / 65536 % 256 ||| n / 16777216 % 256,
        n / 4294967296 % 256 ||| n / 1099511627776 % 256, n / 281474976710656 % 256,
        n / 72057594037927936 % 256, 0] = bytesOf n 8 := by
    constructor
    · intro heq
      exact Nat.ofDigits_inj_of_len_eq (by decide) rfl (misplaced_digits_lt n) (bytesOf_lt n 8) heq
    · intro heq
      rw [misplaced, heq]
  rw [hn] at hsame
  rw [hsame]
  simp only [bytesOf, Nat.div_div_eq_div_mul, Nat.reduceMul, List.cons.injEq, and_true]
  constructor
  · rintro ⟨h0, h1, h2, -, -, h5, h6, h7⟩
    omega
  · rintro ⟨hlow, hhigh⟩
    have h2 : n / 65536 % 256 = 0 := by omega
    have h5 : n / 1099511627776 % 256 = 0 := by omega
    rw [h2, h5, Nat.zero_or, Nat.or_zero]
    refine ⟨?_, ?_, ?_, rfl, rfl, ?_, ?_, ?_⟩ <;> omega

/-- A size that is misplaced does not get too small to be believed. -/
theorem le_misplaced {n : Nat} (h : 1024 ≤ n) (hn : n < 18446744073709551616) :
    1024 ≤ misplaced n := by
  by_contra hsmall
  have hbyte (k : Nat) := ofDigits_byte (misplaced_digits_lt n) k
  have hzero (k : Nat) (hk : 2 ≤ k) : misplaced n / 256 ^ k % 256 = 0 := by
    have hpow : 256 ^ 2 ≤ 256 ^ k := Nat.pow_le_pow_right (by decide) hk
    rw [Nat.div_eq_of_lt (by omega)]
  have h1 : n / 256 % 256 = 0 := (hbyte 2).symm.trans (hzero 2 (by decide))
  have h3 : n / 65536 % 256 ||| n / 16777216 % 256 = 0 :=
    (hbyte 3).symm.trans (hzero 3 (by decide))
  have h5 : n / 4294967296 % 256 ||| n / 1099511627776 % 256 = 0 :=
    (hbyte 4).symm.trans (hzero 4 (by decide))
  have h6 : n / 281474976710656 % 256 = 0 := (hbyte 5).symm.trans (hzero 5 (by decide))
  have h7 : n / 72057594037927936 % 256 = 0 := (hbyte 6).symm.trans (hzero 6 (by decide))
  rw [Nat.or_eq_zero_iff] at h3 h5
  omega

/-! ## Reading numbers -/

section Reading

variable {memory : Nat → UInt8} {deviceTree : DeviceTreeType} {i n cells : Nat}

theorem length_cellBytes (n : Nat) (h : cells = 1 ∨ cells = 2) :
    (cellBytes cells n).length = 4 * cells := by
  rcases h with rfl | rfl
  · rfl
  · rfl

theorem eight_digits (a b c d e f g h : Nat) :
    a + b * 256 + c * 65536 + d * 16777216 +
        (e + f * 256 + g * 65536 + h * 16777216) * 2 ^ 32 =
      Nat.ofDigits 256 [a, b, c, d, e, f, g, h] := by
  simp only [Nat.ofDigits_cons, Nat.ofDigits_nil]
  omega

theorem four_digits (a b c d : Nat) :
    a + b * 256 + c * 65536 + d * 16777216 = Nat.ofDigits 256 [a, b, c, d] := by
  simp only [Nat.ofDigits_cons, Nat.ofDigits_nil]
  omega

/-- The bytes of the eight that are read at once. -/
theorem doubleAt_byte (memory : Nat → UInt8) (location : Nat) {k : Nat} (hk : k < 8) :
    doubleAt memory location / 256 ^ k % 256 = (memory (location + k)).toNat := by
  have hdigits : doubleAt memory location = Nat.ofDigits 256
      [(memory location).toNat, (memory (location + 1)).toNat, (memory (location + 2)).toNat,
        (memory (location + 3)).toNat, (memory (location + 4)).toNat,
        (memory (location + 4 + 1)).toNat, (memory (location + 4 + 2)).toNat,
        (memory (location + 4 + 3)).toNat] := by
    rw [← eight_digits, ← wordAt_eq, ← wordAt_eq, ← Nat.shiftLeft_eq]
    rfl
  rw [hdigits, ofDigits_byte ?_]
  · interval_cases k <;> rfl
  · simp only [List.forall_mem_cons, byte_lt, true_and]
    exact fun d hd => absurd hd List.not_mem_nil

theorem byteAt_bigEndian (n : Nat) {k : Nat} (hk : k < 4) :
    (byteAt (bigEndian n) k).toNat = n / 256 ^ (3 - k) % 256 := by
  interval_cases k
  · exact (UInt8.toNat_ofNat' ..).trans (congrArg (· % 256) (Nat.shiftRight_eq_div_pow n 24))
  · exact (UInt8.toNat_ofNat' ..).trans (congrArg (· % 256) (Nat.shiftRight_eq_div_pow n 16))
  · exact (UInt8.toNat_ofNat' ..).trans (congrArg (· % 256) (Nat.shiftRight_eq_div_pow n 8))
  · exact (UInt8.toNat_ofNat' ..).trans (congrArg (· % 256) (Nat.div_one n).symm)

/-- The bytes of a number of two cells, the highest one first. -/
theorem byteAt_cellBytes (n : Nat) {k : Nat} (hk : k < 8) :
    (byteAt (cellBytes 2 n) k).toNat = n / 256 ^ (7 - k) % 256 := by
  have hcells : cellBytes 2 n = bigEndian (n / 4294967296) ++ bigEndian (n % 4294967296) := rfl
  have hlength : (bigEndian (n / 4294967296)).length = 4 := rfl
  rw [hcells, byteAt_append, hlength]
  by_cases hhigh : k < 4
  · have hpow : 256 ^ (7 - k) = 4294967296 * 256 ^ (3 - k) := by
      rw [show 7 - k = 4 + (3 - k) by omega, Nat.pow_add]
    rw [if_pos hhigh, byteAt_bigEndian _ hhigh, Nat.div_div_eq_div_mul, hpow]
  · rw [if_neg hhigh, byteAt_bigEndian _ (by omega), show 3 - (k - 4) = 7 - k by omega]
    interval_cases k <;> omega

theorem oldNumber_one (h : Stored memory (tree deviceTree + 4 * i) (cellBytes 1 n))
    (hn : n < 4294967296) (hrange : tree deviceTree + 4 * i < 4294967296) :
    oldNumber memory deviceTree 1 i = n :=
  bigAt_of_stored h hn hrange

theorem oldNumber_two (h : Stored memory (tree deviceTree + 4 * i) (cellBytes 2 n))
    (hrange : tree deviceTree + 4 * i < 4294967296) :
    oldNumber memory deviceTree 2 i = misplaced n := by
  have hbyte (k : Nat) (hk : k < 8) :
      treeDouble memory deviceTree i / 256 ^ k % 256 = n / 256 ^ (7 - k) % 256 := by
    rw [treeDouble, uint32_of_lt hrange, doubleAt_byte memory _ hk, h k hk, byteAt_cellBytes n hk]
  have hcells : oldNumber memory deviceTree 2 i = bigToLittle64 (treeDouble memory deviceTree i) :=
    rfl
  have hswap := bigToLittle64_eq hbyte
  simp only [Nat.reduceSub, Nat.reducePow, Nat.div_one] at hswap
  rw [hcells, misplaced, hswap]

/-- The word that the new detection takes for a number of 64 bits ends up in the upper half. -/
theorem bigToLittle64_treeWord (h : Stored memory (tree deviceTree + 4 * i) (bigEndian n))
    (hn : n < 4294967296) (hrange : tree deviceTree + 4 * i < 4294967296) :
    ∃ q, bigToLittle64 (treeWord memory deviceTree i) = q * 4294967296 ∧ (q = 0 ↔ n = 0) := by
  have h0 : memory (tree deviceTree + 4 * i) = UInt8.ofNat (n >>> 24) := h 0 (by decide : 0 < 4)
  have h1 : memory (tree deviceTree + 4 * i + 1) = UInt8.ofNat (n >>> 16) := h 1 (by decide : 1 < 4)
  have h2 : memory (tree deviceTree + 4 * i + 2) = UInt8.ofNat (n >>> 8) := h 2 (by decide : 2 < 4)
  have h3 : memory (tree deviceTree + 4 * i + 3) = UInt8.ofNat n := h 3 (by decide : 3 < 4)
  have hword : treeWord memory deviceTree i = n / 16777216 % 256 + n / 65536 % 256 * 256 +
      n / 256 % 256 * 65536 + n % 256 * 16777216 := by
    rw [treeWord, uint32_of_lt hrange, wordAt_eq, h0, h1, h2, h3]
    simp only [UInt8.toNat_ofNat', Nat.shiftRight_eq_div_pow]
  have hmod (k : Nat) : k % 256 < 256 := Nat.mod_lt k (by decide)
  have hlt : ∀ d ∈ [n / 16777216 % 256, n / 65536 % 256, n / 256 % 256, n % 256], d < 256 := by
    simp only [List.forall_mem_cons, hmod, true_and]
    exact fun d hd => absurd hd List.not_mem_nil
  have hbyte (k : Nat) (_ : k < 8) : treeWord memory deviceTree i / 256 ^ k % 256 =
      [n / 16777216 % 256, n / 65536 % 256, n / 256 % 256, n % 256].getD k 0 := by
    rw [hword, four_digits, ofDigits_byte hlt]
  have hswap := bigToLittle64_eq hbyte
  -- the four upper bytes of the number are 0, and with them the lower half of the result
  simp only [List.getD_cons_succ, List.getD_cons_zero, List.getD_nil, Nat.or_self] at hswap
  refine ⟨Nat.ofDigits 256 [n % 256 ||| n / 256 % 256, n / 65536 % 256, n / 16777216 % 256, 0],
    ?_, ?_⟩
  · -- four digits are 0, and what follows them counts as so many times 256 ^ 4
    have hzeros (l : List Nat) : Nat.ofDigits 256 ([0, 0, 0, 0] ++ l) =
        Nat.ofDigits 256 l * 4294967296 := by
      rw [Nat.ofDigits_append, Nat.mul_comm]
      exact Nat.zero_add _
    rw [hswap]
    exact hzeros _
  · simp only [Nat.ofDigits_cons, Nat.ofDigits_nil]
    constructor
    · intro hzero
      have hor : n % 256 ||| n / 256 % 256 = 0 := by omega
      rw [Nat.or_eq_zero_iff] at hor
      omega
    · rintro rfl
      rfl

end Reading

/-! ## What the searches find -/

theorem Items.own_eq_none {items : Items} (h : items.NoProperties) (name : CString) :
    items.own name = none := by
  induction items with
  | done => rfl
  | nop rest ih => exact ih h
  | prop name' nameOffset value rest ih => exact h.elim
  | node name' contents rest ihc ihr => exact ihr h

/-- A property of the node itself is the first one of its name in document order. -/
theorem Items.find_own {items : Items} (h : items.PropertiesFirst) {name : CString}
    {value : List UInt8} (hown : items.own name = some value) (nodeName : CString) (i : Nat) :
    ∃ e, (items.entries nodeName i).find? (fun e => e.property.isWanted none name) = some e ∧
      e.value = value := by
  induction items generalizing i with
  | done => cases hown
  | nop rest ih => exact ih h hown (i + 1)
  | prop name' nameOffset value' rest ih =>
      rw [entries, List.find?_cons]
      rw [own] at hown
      by_cases hname : name' = name
      · rw [if_pos hname] at hown
        have hwanted : Property.isWanted none name ⟨nodeName, name', i + 1⟩ = true :=
          decide_eq_true ⟨Or.inl rfl, hname⟩
        rw [hwanted]
        exact ⟨_, rfl, Option.some.inj hown⟩
      · rw [if_neg hname] at hown
        have hother : Property.isWanted none name ⟨nodeName, name', i + 1⟩ = false :=
          decide_eq_false fun hwanted => hname hwanted.2
        rw [hother]
        exact ih h hown _
  | node name' contents rest ihc ihr =>
      rw [own, Items.own_eq_none h] at hown
      cases hown

section Searches

variable {memory : Nat → UInt8} {b : Blob} {before : DeviceTreeType} {rounds : Nat}

/-- A number of the root is read as it stands in the tree. -/
theorem devicetreeFindInt_own (hb : b.InMemory memory) (hfirst : b.contents.PropertiesFirst)
    {name : CString} {n : Nat} (hn : n < 4294967296) (hname : 0 ∉ name)
    (hown : b.contents.own name = some (bigEndian n)) (hrounds : b.structWords < rounds) :
    devicetreeFindInt memory (devicetreeSetup memory b.address before).1 rounds none name =
      .ok (0, some n) := by
  obtain ⟨e, he, hvalue⟩ := Items.find_own hfirst hown b.rootName
    (1 + wordsFor (b.rootName.length + 1))
  have hfound := findNodeProp_found hb before (by simp) hname hrounds he
  have hvalid := (hb.setup before).1
  have hbound := (Blob.first_stored hb he).2.1
  have hspace := hb.inAddressSpace
  have hwords : e.words = 2 + wordsFor e.value.length := rfl
  have hlength : wordsFor e.value.length = 1 := by
    have hfour : (bigEndian n).length = 4 := rfl
    rw [hvalue, hfour]
    rfl
  have hword : bigAt memory (b.address + b.offStruct) (e.property.index + 2) = n := by
    have hstored := Blob.first_value hb he
    rw [hvalue] at hstored
    exact bigAt_of_stored hstored hn (by omega)
  rw [devicetreeFindInt_eq hfound, devicetreePropInt, hvalid, if_neg Nat.one_ne_zero,
    toUint32_index (Blob.first_index_lt hb he), hb.tree_eq before]
  exact congrArg (fun m => Except.ok (0, some m)) hword

end Searches

/-! ## Both detections -/

section Detections

variable {memory : Nat → UInt8} {deviceTree : DeviceTreeType} {rounds addressCells sizeCells : Nat}
  {stack : Nat × Nat} {found : Int} {base : Nat}

theorem oldAdvance_eq (h : addressCells = 1 ∨ addressCells = 2) :
    oldAdvance addressCells = addressCells := by
  rcases h with rfl | rfl
  · rfl
  · rfl

theorem devicetreeGetMemoryOld_eq
    (haddress : devicetreeFindInt memory deviceTree rounds none addressCellsName =
      .ok (0, some addressCells))
    (hsize : devicetreeFindInt memory deviceTree rounds none sizeCellsName =
      .ok (0, some sizeCells))
    (hfound : devicetreeFindNodeProp memory deviceTree rounds (some memoryName) regName =
      .ok found)
    (hbase : toUint32 (int32 (toUint32 found)) = base)
    (hcells : addressCells = 1 ∨ addressCells = 2) :
    devicetreeGetMemoryOld memory deviceTree rounds stack =
      .ok (oldNumber memory deviceTree sizeCells (base + 2 + addressCells),
        oldNumber memory deviceTree addressCells (base + 2)) := by
  rw [devicetreeGetMemoryOld, haddress, hsize]
  simp only [hfound, Option.getD_some, hbase, oldAdvance_eq hcells, Nat.not_lt_zero, if_false]

/-- The index of an error, two words further on, is the beginning of the tree. -/
theorem oldNumber_around (cells i : Nat) :
    oldNumber memory deviceTree cells (4294967294 + 2 + i) =
      oldNumber memory deviceTree cells i := by
  have hplace : uint32 (tree deviceTree + 4 * (4294967294 + 2 + i)) =
      uint32 (tree deviceTree + 4 * i) := by
    unfold uint32
    omega
  unfold oldNumber bigAt treeDouble
  rw [hplace]

theorem devicetreeGetMemory_old {length address : Nat}
    (h : devicetreeGetMemoryOld memory deviceTree rounds stack = .ok (length, address))
    (hlength : 1024 ≤ length) :
    devicetreeGetMemory memory deviceTree rounds stack = .ok length := by
  rw [devicetreeGetMemory, h]
  exact if_neg (Nat.not_lt.2 hlength)

theorem devicetreeGetMemory_new {length address length' address' : Nat}
    (h : devicetreeGetMemoryOld memory deviceTree rounds stack = .ok (length, address))
    (hlength : length < 1024)
    (hnew : devicetreeGetMemoryNew memory deviceTree rounds = .ok (length', address')) :
    devicetreeGetMemory memory deviceTree rounds stack =
      .ok (if length' < 1024 then 256 * 1024 * 1024 else length') := by
  rw [devicetreeGetMemory, h]
  simp only [hlength, if_true, hnew]
  split
  · rfl
  · rfl

end Detections

section Sizes

variable {memory : Nat → UInt8} {b : Blob} {before : DeviceTreeType} {rounds : Nat}
  {node : Option CString} {prop : CString} {e : Entry} {addressCells sizeCells address size : Nat}

/-- The size stands behind the address, and inside the address space. -/
theorem Blob.size_stored (hb : b.InMemory memory) (h : b.first node prop = some e)
    (hvalue : e.value = cellBytes addressCells address ++ cellBytes sizeCells size)
    (hacells : addressCells = 1 ∨ addressCells = 2) (hscells : sizeCells = 1 ∨ sizeCells = 2) :
    Stored memory (b.address + b.offStruct + 4 * (e.property.index + 2 + addressCells))
        (cellBytes sizeCells size) ∧
      b.address + b.offStruct + 4 * (e.property.index + 2 + addressCells + sizeCells) ≤
        4294967296 := by
  have hstored := Blob.first_value hb h
  rw [hvalue] at hstored
  have hbehind := (stored_append.1 hstored).2
  rw [length_cellBytes address hacells, Nat.add_assoc, ← Nat.mul_add] at hbehind
  have hbound := (Blob.first_stored hb h).2.1
  have hspace := hb.inAddressSpace
  have hlength : e.value.length = 4 * (addressCells + sizeCells) := by
    rw [hvalue, List.length_append, length_cellBytes address hacells, length_cellBytes size hscells,
      Nat.mul_add]
  have hwords : e.words = 2 + (e.value.length + 3) / 4 := rfl
  exact ⟨hbehind, by omega⟩

/-- With a node `memory` a number of one cell is read as it is, and one of two cells is not. -/
theorem oldNumber_size (hb : b.InMemory memory) (h : b.first node prop = some e)
    (hvalue : e.value = cellBytes addressCells address ++ cellBytes sizeCells size)
    (hacells : addressCells = 1 ∨ addressCells = 2) (hscells : sizeCells = 1 ∨ sizeCells = 2)
    (hsize : size < 4294967296 ^ sizeCells) :
    oldNumber memory (devicetreeSetup memory b.address before).1 sizeCells
        (e.property.index + 2 + addressCells) =
      if sizeCells = 1 then size else misplaced size := by
  obtain ⟨hstored, hrange⟩ := Blob.size_stored hb h hvalue hacells hscells
  rw [← hb.tree_eq before] at hstored hrange
  rcases hscells with rfl | rfl
  · rw [Nat.pow_one] at hsize
    exact oldNumber_one hstored hsize (by omega)
  · exact oldNumber_two hstored (by omega)

/-- The new detection is right about one cell each. A word that it takes for 64 bits ends up in the
wrong half, and two cells each are not expected. -/
theorem newLength_iff (hb : b.InMemory memory) (before : DeviceTreeType)
    (h : b.first (some memoryAtName) regName = some e)
    (hvalue : e.value = cellBytes addressCells address ++ cellBytes sizeCells size)
    (hacells : addressCells = 1 ∨ addressCells = 2) (hscells : sizeCells = 1 ∨ sizeCells = 2)
    (hsize : size < 4294967296 ^ sizeCells) (hlarge : 1024 ≤ size)
    (hrounds : b.structWords < rounds) :
    ∃ length address', devicetreeGetMemoryNew memory (devicetreeSetup memory b.address before).1
        rounds = .ok (length, address') ∧
      ((if length < 1024 then 256 * 1024 * 1024 else length) = size ↔
        addressCells = 1 ∧ sizeCells = 1 ∨
          addressCells = 2 ∧ sizeCells = 2 ∧ size = 256 * 1024 * 1024) := by
  obtain ⟨hstored, hrange⟩ := Blob.size_stored hb h hvalue hacells hscells
  have hfound := findNodeProp_found hb before (by decide) (by decide) hrounds h
  have hindex := toUint32_index (Blob.first_index_lt hb h)
  have htree := hb.tree_eq before
  have hlength := Blob.first_length hb h
  rw [hvalue, List.length_append, length_cellBytes address hacells, length_cellBytes size hscells]
    at hlength
  rw [← htree] at hstored hrange hlength
  generalize (devicetreeSetup memory b.address before).1 = deviceTree at *
  rw [devicetreeGetMemoryNew, hfound]
  simp only [hindex, Nat.not_lt_zero, if_false, hlength]
  rcases hacells with rfl | rfl
  · rcases hscells with rfl | rfl
    · -- 8 bytes
      rw [Nat.pow_one] at hsize
      have hword : bigAt memory (tree deviceTree) (e.property.index + 2 + 1) = size :=
        bigAt_of_stored hstored hsize (by omega)
      refine ⟨_, _, if_pos rfl, ?_⟩
      rw [hword, if_neg (Nat.not_lt.2 hlarge)]
      exact iff_of_true rfl (Or.inl ⟨rfl, rfl⟩)
    · -- 12 bytes, of which the last word is taken for the size
      have hcells : cellBytes 2 size = bigEndian (size / 4294967296) ++
        bigEndian (size % 4294967296) := rfl
      rw [hcells] at hstored
      have hlow := (stored_append.1 hstored).2
      have hfour : (bigEndian (size / 4294967296)).length = 4 := rfl
      have hplace : tree deviceTree + 4 * (e.property.index + 2 + 1) + 4 =
        tree deviceTree + 4 * (e.property.index + 2 + 2) := by omega
      rw [hfour, hplace] at hlow
      obtain ⟨q, hq, hzero⟩ := bigToLittle64_treeWord hlow (Nat.mod_lt size (by decide)) (by omega)
      refine ⟨_, _, (if_neg (by decide)).trans (if_pos rfl), ?_⟩
      rw [hq]
      refine iff_of_false (fun hsame => ?_) (by omega)
      split at hsame
      · omega
      · have hlowzero : size % 4294967296 = 0 := by omega
        have := hzero.2 hlowzero
        omega
  · rcases hscells with rfl | rfl
    · rw [Nat.pow_one] at hsize
      obtain ⟨q, hq, hzero⟩ := bigToLittle64_treeWord hstored hsize (by omega)
      refine ⟨_, _, (if_neg (by decide)).trans (if_pos rfl), ?_⟩
      rw [hq]
      refine iff_of_false (fun hsame => ?_) (by omega)
      split at hsame
      · have hq0 : q = 0 := by omega
        have := hzero.1 hq0
        omega
      · omega
    · -- 16 bytes are unexpected
      refine ⟨0, 0, (if_neg (by decide)).trans ((if_neg (by decide)).trans (if_neg (by decide))), ?_⟩
      rw [if_pos (by decide)]
      omega

end Sizes

/-- The size of the memory is detected in exactly these cases. -/
theorem devicetreeGetMemory_iff {memory : Nat → UInt8} {b : Blob} (hb : b.InMemory memory)
    (before : DeviceTreeType) {addressCells sizeCells address size : Nat}
    (h : b.HasMemory addressCells sizeCells address size) {rounds : Nat}
    (hrounds : b.structWords < rounds) (stack : Nat × Nat) :
    devicetreeGetMemory memory (devicetreeSetup memory b.address before).1 rounds stack = .ok size ↔
      Detected memory (devicetreeSetup memory b.address before).1 b addressCells sizeCells size := by
  have hacells := h.addressCells_eq
  have hscells := h.sizeCells_eq
  have haddressInt := @devicetreeFindInt_own _ _ before _ hb h.propertiesFirst addressCellsName
    addressCells (by omega) (by decide) h.address_own hrounds
  have hsizeInt := @devicetreeFindInt_own _ _ before _ hb h.propertiesFirst sizeCellsName
    sizeCells (by omega) (by decide) h.size_own hrounds
  obtain ⟨e, hreg, hvalue⟩ := h.reg
  rw [Blob.memoryReg] at hreg
  unfold Detected
  cases hmemory : b.first (some memoryName) regName with
  | some e' =>
      rw [hmemory] at hreg
      obtain rfl := Option.some.inj hreg
      have hfound := findNodeProp_found hb before (by decide) (by decide) hrounds hmemory
      have hold := @devicetreeGetMemoryOld_eq _ _ _ _ _ stack _ _ haddressInt hsizeInt hfound
        (toUint32_index (Blob.first_index_lt hb hmemory)) hacells
      rw [@oldNumber_size _ _ before _ _ _ _ _ _ _ hb hmemory hvalue hacells hscells h.size_lt]
        at hold
      rw [Option.isSome_some, if_pos rfl]
      rcases hscells with rfl | rfl
      · rw [if_pos rfl] at hold
        rw [devicetreeGetMemory_old hold h.size_ge]
        exact iff_of_true rfl (Or.inl rfl)
      · have hsize : size < 18446744073709551616 := h.size_lt
        rw [if_neg (by decide)] at hold
        rw [devicetreeGetMemory_old hold (le_misplaced h.size_ge hsize), Except.ok.injEq,
          misplaced_self_iff hsize]
        exact ⟨Or.inr, fun hor => hor.resolve_left (by decide)⟩
  | none =>
      rw [hmemory] at hreg
      have hat : b.first (some memoryAtName) regName = some e := hreg
      have hfound := findNodeProp_missing hb before (by decide) (by decide) hrounds hmemory
      have hold := @devicetreeGetMemoryOld_eq _ _ _ _ _ stack _ 4294967294 haddressInt hsizeInt
        hfound (by decide) hacells
      -- the old detection has gone on with the beginning of the tree
      rw [oldNumber_around] at hold
      rw [Option.isSome_none, if_neg Bool.false_ne_true]
      by_cases hstray : strayNumber memory (devicetreeSetup memory b.address before).1 addressCells
          sizeCells < 1024
      · obtain ⟨length, address', hnew, hiff⟩ := newLength_iff hb before hat hvalue hacells hscells
          h.size_lt h.size_ge hrounds
        rw [if_pos hstray, devicetreeGetMemory_new hold hstray hnew, Except.ok.injEq, hiff]
      · rw [if_neg hstray, devicetreeGetMemory_old hold (Nat.not_lt.1 hstray), Except.ok.injEq]
        exact eq_comm

/-- A tree with the numbers of cells and one node with a property `reg`. -/
def regBlob (addressCells sizeCells : Nat) (name : CString) (value : List UInt8) : Blob :=
  let contents := Items.prop addressCellsName 0 (bigEndian addressCells)
    (.prop sizeCellsName 15 (bigEndian sizeCells) (.node name (.prop regName 27 value .done) .done))
  { address := 256
    totalsize := 16 + (structBlock [] contents).length + 31
    offStruct := 16
    offStrs := 16 + (structBlock [] contents).length
    strings := addressCellsName ++ 0 :: sizeCellsName ++ 0 :: regName ++ [0]
    rootName := []
    contents := contents }

/-- The bytes of such a tree in a memory that is zero elsewhere. -/
def regMemory (b : Blob) : Nat → UInt8 :=
  memcpy (fun _ => 0) b.address (bigEndian 0xd00dfeed ++ bigEndian b.totalsize ++
    bigEndian b.offStruct ++ bigEndian b.offStrs ++ structBlock b.rootName b.contents ++ b.strings)

/-- 948 megabytes in a node `memory` with one cell each. -/
def oldBlob : Blob := regBlob 1 1 memoryName (cellBytes 1 0 ++ cellBytes 1 0x3b400000)

/-- The same in a node `memory@0` with two cells for the address. -/
def newBlob : Blob := regBlob 2 1 memoryAtName (cellBytes 2 0 ++ cellBytes 1 0x3b400000)

theorem oldBlob_inMemory : oldBlob.InMemory (regMemory oldBlob) where
  header := by decide +kernel
  struct := by decide +kernel
  strings := by decide +kernel
  structInside := by decide
  stringsInside := by decide
  sizeFits := by decide
  inRange := by decide
  rootName := ⟨by decide, by decide⟩
  contents := ⟨⟨by decide, by decide⟩, by decide, ⟨by decide, by decide⟩, by decide,
    ⟨by decide, by decide⟩, ⟨⟨by decide, by decide⟩, by decide, trivial⟩, trivial⟩

theorem newBlob_inMemory : newBlob.InMemory (regMemory newBlob) where
  header := by decide +kernel
  struct := by decide +kernel
  strings := by decide +kernel
  structInside := by decide
  stringsInside := by decide
  sizeFits := by decide
  inRange := by decide
  rootName := ⟨by decide, by decide⟩
  contents := ⟨⟨by decide, by decide⟩, by decide, ⟨by decide, by decide⟩, by decide,
    ⟨by decide, by decide⟩, ⟨⟨by decide, by decide⟩, by decide, trivial⟩, trivial⟩

theorem oldBlob_hasMemory : oldBlob.HasMemory 1 1 0 0x3b400000 where
  propertiesFirst := trivial
  address_own := rfl
  size_own := rfl
  addressCells_eq := Or.inl rfl
  sizeCells_eq := Or.inl rfl
  reg := ⟨_, rfl, rfl⟩
  address_lt := by decide
  size_lt := by decide
  size_ge := by decide

theorem newBlob_hasMemory : newBlob.HasMemory 2 1 0 0x3b400000 where
  propertiesFirst := trivial
  address_own := rfl
  size_own := rfl
  addressCells_eq := Or.inr rfl
  sizeCells_eq := Or.inl rfl
  reg := ⟨_, rfl, rfl⟩
  address_lt := by decide
  size_lt := by decide
  size_ge := by decide

/-- The old detection reads the size. -/
theorem devicetreeGetMemory_iff_old :
    devicetreeGetMemory (regMemory oldBlob)
      (devicetreeSetup (regMemory oldBlob) 256 ⟨0, 0, 0, 0, 0, 0, 0, 0, 0, 0, 0⟩).1 40 (0, 0) =
      .ok 0x3b400000 :=
  (devicetreeGetMemory_iff oldBlob_inMemory ⟨0, 0, 0, 0, 0, 0, 0, 0, 0, 0, 0⟩ oldBlob_hasMemory
    (by decide) (0, 0)).2 ((if_pos rfl).mpr (Or.inl rfl))

/-- The new detection does not read the size that follows an address of two cells. -/
theorem not_devicetreeGetMemory : ¬ ∀ (memory : Nat → UInt8) (b : Blob), b.InMemory memory →
    ∀ (before : DeviceTreeType) (addressCells sizeCells address size : Nat),
      b.HasMemory addressCells sizeCells address size → ∀ rounds, b.structWords < rounds →
        ∀ stack, devicetreeGetMemory memory (devicetreeSetup memory b.address before).1 rounds
          stack = .ok size := by
  intro hall
  have h := hall (regMemory newBlob) newBlob newBlob_inMemory ⟨0, 0, 0, 0, 0, 0, 0, 0, 0, 0, 0⟩ 2 1 0
    0x3b400000 newBlob_hasMemory 40 (by decide) (0, 0)
  revert h
  decide +kernel

end Vmwos.Devicetree
