import Mathlib.Algebra.Group.Nat.Defs
import Vmwos.Lib.Words
import Vmwos.Library.BlockDigest
import Vmwos.Library.Buffer

/-!
# The digest of md5sum

`MD5_Init`, `MD5_Update`, `MD5_Final` and `body`, with the 64 lines of the transformation. The
lines follow the four rounds of the algorithm (`lines_eq`, `transform_eq`), and a message that is given
in parts of any lengths has the digest of its padded blocks (`md5_parts`).
-/

set_option autoImplicit false

namespace Vmwos

namespace Md5

open Library Library.BlockDigest

/-! ## The transformation -/

def F (x y z : UInt32) : UInt32 := z ^^^ (x &&& (y ^^^ z))
def G (x y z : UInt32) : UInt32 := y ^^^ (z &&& (x ^^^ y))
def H (x y z : UInt32) : UInt32 := (x ^^^ y) ^^^ z
def H2 (x y z : UInt32) : UInt32 := x ^^^ (y ^^^ z)
def I (x y z : UInt32) : UInt32 := y ^^^ (x ||| ~~~z)

/-- The functions that a line names. -/
inductive Mix where
  | F | G | H | H2 | I
  deriving DecidableEq, Repr

def Mix.apply : Mix → UInt32 → UInt32 → UInt32 → UInt32
  | .F => Md5.F
  | .G => Md5.G
  | .H => Md5.H
  | .H2 => Md5.H2
  | .I => Md5.I

/-- The variables that a line names. -/
inductive Variable where
  | a | b | c | d
  deriving DecidableEq, Repr

/-- The four words of the state. -/
structure Words where
  a : UInt32
  b : UInt32
  c : UInt32
  d : UInt32
  deriving DecidableEq, Repr

def Words.get (w : Words) : Variable → UInt32
  | .a => w.a
  | .b => w.b
  | .c => w.c
  | .d => w.d

def Words.set (w : Words) : Variable → UInt32 → Words
  | .a, x => { w with a := x }
  | .b, x => { w with b := x }
  | .c, x => { w with c := x }
  | .d, x => { w with d := x }

def Words.add (v w : Words) : Words := ⟨v.a + w.a, v.b + w.b, v.c + w.c, v.d + w.d⟩

/-- A line of the transformation: `STEP(f, a, b, c, d, GET(n), t, s)`. -/
structure Line where
  f : Mix
  a : Variable
  b : Variable
  c : Variable
  d : Variable
  n : Nat
  t : UInt32
  s : UInt32
  deriving DecidableEq, Repr

/-- Round 1 -/
def round1 : List Line :=
  [⟨.F, .a, .b, .c, .d, 0, 0xd76aa478, 7⟩, ⟨.F, .d, .a, .b, .c, 1, 0xe8c7b756, 12⟩,
    ⟨.F, .c, .d, .a, .b, 2, 0x242070db, 17⟩, ⟨.F, .b, .c, .d, .a, 3, 0xc1bdceee, 22⟩,
    ⟨.F, .a, .b, .c, .d, 4, 0xf57c0faf, 7⟩, ⟨.F, .d, .a, .b, .c, 5, 0x4787c62a, 12⟩,
    ⟨.F, .c, .d, .a, .b, 6, 0xa8304613, 17⟩, ⟨.F, .b, .c, .d, .a, 7, 0xfd469501, 22⟩,
    ⟨.F, .a, .b, .c, .d, 8, 0x698098d8, 7⟩, ⟨.F, .d, .a, .b, .c, 9, 0x8b44f7af, 12⟩,
    ⟨.F, .c, .d, .a, .b, 10, 0xffff5bb1, 17⟩, ⟨.F, .b, .c, .d, .a, 11, 0x895cd7be, 22⟩,
    ⟨.F, .a, .b, .c, .d, 12, 0x6b901122, 7⟩, ⟨.F, .d, .a, .b, .c, 13, 0xfd987193, 12⟩,
    ⟨.F, .c, .d, .a, .b, 14, 0xa679438e, 17⟩, ⟨.F, .b, .c, .d, .a, 15, 0x49b40821, 22⟩]

/-- Round 2 -/
def round2 : List Line :=
  [⟨.G, .a, .b, .c, .d, 1, 0xf61e2562, 5⟩, ⟨.G, .d, .a, .b, .c, 6, 0xc040b340, 9⟩,
    ⟨.G, .c, .d, .a, .b, 11, 0x265e5a51, 14⟩, ⟨.G, .b, .c, .d, .a, 0, 0xe9b6c7aa, 20⟩,
    ⟨.G, .a, .b, .c, .d, 5, 0xd62f105d, 5⟩, ⟨.G, .d, .a, .b, .c, 10, 0x02441453, 9⟩,
    ⟨.G, .c, .d, .a, .b, 15, 0xd8a1e681, 14⟩, ⟨.G, .b, .c, .d, .a, 4, 0xe7d3fbc8, 20⟩,
    ⟨.G, .a, .b, .c, .d, 9, 0x21e1cde6, 5⟩, ⟨.G, .d, .a, .b, .c, 14, 0xc33707d6, 9⟩,
    ⟨.G, .c, .d, .a, .b, 3, 0xf4d50d87, 14⟩, ⟨.G, .b, .c, .d, .a, 8, 0x455a14ed, 20⟩,
    ⟨.G, .a, .b, .c, .d, 13, 0xa9e3e905, 5⟩, ⟨.G, .d, .a, .b, .c, 2, 0xfcefa3f8, 9⟩,
    ⟨.G, .c, .d, .a, .b, 7, 0x676f02d9, 14⟩, ⟨.G, .b, .c, .d, .a, 12, 0x8d2a4c8a, 20⟩]

/-- Round 3 -/
def round3 : List Line :=
  [⟨.H, .a, .b, .c, .d, 5, 0xfffa3942, 4⟩, ⟨.H2, .d, .a, .b, .c, 8, 0x8771f681, 11⟩,
    ⟨.H, .c, .d, .a, .b, 11, 0x6d9d6122, 16⟩, ⟨.H2, .b, .c, .d, .a, 14, 0xfde5380c, 23⟩,
    ⟨.H, .a, .b, .c, .d, 1, 0xa4beea44, 4⟩, ⟨.H2, .d, .a, .b, .c, 4, 0x4bdecfa9, 11⟩,
    ⟨.H, .c, .d, .a, .b, 7, 0xf6bb4b60, 16⟩, ⟨.H2, .b, .c, .d, .a, 10, 0xbebfbc70, 23⟩,
    ⟨.H, .a, .b, .c, .d, 13, 0x289b7ec6, 4⟩, ⟨.H2, .d, .a, .b, .c, 0, 0xeaa127fa, 11⟩,
    ⟨.H, .c, .d, .a, .b, 3, 0xd4ef3085, 16⟩, ⟨.H2, .b, .c, .d, .a, 6, 0x04881d05, 23⟩,
    ⟨.H, .a, .b, .c, .d, 9, 0xd9d4d039, 4⟩, ⟨.H2, .d, .a, .b, .c, 12, 0xe6db99e5, 11⟩,
    ⟨.H, .c, .d, .a, .b, 15, 0x1fa27cf8, 16⟩, ⟨.H2, .b, .c, .d, .a, 2, 0xc4ac5665, 23⟩]

/-- Round 4 -/
def round4 : List Line :=
  [⟨.I, .a, .b, .c, .d, 0, 0xf4292244, 6⟩, ⟨.I, .d, .a, .b, .c, 7, 0x432aff97, 10⟩,
    ⟨.I, .c, .d, .a, .b, 14, 0xab9423a7, 15⟩, ⟨.I, .b, .c, .d, .a, 5, 0xfc93a039, 21⟩,
    ⟨.I, .a, .b, .c, .d, 12, 0x655b59c3, 6⟩, ⟨.I, .d, .a, .b, .c, 3, 0x8f0ccc92, 10⟩,
    ⟨.I, .c, .d, .a, .b, 10, 0xffeff47d, 15⟩, ⟨.I, .b, .c, .d, .a, 1, 0x85845dd1, 21⟩,
    ⟨.I, .a, .b, .c, .d, 8, 0x6fa87e4f, 6⟩, ⟨.I, .d, .a, .b, .c, 15, 0xfe2ce6e0, 10⟩,
    ⟨.I, .c, .d, .a, .b, 6, 0xa3014314, 15⟩, ⟨.I, .b, .c, .d, .a, 13, 0x4e0811a1, 21⟩,
    ⟨.I, .a, .b, .c, .d, 4, 0xf7537e82, 6⟩, ⟨.I, .d, .a, .b, .c, 11, 0xbd3af235, 10⟩,
    ⟨.I, .c, .d, .a, .b, 2, 0x2ad7d2bb, 15⟩, ⟨.I, .b, .c, .d, .a, 9, 0xeb86d391, 21⟩]

def lines : List Line := round1 ++ round2 ++ round3 ++ round4

/-- `STEP` -/
def Line.exec (block : Nat → UInt32) (w : Words) (l : Line) : Words :=
  let a := w.get l.a + (l.f.apply (w.get l.b) (w.get l.c) (w.get l.d) + block l.n + l.t)
  let a := (a <<< l.s) ||| ((a &&& 0xffffffff) >>> (32 - l.s))
  w.set l.a (a + w.get l.b)

/-- `SET(n)`, for the 64 bytes at `ptr` -/
def setWord (ptr : List UInt8) (n : Nat) : UInt32 :=
  (ptr.getD (n * 4) 0).toUInt32 ||| (ptr.getD (n * 4 + 1) 0).toUInt32 <<< 8 |||
    (ptr.getD (n * 4 + 2) 0).toUInt32 <<< 16 ||| (ptr.getD (n * 4 + 3) 0).toUInt32 <<< 24

/-- What `body` makes of one block. -/
def transform (saved : Words) (ptr : List UInt8) : Words :=
  (lines.foldl (Line.exec (setWord ptr)) saved).add saved

/-! ## The context -/

structure Context where
  lo : UInt32
  hi : UInt32
  words : Words
  buffer : List UInt8
  deriving DecidableEq, Repr

/-- The loop of `body`: the words, and what is behind the blocks. -/
def bodyLoop : (fuel : Nat) → Words → (ptr : List UInt8) → (size : UInt32) →
    Option (Words × List UInt8)
  | 0, _, _, _ => none
  | fuel + 1, w, ptr, size =>
      if ptr.length < 64 then none
      else
        let w := transform w (ptr.take 64)
        let size := size - 64
        if size ≠ 0 then bodyLoop fuel w (ptr.drop 64) size else some (w, ptr.drop 64)

/-- `body` -/
def body (ctx : Context) (data : List UInt8) (size : UInt32) : Option (Context × List UInt8) := do
  let (words, ptr) ← bodyLoop 67108864 ctx.words data size
  return ({ ctx with words }, ptr)

/-- `MD5_Init`: the buffer is as it was. -/
def init (buffer : List UInt8) : Context where
  lo := 0
  hi := 0
  words := ⟨0x67452301, 0xefcdab89, 0x98badcfe, 0x10325476⟩
  buffer := buffer

/-- The part of `MD5_Update` behind the buffer that was begun before. -/
def updateTail (ctx : Context) (data : List UInt8) (size : UInt32) : Option Context := do
  let (ctx, data, size) ←
    if 64 ≤ size then (body ctx data (size &&& ~~~0x3f)).map fun r => (r.1, r.2, size &&& 0x3f)
    else some (ctx, data, size)
  let buffer ← Buffer.store ctx.buffer 0 (data.take size.toNat)
  return { ctx with buffer }

/-- The part of `MD5_Update` behind the counters. -/
def updateBuffer (ctx : Context) (used : UInt32) (data : List UInt8) (size : UInt32) :
    Option Context := do
  if used ≠ 0 then
    let available := 64 - used
    if size < available then
      let buffer ← Buffer.store ctx.buffer used.toNat (data.take size.toNat)
      return { ctx with buffer }
    else
      let buffer ← Buffer.store ctx.buffer used.toNat (data.take available.toNat)
      let (ctx, _) ← body { ctx with buffer } buffer 64
      updateTail ctx (data.drop available.toNat) (size - available)
  else updateTail ctx data size

/-- `MD5_Update` -/
def update (ctx : Context) (data : List UInt8) : Option Context :=
  let size := UInt32.ofNat data.length
  let savedLo := ctx.lo
  let lo := (savedLo + size) &&& 0x1fffffff
  let hi := if lo < savedLo then ctx.hi + 1 else ctx.hi
  updateBuffer { ctx with lo, hi := hi + size >>> 29 } (savedLo &&& 0x3f) data size

/-- `OUT` -/
def out (src : UInt32) : List UInt8 :=
  [src.toUInt8, (src >>> 8).toUInt8, (src >>> 16).toUInt8, (src >>> 24).toUInt8]

/-- The part of `MD5_Final` that takes a block in which there is no room for the length. -/
def makeRoom (ctx : Context) (used available : UInt32) : Option (Context × UInt32 × UInt32) := do
  if available < 8 then
    let buffer ← Buffer.store ctx.buffer used.toNat (List.replicate available.toNat 0)
    let (ctx, _) ← body { ctx with buffer } buffer 64
    return (ctx, 0, 64)
  else
    return (ctx, used, available)

/-- The part of `MD5_Final` that takes the block with the length. -/
def takeLength (ctx : Context) (used available : UInt32) : Option (List UInt8) := do
  let buffer ← Buffer.store ctx.buffer used.toNat (List.replicate (available - 8).toNat 0)
  let buffer ← Buffer.store buffer 56 (out (ctx.lo <<< 3))
  let buffer ← Buffer.store buffer 60 (out ctx.hi)
  let (ctx, _) ← body { ctx with buffer } buffer 64
  return out ctx.words.a ++ out ctx.words.b ++ out ctx.words.c ++ out ctx.words.d

/-- `MD5_Final`: the digest. -/
def final (ctx : Context) : Option (List UInt8) := do
  let used := ctx.lo &&& 0x3f
  let buffer ← Buffer.store ctx.buffer used.toNat [0x80]
  let used := used + 1
  let (ctx, used, available) ← makeRoom { ctx with buffer } used (64 - used)
  takeLength ctx used available

/-- The calls of `main` for a file that is read in parts. -/
def md5 (buffer : List UInt8) (parts : List (List UInt8)) : Option (List UInt8) := do
  let ctx ← parts.foldlM update (init buffer)
  final ctx

/-! ## The algorithm -/

/-- The functions of the four rounds. -/
def mix (round : Nat) (x y z : UInt32) : UInt32 :=
  match round with
  | 0 => (x &&& y) ||| (~~~x &&& z)
  | 1 => (x &&& z) ||| (y &&& ~~~z)
  | 2 => x ^^^ y ^^^ z
  | _ => y ^^^ (x ||| ~~~z)

/-- Which word of the block an operation takes. -/
def index (i : Nat) : Nat :=
  match i / 16 with
  | 0 => i
  | 1 => (5 * i + 1) % 16
  | 2 => (3 * i + 5) % 16
  | _ => 7 * i % 16

/-- By how many bits an operation rotates. -/
def shift (i : Nat) : UInt32 :=
  (([[7, 12, 17, 22], [5, 9, 14, 20], [4, 11, 16, 23], [6, 10, 15, 21]] : List (List UInt32)).getD
    (i / 16) []).getD (i % 4) 0

/-- The constant of an operation. -/
def constant (i : Nat) : UInt32 := (lines.map Line.t).getD i 0

def rotateLeft (x s : UInt32) : UInt32 := (x <<< s) ||| (x >>> (32 - s))

/-- One of the 64 operations. -/
def operation (block : Nat → UInt32) (w : Words) (i : Nat) : Words where
  a := w.d
  b := w.b + rotateLeft (w.a + mix (i / 16) w.b w.c w.d + block (index i) + constant i) (shift i)
  c := w.b
  d := w.c

/-- What a block makes of the four words. -/
def compress (w : Words) (block : List UInt8) : Words :=
  ((List.range 64).foldl (operation (setWord block)) w).add w

/-- The message with a one bit, zero bits and its length in bits. -/
def padded (message : List UInt8) : List UInt8 :=
  message ++ 0x80 :: List.replicate ((119 - message.length % 64) % 64) 0 ++
    (List.range 8).map fun i => UInt8.ofNat (8 * message.length / 256 ^ i)

def digest (message : List UInt8) : List UInt8 :=
  let w := absorb compress 64 ((padded message).length / 64) (init []).words (padded message)
  out w.a ++ out w.b ++ out w.c ++ out w.d

/-! ## The lines are the operations -/

/-- Which variables play the four parts in an operation. -/
def Line.names (i : Nat) : Variable × Variable × Variable × Variable :=
  match i % 4 with
  | 0 => (.a, .b, .c, .d)
  | 1 => (.d, .a, .b, .c)
  | 2 => (.c, .d, .a, .b)
  | _ => (.b, .c, .d, .a)

/-- The line of an operation. -/
def lineAt (i : Nat) : Line where
  f :=
    match i / 16 with
    | 0 => .F
    | 1 => .G
    | 2 => if i % 2 = 0 then .H else .H2
    | _ => .I
  a := (Line.names i).1
  b := (Line.names i).2.1
  c := (Line.names i).2.2.1
  d := (Line.names i).2.2.2
  n := index i
  t := constant i
  s := shift i

/-- The words as an operation sees them. -/
def Words.seen (w : Words) (i : Nat) : Words where
  a := w.get (Line.names i).1
  b := w.get (Line.names i).2.1
  c := w.get (Line.names i).2.2.1
  d := w.get (Line.names i).2.2.2

theorem lines_eq : lines = (List.range 64).map lineAt := by decide

theorem F_eq (x y z : UInt32) : F x y z = (x &&& y) ||| (~~~x &&& z) := by
  rw [F, ← UInt32.toBitVec_inj]
  simp only [UInt32.toBitVec_xor, UInt32.toBitVec_and, UInt32.toBitVec_or, UInt32.toBitVec_not]
  ext i hi
  simp only [BitVec.getElem_xor, BitVec.getElem_and, BitVec.getElem_or, BitVec.getElem_not]
  cases x.toBitVec[i] <;> cases y.toBitVec[i] <;> cases z.toBitVec[i] <;> rfl

theorem G_eq (x y z : UInt32) : G x y z = (x &&& z) ||| (y &&& ~~~z) := by
  rw [G, ← UInt32.toBitVec_inj]
  simp only [UInt32.toBitVec_xor, UInt32.toBitVec_and, UInt32.toBitVec_or, UInt32.toBitVec_not]
  ext i hi
  simp only [BitVec.getElem_xor, BitVec.getElem_and, BitVec.getElem_or, BitVec.getElem_not]
  cases x.toBitVec[i] <;> cases y.toBitVec[i] <;> cases z.toBitVec[i] <;> rfl

theorem apply_lineAt (i : Nat) (x y z : UInt32) : (lineAt i).f.apply x y z = mix (i / 16) x y z := by
  rw [lineAt]
  dsimp only
  rcases i / 16 with _ | _ | _ | round
  · exact F_eq x y z
  · exact G_eq x y z
  · by_cases heven : i % 2 = 0
    · rw [if_pos heven]
      rfl
    · rw [if_neg heven]
      exact (UInt32.xor_assoc x y z).symm
  · rfl

theorem and_full (x : UInt32) : x &&& 0xffffffff = x := by
  rw [← UInt32.toNat_inj, UInt32.toNat_and]
  exact (Nat.and_two_pow_sub_one_eq_mod x.toNat 32).trans (Nat.mod_eq_of_lt x.toNat_lt)

/-- A line does in its variables what the operation does, which moves the words round. -/
theorem exec_lineAt (block : Nat → UInt32) (w : Words) (i : Nat) :
    (Line.exec block w (lineAt i)).seen (i + 1) = operation block (w.seen i) i := by
  have hexec : Line.exec block w (lineAt i) = w.set (Line.names i).1
      (rotateLeft ((w.seen i).a + mix (i / 16) (w.seen i).b (w.seen i).c (w.seen i).d +
        block (index i) + constant i) (shift i) + (w.seen i).b) := by
    rw [Line.exec, apply_lineAt, and_full, ← UInt32.add_assoc, ← UInt32.add_assoc]
    rfl
  rw [hexec, operation, UInt32.add_comm]
  generalize (w.seen i).b + rotateLeft _ _ = x
  have hmod : i % 4 = 0 ∨ i % 4 = 1 ∨ i % 4 = 2 ∨ i % 4 = 3 := by omega
  rcases hmod with h | h | h | h
  · have hnext : (i + 1) % 4 = 1 := by omega
    simp only [Words.seen, Line.names, h, hnext, Words.get, Words.set]
  · have hnext : (i + 1) % 4 = 2 := by omega
    simp only [Words.seen, Line.names, h, hnext, Words.get, Words.set]
  · have hnext : (i + 1) % 4 = 3 := by omega
    simp only [Words.seen, Line.names, h, hnext, Words.get, Words.set]
  · have hnext : (i + 1) % 4 = 0 := by omega
    simp only [Words.seen, Line.names, h, hnext, Words.get, Words.set]

theorem foldl_lineAt (block : Nat → UInt32) (w : Words) (k : Nat) :
    (((List.range k).map lineAt).foldl (Line.exec block) w).seen k =
      (List.range k).foldl (operation block) w := by
  induction k with
  | zero => rfl
  | succ k ih =>
      rw [List.range_succ, List.map_append, List.foldl_append, List.foldl_append, List.map_singleton,
        List.foldl_cons, List.foldl_nil, List.foldl_cons, List.foldl_nil, exec_lineAt, ih]

theorem transform_eq (saved : Words) (ptr : List UInt8) : transform saved ptr = compress saved ptr := by
  have hseen (w : Words) : w.seen 64 = w := rfl
  have hfold := foldl_lineAt (setWord ptr) saved 64
  rw [hseen] at hfold
  rw [transform, compress, lines_eq, hfold]

/-! ## Sizes and counters -/

theorem toNat_and_block (size : UInt32) : (size &&& 0x3f).toNat = size.toNat % 64 := by
  rw [UInt32.toNat_and]
  exact Nat.and_two_pow_sub_one_eq_mod size.toNat 6

theorem toNat_and_not_block (size : UInt32) : (size &&& ~~~0x3f).toNat = 64 * (size.toNat / 64) := by
  have hmask : ∀ i : Fin 32, (~~~(0x3f#32))[i] = decide (6 ≤ i.val) := by decide
  have hshift : size.toBitVec &&& ~~~(0x3f#32) = size.toBitVec >>> 6 <<< 6 := by
    ext i hi
    rw [BitVec.getElem_and, BitVec.getElem_shiftLeft]
    have hbit := hmask ⟨i, hi⟩
    rw [Fin.getElem_fin] at hbit
    rw [hbit]
    by_cases h6 : 6 ≤ i
    · rw [decide_eq_true h6, Bool.and_true, decide_eq_false (Nat.not_lt.2 h6), Bool.not_false,
        Bool.true_and, BitVec.getElem_ushiftRight, Nat.add_sub_cancel' h6]
      rfl
    · rw [decide_eq_false h6, Bool.and_false, decide_eq_true (Nat.lt_of_not_le h6), Bool.not_true,
        Bool.false_and]
  calc (size &&& ~~~0x3f).toNat = (size.toBitVec >>> 6 <<< 6).toNat := congrArg BitVec.toNat hshift
    _ = 64 * (size.toNat / 64) := by
        rw [BitVec.toNat_shiftLeft, BitVec.toNat_ushiftRight, Nat.shiftRight_eq_div_pow,
          Nat.shiftLeft_eq, UInt32.toNat_toBitVec]
        have hlt := size.toNat_lt
        omega

/-- The two words count the bytes: 29 bits in `lo`, and 32 in `hi`. -/
structure Counts (ctx : Context) (length : Nat) : Prop where
  lo : ctx.lo.toNat = length % 536870912
  hi : ctx.hi.toNat = length / 536870912 % 4294967296

theorem Counts.add {ctx : Context} {length n : Nat} (h : Counts ctx length) (hn : n < 4294967296)
    {lo : UInt32} (hlo : lo = (ctx.lo + UInt32.ofNat n) &&& 0x1fffffff) (words : Words)
    (buffer : List UInt8) :
    Counts ⟨lo, (if lo < ctx.lo then ctx.hi + 1 else ctx.hi) + UInt32.ofNat n >>> 29, words, buffer⟩
      (length + n) := by
  have hsize : (UInt32.ofNat n).toNat = n := UInt32.toNat_ofNat_of_lt' hn
  have hsum : lo.toNat = (length + n) % 536870912 := by
    rw [hlo, UInt32.toNat_and, UInt32.toNat_add, h.lo, hsize]
    have hmod := Nat.and_two_pow_sub_one_eq_mod ((length % 536870912 + n) % 4294967296) 29
    refine hmod.trans ?_
    omega
  refine ⟨hsum, ?_⟩
  have hshift : (UInt32.ofNat n >>> 29).toNat = n / 536870912 := by
    rw [UInt32.toNat_shiftRight, hsize, Nat.shiftRight_eq_div_pow]
    rfl
  have hcarry : lo < ctx.lo ↔ 536870912 ≤ length % 536870912 + n % 536870912 := by
    rw [UInt32.lt_iff_toNat_lt, hsum, h.lo]
    omega
  dsimp only
  by_cases hlt : lo < ctx.lo
  · have hle := hcarry.1 hlt
    rw [if_pos hlt, UInt32.toNat_add, UInt32.toNat_add, h.hi, hshift, UInt32.toNat_one]
    omega
  · have hle := mt hcarry.2 hlt
    rw [if_neg hlt, UInt32.toNat_add, h.hi, hshift]
    omega

/-! ## Parts of the message -/

section Parts

variable {ctx : Context} {message data : List UInt8}

theorem bodyLoop_eq {fuel k : Nat} (w : Words) {blocks behind : List UInt8} {size : UInt32}
    (hblocks : blocks.length = 64 * k) (hsize : size.toNat = 64 * k) (hk : 0 < k) (hfuel : k ≤ fuel) :
    bodyLoop fuel w (blocks ++ behind) size = some (absorb compress 64 k w blocks, behind) := by
  induction fuel generalizing k w blocks size with
  | zero => omega
  | succ fuel ih =>
      obtain ⟨k, rfl⟩ : ∃ j, k = j + 1 := ⟨k - 1, by omega⟩
      have hlong : 64 ≤ blocks.length := by omega
      have hdrop : (blocks.drop 64).length = 64 * k := by rw [List.length_drop]; omega
      have hsub : (size - 64).toNat = 64 * k := by
        rw [UInt32.toNat_sub_of_le _ _ (UInt32.le_iff_toNat_le.2 (by rw [hsize]; exact Nat.le_add_left _ _)),
          hsize]
        exact Nat.add_sub_cancel (64 * k) 64
      rw [bodyLoop, if_neg (by rw [List.length_append]; omega), List.take_append_of_le_length hlong,
        List.drop_append_of_le_length hlong, transform_eq, absorb]
      dsimp only
      by_cases hlast : k = 0
      · subst hlast
        have hzero : size - 64 = 0 := UInt32.toNat_inj.1 hsub
        rw [if_neg (not_not.2 hzero), List.eq_nil_of_length_eq_zero hdrop, List.nil_append, absorb]
      · have hmore : size - 64 ≠ 0 := fun hzero => by
          rw [hzero, UInt32.toNat_zero] at hsub
          omega
        rw [if_pos hmore, ih _ hdrop hsub (by omega) (by omega)]

theorem body_eq {k : Nat} {blocks behind : List UInt8} {size : UInt32}
    (hblocks : blocks.length = 64 * k) (hsize : size.toNat = 64 * k) (hk : 0 < k) :
    body ctx (blocks ++ behind) size =
      some ({ ctx with words := absorb compress 64 k ctx.words blocks }, behind) := by
  have hfuel : k ≤ 67108864 := by
    have hlt := size.toNat_lt
    omega
  rw [body, bodyLoop_eq ctx.words hblocks hsize hk hfuel]
  rfl

theorem body_block {block : List UInt8} (hblock : block.length = 64) :
    body ctx block 64 = some ({ ctx with words := compress ctx.words block }, []) := by
  have h := @body_eq ctx 1 block [] 64 hblock rfl Nat.one_pos
  rwa [List.append_nil, absorb_one hblock] at h

/-- The buffer begins with what has been kept of the message, and the words stand for the blocks
before. -/
structure Keeps (ctx : Context) (message : List UInt8) : Prop where
  length : ctx.buffer.length = 64
  held : ∃ rest junk, ctx.buffer = rest ++ junk ∧
    Held compress 64 (init []).words message ctx.words rest

theorem updateTail_keeps (hlength : ctx.buffer.length = 64)
    (hheld : Held compress 64 (init []).words message ctx.words []) {size : UInt32}
    (hsize : size.toNat = data.length) :
    ∃ words buffer, updateTail ctx data size = some { ctx with words, buffer } ∧
      Keeps { ctx with words, buffer } (message ++ data) := by
  -- what is left behind the blocks goes to the front of the buffer
  have hstore (words : Words) {before rest : List UInt8} (hshort : rest.length < 64)
      (hbefore : Held compress 64 (init []).words before words []) :
      ∃ buffer, Buffer.store ctx.buffer 0 rest = some buffer ∧
        Keeps { ctx with words, buffer } (before ++ rest) := by
    refine ⟨_, Buffer.store_over [] ctx.buffer rest (by omega), ?_, rest, _, rfl, ?_⟩
    · simp only [List.nil_append, List.length_append, List.length_drop]
      omega
    · exact hbefore.keep (by rwa [List.length_nil, Nat.zero_add])
  rw [updateTail]
  by_cases hblocks : 64 ≤ size
  · have hle : 64 ≤ data.length := hsize ▸ UInt32.le_iff_toNat_le.1 hblocks
    obtain ⟨k, hk⟩ : ∃ k, k = data.length / 64 := ⟨_, rfl⟩
    have hlen : (data.take (64 * k)).length = 64 * k := by
      rw [List.length_take]
      omega
    have hmask : (size &&& ~~~0x3f).toNat = 64 * k := by rw [toNat_and_not_block, hsize, hk]
    have hrest : (data.drop (64 * k)).length = (size &&& 0x3f).toNat := by
      rw [toNat_and_block, List.length_drop, hsize]
      omega
    have hshort : (data.drop (64 * k)).length < 64 := by
      rw [List.length_drop]
      omega
    have hbody := @body_eq ctx k (data.take (64 * k)) (data.drop (64 * k)) _ hlen hmask (by omega)
    rw [List.take_append_drop] at hbody
    obtain ⟨buffer, hbuffer, hkeeps⟩ := hstore _ hshort (hheld.blocks hlen)
    rw [List.append_assoc, List.take_append_drop] at hkeeps
    refine ⟨_, buffer, ?_, hkeeps⟩
    rw [if_pos hblocks, hbody]
    dsimp only [Option.map_some, Option.bind_eq_bind, Option.bind_some]
    rw [← hrest, List.take_length, hbuffer]
    rfl
  · have hshort : data.length < 64 := by
      rw [UInt32.le_iff_toNat_le, hsize] at hblocks
      exact Nat.lt_of_not_le hblocks
    obtain ⟨buffer, hbuffer, hkeeps⟩ := hstore _ hshort hheld
    refine ⟨_, buffer, ?_, hkeeps⟩
    rw [if_neg hblocks]
    dsimp only [Option.bind_eq_bind, Option.bind_some]
    rw [hsize, List.take_length, hbuffer]
    rfl

theorem updateBuffer_keeps (hkeeps : Keeps ctx message) {used size : UInt32}
    (hused : used.toNat = message.length % 64) (hsize : size.toNat = data.length) :
    ∃ words buffer, updateBuffer ctx used data size = some { ctx with words, buffer } ∧
      Keeps { ctx with words, buffer } (message ++ data) := by
  obtain ⟨hlength, rest, junk, hbuffer, hheld⟩ := hkeeps
  rw [← hheld.length_rest] at hused
  have hshort := hheld.short
  have hjunk : junk.length = 64 - rest.length := by
    rw [hbuffer, List.length_append] at hlength
    omega
  rw [updateBuffer]
  by_cases hzero : used = 0
  · -- nothing has been kept
    have hnil : rest = [] := by
      rw [hzero] at hused
      exact List.eq_nil_of_length_eq_zero hused.symm
    rw [hnil] at hheld
    rw [if_neg (not_not.2 hzero)]
    exact updateTail_keeps hlength hheld hsize
  · have havailable : (64 - used).toNat = 64 - rest.length := by
      have hle : used ≤ 64 := UInt32.le_iff_toNat_le.2 (by
        rw [hused]
        exact Nat.le_of_lt hshort)
      rw [UInt32.toNat_sub_of_le _ _ hle, hused]
      rfl
    rw [if_pos hzero]
    dsimp only
    by_cases hfew : size < 64 - used
    · -- the data do not fill the block
      rw [UInt32.lt_iff_toNat_lt, havailable, hsize] at hfew
      have hstore := Buffer.store_over rest junk data (by omega)
      rw [← hbuffer] at hstore
      refine ⟨ctx.words, rest ++ data ++ junk.drop data.length, ?_, ?_, rest ++ data, _, rfl,
        hheld.keep (by omega)⟩
      · rw [if_pos (UInt32.lt_iff_toNat_lt.2 (by rwa [havailable, hsize])), hused, hsize,
          List.take_length, hstore]
        rfl
      · simp only [List.length_append, List.length_drop]
        omega
    · rw [UInt32.lt_iff_toNat_lt, havailable, hsize] at hfew
      have htake : (data.take (64 - rest.length)).length = 64 - rest.length := by
        rw [List.length_take]
        omega
      have hstore := Buffer.store_over rest junk (data.take (64 - rest.length)) (by omega)
      rw [← hbuffer, htake, ← hjunk, List.drop_length, List.append_nil, hjunk] at hstore
      have hblock : (rest ++ data.take (64 - rest.length)).length = 64 := by
        rw [List.length_append, htake]
        omega
      have hfull := hheld.fill (by decide) ((@List.length_append _ rest _).symm.trans hblock)
      have hrest : (size - (64 - used)).toNat = (data.drop (64 - rest.length)).length := by
        rw [UInt32.toNat_sub_of_le _ _ (UInt32.le_iff_toNat_le.2 (by omega)), havailable, hsize,
          List.length_drop]
      obtain ⟨words, buffer, htail, hkeeps⟩ := @updateTail_keeps ⟨ctx.lo, ctx.hi, _, _⟩ _ _
        hblock hfull _ hrest
      rw [List.append_assoc, List.take_append_drop] at hkeeps
      refine ⟨words, buffer, ?_, hkeeps⟩
      rw [if_neg (fun hlt => hfew (by rwa [UInt32.lt_iff_toNat_lt, havailable, hsize] at hlt)), hused,
        havailable, hstore]
      dsimp only [Option.bind_eq_bind, Option.bind_some]
      rw [body_block hblock]
      exact htail

/-- `MD5_Update` goes on with the message. -/
theorem update_keeps (hkeeps : Keeps ctx message) (hcounts : Counts ctx message.length)
    (hdata : data.length < 4294967296) :
    ∃ ctx', update ctx data = some ctx' ∧ Keeps ctx' (message ++ data) ∧
      Counts ctx' (message ++ data).length := by
  have hsize : (UInt32.ofNat data.length).toNat = data.length := UInt32.toNat_ofNat_of_lt' hdata
  have hused : (ctx.lo &&& 0x3f).toNat = message.length % 64 := by
    rw [toNat_and_block, hcounts.lo]
    omega
  obtain ⟨words, buffer, heq, hkeeps'⟩ := @updateBuffer_keeps
    ⟨(ctx.lo + UInt32.ofNat data.length) &&& 0x1fffffff,
      (if (ctx.lo + UInt32.ofNat data.length) &&& 0x1fffffff < ctx.lo then ctx.hi + 1 else ctx.hi) +
        UInt32.ofNat data.length >>> 29, ctx.words, ctx.buffer⟩
    message data ⟨hkeeps.length, hkeeps.held⟩ _ _ hused hsize
  refine ⟨_, heq, hkeeps', ?_⟩
  rw [List.length_append]
  exact hcounts.add hdata rfl words buffer

theorem out_eq (src : UInt32) :
    out src = (List.range 4).map fun i => UInt8.ofNat (src.toNat / 256 ^ i) := by
  have hbyte (w : UInt32) : w.toUInt8 = UInt8.ofNat w.toNat := rfl
  have hshift (s : UInt32) (k : Nat) (hs : 2 ^ (s.toNat % 32) = k) :
      (src >>> s).toUInt8 = UInt8.ofNat (src.toNat / k) := by
    rw [hbyte, UInt32.toNat_shiftRight, Nat.shiftRight_eq_div_pow, hs]
  have hzero : src.toUInt8 = UInt8.ofNat (src.toNat / 1) := by rw [Nat.div_one, hbyte]
  rw [out, hshift 8 256 rfl, hshift 16 65536 rfl, hshift 24 16777216 rfl, hzero]
  rfl

/-- The two counters are the length in bits. -/
theorem out_counts {length : Nat} (h : Counts ctx length) : out (ctx.lo <<< 3) ++ out ctx.hi =
    (List.range 8).map fun i => UInt8.ofNat (8 * length / 256 ^ i) := by
  have hlo : (ctx.lo <<< 3).toNat = 8 * length % 4294967296 := by
    rw [UInt32.toNat_shiftLeft, h.lo, Nat.shiftLeft_eq]
    have hpow : 2 ^ ((3 : UInt32).toNat % 32) = 8 := rfl
    rw [hpow]
    omega
  have hhi : ctx.hi.toNat = 8 * length / 4294967296 % 4294967296 := by
    rw [h.hi]
    omega
  have hbyte {m n : Nat} (hmn : m % 256 = n % 256) : UInt8.ofNat m = UInt8.ofNat n := by
    rw [← UInt8.toNat_inj, UInt8.toNat_ofNat', UInt8.toNat_ofNat']
    exact hmn
  rw [out_eq, out_eq, hlo, hhi]
  have hrange : List.range 8 = List.range 4 ++ (List.range 4).map (4 + ·) := rfl
  rw [hrange, List.map_append, List.map_map]
  congr 1
  · refine List.map_congr_left fun i hi => hbyte ?_
    have hcases : i = 0 ∨ i = 1 ∨ i = 2 ∨ i = 3 := by
      rw [List.mem_range] at hi
      omega
    rcases hcases with rfl | rfl | rfl | rfl <;> omega
  · refine List.map_congr_left fun i hi => hbyte ?_
    have hcases : i = 0 ∨ i = 1 ∨ i = 2 ∨ i = 3 := by
      rw [List.mem_range] at hi
      omega
    dsimp only [Function.comp_apply]
    rcases hcases with rfl | rfl | rfl | rfl <;> omega

/-- The padding has been begun, and what is kept of it leaves room for the length. -/
structure Room (ctx ctx' : Context) (message : List UInt8) (used available : UInt32) : Prop where
  lo : ctx'.lo = ctx.lo
  hi : ctx'.hi = ctx.hi
  length : ctx'.buffer.length = 64
  kept : ∃ rest junk zeros, ctx'.buffer = rest ++ junk ∧ used.toNat = rest.length ∧
    rest.length ≤ 56 ∧ (available - 8).toNat = 56 - rest.length ∧
      zeros + (56 - rest.length) = (119 - message.length % 64) % 64 ∧
        Held compress 64 (init []).words (message ++ 0x80 :: List.replicate zeros 0) ctx'.words rest

theorem makeRoom_room {rest junk : List UInt8} (hbuffer : ctx.buffer = rest ++ [0x80] ++ junk)
    (hlength : ctx.buffer.length = 64)
    (hheld : Held compress 64 (init []).words message ctx.words rest) {used available : UInt32}
    (hused : used.toNat = rest.length + 1) (havailable : available.toNat = 63 - rest.length) :
    ∃ ctx' used' available', makeRoom ctx used available = some (ctx', used', available') ∧
      Room ctx ctx' message used' available' := by
  have hshort := hheld.short
  have hrest := hheld.length_rest
  have height : (8 : UInt32).toNat = 8 := rfl
  have hbegun : (rest ++ [0x80]).length = rest.length + 1 := by
    rw [List.length_append, List.length_singleton]
  have hjunk : junk.length = 63 - rest.length := by
    rw [hbuffer, List.length_append, hbegun] at hlength
    omega
  rw [makeRoom]
  by_cases hfew : available < 8
  · -- zero bytes fill the block
    have hmany : 55 < rest.length := by
      rw [UInt32.lt_iff_toNat_lt, havailable] at hfew
      omega
    have hstore := Buffer.store_over (rest ++ [0x80]) junk (List.replicate (63 - rest.length) 0)
      (Nat.le_of_eq (by rw [List.length_replicate, hjunk]))
    rw [List.length_replicate, ← hjunk, List.drop_length, List.append_nil, hjunk, ← hbuffer, hbegun,
      ← hused, List.append_assoc] at hstore
    have hblock : (rest ++ ([0x80] ++ List.replicate (63 - rest.length) 0)).length = 64 := by
      rw [List.length_append, List.length_append, List.length_replicate, List.length_singleton]
      omega
    have hfull := hheld.fill (by decide) ((@List.length_append _ rest _).symm.trans hblock)
    refine ⟨⟨ctx.lo, ctx.hi, _, rest ++ ([0x80] ++ List.replicate (63 - rest.length) 0)⟩, 0, 64, ?_,
      rfl, rfl, hblock, [], _, 63 - rest.length, rfl, rfl, by decide, rfl, ?_, hfull⟩
    · rw [if_pos hfew, havailable, hstore]
      dsimp only [Option.bind_eq_bind, Option.bind_some]
      rw [body_block hblock]
      rfl
    · rw [List.length_nil]
      omega
  · have hfits : rest.length ≤ 55 := by
      rw [UInt32.lt_iff_toNat_lt, havailable] at hfew
      omega
    have hkeep := @Held.keep _ _ _ _ _ _ _ _ [0x80] hheld (by rw [List.length_singleton]; omega)
    refine ⟨ctx, used, available, if_neg hfew, rfl, rfl, hlength, rest ++ [0x80], junk, 0, hbuffer, ?_,
      ?_, ?_, ?_, hkeep⟩
    · rw [hused, hbegun]
    · rw [hbegun]
      omega
    · rw [UInt32.toNat_sub_of_le _ _ (UInt32.not_lt.1 hfew), havailable, hbegun]
      omega
    · rw [hbegun]
      omega

/-- The length is stored behind the first 56 bytes of the buffer. -/
theorem store_out {before junk : List UInt8} (hbefore : before.length = 56) (hjunk : junk.length = 8)
    (x y : UInt32) : (Buffer.store (before ++ junk) 56 (out x)).bind
      (fun buffer => Buffer.store buffer 60 (out y)) = some (before ++ out x ++ out y) := by
  have hx := Buffer.store_over before junk (out x) (by rw [hjunk]; exact Nat.le_add_left 4 4)
  have hlen : (before ++ out x).length = 60 := by
    rw [List.length_append, hbefore]
    rfl
  have hdrop : (junk.drop (out x).length).length = 4 := by
    rw [List.length_drop, hjunk]
    rfl
  have hy := Buffer.store_over (before ++ out x) (junk.drop (out x).length) (out y)
    (Nat.le_of_eq hdrop.symm)
  have hnil : (junk.drop (out x).length).drop (out y).length = [] :=
    List.drop_eq_nil_of_le (Nat.le_of_eq hdrop)
  rw [hbefore] at hx
  rw [hlen, hnil, List.append_nil] at hy
  rw [hx, Option.bind_some, hy]

theorem takeLength_eq {ctx' : Context} {used available : UInt32} (hcounts : Counts ctx message.length)
    (hroom : Room ctx ctx' message used available) :
    takeLength ctx' used available = some (digest message) := by
  obtain ⟨hlo, hhi, hlength, rest, junk, zeros, hbuffer, hused, hle, havailable, hzeros, hheld⟩ := hroom
  have hjunk : junk.length = 64 - rest.length := by
    rw [hbuffer, List.length_append] at hlength
    omega
  have hpad := Buffer.store_over rest junk (List.replicate (56 - rest.length) (0 : UInt8))
    (by rw [List.length_replicate]; omega)
  rw [← hbuffer, List.length_replicate, ← hused, hused] at hpad
  have hbefore : (rest ++ List.replicate (56 - rest.length) (0 : UInt8)).length = 56 := by
    rw [List.length_append, List.length_replicate]
    omega
  have hbehind : (junk.drop (56 - rest.length)).length = 8 := by
    rw [List.length_drop]
    omega
  have hout := store_out hbefore hbehind (ctx'.lo <<< 3) ctx'.hi
  -- the last block
  have hblock : (rest ++ List.replicate (56 - rest.length) (0 : UInt8) ++ out (ctx'.lo <<< 3) ++
      out ctx'.hi).length = 64 := by
    rw [List.length_append, List.length_append, hbefore]
    rfl
  have hfull := @Held.fill _ _ _ _ _ _ _ _ (List.replicate (56 - rest.length) (0 : UInt8) ++
    (out (ctx'.lo <<< 3) ++ out ctx'.hi)) hheld (by decide) (by
      rw [← List.length_append, ← List.append_assoc, ← List.append_assoc, hblock])
  -- the whole padded message has been taken
  have hwhole : message ++ 0x80 :: List.replicate zeros (0 : UInt8) ++ (List.replicate (56 - rest.length) (0 : UInt8) ++
      (out (ctx'.lo <<< 3) ++ out ctx'.hi)) = padded message := by
    rw [padded, hlo, hhi, out_counts hcounts, ← hzeros, ← List.replicate_append_replicate]
    simp only [List.append_assoc, List.cons_append]
  rw [hwhole, ← List.append_assoc, ← List.append_assoc] at hfull
  rw [takeLength, hused, havailable, hpad, digest, ← hfull.eq_absorb]
  dsimp only [Option.bind_eq_bind, Option.bind_some]
  rw [← Option.bind_assoc, hout]
  dsimp only [Option.bind_some]
  rw [body_block hblock]
  rfl

theorem final_eq (hkeeps : Keeps ctx message) (hcounts : Counts ctx message.length) :
    final ctx = some (digest message) := by
  obtain ⟨hlength, rest, junk, hbuffer, hheld⟩ := hkeeps
  have hshort := hheld.short
  have hjunk : junk.length = 64 - rest.length := by
    rw [hbuffer, List.length_append] at hlength
    omega
  have hused : (ctx.lo &&& 0x3f).toNat = rest.length := by
    rw [toNat_and_block, hcounts.lo, hheld.length_rest]
    omega
  have hnext : ((ctx.lo &&& 0x3f) + 1).toNat = rest.length + 1 := by
    rw [UInt32.toNat_add, hused, UInt32.toNat_one]
    omega
  have havailable : (64 - ((ctx.lo &&& 0x3f) + 1)).toNat = 63 - rest.length := by
    have h64 : (64 : UInt32).toNat = 64 := rfl
    rw [UInt32.toNat_sub_of_le _ _ (UInt32.le_iff_toNat_le.2 (by omega)), hnext, h64]
    omega
  have hbit : Buffer.store ctx.buffer rest.length [0x80] = some (rest ++ [0x80] ++ junk.drop 1) := by
    rw [hbuffer]
    exact Buffer.store_over rest junk [0x80] (by rw [List.length_singleton]; omega)
  have hlength' : (rest ++ [0x80] ++ junk.drop 1).length = 64 := by
    simp only [List.length_append, List.length_drop, List.length_singleton]
    omega
  obtain ⟨ctx', used, available, hroom, hroom'⟩ := @makeRoom_room
    ⟨ctx.lo, ctx.hi, ctx.words, rest ++ [0x80] ++ junk.drop 1⟩ message rest _ rfl hlength'
    hheld _ _ hnext havailable
  rw [final]
  dsimp only
  rw [hused, hbit]
  dsimp only [Option.bind_eq_bind, Option.bind_some]
  rw [hroom]
  exact @takeLength_eq ⟨ctx.lo, ctx.hi, ctx.words, rest ++ [0x80] ++ junk.drop 1⟩ message ctx' used
    available ⟨hcounts.lo, hcounts.hi⟩ hroom'

theorem foldlM_update {parts : List (List UInt8)} (hkeeps : Keeps ctx message)
    (hcounts : Counts ctx message.length) (hparts : ∀ part ∈ parts, part.length < 4294967296) :
    ∃ ctx', parts.foldlM update ctx = some ctx' ∧ Keeps ctx' (message ++ parts.flatten) ∧
      Counts ctx' (message ++ parts.flatten).length := by
  induction parts generalizing ctx message with
  | nil =>
      rw [List.flatten_nil, List.append_nil]
      exact ⟨ctx, rfl, hkeeps, hcounts⟩
  | cons part parts ih =>
      obtain ⟨ctx', hupdate, hkeeps', hcounts'⟩ :=
        update_keeps hkeeps hcounts (hparts part List.mem_cons_self)
      obtain ⟨ctx'', hfold, hend⟩ :=
        ih hkeeps' hcounts' fun p hp => hparts p (List.mem_cons_of_mem part hp)
      refine ⟨ctx'', ?_, ?_⟩
      · rw [List.foldlM_cons, hupdate]
        exact hfold
      · rwa [List.flatten_cons, ← List.append_assoc]

/-- The digest does not depend on how the message is divided, nor on what was in the buffer: it is
that of the padded blocks. -/
theorem md5_parts {buffer : List UInt8} (hbuffer : buffer.length = 64) {parts : List (List UInt8)}
    (hparts : ∀ part ∈ parts, part.length < 4294967296) :
    md5 buffer parts = some (digest parts.flatten) := by
  have hkeeps : Keeps (init buffer) [] := ⟨hbuffer, [], buffer, rfl, Held.nil (by decide)⟩
  obtain ⟨ctx', hfold, hkeeps', hcounts'⟩ := foldlM_update hkeeps ⟨rfl, rfl⟩ hparts
  rw [List.nil_append] at hkeeps' hcounts'
  rw [md5, hfold]
  exact final_eq hkeeps' hcounts'

theorem md5_parts_abc : md5 (List.replicate 64 7) [[0x61], [0x62, 0x63]] =
    some (digest [0x61, 0x62, 0x63]) :=
  md5_parts (by decide) (by decide)

example : digest [0x61, 0x62, 0x63] = [144, 1, 80, 152, 60, 210, 79, 176, 214, 150, 63, 125, 40, 225,
    127, 114] := by decide +kernel

end Parts

end Md5

end Vmwos
