import Vmwos.Library.AddressSpace

/-!
# Filling and copying memory

`memset_byte`, `memset_4byte`, `memcpy`, `memcpy_4byte` and `memmove`, over a memory with addresses
of 32 bits, in the unsigned arithmetic of the kernel. A word is accessed at an address that is a
multiple of 4.

`memmove` is right for all regions that do not wrap around, `memmove_copies`. The variants that go
by words are not: `word_variants_agree_iff` says for which addresses and lengths they do what the
loops over bytes do.
-/

set_option autoImplicit false

namespace Vmwos

open Library

/-! ## `memset` -/

/-- `memset_byte` -/
def memsetByte (memory : Memory) (s c n : UInt32) : Memory :=
  countUp (fun i m => Memory.store m (s + UInt32.ofNat i) c.toUInt8) n.toNat memory

/-- Four copies of the low byte. -/
def bytePattern (c : UInt32) : UInt32 :=
  let pattern := c &&& 0xff
  pattern ||| pattern <<< 8 ||| pattern <<< 16 ||| pattern <<< 24

/-- The chunks of `memset_4byte`, from `b` on. -/
def memsetChunks (memory : Memory) (b c count : UInt32) : Memory :=
  countUp (fun i m => Memory.storeWord m (b + UInt32.ofNat (4 * i)) (bytePattern c))
    (count / 4).toNat memory

/-- `memset_4byte` -/
def memset4byte (memory : Memory) (s c n : UInt32) : Memory :=
  let offset := s % 4
  let memory :=
    if offset ≠ 0 then
      let memory := countUp (fun i m => Memory.store m (s + UInt32.ofNat i) c.toUInt8)
        (4 - offset).toNat memory
      memsetChunks memory (s + (4 - offset)) c (n - 1)
    else memsetChunks memory s c n
  countUp (fun i m => Memory.store m (s + (n - offset + UInt32.ofNat i)) c.toUInt8) offset.toNat
    memory

/-! ## `memcpy` and `memmove` -/

/-- `memcpy`: what it returns and the memory. -/
def memcpyByte (memory : Memory) (dest src n : UInt32) : UInt32 × Memory :=
  (dest, countUp (fun i m =>
    Memory.store m (dest + UInt32.ofNat i) (m (src + UInt32.ofNat i))) n.toNat memory)

/-- `memcpy_4byte` -/
def memcpy4byte (memory : Memory) (dest src n : UInt32) : UInt32 × Memory :=
  let tail := n % 4
  let memory := countUp (fun i m => Memory.storeWord m (dest + UInt32.ofNat (4 * i))
    (Memory.loadWord m (src + UInt32.ofNat (4 * i)))) ((n - tail) / 4).toNat memory
  (dest, countUp (fun i m =>
    Memory.store m (dest + UInt32.ofNat i) (m (src + UInt32.ofNat i))) tail.toNat memory)

/-- The rounds of the loop that goes backwards: its index is an `int`, which `n-1` may make
negative. -/
def backwardRounds (n : UInt32) : Nat := if n - 1 < 0x80000000 then n.toNat else 0

/-- `memmove`, with the `memcpy` that it calls. -/
def memmove (memcpy : Memory → UInt32 → UInt32 → UInt32 → UInt32 × Memory) (memory : Memory)
    (dest src n : UInt32) : UInt32 × Memory :=
  if dest = src then (dest, memory)
  else if src - dest - n ≤ (-2) * n then memcpy memory dest src n
  else if dest < src then
    (dest, countUp (fun i m =>
      Memory.store m (dest + UInt32.ofNat i) (m (src + UInt32.ofNat i))) n.toNat memory)
  else
    (dest, countDown (fun i m =>
      Memory.store m (dest + UInt32.ofNat i) (m (src + UInt32.ofNat i))) (backwardRounds n) memory)

/-! ## What they are meant to do -/

/-- The address is in the block. -/
def InBlock (start n a : UInt32) : Prop := distance start a < n.toNat

instance (start n a : UInt32) : Decidable (InBlock start n a) :=
  inferInstanceAs (Decidable (_ < _))

/-- No address is in both blocks. -/
def BlocksApart (d s n : UInt32) : Prop := ∀ a, InBlock d n a → ¬ InBlock s n a

/-- The block ends before the address space does. -/
def NoWrap (start n : UInt32) : Prop := start.toNat + n.toNat ≤ 4294967296

instance (start n : UInt32) : Decidable (NoWrap start n) :=
  inferInstanceAs (Decidable (_ ≤ _))

/-- A copy: the destination is returned and holds the original contents of the source, and no other
byte changes. -/
structure Copies (before : Memory) (d s n : UInt32) (after : UInt32 × Memory) : Prop where
  returns : after.1 = d
  inside : ∀ i < n.toNat, after.2 (d + UInt32.ofNat i) = before (s + UInt32.ofNat i)
  outside : ∀ a, ¬ InBlock d n a → after.2 a = before a

/-- A `memcpy` that copies between blocks that do not overlap. -/
def CopiesApart (memcpy : Memory → UInt32 → UInt32 → UInt32 → UInt32 × Memory) : Prop :=
  ∀ memory d s n, NoWrap d n → NoWrap s n → BlocksApart d s n →
    Copies memory d s n (memcpy memory d s n)

/-- `memset_4byte` does what `memset_byte` does, and stays in the block. -/
def MemsetAgrees (s c n : UInt32) : Prop := ∀ memory : Memory,
  memset4byte memory s c n = memsetByte memory s c n ∧
    ∀ a, ¬ InBlock s n a → memset4byte memory s c n a = memory a

/-- `memcpy_4byte` does what `memcpy` does, and stays in the block. -/
def MemcpyAgrees (d s n : UInt32) : Prop := ∀ memory : Memory,
  memcpy4byte memory d s n = memcpyByte memory d s n ∧
    ∀ a, ¬ InBlock d n a → (memcpy4byte memory d s n).2 a = memory a

/-- The fragments of `memset_4byte` make up the block: how long it is, for each offset of its
address. -/
def FragmentsFit (offset n : Nat) : Prop :=
  (offset = 0 ∧ n % 4 = 0) ∨ (offset = 1 ∧ 3 ≤ n ∧ (n % 4 = 0 ∨ n % 4 = 3)) ∨
    (offset = 2 ∧ 2 ≤ n ∧ n % 4 ≠ 1) ∨ (offset = 3 ∧ 3 ≤ n)

instance (offset n : Nat) : Decidable (FragmentsFit offset n) :=
  inferInstanceAs (Decidable (_ ∨ _))

/-! ## Copying -/

section Copying

variable {memory : Memory} {d s n a : UInt32}

/-- What a copied range is, read as a copy. -/
theorem copies_copyRange (memory : Memory) (d s n : UInt32) :
    Copies memory d s n (d, memory.copyRange d s 0 n.toNat) := by
  refine ⟨rfl, ?_, ?_⟩
  · intro i hi
    have hdistance : distance d (d + UInt32.ofNat i) = i :=
      distance_add (Nat.lt_trans hi n.toNat_lt)
    simp only [Memory.copyRange, hdistance, Nat.zero_le, hi, and_self, if_true]
  · intro a ha
    refine if_neg ?_
    rintro ⟨-, hlt⟩
    exact ha hlt

/-- Going up, the source is read before it is overwritten when it starts far enough behind the
destination. -/
theorem countUp_copy {k : Nat} (hk : k ≤ 4294967296)
    (hsource : ∀ i < k, ¬ distance d (s + UInt32.ofNat i) < i) :
    countUp (fun i m => Memory.store m (d + UInt32.ofNat i) (m (s + UInt32.ofNat i))) k memory =
      memory.copyRange d s 0 k := by
  have hloop := @countUp_holds Memory
    (fun i m => m.store (d + UInt32.ofNat i) (m (s + UInt32.ofNat i)))
    (fun i m => m = memory.copyRange d s 0 i) k memory Memory.copyRange_self.symm
  apply hloop
  rintro i hi m rfl
  refine Memory.store_copyRange_up (by omega) (Nat.zero_le i) ?_
  rintro ⟨-, hlt⟩
  exact hsource i hi hlt

theorem countDown_copy {k : Nat} (hk : k ≤ 4294967296)
    (hsource : ∀ i < k, ¬ (i + 1 ≤ distance d (s + UInt32.ofNat i) ∧
      distance d (s + UInt32.ofNat i) < k)) :
    countDown (fun i m => Memory.store m (d + UInt32.ofNat i) (m (s + UInt32.ofNat i))) k memory =
      memory.copyRange d s 0 k := by
  have hloop := @countDown_holds Memory
    (fun i m => m.store (d + UInt32.ofNat i) (m (s + UInt32.ofNat i)))
    (fun i m => m = memory.copyRange d s i k) k memory Memory.copyRange_self.symm
  apply hloop
  rintro i hi m rfl
  exact Memory.store_copyRange_down (by omega) hi (hsource i hi)

/-- The distance between the starts of two blocks, and the distance of a byte of the source. -/
theorem distance_source (d s : UInt32) (i : Nat) :
    distance d (s + UInt32.ofNat i) = (distance d s + i) % 4294967296 := by
  unfold distance
  have hd := d.toNat_lt
  have hs := s.toNat_lt
  rw [UInt32.toNat_sub, UInt32.toNat_sub, UInt32.toNat_add, UInt32.toNat_ofNat']
  omega

/-- Blocks are apart when neither start is in the other block. -/
theorem blocksApart_iff (hn : 0 < n.toNat) :
    BlocksApart d s n ↔ n.toNat ≤ distance d s ∧ distance d s + n.toNat ≤ 4294967296 := by
  have hdistance := distance_lt d s
  have hlt := n.toNat_lt
  constructor
  · intro h
    by_contra hnot
    by_cases hin : distance d s < n.toNat
    · -- the source starts in the destination
      refine h s hin ?_
      rw [InBlock, distance_self]
      exact hn
    · -- the destination starts in the source
      refine h d ?_ ?_
      · rw [InBlock, distance_self]
        exact hn
      · rw [InBlock, distance_symm d s]
        omega
  · rintro ⟨hlow, hhigh⟩ a hd hs
    obtain ⟨i, hi, rfl⟩ : ∃ i < n.toNat, a = s + UInt32.ofNat i :=
      ⟨_, hs, (start_add_distance s a).symm⟩
    rw [InBlock, distance_source d s] at hd
    omega

/-- `memcpy` copies between blocks that do not overlap. -/
theorem memcpyByte_eq (h : BlocksApart d s n) :
    memcpyByte memory d s n = (d, memory.copyRange d s 0 n.toNat) := by
  have hn := n.toNat_lt
  rw [memcpyByte, countUp_copy (Nat.le_of_lt hn)]
  intro i hi hlt
  obtain ⟨hlow, hhigh⟩ := (blocksApart_iff (Nat.zero_lt_of_lt hi)).1 h
  rw [distance_source d s] at hlt
  omega

theorem copiesApart_memcpyByte : CopiesApart memcpyByte := by
  intro memory d s n _ _ h
  rw [memcpyByte_eq h]
  exact copies_copyRange memory d s n

/-- The comparison in `memmove` is the test whether the blocks are apart. -/
theorem memmove_test_iff (hn : 0 < n.toNat) (hlt : n.toNat < 2147483648) :
    s - d - n ≤ (-2) * n ↔ BlocksApart d s n := by
  have hdistance := distance_lt d s
  have hneg : ((-2) * n : UInt32).toNat = 4294967296 - 2 * n.toNat := by
    have htwo : (-2 : UInt32).toNat = 4294967294 := by decide
    rw [UInt32.toNat_mul, htwo]
    omega
  have hleft : (s - d - n).toNat = (4294967296 - n.toNat + distance d s) % 4294967296 := by
    rw [UInt32.toNat_sub]
    rfl
  rw [blocksApart_iff hn, UInt32.le_iff_toNat_le, hneg, hleft]
  omega

end Copying

/-- `memmove` copies every block that does not wrap around, whether or not it overlaps with its
destination. -/
theorem memmove_copies {memcpy : Memory → UInt32 → UInt32 → UInt32 → UInt32 × Memory}
    (hmemcpy : CopiesApart memcpy) {memory : Memory} {d s n : UInt32} (hn : n.toNat < 2147483648)
    (hd : NoWrap d n) (hs : NoWrap s n) : Copies memory d s n (memmove memcpy memory d s n) := by
  unfold NoWrap at hd hs
  rw [memmove]
  by_cases hsame : d = s
  · subst hsame
    rw [if_pos rfl]
    exact ⟨rfl, fun _ _ => rfl, fun _ _ => rfl⟩
  rw [if_neg hsame]
  have hdistance : distance d s = (4294967296 - d.toNat + s.toNat) % 4294967296 := by
    rw [distance, UInt32.toNat_sub]
  have hdlt := d.toNat_lt
  have hslt := s.toNat_lt
  by_cases htest : s - d - n ≤ (-2) * n
  · rw [if_pos htest]
    rcases Nat.eq_zero_or_pos n.toNat with hzero | hpos
    · -- nothing is copied
      refine hmemcpy memory d s n hd hs ?_
      intro a ha
      rw [InBlock, hzero] at ha
      exact absurd ha (Nat.not_lt_zero _)
    · exact hmemcpy memory d s n hd hs ((memmove_test_iff hpos hn).1 htest)
  rw [if_neg htest]
  have hsource (i : Nat) (hi : i < n.toNat) :
      distance d (s + UInt32.ofNat i) = (distance d s + i) % 4294967296 :=
    distance_source d s i
  by_cases hforward : d < s
  · -- the source lies behind: every byte is read before it is overwritten
    rw [if_pos hforward, countUp_copy (by omega)]
    · exact copies_copyRange memory d s n
    · intro i hi
      rw [UInt32.lt_iff_toNat_lt] at hforward
      rw [hsource i hi]
      omega
  · have hbackward : s.toNat < d.toNat := by
      rw [UInt32.lt_iff_toNat_lt] at hforward
      have hne : d.toNat ≠ s.toNat := fun h => hsame (UInt32.toNat_inj.1 h)
      omega
    have hrounds : backwardRounds n = n.toNat := by
      unfold backwardRounds
      rcases Nat.eq_zero_or_pos n.toNat with hzero | hpos
      · rw [hzero, ite_self]
      · have hindex : n - 1 < 0x80000000 := by
          have hone : (1 : UInt32).toNat = 1 := rfl
          have hbound : (0x80000000 : UInt32).toNat = 2147483648 := rfl
          rw [UInt32.lt_iff_toNat_lt, UInt32.toNat_sub, hone, hbound]
          omega
        rw [if_pos hindex]
    rw [if_neg hforward, hrounds, countDown_copy (by omega)]
    · exact copies_copyRange memory d s n
    · intro i hi
      rw [hsource i hi]
      omega

/-- A block moved forwards and backwards over itself. -/
theorem memmove_copies_overlapping :
    Copies (fun a => a.toUInt8) 0 3 8 (memmove memcpyByte (fun a => a.toUInt8) 0 3 8) ∧
      Copies (fun a => a.toUInt8) 3 0 8 (memmove memcpyByte (fun a => a.toUInt8) 3 0 8) :=
  ⟨memmove_copies copiesApart_memcpyByte (by decide) (by decide) (by decide),
    memmove_copies copiesApart_memcpyByte (by decide) (by decide) (by decide)⟩

/-! ## Words -/

section Fragments

variable {memory : Memory} {s c n a : UInt32}

/-- The pattern is the word that is read where all bytes are the low byte. -/
theorem wordByte_bytePattern (c : UInt32) {k : Nat} (hk : k < 4) :
    wordByte (bytePattern c) k = c.toUInt8 := by
  have hlow : c &&& 0xff = c.toUInt8.toUInt32 := by
    apply UInt32.toNat_inj.1
    have hmask : (0xff : UInt32).toNat = 2 ^ 8 - 1 := by decide
    rw [UInt32.toNat_and, hmask, Nat.and_two_pow_sub_one_eq_mod, UInt8.toNat_toUInt32,
      UInt32.toNat_toUInt8]
  have hword : bytePattern c = Memory.loadWord (fun _ => c.toUInt8) 0 := by
    rw [bytePattern, hlow]
    rfl
  rw [hword]
  exact Memory.wordByte_loadWord hk

theorem memsetByte_eq : memsetByte memory s c n = memory.fill s n.toNat c.toUInt8 :=
  Memory.countUp_store (Nat.le_of_lt n.toNat_lt)

theorem memsetChunks_eq (b count : UInt32) :
    memsetChunks memory b c count = memory.fill b (4 * (count.toNat / 4)) c.toUInt8 := by
  have hcount := count.toNat_lt
  have hrounds : (count / 4).toNat = count.toNat / 4 := UInt32.toNat_div count 4
  rw [memsetChunks, hrounds]
  apply Memory.countUp_storeWord
  · omega
  · intro k hk
    exact wordByte_bytePattern c hk

/-- The distances from the address of the block at which `memset_4byte` stores something. -/
def Written (offset n k : Nat) : Prop :=
  (offset = 0 ∧ k < 4 * (n / 4)) ∨ (offset ≠ 0 ∧
    ((k + (4294967296 - (n + 4294967296 - offset) % 4294967296)) % 4294967296 < offset ∨
      (k + (4294967296 - (4 - offset))) % 4294967296 < 4 * ((n + 4294967295) % 4294967296 / 4) ∨
      k < 4 - offset))

instance (offset n k : Nat) : Decidable (Written offset n k) :=
  inferInstanceAs (Decidable (_ ∨ _))

theorem distance_sub (start a b : UInt32) :
    distance (start + b) a = (distance start a + (4294967296 - b.toNat)) % 4294967296 := by
  have hb := b.toNat_lt
  have hlater := @distance_later b.toNat start a (Nat.le_of_lt hb)
  rwa [UInt32.ofNat_toNat] at hlater

theorem memset4byte_apply : memset4byte memory s c n a =
    if Written (s.toNat % 4) n.toNat (distance s a) then c.toUInt8 else memory a := by
  have hn := n.toNat_lt
  have hoffset : (s % 4).toNat = s.toNat % 4 := UInt32.toNat_mod s 4
  have hlt : s.toNat % 4 < 4 := Nat.mod_lt _ (by decide)
  have htail (m : Memory) : countUp (fun i m => Memory.store m
      (s + (n - s % 4 + UInt32.ofNat i)) c.toUInt8) (s % 4).toNat m =
        m.fill (s + (n - s % 4)) (s % 4).toNat c.toUInt8 := by
    simp only [← UInt32.add_assoc s (n - s % 4)]
    exact Memory.countUp_store (Nat.le_of_lt (s % 4).toNat_lt)
  simp only [memset4byte, htail]
  by_cases hzero : s.toNat % 4 = 0
  · have hnone : s % 4 = 0 := UInt32.toNat_inj.1 (hoffset.trans hzero)
    have hzeroNat : (0 : UInt32).toNat = 0 := rfl
    have hwritten : Written (s.toNat % 4) n.toNat (distance s a) ↔
        distance s a < 4 * (n.toNat / 4) := by
      simp only [Written, hzero, true_and, ne_eq, not_true_eq_false, false_and, or_false]
    simp only [hnone, ne_eq, not_true_eq_false, if_false, hzeroNat, Memory.fill_zero,
      memsetChunks_eq]
    rw [Memory.fill, if_congr hwritten rfl rfl]
  · have hsome : s % 4 ≠ 0 := fun h => hzero (by rw [← hoffset, h]; rfl)
    have hfour : (4 : UInt32).toNat = 4 := rfl
    have hhead : (4 - s % 4).toNat = 4 - s.toNat % 4 := by
      rw [UInt32.toNat_sub, hoffset, hfour]
      omega
    have hcount : (n - 1).toNat = (n.toNat + 4294967295) % 4294967296 := by
      have hone : (1 : UInt32).toNat = 1 := rfl
      rw [UInt32.toNat_sub, hone, Nat.add_comm]
    have hback : (n - s % 4).toNat = (n.toNat + 4294967296 - s.toNat % 4) % 4294967296 := by
      rw [UInt32.toNat_sub, hoffset]
      omega
    have hleading : countUp (fun i m => Memory.store m (s + UInt32.ofNat i) c.toUInt8)
        (4 - s % 4).toNat memory = memory.fill s (4 - s % 4).toNat c.toUInt8 :=
      Memory.countUp_store (Nat.le_of_lt (4 - s % 4).toNat_lt)
    simp only [hsome, ne_eq, not_false_eq_true, if_true, hleading, memsetChunks_eq]
    -- a byte stays as it was when none of the three loops stores it
    have hwritten : Written (s.toNat % 4) n.toNat (distance s a) ↔ _ :=
      (or_iff_right fun h => hzero h.1).trans (and_iff_right hzero)
    simp only [Memory.fill, distance_sub, hoffset, hhead, hcount, hback]
    rw [if_congr hwritten rfl rfl, ite_or, ite_or]

/-- Every byte of the block is stored, and no other one. -/
theorem memsetAgrees_iff_written : MemsetAgrees s c n ↔
    ∀ k < 4294967296, Written (s.toNat % 4) n.toNat k ↔ k < n.toNat := by
  constructor
  · intro h k hk
    -- a memory in which every byte differs from the one that is stored
    have hne : c.toUInt8 + 1 ≠ c.toUInt8 := by
      intro heq
      simp at heq
    have hbyte := congrFun (h fun _ => c.toUInt8 + 1).1 (s + UInt32.ofNat k)
    rw [memset4byte_apply, memsetByte_eq, Memory.fill, distance_add hk] at hbyte
    by_cases hwritten : Written (s.toNat % 4) n.toNat k
    · rw [if_pos hwritten] at hbyte
      refine iff_of_true hwritten ?_
      by_contra hout
      rw [if_neg hout] at hbyte
      exact hne hbyte.symm
    · rw [if_neg hwritten] at hbyte
      refine iff_of_false hwritten ?_
      intro hin
      rw [if_pos hin] at hbyte
      exact hne hbyte
  · intro h memory
    have hsame : memset4byte memory s c n = memsetByte memory s c n := by
      funext a
      rw [memset4byte_apply, memsetByte_eq, Memory.fill]
      exact if_congr (h _ (distance_lt s a)) rfl rfl
    refine ⟨hsame, fun a ha => ?_⟩
    rw [hsame, memsetByte_eq]
    exact if_neg ha

/-- When the fragments tile the block. The first byte behind the block, its last byte and the last
address tell the cases apart. -/
theorem written_iff {offset n : Nat} (hoffset : offset < 4) (hn : n < 4294967296) :
    (∀ k < 4294967296, Written offset n k ↔ k < n) ↔ FragmentsFit offset n := by
  unfold Written FragmentsFit
  constructor
  · intro h
    match offset, hoffset with
    | 0, _ =>
        have hlast := h (n - 1) (by omega)
        clear h
        simp only [true_and, ne_eq, not_true_eq_false, false_and, or_false] at hlast
        omega
    | 1, _ =>
        have hbehind := h n hn
        clear h
        simp only [Nat.one_ne_zero, false_and, ne_eq, not_false_eq_true, true_and, false_or]
          at hbehind
        omega
    | 2, _ =>
        have hbehind := h n hn
        clear h
        simp only [Nat.reduceEqDiff, false_and, ne_eq, not_false_eq_true, true_and, false_or]
          at hbehind
        omega
    | 3, _ =>
        have hbehind := h n hn
        have hend := h 4294967295 (by decide)
        clear h
        simp only [Nat.reduceEqDiff, false_and, ne_eq, not_false_eq_true, true_and, false_or]
          at hbehind hend
        omega
  · intro h k hk
    rcases h with ⟨rfl, h⟩ | ⟨rfl, h⟩ | ⟨rfl, h⟩ | ⟨rfl, h⟩
    · simp only [true_and, ne_eq, not_true_eq_false, false_and, or_false]
      omega
    · simp only [Nat.one_ne_zero, false_and, ne_eq, not_false_eq_true, true_and, false_or]
      omega
    · simp only [Nat.reduceEqDiff, false_and, ne_eq, not_false_eq_true, true_and, false_or]
      omega
    · simp only [Nat.reduceEqDiff, false_and, ne_eq, not_false_eq_true, true_and, false_or]
      omega

end Fragments

section WordCopies

variable {memory : Memory} {d s n : UInt32}

/-- The bytes of the source are not in what has been copied. -/
theorem BlocksApart.source (h : BlocksApart d s n) {i k : Nat} (hi : i < n.toNat)
    (hk : k ≤ n.toNat) : ¬ distance d (s + UInt32.ofNat i) < k := by
  intro hlt
  have hin : InBlock s n (s + UInt32.ofNat i) := by
    rw [InBlock, distance_add (Nat.lt_trans hi n.toNat_lt)]
    exact hi
  exact h _ (Nat.lt_of_lt_of_le hlt hk) hin

/-- The words are copied. -/
theorem countUp_copyWords (h : BlocksApart d s n) {k : Nat} (hk : 4 * k ≤ n.toNat) :
    countUp (fun i m => Memory.storeWord m (d + UInt32.ofNat (4 * i))
        (Memory.loadWord m (s + UInt32.ofNat (4 * i)))) k memory =
      memory.copyRange d s 0 (4 * k) := by
  have hn := n.toNat_lt
  have hloop := @countUp_holds Memory
    (fun i m => m.storeWord (d + UInt32.ofNat (4 * i)) (m.loadWord (s + UInt32.ofNat (4 * i))))
    (fun i m => m = memory.copyRange d s 0 (4 * i)) k memory Memory.copyRange_self.symm
  apply hloop
  rintro i hi m rfl
  rw [Nat.mul_succ]
  refine Memory.storeWord_copyRange (by omega) fun j hj => ?_
  exact h.source (by omega) (by omega)

/-- The last loop copies from the start again, so it adds nothing to words that have been copied. -/
theorem countUp_copyTail (h : BlocksApart d s n) {copied tail : Nat} (hcopied : copied ≤ n.toNat)
    (htail : tail ≤ n.toNat) :
    countUp (fun i m => Memory.store m (d + UInt32.ofNat i) (m (s + UInt32.ofNat i))) tail
        (memory.copyRange d s 0 copied) =
      memory.copyRange d s 0 (max copied tail) := by
  have hn := n.toNat_lt
  have hloop := @countUp_holds Memory
    (fun i m => m.store (d + UInt32.ofNat i) (m (s + UInt32.ofNat i)))
    (fun i m => m = memory.copyRange d s 0 (max copied i)) tail (memory.copyRange d s 0 copied)
    (by rw [Nat.max_zero])
  apply hloop
  rintro i hi m rfl
  have hsource : ¬ (0 ≤ distance d (s + UInt32.ofNat i) ∧
      distance d (s + UInt32.ofNat i) < max copied i) := by
    rintro ⟨-, hlt⟩
    exact h.source (by omega) (by omega) hlt
  rcases Nat.lt_or_ge i copied with hin | hout
  · -- the byte is there already
    rw [Nat.max_eq_left (Nat.le_of_lt hin), Nat.max_eq_left hin] at *
    have hread : memory.copyRange d s 0 copied (s + UInt32.ofNat i) =
        memory.copyRange d s 0 copied (d + UInt32.ofNat i) := by
      have hdistance : distance d (d + UInt32.ofNat i) = i := distance_add (by omega)
      rw [Memory.copyRange, if_neg hsource, Memory.copyRange, hdistance,
        if_pos ⟨Nat.zero_le i, hin⟩]
    rw [hread, Memory.store, Function.update_eq_self]
  · rw [Nat.max_eq_right hout, Nat.max_eq_right (Nat.le_succ_of_le hout)] at *
    exact Memory.store_copyRange_up (by omega) (Nat.zero_le i) hsource

/-- `memcpy_4byte` copies the whole words, or all of a block that has none. -/
theorem memcpy4byte_eq (h : BlocksApart d s n) : memcpy4byte memory d s n =
    (d, memory.copyRange d s 0 (max (4 * (n.toNat / 4)) (n.toNat % 4))) := by
  have htail : (n % 4).toNat = n.toNat % 4 := UInt32.toNat_mod n 4
  have hwords : ((n - n % 4) / 4).toNat = n.toNat / 4 := by
    have hfour : (4 : UInt32).toNat = 4 := rfl
    have hn := n.toNat_lt
    rw [UInt32.toNat_div, UInt32.toNat_sub, htail, hfour]
    omega
  simp only [memcpy4byte, hwords, htail]
  rw [countUp_copyWords h (Nat.mul_div_le _ _), countUp_copyTail h (Nat.mul_div_le _ _)
    (Nat.mod_le _ _)]

theorem memcpyAgrees_iff (h : BlocksApart d s n) :
    MemcpyAgrees d s n ↔ n.toNat % 4 = 0 ∨ n.toNat < 4 := by
  have hn := n.toNat_lt
  constructor
  · intro hagrees
    by_contra hnot
    obtain ⟨hrest, hwords⟩ := not_or.1 hnot
    -- the last byte of the destination keeps what it was
    have hlast : distance d (d + UInt32.ofNat (n.toNat - 1)) = n.toNat - 1 :=
      distance_add (by omega)
    have hne : s + UInt32.ofNat (n.toNat - 1) ≠ d + UInt32.ofNat (n.toNat - 1) := by
      intro heq
      have hsource := h.source (i := n.toNat - 1) (by omega) (Nat.le_refl _)
      rw [heq, hlast] at hsource
      omega
    have hsame := congrArg (fun r => r.2 (d + UInt32.ofNat (n.toNat - 1)))
      (hagrees fun a => if a = d + UInt32.ofNat (n.toNat - 1) then 1 else 0).1
    simp only [memcpy4byte_eq h, memcpyByte_eq h, Memory.copyRange, hlast, if_true] at hsame
    rw [if_neg (by omega), if_pos (by omega), if_neg hne] at hsame
    exact absurd hsame (by decide)
  · intro hwhole memory
    have hall : max (4 * (n.toNat / 4)) (n.toNat % 4) = n.toNat := by omega
    rw [memcpy4byte_eq h, memcpyByte_eq h, hall]
    exact ⟨rfl, (copies_copyRange memory d s n).outside⟩

end WordCopies

/-- The variants that go by words agree with the loops over bytes exactly for these addresses and
lengths. -/
theorem word_variants_agree_iff (s c n d : UInt32) :
    (MemsetAgrees s c n ↔ FragmentsFit (s.toNat % 4) n.toNat) ∧
      (d % 4 = 0 → s % 4 = 0 → BlocksApart d s n →
        (MemcpyAgrees d s n ↔ n.toNat % 4 = 0 ∨ n.toNat < 4)) := by
  constructor
  · rw [memsetAgrees_iff_written, written_iff (Nat.mod_lt _ (by decide)) n.toNat_lt]
  · intro _ _ h
    exact memcpyAgrees_iff h

/-- One byte at an aligned address is not set, and of five bytes the last one is not copied. -/
theorem not_word_variants_agree : (¬ ∀ s c n : UInt32, MemsetAgrees s c n) ∧
    ¬ ∀ d s n : UInt32, d % 4 = 0 → s % 4 = 0 → BlocksApart d s n → MemcpyAgrees d s n := by
  constructor
  · intro hall
    have hfit := memsetAgrees_iff_written.1 (hall 0 0 1)
    have hone := (written_iff (by decide) (by decide)).1 hfit
    revert hone
    decide
  · intro hall
    have hapart : BlocksApart 0 8 5 := (blocksApart_iff (by decide)).2 (by decide)
    have hwhole := (memcpyAgrees_iff hapart).1 (hall 0 8 5 (by decide) (by decide) hapart)
    revert hwhole
    decide

end Vmwos
