import Vmwos.Lib.Base
import Vmwos.Library.AddressSpace

/-!
# Comparing strings

`strlen` and `strncmp` of the kernel and of the C library of the programs. They take pointers into
a memory in which anything may follow a string, so beside the result of a comparison the model keeps
how many characters of each string have been looked at.

The kernel's comparison stops at the common terminator. The one of the C library does not, and goes on
comparing what is behind the two strings: `strncmp_agrees_iff` says when that is noticed.
-/

set_option autoImplicit false

namespace Vmwos

open Library

/-- What a comparison returns, and the number of characters of each string that it has read. -/
structure Compared where
  result : Int
  reads : Nat
  deriving DecidableEq, Repr

/-- The difference of the characters at an index of two strings. -/
def charDifference (memory : Memory) (s1 s2 : UInt32) (i : Nat) : Int :=
  (memory (s1 + UInt32.ofNat i)).toNat - (memory (s2 + UInt32.ofNat i)).toNat

namespace Kernel

/-- The loop of `strncmp`, with `n` characters left. -/
def strncmpLoop (memory : Memory) (s1 s2 : UInt32) : (n i : Nat) → Compared
  | 0, i => ⟨0, i⟩
  | n + 1, i =>
      let r := charDifference memory s1 s2 i
      if r ≠ 0 then ⟨r, i + 1⟩
      else if memory (s1 + UInt32.ofNat i) = 0 then ⟨0, i + 1⟩
      else strncmpLoop memory s1 s2 n (i + 1)

/-- `strncmp` of the kernel. -/
def strncmp (memory : Memory) (s1 s2 n : UInt32) : Compared :=
  strncmpLoop memory s1 s2 n.toNat 0

end Kernel

namespace Vlibc

/-- The loop of `strncmp`; `left` is `n-i`, so that the test `i==n` is the first case. -/
def strncmpLoop (memory : Memory) (s1 s2 : UInt32) : (left i : Nat) → Compared
  | 0, i => ⟨0, i⟩
  | left + 1, i =>
      let r := charDifference memory s1 s2 i
      if r ≠ 0 then ⟨r, i + 1⟩
      else strncmpLoop memory s1 s2 left (i + 1)

/-- `strncmp` of the C library. -/
def strncmp (memory : Memory) (s1 s2 n : UInt32) : Compared :=
  strncmpLoop memory s1 s2 n.toNat 0

end Vlibc

/-! ## What a comparison is meant to be -/

/-- A string in memory, with its terminator; what follows is arbitrary. -/
def Terminated (memory : Memory) : UInt32 → CString → Prop
  | s, [] => memory s = 0
  | s, c :: string => memory s = c ∧ c ≠ 0 ∧ Terminated memory (s + 1) string

/-- The sign of a result is the lexicographic order of the first `n` characters. -/
structure Lexicographic (result : Int) (a b : CString) (n : Nat) : Prop where
  neg_iff : result < 0 ↔ a.take n < b.take n
  zero_iff : result = 0 ↔ a.take n = b.take n
  pos_iff : 0 < result ↔ b.take n < a.take n

/-- A comparison of two strings: its sign is their order, and equal strings are not read past their
terminators. -/
structure Compared.Correct (compared : Compared) (a b : CString) (n : Nat) : Prop where
  order : Lexicographic compared.result a b n
  reads_le : a = b → compared.reads ≤ a.length + 1

/-- Both functions compare the strings, with results of the same sign. -/
structure StrncmpAgrees (memory : Memory) (s1 s2 n : UInt32) (a b : CString) : Prop where
  sameSign : (Vlibc.strncmp memory s1 s2 n).result.sign = (Kernel.strncmp memory s1 s2 n).result.sign
  kernel : (Kernel.strncmp memory s1 s2 n).Correct a b n.toNat
  vlibc : (Vlibc.strncmp memory s1 s2 n).Correct a b n.toNat

/-! ## One character -/

section Characters

variable {memory : Memory} {s1 s2 s : UInt32} {a b : CString} {c c' : UInt8} {i n left : Nat}

theorem offset_succ (s : UInt32) (i : Nat) :
    s + UInt32.ofNat (i + 1) = s + UInt32.ofNat i + 1 := by
  rw [UInt32.ofNat_add, ← UInt32.add_assoc]
  rfl

/-- Behind the first character of a string the rest of it is a string. -/
theorem Terminated.tail (h : Terminated memory (s + UInt32.ofNat i) (c :: a)) :
    Terminated memory (s + UInt32.ofNat (i + 1)) a := by
  rw [offset_succ]
  exact h.2.2

/-- The character that is compared at a position: the terminator when the string has ended. -/
theorem Terminated.head (h : Terminated memory s a) : memory s = a.headD 0 := by
  cases a with
  | nil => exact h
  | cons c a => exact h.1

theorem Lexicographic.of_head {r : Int} (hc : r = (c.toNat : Int) - c'.toNat) (hne : c ≠ c') :
    Lexicographic r (c :: a) (c' :: b) (n + 1) := by
  have hnat : c.toNat ≠ c'.toNat := fun h => hne (UInt8.toNat_inj.1 h)
  constructor
  · rw [List.take_succ_cons, List.take_succ_cons, List.cons_lt_cons_iff, UInt8.lt_iff_toNat_lt]
    simp only [hne, false_and, or_false]
    omega
  · simp only [List.take_succ_cons, List.cons.injEq, hne, false_and, iff_false]
    omega
  · rw [List.take_succ_cons, List.take_succ_cons, List.cons_lt_cons_iff, UInt8.lt_iff_toNat_lt]
    simp only [Ne.symm hne, false_and, or_false]
    omega

theorem Lexicographic.cons {r : Int} (h : Lexicographic r a b n) :
    Lexicographic r (c :: a) (c :: b) (n + 1) := by
  constructor
  · rw [h.neg_iff, List.take_succ_cons, List.take_succ_cons, List.cons_lt_cons_iff]
    simp
  · rw [h.zero_iff, List.take_succ_cons, List.take_succ_cons]
    simp
  · rw [h.pos_iff, List.take_succ_cons, List.take_succ_cons, List.cons_lt_cons_iff]
    simp

theorem lexicographic_zero (a b : CString) : Lexicographic 0 a b 0 := by
  constructor <;> simp

/-- A string that has ended is the smaller one. -/
theorem lexicographic_nil_cons (hc : c ≠ 0) : Lexicographic (-(c.toNat : Int)) [] (c :: b) (n + 1) := by
  have hpos : c.toNat ≠ 0 := fun h => hc (UInt8.toNat_inj.1 h)
  constructor
  · simp
    omega
  · simp
    omega
  · simp

theorem lexicographic_cons_nil (hc : c ≠ 0) : Lexicographic (c.toNat : Int) (c :: a) [] (n + 1) := by
  have hpos : c.toNat ≠ 0 := fun h => hc (UInt8.toNat_inj.1 h)
  constructor
  · simp
  · simp
    omega
  · simp
    omega

/-- The characters at an index are the heads of what is left of the strings. -/
theorem charDifference_eq (h1 : Terminated memory (s1 + UInt32.ofNat i) a)
    (h2 : Terminated memory (s2 + UInt32.ofNat i) b) :
    charDifference memory s1 s2 i = ((a.headD 0).toNat : Int) - (b.headD 0).toNat := by
  rw [charDifference, h1.head, h2.head]

theorem toNat_sub_eq_zero_iff : (c.toNat : Int) - c'.toNat = 0 ↔ c = c' := by
  rw [← UInt8.toNat_inj]
  omega

/-! ## Both loops -/

/-- The kernel's loop compares what is left of the strings, and stops where both end. -/
theorem Kernel.strncmpLoop_correct (h1 : Terminated memory (s1 + UInt32.ofNat i) a)
    (h2 : Terminated memory (s2 + UInt32.ofNat i) b) :
    Lexicographic (Kernel.strncmpLoop memory s1 s2 n i).result a b n ∧
      (a = b → (Kernel.strncmpLoop memory s1 s2 n i).reads ≤ i + (a.length + 1)) := by
  induction n generalizing i a b with
  | zero => exact ⟨lexicographic_zero a b, fun _ => Nat.le_add_right _ _⟩
  | succ n ih =>
      have hdiff := charDifference_eq h1 h2
      rw [Kernel.strncmpLoop]
      cases a with
      | nil =>
          cases b with
          | nil =>
              have hzero : memory (s1 + UInt32.ofNat i) = 0 := h1
              have hsame : charDifference memory s1 s2 i = 0 := by simpa using hdiff
              simp only [hsame, hzero, ne_eq, not_true_eq_false, if_false, if_true]
              exact ⟨⟨by simp, by simp, by simp⟩, fun _ => Nat.le_refl _⟩
          | cons c b =>
              have hr : charDifference memory s1 s2 i = -(c.toNat : Int) := by simpa using hdiff
              have hne : -(c.toNat : Int) ≠ 0 := by
                intro h
                exact h2.2.1 (UInt8.toNat_inj.1 (by simpa using h))
              simp only [hr, ne_eq, hne, not_false_eq_true, if_true]
              exact ⟨lexicographic_nil_cons h2.2.1, fun h => by cases h⟩
      | cons c a =>
          cases b with
          | nil =>
              have hr : charDifference memory s1 s2 i = (c.toNat : Int) := by simpa using hdiff
              have hne : (c.toNat : Int) ≠ 0 := by
                intro h
                exact h1.2.1 (UInt8.toNat_inj.1 (by simpa using h))
              simp only [hr, ne_eq, hne, not_false_eq_true, if_true]
              exact ⟨lexicographic_cons_nil h1.2.1, fun h => by cases h⟩
          | cons c' b =>
              have hr : charDifference memory s1 s2 i = (c.toNat : Int) - c'.toNat := hdiff
              by_cases hc : c = c'
              · -- the same character, which is no terminator
                subst hc
                have hsame : charDifference memory s1 s2 i = 0 := by rw [hr, Int.sub_self]
                have hnot : memory (s1 + UInt32.ofNat i) ≠ 0 := by
                  rw [h1.1]
                  exact h1.2.1
                simp only [hsame, hnot, ne_eq, not_true_eq_false, if_false]
                obtain ⟨horder, hreads⟩ := ih h1.tail h2.tail
                refine ⟨horder.cons, fun h => ?_⟩
                have hle := hreads (List.cons.inj h).2
                rw [List.length_cons]
                omega
              · have hne : charDifference memory s1 s2 i ≠ 0 := by
                  rw [hr]
                  exact mt toNat_sub_eq_zero_iff.1 hc
                simp only [ne_eq, hne, not_false_eq_true, if_true]
                refine ⟨Lexicographic.of_head hr hc, fun h => ?_⟩
                exact absurd (List.cons.inj h).1 hc

/-- As long as the terminators are not passed, both loops do the same. -/
theorem Vlibc.strncmpLoop_eq (h1 : Terminated memory (s1 + UInt32.ofNat i) a)
    (h2 : Terminated memory (s2 + UInt32.ofNat i) b) (h : a ≠ b ∨ left ≤ a.length + 1) :
    Vlibc.strncmpLoop memory s1 s2 left i = Kernel.strncmpLoop memory s1 s2 left i := by
  induction left generalizing i a b with
  | zero => rfl
  | succ left ih =>
      have hdiff := charDifference_eq h1 h2
      rw [Vlibc.strncmpLoop, Kernel.strncmpLoop]
      by_cases hsame : charDifference memory s1 s2 i = 0
      · rw [hsame] at hdiff
        have hheads : a.headD 0 = b.headD 0 := toNat_sub_eq_zero_iff.1 hdiff.symm
        simp only [hsame, ne_eq, not_true_eq_false, if_false]
        cases a with
        | nil =>
            -- both strings end here, so no character is left
            have hb : b = [] := by
              cases b with
              | nil => rfl
              | cons c b => exact absurd hheads.symm h2.2.1
            have hlast : left = 0 := by
              rcases h with hne | hle
              · exact absurd hb.symm hne
              · exact Nat.le_zero.1 (Nat.le_of_succ_le_succ hle)
            subst hlast
            have hzero : memory (s1 + UInt32.ofNat i) = 0 := h1
            simp only [hzero, if_true]
            rfl
        | cons c a =>
            have hnot : memory (s1 + UInt32.ofNat i) ≠ 0 := by
              rw [h1.1]
              exact h1.2.1
            simp only [hnot, if_false]
            cases b with
            | nil => exact absurd hheads h1.2.1
            | cons c' b =>
                obtain rfl : c = c' := hheads
                refine ih h1.tail h2.tail ?_
                rcases h with hne | hle
                · exact Or.inl fun heq => hne (congrArg (List.cons c) heq)
                · exact Or.inr (Nat.le_of_succ_le_succ hle)
      · simp only [ne_eq, hsame, not_false_eq_true, if_true]

theorem Vlibc.strncmpLoop_succ : Vlibc.strncmpLoop memory s1 s2 (left + 1) i =
    if charDifference memory s1 s2 i ≠ 0 then ⟨charDifference memory s1 s2 i, i + 1⟩
    else Vlibc.strncmpLoop memory s1 s2 left (i + 1) := rfl

/-- The loop of the C library reads a character in every round. -/
theorem Vlibc.le_reads : i ≤ (Vlibc.strncmpLoop memory s1 s2 left i).reads := by
  induction left generalizing i with
  | zero => exact Nat.le_refl i
  | succ left ih =>
      rw [Vlibc.strncmpLoop_succ]
      split
      · exact Nat.le_succ i
      · exact Nat.le_trans (Nat.le_succ i) ih

theorem Vlibc.lt_reads : i < (Vlibc.strncmpLoop memory s1 s2 (left + 1) i).reads := by
  rw [Vlibc.strncmpLoop_succ]
  split
  · exact Nat.lt_succ_self i
  · exact Vlibc.le_reads

/-- Behind the terminators of equal strings the C library goes on. -/
theorem Vlibc.reads_past (h1 : Terminated memory (s1 + UInt32.ofNat i) a)
    (h2 : Terminated memory (s2 + UInt32.ofNat i) a) (hleft : a.length + 1 < left) :
    i + (a.length + 1) < (Vlibc.strncmpLoop memory s1 s2 left i).reads := by
  induction a generalizing i left with
  | nil =>
      obtain ⟨left, rfl⟩ := Nat.exists_eq_add_of_lt hleft
      have hsame : charDifference memory s1 s2 i = 0 := by
        rw [charDifference_eq h1 h2, Int.sub_self]
      rw [Vlibc.strncmpLoop_succ]
      simp only [hsame, ne_eq, not_true_eq_false, if_false]
      rw [Nat.add_right_comm]
      exact Vlibc.lt_reads
  | cons c a ih =>
      cases left with
      | zero => exact absurd hleft (Nat.not_lt_zero _)
      | succ left =>
          have hsame : charDifference memory s1 s2 i = 0 := by
            rw [charDifference_eq h1 h2, Int.sub_self]
          rw [Vlibc.strncmpLoop_succ]
          simp only [hsame, ne_eq, not_true_eq_false, if_false]
          have hlt := ih h1.tail h2.tail (Nat.lt_of_succ_lt_succ hleft)
          rw [List.length_cons]
          omega

end Characters

/-! ## Strings and addresses -/

/-- The first place in a string at which another one stands. -/
def FirstAt (a b : CString) (k : Nat) : Prop := b <+: a.drop k ∧ ∀ j < k, ¬ b <+: a.drop j

/-- One of the characters of a string of this length, or its terminator. -/
def InString (s : UInt32) (length : Nat) (address : UInt32) : Prop :=
  ∃ k ≤ length, address = s + UInt32.ofNat k

/-- The addresses of `n` characters. -/
def charsAt (s : UInt32) (n : Nat) : List UInt32 := (List.range n).map fun k => s + UInt32.ofNat k

/-- As many characters as there are addresses. -/
def allChars : Nat := 4294967296

/-- The loop of `strlen`, which is the same in the kernel and in the C library. -/
def strlenLoop (memory : Memory) (s : UInt32) : (rounds length : Nat) → Except Stuck Nat
  | 0, _ => .error .endless
  | rounds + 1, length =>
      if memory (s + UInt32.ofNat length) ≠ 0 then strlenLoop memory s rounds (length + 1)
      else .ok length

/-- `strlen` of the kernel. With no NUL in the whole memory it does not end. -/
def Kernel.strlen (memory : Memory) (s : UInt32) : Except Stuck Nat :=
  strlenLoop memory s allChars 0

/-- `strlen` of the C library. -/
def Vlibc.strlen (memory : Memory) (s : UInt32) : Except Stuck Nat :=
  strlenLoop memory s allChars 0

section Addresses

variable {memory : Memory} {s x : UInt32} {a b : CString} {n k i rounds : Nat}

theorem InString.start (s : UInt32) (n : Nat) : InString s n s :=
  ⟨0, Nat.zero_le n, (UInt32.add_zero s).symm⟩

theorem InString.mono {m : Nat} (h : InString s n x) (hle : n ≤ m) : InString s m x := by
  obtain ⟨j, hj, hx⟩ := h
  exact ⟨j, Nat.le_trans hj hle, hx⟩

/-- The characters of what is left are characters of the whole string. -/
theorem InString.shift (h : InString (s + UInt32.ofNat k) n x) : InString s (k + n) x := by
  obtain ⟨j, hj, hx⟩ := h
  exact ⟨k + j, Nat.add_le_add_left hj k, by rw [hx, Memory.add_ofNat_add]⟩

theorem mem_charsAt : x ∈ charsAt s (n + 1) ↔ InString s n x := by
  simp only [charsAt, List.mem_map, List.mem_range, InString, Nat.lt_succ_iff]
  constructor
  · rintro ⟨j, hj, hx⟩
    exact ⟨j, hj, hx.symm⟩
  · rintro ⟨j, hj, hx⟩
    exact ⟨j, hj, hx.symm⟩

theorem mem_charsAt_of_le (h : x ∈ charsAt s k) (hk : k ≤ n + 1) : InString s n x := by
  cases k with
  | zero => exact absurd h List.not_mem_nil
  | succ k => exact (mem_charsAt.1 h).mono (Nat.le_of_succ_le_succ hk)

/-- What is left of a string behind some of its characters. -/
theorem Terminated.append {pre : CString} (h : Terminated memory s (pre ++ a)) :
    Terminated memory (s + UInt32.ofNat pre.length) a := by
  induction pre generalizing s with
  | nil =>
      have hzero : s + UInt32.ofNat 0 = s := UInt32.add_zero s
      rw [List.length_nil, hzero]
      exact h
  | cons c pre ih =>
      have hrest := ih h.2.2
      have hone : s + 1 = s + UInt32.ofNat 1 := rfl
      rwa [hone, Memory.add_ofNat_add, Nat.add_comm] at hrest

theorem Terminated.ne_zero (h : Terminated memory s a) (hk : k < a.length) :
    memory (s + UInt32.ofNat k) ≠ 0 := by
  have hsplit := (List.take_append_drop k a).symm
  rw [hsplit] at h
  have hrest := h.append
  rw [List.length_take, Nat.min_eq_left (Nat.le_of_lt hk), List.drop_eq_getElem_cons hk] at hrest
  rw [hrest.1]
  exact hrest.2.1

theorem Terminated.end_eq_zero (h : Terminated memory s a) :
    memory (s + UInt32.ofNat a.length) = 0 := by
  rw [← List.append_nil a] at h
  exact h.append

/-- A string leaves room for its terminator. -/
theorem Terminated.length_lt (h : Terminated memory s a) : a.length < 4294967296 := by
  by_contra hlong
  have hlt : a.length % 4294967296 < a.length := by omega
  have hsame : UInt32.ofNat (a.length % 4294967296) = UInt32.ofNat a.length := by
    apply UInt32.toNat_inj.1
    rw [UInt32.toNat_ofNat', UInt32.toNat_ofNat', Nat.mod_mod]
  -- around the end of the address space stands the character that the terminator is
  apply h.ne_zero hlt
  rw [hsame]
  exact h.end_eq_zero

theorem charsAt_succ (s : UInt32) (n : Nat) : charsAt s (n + 1) = s :: charsAt (s + 1) n := by
  unfold charsAt
  rw [List.range_succ_eq_map, List.map_cons, List.map_map]
  refine congrArg₂ List.cons (UInt32.add_zero s) (List.map_congr_left fun k _ => ?_)
  have hone : s + 1 = s + UInt32.ofNat 1 := rfl
  rw [Function.comp_apply, hone, Memory.add_ofNat_add, Nat.add_comm]

theorem charsAt_one (s : UInt32) : charsAt s 1 = [s] := by
  rw [charsAt_succ]
  rfl

theorem strlenLoop_succ : strlenLoop memory s (rounds + 1) i =
    if memory (s + UInt32.ofNat i) ≠ 0 then strlenLoop memory s rounds (i + 1) else .ok i := rfl

theorem strlenLoop_eq (h : Terminated memory (s + UInt32.ofNat i) a) (hrounds : a.length < rounds) :
    strlenLoop memory s rounds i = .ok (i + a.length) := by
  induction a generalizing rounds i with
  | nil =>
      obtain ⟨rounds, rfl⟩ := Nat.exists_eq_succ_of_ne_zero (Nat.ne_of_gt hrounds)
      have hzero : memory (s + UInt32.ofNat i) = 0 := h
      rw [strlenLoop_succ, if_neg (not_not_intro hzero)]
      rfl
  | cons c a ih =>
      obtain ⟨rounds, rfl⟩ := Nat.exists_eq_succ_of_ne_zero (Nat.ne_of_gt (Nat.zero_lt_of_lt hrounds))
      have hnot : memory (s + UInt32.ofNat i) ≠ 0 := by
        rw [h.1]
        exact h.2.1
      rw [strlenLoop_succ, if_pos hnot, ih h.tail (Nat.lt_of_succ_lt_succ hrounds), List.length_cons]
      exact congrArg Except.ok (by omega)

theorem strlenLoop_ok {ahead : Nat} (h : memory (s + UInt32.ofNat (i + ahead)) = 0)
    (hrounds : ahead < rounds) : ∃ length, strlenLoop memory s rounds i = .ok length := by
  induction ahead generalizing rounds i with
  | zero =>
      obtain ⟨rounds, rfl⟩ := Nat.exists_eq_succ_of_ne_zero (Nat.ne_of_gt hrounds)
      have hends : memory (s + UInt32.ofNat i) = 0 := h
      rw [strlenLoop_succ, if_neg (not_not_intro hends)]
      exact ⟨i, rfl⟩
  | succ ahead ih =>
      obtain ⟨rounds, rfl⟩ := Nat.exists_eq_succ_of_ne_zero (Nat.ne_of_gt (Nat.zero_lt_of_lt hrounds))
      rw [strlenLoop_succ]
      split
      · rw [← Nat.add_assoc, Nat.add_right_comm] at h
        exact ih h (Nat.lt_of_succ_lt_succ hrounds)
      · exact ⟨i, rfl⟩

/-- Wherever a NUL is, the loops over a string find it: they go around the address space. -/
theorem exists_ahead (s x : UInt32) (i : Nat) :
    ∃ ahead < allChars, s + UInt32.ofNat (i + ahead) = x := by
  refine ⟨distance (s + UInt32.ofNat i) x, distance_lt _ _, ?_⟩
  rw [← Memory.add_ofNat_add]
  exact start_add_distance _ _

theorem Kernel.strlen_ok (h : memory x = 0) (s : UInt32) :
    ∃ length, Kernel.strlen memory s = .ok length := by
  obtain ⟨ahead, hlt, hahead⟩ := exists_ahead s x 0
  exact strlenLoop_ok (hahead.symm ▸ h) hlt

theorem Kernel.strlen_eq (h : Terminated memory s a) : Kernel.strlen memory s = .ok a.length := by
  have hzero : s + UInt32.ofNat 0 = s := UInt32.add_zero s
  have hloop := @strlenLoop_eq memory s a 0 allChars (hzero.symm ▸ h) h.length_lt
  rwa [Nat.zero_add] at hloop

theorem Vlibc.strlen_eq (h : Terminated memory s a) : Vlibc.strlen memory s = .ok a.length :=
  Kernel.strlen_eq h

theorem FirstAt.unique {k' : Nat} (h : FirstAt a b k) (h' : FirstAt a b k') : k = k' := by
  apply Nat.le_antisymm
  · exact Nat.le_of_not_lt fun hlt => h.2 k' hlt h'.1
  · exact Nat.le_of_not_lt fun hlt => h'.2 k hlt h.1

end Addresses

/-- The two functions agree and are right exactly when the strings differ or the count does not
reach behind the common terminator. -/
theorem strncmp_agrees_iff {memory : Memory} {s1 s2 : UInt32} {a b : CString}
    (h1 : Terminated memory s1 a) (h2 : Terminated memory s2 b) (n : UInt32) :
    StrncmpAgrees memory s1 s2 n a b ↔ a ≠ b ∨ n.toNat ≤ a.length + 1 := by
  have hstart (s : UInt32) : s + UInt32.ofNat 0 = s := UInt32.add_zero s
  rw [← hstart s1] at h1
  rw [← hstart s2] at h2
  have hkernel : (Kernel.strncmp memory s1 s2 n).Correct a b n.toNat := by
    obtain ⟨horder, hreads⟩ := Kernel.strncmpLoop_correct (n := n.toNat) h1 h2
    rw [Nat.zero_add] at hreads
    exact ⟨horder, hreads⟩
  constructor
  · intro h
    by_contra hnot
    obtain ⟨heq, hle⟩ := not_or.1 hnot
    obtain rfl := not_not.1 heq
    have hpast := Vlibc.reads_past h1 h2 (Nat.lt_of_not_le hle)
    rw [Nat.zero_add] at hpast
    exact absurd (h.vlibc.reads_le rfl) (Nat.not_le.2 hpast)
  · intro h
    have hsame : Vlibc.strncmp memory s1 s2 n = Kernel.strncmp memory s1 s2 n :=
      Vlibc.strncmpLoop_eq h1 h2 h
    refine ⟨by rw [hsame], hkernel, ?_⟩
    rw [hsame]
    exact hkernel

/-- `a`, a NUL and another character at two addresses, as behind literals that follow each other. -/
def twoStrings : Memory := fun address =>
  if address = 0 ∨ address = 8 then 0x61
  else if address = 1 ∨ address = 9 then 0
  else if address = 2 then 0x62
  else 0x63

theorem terminated_twoStrings :
    Terminated twoStrings 0 [0x61] ∧ Terminated twoStrings 8 [0x61] := by
  simp only [Terminated]
  decide

/-- Two characters of each string may be compared. -/
theorem strncmp_agrees_iff_two : StrncmpAgrees twoStrings 0 8 2 [0x61] [0x61] :=
  (strncmp_agrees_iff terminated_twoStrings.1 terminated_twoStrings.2 2).2 (Or.inr (by decide))

/-- With a count of 3 the C library finds a difference behind the terminators. -/
theorem not_strncmp_agrees : ¬ ∀ (memory : Memory) (s1 s2 n : UInt32) (a b : CString),
    Terminated memory s1 a → Terminated memory s2 b → StrncmpAgrees memory s1 s2 n a b := by
  intro hall
  have h := hall twoStrings 0 8 3 [0x61] [0x61] terminated_twoStrings.1 terminated_twoStrings.2
  have hsign := h.sameSign
  revert hsign
  decide

end Vmwos
