import Vmwos.Lib.Strings
import Mathlib.Data.List.Infix
import Mathlib.Tactic.IntervalCases

/-!
# Searching a string

`strchr` and `strstr` of the C library of the programs. `strchr` also finds the terminator, and
`strstr` looks for the first character of its pattern with it. So an empty pattern is found at the
terminator of the string and not at its beginning: `strstr_iff` says that this is the only
difference from what a search is meant to return. The addresses that are read are kept beside the
result.
-/

set_option autoImplicit false

namespace Vmwos

open Library

namespace Vlibc

/-- What a search returns, with 0 for `NULL`, and the addresses that it has read. -/
structure Searched where
  result : UInt32
  reads : List UInt32

/-- The loop of `strchr`. -/
def strchrLoop (memory : Memory) (c : Int) : (rounds : Nat) → UInt32 → Except Stuck Searched
  | 0, _ => .error .endless
  | rounds + 1, s =>
      if ((memory s).toNat : Int) = c then .ok ⟨s, [s]⟩
      else if memory s ≠ 0 then
        match strchrLoop memory c rounds (s + 1) with
        | .error stuck => .error stuck
        | .ok searched => .ok ⟨searched.result, s :: searched.reads⟩
      else .ok ⟨0, [s]⟩

/-- `strchr` -/
def strchr (memory : Memory) (s : UInt32) (c : Int) : Except Stuck Searched :=
  strchrLoop memory c allChars s

/-- The loop of `strstr` over the places where the first character is found. -/
def strstrLoop (memory : Memory) (s2 len : UInt32) : (rounds : Nat) → UInt32 → Except Stuck Searched
  | 0, _ => .error .endless
  | rounds + 1, p =>
      match strchr memory p (memory s2).toNat with
      | .error stuck => .error stuck
      | .ok found =>
          if found.result ≠ 0 then
            let compared := strncmp memory found.result s2 len
            let reads := s2 :: (found.reads ++ (charsAt found.result compared.reads ++
              charsAt s2 compared.reads))
            if compared.result = 0 then .ok ⟨found.result, reads⟩
            else
              match strstrLoop memory s2 len rounds (found.result + 1) with
              | .error stuck => .error stuck
              | .ok searched => .ok ⟨searched.result, reads ++ searched.reads⟩
          else .ok ⟨0, s2 :: found.reads⟩

/-- `strstr` -/
def strstr (memory : Memory) (s1 s2 : UInt32) : Except Stuck Searched :=
  match strlen memory s2 with
  | .error stuck => .error stuck
  | .ok len =>
      match strstrLoop memory s2 (UInt32.ofNat len) allChars s1 with
      | .error stuck => .error stuck
      | .ok searched => .ok ⟨searched.result, charsAt s2 (len + 1) ++ searched.reads⟩

end Vlibc

/-! ## What a search is meant to be -/

/-- No character of a string, and not its terminator, is at the address 0. -/
def NotNull (s : UInt32) (length : Nat) : Prop := ¬ InString s length 0

/-- A search for `b`, which is at `s2`, in the string `a` at `s1`. -/
structure Vlibc.Searched.Correct (searched : Vlibc.Searched) (s1 s2 : UInt32) (a b : CString) :
    Prop where
  first : ∀ k, FirstAt a b k → searched.result = s1 + UInt32.ofNat k
  empty : b = [] → searched.result = s1
  null_iff : searched.result = 0 ↔ ¬ b <:+: a
  reads : ∀ address ∈ searched.reads, InString s1 a.length address ∨ InString s2 b.length address

/-! ## First places -/

section Places

variable {a b : CString} {c : UInt8} {k : Nat}

theorem firstAt_zero (h : b <+: a) : FirstAt a b 0 := ⟨h, fun _ hj => absurd hj (Nat.not_lt_zero _)⟩

theorem FirstAt.occurs (h : FirstAt a b k) : b <:+: a := h.1.isInfix.trans (List.drop_suffix k a).isInfix

/-- A character in front at which the pattern does not stand. -/
theorem FirstAt.cons (h : FirstAt a b k) (hc : ¬ b <+: c :: a) : FirstAt (c :: a) b (k + 1) := by
  refine ⟨h.1, fun j hj => ?_⟩
  cases j with
  | zero => exact hc
  | succ j => exact h.2 j (Nat.lt_of_succ_lt_succ hj)

/-- A pattern with a first character stands at none of the other characters in front. -/
theorem FirstAt.append {pre : CString} (h : FirstAt a (c :: b) k) (hpre : c ∉ pre) :
    FirstAt (pre ++ a) (c :: b) (pre.length + k) := by
  induction pre with
  | nil =>
      rw [List.nil_append, List.length_nil, Nat.zero_add]
      exact h
  | cons x pre ih =>
      obtain ⟨hx, hpre⟩ := List.ne_and_not_mem_of_not_mem_cons hpre
      rw [List.cons_append, List.length_cons, Nat.add_right_comm]
      exact (ih hpre).cons fun hstands => hx (List.cons_prefix_cons.1 hstands).1

theorem not_infix_append {pre : CString} (h : ¬ c :: b <:+: a) (hpre : c ∉ pre) :
    ¬ c :: b <:+: pre ++ a := by
  induction pre with
  | nil => exact h
  | cons x pre ih =>
      obtain ⟨hx, hpre⟩ := List.ne_and_not_mem_of_not_mem_cons hpre
      rw [List.cons_append, List.infix_cons_iff]
      rintro (hstands | hoccurs)
      · exact hx (List.cons_prefix_cons.1 hstands).1
      · exact ih hpre hoccurs

end Places

theorem NotNull.append {s : UInt32} {a pre : CString} (h : NotNull s (pre ++ a).length) :
    NotNull (s + UInt32.ofNat pre.length) a.length := by
  intro hin
  rw [List.length_append] at h
  exact h hin.shift

/-! ## The functions it is made of -/

namespace Vlibc

section Parts

variable {memory : Memory} {s s1 s2 : UInt32} {a b : CString} {rounds i left : Nat}

/-- A character is found at its first place, and the terminator behind the string. -/
theorem strchrLoop_found {c : UInt8} {pre : CString} (h : Terminated memory s (pre ++ a))
    (hc : a.headD 0 = c) (hpre : c ∉ pre) (hrounds : pre.length < rounds) :
    strchrLoop memory c.toNat rounds s =
      .ok ⟨s + UInt32.ofNat pre.length, charsAt s (pre.length + 1)⟩ := by
  induction pre generalizing rounds s with
  | nil =>
      obtain ⟨rounds, rfl⟩ := Nat.exists_eq_succ_of_ne_zero (Nat.ne_of_gt hrounds)
      have hzero : s + UInt32.ofNat 0 = s := UInt32.add_zero s
      have hhead : memory s = c := h.head.trans hc
      rw [strchrLoop, hhead, if_pos rfl, List.length_nil, hzero, charsAt_one]
  | cons x pre ih =>
      obtain ⟨rounds, rfl⟩ := Nat.exists_eq_succ_of_ne_zero (Nat.ne_of_gt (Nat.zero_lt_of_lt hrounds))
      obtain ⟨hx, hpre⟩ := List.ne_and_not_mem_of_not_mem_cons hpre
      have hne : ((memory s).toNat : Int) ≠ c.toNat := by
        rw [h.1]
        exact fun heq => hx (UInt8.toNat_inj.1 (Int.ofNat_inj.1 heq)).symm
      have hnot : memory s ≠ 0 := by
        rw [h.1]
        exact h.2.1
      have hone : s + 1 = s + UInt32.ofNat 1 := rfl
      rw [strchrLoop, if_neg hne, if_pos hnot, ih h.2.2 hpre (Nat.lt_of_succ_lt_succ hrounds)]
      simp only [List.length_cons]
      rw [charsAt_succ s, hone, Memory.add_ofNat_add, Nat.add_comm 1]

/-- A character that is not in the string is not found. -/
theorem strchrLoop_absent {c : UInt8} (h : Terminated memory s a) (hc : c ≠ 0) (ha : c ∉ a)
    (hrounds : a.length < rounds) :
    strchrLoop memory c.toNat rounds s = .ok ⟨0, charsAt s (a.length + 1)⟩ := by
  induction a generalizing rounds s with
  | nil =>
      obtain ⟨rounds, rfl⟩ := Nat.exists_eq_succ_of_ne_zero (Nat.ne_of_gt hrounds)
      have hend : memory s = 0 := h
      have hne : (((0 : UInt8).toNat : Nat) : Int) ≠ c.toNat := fun heq =>
        hc (UInt8.toNat_inj.1 (Int.ofNat_inj.1 heq)).symm
      rw [strchrLoop, hend, if_neg hne, if_neg (not_not_intro rfl), List.length_nil, charsAt_one]
  | cons x a ih =>
      obtain ⟨rounds, rfl⟩ := Nat.exists_eq_succ_of_ne_zero (Nat.ne_of_gt (Nat.zero_lt_of_lt hrounds))
      obtain ⟨hx, ha⟩ := List.ne_and_not_mem_of_not_mem_cons ha
      have hne : ((memory s).toNat : Int) ≠ c.toNat := by
        rw [h.1]
        exact fun heq => hx (UInt8.toNat_inj.1 (Int.ofNat_inj.1 heq)).symm
      have hnot : memory s ≠ 0 := by
        rw [h.1]
        exact h.2.1
      rw [strchrLoop, if_neg hne, if_pos hnot, ih h.2.2 ha (Nat.lt_of_succ_lt_succ hrounds)]
      simp only [List.length_cons]
      rw [charsAt_succ s]

/-- A comparison reads no more characters than it is told to, and none behind a terminator that
stands in for a character of the other string. -/
theorem strncmpLoop_reads (h1 : Terminated memory (s1 + UInt32.ofNat i) a)
    (h2 : Terminated memory (s2 + UInt32.ofNat i) b) (hleft : left ≤ b.length) :
    (strncmpLoop memory s1 s2 left i).reads ≤ i + left ∧
      (strncmpLoop memory s1 s2 left i).reads ≤ i + a.length + 1 := by
  induction left generalizing i a b with
  | zero => exact ⟨Nat.le_refl i, Nat.le_add_right i (a.length + 1)⟩
  | succ left ih =>
      cases b with
      | nil => exact absurd hleft (Nat.not_succ_le_zero left)
      | cons c' b =>
          rw [strncmpLoop]
          by_cases hr : charDifference memory s1 s2 i = 0
          · simp only [hr, ne_eq, not_true_eq_false, if_false]
            rw [charDifference_eq h1 h2] at hr
            cases a with
            | nil => exact absurd (toNat_sub_eq_zero_iff.1 hr).symm h2.2.1
            | cons c a =>
                have hrest := ih h1.tail h2.tail (Nat.le_of_succ_le_succ hleft)
                rw [List.length_cons]
                omega
          · simp only [ne_eq, hr, not_false_eq_true, if_true]
            omega

/-- A pattern is compared with what stands at a place. -/
theorem strncmp_pattern (h1 : Terminated memory s1 a) (h2 : Terminated memory s2 b) :
    ((strncmp memory s1 s2 (UInt32.ofNat b.length)).result = 0 ↔ b <+: a) ∧
      (strncmp memory s1 s2 (UInt32.ofNat b.length)).reads ≤ b.length ∧
      (strncmp memory s1 s2 (UInt32.ofNat b.length)).reads ≤ a.length + 1 := by
  have hlength : (UInt32.ofNat b.length).toNat = b.length := by
    rw [UInt32.toNat_ofNat', Nat.mod_eq_of_lt h2.length_lt]
  have hzero (s : UInt32) : s + UInt32.ofNat 0 = s := UInt32.add_zero s
  rw [← hzero s1] at h1
  rw [← hzero s2] at h2
  have hreads := strncmpLoop_reads h1 h2 (Nat.le_refl b.length)
  have hsame : strncmpLoop memory s1 s2 b.length 0 = Kernel.strncmpLoop memory s1 s2 b.length 0 := by
    apply strncmpLoop_eq h1 h2
    by_cases hab : a = b
    · rw [hab]
      exact Or.inr (Nat.le_succ b.length)
    · exact Or.inl hab
  have horder := (Kernel.strncmpLoop_correct (n := b.length) h1 h2).1
  rw [Nat.zero_add] at hreads
  unfold strncmp
  rw [hlength]
  refine ⟨?_, hreads.1, by rw [Nat.zero_add] at hreads; exact hreads.2⟩
  rw [hsame, horder.zero_iff, List.take_length, List.prefix_iff_eq_take, eq_comm]

end Parts

/-! ## The search -/

section Search

variable {memory : Memory} {s1 s2 p : UInt32} {a b pre post : CString} {c : UInt8} {rounds : Nat}

/-- What one round reads belongs to one of the two strings. -/
theorem round_reads {n : Nat} (hn : n ≤ b.length) (hn' : n ≤ a.length + 1) :
    ∀ x ∈ s2 :: (charsAt p (pre.length + 1) ++ (charsAt (p + UInt32.ofNat pre.length) n ++
        charsAt s2 n)), InString p (pre ++ a).length x ∨ InString s2 b.length x := by
  intro x hx
  rw [List.length_append]
  simp only [List.mem_cons, List.mem_append] at hx
  rcases hx with rfl | hx | hx | hx
  · exact Or.inr (InString.start x b.length)
  · exact Or.inl ((mem_charsAt.1 hx).mono (Nat.le_add_right _ _))
  · exact Or.inl (mem_charsAt_of_le hx hn').shift
  · exact Or.inr (mem_charsAt_of_le hx (Nat.le_succ_of_le hn))

/-- A pattern that is not empty is found at its first place. The places where its first character
stands are gone through one after the other. -/
theorem strstrLoop_eq (h1 : Terminated memory p a) (hnull : NotNull p a.length)
    (h2 : Terminated memory s2 (c :: b)) (hrounds : a.length < rounds) :
    ∃ searched, strstrLoop memory s2 (UInt32.ofNat (c :: b).length) rounds p = .ok searched ∧
      ((∃ k, FirstAt a (c :: b) k ∧ searched.result = p + UInt32.ofNat k) ∨
        ¬ c :: b <:+: a ∧ searched.result = 0) ∧
      ∀ x ∈ searched.reads, InString p a.length x ∨ InString s2 (c :: b).length x := by
  induction rounds generalizing a p with
  | zero => exact absurd hrounds (Nat.not_lt_zero _)
  | succ rounds ih =>
      have hfirst : memory s2 = c := h2.1
      rw [strstrLoop, hfirst]
      by_cases hc : c ∈ a
      · obtain ⟨pre, post, rfl, hpre⟩ := List.eq_append_cons_of_mem hc
        have hlength := h1.length_lt
        have hchr : strchr memory p c.toNat =
            .ok ⟨p + UInt32.ofNat pre.length, charsAt p (pre.length + 1)⟩ := by
          refine strchrLoop_found h1 rfl hpre ?_
          rw [List.length_append] at hlength
          exact Nat.lt_of_le_of_lt (Nat.le_add_right _ _) hlength
        have hplace : p + UInt32.ofNat pre.length ≠ 0 := by
          refine fun hzero => hnull ⟨pre.length, ?_, hzero.symm⟩
          rw [List.length_append]
          exact Nat.le_add_right _ _
        obtain ⟨hzero, hreads, hreads'⟩ := strncmp_pattern h1.append h2
        have hround := @round_reads s2 p (c :: post) (c :: b) pre _ hreads hreads'
        simp only [hchr, ne_eq, hplace, not_false_eq_true, if_true]
        by_cases hstands : c :: b <+: c :: post
        · -- the pattern stands here
          rw [if_pos (hzero.2 hstands)]
          have hplace := (firstAt_zero hstands).append hpre
          exact ⟨_, rfl, Or.inl ⟨_, hplace, rfl⟩, hround⟩
        · have hbehind : Terminated memory (p + UInt32.ofNat pre.length + 1) post :=
            h1.append.2.2
          have hnext : p + UInt32.ofNat pre.length + 1 = p + UInt32.ofNat (pre.length + 1) :=
            (offset_succ p pre.length).symm
          have hsplit : (pre ++ c :: post).length = (pre ++ [c]).length + post.length := by
            rw [List.length_append, List.length_append, List.length_cons, List.length_singleton]
            omega
          rw [hnext] at hbehind
          rw [hsplit] at hrounds
          have hnull' : NotNull (p + UInt32.ofNat (pre.length + 1)) post.length := by
            have hin : pre ++ c :: post = (pre ++ [c]) ++ post := by simp
            rw [hin] at hnull
            have hshift := hnull.append
            rwa [List.length_append, List.length_singleton] at hshift
          have hlt : post.length < rounds := by
            rw [List.length_append, List.length_singleton] at hrounds
            omega
          obtain ⟨searched, hloop, hresult, hin⟩ := ih hbehind hnull' hlt
          rw [if_neg (mt hzero.1 hstands), hnext, hloop]
          refine ⟨_, rfl, ?_, fun x hx => ?_⟩
          · rcases hresult with ⟨k, hk, hresult⟩ | ⟨habsent, hresult⟩
            · refine Or.inl ⟨_, (hk.cons hstands).append hpre, ?_⟩
              rw [hresult, Memory.add_ofNat_add]
              exact congrArg (p + UInt32.ofNat ·) (by omega)
            · refine Or.inr ⟨not_infix_append ?_ hpre, hresult⟩
              rw [List.infix_cons_iff]
              exact not_or.2 ⟨hstands, habsent⟩
          · rcases List.mem_append.1 hx with hx | hx
            · exact hround x hx
            · rcases hin x hx with hx | hx
              · refine Or.inl ?_
                rw [hsplit, List.length_append, List.length_singleton]
                exact hx.shift
              · exact Or.inr hx
      · have hchr : strchr memory p c.toNat = .ok ⟨0, charsAt p (a.length + 1)⟩ :=
          strchrLoop_absent h1 h2.2.1 hc h1.length_lt
        simp only [hchr, ne_eq, not_true_eq_false, if_false]
        refine ⟨_, rfl, Or.inr ⟨?_, rfl⟩, fun x hx => ?_⟩
        · exact fun hoccurs => hc (hoccurs.subset List.mem_cons_self)
        · rcases List.mem_cons.1 hx with rfl | hx
          · exact Or.inr (InString.start x _)
          · exact Or.inl (mem_charsAt.1 hx)

/-- An empty pattern is found at the terminator. -/
theorem strstr_empty (h1 : Terminated memory s1 a) (hnull : NotNull s1 a.length)
    (h2 : Terminated memory s2 []) : ∃ searched, strstr memory s1 s2 = .ok searched ∧
      searched.result = s1 + UInt32.ofNat a.length ∧
      ∀ x ∈ searched.reads, InString s1 a.length x ∨ InString s2 0 x := by
  have hzero : memory s2 = 0 := h2
  have hnul : (0 : UInt8) ∉ a := by
    intro hmem
    obtain ⟨pre, post, rfl, -⟩ := List.eq_append_cons_of_mem hmem
    exact h1.append.2.1 rfl
  have hchr : strchr memory s1 (0 : UInt8).toNat =
      .ok ⟨s1 + UInt32.ofNat a.length, charsAt s1 (a.length + 1)⟩ := by
    refine strchrLoop_found (a := []) ?_ rfl hnul h1.length_lt
    rwa [List.append_nil]
  have hplace : s1 + UInt32.ofNat a.length ≠ 0 := fun hzero =>
    hnull ⟨a.length, Nat.le_refl _, hzero.symm⟩
  have hcmp : strncmp memory (s1 + UInt32.ofNat a.length) s2 (UInt32.ofNat 0) = ⟨0, 0⟩ := rfl
  rw [strstr, strlen_eq h2]
  simp only [List.length_nil]
  rw [allChars, strstrLoop, hzero]
  simp only [hchr, ne_eq, hplace, not_false_eq_true, if_true, hcmp]
  refine ⟨_, rfl, rfl, fun x hx => ?_⟩
  rcases List.mem_append.1 hx with hx | hx
  · exact Or.inr (mem_charsAt.1 hx)
  · have hround := @round_reads s2 s1 [] [] a 0 (Nat.le_refl 0) (Nat.zero_le _) x hx
    rwa [List.append_nil] at hround

end Search

end Vlibc

/-- A search is right exactly when the pattern is not empty or the string is. -/
theorem strstr_iff {memory : Memory} {s1 s2 : UInt32} {a b : CString}
    (h1 : Terminated memory s1 a) (hnull : NotNull s1 a.length) (h2 : Terminated memory s2 b) :
    (∃ searched, Vlibc.strstr memory s1 s2 = .ok searched ∧ searched.Correct s1 s2 a b) ↔
      b ≠ [] ∨ a = [] := by
  cases b with
  | nil =>
      obtain ⟨searched, hstr, hresult, hreads⟩ := Vlibc.strstr_empty h1 hnull h2
      rw [hstr]
      constructor
      · rintro ⟨_, hsame, hcorrect⟩
        obtain rfl := Except.ok.inj hsame
        have hstart := hcorrect.empty rfl
        rw [hresult] at hstart
        have hlength : distance s1 s1 = a.length := by
          rw [distance_eq_iff h1.length_lt]
          exact hstart.symm
        rw [distance_self] at hlength
        exact Or.inr (List.length_eq_zero_iff.1 hlength.symm)
      · rintro (hne | rfl)
        · exact absurd rfl hne
        · have hzero : s1 + UInt32.ofNat 0 = s1 := UInt32.add_zero s1
          rw [List.length_nil, hzero] at hresult
          refine ⟨searched, rfl, fun k hk => ?_, fun _ => hresult, ?_, hreads⟩
          · rw [hresult, hk.unique (firstAt_zero List.nil_prefix), hzero]
          · rw [hresult]
            refine iff_of_false (fun hs1 => hnull ?_) (not_not_intro List.nil_infix)
            rw [hs1]
            exact InString.start 0 _
  | cons c b =>
      obtain ⟨searched, hloop, hresult, hreads⟩ := Vlibc.strstrLoop_eq h1 hnull h2 h1.length_lt
      refine iff_of_true ?_ (Or.inl (List.cons_ne_nil c b))
      rw [Vlibc.strstr, Vlibc.strlen_eq h2]
      simp only
      rw [allChars, hloop]
      refine ⟨_, rfl, fun k hk => ?_, fun hnil => ?_, ?_, fun x hx => ?_⟩
      · rcases hresult with ⟨k', hk', hresult⟩ | ⟨habsent, -⟩
        · rw [hk.unique hk']
          exact hresult
        · exact absurd hk.occurs habsent
      · exact absurd hnil (List.cons_ne_nil c b)
      · rcases hresult with ⟨k, hk, hresult⟩ | ⟨habsent, hresult⟩
        · refine iff_of_false (fun hzero => hnull ⟨k, ?_, ?_⟩) (not_not_intro hk.occurs)
          · by_contra hlong
            have hstands := hk.1
            rw [List.drop_eq_nil_of_le (Nat.le_of_not_le hlong)] at hstands
            exact absurd (List.prefix_nil.1 hstands) (List.cons_ne_nil c b)
          · exact hzero.symm.trans hresult
        · exact iff_of_true hresult habsent
      · rcases List.mem_append.1 hx with hx | hx
        · exact Or.inr (mem_charsAt.1 hx)
        · exact hreads x hx

/-- `ab` at the address 8 and `b` at 16, in a memory that is zero elsewhere. -/
def shortStrings : Memory := fun address =>
  if address = 8 then 0x61 else if address = 9 ∨ address = 16 then 0x62 else 0

theorem terminated_shortStrings : Terminated shortStrings 8 [0x61, 0x62] ∧
    Terminated shortStrings 16 [0x62] ∧ Terminated shortStrings 24 [] := by
  simp only [Terminated]
  decide

theorem notNull_shortStrings : NotNull 8 [(0x61 : UInt8), 0x62].length := by
  rintro ⟨k, hk, hzero⟩
  have hk : k ≤ 2 := hk
  interval_cases k <;> exact absurd hzero (by decide)

/-- The second character is found. -/
theorem strstr_iff_short : ∃ searched, Vlibc.strstr shortStrings 8 16 = .ok searched ∧
    searched.Correct 8 16 [0x61, 0x62] [0x62] :=
  (strstr_iff terminated_shortStrings.1 notNull_shortStrings terminated_shortStrings.2.1).2
    (Or.inl (by decide))

/-- The search for an empty pattern returns the address 10 of the terminator. -/
theorem not_strstr : ¬ ∀ (memory : Memory) (s1 s2 : UInt32) (a b : CString),
    Terminated memory s1 a → NotNull s1 a.length → Terminated memory s2 b →
      ∃ searched, Vlibc.strstr memory s1 s2 = .ok searched ∧ searched.Correct s1 s2 a b := by
  intro hall
  have h := hall shortStrings 8 24 [0x61, 0x62] [] terminated_shortStrings.1 notNull_shortStrings
    terminated_shortStrings.2.2
  obtain ⟨searched, hstr, hcorrect⟩ := h
  obtain ⟨found, hfound, hresult, -⟩ := Vlibc.strstr_empty terminated_shortStrings.1
    notNull_shortStrings terminated_shortStrings.2.2
  obtain rfl := Except.ok.inj (hstr.symm.trans hfound)
  have hstart := hcorrect.empty rfl
  rw [hresult] at hstart
  exact absurd hstart (by decide)

end Vmwos
