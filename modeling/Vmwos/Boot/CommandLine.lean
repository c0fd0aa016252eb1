import Vmwos.Lib.Strings

/-!
# Numbers on the command line

`parse_cmdline_int` looks for a key on the command line and reads the number behind it. The loop over
the digits stops where the key would no longer fit on the rest of the line. That is the bound of the
search for the key, and it cuts off digits near the end of the line: `parseCmdlineInt_iff` says when
all of them are read.
-/

set_option autoImplicit false

namespace Vmwos

open Library

/-- A number that has been read, and the addresses that were looked at. -/
structure ParsedInt where
  result : Int
  reads : List UInt32

section

variable (memory : Memory) (cmdline : UInt32)

/-- `&cmdline[i]` -/
def lineAt (i : Nat) : UInt32 := cmdline + UInt32.ofNat i

/-- The number with one more digit. -/
def addDigit (base : Nat) (result : Int) (digit : UInt8) : Int :=
  let result := int32 (result * base)
  if digit ≤ 0x39 then int32 (result + (digit.toNat - 0x30))
  else int32 (result + (digit.toNat - 0x61 + 10))

/-- The loop of `parse_cmdline_int` over the digits. -/
def digitsLoop (keyLen cmdlineLen base : Nat) :
    (rounds i : Nat) → (result : Int) → Except Stuck ParsedInt
  | 0, _, _ => .error .endless
  | rounds + 1, i, result =>
      if cmdlineLen < uint32 (i + keyLen) then .ok ⟨result, []⟩
      else
        let digit := memory (lineAt cmdline i)
        if digit = 0x20 ∨ digit = 0 then .ok ⟨result, [lineAt cmdline i]⟩
        else
          match digitsLoop keyLen cmdlineLen base rounds (i + 1) (addDigit base result digit) with
          | .error stuck => .error stuck
          | .ok rest => .ok ⟨rest.result, lineAt cmdline i :: rest.reads⟩

/-- What follows the key: the base, and the digits from behind the equals sign on. -/
def parseValue (keyLen cmdlineLen i : Nat) : Except Stuck ParsedInt :=
  if memory (lineAt cmdline i) = 0x30 then
    let reads := [lineAt cmdline i, lineAt cmdline (i + 1)]
    if memory (lineAt cmdline (i + 1)) = 0x78 then
      match digitsLoop memory cmdline keyLen cmdlineLen 16 allChars (i + 2) 0 with
      | .error stuck => .error stuck
      | .ok rest => .ok ⟨rest.result, reads ++ rest.reads⟩
    else
      match digitsLoop memory cmdline keyLen cmdlineLen 10 allChars i 0 with
      | .error stuck => .error stuck
      | .ok rest => .ok ⟨rest.result, reads ++ rest.reads⟩
  else
    match digitsLoop memory cmdline keyLen cmdlineLen 10 allChars i 0 with
    | .error stuck => .error stuck
    | .ok rest => .ok ⟨rest.result, lineAt cmdline i :: rest.reads⟩

/-- The loop of `parse_cmdline_int` over the places of the line. -/
def keyLoop (key : UInt32) (keyLen cmdlineLen : Nat) : (rounds i : Nat) → Except Stuck ParsedInt
  | 0, _ => .error .endless
  | rounds + 1, i =>
      if memory (lineAt cmdline i) = 0 then .ok ⟨0, [lineAt cmdline i]⟩
      else if cmdlineLen < uint32 (i + keyLen) then .ok ⟨0, [lineAt cmdline i]⟩
      else
        let compared := Kernel.strncmp memory key (lineAt cmdline i) (UInt32.ofNat keyLen)
        let reads := lineAt cmdline i ::
          (charsAt key compared.reads ++ charsAt (lineAt cmdline i) compared.reads)
        if compared.result = 0 then
          match parseValue memory cmdline keyLen cmdlineLen (i + keyLen + 1) with
          | .error stuck => .error stuck
          | .ok value => .ok ⟨value.result, reads ++ value.reads⟩
        else
          match keyLoop key keyLen cmdlineLen rounds (i + 1) with
          | .error stuck => .error stuck
          | .ok rest => .ok ⟨rest.result, reads ++ rest.reads⟩

/-- `parse_cmdline_int` -/
def parseCmdlineInt (key : UInt32) : Except Stuck ParsedInt :=
  match Kernel.strlen memory cmdline with
  | .error stuck => .error stuck
  | .ok cmdlineLen =>
      match Kernel.strlen memory key with
      | .error stuck => .error stuck
      | .ok keyLen =>
          match keyLoop memory cmdline key keyLen cmdlineLen allChars 0 with
          | .error stuck => .error stuck
          | .ok found => .ok ⟨found.result,
              charsAt cmdline (cmdlineLen + 1) ++ (charsAt key (keyLen + 1) ++ found.reads)⟩

end

/-! ## Numbers as they are written -/

/-- The value of a digit. -/
def digitValue (digit : UInt8) : Nat :=
  if digit ≤ 0x39 then digit.toNat - 0x30 else digit.toNat - 0x61 + 10

def IsDigit (c : UInt8) : Prop := 0x30 ≤ c ∧ c ≤ 0x39

/-- A digit or one of the lower-case letters up to `f`. -/
def IsHexDigit (c : UInt8) : Prop := IsDigit c ∨ 0x61 ≤ c ∧ c ≤ 0x66

/-- The number with further digits. -/
def digitsFrom (base n : Nat) (digits : CString) : Nat :=
  digits.foldl (fun n d => n * base + digitValue d) n

/-- How a number is written: in decimal, or in hexadecimal behind `0x`. -/
inductive Writes : (lead digits : CString) → (base : Nat) → Prop where
  | decimal {digits : CString} (hne : digits ≠ []) (h : ∀ d ∈ digits, IsDigit d) :
      Writes [] digits 10
  | hex {digits : CString} (hne : digits ≠ []) (h : ∀ d ∈ digits, IsHexDigit d) :
      Writes [0x30, 0x78] digits 16

/-- The end of a word: the end of the line or a space. -/
def EndsWord (rest : CString) : Prop := rest = [] ∨ rest.head? = some 0x20

/-- The word of a line in which a key stands for the first time, and is followed by a number. -/
structure IntWord (line key : CString) where
  before : CString
  lead : CString
  digits : CString
  rest : CString
  base : Nat
  line_eq : line = before ++ (key ++ 0x3d :: (lead ++ (digits ++ rest)))
  first : FirstAt line key before.length
  writes : Writes lead digits base
  endsWord : EndsWord rest
  small : digitsFrom base 0 digits < 2147483648

namespace IntWord

variable {line key : CString} (word : IntWord line key)

/-- The number of the word. -/
def value : Nat := digitsFrom word.base 0 word.digits

/-- The place of the first digit. -/
def place : Nat := word.before.length + key.length + 1 + word.lead.length

/-- The key would fit on the rest of the line from every digit on. -/
def InBound : Prop := ∀ j < word.digits.length, uint32 (word.place + j + key.length) ≤ line.length

end IntWord

/-- The number is returned, and nothing behind the two terminators is read. -/
def ReturnsInt (memory : Memory) (cmdline key : UInt32) (line keyName : CString) (n : Nat) : Prop :=
  ∃ parsed, parseCmdlineInt memory cmdline key = .ok parsed ∧ parsed.result = n ∧
    ∀ x ∈ parsed.reads, InString cmdline line.length x ∨ InString key keyName.length x

/-! ## The digits -/

section Digits

variable {base n : Nat} {digits : CString} {d : UInt8}

theorem digitsFrom_cons : digitsFrom base n (d :: digits) =
    digitsFrom base (n * base + digitValue d) digits := rfl

theorem digitsFrom_append {more : CString} : digitsFrom base n (digits ++ more) =
    digitsFrom base (digitsFrom base n digits) more :=
  List.foldl_append

/-- A number does not get smaller by further digits. -/
theorem le_digitsFrom (hbase : 0 < base) : n ≤ digitsFrom base n digits := by
  induction digits generalizing n with
  | nil => exact Nat.le_refl n
  | cons d digits ih =>
      calc n ≤ n * base := Nat.le_mul_of_pos_right n hbase
        _ ≤ n * base + digitValue d := Nat.le_add_right _ _
        _ ≤ digitsFrom base n (d :: digits) := ih

theorem lt_digitsFrom (hbase : 1 < base) (hn : 0 < n) (hne : digits ≠ []) :
    n < digitsFrom base n digits := by
  cases digits with
  | nil => exact absurd rfl hne
  | cons d digits =>
      calc n = n * 1 := (Nat.mul_one n).symm
        _ < n * base := Nat.mul_lt_mul_of_pos_left hbase hn
        _ ≤ n * base + digitValue d := Nat.le_add_right _ _
        _ ≤ digitsFrom base n (d :: digits) := le_digitsFrom (Nat.lt_trans Nat.zero_lt_one hbase)

/-- Digits that are cut off make a difference, except to 0. -/
theorem digitsFrom_take_iff (hbase : 1 < base) (m : Nat) :
    digitsFrom base 0 (digits.take m) = digitsFrom base 0 digits ↔
      digitsFrom base 0 digits = 0 ∨ digits.length ≤ m := by
  have hsplit : digitsFrom base 0 digits =
      digitsFrom base (digitsFrom base 0 (digits.take m)) (digits.drop m) := by
    rw [← digitsFrom_append, List.take_append_drop]
  constructor
  · intro hsame
    by_cases hlong : digits.length ≤ m
    · exact Or.inr hlong
    · left
      by_contra hne
      have hrest : digits.drop m ≠ [] := fun hnil =>
        hlong (List.drop_eq_nil_iff.1 hnil)
      have hlt := lt_digitsFrom hbase (Nat.pos_of_ne_zero (hsame ▸ hne)) hrest
      rw [← hsplit] at hlt
      exact absurd hsame (Nat.ne_of_lt hlt)
  · rintro (hzero | hshort)
    · have hle : digitsFrom base 0 (digits.take m) ≤ digitsFrom base 0 digits := by
        rw [hsplit]
        exact le_digitsFrom (Nat.lt_trans Nat.zero_lt_one hbase)
      rw [hzero] at hle ⊢
      exact Nat.le_zero.1 hle
    · rw [List.take_of_length_le hshort]

theorem int32_eq {n : Int} (h0 : 0 ≤ n) (h : n < 2147483648) : int32 n = n := by
  unfold int32
  omega

/-- The numbers of the loop are those of the digits as long as they are small. -/
theorem addDigit_eq (hd : IsHexDigit d)
    (hsmall : n * base + digitValue d < 2147483648) :
    addDigit base n d = ((n * base + digitValue d : Nat) : Int) := by
  have hmul : int32 ((n : Int) * base) = ((n * base : Nat) : Int) := by
    rw [← Int.natCast_mul]
    exact int32_eq (Int.natCast_nonneg _) (by omega)
  unfold addDigit
  dsimp only
  rw [hmul]
  unfold digitValue at hsmall ⊢
  by_cases hlow : d ≤ 0x39
  · rw [if_pos hlow] at hsmall ⊢
    rw [if_pos hlow]
    have hge : 0x30 ≤ d.toNat := by
      rcases hd with hd | hd
      · exact UInt8.le_iff_toNat_le.1 hd.1
      · have := UInt8.le_iff_toNat_le.1 hd.1
        have := UInt8.le_iff_toNat_le.1 hlow
        simp at *
        omega
    rw [int32_eq (by omega) (by omega)]
    omega
  · rw [if_neg hlow] at hsmall ⊢
    rw [if_neg hlow]
    have hge : 0x61 ≤ d.toNat := by
      rcases hd with hd | hd
      · exact absurd hd.2 hlow
      · exact UInt8.le_iff_toNat_le.1 hd.1
    rw [int32_eq (by omega) (by omega)]
    omega

theorem IsHexDigit.ne_space (hd : IsHexDigit d) : ¬ (d = 0x20 ∨ d = 0) := by
  rintro (rfl | rfl)
  · exact absurd hd (by unfold IsHexDigit IsDigit; decide)
  · exact absurd hd (by unfold IsHexDigit IsDigit; decide)

/-- A digit of a number of either kind. -/
theorem Writes.isHexDigit {lead : CString} (h : Writes lead digits base) (hd : d ∈ digits) :
    IsHexDigit d := by
  cases h with
  | decimal hne h => exact Or.inl (h d hd)
  | hex hne h => exact h d hd

theorem Writes.one_lt {lead : CString} (h : Writes lead digits base) : 1 < base := by
  cases h <;> decide

end Digits

/-! ## The loops -/

section Loops

variable {memory : Memory} {cmdline key : UInt32} {line keyName digits rest : CString}
  {base rounds i n L k : Nat}

/-- What ends a word ends the loop over the digits as well. -/
theorem EndsWord.stops (h : EndsWord rest) (hs : Terminated memory (lineAt cmdline i) rest) :
    memory (lineAt cmdline i) = 0x20 ∨ memory (lineAt cmdline i) = 0 := by
  rcases h with rfl | hhead
  · exact Or.inr hs
  · cases rest with
    | nil => exact absurd hhead (by simp)
    | cons c rest =>
        obtain rfl : c = 0x20 := Option.some.inj hhead
        exact Or.inl hs.1

theorem inString_lineAt (h : i ≤ L) : InString cmdline L (lineAt cmdline i) := ⟨i, h, rfl⟩

/-- The loop takes the digits up to the first one that is out of bound. The induction is on the
digits, with the number that is read so far. -/
theorem digitsLoop_eq (hs : Terminated memory (lineAt cmdline i) (digits ++ rest))
    (hend : EndsWord rest) (hdigits : ∀ d ∈ digits, IsHexDigit d) (hbase : 1 < base)
    (hsmall : digitsFrom base n digits < 2147483648) (hrounds : digits.length < rounds)
    (hL : i + digits.length ≤ L) :
    ∃ m parsed, digitsLoop memory cmdline k L base rounds i n = .ok parsed ∧
      parsed.result = digitsFrom base n (digits.take m) ∧
      (digits.length ≤ m ↔ ∀ j < digits.length, uint32 (i + j + k) ≤ L) ∧
      ∀ x ∈ parsed.reads, InString cmdline L x := by
  induction digits generalizing rounds i n with
  | nil =>
      obtain ⟨rounds, rfl⟩ := Nat.exists_eq_succ_of_ne_zero (Nat.ne_of_gt hrounds)
      rw [digitsLoop]
      by_cases hbound : L < uint32 (i + k)
      · rw [if_pos hbound]
        exact ⟨0, _, rfl, rfl, by simp, fun x hx => absurd hx List.not_mem_nil⟩
      · rw [if_neg hbound, if_pos (hend.stops hs)]
        refine ⟨0, _, rfl, rfl, by simp, fun x hx => ?_⟩
        rw [List.mem_singleton.1 hx]
        exact inString_lineAt hL
  | cons d digits ih =>
      obtain ⟨rounds, rfl⟩ := Nat.exists_eq_succ_of_ne_zero (Nat.ne_of_gt (Nat.zero_lt_of_lt hrounds))
      rw [digitsLoop]
      by_cases hbound : L < uint32 (i + k)
      · rw [if_pos hbound]
        refine ⟨0, _, rfl, rfl, ?_, fun x hx => absurd hx List.not_mem_nil⟩
        refine ⟨fun h => absurd h (Nat.not_succ_le_zero _), fun h => ?_⟩
        exact absurd (h 0 (Nat.succ_pos _)) (Nat.not_le.2 hbound)
      · have hd : IsHexDigit d := hdigits d List.mem_cons_self
        have hat : memory (lineAt cmdline i) = d := hs.1
        rw [digitsFrom_cons] at hsmall
        have hle : n * base + digitValue d ≤ digitsFrom base (n * base + digitValue d) digits :=
          le_digitsFrom (Nat.lt_trans Nat.zero_lt_one hbase)
        have hadd := addDigit_eq hd (Nat.lt_of_le_of_lt hle hsmall)
        rw [List.length_cons] at hL
        obtain ⟨m, parsed, hloop, hresult, hall, hreads⟩ := ih hs.tail
          (fun d' hd' => hdigits d' (List.mem_cons_of_mem d hd')) hsmall
          (Nat.lt_of_succ_lt_succ hrounds) (by omega)
        refine ⟨m + 1, ⟨parsed.result, lineAt cmdline i :: parsed.reads⟩, ?_, ?_, ?_, ?_⟩
        · rw [if_neg hbound, hat, if_neg hd.ne_space, hadd, hloop]
        · rw [List.take_succ_cons, digitsFrom_cons]
          exact hresult
        · rw [List.length_cons, Nat.succ_le_succ_iff, hall]
          constructor
          · intro h j hj
            cases j with
            | zero => exact Nat.not_lt.1 hbound
            | succ j =>
                have hnext := h j (Nat.lt_of_succ_lt_succ hj)
                rwa [Nat.add_right_comm i 1 j] at hnext
          · intro h j hj
            have hnext := h (j + 1) (Nat.succ_lt_succ hj)
            rwa [Nat.add_right_comm i 1 j]
        · intro x hx
          rcases List.mem_cons.1 hx with rfl | hx
          · exact inString_lineAt (by omega)
          · exact hreads x hx

/-- Behind a digit of a decimal number no `x` stands. -/
theorem ne_x {d : UInt8} (hs : Terminated memory (lineAt cmdline i) (d :: (digits ++ rest)))
    (hdigits : ∀ d ∈ digits, IsDigit d) (hend : EndsWord rest) :
    memory (lineAt cmdline (i + 1)) ≠ 0x78 := by
  have hnext := hs.tail
  cases digits with
  | nil =>
      rcases hend.stops hnext with hspace | hzero
      · rw [hspace]
        decide
      · rw [hzero]
        decide
  | cons c digits =>
      have hat : memory (lineAt cmdline (i + 1)) = c := hnext.1
      rw [hat]
      rintro rfl
      exact absurd (hdigits 0x78 List.mem_cons_self) (by unfold IsDigit; simp)

/-- The base is found by the first two characters, and the digits are taken from behind them. -/
theorem parseValue_eq {lead : CString} (hwrites : Writes lead digits base)
    (hs : Terminated memory (lineAt cmdline i) (lead ++ (digits ++ rest))) (hend : EndsWord rest)
    (hsmall : digitsFrom base 0 digits < 2147483648) (hL : i + (lead.length + digits.length) ≤ L) :
    ∃ m parsed, parseValue memory cmdline k L i = .ok parsed ∧
      parsed.result = digitsFrom base 0 (digits.take m) ∧
      (digits.length ≤ m ↔ ∀ j < digits.length, uint32 (i + lead.length + j + k) ≤ L) ∧
      ∀ x ∈ parsed.reads, InString cmdline L x := by
  have hstart : Terminated memory (lineAt cmdline (i + lead.length)) (digits ++ rest) := by
    have hrest := hs.append
    rwa [lineAt, Memory.add_ofNat_add] at hrest
  have hlen : digits.length < allChars := by
    have hlt := hstart.length_lt
    rw [List.length_append] at hlt
    exact Nat.lt_of_le_of_lt (Nat.le_add_right _ _) hlt
  obtain ⟨m, parsed, hloop, hresult, hall, hreads⟩ := digitsLoop_eq (k := k) (n := 0) (L := L)
    hstart hend (fun d hd => hwrites.isHexDigit hd) hwrites.one_lt hsmall hlen (by omega)
  cases hwrites with
  | hex hne hdigits =>
      have hzero : memory (lineAt cmdline i) = 0x30 := hs.1
      have hx : memory (lineAt cmdline (i + 1)) = 0x78 := hs.tail.1
      have hloop' : digitsLoop memory cmdline k L 16 allChars (i + 2) 0 = .ok parsed := hloop
      refine ⟨m, ⟨parsed.result, [lineAt cmdline i, lineAt cmdline (i + 1)] ++ parsed.reads⟩,
          ?_, hresult, hall, ?_⟩
      · rw [parseValue, if_pos hzero]
        dsimp only
        rw [if_pos hx, hloop']
      · intro x hx
        rcases List.mem_append.1 hx with hx | hx
        · rcases List.mem_cons.1 hx with rfl | hx
          · exact inString_lineAt (by omega)
          · rw [List.mem_singleton.1 hx]
            exact inString_lineAt (by simp at hL; omega)
        · exact hreads x hx
  | decimal hne hdigits =>
      have hloop' : digitsLoop memory cmdline k L 10 allChars i 0 = .ok parsed := hloop
      have hi : i < L := by
        have hpos := List.length_pos_iff.2 hne
        simp only [List.length_nil] at hL
        omega
      by_cases hzero : memory (lineAt cmdline i) = 0x30
      · cases digits with
        | nil => exact absurd rfl hne
        | cons d digits =>
            have hnot : memory (lineAt cmdline (i + 1)) ≠ 0x78 :=
              ne_x hs (fun d' hd' => hdigits d' (List.mem_cons_of_mem d hd')) hend
            refine ⟨m, ⟨parsed.result, [lineAt cmdline i, lineAt cmdline (i + 1)] ++ parsed.reads⟩,
          ?_, hresult, hall, ?_⟩
            · rw [parseValue, if_pos hzero]
              dsimp only
              rw [if_neg hnot, hloop']
            · intro x hx
              rcases List.mem_append.1 hx with hx | hx
              · rcases List.mem_cons.1 hx with rfl | hx
                · exact inString_lineAt (Nat.le_of_lt hi)
                · rw [List.mem_singleton.1 hx]
                  exact inString_lineAt hi
              · exact hreads x hx
      · refine ⟨m, ⟨parsed.result, lineAt cmdline i :: parsed.reads⟩,
          ?_, hresult, hall, ?_⟩
        · rw [parseValue, if_neg hzero, hloop']
        · intro x hx
          rcases List.mem_cons.1 hx with rfl | hx
          · exact inString_lineAt (Nat.le_of_lt hi)
          · exact hreads x hx

/-- The comparison does not look at more than `n` characters. -/
theorem Kernel.strncmpLoop_reads {s1 s2 : UInt32} :
    (Kernel.strncmpLoop memory s1 s2 n i).reads ≤ i + n := by
  induction n generalizing i with
  | zero => exact Nat.le_refl i
  | succ n ih =>
      rw [Kernel.strncmpLoop]
      split
      · exact Nat.add_le_add_left (Nat.succ_le_succ (Nat.zero_le n)) i
      · split
        · exact Nat.add_le_add_left (Nat.succ_le_succ (Nat.zero_le n)) i
        · calc (Kernel.strncmpLoop memory s1 s2 n (i + 1)).reads ≤ i + 1 + n := ih
            _ = i + (n + 1) := by omega

/-- At a place of the line the comparison finds out whether the key stands there. -/
theorem strncmp_key (hline : Terminated memory cmdline line) (hkey : Terminated memory key keyName)
    (hi : i ≤ line.length) :
    (Kernel.strncmp memory key (lineAt cmdline i) (UInt32.ofNat keyName.length)).result = 0 ↔
      keyName <+: line.drop i := by
  have hkey' : Terminated memory (key + UInt32.ofNat 0) keyName := by
    rw [show key + UInt32.ofNat 0 = key from UInt32.add_zero key]
    exact hkey
  have hline' : Terminated memory (lineAt cmdline i + UInt32.ofNat 0) (line.drop i) := by
    rw [show lineAt cmdline i + UInt32.ofNat 0 = lineAt cmdline i from UInt32.add_zero _]
    have hrest := (List.take_append_drop i line).symm ▸ hline
    have hdrop := hrest.append
    rwa [List.length_take, Nat.min_eq_left hi] at hdrop
  have hlen : (UInt32.ofNat keyName.length).toNat = keyName.length :=
    UInt32.toNat_ofNat_of_lt' hkey.length_lt
  have horder := (Kernel.strncmpLoop_correct (n := keyName.length) hkey' hline').1
  rw [Kernel.strncmp, hlen, horder.zero_iff, List.take_length, List.prefix_iff_eq_take]

theorem strncmp_key_reads {s : UInt32} (hkey : keyName.length < 4294967296) :
    (Kernel.strncmp memory key s (UInt32.ofNat keyName.length)).reads ≤ keyName.length := by
  have hle := @Kernel.strncmpLoop_reads memory 0 (UInt32.ofNat keyName.length).toNat key s
  rw [Nat.zero_add] at hle
  exact Nat.le_trans hle (Nat.le_of_eq (UInt32.toNat_ofNat_of_lt' hkey))

/-- One round in front of the end of the line: the key is compared, and either the value is read or
the next place is tried. -/
theorem keyLoop_round (hline : Terminated memory cmdline line)
    (hkey : Terminated memory key keyName) (hi : i < line.length)
    (hroom : i + keyName.length ≤ line.length) :
    ∃ reads, (∀ x ∈ reads, InString cmdline line.length x ∨ InString key keyName.length x) ∧
      keyLoop memory cmdline key keyName.length line.length (rounds + 1) i =
        (if keyName <+: line.drop i then
            parseValue memory cmdline keyName.length line.length (i + keyName.length + 1)
          else keyLoop memory cmdline key keyName.length line.length rounds (i + 1)).map
            fun parsed => ⟨parsed.result, reads ++ parsed.reads⟩ := by
  let compared := Kernel.strncmp memory key (lineAt cmdline i) (UInt32.ofNat keyName.length)
  have hcompared : compared.reads ≤ keyName.length := strncmp_key_reads hkey.length_lt
  refine ⟨lineAt cmdline i ::
    (charsAt key compared.reads ++ charsAt (lineAt cmdline i) compared.reads), ?_, ?_⟩
  · intro x hx
    rcases List.mem_cons.1 hx with rfl | hx
    · exact Or.inl (inString_lineAt (Nat.le_of_lt hi))
    · rcases List.mem_append.1 hx with hx | hx
      · exact Or.inr (mem_charsAt_of_le hx (Nat.le_succ_of_le hcompared))
      · exact Or.inl ((mem_charsAt_of_le hx (Nat.le_succ_of_le hcompared)).shift.mono hroom)
  · have hnot : ¬ memory (lineAt cmdline i) = 0 := hline.ne_zero hi
    have hlt := hline.length_lt
    have hbound : ¬ line.length < uint32 (i + keyName.length) := by
      rw [uint32_of_lt (Nat.lt_of_le_of_lt hroom hlt)]
      exact Nat.not_lt.2 hroom
    rw [keyLoop, if_neg hnot, if_neg hbound]
    dsimp only
    by_cases hstands : keyName <+: line.drop i
    · rw [if_pos hstands, if_pos ((strncmp_key hline hkey (Nat.le_of_lt hi)).2 hstands)]
      cases parseValue memory cmdline keyName.length line.length (i + keyName.length + 1) <;> rfl
    · rw [if_neg hstands, if_neg (mt (strncmp_key hline hkey (Nat.le_of_lt hi)).1 hstands)]
      cases keyLoop memory cmdline key keyName.length line.length rounds (i + 1) <;> rfl

/-- The loop gets to the first place at which the key stands. The induction is on the places in front
of it. -/
theorem keyLoop_eq {ahead : Nat} {parsed : ParsedInt} (hline : Terminated memory cmdline line)
    (hkey : Terminated memory key keyName) (hfirst : FirstAt line keyName (i + ahead))
    (hroom : i + ahead + keyName.length < line.length) (hrounds : ahead < rounds)
    (hvalue : parseValue memory cmdline keyName.length line.length
      (i + ahead + keyName.length + 1) = .ok parsed)
    (hreads : ∀ x ∈ parsed.reads, InString cmdline line.length x) :
    ∃ found, keyLoop memory cmdline key keyName.length line.length rounds i = .ok found ∧
      found.result = parsed.result ∧
      ∀ x ∈ found.reads, InString cmdline line.length x ∨ InString key keyName.length x := by
  induction ahead generalizing rounds i with
  | zero =>
      obtain ⟨rounds, rfl⟩ := Nat.exists_eq_succ_of_ne_zero (Nat.ne_of_gt hrounds)
      simp only [Nat.add_zero] at hfirst hroom hvalue
      obtain ⟨reads, hin, hround⟩ := @keyLoop_round memory cmdline key line keyName rounds i hline
        hkey (Nat.lt_of_le_of_lt (Nat.le_add_right _ _) hroom) (Nat.le_of_lt hroom)
      rw [if_pos hfirst.1, hvalue] at hround
      refine ⟨_, hround, rfl, fun x hx => ?_⟩
      rcases List.mem_append.1 hx with hx | hx
      · exact hin x hx
      · exact Or.inl (hreads x hx)
  | succ ahead ih =>
      obtain ⟨rounds, rfl⟩ := Nat.exists_eq_succ_of_ne_zero (Nat.ne_of_gt (Nat.zero_lt_of_lt hrounds))
      obtain ⟨reads, hin, hround⟩ := @keyLoop_round memory cmdline key line keyName rounds i hline
        hkey (by omega) (by omega)
      rw [if_neg (hfirst.2 i (Nat.lt_add_of_pos_right (Nat.succ_pos ahead)))] at hround
      rw [← Nat.add_assoc, Nat.add_right_comm i ahead 1] at hfirst hroom hvalue
      obtain ⟨found, hfound, hresult, hall⟩ := ih hfirst hroom (Nat.lt_of_succ_lt_succ hrounds) hvalue
      rw [hfound] at hround
      refine ⟨_, hround, hresult, fun x hx => ?_⟩
      rcases List.mem_append.1 hx with hx | hx
      · exact hin x hx
      · exact hall x hx

/-- The loop over the digits ends at the next NUL at the latest. -/
theorem digitsLoop_ok {ahead : Nat} {result : Int} (h : memory (lineAt cmdline (i + ahead)) = 0)
    (hrounds : ahead < rounds) :
    ∃ parsed, digitsLoop memory cmdline k L base rounds i result = .ok parsed := by
  induction ahead generalizing rounds i result with
  | zero =>
      obtain ⟨rounds, rfl⟩ := Nat.exists_eq_succ_of_ne_zero (Nat.ne_of_gt hrounds)
      have hstops : memory (lineAt cmdline i) = 0x20 ∨ memory (lineAt cmdline i) = 0 := Or.inr h
      rw [digitsLoop]
      split
      · exact ⟨_, rfl⟩
      · rw [if_pos hstops]
        exact ⟨_, rfl⟩
  | succ ahead ih =>
      obtain ⟨rounds, rfl⟩ := Nat.exists_eq_succ_of_ne_zero (Nat.ne_of_gt (Nat.zero_lt_of_lt hrounds))
      rw [← Nat.add_assoc, Nat.add_right_comm] at h
      obtain ⟨rest, hrest⟩ := @ih rounds (i + 1) (addDigit base result (memory (lineAt cmdline i))) h
        (Nat.lt_of_succ_lt_succ hrounds)
      rw [digitsLoop]
      split
      · exact ⟨_, rfl⟩
      · dsimp only
        split
        · exact ⟨_, rfl⟩
        · rw [hrest]
          exact ⟨_, rfl⟩

theorem parseValue_ok {x : UInt32} (h : memory x = 0) :
    ∃ parsed, parseValue memory cmdline k L i = .ok parsed := by
  have hloop (start base : Nat) :
      ∃ parsed, digitsLoop memory cmdline k L base allChars start 0 = .ok parsed := by
    obtain ⟨ahead, hlt, hahead⟩ := exists_ahead cmdline x start
    exact digitsLoop_ok ((congrArg memory hahead).trans h) hlt
  obtain ⟨decimal, hdecimal⟩ := hloop i 10
  obtain ⟨hex, hhex⟩ := hloop (i + 2) 16
  rw [parseValue, hdecimal, hhex]
  split
  · dsimp only
    split
    · exact ⟨_, rfl⟩
    · exact ⟨_, rfl⟩
  · exact ⟨_, rfl⟩

theorem keyLoop_ok {x : UInt32} {ahead : Nat} (hzero : memory x = 0)
    (h : memory (lineAt cmdline (i + ahead)) = 0) (hrounds : ahead < rounds) :
    ∃ parsed, keyLoop memory cmdline key k L rounds i = .ok parsed := by
  induction ahead generalizing rounds i with
  | zero =>
      obtain ⟨rounds, rfl⟩ := Nat.exists_eq_succ_of_ne_zero (Nat.ne_of_gt hrounds)
      have hends : memory (lineAt cmdline i) = 0 := h
      rw [keyLoop, if_pos hends]
      exact ⟨_, rfl⟩
  | succ ahead ih =>
      obtain ⟨rounds, rfl⟩ := Nat.exists_eq_succ_of_ne_zero (Nat.ne_of_gt (Nat.zero_lt_of_lt hrounds))
      rw [← Nat.add_assoc, Nat.add_right_comm] at h
      obtain ⟨value, hvalue⟩ := @parseValue_ok memory cmdline (i + k + 1) L k x hzero
      obtain ⟨rest, hrest⟩ := ih h (Nat.lt_of_succ_lt_succ hrounds)
      rw [keyLoop, hvalue, hrest]
      split
      · exact ⟨_, rfl⟩
      · split
        · exact ⟨_, rfl⟩
        · dsimp only
          split
          · exact ⟨_, rfl⟩
          · exact ⟨_, rfl⟩

/-- Whatever the line and the key are, a number is returned when there is a NUL in memory. -/
theorem parseCmdlineInt_ok {x : UInt32} (h : memory x = 0) (cmdline key : UInt32) :
    ∃ parsed, parseCmdlineInt memory cmdline key = .ok parsed := by
  obtain ⟨cmdlineLen, hcmdline⟩ := Kernel.strlen_ok h cmdline
  obtain ⟨keyLen, hkey⟩ := Kernel.strlen_ok h key
  obtain ⟨ahead, hlt, hahead⟩ := exists_ahead cmdline x 0
  obtain ⟨found, hfound⟩ := @keyLoop_ok memory cmdline key allChars 0 cmdlineLen keyLen x ahead h
    ((congrArg memory hahead).trans h) hlt
  rw [parseCmdlineInt, hcmdline]
  dsimp only
  rw [hkey]
  dsimp only
  rw [hfound]
  exact ⟨_, rfl⟩

end Loops

/-- The value is returned exactly when no digit is cut off by the bound of the key, or there is
nothing to be lost because the value is 0. -/
theorem parseCmdlineInt_iff {memory : Memory} {cmdline key : UInt32} {line keyName : CString}
    (hline : Terminated memory cmdline line) (hkey : Terminated memory key keyName)
    (word : IntWord line keyName) :
    ReturnsInt memory cmdline key line keyName word.value ↔ word.value = 0 ∨ word.InBound := by
  have hlength := congrArg List.length word.line_eq
  simp only [List.length_append, List.length_cons] at hlength
  have hs : Terminated memory (lineAt cmdline (word.before.length + keyName.length + 1))
      (word.lead ++ (word.digits ++ word.rest)) := by
    have hall := hline
    rw [word.line_eq] at hall
    have hequals := hall.append.append
    rw [Memory.add_ofNat_add] at hequals
    exact hequals.tail
  obtain ⟨m, parsed, hvalue, hresult, hall, hreads⟩ := parseValue_eq (k := keyName.length)
    (L := line.length) word.writes hs word.endsWord word.small (by omega)
  have hrounds : word.before.length < allChars :=
    Nat.lt_of_le_of_lt (by omega : word.before.length ≤ line.length) hline.length_lt
  have hzero : 0 + word.before.length = word.before.length := Nat.zero_add _
  obtain ⟨found, hfound, hsame, hin⟩ := @keyLoop_eq memory cmdline key line keyName allChars 0
    word.before.length parsed hline hkey (hzero.symm ▸ word.first) (by omega) hrounds
    (hzero.symm ▸ hvalue) hreads
  have hrun : parseCmdlineInt memory cmdline key = .ok ⟨found.result,
      charsAt cmdline (line.length + 1) ++ (charsAt key (keyName.length + 1) ++ found.reads)⟩ := by
    rw [parseCmdlineInt, Kernel.strlen_eq hline]
    dsimp only
    rw [Kernel.strlen_eq hkey]
    dsimp only
    rw [hfound]
  have hreturns : ReturnsInt memory cmdline key line keyName word.value ↔
      found.result = (word.value : Int) := by
    constructor
    · rintro ⟨returned, hreturned, hvalue, -⟩
      rw [hrun] at hreturned
      rw [← Except.ok.inj hreturned] at hvalue
      exact hvalue
    · intro hvalue
      refine ⟨_, hrun, hvalue, fun x hx => ?_⟩
      rcases List.mem_append.1 hx with hx | hx
      · exact Or.inl (mem_charsAt.1 hx)
      · rcases List.mem_append.1 hx with hx | hx
        · exact Or.inr (mem_charsAt.1 hx)
        · exact hin x hx
  rw [hreturns, hsame, hresult, Int.natCast_inj, IntWord.value,
    digitsFrom_take_iff word.writes.one_lt, hall, IntWord.InBound, IntWord.place]

/-- The memory that holds one string at address 0 and another one behind it. -/
def twoTexts (first second : CString) : Memory :=
  fun address => (first ++ 0 :: (second ++ [0])).getD address.toNat 0

/-- `rev=10 quiet` -/
def quietLine : CString := [0x72, 0x65, 0x76, 0x3d, 0x31, 0x30, 0x20, 0x71, 0x75, 0x69, 0x65, 0x74]

/-- `rev=10`, at the beginning of a line. -/
def revWord (rest : CString) (h : EndsWord rest) :
    IntWord (0x72 :: 0x65 :: 0x76 :: 0x3d :: 0x31 :: 0x30 :: rest) [0x72, 0x65, 0x76] where
  before := []
  lead := []
  digits := [0x31, 0x30]
  rest := rest
  base := 10
  line_eq := rfl
  first := ⟨⟨_, rfl⟩, fun j hj => absurd hj (Nat.not_lt_zero j)⟩
  writes := .decimal (by decide) (by unfold IsDigit; simp)
  endsWord := h
  small := by decide

/-- With another word behind it the 10 is read. -/
theorem parseCmdlineInt_iff_quiet : ReturnsInt (twoTexts quietLine [0x72, 0x65, 0x76]) 0 13
    quietLine [0x72, 0x65, 0x76] 10 := by
  have hline : Terminated (twoTexts quietLine [0x72, 0x65, 0x76]) 0 quietLine := by
    simp only [Terminated, quietLine]
    decide
  have hkey : Terminated (twoTexts quietLine [0x72, 0x65, 0x76]) 13 [0x72, 0x65, 0x76] := by
    simp only [Terminated]
    decide
  have hbound : (revWord (quietLine.drop 6) (Or.inr rfl)).InBound := by
    unfold IntWord.InBound
    decide
  exact (parseCmdlineInt_iff hline hkey (revWord (quietLine.drop 6) (Or.inr rfl))).2 (Or.inr hbound)

/-- At the end of the line the 10 is lost, and 0 is returned. -/
theorem not_parseCmdlineInt : ¬ ∀ (memory : Memory) (cmdline key : UInt32) (line keyName : CString),
    Terminated memory cmdline line → Terminated memory key keyName →
    ∀ word : IntWord line keyName, ReturnsInt memory cmdline key line keyName word.value := by
  intro hall
  have hline : Terminated (twoTexts (quietLine.take 6) [0x72, 0x65, 0x76]) 0
      (quietLine.take 6) := by
    simp only [Terminated, quietLine, List.take]
    decide
  have hkey : Terminated (twoTexts (quietLine.take 6) [0x72, 0x65, 0x76]) 7
      [0x72, 0x65, 0x76] := by
    simp only [Terminated]
    decide
  obtain ⟨parsed, hrun, hresult, -⟩ := hall _ 0 7 _ _ hline hkey (revWord [] (Or.inl rfl))
  have hzero : (parseCmdlineInt (twoTexts (quietLine.take 6) [0x72, 0x65, 0x76]) 0 7).toOption.any
      (fun parsed => parsed.result = 0) := by
    decide
  rw [hrun] at hzero
  have hresult0 : parsed.result = 0 := of_decide_eq_true hzero
  rw [hresult0] at hresult
  exact absurd hresult (by decide)

end Vmwos
