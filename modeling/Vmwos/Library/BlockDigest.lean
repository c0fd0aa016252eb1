import Mathlib.Data.List.Basic

/-!
# Digests of blocks

A digest takes a message block by block into a state (`absorb`). A program that is given the message
in parts keeps what does not fill a block; `Held` says of its state and of what it keeps that they
stand for the message so far, however it was divided.
-/

set_option autoImplicit false

namespace Library.BlockDigest

variable {σ β : Type*} (compress : σ → List β → σ) (n : Nat)

/-- Take a number of blocks of `n` from the front of a list. -/
def absorb : (blocks : Nat) → σ → List β → σ
  | 0, s, _ => s
  | blocks + 1, s, l => absorb blocks (compress s (l.take n)) (l.drop n)

/-- What is left of the message is shorter than a block, and the blocks before it have been taken. -/
structure Held (start : σ) (message : List β) (s : σ) (rest : List β) : Prop where
  short : rest.length < n
  taken : ∃ blocks before, message = before ++ rest ∧ before.length = n * blocks ∧
    s = absorb compress n blocks start before

variable {compress n} {start s : σ} {message rest data : List β}

theorem absorb_add {k : Nat} (blocks : Nat) (hdata : data.length = n * k) :
    absorb compress n (k + blocks) s (data ++ message) =
      absorb compress n blocks (absorb compress n k s data) message := by
  induction k generalizing s data with
  | zero =>
      have hnil : data = [] := List.eq_nil_of_length_eq_zero (hdata.trans (Nat.mul_zero n))
      subst hnil
      rw [Nat.zero_add]
      rfl
  | succ k ih =>
      have hle : n ≤ data.length := by
        rw [hdata]
        exact Nat.le_mul_of_pos_right n (Nat.succ_pos k)
      have hrest : (data.drop n).length = n * k := by
        rw [List.length_drop, hdata, Nat.mul_succ, Nat.add_sub_cancel]
      rw [Nat.add_right_comm, absorb, absorb, List.take_append_of_le_length hle,
        List.drop_append_of_le_length hle, ih hrest]

theorem absorb_one (hdata : data.length = n) : absorb compress n 1 s data = compress s data := by
  rw [absorb, absorb, List.take_of_length_le (Nat.le_of_eq hdata)]

namespace Held

theorem nil (hn : 0 < n) : Held compress n start [] start [] :=
  ⟨hn, 0, [], rfl, (Nat.mul_zero n).symm, rfl⟩

theorem length_rest (h : Held compress n start message s rest) :
    rest.length = message.length % n := by
  obtain ⟨blocks, before, rfl, hbefore, -⟩ := h.taken
  rw [List.length_append, hbefore, Nat.mul_add_mod, Nat.mod_eq_of_lt h.short]

/-- The data do not fill the block. -/
theorem keep (h : Held compress n start message s rest) (hshort : rest.length + data.length < n) :
    Held compress n start (message ++ data) s (rest ++ data) := by
  obtain ⟨blocks, before, rfl, hbefore, hs⟩ := h.taken
  exact ⟨by rwa [List.length_append], blocks, before, List.append_assoc _ _ _, hbefore, hs⟩

/-- The data fill the block. -/
theorem fill (h : Held compress n start message s rest) (hn : 0 < n)
    (hfull : rest.length + data.length = n) :
    Held compress n start (message ++ data) (compress s (rest ++ data)) [] := by
  obtain ⟨blocks, before, rfl, hbefore, rfl⟩ := h.taken
  have hblock : (rest ++ data).length = n := by rw [List.length_append, hfull]
  refine ⟨hn, blocks + 1, before ++ (rest ++ data), ?_, ?_, ?_⟩
  · rw [List.append_nil, List.append_assoc]
  · rw [List.length_append, hbefore, hblock, Nat.mul_succ]
  · rw [absorb_add 1 hbefore, absorb_one hblock]

/-- The data are whole blocks, and nothing has been kept before. -/
theorem blocks (h : Held compress n start message s []) {k : Nat} (hdata : data.length = n * k) :
    Held compress n start (message ++ data) (absorb compress n k s data) [] := by
  obtain ⟨blocks, before, rfl, hbefore, rfl⟩ := h.taken
  refine ⟨h.short, blocks + k, before ++ data, ?_, ?_, (absorb_add k hbefore).symm⟩
  · rw [List.append_nil, List.append_nil]
  · rw [List.length_append, hbefore, hdata, Nat.mul_add]

/-- The whole message has been taken. -/
theorem eq_absorb (h : Held compress n start message s []) :
    s = absorb compress n (message.length / n) start message := by
  obtain ⟨blocks, before, rfl, hbefore, rfl⟩ := h.taken
  rw [List.append_nil, hbefore, Nat.mul_div_cancel_left blocks h.short]

end Held

end Library.BlockDigest
