import Mathlib.Algebra.Group.Nat.Defs
import Mathlib.Logic.Function.Basic

/-!
# Loops over memory

Memory with addresses of 32 bits, and loops that count. A block of memory is given by its first
address and its length, and may reach around the end of the address space: what says whether an
address is in it is the distance from the first address. A loop over a block is followed by an
invariant about the part of the block that has been done.
-/

set_option autoImplicit false

namespace Library

/-! ## Loops that count -/

section Loops

variable {σ : Type*} {body : Nat → σ → σ} {holds : Nat → σ → Prop} {n : Nat} {s : σ}

/-- The body for 0 up to `n-1`. -/
def countUp (body : Nat → σ → σ) : Nat → σ → σ
  | 0, s => s
  | n + 1, s => body n (countUp body n s)

/-- The body for `n-1` down to 0. -/
def countDown (body : Nat → σ → σ) : Nat → σ → σ
  | 0, s => s
  | n + 1, s => countDown body n (body n s)

/-- What holds of the part that has been done is taken from each round to the next one. -/
theorem countUp_holds (hfirst : holds 0 s)
    (hround : ∀ i < n, ∀ s, holds i s → holds (i + 1) (body i s)) :
    holds n (countUp body n s) := by
  induction n with
  | zero => exact hfirst
  | succ n ih =>
      have hbefore := ih fun i hi => hround i (Nat.lt_succ_of_lt hi)
      exact hround n (Nat.lt_succ_self n) _ hbefore

theorem countDown_holds (hfirst : holds n s)
    (hround : ∀ i < n, ∀ s, holds (i + 1) s → holds i (body i s)) :
    holds 0 (countDown body n s) := by
  induction n generalizing s with
  | zero => exact hfirst
  | succ n ih =>
      apply ih
      · exact hround n (Nat.lt_succ_self n) s hfirst
      · intro i hi
        exact hround i (Nat.lt_succ_of_lt hi)

end Loops

/-! ## Distances -/

/-- How far an address is behind another one, around the end of the address space. -/
def distance (start a : UInt32) : Nat := (a - start).toNat

section Distances

variable {start a : UInt32} {k : Nat}

theorem distance_lt (start a : UInt32) : distance start a < 4294967296 := (a - start).toNat_lt

theorem distance_add (hk : k < 4294967296) : distance start (start + UInt32.ofNat k) = k := by
  rw [distance, UInt32.add_comm, UInt32.add_sub_cancel, UInt32.toNat_ofNat', Nat.mod_eq_of_lt hk]

/-- An address is the start and its distance. -/
theorem start_add_distance (start a : UInt32) : start + UInt32.ofNat (distance start a) = a := by
  rw [distance, UInt32.ofNat_toNat, UInt32.add_comm, UInt32.sub_add_cancel]

theorem distance_eq_iff (hk : k < 4294967296) :
    distance start a = k ↔ a = start + UInt32.ofNat k := by
  constructor
  · rintro rfl
    exact (start_add_distance start a).symm
  · rintro rfl
    exact distance_add hk

/-- The distance from a later start. -/
theorem distance_later (start a : UInt32) (hk : k ≤ 4294967296) :
    distance (start + UInt32.ofNat k) a = (distance start a + (4294967296 - k)) % 4294967296 := by
  have ha := a.toNat_lt
  have hstart := start.toNat_lt
  unfold distance
  rw [UInt32.toNat_sub, UInt32.toNat_sub, UInt32.toNat_add, UInt32.toNat_ofNat']
  omega

/-- The distance the other way round. -/
theorem distance_symm (start a : UInt32) :
    distance a start = (4294967296 - distance start a) % 4294967296 := by
  have ha := a.toNat_lt
  have hstart := start.toNat_lt
  unfold distance
  rw [UInt32.toNat_sub, UInt32.toNat_sub]
  omega

theorem distance_self (start : UInt32) : distance start start = 0 := by
  rw [distance, UInt32.sub_self]
  rfl

end Distances

/-! ## Blocks of memory -/

/-- The bytes at all addresses. -/
abbrev Memory := UInt32 → UInt8

/-- Byte `k` of a word, from the lowest one. -/
def wordByte (w : UInt32) (k : Nat) : UInt8 := (w >>> UInt32.ofNat (8 * k)).toUInt8

namespace Memory

/-- Store a byte. -/
def store (memory : Memory) (a : UInt32) (b : UInt8) : Memory := Function.update memory a b

/-- Store a word, its lowest byte first. -/
def storeWord (memory : Memory) (a w : UInt32) : Memory := fun x =>
  if distance a x < 4 then wordByte w (distance a x) else memory x

/-- Read a word. -/
def loadWord (memory : Memory) (a : UInt32) : UInt32 :=
  (memory a).toUInt32 ||| (memory (a + 1)).toUInt32 <<< 8 ||| (memory (a + 2)).toUInt32 <<< 16 |||
    (memory (a + 3)).toUInt32 <<< 24

/-- Store words one behind the other. -/
def storeWords (memory : Memory) (a : UInt32) : List UInt32 → Memory
  | [] => memory
  | w :: ws => storeWords (memory.storeWord a w) (a + 4) ws

/-- Read words one behind the other. -/
def loadWords (memory : Memory) (a : UInt32) : Nat → List UInt32
  | 0 => []
  | n + 1 => memory.loadWord a :: loadWords memory (a + 4) n

/-- The first `n` bytes from an address on are all the same. -/
def fill (memory : Memory) (start : UInt32) (n : Nat) (c : UInt8) : Memory := fun a =>
  if distance start a < n then c else memory a

/-- The bytes at the distances from `lo` up to `hi` are those that another block had there. -/
def copyRange (memory : Memory) (start source : UInt32) (lo hi : Nat) : Memory := fun a =>
  if lo ≤ distance start a ∧ distance start a < hi then
    memory (source + UInt32.ofNat (distance start a))
  else memory a

section Blocks

variable {memory : Memory} {start source a w : UInt32} {n i lo hi : Nat} {c : UInt8}

theorem fill_zero : memory.fill start 0 c = memory := by
  funext a
  exact if_neg (Nat.not_lt_zero _)

/-- One more byte. -/
theorem store_fill (hn : n < 4294967296) :
    (memory.fill start n c).store (start + UInt32.ofNat n) c = memory.fill start (n + 1) c := by
  funext a
  by_cases ha : a = start + UInt32.ofNat n
  · have hlast : distance start a = n := (distance_eq_iff hn).2 ha
    rw [ha, store, Function.update_self, ← ha, fill, if_pos (by omega)]
  · have hne : distance start a ≠ n := mt (distance_eq_iff hn).1 ha
    rw [store, Function.update_of_ne ha, fill, fill]
    exact if_congr (by omega) rfl rfl

/-- A loop that stores the same byte. -/
theorem countUp_store (hn : n ≤ 4294967296) :
    countUp (fun i m => Memory.store m (start + UInt32.ofNat i) c) n memory =
      memory.fill start n c := by
  have hloop := @countUp_holds Memory (fun i m => m.store (start + UInt32.ofNat i) c)
    (fun i m => m = memory.fill start i c) n memory fill_zero.symm
  apply hloop
  rintro i hi m rfl
  exact store_fill (by omega)

/-- One more word, when all its bytes are the same. -/
theorem storeWord_fill (hn : n + 4 ≤ 4294967296) (hw : ∀ k < 4, wordByte w k = c) :
    (memory.fill start n c).storeWord (start + UInt32.ofNat n) w = memory.fill start (n + 4) c := by
  funext a
  have hlt := distance_lt start a
  have hlater := @distance_later n start a (by omega)
  by_cases hin : distance (start + UInt32.ofNat n) a < 4
  · rw [storeWord, if_pos hin, hw _ hin, fill, if_pos (by omega)]
  · rw [storeWord, if_neg hin, fill, fill]
    exact if_congr (by omega) rfl rfl

theorem countUp_storeWord (hn : 4 * n ≤ 4294967296) (hw : ∀ k < 4, wordByte w k = c) :
    countUp (fun i m => Memory.storeWord m (start + UInt32.ofNat (4 * i)) w) n memory =
      memory.fill start (4 * n) c := by
  have hloop := @countUp_holds Memory (fun i m => m.storeWord (start + UInt32.ofNat (4 * i)) w)
    (fun i m => m = memory.fill start (4 * i) c) n memory fill_zero.symm
  apply hloop
  rintro i hi m rfl
  rw [Nat.mul_succ]
  exact storeWord_fill (by omega) hw

theorem storeWords_fill {ws : List UInt32} (hn : n + 4 * ws.length ≤ 4294967296)
    (hws : ∀ w ∈ ws, ∀ k < 4, wordByte w k = c) :
    (memory.fill start n c).storeWords (start + UInt32.ofNat n) ws =
      memory.fill start (n + 4 * ws.length) c := by
  induction ws generalizing n with
  | nil => rfl
  | cons w ws ih =>
      obtain ⟨hw, hrest⟩ := List.forall_mem_cons.1 hws
      rw [List.length_cons] at hn
      have hnext : start + UInt32.ofNat n + 4 = start + UInt32.ofNat (n + 4) := by
        rw [UInt32.ofNat_add, ← UInt32.add_assoc]
        rfl
      rw [storeWords, storeWord_fill (by omega) hw, hnext, ih (by omega) hrest, List.length_cons]
      exact congrArg (memory.fill start · c) (by omega)

/-! ### Copying -/

theorem copyRange_self : memory.copyRange start source n n = memory := by
  funext a
  refine if_neg ?_
  rintro ⟨hlow, hhigh⟩
  exact absurd hlow (Nat.not_le.2 hhigh)

/-- One more byte at the end of what has been copied, when it still is what it was. -/
theorem store_copyRange_up (hhi : hi < 4294967296) (hle : lo ≤ hi)
    (hsource : ¬ (lo ≤ distance start (source + UInt32.ofNat hi) ∧
      distance start (source + UInt32.ofNat hi) < hi)) :
    (memory.copyRange start source lo hi).store (start + UInt32.ofNat hi)
        (memory.copyRange start source lo hi (source + UInt32.ofNat hi)) =
      memory.copyRange start source lo (hi + 1) := by
  have hread : memory.copyRange start source lo hi (source + UInt32.ofNat hi) =
      memory (source + UInt32.ofNat hi) := if_neg hsource
  funext a
  rw [hread]
  by_cases ha : a = start + UInt32.ofNat hi
  · have hlast : distance start a = hi := (distance_eq_iff hhi).2 ha
    rw [ha, store, Function.update_self, ← ha, copyRange, hlast,
      if_pos ⟨hle, Nat.lt_succ_self hi⟩]
  · have hne : distance start a ≠ hi := mt (distance_eq_iff hhi).1 ha
    rw [store, Function.update_of_ne ha, copyRange, copyRange]
    exact if_congr (by omega) rfl rfl

/-- One more byte before what has been copied. -/
theorem store_copyRange_down (hlo : lo < 4294967296) (hlt : lo < hi)
    (hsource : ¬ (lo + 1 ≤ distance start (source + UInt32.ofNat lo) ∧
      distance start (source + UInt32.ofNat lo) < hi)) :
    (memory.copyRange start source (lo + 1) hi).store (start + UInt32.ofNat lo)
        (memory.copyRange start source (lo + 1) hi (source + UInt32.ofNat lo)) =
      memory.copyRange start source lo hi := by
  have hread : memory.copyRange start source (lo + 1) hi (source + UInt32.ofNat lo) =
      memory (source + UInt32.ofNat lo) := if_neg hsource
  funext a
  rw [hread]
  by_cases ha : a = start + UInt32.ofNat lo
  · have hfirst : distance start a = lo := (distance_eq_iff hlo).2 ha
    rw [ha, store, Function.update_self, ← ha, copyRange, hfirst, if_pos ⟨Nat.le_refl lo, hlt⟩]
  · have hne : distance start a ≠ lo := mt (distance_eq_iff hlo).1 ha
    rw [store, Function.update_of_ne ha, copyRange, copyRange]
    exact if_congr (by omega) rfl rfl

/-- The bytes of a word are those in memory. -/
theorem wordByte_loadWord {k : Nat} (hk : k < 4) :
    wordByte (memory.loadWord a) k = memory (a + UInt32.ofNat k) := by
  unfold wordByte loadWord
  apply UInt8.toBitVec_inj.1
  apply BitVec.eq_of_getLsbD_eq
  intro j hj
  match k, hk with
  | 0, _ =>
      have hzero : a + UInt32.ofNat 0 = a := UInt32.add_zero a
      rw [hzero]
      simp [hj]
  | 1, _ =>
      have hone : a + UInt32.ofNat 1 = a + 1 := rfl
      rw [hone]
      simp [hj]
      grind
  | 2, _ =>
      have htwo : a + UInt32.ofNat 2 = a + 2 := rfl
      rw [htwo]
      simp [hj]
      grind
  | 3, _ =>
      have hthree : a + UInt32.ofNat 3 = a + 3 := rfl
      rw [hthree]
      simp [hj]
      grind

theorem add_ofNat_add (a : UInt32) (n k : Nat) :
    a + UInt32.ofNat n + UInt32.ofNat k = a + UInt32.ofNat (n + k) := by
  rw [UInt32.ofNat_add, UInt32.add_assoc]

theorem toNat_wordByte (w : UInt32) {k : Nat} (hk : k < 4) :
    (wordByte w k).toNat = w.toNat / 2 ^ (8 * k) % 256 := by
  have hshift : (UInt32.ofNat (8 * k)).toNat % 32 = 8 * k := by
    rw [UInt32.toNat_ofNat']
    omega
  rw [wordByte, UInt32.toNat_toUInt8, UInt32.toNat_shiftRight, hshift, Nat.shiftRight_eq_div_pow]

/-- A word is made up of its bytes. -/
theorem loadWord_of_bytes (h : ∀ k < 4, memory (a + UInt32.ofNat k) = wordByte w k) :
    memory.loadWord a = w := by
  have hbyte (k : Nat) (hk : k < 4) :
      (memory.loadWord a).toNat / 2 ^ (8 * k) % 256 = w.toNat / 2 ^ (8 * k) % 256 := by
    rw [← toNat_wordByte _ hk, ← toNat_wordByte _ hk, wordByte_loadWord hk, h k hk]
  have h0 := hbyte 0 (by decide)
  have h1 := hbyte 1 (by decide)
  have h2 := hbyte 2 (by decide)
  have h3 := hbyte 3 (by decide)
  have hlt := (memory.loadWord a).toNat_lt
  have hlt' := w.toNat_lt
  apply UInt32.toNat_inj.1
  omega

/-! ### Several words -/

/-- The address behind a word. -/
theorem distance_next (start a : UInt32) :
    distance (start + 4) a = (distance start a + 4294967292) % 4294967296 :=
  @distance_later 4 start a (by decide)

/-- Storing words changes nothing else. -/
theorem storeWords_outside {ws : List UInt32} {x : UInt32} (hws : 4 * ws.length ≤ 4294967296)
    (hx : ¬ distance a x < 4 * ws.length) : memory.storeWords a ws x = memory x := by
  induction ws generalizing memory a with
  | nil => rfl
  | cons w ws ih =>
      rw [List.length_cons] at hws hx
      have hlt := distance_lt a x
      have hnext := distance_next a x
      rw [storeWords, ih (by omega) (by omega), storeWord, if_neg (by omega)]

/-- Words that have been stored are read back. -/
theorem loadWords_storeWords {ws : List UInt32} (hws : 4 * ws.length ≤ 4294967296) :
    (memory.storeWords a ws).loadWords a ws.length = ws := by
  induction ws generalizing memory a with
  | nil => rfl
  | cons w ws ih =>
      rw [List.length_cons] at hws ⊢
      rw [storeWords, loadWords, ih (by omega)]
      refine congrArg (· :: ws) (loadWord_of_bytes fun k hk => ?_)
      -- the words behind do not reach this one
      have hplace : distance a (a + UInt32.ofNat k) = k := distance_add (by omega)
      have hnext := distance_next a (a + UInt32.ofNat k)
      rw [storeWords_outside (by omega) (by omega), storeWord, hplace, if_pos hk]

/-- One row of words behind another one. -/
theorem storeWords_append (ws ws' : List UInt32) :
    memory.storeWords a (ws ++ ws') =
      (memory.storeWords a ws).storeWords (a + UInt32.ofNat (4 * ws.length)) ws' := by
  induction ws generalizing memory a with
  | nil => exact congrArg (memory.storeWords · ws') (UInt32.add_zero a).symm
  | cons w ws ih =>
      rw [List.cons_append, storeWords, ih, List.length_cons, storeWords, Nat.mul_succ,
        Nat.add_comm (4 * ws.length) 4, UInt32.ofNat_add, ← UInt32.add_assoc]
      rfl

@[simp] theorem length_loadWords : (memory.loadWords a n).length = n := by
  induction n generalizing a with
  | zero => rfl
  | succ n ih => rw [loadWords, List.length_cons, ih]

theorem getElem_loadWords (hi : i < (memory.loadWords a n).length) :
    (memory.loadWords a n)[i] = memory.loadWord (a + UInt32.ofNat (4 * i)) := by
  induction n generalizing a i with
  | zero => exact absurd hi (Nat.not_lt_zero i)
  | succ n ih =>
      cases i with
      | zero => exact congrArg memory.loadWord (UInt32.add_zero a).symm
      | succ i =>
          simp only [loadWords, List.getElem_cons_succ]
          rw [ih, Nat.mul_succ, Nat.add_comm (4 * i) 4, UInt32.ofNat_add, ← UInt32.add_assoc]
          rfl

theorem loadWord_congr {memory' : Memory}
    (h : ∀ k < 4, memory' (a + UInt32.ofNat k) = memory (a + UInt32.ofNat k)) :
    memory'.loadWord a = memory.loadWord a := by
  refine loadWord_of_bytes fun k hk => ?_
  rw [h k hk, wordByte_loadWord hk]

theorem loadWords_congr {memory' : Memory} (hn : 4 * n ≤ 4294967296)
    (h : ∀ x, distance a x < 4 * n → memory' x = memory x) :
    memory'.loadWords a n = memory.loadWords a n := by
  induction n generalizing a with
  | zero => rfl
  | succ n ih =>
      have hfirst : memory'.loadWord a = memory.loadWord a := by
        refine loadWord_congr fun k hk => h _ ?_
        rw [distance_add (by omega)]
        omega
      have hrest : memory'.loadWords (a + 4) n = memory.loadWords (a + 4) n := by
        refine ih (by omega) fun x hx => h x ?_
        have hnext := distance_next a x
        have hlt := distance_lt a x
        omega
      rw [loadWords, loadWords, hfirst, hrest]

theorem loadWord_storeWord : (memory.storeWord a w).loadWord a = w := by
  refine loadWord_of_bytes fun k hk => ?_
  have hplace : distance a (a + UInt32.ofNat k) = k := distance_add (by omega)
  rw [storeWord, hplace, if_pos hk]

/-- Words are read in the same way where the same bytes are. -/
theorem loadWords_shift {memory' : Memory} {b : UInt32}
    (h : ∀ k < 4 * n, memory' (b + UInt32.ofNat k) = memory (a + UInt32.ofNat k)) :
    memory'.loadWords b n = memory.loadWords a n := by
  refine List.ext_getElem (by simp) fun i hi hi' => ?_
  have hin : i < n := by simpa using hi
  rw [getElem_loadWords, getElem_loadWords]
  refine loadWord_of_bytes fun k hk => ?_
  rw [add_ofNat_add, h _ (by omega), ← add_ofNat_add, wordByte_loadWord hk]

/-- The first one of a row of words is replaced. -/
theorem loadWords_storeWord (hn : 4 * n + 4 ≤ 4294967296) :
    (memory.storeWord a w).loadWords a (n + 1) = w :: memory.loadWords (a + 4) n := by
  have hrest : (memory.storeWord a w).loadWords (a + 4) n = memory.loadWords (a + 4) n := by
    refine loadWords_congr (by omega) fun x hx => if_neg ?_
    have hnext := distance_next a x
    have hlt := distance_lt a x
    omega
  rw [loadWords, loadWord_storeWord, hrest]

/-- One more word at the end of what has been copied, when its bytes still are what they were. -/
theorem storeWord_copyRange (hhi : hi + 4 ≤ 4294967296)
    (hsource : ∀ k < 4, ¬ distance start (source + UInt32.ofNat (hi + k)) < hi) :
    (memory.copyRange start source 0 hi).storeWord (start + UInt32.ofNat hi)
        ((memory.copyRange start source 0 hi).loadWord (source + UInt32.ofNat hi)) =
      memory.copyRange start source 0 (hi + 4) := by
  funext a
  have hlt := distance_lt start a
  have hlater := @distance_later hi start a (by omega)
  by_cases hin : distance (start + UInt32.ofNat hi) a < 4
  · have hplace : hi + distance (start + UInt32.ofNat hi) a = distance start a := by omega
    have hread := hsource _ hin
    rw [hplace] at hread
    rw [storeWord, if_pos hin, wordByte_loadWord hin, add_ofNat_add, hplace, copyRange,
      if_neg (fun h => hread h.2), copyRange, if_pos (by omega)]
  · rw [storeWord, if_neg hin, copyRange, copyRange]
    exact if_congr (by omega) rfl rfl

end Blocks

end Memory

end Library
