import Vmwos.Lib.Base
import Mathlib.Logic.Function.Basic

/-!
# Physical memory in chunks of 4 KiB

`memory_map` has one bit for every chunk of the first gigabyte, 32 to a word, set when the
chunk is used. The state also holds the contents of memory, which allocating clears and
freeing poisons. Words from 8192 on stand for what lies behind the array in memory; the
search may read them (`find_free` looks at the chunks behind a candidate before it compares
with the end of the region).

`memory_debug` is 0 in the source, and the mutex has one holder at a time: both are left out.
-/

set_option autoImplicit false

namespace Vmwos

/-- `MAX_MEMORY` -/
abbrev maxMemory : Nat := 1073741824
/-- `RESERVED_KERNEL` -/
abbrev reservedKernel : Nat := 16777216
/-- `CHUNK_SIZE` -/
abbrev chunkSize : Nat := 4096
/-- The words of `memory_map`. -/
abbrev memoryMapWords : Nat := 8192
/-- `MEMORY_KERNEL` -/
abbrev memoryKernelType : Nat := 0
/-- `MEMORY_USER` -/
abbrev memoryUserType : Nat := 1

/-- The words of `memory_map`. -/
abbrev MemoryMap := Nat → BitVec 32

/-- The state of `memory.c`, and the memory it hands out. -/
structure MemoryState where
  memoryMap : MemoryMap
  maxChunk : Nat
  bytes : Nat → UInt8

/-! ## Chunks of the map -/

/-- `memory_mark_used` -/
def memoryMarkUsed (map : MemoryMap) (chunk : Nat) : MemoryMap :=
  Function.update map (chunk / 32) (map (chunk / 32) ||| 1#32 <<< (chunk % 32))

/-- `memory_mark_free` -/
def memoryMarkFree (map : MemoryMap) (chunk : Nat) : MemoryMap :=
  Function.update map (chunk / 32) (map (chunk / 32) &&& ~~~(1#32 <<< (chunk % 32)))

/-- `memory_test_used` -/
def memoryTestUsed (map : MemoryMap) (chunk : Nat) : Bool :=
  map (chunk / 32) &&& 1#32 <<< (chunk % 32) ≠ 0

/-- The loops that mark `n` chunks from `first` on as used. -/
def memoryMarkUsedFrom (map : MemoryMap) (first : Nat) : Nat → MemoryMap
  | 0 => map
  | n + 1 => memoryMarkUsed (memoryMarkUsedFrom map first n) (first + n)

/-- The loop of `memory_free`. -/
def memoryMarkFreeFrom (map : MemoryMap) (first : Nat) : Nat → MemoryMap
  | 0 => map
  | n + 1 => memoryMarkFree (memoryMarkFreeFrom map first n) (first + n)

/-- `memset` -/
def memset (bytes : Nat → UInt8) (location : Nat) (c : UInt8) (n : Nat) : Nat → UInt8 :=
  fun i => if location ≤ i ∧ i < location + n then c else bytes i

/-! ## Initialisation -/

/-- `memory_init` -/
def memoryInit (m : MemoryState) (memoryTotal memoryKernel : Nat) : Int × MemoryState :=
  if memoryTotal > maxMemory then (-enomem, m)
  else if memoryKernel > reservedKernel then (-enomem, m)
  else if memoryTotal % chunkSize ≠ 0 then (-enomem, m)
  else
    let maxChunk := memoryTotal / chunkSize
    let map : MemoryMap := fun i => if i < maxChunk / 32 then 0 else m.memoryMap i
    if memoryKernel % chunkSize ≠ 0 then (-enomem, { m with memoryMap := map, maxChunk := maxChunk })
    else (0,
      { m with
        memoryMap := memoryMarkUsedFrom map 0 (memoryKernel / chunkSize), maxChunk := maxChunk })

/-- `memory_hierarchy_init`: what it does to the map. The models with several cores
(`multicore`) have their stacks at `0xff4000` to `0x1000000`. -/
def memoryHierarchyInit (m : MemoryState) (multicore : Bool) (memoryTotal memoryKernel : Nat) :
    MemoryState :=
  let m := (memoryInit m memoryTotal memoryKernel).2
  if multicore then
    { m with
      memoryMap := memoryMarkUsedFrom m.memoryMap (0xff4000 / chunkSize)
        ((0x1000000 - 0xff4000) / chunkSize) }
  else m

/-! ## Allocating and freeing -/

/-- The inner loop of `find_free`: how many chunks from `i` on are free, up to `n`. -/
def freeChunks (map : MemoryMap) (i : Nat) : Nat → Nat
  | 0 => 0
  | n + 1 => if memoryTestUsed map i then 0 else freeChunks map (i + 1) n + 1

/-- The outer loop of `find_free`, with the chunks left up to `stop`. -/
def findFreeLoop (map : MemoryMap) (numChunks stop : Nat) : Nat → Nat → Int
  | 0, _ => -enomem
  | left + 1, i =>
      if ¬ memoryTestUsed map i ∧ freeChunks map i numChunks = numChunks ∧ i + numChunks < stop then
        i
      else findFreeLoop map numChunks stop left (i + 1)

/-- `find_free` -/
def findFree (map : MemoryMap) (numChunks start stop : Nat) : Int :=
  findFreeLoop map numChunks stop (stop - start) start

/-- `((size-1)/CHUNK_SIZE)+1`, in unsigned arithmetic. -/
def chunksOf (size : Nat) : Nat := (if size = 0 then 4294967295 else size - 1) / chunkSize + 1

/-- `memory_allocate`: the address, or `none` for NULL. `first_chunk` is unsigned, so the
test for a negative answer of `find_free` never holds: chunks of negative index are marked,
and the top of the address space is cleared. -/
def memoryAllocate (m : MemoryState) (size type : Nat) : Except Stuck (Option Nat × MemoryState) :=
  let size := if size = 0 then 1 else size
  let numChunks := chunksOf size
  let region : Option (Nat × Nat) :=
    if type = memoryKernelType then some (0, reservedKernel / chunkSize)
    else if type = memoryUserType then some (reservedKernel / chunkSize, m.maxChunk)
    else none
  match region with
  | none => .ok (none, m)
  | some (start, stop) =>
      let found := findFree m.memoryMap numChunks start stop
      if found < 0 then .error .badAccess
      else
        let firstChunk := found.toNat
        let location := firstChunk * chunkSize
        .ok (some location,
          { m with
            memoryMap := memoryMarkUsedFrom m.memoryMap firstChunk numChunks
            bytes := memset m.bytes location 0 (numChunks * chunkSize) })

/-- `memory_free`. Marking chunks beyond the map writes behind the array. -/
def memoryFree (m : MemoryState) (location size : Nat) : Except Stuck (Int × MemoryState) :=
  let numChunks := chunksOf size
  let firstChunk := location / chunkSize
  if firstChunk + numChunks > 32 * memoryMapWords then .error .badAccess
  else .ok (0,
    { m with
      memoryMap := memoryMarkFreeFrom m.memoryMap firstChunk numChunks
      bytes := memset m.bytes location 0x56 size })

/-! ## The bits of the map -/

theorem memoryTestUsed_eq (map : MemoryMap) (c : Nat) :
    memoryTestUsed map c = (map (c / 32)).getLsbD (c % 32) := by
  have hlt : c % 32 < 32 := Nat.mod_lt c (by decide)
  rw [memoryTestUsed]
  cases hbit : (map (c / 32)).getLsbD (c % 32) with
  | true =>
      apply decide_eq_true
      intro h
      have hz : (map (c / 32) &&& 1#32 <<< (c % 32)).getLsbD (c % 32) = false := by
        rw [h]
        simp
      rw [BitVec.getLsbD_and, hbit] at hz
      simp [hlt] at hz
  | false =>
      apply decide_eq_false
      rw [not_not]
      apply BitVec.eq_of_getLsbD_eq
      intro i hi
      by_cases hic : i = c % 32
      · rw [hic]
        simp [hbit]
      · simp
        omega

/-- One bit of the map changes, seen from any chunk. -/
theorem memoryTestUsed_update (map : MemoryMap) (c c' : Nat) (word : BitVec 32)
    (hword : ∀ i, i ≠ c % 32 → word.getLsbD i = (map (c / 32)).getLsbD i) :
    memoryTestUsed (Function.update map (c / 32) word) c' =
      if c' = c then word.getLsbD (c % 32) else memoryTestUsed map c' := by
  rw [memoryTestUsed_eq, memoryTestUsed_eq]
  by_cases hc : c' = c
  · subst hc
    simp
  · rw [if_neg hc]
    by_cases hdiv : c' / 32 = c / 32
    · have hmod : c' % 32 ≠ c % 32 := by omega
      rw [hdiv, Function.update_self]
      exact hword _ hmod
    · rw [Function.update_of_ne hdiv]

@[simp] theorem memoryTestUsed_memoryMarkUsed (map : MemoryMap) (c c' : Nat) :
    memoryTestUsed (memoryMarkUsed map c) c' = (decide (c' = c) || memoryTestUsed map c') := by
  have hlt : c % 32 < 32 := Nat.mod_lt c (by decide)
  rw [memoryMarkUsed, memoryTestUsed_update]
  · by_cases hc : c' = c
    · simp [hc, hlt]
    · simp [hc]
  · intro i hi
    simp
    omega

@[simp] theorem memoryTestUsed_memoryMarkFree (map : MemoryMap) (c c' : Nat) :
    memoryTestUsed (memoryMarkFree map c) c' = (decide (c' ≠ c) && memoryTestUsed map c') := by
  have hlt : c % 32 < 32 := Nat.mod_lt c (by decide)
  rw [memoryMarkFree, memoryTestUsed_update]
  · by_cases hc : c' = c
    · simp [hc, hlt]
    · simp [hc]
  · intro i hi
    simp
    intro h
    have hlt' := BitVec.lt_of_getLsbD h
    omega

/-- The chunks marked by a loop. -/
theorem memoryTestUsed_memoryMarkUsedFrom (map : MemoryMap) (first n c : Nat) :
    memoryTestUsed (memoryMarkUsedFrom map first n) c =
      (decide (first ≤ c ∧ c < first + n) || memoryTestUsed map c) := by
  induction n with
  | zero =>
      have hno : ¬ (first ≤ c ∧ c < first + 0) := by omega
      simp only [memoryMarkUsedFrom, hno, decide_false, Bool.false_or]
  | succ n ih =>
      have hiff : (first ≤ c ∧ c < first + (n + 1)) ↔ c = first + n ∨ (first ≤ c ∧ c < first + n) := by
        omega
      simp only [memoryMarkUsedFrom, memoryTestUsed_memoryMarkUsed, ih, hiff, Bool.decide_or,
        Bool.or_assoc]

theorem memoryTestUsed_memoryMarkFreeFrom (map : MemoryMap) (first n c : Nat) :
    memoryTestUsed (memoryMarkFreeFrom map first n) c =
      (decide (¬ (first ≤ c ∧ c < first + n)) && memoryTestUsed map c) := by
  induction n with
  | zero =>
      have hno : ¬ (first ≤ c ∧ c < first + 0) := by omega
      simp only [memoryMarkFreeFrom, hno, not_false_eq_true, decide_true, Bool.true_and]
  | succ n ih =>
      have hiff : (¬ (first ≤ c ∧ c < first + (n + 1))) ↔
          c ≠ first + n ∧ ¬ (first ≤ c ∧ c < first + n) := by
        omega
      simp only [memoryMarkFreeFrom, memoryTestUsed_memoryMarkFree, ih, hiff, Bool.decide_and,
        Bool.and_assoc]

/-! ## Booting -/

/-- With sizes in range, `memory_init` clears the map and marks the kernel. -/
theorem memoryInit_eq (m : MemoryState) {memoryTotal memoryKernel : Nat}
    (htotal : memoryTotal ≤ maxMemory) (hkernel : memoryKernel ≤ reservedKernel)
    (htotal' : memoryTotal % 4096 = 0) (hkernel' : memoryKernel % 4096 = 0) :
    (memoryInit m memoryTotal memoryKernel).2 =
      { m with
        memoryMap := memoryMarkUsedFrom
          (fun i => if i < memoryTotal / 4096 / 32 then 0 else m.memoryMap i) 0 (memoryKernel / 4096)
        maxChunk := memoryTotal / 4096 } := by
  unfold memoryInit
  rw [if_neg (Nat.not_lt.2 htotal), if_neg (Nat.not_lt.2 hkernel), if_neg (not_not.2 htotal')]
  simp only [hkernel', ne_eq, not_true_eq_false, if_false]

/-! ## The search -/

/-- The inner loop reaches its end exactly when all chunks are free. -/
theorem freeChunks_eq_iff {map : MemoryMap} {i n : Nat} :
    freeChunks map i n = n ↔ ∀ c, i ≤ c → c < i + n → memoryTestUsed map c = false := by
  induction n generalizing i with
  | zero =>
      simp only [freeChunks, true_iff]
      intro c hle hlt
      omega
  | succ n ih =>
      rw [freeChunks]
      cases hused : memoryTestUsed map i with
      | true =>
          simp only [if_true]
          constructor
          · intro h
            omega
          · intro h
            have hi := h i (Nat.le_refl i) (by omega)
            rw [hused] at hi
            cases hi
      | false =>
          simp only [Bool.false_eq_true, if_false, Nat.add_right_cancel_iff, ih]
          constructor
          · intro h c hle hlt
            rcases Nat.eq_or_lt_of_le hle with rfl | hlt'
            · exact hused
            · exact h c hlt' (by omega)
          · intro h c hle hlt
            exact h c (by omega) (by omega)

/-- What the search returns is the start of a run of free chunks inside the region. -/
theorem findFreeLoop_spec {map : MemoryMap} {n stop left i : Nat}
    (h : 0 ≤ findFreeLoop map n stop left i) :
    ∃ first : Nat, findFreeLoop map n stop left i = first ∧ i ≤ first ∧ first + n < stop ∧
      ∀ c, first ≤ c → c < first + n → memoryTestUsed map c = false := by
  induction left generalizing i with
  | zero =>
      rw [findFreeLoop] at h
      exact absurd h (by decide)
  | succ left ih =>
      rw [findFreeLoop] at h ⊢
      split
      · rename_i hfound
        obtain ⟨-, hrun, hstop⟩ := hfound
        exact ⟨i, rfl, Nat.le_refl i, hstop, freeChunks_eq_iff.1 hrun⟩
      · rename_i hno
        rw [if_neg hno] at h
        obtain ⟨first, heq, hle, hstop, hfree⟩ := ih h
        exact ⟨first, heq, by omega, hstop, hfree⟩

theorem findFree_spec {map : MemoryMap} {n start stop : Nat} (h : 0 ≤ findFree map n start stop) :
    ∃ first : Nat, findFree map n start stop = first ∧ start ≤ first ∧ first + n < stop ∧
      ∀ c, first ≤ c → c < first + n → memoryTestUsed map c = false :=
  findFreeLoop_spec h

/-- The number of chunks of a size is the size divided by 4096, rounded up. -/
theorem chunksOf_eq {size : Nat} (h0 : 0 < size) : chunksOf size = (size + 4095) / 4096 := by
  have hne : size ≠ 0 := Nat.ne_of_gt h0
  show (if size = 0 then 4294967295 else size - 1) / 4096 + 1 = (size + 4095) / 4096
  rw [if_neg hne]
  omega

/-- The region that blocks of a type lie in: kernel memory is the first 16 MiB. -/
def regionOf (maxChunk type : Nat) : Nat × Nat :=
  if type = memoryKernelType then (0, 4096) else (4096, maxChunk)

/-- What `find_free` finds in the region of the type is what a successful allocation takes. -/
theorem memoryAllocate_found {m m' : MemoryState} {size type location : Nat} (h0 : 0 < size)
    (h : memoryAllocate m size type = .ok (some location, m')) :
    (type = memoryKernelType ∨ type = memoryUserType) ∧
      ∃ first : Nat,
        findFree m.memoryMap (chunksOf size) (regionOf m.maxChunk type).1
          (regionOf m.maxChunk type).2 = first ∧
        location = 4096 * first ∧
        m' = { m with
          memoryMap := memoryMarkUsedFrom m.memoryMap first (chunksOf size)
          bytes := memset m.bytes location 0 (chunksOf size * chunkSize) } := by
  have hsize : (if size = 0 then 1 else size) = size := if_neg (by omega)
  -- the region is the one that the code looks up, for the two types it knows
  have hregion : (type = memoryKernelType ∨ type = memoryUserType) ∧
      (if type = memoryKernelType then some (0, reservedKernel / chunkSize)
        else if type = memoryUserType then some (reservedKernel / chunkSize, m.maxChunk)
        else none) = some (regionOf m.maxChunk type) := by
    by_cases hk : type = memoryKernelType
    · rw [if_pos hk, regionOf, if_pos hk]
      exact ⟨Or.inl hk, rfl⟩
    · by_cases hu : type = memoryUserType
      · rw [if_neg hk, if_pos hu, regionOf, if_neg hk]
        exact ⟨Or.inr hu, rfl⟩
      · simp only [memoryAllocate, if_neg hk, if_neg hu] at h
        cases h
  refine ⟨hregion.1, ?_⟩
  simp only [memoryAllocate, hsize, hregion.2] at h
  split at h
  · cases h
  · rename_i hge
    obtain ⟨first, hfirst⟩ := Int.eq_ofNat_of_zero_le (Int.not_lt.1 hge)
    rw [hfirst, Int.toNat_natCast] at h
    cases h
    exact ⟨first, hfirst, Nat.mul_comm _ _, rfl⟩

/-- A successful allocation: a run of free chunks of the region is marked used. -/
theorem memoryAllocate_eq_some {m m' : MemoryState} {size type location : Nat} (h0 : 0 < size)
    (h : memoryAllocate m size type = .ok (some location, m')) :
    ∃ first, location = 4096 * first ∧ m'.maxChunk = m.maxChunk ∧
      m'.memoryMap = memoryMarkUsedFrom m.memoryMap first (chunksOf size) ∧
      (type = memoryKernelType ∨ type = memoryUserType) ∧
      (regionOf m.maxChunk type).1 ≤ first ∧
      first + chunksOf size < (regionOf m.maxChunk type).2 ∧
      ∀ c, first ≤ c → c < first + chunksOf size → memoryTestUsed m.memoryMap c = false := by
  obtain ⟨htype, first, hfound, hlocation, rfl⟩ := memoryAllocate_found h0 h
  obtain ⟨first', heq, hrun⟩ := findFree_spec (hfound ▸ Int.natCast_nonneg first)
  obtain rfl : first = first' := Int.ofNat_inj.1 (hfound.symm.trans heq)
  exact ⟨first, hlocation, rfl, rfl, htype, hrun⟩

/-- A completed `memory_free` marks the chunks of the block free. -/
theorem memoryFree_eq_ok {m m' : MemoryState} {location size : Nat} {result : Int}
    (h : memoryFree m location size = .ok (result, m')) :
    m'.maxChunk = m.maxChunk ∧
      m'.memoryMap = memoryMarkFreeFrom m.memoryMap (location / 4096) (chunksOf size) := by
  simp only [memoryFree] at h
  split at h
  · cases h
  · simp only [Except.ok.injEq, Prod.mk.injEq] at h
    rw [← h.2]
    exact ⟨rfl, rfl⟩

end Vmwos
