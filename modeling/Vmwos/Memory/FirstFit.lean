import Vmwos.Memory.Memory
import Vmwos.Library.Run
import Mathlib.Data.Nat.Find

/-!
# The search for free chunks, and what allocating and freeing make of it

`find_free` goes through a region from its start and takes the first run of free chunks that is
long enough and ends before the last chunk of the region; a run that ends with the region is not
taken (`findFree_firstFit_iff`). `memory_allocate` keeps the answer in an unsigned variable, so
that it does not notice a search that fails (`memoryAllocate_clean_iff`), and `memory_free` counts
the chunks of an empty block in another way than `memory_allocate` (`memoryFree_undoes_iff`).
-/

set_option autoImplicit false

namespace Vmwos

/-! ## The chunks that the search looks at -/

/-- The inner loop of `find_free` as `freeChunks` has it: the chunks that it tests. -/
def freeChunksTested (map : MemoryMap) : (i n : Nat) → List Nat
  | _, 0 => []
  | i, n + 1 => i :: if memoryTestUsed map i then [] else freeChunksTested map (i + 1) n

/-- The outer loop with the chunks that it tests: the result is that of `findFreeLoop`. -/
def findFreeTested (map : MemoryMap) (numChunks stop : Nat) : Nat → Nat → Int × List Nat
  | 0, _ => (-enomem, [])
  | left + 1, i =>
      let rest := findFreeTested map numChunks stop left (i + 1)
      if memoryTestUsed map i then (rest.1, i :: rest.2)
      else
        let tested := i :: freeChunksTested map i numChunks
        if freeChunks map i numChunks = numChunks ∧ i + numChunks < stop then (i, tested)
        else (rest.1, tested ++ rest.2)

/-- The `n` chunks from `i` on are free. -/
def FreeRun (map : MemoryMap) (n i : Nat) : Prop :=
  ∀ c, i ≤ c → c < i + n → memoryTestUsed map c = false

/-- The `n` chunks from `i` on are free chunks of the region. -/
def Fits (map : MemoryMap) (n start stop i : Nat) : Prop :=
  start ≤ i ∧ i + n ≤ stop ∧ FreeRun map n i

/-- The search returns the first run that fits, or reports that there is none, and looks at no
chunk behind the region. -/
def FirstFit (map : MemoryMap) (n start stop : Nat) : Prop :=
  ((∃ i : Nat, Fits map n start stop i ∧ (∀ j < i, ¬ Fits map n start stop j) ∧
      findFree map n start stop = i) ∨
    (∀ i, ¬ Fits map n start stop i) ∧ findFree map n start stop = -enomem) ∧
  ∀ c ∈ (findFreeTested map n stop (stop - start) start).2, c < stop

section Search

variable {map : MemoryMap} {n start stop left i j c : Nat}

/-- A run that `find_free` takes. -/
def TakenRun (map : MemoryMap) (n stop i : Nat) : Prop := FreeRun map n i ∧ i + n < stop

theorem takenRun_iff (hn : 1 ≤ n) : TakenRun map n stop i ↔
    ¬ memoryTestUsed map i ∧ freeChunks map i n = n ∧ i + n < stop := by
  rw [freeChunks_eq_iff]
  constructor
  · rintro ⟨hrun, hstop⟩
    refine ⟨?_, hrun, hstop⟩
    rw [hrun i (Nat.le_refl i) (Nat.lt_add_of_pos_right hn)]
    exact Bool.false_ne_true
  · rintro ⟨-, hrun, hstop⟩
    exact ⟨hrun, hstop⟩

/-- Testing is part of the search. -/
theorem findFreeTested_fst (map : MemoryMap) (n stop left i : Nat) :
    (findFreeTested map n stop left i).1 = findFreeLoop map n stop left i := by
  induction left generalizing i with
  | zero => rfl
  | succ left ih =>
      rw [findFreeTested, findFreeLoop]
      cases hused : memoryTestUsed map i with
      | true => simp [ih]
      | false =>
          by_cases htaken : freeChunks map i n = n ∧ i + n < stop
          · simp [htaken]
          · simp [htaken, ih]

/-- The search answers with the first run it takes. -/
theorem findFreeLoop_first (hn : 1 ≤ n) (hij : i ≤ j) (hj : j < i + left)
    (htaken : TakenRun map n stop j) (hfirst : ∀ k, i ≤ k → k < j → ¬ TakenRun map n stop k) :
    findFreeLoop map n stop left i = j := by
  induction left generalizing i with
  | zero => omega
  | succ left ih =>
      rw [findFreeLoop]
      rcases Nat.eq_or_lt_of_le hij with rfl | hlt
      · rw [if_pos ((takenRun_iff hn).1 htaken)]
      · have hskip : ¬ TakenRun map n stop i := hfirst i (Nat.le_refl i) hlt
        rw [takenRun_iff hn] at hskip
        rw [if_neg hskip]
        exact ih hlt (by omega) fun k hk => hfirst k (Nat.le_of_succ_le hk)

/-- It fails if there is none. -/
theorem findFreeLoop_none (hn : 1 ≤ n)
    (hnone : ∀ k, i ≤ k → k < i + left → ¬ TakenRun map n stop k) :
    findFreeLoop map n stop left i = -enomem := by
  induction left generalizing i with
  | zero => rfl
  | succ left ih =>
      have hskip : ¬ TakenRun map n stop i := hnone i (Nat.le_refl i) (by omega)
      rw [takenRun_iff hn] at hskip
      rw [findFreeLoop, if_neg hskip]
      exact ih fun k hk hk' => hnone k (Nat.le_of_succ_le hk) (by omega)

/-- The inner loop tests chunks up to the first one in use. -/
theorem mem_freeChunksTested : c ∈ freeChunksTested map i n ↔
    i ≤ c ∧ c < i + n ∧ ∀ k, i ≤ k → k < c → memoryTestUsed map k = false := by
  induction n generalizing i with
  | zero =>
      simp only [freeChunksTested, List.not_mem_nil, false_iff]
      omega
  | succ n ih =>
      rw [freeChunksTested, List.mem_cons]
      cases hused : memoryTestUsed map i with
      | true =>
          simp only [if_true, List.not_mem_nil, or_false]
          constructor
          · rintro rfl
            exact ⟨Nat.le_refl c, by omega, fun k hk hk' => absurd hk (Nat.not_le.2 hk')⟩
          · rintro ⟨hle, -, hfree⟩
            by_contra hne
            have hi := hfree i (Nat.le_refl i) (by omega)
            rw [hused] at hi
            cases hi
      | false =>
          simp only [Bool.false_eq_true, if_false, ih]
          constructor
          · rintro (rfl | ⟨hle, hlt, hfree⟩)
            · exact ⟨Nat.le_refl c, by omega, fun k hk hk' => absurd hk (Nat.not_le.2 hk')⟩
            · refine ⟨by omega, by omega, fun k hk hk' => ?_⟩
              rcases Nat.eq_or_lt_of_le hk with rfl | hlt'
              · exact hused
              · exact hfree k hlt' hk'
          · rintro ⟨hle, hlt, hfree⟩
            rcases Nat.eq_or_lt_of_le hle with rfl | hlt'
            · exact Or.inl rfl
            · exact Or.inr ⟨hlt', by omega, fun k hk => hfree k (Nat.le_of_succ_le hk)⟩

/-- The search looks at a chunk on its way from a chunk that it comes to, and it comes to no chunk
behind a run that it takes. -/
theorem mem_findFreeTested (hn : 1 ≤ n) : c ∈ (findFreeTested map n stop left i).2 ↔
    ∃ k, i ≤ k ∧ k < i + left ∧ (∀ k', i ≤ k' → k' < k → ¬ TakenRun map n stop k') ∧
      c ∈ freeChunksTested map k n := by
  induction left generalizing i with
  | zero =>
      simp only [findFreeTested, List.not_mem_nil, false_iff]
      rintro ⟨k, hk, hk', -⟩
      omega
  | succ left ih =>
      -- the chunk itself is among those that the inner loop would test
      have hself : i ∈ freeChunksTested map i n :=
        mem_freeChunksTested.2 ⟨Nat.le_refl i, Nat.lt_add_of_pos_right hn,
          fun k hk hk' => absurd hk (Nat.not_le.2 hk')⟩
      have htested : ∀ tested : List Nat, (∀ d, d ∈ tested ↔ d ∈ freeChunksTested map i n) →
          ¬ TakenRun map n stop i →
          (c ∈ tested ++ (findFreeTested map n stop left (i + 1)).2 ↔
            ∃ k, i ≤ k ∧ k < i + (left + 1) ∧ (∀ k', i ≤ k' → k' < k → ¬ TakenRun map n stop k') ∧
              c ∈ freeChunksTested map k n) := by
        intro tested hiff hskip
        rw [List.mem_append, hiff, ih]
        constructor
        · rintro (hmem | ⟨k, hk, hk', hfirst, hmem⟩)
          · exact ⟨i, Nat.le_refl i, by omega, fun k' h h' => absurd h (Nat.not_le.2 h'), hmem⟩
          · refine ⟨k, Nat.le_of_succ_le hk, by omega, fun k' h h' => ?_, hmem⟩
            rcases Nat.eq_or_lt_of_le h with rfl | hlt
            · exact hskip
            · exact hfirst k' hlt h'
        · rintro ⟨k, hk, hk', hfirst, hmem⟩
          rcases Nat.eq_or_lt_of_le hk with rfl | hlt
          · exact Or.inl hmem
          · exact Or.inr ⟨k, hlt, by omega, fun k' h => hfirst k' (Nat.le_of_succ_le h), hmem⟩
      rw [findFreeTested]
      cases hused : memoryTestUsed map i with
      | true =>
          simp only [if_true]
          have hskip : ¬ TakenRun map n stop i := by
            rw [takenRun_iff hn, hused]
            exact fun h => h.1 rfl
          apply htested [i]
          · intro d
            obtain ⟨m, rfl⟩ := Nat.exists_eq_succ_of_ne_zero (Nat.ne_of_gt hn)
            rw [freeChunksTested, hused, if_pos rfl]
          · exact hskip
      | false =>
          simp only [Bool.false_eq_true, if_false]
          split
          · rename_i htaken
            have hhit : TakenRun map n stop i := (takenRun_iff hn).2 ⟨by simp [hused], htaken⟩
            rw [List.mem_cons]
            constructor
            · intro hmem
              refine ⟨i, Nat.le_refl i, by omega, fun k' h h' => absurd h (Nat.not_le.2 h'), ?_⟩
              rcases hmem with rfl | hmem
              · exact hself
              · exact hmem
            · rintro ⟨k, hk, -, hfirst, hmem⟩
              rcases Nat.eq_or_lt_of_le hk with rfl | hlt
              · exact Or.inr hmem
              · exact absurd hhit (hfirst i (Nat.le_refl i) hlt)
          · rename_i hno
            apply htested (i :: freeChunksTested map i n)
            · intro d
              rw [List.mem_cons]
              constructor
              · rintro (rfl | hmem)
                · exact hself
                · exact hmem
              · exact Or.inr
            · rw [takenRun_iff hn]
              exact fun h => hno h.2

/-- A run that fits is taken unless it ends with the region. -/
theorem Fits.takenRun (h : Fits map n start stop i) (hend : i + n ≠ stop) : TakenRun map n stop i :=
  ⟨h.2.2, Nat.lt_of_le_of_ne h.2.1 hend⟩

theorem fits_of_takenRun (hstart : start ≤ i) (h : TakenRun map n stop i) : Fits map n start stop i :=
  ⟨hstart, Nat.le_of_lt h.2, h.1⟩

/-- With a run to take, the search is as it should be: the first run that fits is before it, or it
itself, and what is tested lies before its end. -/
theorem firstFit_of_takenRun (hn : 1 ≤ n) (hstart : start ≤ i) (htaken : TakenRun map n stop i) :
    FirstFit map n start stop := by
  classical
  have hex : ∃ k, start ≤ k ∧ TakenRun map n stop k := ⟨i, hstart, htaken⟩
  obtain ⟨hfirst, hhit⟩ := Nat.find_spec hex
  have hleast : ∀ k, start ≤ k → k < Nat.find hex → ¬ TakenRun map n stop k :=
    fun k hk hlt htaken' => Nat.find_min hex hlt ⟨hk, htaken'⟩
  have hend : Nat.find hex + n < stop := hhit.2
  refine ⟨Or.inl ⟨Nat.find hex, fits_of_takenRun hfirst hhit, ?_, ?_⟩, ?_⟩
  · intro j hj hfits
    exact hleast j hfits.1 hj (hfits.takenRun (by omega))
  · exact findFreeLoop_first hn hfirst (by omega) hhit hleast
  · intro c hc
    obtain ⟨k, hk, -, hno, hmem⟩ := (mem_findFreeTested hn).1 hc
    have hle : k ≤ Nat.find hex := by
      by_contra hlt
      exact hno _ hfirst (Nat.not_le.1 hlt) hhit
    have hc' := (mem_freeChunksTested.1 hmem).2.1
    omega

/-- When the last chunk of the region is in use, no run ends with the region, and the inner loop
does not get past that chunk. -/
theorem firstFit_of_lastUsed (hn : 1 ≤ n) (hlast : memoryTestUsed map (stop - 1) = true) :
    FirstFit map n start stop := by
  by_cases hex : ∃ k, start ≤ k ∧ TakenRun map n stop k
  · obtain ⟨k, hk, htaken⟩ := hex
    exact firstFit_of_takenRun hn hk htaken
  · have hnone : ∀ k, start ≤ k → ¬ TakenRun map n stop k := fun k hk h => hex ⟨k, hk, h⟩
    refine ⟨Or.inr ⟨fun k hfits => ?_, ?_⟩, fun c hc => ?_⟩
    · apply hnone k hfits.1
      apply hfits.takenRun
      intro hend
      have hfree := hfits.2.2 (stop - 1) (by omega) (by omega)
      rw [hlast] at hfree
      cases hfree
    · exact findFreeLoop_none hn fun k hk _ => hnone k hk
    · obtain ⟨k, hk, hk', -, hmem⟩ := (mem_findFreeTested hn).1 hc
      obtain ⟨-, -, hfree⟩ := mem_freeChunksTested.1 hmem
      by_contra hge
      have hlast' := hfree (stop - 1) (by omega) (by omega)
      rw [hlast] at hlast'
      cases hlast'

/-- The search of a region finds the first run and stays in the region exactly if the region is
empty, its last chunk is in use, or a run ends before its last chunk. -/
theorem findFree_firstFit_iff (hn : 1 ≤ n) : FirstFit map n start stop ↔
    stop ≤ start ∨ memoryTestUsed map (stop - 1) = true ∨
      ∃ i, start ≤ i ∧ i + n < stop ∧ ∀ c, i ≤ c → c < i + n → memoryTestUsed map c = false := by
  constructor
  · rintro ⟨hresult, hinside⟩
    by_contra hno
    simp only [not_or, Nat.not_le, Bool.not_eq_true] at hno
    obtain ⟨hlt, hlast, hnone⟩ := hno
    have hfail : findFree map n start stop = -enomem :=
      findFreeLoop_none hn fun k hk _ htaken => hnone ⟨k, hk, htaken.2, htaken.1⟩
    rcases hresult with ⟨i, -, -, hfound⟩ | ⟨hfits, -⟩
    · rw [hfail] at hfound
      have hneg : -enomem < 0 := by decide
      omega
    · rcases Nat.eq_or_lt_of_le hn with rfl | hn2
      · -- the last chunk alone would do
        refine hfits (stop - 1) ⟨by omega, by omega, fun c hc hc' => ?_⟩
        have hc'' : c = stop - 1 := by omega
        rw [hc'', hlast]
      · -- the inner loop goes on from the last chunk to the one behind it
        have hmem : stop ∈ (findFreeTested map n stop (stop - start) start).2 := by
          refine (mem_findFreeTested hn).2 ⟨stop - 1, by omega, by omega, ?_, ?_⟩
          · exact fun k hk _ htaken => hnone ⟨k, hk, htaken.2, htaken.1⟩
          · refine mem_freeChunksTested.2 ⟨by omega, by omega, fun k hk hk' => ?_⟩
            have hk'' : k = stop - 1 := by omega
            rw [hk'', hlast]
        exact Nat.lt_irrefl stop (hinside stop hmem)
  · rintro (hempty | hlast | ⟨i, hstart, hend, hrun⟩)
    · have hleft : stop - start = 0 := Nat.sub_eq_zero_of_le hempty
      refine ⟨Or.inr ⟨fun i hfits => ?_, ?_⟩, fun c hc => ?_⟩
      · have h₁ := hfits.1
        have h₂ := hfits.2.1
        omega
      · rw [findFree, hleft]
        rfl
      · rw [hleft] at hc
        cases hc
    · exact firstFit_of_lastUsed hn hlast
    · exact firstFit_of_takenRun hn hstart ⟨hrun, hend⟩

/-- Two free chunks at the end of a region whose first chunk is in use. -/
theorem findFree_firstFit_iff_pair : FirstFit (fun _ => 1) 1 0 3 ↔
    3 ≤ 0 ∨ memoryTestUsed (fun _ => 1) (3 - 1) = true ∨
      ∃ i, 0 ≤ i ∧ i + 1 < 3 ∧
        ∀ c, i ≤ c → c < i + 1 → memoryTestUsed (fun _ => 1) c = false :=
  findFree_firstFit_iff (Nat.le_refl 1)

/-- The last chunk of the user memory of a machine with 16 MiB and 4 KiB is free, and is not
found. -/
theorem not_findFree_firstFit : ¬ FirstFit (fun _ => 0) 1 4096 4097 := by
  rintro ⟨(⟨i, -, -, hfound⟩ | ⟨hnone, -⟩), -⟩
  · have hfail : findFree (fun _ => 0) 1 4096 4097 = -enomem := by decide
    rw [hfail] at hfound
    have hneg : -enomem < 0 := by decide
    omega
  · refine hnone 4096 ⟨Nat.le_refl _, Nat.le_refl _, fun c _ _ => ?_⟩
    simp [memoryTestUsed]

end Search

/-! ## Allocations that fail -/

/-- The chunks of a block: its bytes, at least one, divided by 4096 and rounded up. -/
def blockChunks (size : Nat) : Nat := (max size 1 + 4095) / 4096

/-- No run of free chunks is long enough in the region that the type asks for. -/
def NoRoom (m : MemoryState) (size type : Nat) : Prop :=
  (type = memoryKernelType →
    ∀ i, ¬ Fits m.memoryMap (blockChunks size) 0 (reservedKernel / chunkSize) i) ∧
  (type = memoryUserType →
    ∀ i, ¬ Fits m.memoryMap (blockChunks size) (reservedKernel / chunkSize) m.maxChunk i)

section Allocate

variable {m m' : MemoryState} {size type p start stop : Nat}

theorem chunksOf_eq_blockChunks (size : Nat) :
    chunksOf (if size = 0 then 1 else size) = blockChunks size := by
  have hsize : (if size = 0 then 1 else size) = max size 1 := by
    split
    · rename_i h0
      rw [h0]
      rfl
    · rename_i h0
      rw [Nat.max_eq_left (Nat.pos_of_ne_zero h0)]
  rw [hsize, chunksOf_eq (Nat.lt_of_lt_of_le Nat.zero_lt_one (Nat.le_max_right size 1)), blockChunks]

theorem blockChunks_pos (size : Nat) : 1 ≤ blockChunks size := by
  have h1 := Nat.le_max_right size 1
  rw [blockChunks]
  omega

/-- Without a run that fits the search fails. -/
theorem findFree_of_noFits {map : MemoryMap} {n : Nat} (hn : 1 ≤ n)
    (h : ∀ i, ¬ Fits map n start stop i) : findFree map n start stop = -enomem :=
  findFreeLoop_none hn fun k hk _ htaken => h k (fits_of_takenRun hk htaken)

/-- A search that fails is not noticed. -/
theorem memoryAllocate_of_noRoom (h : NoRoom m size type)
    (htype : type = memoryKernelType ∨ type = memoryUserType) :
    memoryAllocate m size type = .error .badAccess := by
  have hneg : -enomem < 0 := by decide
  simp only [memoryAllocate, chunksOf_eq_blockChunks]
  by_cases hkernel : type = memoryKernelType
  · rw [if_pos hkernel]
    simp only [findFree_of_noFits (blockChunks_pos size) (h.1 hkernel), if_pos hneg]
  · have huser := htype.resolve_left hkernel
    rw [if_neg hkernel, if_pos huser]
    simp only [findFree_of_noFits (blockChunks_pos size) (h.2 huser), if_pos hneg]

/-- A request for which there is no room is answered with NULL, and nothing else happens, exactly
if its type is neither of the two. -/
theorem memoryAllocate_clean_iff (h : NoRoom m size type) :
    memoryAllocate m size type = .ok (none, m) ↔
      type ≠ memoryKernelType ∧ type ≠ memoryUserType := by
  constructor
  · intro hclean
    have hno : ¬ (type = memoryKernelType ∨ type = memoryUserType) := by
      intro htype
      rw [memoryAllocate_of_noRoom h htype] at hclean
      cases hclean
    exact not_or.1 hno
  · rintro ⟨hkernel, huser⟩
    simp only [memoryAllocate, if_neg hkernel, if_neg huser]

/-- A machine with 16 MiB has no user memory. -/
def kernelOnly : MemoryState := ⟨fun _ => 0, 4096, fun _ => 0⟩

theorem noRoom_kernelOnly : NoRoom kernelOnly 1 memoryUserType := by
  constructor
  · intro h
    cases h
  · rintro - i ⟨hstart, hstop, -⟩
    have hpos := blockChunks_pos 1
    have hstart' : 4096 ≤ i := hstart
    have hstop' : i + blockChunks 1 ≤ 4096 := hstop
    omega

theorem memoryAllocate_clean_iff_other : memoryAllocate kernelOnly 1 2 = .ok (none, kernelOnly) ↔
    2 ≠ memoryKernelType ∧ 2 ≠ memoryUserType :=
  memoryAllocate_clean_iff ⟨fun h => absurd h (by decide), fun h => absurd h (by decide)⟩

/-- A request for user memory there. -/
theorem not_memoryAllocate_clean : NoRoom kernelOnly 1 memoryUserType ∧
    memoryAllocate kernelOnly 1 memoryUserType ≠ .ok (none, kernelOnly) := by
  refine ⟨noRoom_kernelOnly, ?_⟩
  rw [memoryAllocate_of_noRoom noRoom_kernelOnly (Or.inr rfl)]
  intro hclean
  cases hclean

/-! ## Freeing what has just been allocated -/

/-- Two maps with the same chunks in use are the same. -/
theorem memoryMap_ext {map map' : MemoryMap}
    (h : ∀ c, memoryTestUsed map' c = memoryTestUsed map c) : map' = map := by
  funext w
  apply BitVec.eq_of_getLsbD_eq
  intro i hi
  have hc := h (32 * w + i)
  have hdiv : (32 * w + i) / 32 = w := by omega
  have hmod : (32 * w + i) % 32 = i := by omega
  rw [memoryTestUsed_eq, memoryTestUsed_eq, hdiv, hmod] at hc
  exact hc

/-- Chunks that were free are free again. -/
theorem memoryMarkFreeFrom_memoryMarkUsedFrom {map : MemoryMap} {first n : Nat}
    (h : FreeRun map n first) :
    memoryMarkFreeFrom (memoryMarkUsedFrom map first n) first n = map := by
  apply memoryMap_ext
  intro c
  rw [memoryTestUsed_memoryMarkFreeFrom, memoryTestUsed_memoryMarkUsedFrom]
  by_cases hc : first ≤ c ∧ c < first + n
  · simp [hc, h c hc.1 hc.2]
  · simp [hc]

/-- A block of no bytes is allocated as one of one byte. -/
theorem memoryAllocate_zero (m : MemoryState) (type : Nat) :
    memoryAllocate m 0 type = memoryAllocate m 1 type := rfl

/-- Freeing a block that has just been allocated restores the map, and poisons bytes of the block
only. -/
def FreeUndoes (m m' : MemoryState) (size p : Nat) : Prop :=
  ∃ r m'', memoryFree m' p size = .ok (r, m'') ∧ m''.memoryMap = m.memoryMap ∧
    ∀ a, a < p ∨ p + blockChunks size * chunkSize ≤ a → m''.bytes a = m'.bytes a

/-- It does so exactly if the block has bytes. The bound is that of `memory_init`. -/
theorem memoryFree_undoes_iff (hmax : m.maxChunk ≤ maxMemory / chunkSize)
    (h : memoryAllocate m size type = .ok (some p, m')) :
    FreeUndoes m m' size p ↔ size ≠ 0 := by
  constructor
  · rintro ⟨r, m'', hfree, -⟩ rfl
    rw [memoryAllocate_zero] at h
    obtain ⟨first, rfl, -⟩ := memoryAllocate_eq_some Nat.zero_lt_one h
    -- 2^32-1 bytes are counted, which are more chunks than the map has
    have hchunks : chunksOf 0 = 1048576 := rfl
    have hpast : 4096 * first / chunkSize + chunksOf 0 > 32 * memoryMapWords := by
      rw [hchunks]
      show 32 * 8192 < 4096 * first / 4096 + 1048576
      omega
    simp only [memoryFree, if_pos hpast] at hfree
    cases hfree
  · intro hsize
    have hpos := Nat.pos_of_ne_zero hsize
    obtain ⟨first, rfl, -, hmap, -, -, hstop, hrun⟩ := memoryAllocate_eq_some hpos h
    have hchunks : chunksOf size = blockChunks size := by
      have heq := chunksOf_eq_blockChunks size
      rwa [if_neg hsize] at heq
    have hfirst : 4096 * first / 4096 = first := Nat.mul_div_cancel_left first (by decide)
    have hregion : (regionOf m.maxChunk type).2 ≤ 262144 := by
      rw [regionOf]
      split
      · show 4096 ≤ 262144
        decide
      · exact hmax
    have hinside : ¬ 4096 * first / chunkSize + chunksOf size > 32 * memoryMapWords := by
      show ¬ 32 * 8192 < 4096 * first / 4096 + chunksOf size
      rw [hfirst]
      omega
    refine ⟨0, _, if_neg hinside, ?_, fun a ha => ?_⟩
    · show memoryMarkFreeFrom m'.memoryMap (4096 * first / 4096) (chunksOf size) = m.memoryMap
      rw [hfirst, hmap]
      exact memoryMarkFreeFrom_memoryMarkUsedFrom hrun
    · have hle : size ≤ blockChunks size * 4096 := by
        rw [blockChunks, Nat.max_eq_left hpos]
        omega
      have hout : ¬ (4096 * first ≤ a ∧ a < 4096 * first + size) := by
        rintro ⟨hlow, hhigh⟩
        rcases ha with hlt | hge
        · exact absurd hlow (Nat.not_le.2 hlt)
        · have hge' : 4096 * first + blockChunks size * 4096 ≤ a := hge
          omega
      show memset m'.bytes (4096 * first) 0x56 size a = m'.bytes a
      rw [memset, if_neg hout]

/-- 8 MiB of user memory. -/
def userMemory : MemoryState := ⟨fun _ => 0, 6144, fun _ => 0⟩

/-- A block of five bytes. -/
theorem memoryFree_undoes_iff_five : ∃ p m',
    memoryAllocate userMemory 5 memoryUserType = .ok (some p, m') ∧
      (FreeUndoes userMemory m' 5 p ↔ 5 ≠ 0) := by
  have h : (memoryAllocate userMemory 5 memoryUserType).map Prod.fst = .ok (some 16777216) := by
    decide
  obtain ⟨⟨p, m'⟩, hok, hp⟩ := Library.map_eq_ok.1 h
  cases hp
  exact ⟨_, m', hok, memoryFree_undoes_iff (by decide) hok⟩

/-- An empty block, as `execve` asks for it with an empty executable. -/
theorem not_memoryFree_undoes : ∃ p m',
    memoryAllocate userMemory 0 memoryUserType = .ok (some p, m') ∧
      ¬ FreeUndoes userMemory m' 0 p := by
  have h : (memoryAllocate userMemory 0 memoryUserType).map Prod.fst = .ok (some 16777216) := by
    decide
  obtain ⟨⟨p, m'⟩, hok, hp⟩ := Library.map_eq_ok.1 h
  cases hp
  refine ⟨_, m', hok, ?_⟩
  rintro ⟨r, m'', hfree, -⟩
  have hpast : 16777216 / chunkSize + chunksOf 0 > 32 * memoryMapWords := by decide
  simp only [memoryFree, if_pos hpast] at hfree
  cases hfree

end Allocate

end Vmwos
