import Vmwos.Memory.Memory
import Vmwos.Library.Run
import Mathlib.Data.List.Perm.Basic
import Mathlib.Order.Basic

/-!
# The chunk allocator hands out disjoint blocks

The blocks handed out by `memory_allocate` and not given back yet are kept beside the state
of `memory.c`. Successful allocations and the freeing of live blocks, in any order, keep the
blocks aligned, in their region, apart from each other and from the chunks reserved at boot,
and the map has exactly their chunks and the reserved ones marked (`run_safe`).
-/

set_option autoImplicit false

namespace Vmwos

/-- A block of memory as it was asked for. -/
structure MemoryBlock where
  location : Nat
  size : Nat
  type : Nat
  deriving DecidableEq, Repr

/-- The number of chunks of a block: its size divided by 4096, rounded up. -/
def MemoryBlock.chunks (b : MemoryBlock) : Nat := (b.size + 4095) / 4096

/-- The chunk belongs to the block. -/
def MemoryBlock.Occupies (b : MemoryBlock) (c : Nat) : Prop :=
  b.location ≤ 4096 * c ∧ 4096 * c < b.location + 4096 * b.chunks

/-- The memory with the blocks that are in use. -/
structure MemoryHeap where
  memory : MemoryState
  live : List MemoryBlock

/-- A call on the heap: allocate, or free the block at a position of the live ones. -/
inductive MemoryOp where
  | allocate (size type : Nat)
  | free (position : Nat)
  deriving DecidableEq, Repr

/-- The sizes that fit a `uint32_t` and are not 0. -/
def MemoryOp.Sized : MemoryOp → Prop
  | .allocate size _ => 0 < size ∧ size < 4294967296
  | .free _ => True

instance (op : MemoryOp) : Decidable op.Sized := by
  cases op <;> unfold MemoryOp.Sized <;> infer_instance

namespace MemoryHeap

/-- One successful call; a call that fails ends the run. -/
def step (h : MemoryHeap) : MemoryOp → Except Unit (Nat × MemoryHeap)
  | .allocate size type =>
      match memoryAllocate h.memory size type with
      | .ok (some location, memory) => .ok (location, ⟨memory, ⟨location, size, type⟩ :: h.live⟩)
      | _ => .error ()
  | .free position =>
      match h.live[position]? with
      | none => .error ()
      | some b =>
          match memoryFree h.memory b.location b.size with
          | .ok (_, memory) => .ok (b.location, ⟨memory, h.live.eraseIdx position⟩)
          | .error _ => .error ()

/-- A successful sequence of calls. -/
def run : MemoryHeap → List MemoryOp → Except Unit (List Nat × MemoryHeap) := Library.run step

/-- The heap after booting: no block is in use. -/
def booted (map : MemoryMap) (bytes : Nat → UInt8) (multicore : Bool)
    (memoryTotal memoryKernel : Nat) : MemoryHeap :=
  ⟨memoryHierarchyInit ⟨map, 0, bytes⟩ multicore memoryTotal memoryKernel, []⟩

end MemoryHeap

/-- The chunks marked at boot: the kernel, and the stacks of the other cores. -/
def Reserved (multicore : Bool) (memoryKernel c : Nat) : Prop :=
  4096 * c < memoryKernel ∨ multicore = true ∧ 0xff4000 ≤ 4096 * c ∧ 4096 * c < 0x1000000

namespace MemoryHeap

/-- What the allocator promises about the blocks in use. -/
structure Safe (multicore : Bool) (memoryTotal memoryKernel : Nat) (h : MemoryHeap) : Prop where
  maxChunk : h.memory.maxChunk = memoryTotal / 4096
  aligned : ∀ b ∈ h.live, b.location % 4096 = 0
  region : ∀ b ∈ h.live,
    b.type = memoryKernelType ∧ b.location + 4096 * b.chunks ≤ 16777216 ∨
    b.type = memoryUserType ∧ 16777216 ≤ b.location ∧
      b.location + 4096 * b.chunks ≤ h.memory.maxChunk * 4096
  disjoint : h.live.Pairwise fun a b => ∀ c, ¬ (a.Occupies c ∧ b.Occupies c)
  unreserved : ∀ b ∈ h.live, ∀ c, b.Occupies c → ¬ Reserved multicore memoryKernel c
  used_iff : ∀ c < 32 * memoryMapWords, memoryTestUsed h.memory.memoryMap c = true ↔
    Reserved multicore memoryKernel c ∨ ∃ b ∈ h.live, b.Occupies c

/-- The invariant of the run: the blocks are safe and have the sizes asked for. -/
structure Inv (multicore : Bool) (memoryTotal memoryKernel : Nat) (h : MemoryHeap) : Prop
    extends Safe multicore memoryTotal memoryKernel h where
  sized : ∀ b ∈ h.live, 0 < b.size ∧ b.size < 4294967296

variable {multicore : Bool} {memoryTotal memoryKernel : Nat} {h h' : MemoryHeap}

/-! ## Booting -/

theorem booted_inv {map : MemoryMap} (bytes : Nat → UInt8)
    (hmap : ∀ i < memoryMapWords, map i = 0) (htotal : memoryTotal ≤ maxMemory)
    (hkernel : memoryKernel ≤ reservedKernel) (htotal' : memoryTotal % 4096 = 0)
    (hkernel' : memoryKernel % 4096 = 0) :
    Inv multicore memoryTotal memoryKernel
      (booted map bytes multicore memoryTotal memoryKernel) := by
  have hinit := memoryInit_eq ⟨map, 0, bytes⟩ htotal hkernel htotal' hkernel'
  have hclear : ∀ c < 32 * memoryMapWords, memoryTestUsed
      (fun i => if i < memoryTotal / 4096 / 32 then 0 else map i) c = false := by
    intro c hc
    rw [memoryTestUsed_eq]
    have hdiv : c / 32 < memoryMapWords := by
      rw [Nat.div_lt_iff_lt_mul (by decide), Nat.mul_comm]
      exact hc
    split
    · simp
    · rw [hmap _ hdiv]
      simp
  -- only the kernel and the stacks are marked
  have hused : ∀ c < 32 * memoryMapWords,
      memoryTestUsed (booted map bytes multicore memoryTotal memoryKernel).memory.memoryMap c = true ↔
        Reserved multicore memoryKernel c := by
    intro c hc
    unfold booted memoryHierarchyInit Reserved
    rw [hinit]
    cases multicore with
    | true =>
        simp only [if_true, memoryTestUsed_memoryMarkUsedFrom, hclear c hc, Bool.or_false,
          Bool.or_eq_true, decide_eq_true_eq, true_and, chunkSize]
        omega
    | false =>
        simp only [Bool.false_eq_true, if_false, memoryTestUsed_memoryMarkUsedFrom, hclear c hc,
          Bool.or_false, decide_eq_true_eq, false_and, or_false]
        omega
  have hnone : (booted map bytes multicore memoryTotal memoryKernel).live = [] := rfl
  refine ⟨⟨?_, ?_, ?_, List.Pairwise.nil, ?_, ?_⟩, ?_⟩
  · unfold booted memoryHierarchyInit
    rw [hinit]
    cases multicore <;> rfl
  · intro b hb
    cases hb
  · intro b hb
    cases hb
  · intro b hb
    cases hb
  · intro c hc
    rw [hused c hc, hnone]
    simp
  · intro b hb
    cases hb

/-! ## Allocating -/

theorem step_allocate_cases {size type location : Nat}
    (hstep : h.step (.allocate size type) = .ok (location, h')) :
    memoryAllocate h.memory size type = .ok (some location, h'.memory) ∧
      h'.live = ⟨location, size, type⟩ :: h.live := by
  rw [step] at hstep
  split at hstep
  · rename_i heq
    cases hstep
    exact ⟨heq, rfl⟩
  · cases hstep

/-- The chunks of the new block are those that the search found free. -/
theorem occupies_allocated {size type first c : Nat} (h0 : 0 < size) :
    MemoryBlock.Occupies ⟨4096 * first, size, type⟩ c ↔
      first ≤ c ∧ c < first + chunksOf size := by
  rw [chunksOf_eq h0]
  show 4096 * first ≤ 4096 * c ∧ 4096 * c < 4096 * first + 4096 * ((size + 4095) / 4096) ↔ _
  omega

theorem Inv.allocate {size type location : Nat} (hinv : Inv multicore memoryTotal memoryKernel h)
    (htotal : memoryTotal ≤ maxMemory) (h0 : 0 < size) (hlt : size < 4294967296)
    (hstep : h.step (.allocate size type) = .ok (location, h')) :
    Inv multicore memoryTotal memoryKernel h' := by
  obtain ⟨halloc, hlive⟩ := step_allocate_cases hstep
  obtain ⟨first, rfl, hmax, hmap, htype, hstart, hstop, hfree⟩ := memoryAllocate_eq_some h0 halloc
  have hocc : ∀ c, MemoryBlock.Occupies ⟨4096 * first, size, type⟩ c ↔
      first ≤ c ∧ c < first + chunksOf size := fun c => occupies_allocated h0
  have hchunks : chunksOf size = (size + 4095) / 4096 := chunksOf_eq h0
  have hmaxChunk := hinv.maxChunk
  -- the whole block lies inside the map
  have hbound : first + chunksOf size ≤ 32 * memoryMapWords := by
    unfold regionOf at hstop
    split at hstop
    · exact Nat.le_trans (Nat.le_of_lt hstop) (show (4096 : Nat) ≤ 262144 by decide)
    · simp only at hstop
      show first + chunksOf size ≤ 262144
      have : memoryTotal ≤ 1073741824 := htotal
      omega
  -- no chunk of it was in use
  have hunused : ∀ c, MemoryBlock.Occupies ⟨4096 * first, size, type⟩ c →
      ¬ (Reserved multicore memoryKernel c ∨ ∃ b ∈ h.live, b.Occupies c) := by
    intro c hc hused
    obtain ⟨hle, hlt'⟩ := (hocc c).1 hc
    rw [← hinv.used_iff c (by omega), hfree c hle hlt'] at hused
    cases hused
  refine ⟨⟨?_, ?_, ?_, ?_, ?_, ?_⟩, ?_⟩
  · rw [hmax]
    exact hmaxChunk
  · intro b hb
    rw [hlive] at hb
    rcases List.mem_cons.1 hb with rfl | hb
    · exact Nat.mul_mod_right 4096 first
    · exact hinv.aligned b hb
  · intro b hb
    rw [hlive] at hb
    rw [hmax]
    rcases List.mem_cons.1 hb with rfl | hb
    · show type = 0 ∧ 4096 * first + 4096 * ((size + 4095) / 4096) ≤ 16777216 ∨
        type = 1 ∧ 16777216 ≤ 4096 * first ∧
          4096 * first + 4096 * ((size + 4095) / 4096) ≤ h.memory.maxChunk * 4096
      rw [regionOf] at hstart hstop
      rcases htype with ht | ht
      · rw [if_pos ht] at hstop
        refine Or.inl ⟨ht, ?_⟩
        simp only at hstop
        omega
      · have hne : type ≠ memoryKernelType := by
          rw [ht]
          decide
        rw [if_neg hne] at hstart hstop
        refine Or.inr ⟨ht, ?_⟩
        simp only at hstart hstop
        omega
    · exact hinv.region b hb
  · rw [hlive]
    refine List.pairwise_cons.2 ⟨?_, hinv.disjoint⟩
    intro b hb c hc
    exact hunused c hc.1 (Or.inr ⟨b, hb, hc.2⟩)
  · intro b hb c hc
    rw [hlive] at hb
    rcases List.mem_cons.1 hb with rfl | hb
    · intro hres
      exact hunused c hc (Or.inl hres)
    · exact hinv.unreserved b hb c hc
  · intro c hc
    rw [hmap, memoryTestUsed_memoryMarkUsedFrom, Bool.or_eq_true, decide_eq_true_eq,
      hinv.used_iff c hc, ← hocc c, hlive]
    simp only [List.mem_cons, exists_eq_or_imp]
    exact or_left_comm
  · intro b hb
    rw [hlive] at hb
    rcases List.mem_cons.1 hb with rfl | hb
    · exact ⟨h0, hlt⟩
    · exact hinv.sized b hb

/-! ## Freeing -/

theorem step_free_cases {position location : Nat}
    (hstep : h.step (.free position) = .ok (location, h')) :
    ∃ b, (b :: h'.live).Perm h.live ∧ h'.live.Sublist h.live ∧ h'.memory.maxChunk = h.memory.maxChunk ∧
      h'.memory.memoryMap =
        memoryMarkFreeFrom h.memory.memoryMap (b.location / 4096) (chunksOf b.size) := by
  cases hb : h.live[position]? with
  | none =>
      simp only [step, hb] at hstep
      cases hstep
  | some b =>
      obtain ⟨hlt, hget⟩ := List.getElem?_eq_some_iff.1 hb
      cases hfree : memoryFree h.memory b.location b.size with
      | error e =>
          simp only [step, hb, hfree] at hstep
          cases hstep
      | ok q =>
          obtain ⟨result, memory⟩ := q
          simp only [step, hb, hfree, Except.ok.injEq, Prod.mk.injEq] at hstep
          obtain ⟨-, rfl⟩ := hstep
          refine ⟨b, ?_, List.eraseIdx_sublist _ _, memoryFree_eq_ok hfree⟩
          rw [← hget]
          exact List.getElem_cons_eraseIdx_perm hlt

theorem Inv.free {position location : Nat} (hinv : Inv multicore memoryTotal memoryKernel h)
    (hstep : h.step (.free position) = .ok (location, h')) :
    Inv multicore memoryTotal memoryKernel h' := by
  obtain ⟨b, hperm, hsub, hmax, hmap⟩ := step_free_cases hstep
  have hb : b ∈ h.live := hperm.subset List.mem_cons_self
  have hmem : ∀ x, x ∈ h.live ↔ x = b ∨ x ∈ h'.live := by
    intro x
    rw [← hperm.mem_iff, List.mem_cons]
  -- the block taken out shares no chunk with those that stay
  have hapart : ∀ x ∈ h'.live, ∀ c, ¬ (b.Occupies c ∧ x.Occupies c) := by
    have hpair := (hperm.pairwise_iff (fun {x y} hxy c hc => hxy c hc.symm)).2 hinv.disjoint
    exact (List.pairwise_cons.1 hpair).1
  have hocc : ∀ c, b.Occupies c ↔
      b.location / 4096 ≤ c ∧ c < b.location / 4096 + chunksOf b.size := by
    intro c
    have h0 := (hinv.sized b hb).1
    have hal := hinv.aligned b hb
    rw [chunksOf_eq h0]
    show b.location ≤ 4096 * c ∧ 4096 * c < b.location + 4096 * ((b.size + 4095) / 4096) ↔ _
    omega
  refine ⟨⟨?_, ?_, ?_, hinv.disjoint.sublist hsub, ?_, ?_⟩, ?_⟩
  · rw [hmax]
    exact hinv.maxChunk
  · intro x hx
    exact hinv.aligned x (hsub.subset hx)
  · intro x hx
    rw [hmax]
    exact hinv.region x (hsub.subset hx)
  · intro x hx
    exact hinv.unreserved x (hsub.subset hx)
  · intro c hc
    rw [hmap, memoryTestUsed_memoryMarkFreeFrom, Bool.and_eq_true, decide_eq_true_eq,
      hinv.used_iff c hc, ← hocc c]
    constructor
    · rintro ⟨hno, hres | ⟨x, hx, hxc⟩⟩
      · exact Or.inl hres
      · rcases (hmem x).1 hx with rfl | hx'
        · exact absurd hxc hno
        · exact Or.inr ⟨x, hx', hxc⟩
    · rintro (hres | ⟨x, hx, hxc⟩)
      · exact ⟨fun hbc => hinv.unreserved b hb c hbc hres, Or.inl hres⟩
      · exact ⟨fun hbc => hapart x hx c ⟨hbc, hxc⟩, Or.inr ⟨x, hsub.subset hx, hxc⟩⟩
  · intro x hx
    exact hinv.sized x (hsub.subset hx)

/-! ## Blocks by name -/

/-- The order of the blocks in use does not matter, nor what the memory contains. -/
theorem Inv.congr {m : MemoryState} {live : List MemoryBlock}
    (hinv : Inv multicore memoryTotal memoryKernel h) (hmax : m.maxChunk = h.memory.maxChunk)
    (hmap : m.memoryMap = h.memory.memoryMap) (hperm : h.live.Perm live) :
    Inv multicore memoryTotal memoryKernel ⟨m, live⟩ where
  maxChunk := hmax.trans hinv.maxChunk
  aligned b hb := hinv.aligned b (hperm.mem_iff.2 hb)
  region b hb := by
    rw [hmax]
    exact hinv.region b (hperm.mem_iff.2 hb)
  disjoint := (hperm.pairwise_iff fun hab c hc => hab c hc.symm).1 hinv.disjoint
  unreserved b hb := hinv.unreserved b (hperm.mem_iff.2 hb)
  used_iff c hc := by
    rw [hmap, hinv.used_iff c hc]
    simp only [hperm.mem_iff]
  sized b hb := hinv.sized b (hperm.mem_iff.2 hb)

/-- A block occupies the chunk it begins with, so it is in use once only. -/
theorem Inv.nodup (hinv : Inv multicore memoryTotal memoryKernel h) : h.live.Nodup := by
  apply List.Pairwise.imp_of_mem _ hinv.disjoint
  rintro a b ha - hdisjoint rfl
  have hbegin : a.Occupies (a.location / 4096) := by
    have hsize := (hinv.sized a ha).1
    have hlocation := Nat.mul_div_cancel' (Nat.dvd_of_mod_eq_zero (hinv.aligned a ha))
    have hchunks : 1 ≤ a.chunks := (Nat.le_div_iff_mul_le (by decide)).2 (by omega)
    exact ⟨Nat.le_of_eq hlocation.symm, by omega⟩
  exact hdisjoint _ ⟨hbegin, hbegin⟩

/-- User memory does not begin at address 0. -/
theorem Inv.location_ne_zero (hinv : Inv multicore memoryTotal memoryKernel h) {b : MemoryBlock}
    (hb : b ∈ h.live) (htype : b.type = memoryUserType) : b.location ≠ 0 := by
  rcases hinv.region b hb with ⟨hkernel, -⟩ | ⟨-, hle, -⟩
  · rw [htype] at hkernel
    cases hkernel
  · omega

theorem Inv.memoryAllocate {m m' : MemoryState} {live : List MemoryBlock}
    {size type location : Nat} (hinv : Inv multicore memoryTotal memoryKernel ⟨m, live⟩)
    (htotal : memoryTotal ≤ maxMemory) (h0 : 0 < size) (hlt : size < 4294967296)
    (hok : memoryAllocate m size type = .ok (some location, m')) :
    Inv multicore memoryTotal memoryKernel ⟨m', ⟨location, size, type⟩ :: live⟩ := by
  have hstep : step ⟨m, live⟩ (.allocate size type) =
      .ok (location, ⟨m', ⟨location, size, type⟩ :: live⟩) := by
    rw [step, hok]
  exact hinv.allocate htotal h0 hlt hstep

theorem Inv.memoryFree {m m' : MemoryState} {live : List MemoryBlock} {b : MemoryBlock}
    {result : Int} (hinv : Inv multicore memoryTotal memoryKernel ⟨m, b :: live⟩)
    (hok : memoryFree m b.location b.size = .ok (result, m')) :
    Inv multicore memoryTotal memoryKernel ⟨m', live⟩ := by
  have hstep : step ⟨m, b :: live⟩ (.free 0) = .ok (b.location, ⟨m', live⟩) := by
    simp only [step, List.getElem?_cons_zero, hok, List.eraseIdx_cons_zero]
  exact hinv.free hstep

/-- A block in use lies in the map, so freeing it succeeds. -/
theorem Inv.exists_memoryFree {b : MemoryBlock} (hinv : Inv multicore memoryTotal memoryKernel h)
    (htotal : memoryTotal ≤ maxMemory) (hb : b ∈ h.live) :
    ∃ m', Vmwos.memoryFree h.memory b.location b.size = .ok (0, m') := by
  have hchunks := chunksOf_eq (hinv.sized b hb).1
  have hmaxChunk := hinv.maxChunk
  have haligned := hinv.aligned b hb
  have hregion : b.location + 4096 * ((b.size + 4095) / 4096) ≤ 1073741824 := by
    rcases hinv.region b hb with ⟨-, hle⟩ | ⟨-, -, hle⟩
    · exact Nat.le_trans hle (by decide)
    · have : memoryTotal ≤ 1073741824 := htotal
      exact Nat.le_trans hle (by omega)
  have hin : ¬ b.location / chunkSize + chunksOf b.size > 32 * memoryMapWords := by
    rw [hchunks]
    show ¬ b.location / 4096 + (b.size + 4095) / 4096 > 262144
    omega
  exact ⟨_, if_neg hin⟩

/-! ## Runs -/

theorem step_inv {op : MemoryOp} {location : Nat}
    (hinv : Inv multicore memoryTotal memoryKernel h) (htotal : memoryTotal ≤ maxMemory)
    (hsized : op.Sized) (hstep : h.step op = .ok (location, h')) :
    Inv multicore memoryTotal memoryKernel h' := by
  cases op with
  | allocate size type => exact hinv.allocate htotal hsized.1 hsized.2 hstep
  | free position => exact hinv.free hstep

/-- After booting, any sequence of successful calls keeps the invariant. -/
theorem run_inv {map : MemoryMap} (bytes : Nat → UInt8) (hmap : ∀ i < memoryMapWords, map i = 0)
    (htotal : memoryTotal ≤ maxMemory) (hkernel : memoryKernel ≤ reservedKernel)
    (htotal' : memoryTotal % 4096 = 0) (hkernel' : memoryKernel % 4096 = 0) {ops : List MemoryOp}
    (hsized : ∀ op ∈ ops, op.Sized) {locations : List Nat}
    (hrun : run (booted map bytes multicore memoryTotal memoryKernel) ops = .ok (locations, h)) :
    Inv multicore memoryTotal memoryKernel h :=
  Library.run_preserves (Inv multicore memoryTotal memoryKernel)
    (fun _ _ _ _ hs hop hstep => step_inv hs htotal hop hstep)
    (booted_inv bytes hmap htotal hkernel htotal' hkernel') ((Library.along_input hrun).2 hsized) hrun

/-- After booting, any sequence of successful calls leaves the blocks in use aligned, in
their region and apart, and exactly their chunks and the reserved ones marked. -/
theorem run_safe {map : MemoryMap} (bytes : Nat → UInt8) (hmap : ∀ i < memoryMapWords, map i = 0)
    (htotal : memoryTotal ≤ maxMemory) (hkernel : memoryKernel ≤ reservedKernel)
    (htotal' : memoryTotal % 4096 = 0) (hkernel' : memoryKernel % 4096 = 0) {ops : List MemoryOp}
    (hsized : ∀ op ∈ ops, op.Sized) {locations : List Nat}
    (hrun : run (booted map bytes multicore memoryTotal memoryKernel) ops = .ok (locations, h)) :
    Safe multicore memoryTotal memoryKernel h :=
  (run_inv bytes hmap htotal hkernel htotal' hkernel' hsized hrun).toSafe

/-- 32 MiB of memory with a kernel of 1 MiB: two user blocks and a kernel block, of which
the first user block is freed, and its chunks are handed out again. -/
theorem run_safe_mixed : ∃ h, run (booted (fun _ => 0) (fun _ => 0) true 33554432 1048576)
      [.allocate 5000 1, .allocate 1 0, .allocate 4096 1, .free 2, .allocate 8192 1] =
        .ok ([16777216, 1048576, 16785408, 16777216, 16777216], h) ∧
      Safe true 33554432 1048576 h := by
  have hdecide : (run (booted (fun _ => 0) (fun _ => 0) true 33554432 1048576)
      [.allocate 5000 1, .allocate 1 0, .allocate 4096 1, .free 2, .allocate 8192 1]).map Prod.fst =
        .ok [16777216, 1048576, 16785408, 16777216, 16777216] := by
    decide +kernel
  obtain ⟨⟨locations, h⟩, hrun, rfl⟩ := Library.map_eq_ok.1 hdecide
  exact ⟨h, hrun, run_safe (fun _ => 0) (fun _ _ => rfl) (by decide) (by decide) (by decide)
    (by decide) (by decide) hrun⟩

end MemoryHeap

end Vmwos
