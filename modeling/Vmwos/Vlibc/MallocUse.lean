import Vmwos.Vlibc.MallocBlocks

/-!
# Programs that use the allocator

A program calls `malloc`, `free` and `realloc` for its live blocks and stores into them. As long as
`vmwos_malloc` hands out fresh regions, all calls return, the blocks stay well formed, no two live
blocks or headers overlap, and every block keeps its contents, also when `realloc` moves it
(`allocator_correct`).
-/

set_option autoImplicit false

namespace Vmwos.HeapUse

open Library FileBytes

variable {s : HeapUse} {vmwosMalloc : Nat → UInt32} {r r' : Region} {ptr size n : Nat}

/-! ## Payloads -/

/-- The region of a live block. -/
theorem WellFormed.region (hs : s.WellFormed) (hlive : s.live ptr = some n) :
    ∃ r ∈ s.heap.regions, ptr = r.start + metaSize ∧ n + metaSize ≤ r.length ∧
      ptr - metaSize = r.start := by
  obtain ⟨r, hr, rfl, hn⟩ := hs.live ptr n hlive
  exact ⟨r, hr, rfl, hn, Nat.add_sub_cancel _ _⟩

/-- No byte of a payload is in a header. -/
theorem WellFormed.not_inHeader (hs : s.WellFormed) (hr : r ∈ s.heap.regions)
    (hr' : r' ∈ s.heap.regions) {i : Nat} (hi : i + metaSize < r.length) :
    ¬ InHeader r' (r.start + metaSize + i) := by
  rintro ⟨hlow, hhigh⟩
  have hhigh' : r.start + 16 + i < r'.start + 16 := hhigh
  have hlow' : r'.start ≤ r.start + 16 + i := hlow
  have hi' : i + 16 < r.length := hi
  have hlength : 16 ≤ r'.length := hs.length_ge hr'
  by_cases hne : r = r'
  · rw [hne] at hhigh'
    omega
  · have hapart : r.start + r.length ≤ r'.start ∨ r'.start + r'.length ≤ r.start :=
      hs.fresh.apart_of_ne hr hr' hne
    omega

theorem WellFormed.live_not_inHeader (hs : s.WellFormed) (hlive : s.live ptr = some n) {i : Nat}
    (hi : i < n) (hr' : r' ∈ s.heap.regions) : ¬ InHeader r' (ptr + i) := by
  obtain ⟨r, hr, rfl, hn, -⟩ := hs.region hlive
  refine hs.not_inHeader hr hr' ?_
  exact Nat.lt_of_lt_of_le (Nat.add_lt_add_right hi metaSize) hn

/-- The payload of a region has the size that the header says. -/
theorem WellFormed.payload (hs : s.WellFormed) (hr : r ∈ s.heap.regions) {i : Nat}
    (hi : i < Heap.blockSize s.heap.memory r.start) : i + metaSize < r.length := by
  rw [← hs.size r hr]
  exact Nat.add_lt_add_right hi metaSize

/-! ## Stores and `free` -/

/-- A store into a live block. -/
theorem WellFormed.store (hs : s.WellFormed) (hlive : s.live ptr = some n) {i : Nat} (hi : i < n)
    (c : UInt8) : WellFormed ⟨{ s.heap with
      memory := Function.update s.heap.memory (ptr + i) c }, s.live⟩ := by
  refine hs.of_headers fun r hr a ha => Function.update_of_ne ?_ _ _
  rintro rfl
  exact hs.live_not_inHeader hlive hi hr ha

/-- `free` of a live block makes it free, and only touches its header. -/
theorem WellFormed.free (hs : s.WellFormed) (hlive : s.live ptr = some n) :
    WellFormed ⟨s.heap.free (some ptr), Function.update s.live ptr none⟩ ∧
      Heap.blockFree (s.heap.free (some ptr)).memory (ptr - metaSize) = 1 ∧
      (s.heap.free (some ptr)).regions = s.heap.regions ∧
      ∀ a, (∀ r ∈ s.heap.regions, ¬ InHeader r a) →
        (s.heap.free (some ptr)).memory a = s.heap.memory a := by
  obtain ⟨r, hr, rfl, -, hstart⟩ := hs.region hlive
  have hfree : s.heap.free (some (r.start + metaSize)) = { s.heap with
      memory := Heap.setFlag s.heap.memory r.start 1 0x55555555 } := by
    rw [Heap.free]
    dsimp only
    rw [hstart]
    rfl
  rw [hfree, hstart]
  refine ⟨hs.setFlag hr none fun m hm => absurd hm.symm (Option.some_ne_none m), ?_, rfl,
    fun a ha => ?_⟩
  · exact (Heap.setFlag_words s.heap.memory r.start 0x55555555 (by decide)).2.2
  · exact Heap.setFlag_outside (outside_of_not_inHeader (ha r hr))

/-! ## `realloc` -/

/-- A live block of which more is asked for, as far as it has room. -/
theorem WellFormed.resize (hs : s.WellFormed) (hlive : s.live ptr = some n)
    (hsize : size ≤ Heap.blockSize s.heap.memory (ptr - metaSize)) :
    WellFormed ⟨s.heap, Function.update s.live ptr (some size)⟩ := by
  obtain ⟨r, hr, rfl, -, hstart⟩ := hs.region hlive
  rw [hstart] at hsize
  refine ⟨hs.fresh, hs.linked, hs.size, fun q hq => ?_, fun p m hp => ?_⟩
  · rw [hs.flag q hq]
    dsimp only
    by_cases hne : q.start + metaSize = r.start + metaSize
    · rw [hne, Function.update_self, hlive]
      rfl
    · rw [Function.update_of_ne hne]
  · dsimp only at hp
    by_cases hne : p = r.start + metaSize
    · rw [hne, Function.update_self] at hp
      obtain rfl := Option.some.inj hp
      refine ⟨r, hr, hne, ?_⟩
      rw [← hs.size r hr]
      exact Nat.add_le_add_right hsize metaSize
    · rw [Function.update_of_ne hne] at hp
      exact hs.live p m hp

/-- The bytes of the old block that `realloc` copies. -/
def payloadBytes (h : Heap) (ptr : Nat) : List UInt8 :=
  (List.range (Heap.blockSize h.memory (ptr - metaSize))).map fun i => h.memory (ptr + i)

theorem length_payloadBytes (h : Heap) (ptr : Nat) :
    (payloadBytes h ptr).length = Heap.blockSize h.memory (ptr - metaSize) := by
  rw [payloadBytes, List.length_map, List.length_range]

/-- The copied bytes. -/
theorem memcpy_payloadBytes (h : Heap) (ptr new : Nat) {i : Nat}
    (hi : i < (payloadBytes h ptr).length) :
    memcpy h.memory new (payloadBytes h ptr) (new + i) = h.memory (ptr + i) := by
  rw [memcpy_inside hi, byteAt, List.getD_eq_getElem _ _ hi]
  simp only [payloadBytes, List.getElem_map, List.getElem_range]

/-- The state after the copy into a new block. -/
theorem WellFormed.copy (hs : s.WellFormed) {new : Nat} (hnew : s.live new = some size)
    {data : List UInt8} (hdata : data.length ≤ size) :
    WellFormed ⟨{ s.heap with memory := memcpy s.heap.memory new data }, s.live⟩ := by
  refine hs.of_headers fun r hr a ha => memcpy_outside ?_
  rintro ⟨hlow, hhigh⟩
  obtain ⟨i, rfl⟩ := Nat.exists_eq_add_of_le hlow
  exact hs.live_not_inHeader hnew (by omega) hr ha

/-- What is said of `realloc` when the block moves. -/
structure Moves (s : HeapUse) (ptr size new : Nat) (h : Heap) : Prop where
  wellFormed : WellFormed ⟨h, Function.update (Function.update s.live ptr none) new (some size)⟩
  ne : new ≠ ptr
  dead : s.live new = none
  freed : Heap.blockFree h.memory (ptr - metaSize) = 1
  copied : ∀ i < Heap.blockSize s.heap.memory (ptr - metaSize),
    h.memory (new + i) = s.heap.memory (ptr + i)
  keeps : ∀ p m, s.live p = some m → p ≠ ptr → ∀ i < m, h.memory (p + i) = s.heap.memory (p + i)

/-- Payloads of different live blocks are apart. -/
theorem WellFormed.live_apart (hs : s.WellFormed) {p q m k : Nat} (hp : s.live p = some m)
    (hq : s.live q = some k) (hne : p ≠ q) : p + m ≤ q ∨ q + k ≤ p := by
  obtain ⟨r, hr, rfl, hm, -⟩ := hs.region hp
  obtain ⟨r', hr', rfl, hk, -⟩ := hs.region hq
  have hregion : r ≠ r' := by
    rintro rfl
    exact hne rfl
  have hapart : r.start + r.length ≤ r'.start ∨ r'.start + r'.length ≤ r.start :=
    hs.fresh.apart_of_ne hr hr' hregion
  have hm' : m + 16 ≤ r.length := hm
  have hk' : k + 16 ≤ r'.length := hk
  show r.start + 16 + m ≤ r'.start + 16 ∨ r'.start + 16 + k ≤ r.start + 16
  omega

theorem realloc_eq {h : Heap} {new : Nat}
    (hsmall : ¬ size ≤ Heap.blockSize s.heap.memory (ptr - metaSize))
    (hmalloc : s.heap.malloc vmwosMalloc size = .ok (some new, h)) :
    s.heap.realloc vmwosMalloc (some ptr) size = .ok (some new,
      Heap.free (some ptr) { h with memory := memcpy h.memory new (payloadBytes h ptr) }) := by
  rw [Heap.realloc]
  dsimp only
  rw [if_neg hsmall, hmalloc]
  rfl

/-- A block that is too small is copied into a new one, and freed. -/
theorem WellFormed.moves (hs : s.WellFormed) (hlive : s.live ptr = some n)
    (hsmall : ¬ size ≤ Heap.blockSize s.heap.memory (ptr - metaSize)) {new : Nat} {h : Heap}
    (hmallocs : Mallocs s size new h) :
    Moves s ptr size new
      (Heap.free (some ptr) { h with memory := memcpy h.memory new (payloadBytes h ptr) }) := by
  obtain ⟨hdead, hwell, hsub, hkeep⟩ := hmallocs
  obtain ⟨r, hr, hptr, -, hstart⟩ := hs.region hlive
  have hne : new ≠ ptr := by
    rintro rfl
    rw [hlive] at hdead
    cases hdead
  have hnew : (⟨h, Function.update s.live new (some size)⟩ : HeapUse).live new = some size :=
    Function.update_self _ _ _
  have hstill {p m : Nat} (hp : s.live p = some m) :
      (⟨h, Function.update s.live new (some size)⟩ : HeapUse).live p = some m := by
    refine (Function.update_of_ne ?_ _ _).trans hp
    rintro rfl
    rw [hp] at hdead
    cases hdead
  -- the size of the old block is what it was
  have hblock : Heap.blockSize h.memory (ptr - metaSize) =
      Heap.blockSize s.heap.memory (ptr - metaSize) := by
    rw [hstart]
    exact Nat.add_right_cancel ((hwell.size r (hsub r hr)).trans (hs.size r hr).symm)
  have hlength : (payloadBytes h ptr).length = Heap.blockSize s.heap.memory (ptr - metaSize) :=
    (length_payloadBytes h ptr).trans hblock
  have hdata : (payloadBytes h ptr).length ≤ size := by
    rw [hlength]
    exact Nat.le_of_not_le hsmall
  obtain ⟨hfreed, hflag, -, hsame⟩ := (hwell.copy hnew hdata).free (hstill hlive)
  refine ⟨?_, hne, hdead, hflag, fun i hi => ?_, fun p m hp hpne i hi => ?_⟩
  · rw [Function.update_comm hne.symm]
    exact hfreed
  · have hin : i < (payloadBytes h ptr).length := by
      rw [hlength]
      exact hi
    have hi' : i < size := Nat.lt_of_lt_of_le hin hdata
    have hir : i < Heap.blockSize s.heap.memory r.start := by
      rw [← hstart]
      exact hi
    have hold : h.memory (ptr + i) = s.heap.memory (ptr + i) := by
      refine hkeep _ fun q hq => ?_
      rw [hptr]
      exact hwell.not_inHeader (hsub r hr) hq (hs.payload hr hir)
    have hcopy := memcpy_payloadBytes h ptr new hin
    refine (hsame _ fun q hq => ?_).trans (hcopy.trans hold)
    exact hwell.live_not_inHeader hnew hi' hq
  · have hold : h.memory (p + i) = s.heap.memory (p + i) :=
      hkeep _ fun q hq => hwell.live_not_inHeader (hstill hp) hi hq
    have hcopy : memcpy h.memory new (payloadBytes h ptr) (p + i) = h.memory (p + i) := by
      have hpnew : p ≠ new := by
        rintro rfl
        rw [hp] at hdead
        cases hdead
      have hapart := hwell.live_apart (hstill hp) hnew hpnew
      exact memcpy_outside (by omega)
    refine (hsame _ fun q hq => ?_).trans (hcopy.trans hold)
    exact hwell.live_not_inHeader (hstill hp) hi hq

/-- `realloc` of a block that is too small moves it. -/
theorem WellFormed.realloc_move (hs : s.WellFormed) (hlive : s.live ptr = some n)
    (hsmall : ¬ size ≤ Heap.blockSize s.heap.memory (ptr - metaSize))
    (hsize : size + metaSize < 4294967296)
    (hfresh : ∀ p h, s.heap.realloc vmwosMalloc (some ptr) size = .ok (p, h) →
      Region.Fresh 4294967296 h.regions) :
    ∃ new h, s.heap.realloc vmwosMalloc (some ptr) size = .ok (some new, h) ∧
      Moves s ptr size new h := by
  have hpos : size ≠ 0 := by
    rintro rfl
    exact hsmall (Nat.zero_le _)
  have hfresh' (p : Option Nat) (h : Heap)
      (hmalloc : s.heap.malloc vmwosMalloc size = .ok (p, h)) :
      Region.Fresh 4294967296 h.regions := by
    cases p with
    | none =>
      refine hfresh none h ?_
      rw [Heap.realloc]
      dsimp only
      rw [if_neg hsmall, hmalloc]
    | some new =>
      have hfreed := hfresh _ _ (realloc_eq hsmall hmalloc)
      exact hfreed
  obtain ⟨new, h, hmalloc, hmallocs⟩ := hs.malloc hpos hsize hfresh'
  exact ⟨new, _, realloc_eq hsmall hmalloc, hs.moves hlive hsmall hmallocs⟩

/-! ## What a program relies on -/

/-- What a program may do: sizes with room for a header below the bound, pointers of live blocks,
stores inside live blocks. -/
def Allowed (s : HeapUse) : HeapCall → Prop
  | .malloc size => 0 < size ∧ size + metaSize < 4294967296
  | .free ptr => (s.live ptr).isSome
  | .realloc ptr size =>
      0 < size ∧ size + metaSize < 4294967296 ∧ ∀ p, ptr = some p → (s.live p).isSome
  | .store location _ => ∃ ptr n i, s.live ptr = some n ∧ i < n ∧ location = ptr + i

/-- Whatever `vmwos_malloc` has handed out when the call returns is fresh. -/
def FreshAfter (vmwosMalloc : Nat → UInt32) (s : HeapUse) (call : HeapCall) : Prop :=
  ∀ answer s', s.step vmwosMalloc call = .ok (answer, s') →
    Region.Fresh 4294967296 s'.heap.regions

instance instDecidableAllowed (s : HeapUse) : (call : HeapCall) → Decidable (s.Allowed call)
  | .malloc size => inferInstanceAs (Decidable (0 < size ∧ size + metaSize < 4294967296))
  | .free ptr => inferInstanceAs (Decidable ((s.live ptr).isSome = true))
  | .realloc none size =>
      decidable_of_iff (0 < size ∧ size + metaSize < 4294967296)
        ⟨fun h => ⟨h.1, h.2, fun p hp => absurd hp.symm (Option.some_ne_none p)⟩,
          fun h => ⟨h.1, h.2.1⟩⟩
  | .realloc (some ptr) size =>
      decidable_of_iff
        (0 < size ∧ size + metaSize < 4294967296 ∧ (s.live ptr).isSome = true)
        ⟨fun h => ⟨h.1, h.2.1, fun p hp => Option.some.inj hp ▸ h.2.2⟩,
          fun h => ⟨h.1, h.2.1, h.2.2 ptr rfl⟩⟩
  | .store location c =>
      decidable_of_iff
        (∃ ptr, ptr ≤ location ∧ (s.live ptr).any (fun n => decide (location < ptr + n)) = true) <| by
        constructor
        · rintro ⟨ptr, hle, hany⟩
          obtain ⟨n, hlive, hlt⟩ := (Option.any_eq_true _ _).1 hany
          have hlt := of_decide_eq_true hlt
          exact ⟨ptr, n, location - ptr, hlive, by omega, by omega⟩
        · rintro ⟨ptr, n, i, hlive, hi, rfl⟩
          refine ⟨ptr, Nat.le_add_right _ _, ?_⟩
          rw [hlive]
          exact decide_eq_true (Nat.add_lt_add_left hi ptr)

instance instDecidableFreshAfter (vmwosMalloc : Nat → UInt32) (s : HeapUse) (call : HeapCall) :
    Decidable (s.FreshAfter vmwosMalloc call) :=
  match hstep : s.step vmwosMalloc call with
  | .error e => isTrue fun answer s' h => by rw [hstep] at h; cases h
  | .ok (answer, s') =>
      decidable_of_iff (Region.Fresh 4294967296 s'.heap.regions)
        ⟨fun hfresh answer' s'' h => by rw [hstep] at h; cases h; exact hfresh,
          fun h => h answer s' hstep⟩

/-- The header of a region, and its payload when that is live. -/
def spans (s : HeapUse) (r : Region) : List Region :=
  match s.live (r.start + metaSize) with
  | none => [⟨r.start, metaSize⟩]
  | some _ => [⟨r.start, metaSize⟩,
      ⟨r.start + metaSize, Heap.blockSize s.heap.memory r.start⟩]

/-- Every live block has room for what was asked for. Headers and the payloads of live blocks are
pairwise apart. The list ends, visits no block twice, and has the regions that were handed out. A
block is free when it is not live. -/
structure Correct (s : HeapUse) : Prop where
  room : ∀ ptr n, s.live ptr = some n → ∃ r ∈ s.heap.regions,
    ptr = r.start + metaSize ∧ n ≤ Heap.blockSize s.heap.memory r.start
  apart : (s.heap.regions.flatMap s.spans).Pairwise Region.Apart
  linked : Segment (Heap.blockNext s.heap.memory) s.heap.globalBase
    (s.heap.regions.map Region.start) none
  once : (s.heap.regions.map Region.start).Nodup
  flag : ∀ r ∈ s.heap.regions,
    Heap.blockFree s.heap.memory r.start = freeFlag (s.live (r.start + metaSize))

/-- What the call returns: `malloc` a block that was not live, `realloc` a block with the bytes of
the old one, which has been freed when it is another. -/
def Returns (s : HeapUse) (call : HeapCall) (answer : Option Nat) (s' : HeapUse) : Prop :=
  match call with
  | .malloc size => ∃ new, answer = some new ∧ s.live new = none ∧ s'.live new = some size
  | .free ptr => s'.live ptr = none
  | .realloc none size => ∃ new, answer = some new ∧ s.live new = none ∧ s'.live new = some size
  | .realloc (some ptr) size => ∃ new, answer = some new ∧ s'.live new = some size ∧
      (∀ n, s.live ptr = some n → ∀ i < min n size,
        s'.heap.memory (new + i) = s.heap.memory (ptr + i)) ∧
      (Heap.blockFree s'.heap.memory (ptr - metaSize) = 1 ↔ new ≠ ptr)
  | .store location c => s'.heap.memory location = c

/-- The call is about a block. -/
def About (ptr : Nat) : HeapCall → Prop
  | .free p => p = ptr
  | .realloc p _ => p = some ptr
  | _ => False

/-- The call is a store to an address. -/
def StoresTo (location : Nat) : HeapCall → Prop
  | .store l _ => l = location
  | _ => False

/-- The blocks that the call is not about stay live, with their bytes. -/
def Keeps (s : HeapUse) (call : HeapCall) (s' : HeapUse) : Prop :=
  ∀ ptr n, s.live ptr = some n → ¬ About ptr call → s'.live ptr = some n ∧
    ∀ i < n, ¬ StoresTo (ptr + i) call →
      s'.heap.memory (ptr + i) = s.heap.memory (ptr + i)

theorem pairwise_spans (s : HeapUse) (r : Region) : (s.spans r).Pairwise Region.Apart := by
  unfold spans
  split
  · exact List.pairwise_singleton _ _
  · exact List.pairwise_pair.2 (.inl (Nat.le_refl _))

/-- The header and the payload of a region are inside the region. -/
theorem WellFormed.inside (hs : s.WellFormed) (hr : r ∈ s.heap.regions) :
    ∀ q ∈ s.spans r, q.Inside r := by
  have hlength := hs.size r hr
  have hheader : (⟨r.start, metaSize⟩ : Region).Inside r :=
    ⟨Nat.le_refl _, Nat.add_le_add_left (hs.length_ge hr) _⟩
  unfold spans
  split
  · exact List.forall_mem_singleton.2 hheader
  · refine List.forall_mem_cons.2 ⟨hheader, List.forall_mem_singleton.2 ⟨Nat.le_add_right _ _, ?_⟩⟩
    exact Nat.le_of_eq (by rw [← hlength, Nat.add_assoc, Nat.add_comm metaSize])

theorem WellFormed.correct (hs : s.WellFormed) : s.Correct where
  room ptr n hlive := by
    obtain ⟨r, hr, hptr, hn, -⟩ := hs.region hlive
    refine ⟨r, hr, hptr, ?_⟩
    rw [← hs.size r hr] at hn
    exact Nat.le_of_add_le_add_right hn
  apart := by
    refine List.pairwise_flatMap.2 ⟨fun r _ => s.pairwise_spans r, ?_⟩
    refine hs.fresh.apart.imp_of_mem fun hr hr' happart q hq q' hq' => ?_
    exact happart.inside (hs.inside hr q hq) (hs.inside hr' q' hq')
  linked := hs.linked
  once := hs.linked.nodup
  flag := hs.flag

/-! ## A call -/

/-- What is known of a call that returns. -/
def Serves (s : HeapUse) (call : HeapCall) (answer : Option Nat) (s' : HeapUse) : Prop :=
  s'.WellFormed ∧ s.Returns call answer s' ∧ s.Keeps call s'

/-- Blocks that were live are as they were behind `malloc`. -/
theorem Mallocs.keeps {new : Nat} {h : Heap} (hmallocs : Mallocs s size new h) {call : HeapCall} :
    s.Keeps call ⟨h, Function.update s.live new (some size)⟩ := by
  obtain ⟨hdead, hwell, -, hkeep⟩ := hmallocs
  intro p m hp _
  have hne : p ≠ new := by
    rintro rfl
    rw [hp] at hdead
    cases hdead
  have hp' : (⟨h, Function.update s.live new (some size)⟩ : HeapUse).live p = some m :=
    (Function.update_of_ne hne _ _).trans hp
  exact ⟨hp', fun i hi _ => hkeep _ fun q hq => hwell.live_not_inHeader hp' hi hq⟩

theorem WellFormed.step_malloc (hs : s.WellFormed) (hpos : 0 < size)
    (hsize : size + metaSize < 4294967296)
    (hfresh : ∀ p h, s.heap.malloc vmwosMalloc size = .ok (p, h) →
      Region.Fresh 4294967296 h.regions) :
    ∃ new h, s.heap.malloc vmwosMalloc size = .ok (some new, h) ∧ s.live new = none ∧
      WellFormed ⟨h, Function.update s.live new (some size)⟩ ∧
      ∀ call, s.Keeps call ⟨h, Function.update s.live new (some size)⟩ := by
  obtain ⟨new, h, hmalloc, hmallocs⟩ := hs.malloc (Nat.ne_of_gt hpos) hsize hfresh
  exact ⟨new, h, hmalloc, hmallocs.1, hmallocs.2.1, fun _ => hmallocs.keeps⟩

theorem Moves.serves {new : Nat} {h : Heap} (hmoves : Moves s ptr size new h)
    (hs : s.WellFormed) :
    s.Serves (.realloc (some ptr) size) (some new)
      ⟨h, Function.update (Function.update s.live ptr none) new (some size)⟩ := by
  refine ⟨hmoves.wellFormed, ⟨new, rfl, Function.update_self _ _ _, fun n hn i hi => ?_, ?_⟩,
    fun p m hp habout => ?_⟩
  · refine hmoves.copied i ?_
    obtain ⟨r, hr, rfl, hm, hstart⟩ := hs.region hn
    rw [hstart]
    rw [← hs.size r hr] at hm
    exact Nat.lt_of_lt_of_le (Nat.lt_of_lt_of_le hi (Nat.min_le_left _ _))
      (Nat.le_of_add_le_add_right hm)
  · exact iff_of_true hmoves.freed hmoves.ne
  · have hne : p ≠ ptr := fun heq => habout (congrArg some heq.symm)
    have hnew : p ≠ new := by
      rintro rfl
      rw [hmoves.dead] at hp
      cases hp
    refine ⟨?_, fun i hi _ => hmoves.keeps p m hp hne i hi⟩
    dsimp only
    rw [Function.update_of_ne hnew, Function.update_of_ne hne, hp]

/-- `realloc` of a block with room enough gives it back as it is. -/
theorem WellFormed.serves_resize (hs : s.WellFormed) (hlive : s.live ptr = some n)
    (hsize : size ≤ Heap.blockSize s.heap.memory (ptr - metaSize)) :
    s.Serves (.realloc (some ptr) size) (some ptr)
      ⟨s.heap, Function.update (Function.update s.live ptr none) ptr (some size)⟩ := by
  rw [Function.update_idem]
  refine ⟨hs.resize hlive hsize, ⟨ptr, rfl, Function.update_self _ _ _, fun _ _ i _ => rfl, ?_⟩,
    fun p m hp habout => ?_⟩
  · obtain ⟨r, hr, rfl, -, hstart⟩ := hs.region hlive
    refine iff_of_false (fun hone => ?_) fun hne => hne rfl
    dsimp only at hone
    rw [hstart, hs.flag r hr, hlive] at hone
    cases hone
  · have hne : p ≠ ptr := fun heq => habout (congrArg some heq.symm)
    exact ⟨(Function.update_of_ne hne _ _).trans hp, fun _ _ _ => rfl⟩

/-- A call that is allowed returns, and serves the program. -/
theorem WellFormed.step (hs : s.WellFormed) {call : HeapCall} (hallowed : s.Allowed call)
    (hfresh : s.FreshAfter vmwosMalloc call) :
    ∃ answer s', s.step vmwosMalloc call = .ok (answer, s') ∧ s.Serves call answer s' := by
  cases call with
  | malloc size =>
    obtain ⟨hpos, hsize⟩ := hallowed
    obtain ⟨new, h, hmalloc, hdead, hwell, hkeeps⟩ :=
      hs.step_malloc hpos hsize fun p h (hmalloc : s.heap.malloc vmwosMalloc size = _) => by
        have hafter := hfresh p _ (by rw [HeapUse.step, hmalloc]; rfl)
        exact hafter
    refine ⟨some new, ⟨h, Function.update s.live new (some size)⟩, ?_, hwell,
      ⟨new, rfl, hdead, Function.update_self _ _ _⟩, hkeeps _⟩
    rw [HeapUse.step, hmalloc]
    rfl
  | free ptr =>
    obtain ⟨n, hlive⟩ := Option.isSome_iff_exists.1 hallowed
    obtain ⟨hwell, -, -, hsame⟩ := hs.free hlive
    refine ⟨none, _, rfl, hwell, Function.update_self _ _ _, fun p m hp habout => ?_⟩
    have hne : p ≠ ptr := fun heq => habout heq.symm
    exact ⟨(Function.update_of_ne hne _ _).trans hp, fun i hi _ =>
      hsame _ fun q hq => hs.live_not_inHeader hp hi hq⟩
  | realloc ptr size =>
    obtain ⟨hpos, hsize, hptr⟩ := hallowed
    cases ptr with
    | none =>
      obtain ⟨new, h, hmalloc, hdead, hwell, hkeeps⟩ :=
        hs.step_malloc hpos hsize fun p h (hmalloc : s.heap.malloc vmwosMalloc size = _) => by
          have hafter := hfresh p _ (by rw [HeapUse.step, Heap.realloc, hmalloc]; rfl)
          exact hafter
      refine ⟨some new, ⟨h, Function.update s.live new (some size)⟩, ?_, hwell,
        ⟨new, rfl, hdead, Function.update_self _ _ _⟩, hkeeps _⟩
      rw [HeapUse.step, Heap.realloc, hmalloc]
      rfl
    | some ptr =>
      obtain ⟨n, hlive⟩ := Option.isSome_iff_exists.1 (hptr ptr rfl)
      by_cases hroom : size ≤ Heap.blockSize s.heap.memory (ptr - metaSize)
      · refine ⟨some ptr, _, ?_, hs.serves_resize hlive hroom⟩
        rw [HeapUse.step, Heap.realloc]
        dsimp only
        rw [if_pos hroom]
        rfl
      · obtain ⟨new, h, hrealloc, hmoves⟩ := hs.realloc_move hlive hroom hsize
          fun p h (hrealloc : s.heap.realloc vmwosMalloc (some ptr) size = _) => by
            have hafter := hfresh p _ (by rw [HeapUse.step, hrealloc]; rfl)
            exact hafter
        refine ⟨some new, _, ?_, hmoves.serves hs⟩
        rw [HeapUse.step, hrealloc]
        rfl
  | store location c =>
    obtain ⟨ptr, n, i, hlive, hi, rfl⟩ := hallowed
    refine ⟨none, _, rfl, hs.store hlive hi c, Function.update_self _ _ _,
      fun p m hp _ => ⟨hp, fun j _ hstore => ?_⟩⟩
    exact Function.update_of_ne (fun heq => hstore heq.symm) _ _

/-! ## Runs -/

/-- No block has been handed out yet. -/
def start (memory : Nat → UInt8) : HeapUse := ⟨⟨memory, none, []⟩, fun _ => none⟩

theorem wellFormed_start (memory : Nat → UInt8) : (start memory).WellFormed where
  fresh := ⟨fun _ h => absurd h List.not_mem_nil, fun _ h => absurd h List.not_mem_nil,
    List.Pairwise.nil⟩
  linked := rfl
  size := fun _ h => absurd h List.not_mem_nil
  flag := fun _ h => absurd h List.not_mem_nil
  live := fun _ n h => absurd h.symm (Option.some_ne_none n)

/-- In a run of allowed calls, with fresh regions, all calls return, and after each of them the heap
is correct, the call has served the program and the other blocks are as they were. -/
theorem allocator_correct (vmwosMalloc : Nat → UInt32) (memory : Nat → UInt8)
    (calls : List HeapCall)
    (hcalls : Along (step vmwosMalloc) (fun s call => s.Allowed call ∧ s.FreshAfter vmwosMalloc call)
      (start memory) calls) :
    (∃ answers s', run (step vmwosMalloc) (start memory) calls = .ok (answers, s')) ∧
      Throughout (step vmwosMalloc)
        (fun s call answer s' => s'.Correct ∧ s.Returns call answer s' ∧ s.Keeps call s')
        (start memory) calls := by
  constructor
  · obtain ⟨answers, s', hrun, -⟩ := run_of_along WellFormed (fun s call hs hcall => by
      obtain ⟨answer, s', hstep, hserves⟩ := hs.step hcall.1 hcall.2
      exact ⟨answer, s', hstep, hserves.1⟩) (wellFormed_start memory) hcalls
    exact ⟨answers, s', hrun⟩
  · refine throughout_of_along WellFormed (fun s call answer s' hs hcall hstep => ?_)
      (wellFormed_start memory) hcalls
    obtain ⟨answer', s₁, hstep', hwell, hreturns, hkeeps⟩ := hs.step hcall.1 hcall.2
    rw [hstep] at hstep'
    obtain ⟨rfl, rfl⟩ := Prod.mk.inj (Except.ok.inj hstep')
    exact ⟨⟨hwell.correct, hreturns, hkeeps⟩, hwell⟩

/-- A block that is used again, and one that is moved. -/
theorem allocator_correct_moved :
    (∃ answers s', run (step fun k => 64 * (k.toUInt32 + 1)) (start fun _ => 0)
        [.malloc 10, .store 80 7, .malloc 5, .free 144, .malloc 3, .realloc (some 80) 20] =
          .ok (answers, s')) ∧
      Throughout (step fun k => 64 * (k.toUInt32 + 1))
        (fun s call answer s' => s'.Correct ∧ s.Returns call answer s' ∧ s.Keeps call s')
        (start fun _ => 0)
        [.malloc 10, .store 80 7, .malloc 5, .free 144, .malloc 3, .realloc (some 80) 20] :=
  allocator_correct (fun k => 64 * (k.toUInt32 + 1)) (fun _ => 0)
    [.malloc 10, .store 80 7, .malloc 5, .free 144, .malloc 3, .realloc (some 80) 20]
    (by decide +kernel)

end Vmwos.HeapUse
