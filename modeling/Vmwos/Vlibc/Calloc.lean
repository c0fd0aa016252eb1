import Vmwos.Vlibc.MallocFailures
import Vmwos.Lib.MemsetArm

/-!
# `calloc`

`calloc` multiplies without a test, and clears what `malloc` returns, also where this is NULL. So it
is right just where the product does not wrap and memory can be had, and where `memset` has nothing
to store (`calloc_right_iff`). A call of `malloc` whose request fails returns NULL.
-/

set_option autoImplicit false

namespace Vmwos

open Library

/-- `calloc`: what it returns, and the bytes that `memset` stores to. -/
def Heap.calloc (vmwosMalloc : Nat → UInt32) (nmemb size : UInt32) (s : Heap) :
    Except Stuck (Option Nat × Region × Heap) :=
  let totalSize := (nmemb * size).toNat
  match s.malloc vmwosMalloc totalSize with
  | .error e => .error e
  | .ok (ptr, s) =>
      let n := memsetCount (ptr.getD 0) totalSize
      .ok (ptr, ⟨ptr.getD 0, n⟩, { s with memory := memset s.memory (ptr.getD 0) 0 n })

/-- What a program does with its memory, with `calloc`. -/
inductive AllocCall where
  | use (call : HeapCall)
  | calloc (nmemb size : UInt32)

namespace HeapUse

variable {vmwosMalloc : Nat → UInt32} {s s' : HeapUse} {nmemb size : UInt32}

/-- One thing that the program does, and the bytes that `memset` stores to. -/
def allocStep (vmwosMalloc : Nat → UInt32) (s : HeapUse) :
    AllocCall → Except Stuck ((Option Nat × Region) × HeapUse)
  | .use call => (s.step vmwosMalloc call).map fun r => ((r.1, ⟨0, 0⟩), r.2)
  | .calloc nmemb size => (s.heap.calloc vmwosMalloc nmemb size).map fun r =>
      ((r.1, r.2.1), ⟨r.2.2, grant s.live r.1 (nmemb * size).toNat⟩)

/-! ## What the calls should do -/

/-- `calloc` returns NULL, and nothing is cleared; or the sizes have a product, the block has room
for it, is zero, and nothing else is cleared. -/
def CallocRight (nmemb size : UInt32) (answer : Option Nat × Region) (s' : HeapUse) : Prop :=
  match answer.1 with
  | none => answer.2.length = 0
  | some ptr => nmemb.toNat * size.toNat < 4294967296 ∧
      (∃ r ∈ granted s'.heap.regions,
        ptr = r.start + metaSize ∧ nmemb.toNat * size.toNat + metaSize ≤ r.length) ∧
      (∀ i < nmemb.toNat * size.toNat, s'.heap.memory (ptr + i) = 0) ∧
      answer.2.Inside ⟨ptr, nmemb.toNat * size.toNat⟩

/-- A request that fails is answered with NULL, the list of blocks is well formed, and `calloc` is
right. -/
structure CallRight (vmwosMalloc : Nat → UInt32) (s : HeapUse) (call : AllocCall)
    (answer : Option Nat × Region) (s' : HeapUse) : Prop where
  failed : Failed vmwosMalloc s s' → answer.1 = none
  sound : s'.Sound
  calloc : ∀ nmemb size, call = .calloc nmemb size → CallocRight nmemb size answer s'

/-! ## Conditions -/

/-- What a program and the kernel do: calls for live blocks, of `malloc` without a wrap, and every
answer is 0 or a fresh region. -/
def Meets (vmwosMalloc : Nat → UInt32) (s : HeapUse) (call : AllocCall) : Prop :=
  (∀ c, call = .use c → s.Proper vmwosMalloc c) ∧
    ∀ answer s', s.allocStep vmwosMalloc call = .ok (answer, s') → Grants s'.heap.regions

/-- The product is 0 but for the bits that are lost, or too large for `memset` and a multiple of 64;
or no bits are lost, and a free block has room or the kernel grants a region, for which the size
with the header does not wrap. -/
def Served (vmwosMalloc : Nat → UInt32) (s : HeapUse) : AllocCall → Prop
  | .use _ => True
  | .calloc nmemb size =>
      (nmemb * size).toNat = 0 ∨
      2147483648 ≤ (nmemb * size).toNat ∧ (nmemb * size).toNat % 64 = 0 ∨
      nmemb.toNat * size.toNat < 4294967296 ∧
        (s.FreeBlock (nmemb * size).toNat ∨
          vmwosMalloc s.heap.regions.length ≠ 0 ∧ (nmemb * size).toNat + metaSize < 4294967296)

/-! ## `memset` -/

theorem memset_inside (memory : Nat → UInt8) (p : Nat) (c : UInt8) {n i : Nat} (hi : i < n) :
    memset memory p c n (p + i) = c :=
  if_pos ⟨Nat.le_add_right _ _, Nat.add_lt_add_left hi p⟩

theorem memset_outside (memory : Nat → UInt8) {p n a : Nat} (c : UInt8)
    (h : ¬ (p ≤ a ∧ a < p + n)) : memset memory p c n a = memory a := if_neg h

theorem memset_zero (memory : Nat → UInt8) (p : Nat) (c : UInt8) : memset memory p c 0 = memory := by
  funext a
  exact memset_outside memory c fun h => Nat.not_lt.2 h.1 h.2

/-! ## A call -/

theorem allocStep_calloc {p : Option Nat} {h : Heap}
    (hmalloc : s.heap.malloc vmwosMalloc (nmemb * size).toNat = .ok (p, h)) :
    s.allocStep vmwosMalloc (.calloc nmemb size) =
      .ok ((p, ⟨p.getD 0, memsetCount (p.getD 0) (nmemb * size).toNat⟩),
        ⟨{ h with memory :=
            memset h.memory (p.getD 0) 0 (memsetCount (p.getD 0) (nmemb * size).toNat) },
          grant s.live p (nmemb * size).toNat⟩) := by
  rw [allocStep, Heap.calloc]
  dsimp only
  rw [hmalloc]
  rfl

/-- The product, as far as it fits. -/
theorem toNat_mul_of_lt (h : nmemb.toNat * size.toNat < 4294967296) :
    (nmemb * size).toNat = nmemb.toNat * size.toNat := by
  rw [UInt32.toNat_mul]
  exact Nat.mod_eq_of_lt h

/-- What is to be shown of a step of the program. -/
def Decided (vmwosMalloc : Nat → UInt32) (s : HeapUse) (call : AllocCall) : Prop :=
  ∃ answer s', s.allocStep vmwosMalloc call = .ok (answer, s') ∧
    (s.Served vmwosMalloc call ↔ s.CallRight vmwosMalloc call answer s') ∧
    (s.Served vmwosMalloc call → s'.Sound)

/-- A call of `calloc` that has got a block. -/
theorem decided_block {ptr : Nat} {h : Heap}
    (hmalloc : s.heap.malloc vmwosMalloc (nmemb * size).toNat = .ok (some ptr, h))
    (hmallocs : Mallocs s.settled (nmemb * size).toNat ptr
      { h with regions := granted h.regions })
    (had : s.FreeBlock (nmemb * size).toNat ∨ vmwosMalloc s.heap.regions.length ≠ 0 ∧
      (nmemb * size).toNat + metaSize < 4294967296)
    (hkept : vmwosMalloc s.heap.regions.length = 0 → h.regions = s.heap.regions)
    (hgrants : Grants h.regions) : Decided vmwosMalloc s (.calloc nmemb size) := by
  obtain ⟨-, hwell, -, -⟩ := hmallocs
  have hlive : Function.update s.live ptr (some (nmemb * size).toNat) ptr =
      some (nmemb * size).toNat := Function.update_self _ _ _
  obtain ⟨r, hr, hptr, hroom, -⟩ := hwell.region hlive
  have hnonzero : (nmemb * size).toNat ≠ 0 := by
    intro h0
    rw [h0, Heap.malloc, if_pos rfl] at hmalloc
    cases hmalloc
  -- the heap ends below 0x40000000, so `memset` counts to the size that was asked for
  have hsmall : (nmemb * size).toNat < 2147483648 := by
    have hstop : r.start + r.length ≤ 1073741824 := hgrants.fresh.stop_le r hr
    have hroom' : (nmemb * size).toNat + 16 ≤ r.length := hroom
    omega
  have hcount : memsetCount ptr (nmemb * size).toNat = (nmemb * size).toNat := if_pos hsmall
  have hstep := allocStep_calloc hmalloc
  rw [Option.getD_some, hcount] at hstep
  -- what is cleared is inside the block, and no header is there
  have hsound : Sound ⟨{ h with memory := memset h.memory ptr 0 (nmemb * size).toNat },
      Function.update s.live ptr (some (nmemb * size).toNat)⟩ := by
    refine ⟨hwell.of_headers fun q hq a ha => memset_outside _ _ ?_, hgrants⟩
    rintro ⟨hlow, hhigh⟩
    obtain ⟨i, rfl⟩ := Nat.exists_eq_add_of_le hlow
    exact hwell.live_not_inHeader hlive (Nat.lt_of_add_lt_add_left hhigh) hq ha
  refine ⟨_, _, hstep, ⟨?_, ?_⟩, fun _ => hsound⟩
  · rintro (h0 | ⟨hbig, -⟩ | ⟨hfits, -⟩)
    · exact absurd h0 hnonzero
    · exact absurd hsmall (Nat.not_lt.2 hbig)
    · refine ⟨fun hfailed => absurd (hkept hfailed.2) hfailed.1, hsound, ?_⟩
      rintro _ _ ⟨⟩
      rw [CallocRight, ← toNat_mul_of_lt hfits]
      exact ⟨UInt32.toNat_lt _, ⟨r, hr, hptr, hroom⟩, fun i hi => memset_inside _ _ _ hi,
        Nat.le_refl _, Nat.le_refl _⟩
  · intro hright
    exact .inr (.inr ⟨(hright.calloc _ _ rfl).1, had⟩)

/-- A call of `calloc` that has got nothing, and clears what is at the null address. -/
theorem decided_null {h : Heap}
    (hmalloc : s.heap.malloc vmwosMalloc (nmemb * size).toNat = .ok (none, h))
    (hsound : Sound ⟨h, s.live⟩)
    (hfailed : (nmemb * size).toNat = 0 ∨ ¬ s.FreeBlock (nmemb * size).toNat ∧
      vmwosMalloc s.heap.regions.length = 0) : Decided vmwosMalloc s (.calloc nmemb size) := by
  -- clearing at the null address is harmless when `memset` counts to 0
  have hcount : s.Served vmwosMalloc (.calloc nmemb size) ↔
      memsetCount 0 (nmemb * size).toNat = 0 := by
    rw [memsetCount]
    constructor
    · rintro (h0 | ⟨hbig, hmod⟩ | ⟨-, hfree | ⟨hne, -⟩⟩)
      · rw [h0]
        rfl
      · rw [if_neg (Nat.not_lt.2 hbig)]
        exact hmod
      · exact hfailed.elim (fun h0 => by rw [h0]; rfl) fun hno => absurd hfree hno.1
      · exact hfailed.elim (fun h0 => by rw [h0]; rfl) fun hno => absurd hno.2 hne
    · intro hzero
      by_cases hsmall : (nmemb * size).toNat < 2147483648
      · rw [if_pos hsmall] at hzero
        exact .inl hzero
      · rw [if_neg hsmall] at hzero
        exact .inr (.inl ⟨Nat.not_lt.1 hsmall, hzero⟩)
  have hkept (h0 : memsetCount 0 (nmemb * size).toNat = 0) :
      Sound ⟨{ h with memory := memset h.memory 0 0 (memsetCount 0 (nmemb * size).toNat) },
        s.live⟩ := by
    rw [h0, memset_zero]
    exact hsound
  refine ⟨_, _, allocStep_calloc hmalloc, ?_, fun hserved => hkept (hcount.1 hserved)⟩
  rw [hcount]
  constructor
  · intro h0
    refine ⟨fun _ => rfl, hkept h0, ?_⟩
    rintro _ _ ⟨⟩
    exact h0
  · exact fun hright => hright.calloc _ _ rfl

/-- A call of `calloc` whose request wraps and is granted. -/
theorem Sound.decided_wrap (hs : s.Sound) (hbig : 4294967296 ≤ (nmemb * size).toNat + metaSize)
    (hne : vmwosMalloc s.heap.regions.length ≠ 0)
    (hgrants : ∀ p h, s.heap.malloc vmwosMalloc (nmemb * size).toNat = .ok (p, h) →
      Grants h.regions) : Decided vmwosMalloc s (.calloc nmemb size) := by
  have hlt : (nmemb * size).toNat < 4294967296 := UInt32.toNat_lt _
  have hbig' : 4294967296 ≤ (nmemb * size).toNat + 16 := hbig
  have hpos : (nmemb * size).toNat ≠ 0 := by omega
  -- no block of the list is that large, so the kernel is asked for what is left of the sum
  have hfree : ¬ s.FreeBlock (nmemb * size).toNat := by
    intro hfree
    have hle : (nmemb * size).toNat + 16 ≤ 1073741824 := hs.lt_of_freeBlock hfree
    omega
  obtain ⟨request, hrequest⟩ : ∃ request,
    (vmwosMalloc s.heap.regions.length).toNat = request := ⟨_, rfl⟩
  have hnonzero : request ≠ 0 := fun h0 => hne (UInt32.toNat_inj.1 (hrequest.trans h0))
  have hregions := hgrants _ _ (Heap.malloc_request hs.linked hs.length_lt hpos
    (find?_eq_none hfree) (Prod.eta (Heap.requestSpace vmwosMalloc _ _ s.heap)).symm)
  dsimp only at hregions
  rw [Heap.regions_requestSpace, hrequest] at hregions
  have hfail : request ≠ 4294967295 := by
    have hstop := hregions.fresh.stop_le ⟨request, uint32 ((nmemb * size).toNat + metaSize)⟩ (by
      rw [granted_concat hnonzero]
      exact List.mem_append_right _ List.mem_cons_self)
    have hstop' : request + uint32 ((nmemb * size).toNat + metaSize) ≤ 1073741824 := hstop
    omega
  have hmalloc := hs.malloc_request hpos hfree hrequest hfail
  rw [pointer, if_neg hnonzero, Option.map_some] at hmalloc
  have hserved : ¬ s.Served vmwosMalloc (.calloc nmemb size) := by
    rintro (h0 | ⟨-, hmod⟩ | ⟨-, hyes | ⟨-, hsmall⟩⟩)
    · exact hpos h0
    · -- the lowest bits of such a product are 48 at least
      omega
    · exact hfree hyes
    · exact absurd hbig (Nat.not_le.2 hsmall)
  refine ⟨_, _, allocStep_calloc hmalloc, iff_of_false hserved ?_, fun h => absurd h hserved⟩
  intro hright
  obtain ⟨hfits, ⟨r, hr, -, hroom⟩, -⟩ := hright.calloc _ _ rfl
  have hstop : r.start + r.length ≤ 1073741824 := (hgrants _ _ hmalloc).fresh.stop_le r hr
  rw [← toNat_mul_of_lt hfits] at hroom
  have hroom' : (nmemb * size).toNat + 16 ≤ r.length := hroom
  omega

theorem Sound.decided (hs : s.Sound) {call : AllocCall} (hmeets : s.Meets vmwosMalloc call) :
    Decided vmwosMalloc s call := by
  cases call with
  | use call =>
    have heq (answer : Option Nat) (s' : HeapUse)
        (hstep : s.step vmwosMalloc call = .ok (answer, s')) :
        s.allocStep vmwosMalloc (.use call) = .ok ((answer, ⟨0, 0⟩), s') := by
      rw [allocStep, hstep]
      rfl
    obtain ⟨answer, s', hstep, hsound, hfailed⟩ := hs.step (hmeets.1 call rfl)
      fun answer s' hstep => hmeets.2 _ _ (heq answer s' hstep)
    refine ⟨_, s', heq answer s' hstep, iff_of_true trivial ⟨hfailed, hsound, ?_⟩, fun _ => hsound⟩
    rintro _ _ ⟨⟩
  | calloc nmemb size =>
    have hgrants (p : Option Nat) (h : Heap)
        (hmalloc : s.heap.malloc vmwosMalloc (nmemb * size).toNat = .ok (p, h)) :
        Grants h.regions := by
      have hafter := hmeets.2 _ _ (allocStep_calloc hmalloc)
      exact hafter
    by_cases hwrap : NoWrap vmwosMalloc s (nmemb * size).toNat
    · obtain ⟨p, h, hmalloc, hanswers⟩ := hs.malloc hwrap hgrants
      cases hanswers with
      | block ptr _ hmallocs had hkept =>
        exact decided_block hmalloc hmallocs had hkept (hgrants _ _ hmalloc)
      | null _ hsound hfailed => exact decided_null hmalloc hsound hfailed
    · obtain ⟨hbig, hne⟩ := Classical.not_imp.1 hwrap
      exact hs.decided_wrap hbig hne hgrants

/-! ## Runs -/

theorem sound_start (memory : Nat → UInt8) : (start memory).Sound where
  wellFormed := wellFormed_start memory
  grants := ⟨⟨fun _ h => absurd h List.not_mem_nil, fun _ h => absurd h List.not_mem_nil,
    List.Pairwise.nil⟩, fun _ h => absurd h List.not_mem_nil⟩

/-- In a run in which every answer of the kernel is 0 or a fresh region, all calls are right exactly
if every `calloc` is served, and then all return. -/
theorem calloc_right_iff (vmwosMalloc : Nat → UInt32) (memory : Nat → UInt8)
    (calls : List AllocCall)
    (hcalls : Along (allocStep vmwosMalloc) (Meets vmwosMalloc) (start memory) calls) :
    (Along (allocStep vmwosMalloc) (Served vmwosMalloc) (start memory) calls ↔
      Throughout (allocStep vmwosMalloc) (CallRight vmwosMalloc) (start memory) calls) ∧
    (Along (allocStep vmwosMalloc) (Served vmwosMalloc) (start memory) calls →
      ∃ answers s', run (allocStep vmwosMalloc) (start memory) calls = .ok (answers, s')) :=
  along_iff_throughout_of_returns Sound (fun _ _ hs hmeets => hs.decided hmeets)
    (sound_start memory) hcalls

/-- What one call of `calloc` asks of the kernel, when it is the first. -/
theorem meets_first {nmemb size : UInt32} {memory : Nat → UInt8} {p : Option Nat} {h : Heap}
    (hmalloc : (start memory).heap.malloc vmwosMalloc (nmemb * size).toNat = .ok (p, h))
    (hgrants : Grants h.regions) : Meets vmwosMalloc (start memory) (.calloc nmemb size) := by
  refine ⟨fun _ h => (nomatch h), fun answer s' hstep => ?_⟩
  obtain ⟨rfl, rfl⟩ := Prod.mk.inj (Except.ok.inj ((allocStep_calloc hmalloc).symm.trans hstep))
  exact hgrants

theorem grants_singleton {r : Region} (hlow : reservedKernel ≤ r.start)
    (hhigh : r.start + r.length ≤ maxMemory) : Grants [r] := by
  have hpos : 0 < r.start := Nat.lt_of_lt_of_le (by decide) hlow
  have hkeep : granted [r] = [r] := granted_concat (Nat.ne_of_gt hpos) []
  refine ⟨⟨?_, ?_, ?_⟩, ?_⟩
  · rw [hkeep]
    exact List.forall_mem_singleton.2 hpos
  · rw [hkeep]
    exact List.forall_mem_singleton.2 hhigh
  · rw [hkeep]
    exact List.pairwise_singleton _ _
  · rw [hkeep]
    exact List.forall_mem_singleton.2 hlow

/-- Three times five bytes, of a region at 16 MiB. -/
theorem calloc_right_iff_fifteen :
    (Along (allocStep fun _ => 16777216) (Served fun _ => 16777216) (start fun _ => 1)
        [.calloc 3 5] ↔
      Throughout (allocStep fun _ => 16777216) (CallRight fun _ => 16777216) (start fun _ => 1)
        [.calloc 3 5]) ∧
    (Along (allocStep fun _ => 16777216) (Served fun _ => 16777216) (start fun _ => 1)
        [.calloc 3 5] →
      ∃ answers s', run (allocStep fun _ => 16777216) (start fun _ => 1) [.calloc 3 5] =
        .ok (answers, s')) :=
  calloc_right_iff (fun _ => 16777216) (fun _ => 1) [.calloc 3 5]
    ⟨meets_first rfl (grants_singleton (by decide) (by decide)), fun _ _ _ => trivial⟩

/-- 65536 times 65537 bytes are 65536. -/
theorem not_calloc_right :
    ¬ ∀ (vmwosMalloc : Nat → UInt32) (memory : Nat → UInt8) (calls : List AllocCall),
      Along (allocStep vmwosMalloc) (Meets vmwosMalloc) (start memory) calls →
      Throughout (allocStep vmwosMalloc) (CallRight vmwosMalloc) (start memory) calls := by
  intro hall
  have hright := hall (fun _ => 16777216) (fun _ => 0) [.calloc 65536 65537]
    ⟨meets_first rfl (grants_singleton (by decide) (by decide)), fun _ _ _ => trivial⟩
  have hmalloc : (start fun _ => 0).heap.malloc (fun _ => 16777216)
      (65536 * 65537 : UInt32).toNat = .ok (some 16777232, _) := rfl
  obtain ⟨hcall, -⟩ := hright _ _ (allocStep_calloc hmalloc)
  exact absurd (hcall.calloc _ _ rfl).1 (by decide)

end HeapUse

end Vmwos
