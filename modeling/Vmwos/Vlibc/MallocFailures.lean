import Vmwos.Memory.Memory
import Vmwos.Vlibc.MallocUse

/-!
# The allocator when memory is short

Where `vmwos_malloc` returns 0, `request_space` takes it for an address, as it compares with -1: it
links it behind the last block, which changes nothing, writes a header at the null address and
returns it, and `malloc` takes it for a failure. Without such requests, the heap is as before
(`Sound.malloc_failed`), and it stays so in every call of a program (`Sound.step`).
-/

set_option autoImplicit false

namespace Vmwos

open Library FileBytes

/-! ## Storing what is there -/

/-- A 0 stored over a 0. -/
theorem setWord_zero {memory : Nat → UInt8} {location : Nat} (h : wordAt memory location = 0) :
    setWord memory location 0 = memory := by
  rw [wordAt_eq] at h
  have hzero (i : Nat) (hi : i < 4) : memory (location + i) = 0 := by
    apply UInt8.toNat_inj.1
    show (memory (location + i)).toNat = 0
    match i with
    | 0 =>
        rw [Nat.add_zero]
        omega
    | 1 => omega
    | 2 => omega
    | 3 => omega
  funext a
  by_cases ha : location ≤ a ∧ a < location + 4
  · obtain ⟨i, rfl⟩ := Nat.exists_eq_add_of_le ha.1
    have hi : i < 4 := Nat.lt_of_add_lt_add_left ha.2
    rw [setWord, memcpy_inside hi, hzero i hi]
    match i with
    | 0 => rfl
    | 1 => rfl
    | 2 => rfl
    | 3 => rfl
  · exact memcpy_outside ha

namespace HeapUse

variable {s : HeapUse} {vmwosMalloc : Nat → UInt32} {regions : List Region} {r : Region}
  {size n request : Nat}

/-! ## Requests that have been granted -/

/-- The regions that have been handed out: the answer to a request that fails is 0. -/
def granted (regions : List Region) : List Region := regions.filter fun r => r.start ≠ 0

theorem granted_concat_zero (regions : List Region) (n : Nat) :
    granted (regions ++ [⟨0, n⟩]) = granted regions := by
  have hdrop : granted [⟨0, n⟩] = [] := List.filter_cons_of_neg (by simp)
  rw [granted, List.filter_append]
  exact (congrArg (granted regions ++ ·) hdrop).trans (List.append_nil _)

theorem granted_concat (hr : r.start ≠ 0) (regions : List Region) :
    granted (regions ++ [r]) = granted regions ++ [r] := by
  have hkeep : granted [r] = [r] := List.filter_cons_of_pos (by simpa using hr)
  rw [granted, List.filter_append]
  exact congrArg (granted regions ++ ·) hkeep

/-- The heap without the requests that have failed. -/
def settled (s : HeapUse) : HeapUse := ⟨{ s.heap with regions := granted s.heap.regions }, s.live⟩

/-- What the kernel has handed out is fresh, and in the memory for users. -/
structure Grants (regions : List Region) : Prop where
  fresh : Region.Fresh maxMemory (granted regions)
  low : ∀ r ∈ granted regions, reservedKernel ≤ r.start

/-- The heap is well formed but for the requests that have failed. -/
structure Sound (s : HeapUse) : Prop where
  wellFormed : s.settled.WellFormed
  grants : Grants s.heap.regions

/-- A free block has room. -/
def FreeBlock (s : HeapUse) (size : Nat) : Prop :=
  ∃ r ∈ granted s.heap.regions, Heap.fits s.heap.memory size r.start = true

theorem Sound.linked (hs : s.Sound) : Segment (Heap.blockNext s.heap.memory) s.heap.globalBase
    ((granted s.heap.regions).map Region.start) none := hs.wellFormed.linked

theorem Sound.length_lt (hs : s.Sound) :
    ((granted s.heap.regions).map Region.start).length < Heap.walkRounds :=
  hs.wellFormed.length_lt

theorem find?_eq_none (h : ¬ s.FreeBlock size) :
    ((granted s.heap.regions).map Region.start).find? (Heap.fits s.heap.memory size) = none := by
  rw [List.find?_eq_none]
  intro b hb hfits
  obtain ⟨r, hr, rfl⟩ := List.mem_map.1 hb
  exact h ⟨r, hr, hfits⟩

/-- A free block is smaller than the memory. -/
theorem Sound.lt_of_freeBlock (hs : s.Sound) (h : s.FreeBlock size) :
    size + metaSize ≤ maxMemory := by
  obtain ⟨r, hr, hfits⟩ := h
  have hsize : Heap.blockSize s.heap.memory r.start + metaSize = r.length :=
    hs.wellFormed.size r hr
  have hstop := hs.grants.fresh.stop_le r hr
  have hroom := (of_decide_eq_true hfits).2
  calc size + metaSize ≤ Heap.blockSize s.heap.memory r.start + metaSize :=
        Nat.add_le_add_right hroom metaSize
    _ = r.length := hsize
    _ ≤ r.start + r.length := Nat.le_add_left _ _
    _ ≤ maxMemory := hstop

/-! ## `malloc` -/

/-- A free block is used again. -/
theorem Sound.malloc_free (hs : s.Sound) (hpos : size ≠ 0) (hfree : s.FreeBlock size) :
    ∃ ptr h, s.heap.malloc vmwosMalloc size = .ok (some ptr, h) ∧
      h.regions = s.heap.regions ∧
      Mallocs s.settled size ptr { h with regions := granted h.regions } := by
  cases hfind : ((granted s.heap.regions).map Region.start).find?
      (Heap.fits s.heap.memory size) with
  | none =>
    obtain ⟨r, hr, hfits⟩ := hfree
    exact absurd hfits (List.find?_eq_none.1 hfind r.start (List.mem_map_of_mem hr))
  | some block =>
    obtain ⟨r, hr, rfl⟩ := List.mem_map.1 (List.mem_of_find?_eq_some hfind)
    have hfits := List.find?_some hfind
    have hpayload : 0 < Heap.blockSize s.heap.memory r.start :=
      Nat.lt_of_lt_of_le (Nat.pos_of_ne_zero hpos) (of_decide_eq_true hfits).2
    refine ⟨_, { s.heap with memory := Heap.setFlag s.heap.memory r.start 0 0x77777777 }, ?_, rfl,
      hs.wellFormed.mallocs_reuse hr hfits⟩
    rw [Heap.malloc_found hs.linked hs.length_lt hpos hfind, hs.wellFormed.payload_lt hr hpayload]

/-- What a request of `malloc` does, whatever the kernel answers but for -1. -/
theorem Sound.malloc_request (hs : s.Sound) (hpos : size ≠ 0) (hfree : ¬ s.FreeBlock size)
    (hrequest : (vmwosMalloc s.heap.regions.length).toNat = request) (hfail : request ≠ 4294967295) :
    s.heap.malloc vmwosMalloc size = .ok ((pointer request).map fun block => uint32 (block + metaSize),
      ⟨Heap.newHeader (Heap.linkLast s.heap.memory
          ((granted s.heap.regions).map Region.start).getLast? request) request size,
        if (granted s.heap.regions).map Region.start = [] then pointer request
          else s.heap.globalBase,
        s.heap.regions ++ [⟨request, uint32 (size + metaSize)⟩]⟩) :=
  Heap.malloc_request hs.linked hs.length_lt hpos (find?_eq_none hfree)
    (Heap.requestSpace_stores hrequest hfail)

/-- The pointer in the last block is NULL already. -/
theorem Sound.linkLast_zero (hs : s.Sound) :
    Heap.linkLast s.heap.memory ((granted s.heap.regions).map Region.start).getLast? 0 =
      s.heap.memory := by
  cases hlast : ((granted s.heap.regions).map Region.start).getLast? with
  | none => rfl
  | some last =>
    obtain ⟨starts, hstarts⟩ := List.getLast?_eq_some_iff.1 hlast
    have hlinked : Segment (Heap.blockNext s.heap.memory) s.heap.globalBase (starts ++ last :: [])
        none := hstarts ▸ hs.linked
    have hnext := hlinked.next_eq
    apply setWord_zero
    by_contra hne
    rw [Heap.blockNext, pointer, if_neg hne] at hnext
    cases hnext

/-- A request that fails: `malloc` returns NULL, and the list of blocks is as before. -/
theorem Sound.malloc_failed (hs : s.Sound) (hpos : size ≠ 0) (hfree : ¬ s.FreeBlock size)
    (hzero : vmwosMalloc s.heap.regions.length = 0) :
    ∃ h, s.heap.malloc vmwosMalloc size = .ok (none, h) ∧
      h.regions = s.heap.regions ++ [⟨0, uint32 (size + metaSize)⟩] ∧ Sound ⟨h, s.live⟩ := by
  have hmalloc := @Sound.malloc_request s vmwosMalloc size 0 hs hpos hfree (by rw [hzero]; rfl)
    (by decide)
  rw [hs.linkLast_zero] at hmalloc
  refine ⟨_, hmalloc, rfl, ?_, ?_⟩
  · -- the header is written to the null page, and no block of the list is there
    have hbase : (if (granted s.heap.regions).map Region.start = [] then pointer 0
        else s.heap.globalBase) = s.heap.globalBase := by
      split
      · rename_i hempty
        have hlinked : Segment (Heap.blockNext s.heap.memory) s.heap.globalBase [] none :=
          hempty ▸ hs.linked
        exact (segment_nil.1 hlinked).symm
      · rfl
    have hheaders (r : Region) (hr : r ∈ granted s.heap.regions) (a : Nat) (ha : InHeader r a) :
        Heap.newHeader s.heap.memory 0 size a = s.heap.memory a := by
      apply Heap.newHeader_outside
      have hlow : 16777216 ≤ r.start := hs.grants.low r hr
      have hstart := ha.1
      show a < 0 ∨ 0 + 16 ≤ a
      omega
    have hwell := hs.wellFormed.of_headers hheaders
    rw [settled]
    dsimp only
    rw [hbase, granted_concat_zero]
    exact hwell
  · obtain ⟨hfresh, hlow⟩ := hs.grants
    rw [← granted_concat_zero _ (uint32 (size + metaSize))] at hfresh hlow
    exact ⟨hfresh, hlow⟩

/-- A request that is granted is for a region with room for the header. -/
theorem Sound.malloc_granted (hs : s.Sound) (hpos : size ≠ 0) (hfree : ¬ s.FreeBlock size)
    (hsize : size + metaSize < 4294967296) (hne : vmwosMalloc s.heap.regions.length ≠ 0)
    (hgrants : ∀ p h, s.heap.malloc vmwosMalloc size = .ok (p, h) → Grants h.regions) :
    ∃ ptr h, s.heap.malloc vmwosMalloc size = .ok (some ptr, h) ∧
      h.regions = s.heap.regions ++
        [⟨(vmwosMalloc s.heap.regions.length).toNat, size + metaSize⟩] ∧
      Mallocs s.settled size ptr { h with regions := granted h.regions } := by
  obtain ⟨request, hrequest⟩ : ∃ request,
    (vmwosMalloc s.heap.regions.length).toNat = request := ⟨_, rfl⟩
  have hnonzero : request ≠ 0 := fun h0 => hne (UInt32.toNat_inj.1 (hrequest.trans h0))
  have hregions := hgrants _ _ (Heap.malloc_request hs.linked hs.length_lt hpos
    (find?_eq_none hfree) (Prod.eta (Heap.requestSpace vmwosMalloc _ size s.heap)).symm)
  dsimp only at hregions
  rw [Heap.regions_requestSpace, hrequest, uint32_of_lt hsize] at hregions
  have hconcat := @granted_concat ⟨request, size + metaSize⟩ hnonzero s.heap.regions
  have hfresh : Region.Fresh 4294967296
      (granted s.heap.regions ++ [⟨request, size + metaSize⟩]) := by
    rw [← hconcat]
    exact hregions.fresh.mono (by decide)
  -- the region ends inside the address space, so the pointer behind its header is not 0
  obtain ⟨-, hfail, hstop⟩ := request_ne hfresh
  have hwrap : uint32 (request + metaSize) = request + metaSize := by
    have hstop' : request + size + 16 ≤ 4294967296 := hstop
    have hpos' : 0 < size := Nat.pos_of_ne_zero hpos
    refine uint32_of_lt ?_
    show request + 16 < 4294967296
    omega
  have hmalloc := hs.malloc_request hpos hfree hrequest hfail
  rw [pointer, if_neg hnonzero, uint32_of_lt hsize, Option.map_some, hwrap] at hmalloc
  refine ⟨_, _, hmalloc, by rw [hrequest], ?_⟩
  dsimp only
  rw [hconcat]
  exact hs.wellFormed.mallocs_new hsize hfresh

/-- A request of the call has failed. -/
def Failed (vmwosMalloc : Nat → UInt32) (s s' : HeapUse) : Prop :=
  s'.heap.regions ≠ s.heap.regions ∧ vmwosMalloc s.heap.regions.length = 0

/-- What is known of a call of `malloc` that does not wrap: it returns a block, or it returns NULL
and has changed nothing of the list. -/
inductive Answers (vmwosMalloc : Nat → UInt32) (s : HeapUse) (size : Nat) : Option Nat → Heap → Prop
  | block (ptr : Nat) (h : Heap)
      (mallocs : Mallocs s.settled size ptr { h with regions := granted h.regions })
      (had : s.FreeBlock size ∨
        vmwosMalloc s.heap.regions.length ≠ 0 ∧ size + metaSize < 4294967296)
      (kept : vmwosMalloc s.heap.regions.length = 0 → h.regions = s.heap.regions) :
      Answers vmwosMalloc s size (some ptr) h
  | null (h : Heap) (sound : Sound ⟨h, s.live⟩)
      (failed : size = 0 ∨ ¬ s.FreeBlock size ∧ vmwosMalloc s.heap.regions.length = 0) :
      Answers vmwosMalloc s size none h

theorem Answers.sound {p : Option Nat} {h : Heap} (hanswers : Answers vmwosMalloc s size p h)
    (hgrants : Grants h.regions) : Sound ⟨h, grant s.live p size⟩ := by
  cases hanswers with
  | block ptr _ hmallocs => exact ⟨hmallocs.2.1, hgrants⟩
  | null _ hsound => exact hsound

/-- A call that had to ask the kernel and got nothing returns NULL. -/
theorem Answers.none_of_failed {p : Option Nat} {h : Heap} {live : Nat → Option Nat}
    (hanswers : Answers vmwosMalloc s size p h) (hfailed : Failed vmwosMalloc s ⟨h, live⟩) :
    p = none := by
  cases hanswers with
  | block ptr _ _ _ hkept => exact absurd (hkept hfailed.2) hfailed.1
  | null => rfl

/-- Where the size with the header wraps, the kernel has to fail. -/
def NoWrap (vmwosMalloc : Nat → UInt32) (s : HeapUse) (size : Nat) : Prop :=
  4294967296 ≤ size + metaSize → vmwosMalloc s.heap.regions.length = 0

theorem Sound.malloc (hs : s.Sound) (hwrap : NoWrap vmwosMalloc s size)
    (hgrants : ∀ p h, s.heap.malloc vmwosMalloc size = .ok (p, h) → Grants h.regions) :
    ∃ p h, s.heap.malloc vmwosMalloc size = .ok (p, h) ∧ Answers vmwosMalloc s size p h := by
  by_cases hpos : size = 0
  · exact ⟨none, s.heap, if_pos hpos, .null _ hs (.inl hpos)⟩
  by_cases hfree : s.FreeBlock size
  · obtain ⟨ptr, h, hmalloc, hregions, hmallocs⟩ := hs.malloc_free hpos hfree
    exact ⟨some ptr, h, hmalloc, .block ptr h hmallocs (.inl hfree) fun _ => hregions⟩
  by_cases hzero : vmwosMalloc s.heap.regions.length = 0
  · obtain ⟨h, hmalloc, -, hsound⟩ := hs.malloc_failed hpos hfree hzero
    exact ⟨none, h, hmalloc, .null h hsound (.inr ⟨hfree, hzero⟩)⟩
  · have hsize : size + metaSize < 4294967296 := Nat.not_le.1 fun hle => hzero (hwrap hle)
    obtain ⟨ptr, h, hmalloc, -, hmallocs⟩ := hs.malloc_granted hpos hfree hsize hzero hgrants
    exact ⟨some ptr, h, hmalloc, .block ptr h hmallocs (.inr ⟨hzero, hsize⟩)
      fun h0 => absurd h0 hzero⟩

/-! ## Calls of a program -/

/-- What a program may do: any call of `malloc` that does not wrap, and what it may do where memory
is not short. -/
def Proper (vmwosMalloc : Nat → UInt32) (s : HeapUse) : HeapCall → Prop
  | .malloc size => NoWrap vmwosMalloc s size
  | .free ptr => s.Allowed (.free ptr)
  | .realloc ptr size => s.Allowed (.realloc ptr size)
  | .store location c => s.Allowed (.store location c)

/-- Whatever the kernel has handed out when the call returns is fresh. -/
def GrantsAfter (vmwosMalloc : Nat → UInt32) (s : HeapUse) (call : HeapCall) : Prop :=
  ∀ answer s', s.step vmwosMalloc call = .ok (answer, s') → Grants s'.heap.regions

theorem Sound.step (hs : s.Sound) {call : HeapCall} (hproper : s.Proper vmwosMalloc call)
    (hgrants : s.GrantsAfter vmwosMalloc call) :
    ∃ answer s', s.step vmwosMalloc call = .ok (answer, s') ∧ s'.Sound ∧
      (Failed vmwosMalloc s s' → answer = none) := by
  cases call with
  | malloc size =>
    obtain ⟨p, h, hmalloc, hanswers⟩ := hs.malloc hproper
      fun p h (hmalloc : s.heap.malloc vmwosMalloc size = _) => by
        have hafter := hgrants p _ (by rw [HeapUse.step, hmalloc]; rfl)
        exact hafter
    have hstep : s.step vmwosMalloc (.malloc size) = .ok (p, ⟨h, grant s.live p size⟩) := by
      rw [HeapUse.step, hmalloc]
      rfl
    exact ⟨p, _, hstep, hanswers.sound (hgrants _ _ hstep), hanswers.none_of_failed⟩
  | free ptr =>
    obtain ⟨n, hlive⟩ := Option.isSome_iff_exists.1 hproper
    obtain ⟨hwell, -⟩ := hs.wellFormed.free hlive
    exact ⟨none, _, rfl, ⟨hwell, hs.grants⟩, fun _ => rfl⟩
  | realloc ptr size =>
    obtain ⟨-, hsize, hptr⟩ := hproper
    have hwrap : NoWrap vmwosMalloc s size := fun hle => absurd hsize (Nat.not_lt.2 hle)
    cases ptr with
    | none =>
      -- the call is one of `malloc`
      obtain ⟨p, h, hmalloc, hanswers⟩ := hs.malloc hwrap
        fun p h (hmalloc : s.heap.malloc vmwosMalloc size = _) => by
          have hafter := hgrants p _ (by rw [HeapUse.step, Heap.realloc, hmalloc]; rfl)
          exact hafter
      have hstep : s.step vmwosMalloc (.realloc none size) =
          .ok (p, ⟨h, if p = none then s.live else grant s.live p size⟩) := by
        rw [HeapUse.step, Heap.realloc, hmalloc]
        rfl
      have hlive : (if p = none then s.live else grant s.live p size) = grant s.live p size := by
        cases p with
        | none => rfl
        | some new => rfl
      have hsound := hanswers.sound (hgrants _ _ hstep)
      rw [hlive] at hstep
      exact ⟨p, _, hstep, hsound, hanswers.none_of_failed⟩
    | some ptr =>
      obtain ⟨n, hlive⟩ := Option.isSome_iff_exists.1 (hptr ptr rfl)
      by_cases hroom : size ≤ Heap.blockSize s.heap.memory (ptr - metaSize)
      · -- the block is large enough, and stays where it is
        have hstep : s.step vmwosMalloc (.realloc (some ptr) size) = .ok (some ptr,
            ⟨s.heap, Function.update (Function.update s.live ptr none) ptr (some size)⟩) := by
          rw [HeapUse.step, Heap.realloc]
          dsimp only
          rw [if_pos hroom]
          rfl
        refine ⟨some ptr, _, hstep, ⟨?_, hs.grants⟩, fun hfailed => absurd rfl hfailed.1⟩
        rw [Function.update_idem]
        exact hs.wellFormed.resize hlive hroom
      · -- the contents move to a new block, or the old one is left as it is
        have hnull (h : Heap) (hmalloc : s.heap.malloc vmwosMalloc size = .ok (none, h)) :
            s.step vmwosMalloc (.realloc (some ptr) size) = .ok (none, ⟨h, s.live⟩) := by
          rw [HeapUse.step, Heap.realloc]
          dsimp only
          rw [if_neg hroom, hmalloc]
          rfl
        have hmoved (new : Nat) (h : Heap)
            (hmalloc : s.heap.malloc vmwosMalloc size = .ok (some new, h)) :
            s.step vmwosMalloc (.realloc (some ptr) size) = .ok (some new,
              ⟨Heap.free (some ptr) { h with memory := memcpy h.memory new (payloadBytes h ptr) },
                Function.update (Function.update s.live ptr none) new (some size)⟩) := by
          rw [HeapUse.step, realloc_eq hroom hmalloc]
          rfl
        obtain ⟨p, h, hmalloc, hanswers⟩ := hs.malloc hwrap
          fun p h (hmalloc : s.heap.malloc vmwosMalloc size = _) => by
            cases p with
            | none =>
              have hafter := hgrants _ _ (hnull h hmalloc)
              exact hafter
            | some new =>
              have hafter := hgrants _ _ (hmoved new h hmalloc)
              exact hafter
        cases hanswers with
        | block new _ hmallocs _ hkept =>
          have hmoves := hs.wellFormed.moves hlive hroom hmallocs
          exact ⟨some new, _, hmoved new h hmalloc, ⟨hmoves.wellFormed,
            hgrants _ _ (hmoved new h hmalloc)⟩, fun hfailed => absurd (hkept hfailed.2) hfailed.1⟩
        | null _ hsound => exact ⟨none, _, hnull h hmalloc, hsound, fun _ => rfl⟩
  | store location c =>
    obtain ⟨ptr, n, i, hlive, hi, rfl⟩ := hproper
    exact ⟨none, _, rfl, ⟨hs.wellFormed.store hlive hi c, hs.grants⟩, fun _ => rfl⟩

end HeapUse

end Vmwos
