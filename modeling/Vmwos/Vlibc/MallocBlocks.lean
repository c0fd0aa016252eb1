import Vmwos.Vlibc.Malloc

/-!
# The blocks of the allocator

`WellFormed` says how the list of blocks, the regions and the live blocks go together; every call
keeps it as long as `vmwos_malloc` hands out fresh regions (`malloc_spec`, `free_spec`,
`realloc_spec`). What a call does to the memory is said for the headers, whose words are read back,
and for all other bytes, which stay.
-/

set_option autoImplicit false

namespace Vmwos

open Library

namespace Heap

variable {memory memory' : Nat → UInt8} {block block' size : Nat}

/-! ## Headers -/

/-- A header only depends on its own bytes. -/
theorem header_congr (memory memory' : Nat → UInt8) (block : Nat)
    (h : ∀ i < metaSize, memory' (block + i) = memory (block + i)) :
    blockSize memory' block = blockSize memory block ∧
      blockNext memory' block = blockNext memory block ∧
      blockFree memory' block = blockFree memory block := by
  have hword (k : Nat) (hk : k + 4 ≤ 16) :
      wordAt memory' (block + k) = wordAt memory (block + k) := by
    refine wordAt_congr fun i hi => ?_
    have hbyte := h (k + i) (by show k + i < 16; omega)
    rwa [← Nat.add_assoc] at hbyte
  refine ⟨hword 0 (by decide), ?_, hword 8 (by decide)⟩
  rw [blockNext, hword 4 (by decide), blockNext]

/-- The header of a new block. -/
def newHeader (memory : Nat → UInt8) (block size : Nat) : Nat → UInt8 :=
  setWord (setWord (setWord (setWord memory block size) (block + 4) 0) (block + 8) 0) (block + 12)
    0x12345678

theorem newHeader_outside {a : Nat} (h : a < block ∨ block + metaSize ≤ a) :
    newHeader memory block size a = memory a := by
  have h' : a < block ∨ block + 16 ≤ a := h
  rw [newHeader, setWord_outside (by omega), setWord_outside (by omega),
    setWord_outside (by omega), setWord_outside (by omega)]

theorem newHeader_words (memory : Nat → UInt8) (block : Nat) (hsize : size < 4294967296) :
    blockSize (newHeader memory block size) block = size ∧
      blockNext (newHeader memory block size) block = none ∧
      blockFree (newHeader memory block size) block = 0 := by
  refine ⟨?_, ?_, ?_⟩
  · rw [blockSize, newHeader, wordAt_setWord_of_ne (by omega), wordAt_setWord_of_ne (by omega),
      wordAt_setWord_of_ne (by omega), wordAt_setWord hsize]
  · rw [blockNext, newHeader, wordAt_setWord_of_ne (by omega), wordAt_setWord_of_ne (by omega),
      wordAt_setWord (by decide)]
    rfl
  · rw [blockFree, newHeader, wordAt_setWord_of_ne (by omega), wordAt_setWord (by decide)]

/-- The flag and the magic number of a block. -/
def setFlag (memory : Nat → UInt8) (block flag magic : Nat) : Nat → UInt8 :=
  setWord (setWord memory (block + 8) flag) (block + 12) magic

theorem setFlag_outside {flag magic a : Nat} (h : a < block ∨ block + metaSize ≤ a) :
    setFlag memory block flag magic a = memory a := by
  have h' : a < block ∨ block + 16 ≤ a := h
  rw [setFlag, setWord_outside (by omega), setWord_outside (by omega)]

theorem setFlag_words (memory : Nat → UInt8) (block magic : Nat) {flag : Nat} (hflag : flag < 4294967296) :
    blockSize (setFlag memory block flag magic) block = blockSize memory block ∧
      blockNext (setFlag memory block flag magic) block = blockNext memory block ∧
      blockFree (setFlag memory block flag magic) block = flag := by
  refine ⟨?_, ?_, ?_⟩
  · rw [blockSize, setFlag, wordAt_setWord_of_ne (by omega), wordAt_setWord_of_ne (by omega),
      blockSize]
  · rw [blockNext, setFlag, wordAt_setWord_of_ne (by omega), wordAt_setWord_of_ne (by omega),
      blockNext]
  · rw [blockFree, setFlag, wordAt_setWord_of_ne (by omega), wordAt_setWord hflag]

/-- The pointer to the next block. -/
def setNext (memory : Nat → UInt8) (block n : Nat) : Nat → UInt8 := setWord memory (block + 4) n

theorem setNext_outside {n a : Nat} (h : a < block ∨ block + metaSize ≤ a) :
    setNext memory block n a = memory a := by
  have h' : a < block ∨ block + 16 ≤ a := h
  rw [setNext, setWord_outside (by omega)]

theorem setNext_words (memory : Nat → UInt8) (block : Nat) {n : Nat} (hn : n < 4294967296) :
    blockSize (setNext memory block n) block = blockSize memory block ∧
      blockNext (setNext memory block n) block = pointer n ∧
      blockFree (setNext memory block n) block = blockFree memory block := by
  refine ⟨?_, ?_, ?_⟩
  · rw [blockSize, setNext, wordAt_setWord_of_ne (by omega), blockSize]
  · rw [blockNext, setNext, wordAt_setWord hn]
  · rw [blockFree, setNext, wordAt_setWord_of_ne (by omega), blockFree]

/-! ## The walk -/

/-- A block that `find_free_block` stops at. -/
def fits (memory : Nat → UInt8) (size block : Nat) : Bool :=
  decide (blockFree memory block ≠ 0 ∧ size ≤ blockSize memory block)

/-- The walk finds the first block that fits. When there is none, it has come to the last block. -/
theorem findFreeBlock_eq (size last : Nat) {rounds : Nat} {current : Option Nat} {l : List Nat}
    (h : Segment (blockNext memory) current l none) (hrounds : l.length < rounds) :
    ∃ last', findFreeBlock memory size rounds last current =
        .ok (last', l.find? (fits memory size)) ∧
      (l.find? (fits memory size) = none → last' = l.getLast?.getD last) := by
  induction l generalizing rounds last current with
  | nil =>
    obtain ⟨rounds, rfl⟩ := Nat.exists_eq_succ_of_ne_zero (Nat.ne_of_gt hrounds)
    obtain rfl := segment_nil.1 h
    exact ⟨last, rfl, fun _ => rfl⟩
  | cons b l ih =>
    obtain ⟨rounds, rfl⟩ :=
      Nat.exists_eq_succ_of_ne_zero (Nat.ne_of_gt (Nat.zero_lt_of_lt hrounds))
    obtain ⟨rfl, hrest⟩ := h
    rw [findFreeBlock, List.find?_cons]
    by_cases hfits : blockFree memory b ≠ 0 ∧ size ≤ blockSize memory b
    · rw [if_pos hfits, fits, decide_eq_true hfits]
      exact ⟨last, rfl, fun hnone => absurd hnone (Option.some_ne_none b)⟩
    · rw [if_neg hfits, fits, decide_eq_false hfits]
      obtain ⟨last', hwalk, hlast⟩ := ih b hrest (Nat.lt_of_succ_lt_succ hrounds)
      refine ⟨last', hwalk, fun hnone => ?_⟩
      rw [hlast hnone]
      cases l with
      | nil => rfl
      | cons c l => rw [List.getLast?_cons_cons, List.getLast?_cons]; rfl

/-! ## `malloc` by the blocks of the list -/

section List

variable {vmwosMalloc : Nat → UInt32} {h : Heap} {starts : List Nat}

/-- What is stored before the header: the pointer in the last block. -/
def linkLast (memory : Nat → UInt8) (last : Option Nat) (n : Nat) : Nat → UInt8 :=
  match last with
  | none => memory
  | some last => setNext memory last n

/-- What a request stores, whatever the kernel answers but for -1. -/
theorem requestSpace_stores {last : Option Nat} {request : Nat}
    (hrequest : (vmwosMalloc h.regions.length).toNat = request) (hfail : request ≠ 4294967295) :
    requestSpace vmwosMalloc last size h =
      (pointer request, ⟨newHeader (linkLast h.memory last request) request size, h.globalBase,
        h.regions ++ [⟨request, uint32 (size + metaSize)⟩]⟩) := by
  unfold requestSpace
  dsimp only
  rw [hrequest, if_neg hfail]
  cases last <;> rfl

theorem regions_requestSpace (last : Option Nat) (h : Heap) :
    (requestSpace vmwosMalloc last size h).2.regions =
      h.regions ++ [⟨(vmwosMalloc h.regions.length).toNat, uint32 (size + metaSize)⟩] := by
  unfold requestSpace
  dsimp only
  split
  · rfl
  · cases last <;> rfl

theorem globalBase_requestSpace (last : Option Nat) (h : Heap) :
    (requestSpace vmwosMalloc last size h).2.globalBase = h.globalBase := by
  unfold requestSpace
  dsimp only
  split
  · rfl
  · cases last <;> rfl

/-- A block of the list is used. -/
theorem malloc_found (hlinked : Segment (blockNext h.memory) h.globalBase starts none)
    (hlength : starts.length < walkRounds) (hpos : size ≠ 0)
    (hfind : starts.find? (fits h.memory size) = some block) :
    h.malloc vmwosMalloc size = .ok (some (uint32 (block + metaSize)),
      { h with memory := setFlag h.memory block 0 0x77777777 }) := by
  rw [malloc, if_neg hpos]
  cases hbase : h.globalBase with
  | none =>
    have hempty : starts = [] := Segment.unique (hbase ▸ hlinked) rfl
    rw [hempty] at hfind
    cases hfind
  | some base =>
    obtain ⟨last, hwalk, -⟩ := findFreeBlock_eq size base (hbase ▸ hlinked) hlength
    rw [hfind] at hwalk
    simp only [hwalk]
    rw [← hbase]
    rfl

/-- No block of the list is large enough. -/
theorem malloc_request (hlinked : Segment (blockNext h.memory) h.globalBase starts none)
    (hlength : starts.length < walkRounds) (hpos : size ≠ 0)
    (hfind : starts.find? (fits h.memory size) = none) {p : Option Nat} {h' : Heap}
    (hrequest : requestSpace vmwosMalloc starts.getLast? size h = (p, h')) :
    h.malloc vmwosMalloc size = .ok (p.map fun block => uint32 (block + metaSize),
      { h' with globalBase := if starts = [] then p else h.globalBase }) := by
  have hbase : h'.globalBase = h.globalBase := by
    have hkept := congrArg (fun q => q.2.globalBase) hrequest
    exact hkept.symm.trans (globalBase_requestSpace _ _)
  rw [malloc, if_neg hpos]
  cases hhead : h.globalBase with
  | none =>
    have hempty : starts = [] := Segment.unique (hhead ▸ hlinked) rfl
    rw [hempty] at hrequest
    have hrequest' : requestSpace vmwosMalloc none size h = (p, h') := hrequest
    rw [if_pos hempty]
    simp only [hrequest']
    cases p with
    | none =>
      have hsame : h' = { h' with globalBase := none } := by
        rw [← hhead, ← hbase]
      rw [← hsame]
      rfl
    | some block => rfl
  | some base =>
    obtain ⟨last, hwalk, hlast⟩ := findFreeBlock_eq size base (hhead ▸ hlinked) hlength
    have hne : starts ≠ [] := by
      rintro rfl
      have hlinked' := hhead ▸ hlinked
      cases hlinked'
    have hlast' : starts.getLast? = some last := by
      rw [hlast hfind]
      cases hstarts : starts.getLast? with
      | none => exact absurd (List.getLast?_eq_none_iff.1 hstarts) hne
      | some b => rfl
    rw [hfind] at hwalk
    rw [hlast'] at hrequest
    have hsame : h' = { h' with globalBase := some base } := by
      rw [← hhead, ← hbase]
    rw [if_neg hne, ← hsame]
    simp only [hwalk, hrequest]
    cases p with
    | none => rfl
    | some block => rfl

end List

end Heap

/-! ## The list of blocks -/

/-- The flag of a block. -/
def freeFlag : Option Nat → Nat
  | none => 1
  | some _ => 0

theorem freeFlag_lt (entry : Option Nat) : freeFlag entry < 4294967296 := by
  cases entry with
  | none =>
    show 1 < 4294967296
    decide
  | some n =>
    show 0 < 4294967296
    decide

/-- The blocks of the list are the regions, in the order in which they were handed out; a block is
free when it is not live, and a live block has room for what was asked for. -/
structure HeapUse.WellFormed (s : HeapUse) : Prop where
  fresh : Region.Fresh 4294967296 s.heap.regions
  linked : Segment (Heap.blockNext s.heap.memory) s.heap.globalBase
    (s.heap.regions.map Region.start) none
  size : ∀ r ∈ s.heap.regions, Heap.blockSize s.heap.memory r.start + metaSize = r.length
  flag : ∀ r ∈ s.heap.regions,
    Heap.blockFree s.heap.memory r.start = freeFlag (s.live (r.start + metaSize))
  live : ∀ ptr n, s.live ptr = some n →
    ∃ r ∈ s.heap.regions, ptr = r.start + metaSize ∧ n + metaSize ≤ r.length

namespace HeapUse

variable {s : HeapUse} {r r' : Region}

/-- An address in the header of a region. -/
def InHeader (r : Region) (a : Nat) : Prop := r.start ≤ a ∧ a < r.start + metaSize

theorem outside_of_not_inHeader {a : Nat} (h : ¬ InHeader r a) :
    a < r.start ∨ r.start + metaSize ≤ a := by
  rcases Nat.lt_or_ge a r.start with hlow | hlow
  · exact .inl hlow
  · exact .inr (Nat.le_of_not_lt fun hhigh => h ⟨hlow, hhigh⟩)

theorem WellFormed.length_ge (hs : s.WellFormed) (hr : r ∈ s.heap.regions) :
    metaSize ≤ r.length := by
  rw [← hs.size r hr]
  exact Nat.le_add_left _ _

theorem WellFormed.eq_of_start (hs : s.WellFormed) (hr : r ∈ s.heap.regions)
    (hr' : r' ∈ s.heap.regions) (hstart : r.start = r'.start) : r = r' :=
  hs.fresh.eq_of_start (fun _ hq => Nat.lt_of_lt_of_le (by decide) (hs.length_ge hq)) hr hr' hstart

/-- Headers of different regions are apart. -/
theorem WellFormed.header_apart (hs : s.WellFormed) (hr : r ∈ s.heap.regions)
    (hr' : r' ∈ s.heap.regions) (hne : r ≠ r') :
    r.start + metaSize ≤ r'.start ∨ r'.start + metaSize ≤ r.start := by
  have hlength := hs.length_ge hr
  have hlength' := hs.length_ge hr'
  exact (hs.fresh.apart_of_ne hr hr' hne).imp (fun h => by omega) fun h => by omega

/-- There are fewer blocks than the walk takes rounds. -/
theorem WellFormed.length_lt (hs : s.WellFormed) :
    (s.heap.regions.map Region.start).length < Heap.walkRounds := by
  refine Nat.lt_succ_of_le (length_le_of_nodup hs.linked.nodup fun a ha => ?_)
  obtain ⟨r, hr, rfl⟩ := List.mem_map.1 ha
  have hlength : 16 ≤ r.length := hs.length_ge hr
  have hstop := hs.fresh.stop_le r hr
  omega

/-- Memory that is the same in the headers is as good. -/
theorem WellFormed.of_headers (hs : s.WellFormed) {memory : Nat → UInt8}
    (h : ∀ r ∈ s.heap.regions, ∀ a, InHeader r a → memory a = s.heap.memory a) :
    WellFormed ⟨{ s.heap with memory }, s.live⟩ := by
  have hheader (r : Region) (hr : r ∈ s.heap.regions) :=
    Heap.header_congr s.heap.memory memory r.start fun i hi => h r hr (r.start + i)
      ⟨Nat.le_add_right _ _, Nat.add_lt_add_left hi _⟩
  refine ⟨hs.fresh, hs.linked.congr ?_, fun r hr => ?_, fun r hr => ?_, hs.live⟩
  · intro a ha
    obtain ⟨r, hr, rfl⟩ := List.mem_map.1 ha
    exact (hheader r hr).2.1
  · rw [← hs.size r hr, ← (hheader r hr).1]
  · rw [← hs.flag r hr, ← (hheader r hr).2.2]

/-- A block changes its flag as the program is given it or gives it back. -/
theorem WellFormed.setFlag (hs : s.WellFormed) (hr : r ∈ s.heap.regions) (entry : Option Nat)
    {magic : Nat} (hentry : ∀ n, entry = some n → n + metaSize ≤ r.length) :
    WellFormed ⟨{ s.heap with
      memory := Heap.setFlag s.heap.memory r.start (freeFlag entry) magic },
      Function.update s.live (r.start + metaSize) entry⟩ := by
  obtain ⟨flag, hflag⟩ : ∃ flag, freeFlag entry = flag := ⟨_, rfl⟩
  have hsmall : flag < 4294967296 := hflag ▸ freeFlag_lt entry
  have hself := Heap.setFlag_words s.heap.memory r.start magic hsmall
  have hother (q : Region) (hq : q ∈ s.heap.regions) (hne : q ≠ r) :=
    Heap.header_congr s.heap.memory (Heap.setFlag s.heap.memory r.start flag magic) q.start
      fun i hi =>
        Heap.setFlag_outside (by
          have hi' : i < 16 := hi
          have happart : q.start + 16 ≤ r.start ∨ r.start + 16 ≤ q.start :=
            hs.header_apart hq hr hne
          show _ ∨ r.start + 16 ≤ _
          omega)
  rw [hflag]
  refine ⟨hs.fresh, hs.linked.congr ?_, fun q hq => ?_, fun q hq => ?_, fun ptr n hlive => ?_⟩
  · intro a ha
    obtain ⟨q, hq, rfl⟩ := List.mem_map.1 ha
    by_cases hne : q = r
    · rw [hne]
      exact hself.2.1
    · exact (hother q hq hne).2.1
  · by_cases hne : q = r
    · rw [hne, ← hs.size r hr]
      exact congrArg (· + metaSize) hself.1
    · rw [← hs.size q hq]
      exact congrArg (· + metaSize) (hother q hq hne).1
  · dsimp only
    by_cases hne : q = r
    · rw [hne, hself.2.2, Function.update_self, hflag]
    · have hstart : q.start + metaSize ≠ r.start + metaSize := fun heq =>
        hne (hs.eq_of_start hq hr (Nat.add_right_cancel heq))
      rw [(hother q hq hne).2.2, Function.update_of_ne hstart, hs.flag q hq]
  · dsimp only at hlive
    by_cases hptr : ptr = r.start + metaSize
    · rw [hptr, Function.update_self] at hlive
      exact ⟨r, hr, hptr, hentry n hlive⟩
    · rw [Function.update_of_ne hptr] at hlive
      exact hs.live ptr n hlive

/-- A new region with its header, behind the others. -/
theorem WellFormed.new (hs : s.WellFormed) {memory : Nat → UInt8} {globalBase : Option Nat}
    {request size n : Nat} (hsize : size < 4294967296) (hn : n ≤ size)
    (hfresh : Region.Fresh 4294967296 (s.heap.regions ++ [⟨request, size + metaSize⟩]))
    (hmemory : ∀ r ∈ s.heap.regions,
      Heap.blockSize memory r.start = Heap.blockSize s.heap.memory r.start ∧
        Heap.blockFree memory r.start = Heap.blockFree s.heap.memory r.start)
    (hlinked : Segment (Heap.blockNext (Heap.newHeader memory request size)) globalBase
      (s.heap.regions.map Region.start ++ [request]) none) :
    WellFormed ⟨⟨Heap.newHeader memory request size, globalBase,
      s.heap.regions ++ [⟨request, size + metaSize⟩]⟩,
      Function.update s.live (request + metaSize) (some n)⟩ := by
  obtain ⟨hself, -, hfree⟩ := Heap.newHeader_words memory request hsize
  have happart (r : Region) (hr : r ∈ s.heap.regions) :
      r.start + 16 ≤ request ∨ request + 16 ≤ r.start := by
    have hlength : 16 ≤ r.length := hs.length_ge hr
    have hapart : r.start + r.length ≤ request ∨ request + (size + 16) ≤ r.start :=
      (List.pairwise_append.1 hfresh.apart).2.2 r hr _ List.mem_cons_self
    omega
  have hother (r : Region) (hr : r ∈ s.heap.regions) :=
    Heap.header_congr memory (Heap.newHeader memory request size) r.start fun i hi =>
      Heap.newHeader_outside (by
        have hi' : i < 16 := hi
        have hcases := happart r hr
        show _ ∨ request + 16 ≤ _
        omega)
  refine ⟨hfresh, ?_, fun r hr => ?_, fun r hr => ?_, fun ptr m hlive => ?_⟩
  · rw [List.map_append]
    exact hlinked
  · rcases List.mem_append.1 hr with hr | hr
    · rw [← hs.size r hr, ← (hmemory r hr).1]
      exact congrArg (· + metaSize) (hother r hr).1
    · obtain rfl := List.mem_singleton.1 hr
      exact congrArg (· + metaSize) hself
  · dsimp only
    rcases List.mem_append.1 hr with hr | hr
    · have hstart : r.start + metaSize ≠ request + metaSize := by
        have hcases := happart r hr
        show r.start + 16 ≠ request + 16
        omega
      rw [(hother r hr).2.2, (hmemory r hr).2, hs.flag r hr, Function.update_of_ne hstart]
    · obtain rfl := List.mem_singleton.1 hr
      rw [hfree, Function.update_self]
      rfl
  · dsimp only at hlive ⊢
    by_cases hptr : ptr = request + metaSize
    · rw [hptr, Function.update_self] at hlive
      obtain rfl := Option.some.inj hlive
      exact ⟨⟨request, size + metaSize⟩, List.mem_append_right _ List.mem_cons_self, hptr,
        Nat.add_le_add_right hn metaSize⟩
    · rw [Function.update_of_ne hptr] at hlive
      obtain ⟨r, hr, hrest⟩ := hs.live ptr m hlive
      exact ⟨r, List.mem_append_left _ hr, hrest⟩

/-- The first region. -/
theorem WellFormed.first (hs : s.WellFormed) (hbase : s.heap.globalBase = none) {request size : Nat}
    (hsize : size < 4294967296)
    (hfresh : Region.Fresh 4294967296 (s.heap.regions ++ [⟨request, size + metaSize⟩])) :
    WellFormed ⟨⟨Heap.newHeader s.heap.memory request size, some request,
      s.heap.regions ++ [⟨request, size + metaSize⟩]⟩,
      Function.update s.live (request + metaSize) (some size)⟩ := by
  have hempty : s.heap.regions.map Region.start = [] := by
    have hlinked := hs.linked
    rw [hbase] at hlinked
    exact Segment.unique hlinked rfl
  refine hs.new hsize (Nat.le_refl size) hfresh (fun r hr => ⟨rfl, rfl⟩) ?_
  rw [hempty]
  exact ⟨rfl, (Heap.newHeader_words _ _ hsize).2.1⟩

/-- A region behind the last one. -/
theorem WellFormed.concat (hs : s.WellFormed) {last request size : Nat}
    (hlast : (s.heap.regions.map Region.start).getLast? = some last) (hsize : size < 4294967296)
    (hrequest : request < 4294967296)
    (hfresh : Region.Fresh 4294967296 (s.heap.regions ++ [⟨request, size + metaSize⟩])) :
    WellFormed ⟨⟨Heap.newHeader (Heap.setNext s.heap.memory last request) request size,
      s.heap.globalBase, s.heap.regions ++ [⟨request, size + metaSize⟩]⟩,
      Function.update s.live (request + metaSize) (some size)⟩ := by
  obtain ⟨starts, hstarts⟩ := List.getLast?_eq_some_iff.1 hlast
  obtain ⟨p, hp, hpstart⟩ : ∃ p ∈ s.heap.regions, p.start = last := by
    have hmem : last ∈ s.heap.regions.map Region.start := by
      rw [hstarts]
      exact List.mem_append_right _ List.mem_cons_self
    obtain ⟨p, hp, heq⟩ := List.mem_map.1 hmem
    exact ⟨p, hp, heq⟩
  have hself := Heap.setNext_words s.heap.memory last hrequest
  have hother (r : Region) (hr : r ∈ s.heap.regions) (hne : r ≠ p) :=
    Heap.header_congr s.heap.memory (Heap.setNext s.heap.memory last request) r.start
      fun i hi => Heap.setNext_outside (by
        have hi' : i < 16 := hi
        have hcases : r.start + 16 ≤ p.start ∨ p.start + 16 ≤ r.start :=
          hs.header_apart hr hp hne
        show _ ∨ last + 16 ≤ _
        omega)
  have hzero : 0 < request := hfresh.start_pos _ (List.mem_append_right _ List.mem_cons_self)
  have hnew (r : Region) (hr : r ∈ s.heap.regions) :
      r.start + 16 ≤ request ∨ request + 16 ≤ r.start := by
    have hlength : 16 ≤ r.length := hs.length_ge hr
    have hapart : r.start + r.length ≤ request ∨ request + (size + 16) ≤ r.start :=
      (List.pairwise_append.1 hfresh.apart).2.2 r hr _ List.mem_cons_self
    omega
  have hnext (r : Region) (hr : r ∈ s.heap.regions) :=
    (Heap.header_congr (Heap.setNext s.heap.memory last request)
      (Heap.newHeader (Heap.setNext s.heap.memory last request) request size) r.start
      fun i hi => Heap.newHeader_outside (by
        have hi' : i < 16 := hi
        have hcases := hnew r hr
        show _ ∨ request + 16 ≤ _
        omega)).2.1
  refine hs.new hsize (Nat.le_refl size) hfresh (fun r hr => ?_) ?_
  · by_cases hne : r = p
    · rw [hne, hpstart]
      exact ⟨hself.1, hself.2.2⟩
    · exact ⟨(hother r hr hne).1, (hother r hr hne).2.2⟩
  · have hlinked := hs.linked
    rw [hstarts] at hlinked ⊢
    refine hlinked.concat ?_ ?_ ?_ ?_
    · rw [← hstarts]
      intro hmem
      obtain ⟨r, hr, hstart⟩ := List.mem_map.1 hmem
      have hcases := hnew r hr
      omega
    · have hp' := hnext p hp
      rw [hpstart] at hp'
      rw [hp', hself.2.1, pointer, if_neg (Nat.ne_of_gt hzero)]
    · exact (Heap.newHeader_words _ _ hsize).2.1
    · intro c hc _ hne
      have hmem : c ∈ s.heap.regions.map Region.start := by
        rw [hstarts]
        exact List.mem_append_left _ hc
      obtain ⟨r, hr, rfl⟩ := List.mem_map.1 hmem
      rw [hnext r hr]
      refine (hother r hr ?_).2.1
      rintro rfl
      exact hne hpstart

/-! ## The calls -/

section Calls

variable {vmwosMalloc : Nat → UInt32} {size : Nat}

/-- A fresh region is neither at the null address nor where the failure is. -/
theorem request_ne {regions : List Region} {request : Nat}
    (hfresh : Region.Fresh 4294967296 (regions ++ [⟨request, size + metaSize⟩])) :
    request ≠ 0 ∧ request ≠ 4294967295 ∧ request + size + metaSize ≤ 4294967296 := by
  have hmem : (⟨request, size + metaSize⟩ : Region) ∈ regions ++ [⟨request, size + metaSize⟩] :=
    List.mem_append_right _ List.mem_cons_self
  have hstart : 0 < request := hfresh.start_pos _ hmem
  have hstop : request + (size + 16) ≤ 4294967296 := hfresh.stop_le _ hmem
  refine ⟨Nat.ne_of_gt hstart, ?_, ?_⟩
  · omega
  · show request + size + 16 ≤ 4294967296
    omega

/-- The block behind a region that is not among the blocks is not live. -/
theorem WellFormed.live_new (hs : s.WellFormed) {request : Nat}
    (hfresh : Region.Fresh 4294967296 (s.heap.regions ++ [⟨request, size + metaSize⟩])) :
    s.live (request + metaSize) = none := by
  cases hlive : s.live (request + metaSize) with
  | none => rfl
  | some n =>
    obtain ⟨r, hr, hptr, -⟩ := hs.live _ n hlive
    have hlength : 16 ≤ r.length := hs.length_ge hr
    have happart : r.start + r.length ≤ request ∨ request + (size + 16) ≤ r.start :=
      (List.pairwise_append.1 hfresh.apart).2.2 r hr _ List.mem_cons_self
    have hstart : request = r.start := Nat.add_right_cancel hptr
    omega

/-- What is said of `malloc`: the block was not live, and nothing but headers is changed. -/
def Mallocs (s : HeapUse) (size : Nat) (ptr : Nat) (h : Heap) : Prop :=
  s.live ptr = none ∧ WellFormed ⟨h, Function.update s.live ptr (some size)⟩ ∧
    (∀ r ∈ s.heap.regions, r ∈ h.regions) ∧
    ∀ a, (∀ r ∈ h.regions, ¬ InHeader r a) → h.memory a = s.heap.memory a

/-- A new region is behind the last block, or the first one. -/
theorem WellFormed.mallocs_new (hs : s.WellFormed) {request : Nat}
    (hsize : size + metaSize < 4294967296)
    (hfresh : Region.Fresh 4294967296 (s.heap.regions ++ [⟨request, size + metaSize⟩])) :
    Mallocs s size (request + metaSize) ⟨Heap.newHeader
      (Heap.linkLast s.heap.memory (s.heap.regions.map Region.start).getLast? request) request size,
      if s.heap.regions.map Region.start = [] then some request else s.heap.globalBase,
      s.heap.regions ++ [⟨request, size + metaSize⟩]⟩ := by
  have hsmall : size < 4294967296 := Nat.lt_of_le_of_lt (Nat.le_add_right _ _) hsize
  obtain ⟨-, -, hstop⟩ := request_ne hfresh
  have hmem : (⟨request, size + metaSize⟩ : Region) ∈
      s.heap.regions ++ [⟨request, size + metaSize⟩] :=
    List.mem_append_right _ List.mem_cons_self
  have houtside (memory : Nat → UInt8) (a : Nat)
      (ha : ¬ InHeader ⟨request, size + metaSize⟩ a) :
      Heap.newHeader memory request size a = memory a :=
    Heap.newHeader_outside (outside_of_not_inHeader ha)
  cases hlast : (s.heap.regions.map Region.start).getLast? with
  | none =>
    have hempty := List.getLast?_eq_none_iff.1 hlast
    have hbase : s.heap.globalBase = none := by
      have hlinked := hs.linked
      rwa [hempty] at hlinked
    rw [if_pos hempty]
    refine ⟨hs.live_new hfresh, hs.first hbase hsmall hfresh,
      fun r hr => List.mem_append_left _ hr, fun a ha => ?_⟩
    exact houtside _ a (ha _ hmem)
  | some last =>
    obtain ⟨p, hp, hpstart⟩ : ∃ p ∈ s.heap.regions, p.start = last := by
      have hin := List.mem_of_getLast? hlast
      obtain ⟨p, hp, heq⟩ := List.mem_map.1 hin
      exact ⟨p, hp, heq⟩
    have hne : s.heap.regions.map Region.start ≠ [] := by
      intro hempty
      rw [hempty] at hlast
      cases hlast
    have hrequest : request < 4294967296 := by
      have hstop' : request + size + 16 ≤ 4294967296 := hstop
      omega
    rw [if_neg hne]
    refine ⟨hs.live_new hfresh, hs.concat hlast hsmall hrequest hfresh,
      fun r hr => List.mem_append_left _ hr, fun a ha => ?_⟩
    dsimp only
    rw [houtside _ a (ha _ hmem)]
    exact Heap.setNext_outside
      (hpstart ▸ outside_of_not_inHeader (ha p (List.mem_append_left _ hp)))

/-- A block of the list is used again. -/
theorem WellFormed.mallocs_reuse (hs : s.WellFormed) {r : Region} (hr : r ∈ s.heap.regions)
    (hfits : Heap.fits s.heap.memory size r.start = true) :
    Mallocs s size (r.start + metaSize) { s.heap with
      memory := Heap.setFlag s.heap.memory r.start 0 0x77777777 } := by
  obtain ⟨hfree, hsize⟩ := of_decide_eq_true hfits
  have hdead : s.live (r.start + metaSize) = none := by
    rw [hs.flag r hr] at hfree
    cases hlive : s.live (r.start + metaSize) with
    | none => rfl
    | some n =>
      rw [hlive] at hfree
      exact absurd rfl hfree
  refine ⟨hdead, hs.setFlag hr (some size) ?_, fun q hq => hq, fun a ha => ?_⟩
  · intro n hn
    obtain rfl := Option.some.inj hn
    rw [← hs.size r hr]
    exact Nat.add_le_add_right hsize metaSize
  · exact Heap.setFlag_outside (outside_of_not_inHeader (ha r hr))

/-- The payload of a region is below the bound, so its address does not wrap. -/
theorem WellFormed.payload_lt (hs : s.WellFormed) {r : Region} (hr : r ∈ s.heap.regions)
    (hpayload : 0 < Heap.blockSize s.heap.memory r.start) :
    uint32 (r.start + metaSize) = r.start + metaSize := by
  refine uint32_of_lt ?_
  have hstop := hs.fresh.stop_le r hr
  have hlength : Heap.blockSize s.heap.memory r.start + 16 = r.length := hs.size r hr
  show r.start + 16 < 4294967296
  omega

/-- `malloc` returns a block that was not live. -/
theorem WellFormed.malloc (hs : s.WellFormed) (hpos : size ≠ 0)
    (hsize : size + metaSize < 4294967296)
    (hfresh : ∀ ptr h, s.heap.malloc vmwosMalloc size = .ok (ptr, h) →
      Region.Fresh 4294967296 h.regions) :
    ∃ ptr h, s.heap.malloc vmwosMalloc size = .ok (some ptr, h) ∧ Mallocs s size ptr h := by
  cases hfind : (s.heap.regions.map Region.start).find? (Heap.fits s.heap.memory size) with
  | none =>
    obtain ⟨request, hrequest⟩ : ∃ request,
      (vmwosMalloc s.heap.regions.length).toNat = request := ⟨_, rfl⟩
    have hregions := hfresh _ _ (Heap.malloc_request hs.linked hs.length_lt hpos hfind
      (Prod.eta (Heap.requestSpace vmwosMalloc _ size s.heap)).symm)
    dsimp only at hregions
    rw [Heap.regions_requestSpace, hrequest, uint32_of_lt hsize] at hregions
    obtain ⟨hzero, hfail, hstop⟩ := request_ne hregions
    have hwrap : uint32 (request + metaSize) = request + metaSize := by
      have hstop' : request + size + 16 ≤ 4294967296 := hstop
      have hpos' : 0 < size := Nat.pos_of_ne_zero hpos
      refine uint32_of_lt ?_
      show request + 16 < 4294967296
      omega
    have hmalloc := Heap.malloc_request hs.linked hs.length_lt hpos hfind
      (Heap.requestSpace_stores hrequest hfail)
    rw [pointer, if_neg hzero, uint32_of_lt hsize, Option.map_some, hwrap] at hmalloc
    exact ⟨_, _, hmalloc, hs.mallocs_new hsize hregions⟩
  | some block =>
    obtain ⟨r, hr, rfl⟩ := List.mem_map.1 (List.mem_of_find?_eq_some hfind)
    have hfits := List.find?_some hfind
    have hpayload : 0 < Heap.blockSize s.heap.memory r.start :=
      Nat.lt_of_lt_of_le (Nat.pos_of_ne_zero hpos) (of_decide_eq_true hfits).2
    refine ⟨_, _, ?_, hs.mallocs_reuse hr hfits⟩
    rw [Heap.malloc_found hs.linked hs.length_lt hpos hfind, hs.payload_lt hr hpayload]

end Calls

end HeapUse

end Vmwos
