import Vmwos.Vlibc.Stdio
import Vmwos.Vlibc.MallocUse
import Vmwos.Memory.Memory

/-!
# Lines of any length

At the start of every round `getdelim` has room for two characters behind those it has read. It
keeps the room when the buffer grows, as long as `*n * 2` does not wrap; and a buffer that large
does not fit into the memory of the machine. So the calls of `getline` cut the content of a file
into its lines (`getline_lossless`).
-/

set_option autoImplicit false

namespace Vmwos

open Library

namespace LineState

variable {vmwosMalloc : Nat → UInt32} {st st' : LineState} {buf : Nat} {line : List UInt8}

/-! ## What `getline` should do -/

/-- The bytes from an address on. -/
def bytesAt (memory : Nat → UInt8) (p k : Nat) : List UInt8 :=
  (List.range k).map fun i => memory (p + i)

/-- A call of `getline`: its value, and as many bytes of the buffer. -/
def lineStep (vmwosMalloc : Nat → UInt32) (st : LineState) (_ : Unit) :
    Except Stuck ((Int × List UInt8) × LineState) :=
  (st.getline vmwosMalloc).map fun r =>
    ((r.1, bytesAt r.2.use.heap.memory (r.2.buf.getD 0) r.1.toNat), r.2)

/-- The program before its first call, with no buffer yet. -/
def opened (use : HeapUse) (content : List UInt8) (n : Nat) : LineState :=
  { use := use, stream := ⟨content, false⟩, buf := none, n := n, ptr := 0, endptr := 0 }

/-- The allocations of a call succeed: whatever `vmwos_malloc` has handed out in the course of it
is fresh, inside the memory of the machine. -/
def Served (vmwosMalloc : Nat → UInt32) (st : LineState) : Prop :=
  ∀ rounds value st', st.getdelimRounds vmwosMalloc 0x0a rounds = .ok (value, st') →
    Region.Fresh maxMemory st'.use.heap.regions

/-- A line ends at its first newline, or where nothing is left. -/
def EndsLine (line unread : List UInt8) : Prop :=
  (∃ w, line = w ++ [0x0a] ∧ 0x0a ∉ w) ∨ 0x0a ∉ line ∧ unread = []

/-- A call returns -1 just if no byte is left, and otherwise the length of the line that is in the
buffer, before a NUL. -/
structure ReadsLine (st : LineState) (answer : Int × List UInt8) (st' : LineState) : Prop where
  none_left : answer.1 = -1 ↔ st.stream.unread = []
  splits : st.stream.unread = answer.2 ++ st'.stream.unread
  line : st.stream.unread ≠ [] → answer.1 = answer.2.length ∧
    EndsLine answer.2 st'.stream.unread ∧
    ∃ buf, st'.buf = some buf ∧ st'.use.heap.memory (buf + answer.2.length) = 0

/-! ## Bytes -/

@[simp] theorem length_bytesAt (memory : Nat → UInt8) (p k : Nat) :
    (bytesAt memory p k).length = k := by
  rw [bytesAt, List.length_map, List.length_range]

theorem bytesAt_succ (memory : Nat → UInt8) (p k : Nat) :
    bytesAt memory p (k + 1) = bytesAt memory p k ++ [memory (p + k)] := by
  rw [bytesAt, List.range_succ, List.map_append]
  rfl

theorem bytesAt_congr {memory memory' : Nat → UInt8} {p p' k : Nat}
    (h : ∀ i < k, memory' (p' + i) = memory (p + i)) : bytesAt memory' p' k = bytesAt memory p k := by
  induction k with
  | zero => rfl
  | succ k ih =>
      rw [bytesAt_succ, bytesAt_succ, ih fun i hi => h i (Nat.lt_succ_of_lt hi),
        h k (Nat.lt_succ_self k)]

/-- A byte is stored behind others. -/
theorem bytesAt_update (memory : Nat → UInt8) (p k : Nat) (c : UInt8) :
    bytesAt (Function.update memory (p + k) c) p (k + 1) = bytesAt memory p k ++ [c] := by
  rw [bytesAt_succ, Function.update_self]
  congr 1
  apply bytesAt_congr
  intro i hi
  exact Function.update_of_ne (Nat.ne_of_lt (Nat.add_lt_add_left hi p)) _ _

/-! ## States -/

/-- Between two calls: the buffer is the one that is passed back. -/
structure Ready (st : LineState) : Prop where
  use : st.use.WellFormed
  buf : ∀ buf, st.buf = some buf → st.use.live buf = some st.n ∧ bufSiz ≤ st.n

/-- In a call: the characters read so far, and room for some more. -/
structure Filling (slack : Nat) (st : LineState) (buf : Nat) (line : List UInt8) : Prop where
  use : st.use.WellFormed
  buffer : st.buf = some buf
  live : st.use.live buf = some st.n
  size : bufSiz ≤ st.n
  ptr : st.ptr = buf + line.length
  endptr : st.endptr = buf + st.n
  room : line.length + slack < st.n
  bytes : bytesAt st.use.heap.memory buf line.length = line

/-- At the end of a call: the line, before a NUL. -/
structure Gives (st : LineState) (line : List UInt8) (value : Int) : Prop where
  ready : st.Ready
  value : value = line.length
  buf : ∃ buf, st.buf = some buf ∧
    bytesAt st.use.heap.memory buf (line.length + 1) = line ++ [0]

/-- A live block is where the regions are. -/
theorem le_of_live {s : HeapUse} (hs : s.WellFormed) {p n bound : Nat} (hlive : s.live p = some n)
    (hfresh : Region.Fresh bound s.heap.regions) : p + n ≤ bound := by
  obtain ⟨r, hr, rfl, hn, -⟩ := hs.region hlive
  calc r.start + metaSize + n = r.start + (n + metaSize) := by
        rw [Nat.add_assoc, Nat.add_comm metaSize]
    _ ≤ r.start + r.length := Nat.add_le_add_left hn _
    _ ≤ bound := hfresh.stop_le r hr

/-- A byte of a live block. -/
def stored (s : HeapUse) (location : Nat) (c : UInt8) : HeapUse :=
  ⟨{ s.heap with memory := Function.update s.heap.memory location c }, s.live⟩

theorem setChar_eq (hbuf : st.buf = some buf) (hlow : buf ≤ st.ptr) (hhigh : st.ptr < buf + st.n)
    (c : UInt8) : st.setChar vmwosMalloc c = .ok { st with use := stored st.use st.ptr c } := by
  obtain ⟨use, stream, b, n, ptr, endptr⟩ := st
  obtain rfl : b = some buf := hbuf
  have hinside : buf ≤ ptr ∧ ptr < buf + n := ⟨hlow, hhigh⟩
  rw [setChar]
  dsimp only
  rw [if_pos hinside]
  rfl

theorem diff_eq (hbuf : st.buf = some buf) {k : Nat} (hptr : st.ptr = buf + k)
    (hk : k < 2147483648) : st.diff = k := by
  have hsub : ((buf + k : Nat) : Int) - buf = k := by
    omega
  rw [diff, hbuf, hptr, Option.getD_some, hsub, int32_of_lt hk]

variable {slack : Nat}

/-- The buffer is a part of the memory. -/
theorem Filling.lt (h : Filling slack st buf line)
    (hfresh : Region.Fresh maxMemory st.use.heap.regions) : st.n < 1073741825 := by
  have hstop : buf + st.n ≤ 1073741824 := le_of_live h.use h.live hfresh
  exact Nat.lt_succ_of_le (Nat.le_trans (Nat.le_add_left _ _) hstop)

theorem Filling.diff (h : Filling slack st buf line) (hlt : st.n < 1073741825) :
    st.diff = line.length := by
  have hroom := h.room
  exact diff_eq h.buffer h.ptr (by omega)

/-- Characters are read without a change to the buffer. -/
theorem Filling.withStream (h : Filling slack st buf line) (stream : InFile) :
    Filling slack { st with stream := stream } buf line :=
  ⟨h.use, h.buffer, h.live, h.size, h.ptr, h.endptr, h.room, h.bytes⟩

/-- A character is stored behind the others. -/
theorem Filling.store (h : Filling slack st buf line) (c : UInt8) :
    st.setChar vmwosMalloc c = .ok { st with use := stored st.use st.ptr c } ∧
      (stored st.use st.ptr c).WellFormed ∧
      bytesAt (stored st.use st.ptr c).heap.memory buf (line.length + 1) = line ++ [c] := by
  have hlt : line.length < st.n := Nat.lt_of_le_of_lt (Nat.le_add_right _ _) h.room
  refine ⟨setChar_eq h.buffer ?_ ?_ c, ?_, ?_⟩
  · rw [h.ptr]
    exact Nat.le_add_right _ _
  · rw [h.ptr]
    exact Nat.add_lt_add_left hlt buf
  · rw [h.ptr]
    exact h.use.store h.live hlt c
  · rw [h.ptr]
    exact (bytesAt_update _ _ _ c).trans (congrArg (· ++ [c]) h.bytes)

/-- The NUL behind a line. -/
theorem Filling.terminate (h : Filling slack st buf line) (hlt : st.n < 1073741825) :
    ∃ st', st.setChar vmwosMalloc 0 = .ok st' ∧ st'.diff = line.length ∧
      st'.Gives line line.length ∧ st'.stream = st.stream := by
  obtain ⟨hset, hwell, hbytes⟩ := @Filling.store vmwosMalloc _ _ _ _ h 0
  refine ⟨_, hset, h.diff hlt, ⟨⟨hwell, ?_⟩, rfl, buf, h.buffer, hbytes⟩, rfl⟩
  intro b hb
  obtain rfl := Option.some.inj (h.buffer.symm.trans hb)
  exact ⟨h.live, h.size⟩

/-- A call of the allocator that is served. -/
theorem heapCall_eq (hs : st.use.WellFormed) {call : HeapCall} (hallowed : st.use.Allowed call)
    (hserved : ∀ answer st', st.heapCall vmwosMalloc call = .ok (answer, st') →
      Region.Fresh maxMemory st'.use.heap.regions) :
    ∃ answer s', st.heapCall vmwosMalloc call = .ok (answer, { st with use := s' }) ∧
      st.use.Serves call answer s' := by
  have hcall (answer : Option Nat) (s' : HeapUse)
      (hstep : st.use.step vmwosMalloc call = .ok (answer, s')) :
      st.heapCall vmwosMalloc call = .ok (answer, { st with use := s' }) := by
    rw [heapCall, hstep]
    rfl
  obtain ⟨answer, s', hstep, hserves⟩ := hs.step hallowed fun answer s' hstep =>
    (hserved answer _ (hcall answer s' hstep)).mono (by decide)
  exact ⟨answer, s', hcall answer s' hstep, hserves⟩

/-! ## The start of a call -/

/-- The call starts with a buffer that has no line yet. -/
theorem getdelimStart_filling (h : st.Ready)
    (hserved : ∀ value st', st.getdelimStart vmwosMalloc = .ok (value, st') →
      Region.Fresh maxMemory st'.use.heap.regions) :
    ∃ buf st', st.getdelimStart vmwosMalloc = .ok (none, st') ∧ Filling 2 st' buf [] ∧
      st'.stream = st.stream := by
  by_cases hnone : st.buf = none ∨ st.n = 0
  · -- a first buffer is allocated, and the kernel has served the request either way
    obtain ⟨answer, s', hcall, hwell, ⟨new, rfl, -, hlive⟩, -⟩ :=
      @heapCall_eq vmwosMalloc st h.use (.malloc bufSiz) ⟨by decide, by decide⟩
        fun answer st' hcall => by
          cases answer with
          | none =>
              have hfresh := hserved (some (-1)) _ (by rw [getdelimStart, if_pos hnone, hcall])
              exact hfresh
          | some buf =>
              have hfresh := hserved none _ (by rw [getdelimStart, if_pos hnone, hcall])
              exact hfresh
    refine ⟨new, { st with
      use := s', n := bufSiz, buf := some new, ptr := new, endptr := new + bufSiz },
      by rw [getdelimStart, if_pos hnone, hcall], ?_, rfl⟩
    exact ⟨hwell, rfl, hlive, Nat.le_refl _, rfl, rfl, (by decide : 0 + 2 < bufSiz), rfl⟩
  · rw [not_or] at hnone
    obtain ⟨buf, hbuf⟩ := Option.ne_none_iff_exists'.1 hnone.1
    obtain ⟨hlive, hsize⟩ := h.buf buf hbuf
    refine ⟨buf, { st with ptr := buf, endptr := buf + st.n }, ?_, ?_, rfl⟩
    · rw [getdelimStart, if_neg (not_or.2 hnone), hbuf]
      rfl
    · exact ⟨h.use, hbuf, hlive, hsize, rfl, rfl, Nat.lt_of_lt_of_le (by decide) hsize, rfl⟩

/-! ## A round -/

/-- At the end of the file. -/
theorem getdelimRound_end {delim : Int} (h : Filling 2 st buf line) (hlt : st.n < 1073741825)
    (hend : st.stream.unread = []) :
    ∃ st', st.getdelimRound vmwosMalloc delim =
        .ok (some (if line = [] then -1 else line.length), st') ∧ st'.stream.unread = [] ∧
      st'.Ready ∧ (line ≠ [] → st'.Gives line line.length) := by
  have hread : fgetc st.stream = (-1, ⟨[], true⟩) := by
    cases hst : st.stream with
    | mk unread eof =>
        obtain rfl : unread = [] := by rwa [hst] at hend
        rfl
  have h' := h.withStream ⟨[], true⟩
  have hdiff := h'.diff hlt
  rw [getdelimRound, hread]
  dsimp only
  rw [if_pos rfl, if_pos rfl, hdiff]
  by_cases hnil : line = []
  · -- nothing was read: the buffer stays, and -1 is returned
    subst hnil
    refine ⟨_, rfl, rfl, ⟨h.use, ?_⟩, fun hne => absurd rfl hne⟩
    intro b hb
    obtain rfl := Option.some.inj (h.buffer.symm.trans hb)
    exact ⟨h.live, h.size⟩
  · -- the last line has no newline, and is ended by the 0
    have hlen : (line.length : Int) ≠ 0 := fun h0 =>
      hnil (List.length_eq_zero_iff.1 (Int.ofNat_eq_zero.1 h0))
    obtain ⟨st', hset, -, hgives, hstream⟩ := @Filling.terminate vmwosMalloc _ _ _ _ h' hlt
    rw [if_pos hlen, if_neg hnil, hset]
    refine ⟨st', rfl, ?_, hgives.ready, fun _ => hgives⟩
    rw [hstream]

/-- No larger buffer: the call ends. -/
theorem grow_null {st' : LineState} (hsmall : st.endptr ≤ st.ptr + 2) (hlt : st.n < 1073741825)
    (hcall : st.heapCall vmwosMalloc (.realloc st.buf (st.n * 2)) = .ok (none, st')) :
    st.grow vmwosMalloc = .ok (some (-1), st') := by
  have hbytes : uint32 (st.n * 2) = st.n * 2 := uint32_of_lt (by omega)
  rw [LineState.grow, if_pos hsmall]
  dsimp only
  rw [hbytes, hcall]

/-- A larger buffer: the pointers into the old one are moved. -/
theorem grow_block {new : Nat} {st' : LineState} (hsmall : st.endptr ≤ st.ptr + 2)
    (hlt : st.n < 1073741825)
    (hcall : st.heapCall vmwosMalloc (.realloc st.buf (st.n * 2)) = .ok (some new, st')) :
    st.grow vmwosMalloc = .ok (none, { st' with
      buf := some new, n := st.n * 2, endptr := new + st.n * 2
      ptr := new + st.diff.toNat }) := by
  have hbytes : uint32 (st.n * 2) = st.n * 2 := uint32_of_lt (by omega)
  rw [LineState.grow, if_pos hsmall]
  dsimp only
  rw [hbytes, hcall]

/-- The buffer is given back with room for two more characters. -/
theorem Filling.grow (h : Filling 1 st buf line) (hlt : st.n < 1073741825)
    (hserved : ∀ value st', st.grow vmwosMalloc = .ok (value, st') →
      Region.Fresh maxMemory st'.use.heap.regions) :
    ∃ buf' st', st.grow vmwosMalloc = .ok (none, st') ∧ Filling 2 st' buf' line ∧
      st'.stream = st.stream := by
  have hroom := h.room
  have hsize : 4096 ≤ st.n := h.size
  by_cases hsmall : st.endptr ≤ st.ptr + 2
  · have hallowed : st.use.Allowed (.realloc st.buf (st.n * 2)) := by
      refine ⟨by omega, ?_, ?_⟩
      · show st.n * 2 + 16 < 4294967296
        omega
      · intro p hp
        rw [h.buffer] at hp
        obtain rfl := Option.some.inj hp
        rw [h.live]
        rfl
    obtain ⟨answer, s', hcall, hwell, hreturns, -⟩ :=
      @heapCall_eq vmwosMalloc st h.use _ hallowed fun answer st' hcall => by
        cases answer with
        | none =>
            have hfresh := hserved (some (-1)) _ (grow_null hsmall hlt hcall)
            exact hfresh
        | some newbuf =>
            have hfresh := hserved none _ (grow_block hsmall hlt hcall)
            exact hfresh
    -- the new block begins with the bytes of the old one, and with them the line
    rw [h.buffer] at hreturns
    obtain ⟨new, rfl, hlive, hcopied, -⟩ := hreturns
    refine ⟨new, { st with
      use := s', buf := some new, n := st.n * 2, endptr := new + st.n * 2
      ptr := new + st.diff.toNat }, grow_block hsmall hlt hcall, ?_, rfl⟩
    refine ⟨hwell, rfl, hlive, ?_, ?_, rfl, ?_, ?_⟩
    · exact Nat.le_trans h.size (Nat.le_mul_of_pos_right _ (by decide))
    · rw [h.diff hlt]
      rfl
    · show line.length + 2 < st.n * 2
      omega
    · refine (bytesAt_congr fun i hi => ?_).trans h.bytes
      apply hcopied st.n h.live
      show i < min st.n (st.n * 2)
      omega
  · -- there is room for the next character and the 0 behind it
    refine ⟨buf, st, if_neg hsmall, ⟨h.use, h.buffer, h.live, h.size, h.ptr, h.endptr, ?_, h.bytes⟩,
      rfl⟩
    rw [h.endptr, h.ptr] at hsmall
    omega

/-- A round that reads a character. -/
theorem getdelimRound_cons {c : UInt8} {unread : List UInt8} (h : Filling 2 st buf line)
    (hlt : st.n < 1073741825) (hunread : st.stream.unread = c :: unread)
    (hserved : ∀ value st', st.getdelimRound vmwosMalloc 0x0a = .ok (value, st') →
      Region.Fresh maxMemory st'.use.heap.regions) :
    ∃ value st', st.getdelimRound vmwosMalloc 0x0a = .ok (value, st') ∧
      st'.stream.unread = unread ∧
      if c = 0x0a then value = some ((line ++ [c]).length : Int) ∧
        st'.Gives (line ++ [c]) (line ++ [c]).length
      else value = none ∧ ∃ buf', Filling 2 st' buf' (line ++ [c]) := by
  have hread : fgetc st.stream = ((c.toNat : Int), ⟨unread, st.stream.eof⟩) := by
    cases hst : st.stream with
    | mk cs eof =>
        obtain rfl : cs = c :: unread := by rwa [hst] at hunread
        rfl
  obtain ⟨hset, hwell, hbytes⟩ :=
    @Filling.store vmwosMalloc _ _ _ _ (h.withStream ⟨unread, st.stream.eof⟩) c
  have hne : (c.toNat : Int) ≠ -1 := by omega
  have hdelim : (c.toNat : Int) = 0x0a ↔ c = 0x0a := by
    rw [← UInt8.toNat_inj]
    exact Int.ofNat_inj (n := 10)
  have hround : st.getdelimRound vmwosMalloc 0x0a =
      let st := { st with
        stream := ⟨unread, st.stream.eof⟩, use := stored st.use st.ptr c, ptr := st.ptr + 1 }
      if c = 0x0a then
        st.setChar vmwosMalloc 0 >>= fun st => .ok (some st.diff, st)
      else st.grow vmwosMalloc := by
    rw [getdelimRound, hread]
    dsimp only
    rw [if_neg hne, Int.toNat_natCast, UInt8.ofNat_toNat, hset]
    simp only [← hdelim]
    rfl
  have hlen : (line ++ [c]).length = line.length + 1 := List.length_append
  have hroom := h.room
  -- once the character is stored there is room for the 0 only
  have hpushed : Filling 1 { st with
      stream := ⟨unread, st.stream.eof⟩, use := stored st.use st.ptr c, ptr := st.ptr + 1 } buf
      (line ++ [c]) := by
    refine ⟨hwell, h.buffer, h.live, h.size, ?_, h.endptr, ?_, ?_⟩
    · show st.ptr + 1 = buf + (line ++ [c]).length
      rw [h.ptr, hlen, Nat.add_assoc]
    · show (line ++ [c]).length + 1 < st.n
      rw [hlen]
      exact hroom
    · rw [hlen]
      exact hbytes
  dsimp only at hround
  by_cases hc : c = 0x0a
  · obtain ⟨st', hset', hdiff, hgives, hstream⟩ :=
      @Filling.terminate vmwosMalloc _ _ _ _ hpushed hlt
    rw [if_pos hc, hset'] at hround
    refine ⟨some st'.diff, st', hround, by rw [hstream], ?_⟩
    rw [if_pos hc, hdiff]
    exact ⟨rfl, hgives⟩
  · rw [if_neg hc] at hround
    obtain ⟨buf', st', hgrow, hfilling, hstream⟩ := hpushed.grow hlt fun value st' hgrow =>
      hserved value st' (hround.trans hgrow)
    refine ⟨none, st', hround.trans hgrow, by rw [hstream], ?_⟩
    rw [if_neg hc]
    exact ⟨rfl, buf', hfilling⟩

/-! ## A call -/

/-- What the end of a call says of a line that had been read, and of the bytes that were left. -/
structure Finishes (line unread : List UInt8) (value : Int) (st' : LineState) : Prop where
  ready : st'.Ready
  nothing : line ++ unread = [] → value = -1 ∧ st'.stream.unread = []
  line : line ++ unread ≠ [] → ∃ whole, line ++ unread = whole ++ st'.stream.unread ∧
    whole ≠ [] ∧ EndsLine whole st'.stream.unread ∧ st'.Gives whole value

/-- The loop ends with a line, in as many rounds as bytes are left and one more. -/
theorem getdelimLoop_finishes {unread : List UInt8} :
    ∀ {st : LineState} {buf : Nat} {line : List UInt8}, Filling 2 st buf line → 0x0a ∉ line →
      st.stream.unread = unread →
      (∀ rounds value st', st.getdelimLoop vmwosMalloc 0x0a rounds = .ok (value, st') →
        Region.Fresh maxMemory st'.use.heap.regions) →
      ∃ value st', st.getdelimLoop vmwosMalloc 0x0a (unread.length + 1) = .ok (some value, st') ∧
        Finishes line unread value st' := by
  induction unread with
  | nil =>
      intro st buf line h hnewline hunread hserved
      have hlt := h.lt (hserved 0 none st rfl)
      obtain ⟨st', hround, hend, hready, hgives⟩ :=
        @getdelimRound_end vmwosMalloc _ _ _ 0x0a h hlt hunread
      refine ⟨if line = [] then -1 else line.length, st', ?_, hready, ?_, ?_⟩
      · rw [List.length_nil, getdelimLoop, hround]
        rfl
      · intro hnil
        rw [List.append_nil] at hnil
        exact ⟨if_pos hnil, hend⟩
      · intro hne
        rw [List.append_nil] at hne
        refine ⟨line, by rw [hend], hne, .inr ⟨hnewline, hend⟩, ?_⟩
        rw [if_neg hne]
        exact hgives hne
  | cons c unread ih =>
      intro st buf line h hnewline hunread hserved
      have hlt := h.lt (hserved 0 none st rfl)
      -- one round is served as the first round of the loop
      have hround_served (value : Option Int) (st' : LineState)
          (hround : st.getdelimRound vmwosMalloc 0x0a = .ok (value, st')) :
          Region.Fresh maxMemory st'.use.heap.regions := by
        refine hserved 1 value st' ?_
        rw [getdelimLoop, hround]
        cases value <;> rfl
      obtain ⟨value, st', hround, hrest, hcase⟩ :=
        getdelimRound_cons h hlt hunread hround_served
      have happend : line ++ c :: unread = line ++ [c] ++ unread := by
        rw [List.append_assoc, List.singleton_append]
      have hne : line ++ [c] ≠ [] := List.append_ne_nil_of_right_ne_nil _ (List.cons_ne_nil c [])
      by_cases hc : c = 0x0a
      · rw [if_pos hc] at hcase
        obtain ⟨rfl, hgives⟩ := hcase
        refine ⟨(line ++ [c]).length, st', ?_, hgives.ready, ?_, ?_⟩
        · rw [getdelimLoop, hround]
          rfl
        · exact fun hnil => absurd hnil
            (List.append_ne_nil_of_right_ne_nil _ (List.cons_ne_nil c unread))
        · intro _
          refine ⟨line ++ [c], by rw [happend, hrest], hne, .inl ⟨line, by rw [hc], hnewline⟩,
            hgives⟩
      · rw [if_neg hc] at hcase
        obtain ⟨rfl, buf', hfilling⟩ := hcase
        have hnewline' : 0x0a ∉ line ++ [c] := by
          rw [List.mem_append, List.mem_singleton, not_or]
          exact ⟨hnewline, fun heq => hc heq.symm⟩
        have hloop (rounds : Nat) : st.getdelimLoop vmwosMalloc 0x0a (rounds + 1) =
            st'.getdelimLoop vmwosMalloc 0x0a rounds := by
          rw [getdelimLoop, hround]
          rfl
        obtain ⟨value, st₂, hrun, hfinishes⟩ := ih hfilling hnewline' hrest
          fun rounds value st₂ hrun => hserved (rounds + 1) value st₂ ((hloop rounds).trans hrun)
        refine ⟨value, st₂, (hloop _).trans hrun, ?_⟩
        obtain ⟨hready, hnothing, hline⟩ := hfinishes
        rw [← happend] at hnothing hline
        exact ⟨hready, hnothing, hline⟩

/-- A call whose allocations succeed. -/
theorem getline_finishes (h : st.Ready) (hserved : Served vmwosMalloc st) :
    ∃ value st', st.getline vmwosMalloc = .ok (value, st') ∧
      Finishes [] st.stream.unread value st' := by
  have hstart_served (value : Option Int) (st' : LineState)
      (hstart : st.getdelimStart vmwosMalloc = .ok (value, st')) :
      Region.Fresh maxMemory st'.use.heap.regions := by
    refine hserved 0 value st' ?_
    rw [getdelimRounds, hstart]
    cases value <;> rfl
  obtain ⟨buf, st₁, hstart, hfilling, hstream⟩ := getdelimStart_filling h hstart_served
  have hrounds (rounds : Nat) : st.getdelimRounds vmwosMalloc 0x0a rounds =
      st₁.getdelimLoop vmwosMalloc 0x0a rounds := by
    rw [getdelimRounds, hstart]
    rfl
  obtain ⟨value, st', hloop, hfinishes⟩ :=
    getdelimLoop_finishes hfilling List.not_mem_nil (congrArg InFile.unread hstream)
      fun rounds value st' hloop => hserved rounds value st' ((hrounds rounds).trans hloop)
  refine ⟨value, st', ?_, hfinishes⟩
  rw [getline, getdelim, hrounds, hloop]
  rfl

/-- The bytes that are given are those of the line. -/
theorem Gives.bytes {value : Int} (h : st.Gives line value) :
    bytesAt st.use.heap.memory (st.buf.getD 0) value.toNat = line ∧
      ∃ buf, st.buf = some buf ∧ st.use.heap.memory (buf + line.length) = 0 := by
  obtain ⟨buf, hbuf, hbytes⟩ := h.buf
  rw [bytesAt_succ] at hbytes
  obtain ⟨hline, hzero⟩ := List.append_inj' hbytes rfl
  refine ⟨?_, buf, hbuf, (List.cons.inj hzero).1⟩
  rw [h.value, hbuf, Int.toNat_natCast]
  exact hline

theorem Finishes.readsLine {value : Int} (h : Finishes [] st.stream.unread value st') :
    st.ReadsLine (value, bytesAt st'.use.heap.memory (st'.buf.getD 0) value.toNat) st' := by
  by_cases hunread : st.stream.unread = []
  · obtain ⟨rfl, hend⟩ := h.nothing hunread
    exact ⟨iff_of_true rfl hunread, by rw [hunread, hend]; rfl, fun hne => absurd hunread hne⟩
  · obtain ⟨whole, hsplits, hne, hends, hgives⟩ := h.line hunread
    obtain ⟨hbytes, hzero⟩ := hgives.bytes
    have hvalue : value ≠ -1 := by
      rw [hgives.value]
      omega
    rw [hbytes]
    exact ⟨iff_of_false hvalue hunread, hsplits, fun _ => ⟨hgives.value, hends, hzero⟩⟩

theorem lineStep_readsLine (h : st.Ready) (hserved : Served vmwosMalloc st) :
    ∃ answer st', lineStep vmwosMalloc st () = .ok (answer, st') ∧ st.ReadsLine answer st' ∧
      st'.Ready := by
  obtain ⟨value, st', hline, hfinishes⟩ := getline_finishes h hserved
  refine ⟨_, st', ?_, hfinishes.readsLine, hfinishes.ready⟩
  rw [lineStep, hline]
  rfl

/-! ## Calls one after the other -/

/-- What calls have returned and what is left is what there was. -/
theorem run_lineStep (calls : List Unit) : ∀ {st : LineState}, st.Ready →
    Along (lineStep vmwosMalloc) (fun st _ => Served vmwosMalloc st) st calls →
    ∃ answers st', run (lineStep vmwosMalloc) st calls = .ok (answers, st') ∧
      (answers.map Prod.snd).flatten ++ st'.stream.unread = st.stream.unread := by
  induction calls with
  | nil => exact fun {st} _ _ => ⟨[], st, rfl, rfl⟩
  | cons call calls ih =>
      intro st h hserved
      obtain ⟨answer, st₁, hstep, hreads, hready⟩ := lineStep_readsLine h hserved.1
      obtain ⟨answers, st', hrun, hsplits⟩ := ih hready (hserved.2 answer st₁ hstep)
      refine ⟨answer :: answers, st', run_cons_eq_ok.2 ⟨answer, st₁, answers, hstep, hrun, rfl⟩, ?_⟩
      rw [List.map_cons, List.flatten_cons, List.append_assoc, hsplits]
      exact hreads.splits.symm

/-- The calls of `getline`, from a buffer that is NULL on, return the lines of the file. -/
theorem getline_lossless (vmwosMalloc : Nat → UInt32) (use : HeapUse) (huse : use.WellFormed)
    (content : List UInt8) (n : Nat) (calls : List Unit)
    (hserved : Along (lineStep vmwosMalloc) (fun st _ => Served vmwosMalloc st)
      (opened use content n) calls) :
    (∃ answers st', run (lineStep vmwosMalloc) (opened use content n) calls = .ok (answers, st') ∧
      (answers.map Prod.snd).flatten ++ st'.stream.unread = content) ∧
    Throughout (lineStep vmwosMalloc) (fun st _ answer st' => st.ReadsLine answer st')
      (opened use content n) calls := by
  have hready : (opened use content n).Ready := ⟨huse, fun _ h => (nomatch h)⟩
  refine ⟨run_lineStep calls hready hserved, throughout_of_along Ready ?_ hready hserved⟩
  intro st call answer st' h hserved hstep
  obtain ⟨answer', st₁, hstep', hreads, hready⟩ := lineStep_readsLine h hserved
  obtain ⟨rfl, rfl⟩ := Prod.mk.inj (Except.ok.inj (hstep'.symm.trans hstep))
  exact ⟨hreads, hready⟩

/-- A line, and what follows it without a newline. -/
theorem getline_lossless_ab :
    (∃ answers st', run (lineStep fun _ => 64)
        (opened (HeapUse.start fun _ => 0) [0x61, 0x0a, 0x62] 0) [(), ()] = .ok (answers, st') ∧
      (answers.map Prod.snd).flatten ++ st'.stream.unread = [0x61, 0x0a, 0x62]) ∧
    Throughout (lineStep fun _ => 64) (fun st _ answer st' => st.ReadsLine answer st')
      (opened (HeapUse.start fun _ => 0) [0x61, 0x0a, 0x62] 0) [(), ()] := by
  have hserved (st : LineState) (h : ∀ rounds, ∃ value st',
      st.getdelimRounds (fun _ => 64) 0x0a rounds = .ok (value, st') ∧
        st'.use.heap.regions = [⟨64, 4112⟩]) : Served (fun _ => 64) st := by
    intro rounds value st' hrounds
    obtain ⟨value', st₁, hrounds', hregions⟩ := h rounds
    obtain ⟨rfl, rfl⟩ := Prod.mk.inj (Except.ok.inj (hrounds.symm.trans hrounds'))
    rw [hregions]
    decide
  refine getline_lossless _ _ (HeapUse.wellFormed_start _) _ _ _ ⟨hserved _ ?_, ?_⟩
  · rintro (_ | _ | rounds)
    · exact ⟨_, _, rfl, rfl⟩
    · exact ⟨_, _, rfl, rfl⟩
    · exact ⟨_, _, rfl, rfl⟩
  · intro r st hstep
    obtain ⟨rfl, rfl⟩ := Prod.mk.inj (Except.ok.inj hstep)
    refine ⟨hserved _ ?_, fun _ _ _ => trivial⟩
    rintro (_ | _ | rounds)
    · exact ⟨_, _, rfl, rfl⟩
    · exact ⟨_, _, rfl, rfl⟩
    · exact ⟨_, _, rfl, rfl⟩

end LineState

end Vmwos
