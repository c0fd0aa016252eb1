import Vmwos.Memory.Memory
import Vmwos.Fs.Romfs.Tree
import Vmwos.Lib.Words

/-!
# Loading an executable

`execve` as far as the file is read: it looks at the magic number, allocates the stack and the
program, reads the file into the program and relocates it. The file is what `file_ops->read`
delivers. Nothing in a bFLT header is checked, and the answer of `bflt_load` is not looked at; what
the variables of the three functions hold before they are set is the parameter `UninitStack`.

Beside the memory the model keeps, for every round of `bflt_reloc`, the offset that is read and the
address that is stored to. `execveLoad_contained_iff` says for which files all of it stays inside
the memory allocated for the program.
-/

set_option autoImplicit false

namespace Vmwos

open Library FileBytes

/-- `BFLT_ENTRY` -/
def bfltEntry : Nat := 0x08
/-- `BFLT_DATA_START` -/
def bfltDataStart : Nat := 0x0c
/-- `BFLT_BSS_START` -/
def bfltBssStart : Nat := 0x10
/-- `BFLT_BSS_END` -/
def bfltBssEnd : Nat := 0x14
/-- `BFLT_STACK_SIZE` -/
def bfltStackSize : Nat := 0x18
/-- `BFLT_RELOC_START` -/
def bfltRelocStart : Nat := 0x1c
/-- `BFLT_RELOC_COUNT` -/
def bfltRelocCount : Nat := 0x20

/-- `DEFAULT_USER_STACK_SIZE` -/
def defaultUserStackSize : UInt32 := 8192

/-! ## Files and memory -/

/-- An open file: the size of its inode and its `read`, which copies no more bytes than it is
asked for. -/
structure ExecutableFile where
  size : Nat
  read : (count fileOffset : Nat) → Int × List UInt8
  length_le : ∀ count fileOffset, count < 4294967296 → fileOffset < 4294967296 →
    (read count fileOffset).2.length ≤ count

/-- `ntohl` of a word of a buffer. -/
def ntohlAt (buffer : Nat → UInt8) (offset : Nat) : UInt32 :=
  UInt32.ofNat (Romfs.readWord buffer offset)

/-- What `bflt_load` finds out. -/
structure BfltSizes where
  stackSize : UInt32
  textStart : UInt32
  dataStart : UInt32
  bssStart : UInt32
  bssEnd : UInt32
  totalOndiskSize : UInt32
  totalProgramSize : UInt32

/-- The contents of the variables on the stack: `magic` and the sizes in `execve`, `bflt_header`
in `bflt_load` and in `bflt_reloc`, `reloc_addr` in `bflt_reloc`. -/
structure UninitStack where
  magic : Nat → UInt8
  sizes : BfltSizes
  loadHeader : Nat → UInt8
  relocHeader : Nat → UInt8
  relocAddr : Nat → UInt8

/-! ## The loader -/

/-- `bflt_load` -/
def bfltLoad (file : ExecutableFile) (uninit : UninitStack) : Int × BfltSizes :=
  let (result, data) := file.read 64 0
  if result < 0 then (result, uninit.sizes)
  else
    let bfltHeader := memcpy uninit.loadHeader 0 data
    let stackSize := ntohlAt bfltHeader bfltStackSize
    let textStart := ntohlAt bfltHeader bfltEntry
    let dataStart := ntohlAt bfltHeader bfltDataStart
    let bssStart := ntohlAt bfltHeader bfltBssStart
    let bssEnd := ntohlAt bfltHeader bfltBssEnd
    (0, ⟨stackSize, textStart, dataStart, bssStart, bssEnd, bssStart - textStart, bssEnd - textStart⟩)

/-- One round of the loop of `bflt_reloc`: the offset in the file and the address stored to. -/
structure RelocRound where
  fileOffset : Nat
  store : Option Nat

/-- What `bflt_reloc` does: its result, the memory, the offset of the table and the rounds of its
loop. -/
structure Relocated where
  result : Int
  bytes : Nat → UInt8
  relocStart : Nat
  rounds : List RelocRound

/-- The offset of a relocation, in unsigned arithmetic. -/
def relocOffset (relocStart i : Nat) : Nat := uint32 (relocStart + uint32 (i * 4))

/-- The loop of `bflt_reloc`. A read of fewer than 4 bytes leaves the others of `reloc_addr` as the
`ntohl` of the round before has stored them. -/
def bfltRelocLoop (file : ExecutableFile) (binaryAddress relocStart : Nat) :
    (left i : Nat) → (relocAddr bytes : Nat → UInt8) → Relocated
  | 0, _, _, bytes => ⟨0, bytes, relocStart, []⟩
  | left + 1, i, relocAddr, bytes =>
      let fileOffset := relocOffset relocStart i
      let (result, data) := file.read 4 fileOffset
      if result < 0 then ⟨-1, bytes, relocStart, [⟨fileOffset, none⟩]⟩
      else
        let relocAddr := memcpy relocAddr 0 data
        let location := uint32 (binaryAddress + Romfs.readWord relocAddr 0)
        let oldVal := wordAt bytes location
        let newVal := uint32 (oldVal + binaryAddress)
        let bytes := memcpy bytes location (wordBytes newVal)
        let rest := bfltRelocLoop file binaryAddress relocStart left (i + 1)
          (fun k => relocAddr (3 - k)) bytes
        { rest with rounds := ⟨fileOffset, some location⟩ :: rest.rounds }

/-- `bflt_reloc` -/
def bfltReloc (file : ExecutableFile) (uninit : UninitStack) (binaryAddress : Nat)
    (bytes : Nat → UInt8) : Relocated :=
  let (result, data) := file.read 64 0
  if result < 0 then ⟨result, bytes, 0, []⟩
  else
    let bfltHeader := memcpy uninit.relocHeader 0 data
    let relocCount := ntohlAt bfltHeader bfltRelocCount
    if relocCount = 0 then ⟨0, bytes, 0, []⟩
    else
      let relocStart := ntohlAt bfltHeader bfltRelocStart
      bfltRelocLoop file binaryAddress relocStart.toNat relocCount.toNat 0 uninit.relocAddr bytes

/-! ## `execve` -/

/-- `memory_free` unless the pointer is NULL. -/
def memoryFreeUnlessNull (m : MemoryState) (location : Option Nat) (size : Nat) :
    Except Stuck MemoryState :=
  match location with
  | none => .ok m
  | some location => (memoryFree m location size).map Prod.snd

/-- The test of the two pointers: an error is returned and neither block is kept when one is NULL. -/
def keepBlocks (m : MemoryState) (stackSize totalProgramSize : Nat) :
    (stackPage binaryStart : Option Nat) → Except Stuck (Except Int (Nat × Nat) × MemoryState)
  | some stackPage, some binaryStart => .ok (.ok (stackPage, binaryStart), m)
  | stackPage, binaryStart =>
      match memoryFreeUnlessNull m binaryStart totalProgramSize with
      | .error e => .error e
      | .ok m => (memoryFreeUnlessNull m stackPage stackSize).map fun m => (.error (-enomem), m)

/-- The stack and the program are allocated: their addresses, or an error. -/
def allocateProgram (m : MemoryState) (stackSize totalProgramSize type : Nat) :
    Except Stuck (Except Int (Nat × Nat) × MemoryState) :=
  match memoryAllocate m stackSize type with
  | .error e => .error e
  | .ok stack =>
      match memoryAllocate stack.2 totalProgramSize type with
      | .error e => .error e
      | .ok program => keepBlocks program.2 stackSize totalProgramSize stack.1 program.1

/-- What is done for a bFLT file: the result of `bflt_load`, the sizes stored in the process and
the relocation. -/
structure BfltDone where
  loadResult : Int
  datasize : UInt32
  bsssize : UInt32
  relocated : Relocated

/-- A program in memory, with the memory as it was allocated; `bflt` is `none` for a raw binary. -/
structure Loaded where
  stackPage : Nat
  binaryStart : Nat
  sizes : BfltSizes
  allocated : MemoryState
  memory : MemoryState
  bflt : Option BfltDone

/-- The test for the magic number `bFLT`. -/
def IsBflt (magic : Nat → UInt8) : Prop :=
  magic 0 = 0x62 ∧ magic 1 = 0x46 ∧ magic 2 = 0x4c ∧ magic 3 = 0x54

instance (magic : Nat → UInt8) : Decidable (IsBflt magic) :=
  inferInstanceAs (Decidable (_ ∧ _))

/-- The branch of `execve` for a bFLT file. -/
def execveBflt (m : MemoryState) (file : ExecutableFile) (uninit : UninitStack) (type : Nat) :
    Except Stuck (Except Int Loaded) :=
  let (loadResult, sizes) := bfltLoad file uninit
  let datasize := sizes.bssStart - sizes.dataStart
  let bsssize := sizes.bssEnd - sizes.bssStart
  match allocateProgram m sizes.stackSize.toNat sizes.totalProgramSize.toNat type with
  | .error e => .error e
  | .ok (.error result, _) => .ok (.error result)
  | .ok (.ok (stackPage, binaryStart), m) =>
      let bytes := memcpy m.bytes binaryStart
        (file.read sizes.totalOndiskSize.toNat sizes.textStart.toNat).2
      let relocated := bfltReloc file uninit binaryStart bytes
      .ok (.ok ⟨stackPage, binaryStart, sizes, m, { m with bytes := relocated.bytes },
        some ⟨loadResult, datasize, bsssize, relocated⟩⟩)

/-- The branch of `execve` for a raw binary. -/
def execveRaw (m : MemoryState) (file : ExecutableFile) (uninit : UninitStack) (type : Nat) :
    Except Stuck (Except Int Loaded) :=
  let size := UInt32.ofNat file.size
  let sizes := { uninit.sizes with
    stackSize := defaultUserStackSize, textStart := 0, totalOndiskSize := size,
    totalProgramSize := size }
  match allocateProgram m sizes.stackSize.toNat sizes.totalProgramSize.toNat type with
  | .error e => .error e
  | .ok (.error result, _) => .ok (.error result)
  | .ok (.ok (stackPage, binaryStart), m) =>
      let bytes := memcpy m.bytes binaryStart
        (file.read sizes.totalOndiskSize.toNat sizes.textStart.toNat).2
      .ok (.ok ⟨stackPage, binaryStart, sizes, m, { m with bytes := bytes }, none⟩)

/-- `execve` as far as `file_object_free`, from what `open_file_object` has returned: an error, or
the program in memory. -/
def execveLoad (m : MemoryState) (opened : Except Int ExecutableFile) (uninit : UninitStack) :
    Except Stuck (Except Int Loaded) :=
  match opened with
  | .error result => .ok (.error result)
  | .ok file =>
      if IsBflt (memcpy uninit.magic 0 (file.read 16 0).2) then
        execveBflt m file uninit memoryUserType
      else execveRaw m file uninit memoryUserType

/-! ## Containment -/

/-- The memory of the program. -/
def Loaded.Inside (l : Loaded) (start length : Nat) : Prop :=
  l.binaryStart ≤ start ∧ start + length ≤ l.binaryStart + l.sizes.totalProgramSize.toNat

/-- No difference of header fields and no offset of a relocation wraps around. -/
structure BfltDone.Exact (b : BfltDone) (sizes : BfltSizes) : Prop where
  datasize : b.datasize.toNat + sizes.dataStart.toNat = sizes.bssStart.toNat
  bsssize : b.bsssize.toNat + sizes.bssStart.toNat = sizes.bssEnd.toNat
  ondisk : 0 ≤ b.loadResult →
    sizes.totalOndiskSize.toNat + sizes.textStart.toNat = sizes.bssStart.toNat
  program : 0 ≤ b.loadResult →
    sizes.totalProgramSize.toNat + sizes.textStart.toNat = sizes.bssEnd.toNat
  offsets : ∀ i r, b.relocated.rounds[i]? = some r →
    i * 4 < 2147483648 ∧ r.fileOffset = b.relocated.relocStart + i * 4

/-- The file is read into the memory of the program, every relocation is stored in it, nothing
else changes, and the arithmetic is exact. -/
structure Loaded.Contained (l : Loaded) : Prop where
  fileRead : l.Inside l.binaryStart l.sizes.totalOndiskSize.toNat
  stores : ∀ b ∈ l.bflt, ∀ r ∈ b.relocated.rounds, ∀ s ∈ r.store, l.Inside s 4
  outside : ∀ a, ¬ l.Inside a 1 → l.memory.bytes a = l.allocated.bytes a
  exact : ∀ b ∈ l.bflt, b.Exact l.sizes

/-! ## Relocations that a file lists -/

/-- `reloc_addr` after the read of entry `i + k` of the table, when it was `relocAddr` before the
read of entry `i`. -/
def relocEntry (file : ExecutableFile) (relocStart : Nat) :
    (k i : Nat) → (relocAddr : Nat → UInt8) → Nat → UInt8
  | 0, i, relocAddr => memcpy relocAddr 0 (file.read 4 (relocOffset relocStart i)).2
  | k + 1, i, relocAddr =>
      relocEntry file relocStart k (i + 1) fun n =>
        memcpy relocAddr 0 (file.read 4 (relocOffset relocStart i)).2 (3 - n)

/-- Entry `i` of the table can be read. -/
def Readable (file : ExecutableFile) (relocStart i : Nat) : Prop :=
  0 ≤ (file.read 4 (relocOffset relocStart i)).1

instance (file : ExecutableFile) (relocStart i : Nat) : Decidable (Readable file relocStart i) :=
  inferInstanceAs (Decidable (_ ≤ _))

section Loop

variable {file : ExecutableFile} {binaryAddress relocStart left i k : Nat}
  {relocAddr bytes : Nat → UInt8}

theorem bfltRelocLoop_succ (file : ExecutableFile) (binaryAddress relocStart left i : Nat)
    (relocAddr bytes : Nat → UInt8) :
    bfltRelocLoop file binaryAddress relocStart (left + 1) i relocAddr bytes =
      if Readable file relocStart i then
        let entry := relocEntry file relocStart 0 i relocAddr
        let location := uint32 (binaryAddress + Romfs.readWord entry 0)
        let rest := bfltRelocLoop file binaryAddress relocStart left (i + 1) (fun n => entry (3 - n))
          (memcpy bytes location (wordBytes (uint32 (wordAt bytes location + binaryAddress))))
        { rest with rounds := ⟨relocOffset relocStart i, some location⟩ :: rest.rounds }
      else ⟨-1, bytes, relocStart, [⟨relocOffset relocStart i, none⟩]⟩ := by
  rw [bfltRelocLoop]
  by_cases hread : Readable file relocStart i
  · have hnot : ¬ (file.read 4 (relocOffset relocStart i)).1 < 0 := Int.not_lt.2 hread
    simp only [hnot, if_false, hread, if_true]
    rfl
  · have hneg : (file.read 4 (relocOffset relocStart i)).1 < 0 := Int.not_le.1 hread
    simp only [hneg, if_true, hread, if_false]

theorem bfltRelocLoop_relocStart :
    (bfltRelocLoop file binaryAddress relocStart left i relocAddr bytes).relocStart = relocStart := by
  induction left generalizing i relocAddr bytes with
  | zero => rfl
  | succ left ih =>
      rw [bfltRelocLoop_succ]
      split
      · exact ih
      · rfl

/-- Round `k` is made when the entries before it can be read; it stores if its own can be. -/
theorem bfltRelocLoop_round :
    (bfltRelocLoop file binaryAddress relocStart left i relocAddr bytes).rounds[k]? =
      if k < left ∧ ∀ j < k, Readable file relocStart (i + j) then
        some ⟨relocOffset relocStart (i + k),
          if Readable file relocStart (i + k) then
            some (uint32 (binaryAddress + Romfs.readWord (relocEntry file relocStart k i relocAddr) 0))
          else none⟩
      else none := by
  induction left generalizing i k relocAddr bytes with
  | zero => simp [bfltRelocLoop]
  | succ left ih =>
      rw [bfltRelocLoop_succ]
      cases k with
      | zero =>
          by_cases hread : Readable file relocStart i
          · simp [hread]
          · simp [hread]
      | succ k =>
          have hnext : ∀ j, i + 1 + j = i + (j + 1) := fun j => by omega
          by_cases hread : Readable file relocStart i
          · -- the entries before are the first one and those before it in the rest
            have hbefore : (∀ j < k + 1, Readable file relocStart (i + j)) ↔
                ∀ j < k, Readable file relocStart (i + 1 + j) := by
              simp only [Nat.forall_lt_succ_left, hnext]
              exact and_iff_right hread
            simp only [hread, if_true, List.getElem?_cons_succ, ih, hbefore, hnext,
              Nat.succ_lt_succ_iff]
            rfl
          · have hnot : ¬ ∀ j < k + 1, Readable file relocStart (i + j) :=
              fun h => hread (h 0 (Nat.succ_pos k))
            have hrounds : ¬ (k + 1 < left + 1 ∧ ∀ j < k + 1, Readable file relocStart (i + j)) :=
              fun h => hnot h.2
            rw [if_neg hrounds]
            simp [hread]

/-- Memory that no round stores to stays as it is. -/
theorem bfltRelocLoop_outside {a : Nat}
    (h : ∀ r ∈ (bfltRelocLoop file binaryAddress relocStart left i relocAddr bytes).rounds,
      ∀ s ∈ r.store, ¬ (s ≤ a ∧ a < s + 4)) :
    (bfltRelocLoop file binaryAddress relocStart left i relocAddr bytes).bytes a = bytes a := by
  induction left generalizing i relocAddr bytes with
  | zero => rfl
  | succ left ih =>
      rw [bfltRelocLoop_succ] at h ⊢
      by_cases hread : Readable file relocStart i
      · rw [if_pos hread] at h ⊢
        simp only [List.forall_mem_cons] at h
        have hfirst : ¬ _ := h.1 _ rfl
        simp only
        rw [ih h.2]
        exact if_neg hfirst
      · rw [if_neg hread]

end Loop

/-- The relocations that are reached have offsets in the file that can be computed, and those that
can be read are addresses of a word in `size` bytes. -/
def RelocsFit (file : ExecutableFile) (relocStart relocCount : Nat) (relocAddr : Nat → UInt8)
    (size : Nat) : Prop :=
  ∀ i < relocCount, (∀ j < i, Readable file relocStart j) →
    (i * 4 < 2147483648 ∧ relocStart + i * 4 < 4294967296) ∧
      (Readable file relocStart i →
        Romfs.readWord (relocEntry file relocStart i 0 relocAddr) 0 + 4 ≤ size)

theorem relocOffset_eq_iff {relocStart i : Nat} :
    i * 4 < 2147483648 ∧ relocOffset relocStart i = relocStart + i * 4 ↔
      i * 4 < 2147483648 ∧ relocStart + i * 4 < 4294967296 := by
  unfold relocOffset uint32
  constructor
  · rintro ⟨hi, heq⟩
    omega
  · rintro ⟨hi, hlt⟩
    omega

/-- An address that has wrapped around lies below the program. -/
theorem location_inside_iff {binaryAddress size address : Nat}
    (hend : binaryAddress + size ≤ 4294967296) (haddress : address < 4294967296) :
    (binaryAddress ≤ uint32 (binaryAddress + address) ∧
      uint32 (binaryAddress + address) + 4 ≤ binaryAddress + size) ↔ address + 4 ≤ size := by
  unfold uint32
  omega

/-- What the rounds of the loop do right is what the table lists. -/
theorem relocsFit_iff {file : ExecutableFile} {binaryAddress relocStart relocCount size : Nat}
    {relocAddr bytes : Nat → UInt8} (hend : binaryAddress + size ≤ 4294967296) :
    ((∀ r ∈ (bfltRelocLoop file binaryAddress relocStart relocCount 0 relocAddr bytes).rounds,
        ∀ s ∈ r.store, binaryAddress ≤ s ∧ s + 4 ≤ binaryAddress + size) ∧
      ∀ i r, (bfltRelocLoop file binaryAddress relocStart relocCount 0 relocAddr bytes).rounds[i]? =
        some r → i * 4 < 2147483648 ∧ r.fileOffset = relocStart + i * 4) ↔
      RelocsFit file relocStart relocCount relocAddr size := by
  have hround := fun k =>
    @bfltRelocLoop_round file binaryAddress relocStart relocCount 0 k relocAddr bytes
  simp only [Nat.zero_add] at hround
  have hinside := fun i => location_inside_iff hend
    (Romfs.readWord_lt (relocEntry file relocStart i 0 relocAddr) 0)
  constructor
  · rintro ⟨hstores, hoffsets⟩ i hi hbefore
    have hr := hround i
    rw [if_pos ⟨hi, hbefore⟩] at hr
    refine ⟨relocOffset_eq_iff.1 (hoffsets i _ hr), fun hread => (hinside i).1 ?_⟩
    rw [if_pos hread] at hr
    exact hstores _ (List.mem_of_getElem? hr) _ rfl
  · intro hfit
    have hlisted : ∀ i r, (bfltRelocLoop file binaryAddress relocStart relocCount 0 relocAddr
        bytes).rounds[i]? = some r → (i < relocCount ∧ ∀ j < i, Readable file relocStart j) ∧
          r = ⟨relocOffset relocStart i, if Readable file relocStart i then
            some (uint32 (binaryAddress +
              Romfs.readWord (relocEntry file relocStart i 0 relocAddr) 0)) else none⟩ := by
      intro i r hr
      rw [hround i] at hr
      split at hr
      · rename_i hreached
        exact ⟨hreached, (Option.some.inj hr).symm⟩
      · cases hr
    constructor
    · intro r hr s hs
      obtain ⟨i, hi⟩ := List.mem_iff_getElem?.1 hr
      obtain ⟨⟨hlt, hbefore⟩, rfl⟩ := hlisted i r hi
      have hread : Readable file relocStart i := by
        by_contra hno
        rw [if_neg hno] at hs
        cases hs
      rw [if_pos hread] at hs
      cases hs
      exact (hinside i).2 ((hfit i hlt hbefore).2 hread)
    · intro i r hr
      obtain ⟨⟨hlt, hbefore⟩, rfl⟩ := hlisted i r hr
      exact relocOffset_eq_iff.2 (hfit i hlt hbefore).1

/-! ## Allocating the program -/

/-- Both blocks are found. -/
def RoomFor (m : MemoryState) (stackSize totalProgramSize type : Nat) : Prop :=
  ∃ stackPage m' binaryStart m'', memoryAllocate m stackSize type = .ok (some stackPage, m') ∧
    memoryAllocate m' totalProgramSize type = .ok (some binaryStart, m'')

/-- An allocation of this type gives a block or goes wrong, and never returns NULL. -/
def NeverNull (type : Nat) : Prop :=
  ∀ m size, memoryAllocate m size type = .error .badAccess ∨
    ∃ location m', memoryAllocate m size type = .ok (some location, m') ∧
      m'.maxChunk = m.maxChunk ∧ location + size ≤ m.maxChunk * 4096

theorem neverNull_user : NeverNull memoryUserType := by
  intro m size
  have hpos : ∀ size, 0 < size → memoryAllocate m size memoryUserType = .error .badAccess ∨
      ∃ location m', memoryAllocate m size memoryUserType = .ok (some location, m') ∧
        m'.maxChunk = m.maxChunk ∧ location + size ≤ m.maxChunk * 4096 := by
    intro size h0
    have hone : (if size = 0 then 1 else size) = size := if_neg (Nat.ne_of_gt h0)
    by_cases hfound :
        findFree m.memoryMap (chunksOf size) (reservedKernel / chunkSize) m.maxChunk < 0
    · left
      simp only [memoryAllocate, hone]
      exact if_pos hfound
    · right
      have hok : ∃ location m', memoryAllocate m size memoryUserType = .ok (some location, m') := by
        simp only [memoryAllocate, hone]
        exact ⟨_, _, if_neg hfound⟩
      obtain ⟨location, m', h⟩ := hok
      obtain ⟨first, rfl, hmax, -, -, -, hstop, -⟩ := memoryAllocate_eq_some h0 h
      rw [chunksOf_eq h0, regionOf, if_neg (by decide)] at hstop
      exact ⟨_, m', h, hmax, by omega⟩
  cases size with
  | zero =>
      -- a block of no bytes is one of one byte
      have hzero : memoryAllocate m 0 memoryUserType = memoryAllocate m 1 memoryUserType := rfl
      rw [hzero]
      refine (hpos 1 Nat.one_pos).imp_right ?_
      rintro ⟨location, m', h, hmax, hle⟩
      exact ⟨location, m', h, hmax, Nat.le_of_succ_le hle⟩
  | succ size => exact hpos (size + 1) (Nat.succ_pos size)

/-- Two blocks, or the kernel clears memory that it does not own. -/
theorem allocateProgram_eq {type : Nat} (htype : NeverNull type) (m : MemoryState)
    (stackSize totalProgramSize : Nat) :
    (¬ RoomFor m stackSize totalProgramSize type ∧
        allocateProgram m stackSize totalProgramSize type = .error .badAccess) ∨
      RoomFor m stackSize totalProgramSize type ∧ ∃ stackPage binaryStart m',
        allocateProgram m stackSize totalProgramSize type = .ok (.ok (stackPage, binaryStart), m') ∧
          binaryStart + totalProgramSize ≤ m.maxChunk * 4096 := by
  unfold allocateProgram
  rcases htype m stackSize with hstack | ⟨stackPage, m', hstack, hmax, -⟩
  · left
    constructor
    · rintro ⟨stackPage, m', binaryStart, m'', hok, -⟩
      rw [hstack] at hok
      cases hok
    · rw [hstack]
  · rcases htype m' totalProgramSize with hprogram | ⟨start, m'', hprogram, -, hle⟩
    · left
      constructor
      · rintro ⟨stackPage', m₁, binaryStart, m₂, hok, hok'⟩
        rw [hstack] at hok
        cases hok
        rw [hprogram] at hok'
        cases hok'
      · rw [hstack]
        simp only [hprogram]
    · right
      refine ⟨⟨stackPage, m', start, m'', hstack, hprogram⟩, stackPage, start, m'', ?_, ?_⟩
      · rw [hstack]
        simp only [hprogram, keepBlocks]
      · rwa [hmax] at hle

/-! ## Which files stay inside -/

/-- The header a bFLT file has for `bflt_load`, with what was in the buffer before. -/
def loadedHeader (file : ExecutableFile) (buffer : Nat → UInt8) : Nat → UInt8 :=
  memcpy buffer 0 (file.read 64 0).2

/-- The sections follow each other in the header, and the relocations lie in the program. When the
header cannot be read, its fields are those that happen to be in the variables of `execve`. -/
structure SoundHeader (file : ExecutableFile) (uninit : UninitStack) (sizes : BfltSizes) : Prop where
  data_le : sizes.dataStart ≤ sizes.bssStart
  bss_le : sizes.bssStart ≤ sizes.bssEnd
  text_le : 0 ≤ (file.read 64 0).1 → sizes.textStart ≤ sizes.bssStart
  ondisk_le : (file.read 64 0).1 < 0 → sizes.totalOndiskSize ≤ sizes.totalProgramSize
  relocs : 0 ≤ (file.read 64 0).1 →
    RelocsFit file (ntohlAt (loadedHeader file uninit.relocHeader) bfltRelocStart).toNat
      (ntohlAt (loadedHeader file uninit.relocHeader) bfltRelocCount).toNat uninit.relocAddr
      (sizes.bssEnd.toNat - sizes.textStart.toNat)

/-- What `execve` takes from a file: a sound bFLT file or any other, and memory for it. -/
def Loadable (m : MemoryState) (file : ExecutableFile) (uninit : UninitStack) : Prop :=
  if IsBflt (memcpy uninit.magic 0 (file.read 16 0).2) then
    RoomFor m (bfltLoad file uninit).2.stackSize.toNat
        (bfltLoad file uninit).2.totalProgramSize.toNat memoryUserType ∧
      SoundHeader file uninit (bfltLoad file uninit).2
  else RoomFor m defaultUserStackSize.toNat (UInt32.ofNat file.size).toNat memoryUserType

/-- An unsigned difference is exact when it is not negative. -/
theorem sub_exact_iff (a b : UInt32) : (a - b).toNat + b.toNat = a.toNat ↔ b ≤ a := by
  have ha := a.toNat_lt
  have hb := b.toNat_lt
  rw [UInt32.le_iff_toNat_le, UInt32.toNat_sub]
  omega

/-- Reading the file stays inside when the program has room for what is asked for. -/
theorem fileRead_outside {file : ExecutableFile} {bytes : Nat → UInt8} {start a : Nat}
    {ondisk program text : UInt32} (hle : ondisk.toNat ≤ program.toNat)
    (ha : ¬ (start ≤ a ∧ a + 1 ≤ start + program.toNat)) :
    memcpy bytes start (file.read ondisk.toNat text.toNat).2 a = bytes a := by
  have hlen := file.length_le ondisk.toNat text.toNat ondisk.toNat_lt text.toNat_lt
  exact memcpy_outside (by omega)

section Reloc

variable {file : ExecutableFile} {uninit : UninitStack} {binaryAddress size : Nat}
  {bytes : Nat → UInt8}

theorem bfltReloc_of_neg (h : (file.read 64 0).1 < 0) :
    bfltReloc file uninit binaryAddress bytes = ⟨(file.read 64 0).1, bytes, 0, []⟩ := if_pos h

/-- With a header the loop is run over the table, which may be empty. -/
theorem bfltReloc_of_le (h : 0 ≤ (file.read 64 0).1) :
    bfltReloc file uninit binaryAddress bytes =
      if ntohlAt (loadedHeader file uninit.relocHeader) bfltRelocCount = 0 then ⟨0, bytes, 0, []⟩
      else bfltRelocLoop file binaryAddress
        (ntohlAt (loadedHeader file uninit.relocHeader) bfltRelocStart).toNat
        (ntohlAt (loadedHeader file uninit.relocHeader) bfltRelocCount).toNat 0 uninit.relocAddr
        bytes := if_neg (Int.not_lt.2 h)

theorem bfltReloc_fit_iff (hend : binaryAddress + size ≤ 4294967296) :
    ((∀ r ∈ (bfltReloc file uninit binaryAddress bytes).rounds,
        ∀ s ∈ r.store, binaryAddress ≤ s ∧ s + 4 ≤ binaryAddress + size) ∧
      ∀ i r, (bfltReloc file uninit binaryAddress bytes).rounds[i]? = some r → i * 4 < 2147483648 ∧
        r.fileOffset = (bfltReloc file uninit binaryAddress bytes).relocStart + i * 4) ↔
      (0 ≤ (file.read 64 0).1 →
        RelocsFit file (ntohlAt (loadedHeader file uninit.relocHeader) bfltRelocStart).toNat
          (ntohlAt (loadedHeader file uninit.relocHeader) bfltRelocCount).toNat uninit.relocAddr
          size) := by
  rcases lt_or_ge (file.read 64 0).1 0 with hneg | hread
  · rw [bfltReloc_of_neg hneg]
    simp [Int.not_le.2 hneg]
  · rw [bfltReloc_of_le hread]
    split
    · rename_i hzero
      rw [hzero]
      simp [RelocsFit]
    · rw [bfltRelocLoop_relocStart, relocsFit_iff hend]
      exact ⟨fun h _ => h, fun h => h hread⟩

theorem bfltReloc_outside {a : Nat}
    (h : ∀ r ∈ (bfltReloc file uninit binaryAddress bytes).rounds,
      ∀ s ∈ r.store, ¬ (s ≤ a ∧ a < s + 4)) :
    (bfltReloc file uninit binaryAddress bytes).bytes a = bytes a := by
  rcases lt_or_ge (file.read 64 0).1 0 with hneg | hread
  · rw [bfltReloc_of_neg hneg]
  · rw [bfltReloc_of_le hread] at h ⊢
    split
    · rfl
    · rename_i hcount
      rw [if_neg hcount] at h
      exact bfltRelocLoop_outside h

end Reloc

/-- A call that returns an error before allocating, or keeps to the memory of the program. -/
def KeepsInside (r : Except Stuck (Except Int Loaded)) : Prop :=
  ∃ outcome, r = .ok outcome ∧ ∀ l, outcome = .ok l → l.Contained

theorem keepsInside_ok {l : Loaded} : KeepsInside (.ok (.ok l)) ↔ l.Contained := by
  constructor
  · rintro ⟨outcome, heq, h⟩
    cases heq
    exact h l rfl
  · intro h
    exact ⟨.ok l, rfl, fun l' heq => by cases heq; exact h⟩

theorem not_keepsInside_error (e : Stuck) : ¬ KeepsInside (.error e) := by
  rintro ⟨outcome, heq, -⟩
  cases heq

section Branches

variable {m : MemoryState} {file : ExecutableFile} {uninit : UninitStack} {type : Nat}

/-- A raw binary is read to where it has room. -/
theorem execveRaw_keepsInside_iff (htype : NeverNull type) :
    KeepsInside (execveRaw m file uninit type) ↔
      RoomFor m defaultUserStackSize.toNat (UInt32.ofNat file.size).toNat type := by
  unfold execveRaw
  rcases allocateProgram_eq htype m defaultUserStackSize.toNat (UInt32.ofNat file.size).toNat with
    ⟨hno, halloc⟩ | ⟨hroom, stackPage, binaryStart, m', halloc, -⟩
  · simp only [halloc]
    exact iff_of_false (not_keepsInside_error _) hno
  · simp only [halloc]
    rw [keepsInside_ok]
    refine iff_of_true ⟨?_, ?_, ?_, ?_⟩ hroom
    · exact ⟨Nat.le_refl _, Nat.le_refl _⟩
    · intro b hb
      cases hb
    · intro a ha
      exact fileRead_outside (Nat.le_refl _) ha
    · intro b hb
      cases hb

/-- What `bflt_load` answers, and its sizes when the header can be read. -/
theorem bfltLoad_of_neg (h : (file.read 64 0).1 < 0) :
    bfltLoad file uninit = ((file.read 64 0).1, uninit.sizes) := if_pos h

theorem bfltLoad_of_le (h : 0 ≤ (file.read 64 0).1) : (bfltLoad file uninit).1 = 0 ∧
    (bfltLoad file uninit).2.totalOndiskSize =
      (bfltLoad file uninit).2.bssStart - (bfltLoad file uninit).2.textStart ∧
    (bfltLoad file uninit).2.totalProgramSize =
      (bfltLoad file uninit).2.bssEnd - (bfltLoad file uninit).2.textStart := by
  have hnot : ¬ (file.read 64 0).1 < 0 := Int.not_lt.2 h
  simp only [bfltLoad, hnot, if_false, and_self]

theorem bfltLoad_result_iff : 0 ≤ (bfltLoad file uninit).1 ↔ 0 ≤ (file.read 64 0).1 := by
  rcases lt_or_ge (file.read 64 0).1 0 with hneg | hread
  · rw [bfltLoad_of_neg hneg]
  · exact iff_of_true (Int.le_of_eq (bfltLoad_of_le hread).1.symm) hread

/-- A bFLT file stays inside exactly when its header is sound. -/
theorem contained_iff {stackPage binaryStart : Nat} {m' : MemoryState} {bytes : Nat → UInt8}
    (hbytes : bytes = memcpy m'.bytes binaryStart
      (file.read (bfltLoad file uninit).2.totalOndiskSize.toNat
        (bfltLoad file uninit).2.textStart.toNat).2)
    (hend : binaryStart + (bfltLoad file uninit).2.totalProgramSize.toNat ≤ 4294967296) :
    Loaded.Contained ⟨stackPage, binaryStart, (bfltLoad file uninit).2, m',
        { m' with bytes := (bfltReloc file uninit binaryStart bytes).bytes },
        some ⟨(bfltLoad file uninit).1,
          (bfltLoad file uninit).2.bssStart - (bfltLoad file uninit).2.dataStart,
          (bfltLoad file uninit).2.bssEnd - (bfltLoad file uninit).2.bssStart,
          bfltReloc file uninit binaryStart bytes⟩⟩ ↔
      SoundHeader file uninit (bfltLoad file uninit).2 := by
  obtain ⟨sizes, hsizes⟩ : ∃ sizes, (bfltLoad file uninit).2 = sizes := ⟨_, rfl⟩
  have hload : 0 ≤ (file.read 64 0).1 → sizes.totalOndiskSize = sizes.bssStart - sizes.textStart ∧
      sizes.totalProgramSize = sizes.bssEnd - sizes.textStart := by
    intro h
    rw [← hsizes]
    exact (bfltLoad_of_le h).2
  rw [hsizes] at hend hbytes ⊢
  have hfit := @bfltReloc_fit_iff file uninit binaryStart sizes.totalProgramSize.toNat bytes hend
  -- the size of the program, once the header is known to be sound
  have hsize : 0 ≤ (file.read 64 0).1 → sizes.textStart ≤ sizes.bssStart →
      sizes.bssStart ≤ sizes.bssEnd →
        sizes.totalOndiskSize.toNat + sizes.textStart.toNat = sizes.bssStart.toNat ∧
          sizes.totalProgramSize.toNat + sizes.textStart.toNat = sizes.bssEnd.toNat := by
    intro hread htext hbss
    rw [(hload hread).1, (hload hread).2]
    exact ⟨(sub_exact_iff _ _).2 htext, (sub_exact_iff _ _).2 (UInt32.le_trans htext hbss)⟩
  constructor
  · intro h
    have hexact := h.exact _ rfl
    have htext : 0 ≤ (file.read 64 0).1 → sizes.textStart ≤ sizes.bssStart := by
      intro hread
      have hondisk : sizes.totalOndiskSize.toNat + sizes.textStart.toNat = sizes.bssStart.toNat :=
        hexact.ondisk (bfltLoad_result_iff.2 hread)
      rw [(hload hread).1] at hondisk
      exact (sub_exact_iff _ _).1 hondisk
    have hbss : sizes.bssStart ≤ sizes.bssEnd := (sub_exact_iff _ _).1 hexact.bsssize
    refine ⟨(sub_exact_iff _ _).1 hexact.datasize, hbss, htext, ?_, ?_⟩
    · intro _
      exact UInt32.le_iff_toNat_le.2 (Nat.le_of_add_le_add_left h.fileRead.2)
    · intro hread
      have hprogram := (hsize hread (htext hread) hbss).2
      have hfits := hfit.1 ⟨h.stores _ rfl, hexact.offsets⟩ hread
      rwa [← hprogram, Nat.add_sub_cancel]
  · intro h
    have hondisk : sizes.totalOndiskSize.toNat ≤ sizes.totalProgramSize.toNat := by
      rcases lt_or_ge (file.read 64 0).1 0 with hneg | hread
      · exact UInt32.le_iff_toNat_le.1 (h.ondisk_le hneg)
      · obtain ⟨hdisk, hprogram⟩ := hsize hread (h.text_le hread) h.bss_le
        have hle := UInt32.le_iff_toNat_le.1 h.bss_le
        omega
    have hrelocs : 0 ≤ (file.read 64 0).1 →
        RelocsFit file (ntohlAt (loadedHeader file uninit.relocHeader) bfltRelocStart).toNat
          (ntohlAt (loadedHeader file uninit.relocHeader) bfltRelocCount).toNat uninit.relocAddr
          sizes.totalProgramSize.toNat := by
      intro hread
      have hprogram := (hsize hread (h.text_le hread) h.bss_le).2
      have hfits := h.relocs hread
      rwa [← hprogram, Nat.add_sub_cancel] at hfits
    obtain ⟨hstores, hoffsets⟩ := hfit.2 hrelocs
    refine ⟨⟨Nat.le_refl _, Nat.add_le_add_left hondisk _⟩, ?_, ?_, ?_⟩
    · intro b hb
      cases hb
      exact hstores
    · intro a ha
      have hstored := @bfltReloc_outside file uninit binaryStart bytes a fun r hr s hs hin =>
        ha ⟨Nat.le_trans (hstores r hr s hs).1 hin.1,
          Nat.le_trans hin.2 (hstores r hr s hs).2⟩
      show (bfltReloc file uninit binaryStart bytes).bytes a = m'.bytes a
      rw [hstored, hbytes]
      exact fileRead_outside hondisk ha
    · intro b hb
      cases hb
      refine ⟨(sub_exact_iff _ _).2 h.data_le, (sub_exact_iff _ _).2 h.bss_le, ?_, ?_, hoffsets⟩
      · intro hread
        have hread := bfltLoad_result_iff.1 hread
        exact (hsize hread (h.text_le hread) h.bss_le).1
      · intro hread
        have hread := bfltLoad_result_iff.1 hread
        exact (hsize hread (h.text_le hread) h.bss_le).2

theorem execveBflt_keepsInside_iff (htype : NeverNull type) (hmem : m.maxChunk ≤ maxMemory / chunkSize) :
    KeepsInside (execveBflt m file uninit type) ↔
      RoomFor m (bfltLoad file uninit).2.stackSize.toNat
          (bfltLoad file uninit).2.totalProgramSize.toNat type ∧
        SoundHeader file uninit (bfltLoad file uninit).2 := by
  unfold execveBflt
  rcases allocateProgram_eq htype m (bfltLoad file uninit).2.stackSize.toNat
    (bfltLoad file uninit).2.totalProgramSize.toNat with
    ⟨hno, halloc⟩ | ⟨hroom, stackPage, binaryStart, m', halloc, hle⟩
  · simp only [halloc]
    exact iff_of_false (not_keepsInside_error _) fun h => hno h.1
  · have hchunks : maxMemory / chunkSize = 262144 := by decide
    simp only [halloc]
    rw [keepsInside_ok, contained_iff rfl (by omega)]
    exact (and_iff_right hroom).symm

end Branches

/-- `execve` keeps to the memory it has allocated exactly for the files that are loadable. The
chunks do not exceed what `memory_init` accepts. -/
theorem execveLoad_keepsInside_iff {m : MemoryState} (hmem : m.maxChunk ≤ maxMemory / chunkSize)
    (opened : Except Int ExecutableFile) (uninit : UninitStack) :
    KeepsInside (execveLoad m opened uninit) ↔
      ∀ file, opened = .ok file → Loadable m file uninit := by
  cases opened with
  | error result =>
      refine iff_of_true ⟨.error result, rfl, ?_⟩ ?_
      · intro l hl
        cases hl
      · intro file hfile
        cases hfile
  | ok file =>
      have hone : (∀ f, Except.ok file = (.ok f : Except Int ExecutableFile) → Loadable m f uninit) ↔
          Loadable m file uninit := by
        constructor
        · intro h
          exact h file rfl
        · intro h f hf
          cases hf
          exact h
      rw [hone, execveLoad, Loadable]
      split
      · exact execveBflt_keepsInside_iff neverNull_user hmem
      · exact execveRaw_keepsInside_iff neverNull_user

/-! ## Two files -/

/-- A file of given contents. -/
def fileOfBytes (contents : FileBytes) : ExecutableFile where
  size := contents.length
  read count fileOffset := ((FileBytes.read contents fileOffset count).length,
    FileBytes.read contents fileOffset count)
  length_le count fileOffset _ _ := by
    rw [FileBytes.length_read]
    exact Nat.min_le_left _ _

/-- A bFLT file with four words of program from 64 on, without bss, and one relocation behind
them. -/
def bfltFile (reloc : Nat) : ExecutableFile := fileOfBytes
  ([0x62, 0x46, 0x4c, 0x54, 0, 0, 0, 4, 0, 0, 0, 64, 0, 0, 0, 80, 0, 0, 0, 80, 0, 0, 0, 80,
    0, 0, 16, 0, 0, 0, 0, 80, 0, 0, 0, 1] ++ List.replicate 44 0 ++ (wordBytes reloc).reverse)

/-- Variables that hold zeros. -/
def zeroStack : UninitStack :=
  ⟨fun _ => 0, ⟨0, 0, 0, 0, 0, 0, 0⟩, fun _ => 0, fun _ => 0, fun _ => 0⟩

/-- 32 MiB of free memory. -/
def freeMemory : MemoryState := ⟨fun _ => 0, 8192, fun _ => 0⟩

theorem freeMemory_roomFor : RoomFor freeMemory 4096 16 memoryUserType := by
  have hok : (allocateProgram freeMemory 4096 16 memoryUserType).isOk = true := by decide
  rcases allocateProgram_eq neverNull_user freeMemory 4096 16 with ⟨-, herror⟩ | ⟨hroom, -⟩
  · rw [herror] at hok
    cases hok
  · exact hroom

/-- A relocation of the last word. -/
theorem execveLoad_keepsInside_bfltFile :
    KeepsInside (execveLoad freeMemory (.ok (bfltFile 12)) zeroStack) := by
  have hmem : freeMemory.maxChunk ≤ maxMemory / chunkSize := by decide
  refine (execveLoad_keepsInside_iff hmem _ _).2 fun file hfile => ?_
  cases hfile
  rw [Loadable, if_pos (by decide)]
  refine ⟨freeMemory_roomFor, by decide, by decide, by decide,
    by decide, fun _ i hi _ => ?_⟩
  have hcount : (ntohlAt (loadedHeader (bfltFile 12) zeroStack.relocHeader) bfltRelocCount).toNat =
      1 := by decide
  rw [hcount] at hi
  obtain rfl : i = 0 := Nat.lt_one_iff.1 hi
  decide

/-- A relocation 4 KiB behind the start of the 16 bytes of the program. -/
theorem not_keepsInside : ¬ ∀ (m : MemoryState) (opened : Except Int ExecutableFile)
    (uninit : UninitStack), m.maxChunk ≤ maxMemory / chunkSize →
      KeepsInside (execveLoad m opened uninit) := by
  intro hall
  have hmem : freeMemory.maxChunk ≤ maxMemory / chunkSize := by decide
  have h := hall freeMemory (.ok (bfltFile 4096)) zeroStack hmem
  rw [execveLoad, if_pos (by decide)] at h
  have hsound := ((execveBflt_keepsInside_iff neverNull_user hmem).1 h).2
  have hreadable : 0 ≤ ((bfltFile 4096).read 64 0).1 := by decide
  have hcount : 0 < (ntohlAt (loadedHeader (bfltFile 4096) zeroStack.relocHeader)
      bfltRelocCount).toNat := by decide
  have hfit := (hsound.relocs hreadable 0 hcount fun j hj => absurd hj (Nat.not_lt_zero j)).2
    (by decide)
  revert hfit
  decide

end Vmwos
