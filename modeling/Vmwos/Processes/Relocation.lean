import Vmwos.Library.Region
import Vmwos.Processes.ImageMemory

/-!
# What a relocation does

A bFLT file lists words of the program, and `bflt_reloc` adds to each of them the address at which
the program has been loaded. A word is listed by its offset, which need not be aligned, and the sum
may wrap around. As the words do not overlap, a store of one round disturbs no word of another, so
the order of the table makes no difference.

`bfltReloc_relocates` says this for every file and every base, and compares two loads of a file.
-/

set_option autoImplicit false

namespace Vmwos

open Library FileBytes

/-! ## Files that list relocations -/

/-- The offset of the relocations of a file, from its header. -/
def listedStart (file : ExecutableFile) : Nat :=
  (ntohlAt (byteAt (file.read 64 0).2) bfltRelocStart).toNat

/-- The entries of a table from entry `i` on can be read, each as a word in network order. -/
def ListedFrom (file : ExecutableFile) (relocStart i : Nat) (table : List UInt32) : Prop :=
  ∀ (k : Nat) (hk : k < table.length), Readable file relocStart (i + k) ∧
    (file.read 4 (relocOffset relocStart (i + k))).2 = (wordBytes table[k].toNat).reverse

instance (file : ExecutableFile) (relocStart i : Nat) (table : List UInt32) :
    Decidable (ListedFrom file relocStart i table) :=
  inferInstanceAs (Decidable (∀ (k : Nat) (_ : k < table.length), _ ∧ _))

/-- A file with a whole header and this table of relocations. -/
structure ListsRelocs (file : ExecutableFile) (table : List UInt32) : Prop where
  readable : 0 ≤ (file.read 64 0).1
  header : (file.read 64 0).2.length = 64
  count : (ntohlAt (byteAt (file.read 64 0).2) bfltRelocCount).toNat = table.length
  entries : ListedFrom file (listedStart file) 0 table

/-- An address in none of the listed words of a program. -/
def Unlisted (table : List UInt32) (binaryAddress a : Nat) : Prop :=
  ∀ offset ∈ table, ¬ (binaryAddress + offset.toNat ≤ a ∧ a < binaryAddress + offset.toNat + 4)

/-- The base is added to every listed word, and nothing else changes. -/
structure Relocates (table : List UInt32) (binaryAddress : Nat) (before after : Nat → UInt8) :
    Prop where
  words : ∀ offset ∈ table, wordAt after (binaryAddress + offset.toNat) =
    (wordAt before (binaryAddress + offset.toNat) + binaryAddress) % 4294967296
  others : ∀ a, Unlisted table binaryAddress a → after a = before a

/-- Two images that differ in the listed words only, and there by the difference of the bases. -/
structure DifferByBase (table : List UInt32) (size : Nat) (binaryAddress binaryAddress' : Nat)
    (bytes bytes' : Nat → UInt8) : Prop where
  words : ∀ offset ∈ table,
    ((wordAt bytes' (binaryAddress' + offset.toNat) : Int) -
      wordAt bytes (binaryAddress + offset.toNat)) % 4294967296 =
        ((binaryAddress' : Int) - binaryAddress) % 4294967296
  others : ∀ i < size, Unlisted table 0 i → bytes' (binaryAddress' + i) = bytes (binaryAddress + i)

/-- The word at an offset, as a region. -/
def relocRegion (offset : UInt32) : Region := ⟨offset.toNat, 4⟩

/-! ## The loop -/

/-- What a round of `bflt_reloc` does to the word at an offset. -/
def relocWord (binaryAddress : Nat) (bytes : Nat → UInt8) (offset : UInt32) : Nat → UInt8 :=
  let location := uint32 (binaryAddress + offset.toNat)
  setWord bytes location (uint32 (wordAt bytes location + binaryAddress))

section Loop

variable {file : ExecutableFile} {binaryAddress relocStart i : Nat} {table : List UInt32}
  {relocAddr bytes : Nat → UInt8}

/-- `ntohl` of a word that has been read in network order. -/
theorem readWord_memcpy_reverse (buffer : Nat → UInt8) {n : Nat} (h : n < 4294967296) :
    Romfs.readWord (memcpy buffer 0 (wordBytes n).reverse) 0 = n := by
  have hbyte (i : Nat) (hi : i < 4) :
      memcpy buffer 0 (wordBytes n).reverse (0 + i) = byteAt (wordBytes n).reverse i :=
    memcpy_inside hi
  have h0 : memcpy buffer 0 (wordBytes n).reverse 0 = UInt8.ofNat (n >>> 24) := hbyte 0 (by decide)
  have h1 : memcpy buffer 0 (wordBytes n).reverse (0 + 1) = UInt8.ofNat (n >>> 16) :=
    hbyte 1 (by decide)
  have h2 : memcpy buffer 0 (wordBytes n).reverse (0 + 2) = UInt8.ofNat (n >>> 8) :=
    hbyte 2 (by decide)
  have h3 : memcpy buffer 0 (wordBytes n).reverse (0 + 3) = UInt8.ofNat n := hbyte 3 (by decide)
  unfold Romfs.readWord
  simp only [h0, h1, h2, h3, UInt8.toNat_ofNat', Nat.shiftRight_eq_div_pow, Nat.shiftLeft_eq]
  have hsum := bytes_sum h
  omega

theorem ListedFrom.head {offset : UInt32} (h : ListedFrom file relocStart i (offset :: table)) :
    Readable file relocStart i ∧
      Romfs.readWord (relocEntry file relocStart 0 i relocAddr) 0 = offset.toNat := by
  obtain ⟨hread, hdata⟩ := h 0 (Nat.succ_pos _)
  refine ⟨hread, ?_⟩
  simp only [Nat.add_zero, List.getElem_cons_zero] at hdata
  rw [relocEntry, hdata]
  exact readWord_memcpy_reverse relocAddr offset.toNat_lt

theorem ListedFrom.tail {offset : UInt32} (h : ListedFrom file relocStart i (offset :: table)) :
    ListedFrom file relocStart (i + 1) table := by
  intro k hk
  have hnext := h (k + 1) (Nat.succ_lt_succ hk)
  rwa [← Nat.add_assoc, Nat.add_right_comm i k 1, List.getElem_cons_succ] at hnext

/-- Every round relocates the word that its entry lists, whatever the rounds before have left in
`reloc_addr`. -/
theorem bfltRelocLoop_eq_foldl (h : ListedFrom file relocStart i table) :
    (bfltRelocLoop file binaryAddress relocStart table.length i relocAddr bytes).result = 0 ∧
      (bfltRelocLoop file binaryAddress relocStart table.length i relocAddr bytes).bytes =
        table.foldl (relocWord binaryAddress) bytes := by
  induction table generalizing i relocAddr bytes with
  | nil => exact ⟨rfl, rfl⟩
  | cons offset table ih =>
      obtain ⟨hread, hentry⟩ := @ListedFrom.head file relocStart i table relocAddr offset h
      rw [List.length_cons, bfltRelocLoop_succ, if_pos hread]
      simp only [hentry, List.foldl_cons]
      exact ih h.tail

end Loop

/-! ## Words that do not overlap -/

section Words

variable {binaryAddress size : Nat} {table table' : List UInt32} {bytes before after : Nat → UInt8}

/-- The address of a word inside the program does not wrap around. -/
theorem location_eq {offset : UInt32} (hend : binaryAddress + size ≤ 4294967296)
    (hinside : offset.toNat + 4 ≤ size) :
    uint32 (binaryAddress + offset.toNat) = binaryAddress + offset.toNat :=
  Nat.mod_eq_of_lt (by omega)

/-- One round changes one word. -/
theorem relocates_relocWord {offset : UInt32} (hend : binaryAddress + size ≤ 4294967296)
    (hinside : offset.toNat + 4 ≤ size) :
    Relocates [offset] binaryAddress bytes (relocWord binaryAddress bytes offset) := by
  constructor
  · intro offset' hmem
    obtain rfl := List.mem_singleton.1 hmem
    simp only [relocWord, location_eq hend hinside]
    exact wordAt_setWord (Nat.mod_lt _ (by decide))
  · intro a ha
    have hout := ha offset (List.mem_singleton.2 rfl)
    simp only [relocWord, location_eq hend hinside]
    exact memcpy_outside hout

/-- The words of a table that do not overlap with a listed word stay as they are. -/
theorem Relocates.wordAt_of_apart (h : Relocates table binaryAddress before after) {offset : UInt32}
    (hapart : ∀ other ∈ table, Region.Apart (relocRegion offset) (relocRegion other)) :
    wordAt after (binaryAddress + offset.toNat) = wordAt before (binaryAddress + offset.toNat) := by
  refine wordAt_congr fun i hi => h.others _ fun other hmem hin => ?_
  have hdisjoint : offset.toNat + 4 ≤ other.toNat ∨ other.toNat + 4 ≤ offset.toNat :=
    hapart other hmem
  omega

/-- The whole loop relocates the whole table: the first word is not touched by the rounds after it,
and the others have not been touched when their round comes. -/
theorem relocates_foldl (hend : binaryAddress + size ≤ 4294967296)
    (hinside : ∀ offset ∈ table, offset.toNat + 4 ≤ size)
    (hapart : table.Pairwise fun a b => Region.Apart (relocRegion a) (relocRegion b)) :
    Relocates table binaryAddress bytes (table.foldl (relocWord binaryAddress) bytes) := by
  induction table generalizing bytes with
  | nil => exact ⟨fun _ h => absurd h List.not_mem_nil, fun _ _ => rfl⟩
  | cons offset table ih =>
      obtain ⟨hfirst, hrest⟩ := List.pairwise_cons.1 hapart
      obtain ⟨hin, hins⟩ := List.forall_mem_cons.1 hinside
      have hround := @relocates_relocWord binaryAddress size bytes offset hend hin
      have htable := @ih (relocWord binaryAddress bytes offset) hins hrest
      rw [List.foldl_cons]
      constructor
      · intro other hmem
        rcases List.mem_cons.1 hmem with rfl | hlater
        · rw [htable.wordAt_of_apart hfirst]
          exact hround.words other (List.mem_singleton.2 rfl)
        · rw [htable.words other hlater, hround.wordAt_of_apart]
          intro first hsingle
          obtain rfl := List.mem_singleton.1 hsingle
          exact (hfirst other hlater).symm
      · intro a ha
        obtain ⟨hhead, htail⟩ := List.forall_mem_cons.1 ha
        rw [htable.others a htail]
        refine hround.others a fun first hsingle => ?_
        obtain rfl := List.mem_singleton.1 hsingle
        exact hhead

/-- Words that are equal have equal bytes. -/
theorem byte_eq_of_wordAt_eq {bytes' : Nat → UInt8} {location location' k : Nat} (hk : k < 4)
    (h : wordAt bytes' location' = wordAt bytes location) :
    bytes' (location' + k) = bytes (location + k) := by
  have hlt (b : Nat → UInt8) (a : Nat) : (b a).toNat < 256 := (b a).toNat_lt
  have h0 := hlt bytes location
  have h1 := hlt bytes (location + 1)
  have h2 := hlt bytes (location + 2)
  have h3 := hlt bytes (location + 3)
  have h0' := hlt bytes' location'
  have h1' := hlt bytes' (location' + 1)
  have h2' := hlt bytes' (location' + 2)
  have h3' := hlt bytes' (location' + 3)
  rw [wordAt_eq, wordAt_eq] at h
  apply UInt8.toNat_inj.1
  -- the four bytes are the digits of the word
  match k, hk with
  | 0, _ => rw [Nat.add_zero, Nat.add_zero]; omega
  | 1, _ => omega
  | 2, _ => omega
  | 3, _ => omega

/-- The memory after a relocation is determined by which words are listed. -/
theorem Relocates.unique {after' : Nat → UInt8} (h : Relocates table binaryAddress before after)
    (h' : Relocates table' binaryAddress before after') (hmem : ∀ a, a ∈ table' ↔ a ∈ table) :
    after' = after := by
  funext a
  by_cases hlisted : Unlisted table binaryAddress a
  · have hlisted' : Unlisted table' binaryAddress a := fun offset hin =>
      hlisted offset ((hmem offset).1 hin)
    rw [h.others a hlisted, h'.others a hlisted']
  · simp only [Unlisted, not_forall, not_not] at hlisted
    obtain ⟨offset, hin, hlow, hhigh⟩ := hlisted
    obtain ⟨k, rfl⟩ := Nat.exists_eq_add_of_le hlow
    refine byte_eq_of_wordAt_eq (Nat.lt_of_add_lt_add_left hhigh) ?_
    rw [h.words offset hin, h'.words offset ((hmem offset).2 hin)]

/-- The same image, relocated for two bases. -/
theorem Relocates.differByBase {binaryAddress' : Nat} {before' after' : Nat → UInt8}
    (h : Relocates table binaryAddress before after)
    (h' : Relocates table binaryAddress' before' after')
    (hinside : ∀ offset ∈ table, offset.toNat + 4 ≤ size)
    (himage : ∀ i < size, before' (binaryAddress' + i) = before (binaryAddress + i)) :
    DifferByBase table size binaryAddress binaryAddress' after after' := by
  constructor
  · intro offset hmem
    have hword : wordAt before' (binaryAddress' + offset.toNat) =
        wordAt before (binaryAddress + offset.toNat) := by
      have hin := hinside offset hmem
      have hbyte (k : Nat) (hk : k < 4) : before' (binaryAddress' + offset.toNat + k) =
          before (binaryAddress + offset.toNat + k) := by
        rw [Nat.add_assoc, Nat.add_assoc]
        exact himage _ (by omega)
      have h0 : before' (binaryAddress' + offset.toNat) = before (binaryAddress + offset.toNat) :=
        hbyte 0 (by decide)
      unfold wordAt
      rw [h0, hbyte 1 (by decide), hbyte 2 (by decide), hbyte 3 (by decide)]
    rw [h.words offset hmem, h'.words offset hmem, hword]
    omega
  · intro i hi hlisted
    have hunlisted (base : Nat) : Unlisted table base (base + i) := by
      intro offset hmem hin
      refine hlisted offset hmem ?_
      omega
    rw [h.others _ (hunlisted _), h'.others _ (hunlisted _)]
    exact himage i hi

end Words

/-! ## `bflt_reloc` -/

section Files

variable {file : ExecutableFile} {uninit : UninitStack} {binaryAddress size : Nat}
  {table : List UInt32} {bytes : Nat → UInt8} {m : MemoryState} {l : Loaded}

/-- A field of the header does not depend on what was in the buffer. -/
theorem ListsRelocs.ntohlAt_loadedHeader (h : ListsRelocs file table) (buffer : Nat → UInt8)
    {offset : Nat} (hoffset : offset + 4 ≤ 64) :
    ntohlAt (loadedHeader file buffer) offset = ntohlAt (byteAt (file.read 64 0).2) offset := by
  have hbyte (i : Nat) (hi : i < 64) :
      loadedHeader file buffer i = byteAt (file.read 64 0).2 i := by
    have hin : i < (file.read 64 0).2.length := by rwa [h.header]
    have hcopy := @memcpy_inside buffer 0 i (file.read 64 0).2 hin
    rwa [Nat.zero_add] at hcopy
  unfold ntohlAt Romfs.readWord
  rw [hbyte offset (by omega), hbyte (offset + 1) (by omega), hbyte (offset + 2) (by omega),
    hbyte (offset + 3) (by omega)]

theorem bfltReloc_eq_foldl (h : ListsRelocs file table) :
    (bfltReloc file uninit binaryAddress bytes).result = 0 ∧
      (bfltReloc file uninit binaryAddress bytes).bytes =
        table.foldl (relocWord binaryAddress) bytes := by
  have hcount : ntohlAt (loadedHeader file uninit.relocHeader) bfltRelocCount =
      ntohlAt (byteAt (file.read 64 0).2) bfltRelocCount :=
    h.ntohlAt_loadedHeader _ (by decide)
  have hstart : ntohlAt (loadedHeader file uninit.relocHeader) bfltRelocStart =
      ntohlAt (byteAt (file.read 64 0).2) bfltRelocStart :=
    h.ntohlAt_loadedHeader _ (by decide)
  rw [bfltReloc_of_le h.readable, hcount, hstart]
  split
  · rename_i hzero
    have hlength := h.count
    rw [hzero] at hlength
    obtain rfl : table = [] := List.length_eq_zero_iff.1 hlength.symm
    exact ⟨rfl, rfl⟩
  · rw [h.count]
    exact bfltRelocLoop_eq_foldl h.entries

/-- The sizes that `bflt_load` finds do not depend on what was in its variables. -/
theorem ListsRelocs.bfltLoad_snd (h : ListsRelocs file table) (uninit uninit' : UninitStack) :
    (bfltLoad file uninit).2 = (bfltLoad file uninit').2 := by
  have hsizes (uninit : UninitStack) : (bfltLoad file uninit).2 =
      ⟨ntohlAt (loadedHeader file uninit.loadHeader) bfltStackSize,
        ntohlAt (loadedHeader file uninit.loadHeader) bfltEntry,
        ntohlAt (loadedHeader file uninit.loadHeader) bfltDataStart,
        ntohlAt (loadedHeader file uninit.loadHeader) bfltBssStart,
        ntohlAt (loadedHeader file uninit.loadHeader) bfltBssEnd,
        ntohlAt (loadedHeader file uninit.loadHeader) bfltBssStart -
          ntohlAt (loadedHeader file uninit.loadHeader) bfltEntry,
        ntohlAt (loadedHeader file uninit.loadHeader) bfltBssEnd -
          ntohlAt (loadedHeader file uninit.loadHeader) bfltEntry⟩ := by
    have hnot : ¬ (file.read 64 0).1 < 0 := Int.not_lt.2 h.readable
    simp only [bfltLoad, hnot, if_false, loadedHeader]
  have hfield (offset : Nat) (hoffset : offset + 4 ≤ 64) :
      ntohlAt (loadedHeader file uninit.loadHeader) offset =
        ntohlAt (loadedHeader file uninit'.loadHeader) offset := by
    rw [h.ntohlAt_loadedHeader _ hoffset, h.ntohlAt_loadedHeader _ hoffset]
  rw [hsizes, hsizes, hfield bfltStackSize (by decide), hfield bfltEntry (by decide),
    hfield bfltDataStart (by decide), hfield bfltBssStart (by decide),
    hfield bfltBssEnd (by decide)]

/-- A block is cleared when it is allocated. -/
theorem memoryAllocate_cleared {m' : MemoryState} {type location : Nat}
    (h : memoryAllocate m size type = .ok (some location, m')) {i : Nat} (hi : i < size) :
    m'.bytes (location + i) = 0 := by
  have hcovers : i < chunksOf size * chunkSize := by
    rw [chunksOf_eq (by omega), chunkSize]
    omega
  obtain ⟨-, first, -, -, rfl⟩ := memoryAllocate_found (by omega) h
  exact if_pos ⟨Nat.le_add_right _ _, Nat.add_lt_add_left hcovers _⟩

/-- The program lies in the memory there is. -/
theorem allocateProgram_le {stackSize totalProgramSize type stackPage binaryStart : Nat}
    {m' : MemoryState} (htype : NeverNull type)
    (h : allocateProgram m stackSize totalProgramSize type =
      .ok (.ok (stackPage, binaryStart), m')) :
    binaryStart + totalProgramSize ≤ m.maxChunk * 4096 := by
  rcases allocateProgram_eq htype m stackSize totalProgramSize with
    ⟨-, herror⟩ | ⟨-, _, _, _, heq, hle⟩
  · rw [herror] at h
    cases h
  · rw [heq] at h
    cases h
    exact hle

/-- A loaded bFLT file: its part on disk over cleared memory, relocated. -/
theorem execveBflt_eq_ok {type : Nat} (htype : NeverNull type)
    (h : execveBflt m file uninit type = .ok (.ok l)) :
    l.sizes = (bfltLoad file uninit).2 ∧
      l.binaryStart + l.sizes.totalProgramSize.toNat ≤ m.maxChunk * 4096 ∧
      (∀ i < l.sizes.totalProgramSize.toNat, l.allocated.bytes (l.binaryStart + i) = 0) ∧
      l.memory.bytes = (bfltReloc file uninit l.binaryStart
        (memcpy l.allocated.bytes l.binaryStart
          (file.read l.sizes.totalOndiskSize.toNat l.sizes.textStart.toNat).2)).bytes := by
  unfold execveBflt at h
  simp only at h
  split at h
  · cases h
  · cases h
  · rename_i stackPage binaryStart m' halloc
    cases h
    obtain ⟨m₁, -, hprogram⟩ := allocateProgram_allocates halloc
    exact ⟨rfl, allocateProgram_le htype halloc, fun i hi => memoryAllocate_cleared hprogram hi, rfl⟩

end Files

/-- For a file whose relocations do not overlap and lie in the program: exactly the listed words are
changed, at every base and in any order, and two loads differ in these words only, by the difference
of the bases. -/
theorem bfltReloc_relocates {file : ExecutableFile} {table : List UInt32} {size : Nat}
    (hfile : ListsRelocs file table) (hinside : ∀ offset ∈ table, offset.toNat + 4 ≤ size)
    (hapart : table.Pairwise fun a b => Region.Apart (relocRegion a) (relocRegion b)) :
    (∀ (uninit : UninitStack) (binaryAddress : Nat) (bytes : Nat → UInt8),
      binaryAddress + size ≤ 4294967296 →
        (bfltReloc file uninit binaryAddress bytes).result = 0 ∧
        Relocates table binaryAddress bytes (bfltReloc file uninit binaryAddress bytes).bytes ∧
        ∀ (file' : ExecutableFile) (uninit' : UninitStack) (table' : List UInt32),
          ListsRelocs file' table' → table'.Perm table →
            (bfltReloc file' uninit' binaryAddress bytes).bytes =
              (bfltReloc file uninit binaryAddress bytes).bytes) ∧
    ∀ (m m' : MemoryState) (uninit uninit' : UninitStack) (l l' : Loaded),
      m.maxChunk ≤ maxMemory / chunkSize → m'.maxChunk ≤ maxMemory / chunkSize →
      execveBflt m file uninit memoryUserType = .ok (.ok l) →
      execveBflt m' file uninit' memoryUserType = .ok (.ok l') →
      l.sizes.totalProgramSize.toNat = size →
        DifferByBase table size l.binaryStart l'.binaryStart l.memory.bytes l'.memory.bytes := by
  have hrelocates : ∀ (uninit : UninitStack) (binaryAddress : Nat) (bytes : Nat → UInt8),
      binaryAddress + size ≤ 4294967296 →
        Relocates table binaryAddress bytes (bfltReloc file uninit binaryAddress bytes).bytes := by
    intro uninit binaryAddress bytes hend
    rw [(bfltReloc_eq_foldl hfile).2]
    exact relocates_foldl hend hinside hapart
  constructor
  · intro uninit binaryAddress bytes hend
    refine ⟨(bfltReloc_eq_foldl hfile).1, hrelocates uninit binaryAddress bytes hend, ?_⟩
    intro file' uninit' table' hfile' hperm
    have hinside' : ∀ offset ∈ table', offset.toNat + 4 ≤ size := fun offset hmem =>
      hinside offset (hperm.mem_iff.1 hmem)
    have hapart' : table'.Pairwise fun a b => Region.Apart (relocRegion a) (relocRegion b) :=
      (hperm.pairwise_iff fun h => h.symm).2 hapart
    refine (hrelocates uninit binaryAddress bytes hend).unique ?_ fun a => hperm.mem_iff
    rw [(bfltReloc_eq_foldl hfile').2]
    exact relocates_foldl hend hinside' hapart'
  · intro m m' uninit uninit' l l' hmax hmax' hl hl' hsize
    have hchunks : maxMemory / chunkSize = 262144 := by decide
    obtain ⟨hsizes, hbound, hcleared, hbytes⟩ := execveBflt_eq_ok neverNull_user hl
    obtain ⟨hsizes', hbound', hcleared', hbytes'⟩ := execveBflt_eq_ok neverNull_user hl'
    have hsame : l'.sizes = l.sizes := by
      rw [hsizes, hsizes', hfile.bfltLoad_snd uninit' uninit]
    rw [hsame] at hbound' hcleared' hbytes'
    rw [hsize] at hbound hbound' hcleared hcleared'
    rw [hbytes, hbytes']
    refine (hrelocates uninit l.binaryStart _ (by omega)).differByBase
      (hrelocates uninit' l'.binaryStart _ (by omega)) hinside ?_
    -- both programs hold the same bytes of the file, and zeros behind them
    intro i hi
    by_cases hdata :
        i < (file.read l.sizes.totalOndiskSize.toNat l.sizes.textStart.toNat).2.length
    · rw [memcpy_inside hdata, memcpy_inside hdata]
    · have hout (base : Nat) : ¬ (base ≤ base + i ∧ base + i < base +
          (file.read l.sizes.totalOndiskSize.toNat l.sizes.textStart.toNat).2.length) :=
        fun h => hdata (Nat.lt_of_add_lt_add_left h.2)
      rw [memcpy_outside (hout _), memcpy_outside (hout _), hcleared i hi, hcleared' i hi]

/-! ## A file with two relocations -/

/-- A bFLT file with four words of program from 64 on, and two relocations behind them. -/
def twoRelocs (a b : Nat) : ExecutableFile := fileOfBytes
  ([0x62, 0x46, 0x4c, 0x54, 0, 0, 0, 4, 0, 0, 0, 64, 0, 0, 0, 80, 0, 0, 0, 80, 0, 0, 0, 80,
    0, 0, 16, 0, 0, 0, 0, 80, 0, 0, 0, 2] ++ List.replicate 44 0xfe ++ (wordBytes a).reverse ++
    (wordBytes b).reverse)

theorem listsRelocs_twoRelocs : ListsRelocs (twoRelocs 1 9) [1, 9] ∧
    ListsRelocs (twoRelocs 9 1) [9, 1] := by
  constructor
  · exact ⟨by decide, by decide, by decide, by decide⟩
  · exact ⟨by decide, by decide, by decide, by decide⟩

/-- 32 MiB of memory, whose first 32 chunks for programs are in use. -/
def usedMemory : MemoryState := ⟨fun w => if w = 128 then 0xffffffff else 0, 8192, fun _ => 0⟩

/-- Where `allocateProgram` has put the program. -/
def programStart : Except Stuck (Except Int (Nat × Nat) × MemoryState) → Option Nat
  | .ok (.ok (_, binaryStart), _) => some binaryStart
  | _ => none

/-- A file is loaded to the memory that is found for its program. -/
theorem exists_execveBflt {m : MemoryState} {file : ExecutableFile} {uninit : UninitStack}
    {type binaryStart : Nat}
    (h : programStart (allocateProgram m (bfltLoad file uninit).2.stackSize.toNat
      (bfltLoad file uninit).2.totalProgramSize.toNat type) = some binaryStart) :
    ∃ l, execveBflt m file uninit type = .ok (.ok l) ∧ l.binaryStart = binaryStart := by
  unfold execveBflt
  simp only
  split
  · rename_i herror
    rw [herror] at h
    cases h
  · rename_i herror
    rw [herror] at h
    cases h
  · rename_i halloc
    rw [halloc] at h
    exact ⟨_, rfl, Option.some.inj h⟩

/-- Two words at odd offsets, relocated in both orders and loaded at two bases. -/
theorem bfltReloc_relocates_pair :
    Relocates [1, 9] 4096 (fun _ => 255)
        (bfltReloc (twoRelocs 1 9) zeroStack 4096 fun _ => 255).bytes ∧
      (bfltReloc (twoRelocs 9 1) zeroStack 4096 fun _ => 255).bytes =
        (bfltReloc (twoRelocs 1 9) zeroStack 4096 fun _ => 255).bytes ∧
      ∃ l l', execveBflt freeMemory (twoRelocs 1 9) zeroStack memoryUserType = .ok (.ok l) ∧
        execveBflt usedMemory (twoRelocs 1 9) zeroStack memoryUserType = .ok (.ok l') ∧
        l.binaryStart ≠ l'.binaryStart ∧
        DifferByBase [1, 9] 16 l.binaryStart l'.binaryStart l.memory.bytes l'.memory.bytes := by
  have hinside : ∀ offset ∈ ([1, 9] : List UInt32), offset.toNat + 4 ≤ 16 := by simp
  have hapart : ([1, 9] : List UInt32).Pairwise fun a b =>
      Region.Apart (relocRegion a) (relocRegion b) := by simp [Region.Apart, relocRegion]
  have hperm : ([9, 1] : List UInt32).Perm [1, 9] := by decide
  obtain ⟨hone, htwo⟩ := bfltReloc_relocates listsRelocs_twoRelocs.1 hinside hapart
  obtain ⟨-, hwords, horder⟩ := hone zeroStack 4096 (fun _ => 255) (by decide)
  have hfree : programStart (allocateProgram freeMemory
      (bfltLoad (twoRelocs 1 9) zeroStack).2.stackSize.toNat
      (bfltLoad (twoRelocs 1 9) zeroStack).2.totalProgramSize.toNat memoryUserType) =
        some 16781312 := by decide
  have hused : programStart (allocateProgram usedMemory
      (bfltLoad (twoRelocs 1 9) zeroStack).2.stackSize.toNat
      (bfltLoad (twoRelocs 1 9) zeroStack).2.totalProgramSize.toNat memoryUserType) =
        some 16912384 := by decide
  obtain ⟨l, hl, hstart⟩ := exists_execveBflt hfree
  obtain ⟨l', hl', hstart'⟩ := exists_execveBflt hused
  have hsize : l.sizes.totalProgramSize.toNat = 16 := by
    rw [(execveBflt_eq_ok neverNull_user hl).1]
    decide
  have hne : l.binaryStart ≠ l'.binaryStart := by
    rw [hstart, hstart']
    decide
  exact ⟨hwords, horder _ zeroStack _ listsRelocs_twoRelocs.2 hperm, l, l', hl, hl', hne,
    htwo _ _ _ _ l l' (by decide) (by decide) hl hl' hsize⟩

end Vmwos
