import Vmwos.Lib.Base
import Vmwos.Lib.Words
import Vmwos.Library.LinkedList
import Vmwos.Library.Region
import Vmwos.Library.Run

/-!
# The allocator of the C library

`malloc.c` keeps a list of blocks in the memory of the process: a header of 16 bytes, with the size
of the payload, the next block and the flag for a free block, and behind it the payload. A free
block that is large enough is used again as it is; otherwise `vmwos_malloc` is asked for a new
region, which goes to the end of the list. What `vmwos_malloc` returns is a parameter, by the number
of the call.
-/

set_option autoImplicit false

namespace Vmwos

open Library

/-- `META_SIZE` -/
abbrev metaSize : Nat := 16

/-- The memory of the process with `global_base`, and the regions that `vmwos_malloc` has been asked
for so far. -/
structure Heap where
  memory : Nat → UInt8
  globalBase : Option Nat
  regions : List Region

/-- A word as a pointer. -/
def pointer (n : Nat) : Option Nat := if n = 0 then none else some n

namespace Heap

/-- `block->size` -/
def blockSize (memory : Nat → UInt8) (block : Nat) : Nat := wordAt memory block

/-- `block->next` -/
def blockNext (memory : Nat → UInt8) (block : Nat) : Option Nat := pointer (wordAt memory (block + 4))

/-- `block->free` -/
def blockFree (memory : Nat → UInt8) (block : Nat) : Nat := wordAt memory (block + 8)

/-- A store to a word of a header. -/
def set (s : Heap) (location n : Nat) : Heap := { s with memory := setWord s.memory location n }

/-- A bound for the rounds of the walk: one more than there are addresses. -/
def walkRounds : Nat := 4294967297

/-- `find_free_block`, with `last` and `current`. -/
def findFreeBlock (memory : Nat → UInt8) (size : Nat) :
    Nat → Nat → Option Nat → Except Stuck (Nat × Option Nat)
  | 0, _, _ => .error .endless
  | _ + 1, last, none => .ok (last, none)
  | rounds + 1, last, some current =>
      if blockFree memory current ≠ 0 ∧ size ≤ blockSize memory current then .ok (last, some current)
      else findFreeBlock memory size rounds current (blockNext memory current)

section Malloc

variable (vmwosMalloc : Nat → UInt32)

/-- `request_space` -/
def requestSpace (last : Option Nat) (size : Nat) (s : Heap) : Option Nat × Heap :=
  let request := (vmwosMalloc s.regions.length).toNat
  let s := { s with regions := s.regions ++ [⟨request, uint32 (size + metaSize)⟩] }
  if request = 4294967295 then (none, s)
  else
    let s := match last with
      | none => s
      | some last => s.set (last + 4) request
    let s := s.set request size
    let s := s.set (request + 4) 0
    let s := s.set (request + 8) 0
    let s := s.set (request + 12) 0x12345678
    (pointer request, s)

/-- `malloc` -/
def malloc (size : Nat) (s : Heap) : Except Stuck (Option Nat × Heap) :=
  if size = 0 then .ok (none, s)
  else
    match s.globalBase with
    | none =>
        match requestSpace vmwosMalloc none size s with
        | (none, s) => .ok (none, s)
        | (some block, s) =>
            .ok (some (uint32 (block + metaSize)), { s with globalBase := some block })
    | some base =>
        match findFreeBlock s.memory size walkRounds base (some base) with
        | .error e => .error e
        | .ok (last, none) =>
            match requestSpace vmwosMalloc (some last) size s with
            | (none, s) => .ok (none, s)
            | (some block, s) => .ok (some (uint32 (block + metaSize)), s)
        | .ok (_, some block) =>
            let s := s.set (block + 8) 0
            let s := s.set (block + 12) 0x77777777
            .ok (some (uint32 (block + metaSize)), s)

/-- `free` -/
def free (ptr : Option Nat) (s : Heap) : Heap :=
  match ptr with
  | none => s
  | some ptr =>
      let s := s.set (ptr - metaSize + 8) 1
      s.set (ptr - metaSize + 12) 0x55555555

/-- `realloc` -/
def realloc (ptr : Option Nat) (size : Nat) (s : Heap) : Except Stuck (Option Nat × Heap) :=
  match ptr with
  | none => malloc vmwosMalloc size s
  | some ptr =>
      let block := ptr - metaSize
      if size ≤ blockSize s.memory block then .ok (some ptr, s)
      else
        match malloc vmwosMalloc size s with
        | .error e => .error e
        | .ok (none, s) => .ok (none, s)
        | .ok (some new, s) =>
            let data := (List.range (blockSize s.memory block)).map fun i => s.memory (ptr + i)
            .ok (some new, free (some ptr) { s with memory := memcpy s.memory new data })

end Malloc

end Heap

/-! ## A program that uses the allocator -/

/-- What a program does with its memory: it calls the allocator, or stores a byte. -/
inductive HeapCall where
  | malloc (size : Nat)
  | free (ptr : Nat)
  | realloc (ptr : Option Nat) (size : Nat)
  | store (location : Nat) (c : UInt8)

/-- The memory with the live blocks, and the bytes that have been asked for in each. -/
structure HeapUse where
  heap : Heap
  live : Nat → Option Nat

namespace HeapUse

variable (vmwosMalloc : Nat → UInt32)

/-- A block becomes live. -/
def grant (live : Nat → Option Nat) (ptr : Option Nat) (size : Nat) : Nat → Option Nat :=
  match ptr with
  | none => live
  | some ptr => Function.update live ptr (some size)

/-- A block is no longer live. -/
def revoke (live : Nat → Option Nat) (ptr : Option Nat) : Nat → Option Nat :=
  match ptr with
  | none => live
  | some ptr => Function.update live ptr none

/-- One thing that the program does. A `realloc` that returns NULL leaves the block alone. -/
def step (s : HeapUse) : HeapCall → Except Stuck (Option Nat × HeapUse)
  | .malloc size =>
      (s.heap.malloc vmwosMalloc size).map fun r => (r.1, ⟨r.2, grant s.live r.1 size⟩)
  | .free ptr => .ok (none, ⟨s.heap.free (some ptr), revoke s.live (some ptr)⟩)
  | .realloc ptr size =>
      (s.heap.realloc vmwosMalloc ptr size).map fun r =>
        (r.1, ⟨r.2, if r.1 = none then s.live else grant (revoke s.live ptr) r.1 size⟩)
  | .store location c =>
      .ok (none, ⟨{ s.heap with memory := Function.update s.heap.memory location c }, s.live⟩)

end HeapUse

end Vmwos
