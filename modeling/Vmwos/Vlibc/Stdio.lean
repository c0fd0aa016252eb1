import Vmwos.Vlibc.Malloc
import Vmwos.Library.Buffer

/-!
# Reading characters and lines

`fgets`, `fgetc` and `getdelim` of `vlibc/stdio.c`. The file is what is left of its content; every
`read` succeeds, and returns 0 at the end. The buffer of `fgets` is the list of its bytes, and a
store behind it fails. A store of `getdelim` fails where it is not below the current size of the
buffer. Pointers are addresses and do not wrap, as the blocks of the allocator end below `2 ^ 32`.
-/

set_option autoImplicit false

namespace Vmwos

open Library

/-- `BUFSIZ` -/
abbrev bufSiz : Nat := 4096

/-- A stream: what is left of the file, and `eof`. -/
structure InFile where
  unread : List UInt8
  eof : Bool

/-- `read` of one byte: the result, and the byte where there is one. -/
def InFile.read (stream : InFile) : Int × UInt8 × InFile :=
  match stream.unread with
  | [] => (0, 0, stream)
  | ch :: unread => (1, ch, { stream with unread := unread })

/-- The loop of `fgets`, with the buffer and `count`. -/
def fgetsLoop (size : Int) :
    Nat → InFile → List UInt8 → Nat → Except Stuck (InFile × List UInt8 × Nat)
  | 0, _, _, _ => .error .endless
  | rounds + 1, stream, s, count =>
      match stream.read with
      | (result, ch, stream) =>
          if result < 1 then .ok (stream, s, count)
          else if size - 1 ≤ count then .ok (stream, s, count)
          else
            match Buffer.store s count [ch] with
            | none => .error .badAccess
            | some s =>
                if ch = 0x0a then .ok (stream, s, count)
                else fgetsLoop size rounds stream s (count + 1)

/-- `fgets`: whether it returns `s`, and not NULL. Every round but the last one reads a byte. -/
def fgets (s : List UInt8) (size : Int) (stream : InFile) :
    Except Stuck (Bool × List UInt8 × InFile) := do
  let (stream, s, count) ← fgetsLoop size (stream.unread.length + 1) stream s 0
  if count = 0 then .ok (false, s, stream)
  else
    match Buffer.store s (count + 1) [0] with
    | none => .error .badAccess
    | some s => .ok (true, s, stream)

/-- `fgetc` -/
def fgetc (stream : InFile) : Int × InFile :=
  match stream.read with
  | (result, ch, stream) =>
      if result = 0 then (-1, { stream with eof := true })
      else if result < 0 then (-1, stream)
      else (ch.toNat, stream)

/-- The program with its heap and the stream, `*buf` and `*n`, and `ptr` and `endptr`. -/
structure LineState where
  use : HeapUse
  stream : InFile
  buf : Option Nat
  n : Nat
  ptr : Nat
  endptr : Nat

namespace LineState

variable (vmwosMalloc : Nat → UInt32)

/-- A call of the allocator, or a store. -/
def heapCall (st : LineState) (call : HeapCall) : Except Stuck (Option Nat × LineState) :=
  (st.use.step vmwosMalloc call).map fun r => (r.1, { st with use := r.2 })

/-- `*ptr = c` -/
def setChar (st : LineState) (c : UInt8) : Except Stuck LineState :=
  match st.buf with
  | none => .error .badAccess
  | some buf =>
      if buf ≤ st.ptr ∧ st.ptr < buf + st.n then
        (st.heapCall vmwosMalloc (.store st.ptr c)).map Prod.snd
      else .error .badAccess

/-- `ptr - *buf` -/
def diff (st : LineState) : Int := int32 ((st.ptr : Int) - st.buf.getD 0)

/-- What `getdelim` does before its loop, with the value that it returns when it does. -/
def getdelimStart (st : LineState) : Except Stuck (Option Int × LineState) :=
  if st.buf = none ∨ st.n = 0 then
    match st.heapCall vmwosMalloc (.malloc bufSiz) with
    | .error e => .error e
    | .ok (none, st) => .ok (some (-1), { st with n := bufSiz, buf := none })
    | .ok (some buf, st) =>
        .ok (none, { st with n := bufSiz, buf := some buf, ptr := buf, endptr := buf + bufSiz })
  else
    let buf := st.buf.getD 0
    .ok (none, { st with ptr := buf, endptr := buf + st.n })

/-- The buffer grows when it is too small for two more characters. -/
def grow (st : LineState) : Except Stuck (Option Int × LineState) :=
  if st.endptr ≤ st.ptr + 2 then
    let newbufsize := uint32 (st.n * 2)
    let diff := st.diff
    match st.heapCall vmwosMalloc (.realloc st.buf newbufsize) with
    | .error e => .error e
    | .ok (none, st) => .ok (some (-1), st)
    | .ok (some newbuf, st) => .ok (none, { st with
        buf := some newbuf, n := newbufsize, endptr := newbuf + newbufsize
        ptr := newbuf + diff.toNat })
  else .ok (none, st)

/-- A round of the loop of `getdelim`. -/
def getdelimRound (delim : Int) (st : LineState) : Except Stuck (Option Int × LineState) :=
  match fgetc st.stream with
  | (c, stream) =>
      let st := { st with stream := stream }
      if c = -1 then
        if st.stream.eof then
          let diff := st.diff
          if diff ≠ 0 then do
            let st ← st.setChar vmwosMalloc 0
            .ok (some diff, st)
          else .ok (some (-1), st)
        else .ok (some (-1), st)
      else do
        let st ← st.setChar vmwosMalloc (UInt8.ofNat c.toNat)
        let st := { st with ptr := st.ptr + 1 }
        if c = delim then do
          let st ← st.setChar vmwosMalloc 0
          .ok (some st.diff, st)
        else st.grow vmwosMalloc

/-- The loop of `getdelim`, for some rounds or until it returns a value. -/
def getdelimLoop (delim : Int) : Nat → LineState → Except Stuck (Option Int × LineState)
  | 0, st => .ok (none, st)
  | rounds + 1, st => do
      let (value, st) ← getdelimRound vmwosMalloc delim st
      match value with
      | some value => .ok (some value, st)
      | none => getdelimLoop delim rounds st

/-- `getdelim`, as far as some rounds of its loop. -/
def getdelimRounds (delim : Int) (rounds : Nat) (st : LineState) :
    Except Stuck (Option Int × LineState) := do
  let (value, st) ← st.getdelimStart vmwosMalloc
  match value with
  | some value => .ok (some value, st)
  | none => getdelimLoop vmwosMalloc delim rounds st

/-- `getdelim`: every round but the last one reads a character. -/
def getdelim (delim : Int) (st : LineState) : Except Stuck (Int × LineState) := do
  let (value, st) ← getdelimRounds vmwosMalloc delim (st.stream.unread.length + 1) st
  match value with
  | some value => .ok (value, st)
  | none => .error .endless

/-- `getline` -/
def getline (st : LineState) : Except Stuck (Int × LineState) := st.getdelim vmwosMalloc 0x0a

end LineState

end Vmwos
