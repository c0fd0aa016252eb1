import Vmwos.Lib.Base
import Vmwos.Library.Buffer

/-!
# The command line of the shell

`create_argv` of `userspace/shell.c` takes the string of a command apart in place. A pointer into
the string is its index, and the string is the array of its bytes up to the NUL: an access behind
it fails, as does one behind the array `arguments`. The streams have their own variables
`redirect_stdout`, `redirect_stderr` and `redirect_stdin` in the source, which differ in the
characters the operator begins with; only the first two know `>>`.
-/

set_option autoImplicit false

namespace Vmwos

open Library

namespace Shell

/-- `MAX_ARGUMENTS` -/
def maxArguments : Nat := 16

/-- The streams that can be redirected. -/
inductive Stream where
  | stdout
  | stderr
  | stdin
  deriving DecidableEq

/-- The characters an operator for a stream begins with. -/
def Stream.first : Stream → CString
  | .stdout => [0x3e]
  | .stderr => [0x32, 0x3e]
  | .stdin => [0x3c]

/-- `REDIRECT_OVERWRITE` and `REDIRECT_APPEND` -/
inductive RedirectType where
  | overwrite
  | append
  deriving DecidableEq

/-- The string, the local variables and the static ones. -/
structure ArgvState where
  string : List UInt8
  ptr : Nat
  argc : Nat
  arguments : List (Option Nat)
  redirect : Stream → Option Nat
  redirectType : Stream → RedirectType
  background : Bool
  doneWithNormalArgs : Bool

/-- A character of the string. -/
def charAt (string : List UInt8) (i : Nat) : Except Stuck UInt8 :=
  match string[i]? with
  | none => .error .badAccess
  | some c => .ok c

/-- The loop of `get_next_arg`: the argument and the new `*ptr`. -/
def getNextArgLoop (string : List UInt8) : Nat → (ptr : Nat) → Except Stuck (Option Nat × Nat)
  | 0, _ => .error .endless
  | fuel + 1, ptr => do
      let c ← charAt string ptr
      if c = 0 then .ok (none, ptr)
      else if c ≠ 0x20 then .ok (some ptr, ptr)
      else getNextArgLoop string fuel (ptr + 1)

/-- `get_next_arg` -/
def getNextArg (string : List UInt8) (ptr : Nat) : Except Stuck (Option Nat × Nat) :=
  getNextArgLoop string (string.length + 1) ptr

/-- Whether the string has some characters at an index, compared one after the other. -/
def startsWith (string : List UInt8) : CString → (i : Nat) → Except Stuck Bool
  | [], _ => .ok true
  | c :: cs, i => do
      let d ← charAt string i
      if d = c then startsWith string cs (i + 1) else .ok false

/-- Store an element of `arguments`. -/
def setArgument (st : ArgvState) (argument : Option Nat) : Except Stuck ArgvState :=
  match Buffer.store st.arguments st.argc [argument] with
  | none => .error .badAccess
  | some arguments => .ok { st with arguments := arguments }

/-- The second `>` of an operator. -/
def takeRedirectType (stream : Stream) (st : ArgvState) : Except Stuck ArgvState :=
  if stream = .stdin then .ok st
  else do
    let c ← charAt st.string st.ptr
    if c = 0x3e then
      .ok { st with
        ptr := st.ptr + 1, redirectType := Function.update st.redirectType stream .append }
    else .ok { st with redirectType := Function.update st.redirectType stream .overwrite }

/-- One of the three blocks that check for an operator. -/
def redirectBlock (stream : Stream) (st : ArgvState) : Except Stuck ArgvState := do
  let found ← startsWith st.string stream.first st.ptr
  if found then
    let st ← takeRedirectType stream { st with ptr := st.ptr + stream.first.length }
    let (target, ptr) ← getNextArg st.string st.ptr
    let st := { st with ptr := ptr, redirect := Function.update st.redirect stream target }
    let st ← setArgument st none
    .ok { st with doneWithNormalArgs := true }
  else .ok st

/-- The checks for `>`, `2>` and `<`. Each block goes on where the one before it stopped. -/
def redirectBlocks (st : ArgvState) : Except Stuck ArgvState := do
  let st ← redirectBlock .stdout st
  let st ← redirectBlock .stderr st
  redirectBlock .stdin st

/-- The loop to the end of a word. -/
def wordEndLoop (string : List UInt8) : Nat → (ptr : Nat) → Except Stuck Nat
  | 0, _ => .error .endless
  | fuel + 1, ptr => do
      let c ← charAt string ptr
      if c ≠ 0x20 ∧ c ≠ 0 then wordEndLoop string fuel (ptr + 1) else .ok ptr

/-- The end of a round: the NUL behind the word, and the argument. -/
def finishWord (nextArg : Nat) (st : ArgvState) : Except Stuck ArgvState := do
  let ptr ← wordEndLoop st.string (st.string.length + 1) st.ptr
  match Buffer.store st.string ptr [0] with
  | none => .error .badAccess
  | some string =>
      let st := { st with string := string, ptr := ptr + 1 }
      if st.doneWithNormalArgs then .ok st
      else
        let st ← setArgument st (some nextArg)
        .ok { st with argc := st.argc + 1 }

/-- A round of the loop of `create_argv`, and whether the loop goes on. -/
def argvRound (st : ArgvState) : Except Stuck (Bool × ArgvState) := do
  let (nextArg, ptr) ← getNextArg st.string st.ptr
  let st := { st with ptr := ptr }
  match nextArg with
  | none => .ok (false, st)
  | some nextArg =>
      let c ← charAt st.string st.ptr
      if c = 0x26 then
        let st ← setArgument st none
        .ok (false, { st with background := true })
      else
        let st ← redirectBlocks st
        let st ← finishWord nextArg st
        .ok (true, st)

/-- The loop of `create_argv`. -/
def argvLoop : Nat → ArgvState → Except Stuck ArgvState
  | 0, _ => .error .endless
  | fuel + 1, st => do
      let (goesOn, st) ← argvRound st
      if goesOn then argvLoop fuel st else .ok st

/-- `create_argv`: the state whose `argc` is returned. -/
def createArgv (string : List UInt8) (arguments : List (Option Nat))
    (redirectType : Stream → RedirectType) : Except Stuck ArgvState := do
  let st ← argvLoop (string.length + 1)
    { string := string, ptr := 0, argc := 0, arguments := arguments, redirect := fun _ => none
      redirectType := redirectType, background := false, doneWithNormalArgs := false }
  setArgument st none

end Shell

end Vmwos
