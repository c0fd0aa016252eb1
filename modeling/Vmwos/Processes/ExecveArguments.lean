import Vmwos.Lib.Base
import Vmwos.Lib.Words
import Vmwos.Library.Run
import Mathlib.Algebra.BigOperators.Group.List.Basic

/-!
# The arguments of a new program

`execve` counts the arguments, works out how long the block of pointers and strings will be, and
copies both to the top of the new stack. Beside the bytes of the memory the model keeps the
addresses that are read and those that are written, the last one first. Debugging output is left
out.

The length of the block is worked out with `strlen(argv[argc])`, the length of the string at the
null pointer, where that of the last string is meant. So address 0 is read whatever the arguments
are (`not_setsUpArguments`), and the block has the right length by chance only.
-/

set_option autoImplicit false

namespace Vmwos

open Library

/-- The number of addresses. -/
abbrev addressSpace : Nat := 4294967296

/-- Memory, with the addresses read and written so far. -/
structure TracedMemory where
  bytes : Nat → UInt8
  reads : List Nat
  writes : List Nat

namespace TracedMemory

variable (m : TracedMemory)

/-- Memory before anything is read or written. -/
def untouched (bytes : Nat → UInt8) : TracedMemory := ⟨bytes, [], []⟩

def byteAt (address : Nat) : UInt8 := m.bytes (uint32 address)

def pointerAt (address : Nat) : Nat := wordAt m.bytes (uint32 address)

def read (address : Nat) : TracedMemory := { m with reads := uint32 address :: m.reads }

def readPointer (address : Nat) : TracedMemory :=
  (((m.read address).read (address + 1)).read (address + 2)).read (address + 3)

def write (address : Nat) (c : UInt8) : TracedMemory where
  bytes := Function.update m.bytes (uint32 address) c
  reads := m.reads
  writes := uint32 address :: m.writes

def writePointer (address pointer : Nat) : TracedMemory where
  bytes := setWord m.bytes (uint32 address) pointer
  reads := m.reads
  writes := uint32 (address + 3) :: uint32 (address + 2) :: uint32 (address + 1) ::
    uint32 address :: m.writes

/-- The loop of `strlen`. -/
def strlenLoop : Nat → TracedMemory → Nat → Nat → Except Stuck (Nat × TracedMemory)
  | 0, _, _, _ => .error .endless
  | fuel + 1, m, s1, i =>
      if m.byteAt (s1 + i) = 0 then .ok (i, m.read (s1 + i))
      else strlenLoop fuel (m.read (s1 + i)) s1 (i + 1)

/-- `strlen`. With no NUL in the whole memory it does not end. -/
def strlen (s1 : Nat) : Except Stuck (Nat × TracedMemory) := strlenLoop addressSpace m s1 0

/-- The first loop of `strncpy`, from the character `i` on: the index where it ends. -/
def strncpyLoop (dest src : Nat) : Nat → Nat → TracedMemory → Nat × TracedMemory
  | 0, i, m => (i, m)
  | left + 1, i, m =>
      let m := (m.read (src + i)).write (dest + i) (m.byteAt (src + i))
      if m.byteAt (src + i) = 0 then (i, m.read (src + i))
      else strncpyLoop dest src left (i + 1) (m.read (src + i))

/-- The second loop of `strncpy`. -/
def strncpyPad (dest : Nat) : Nat → Nat → TracedMemory → TracedMemory
  | 0, _, m => m
  | left + 1, i, m => strncpyPad dest left (i + 1) (m.write (dest + i) 0)

/-- `strncpy` -/
def strncpy (dest src n : Nat) : TracedMemory :=
  let (i, m) := strncpyLoop dest src n 0 m
  strncpyPad dest (n - i) i m

/-! ## The block of the arguments -/

/-- The loop that counts the arguments. -/
def countArguments (argv : Nat) : Nat → Nat → TracedMemory → Except Stuck (Nat × TracedMemory)
  | 0, _, _ => .error .endless
  | fuel + 1, argc, m =>
      if m.pointerAt (argv + 4 * argc) = 0 then .ok (argc, m.readPointer (argv + 4 * argc))
      else countArguments argv fuel (argc + 1) (m.readPointer (argv + 4 * argc))

/-- `argv_length`, aligned: from the number of the arguments, the first and the last pointer and
the length that is taken for that of the last string. -/
def argvLength (argc first last length : Nat) : Int :=
  let argvLength := int32 (4 * (argc + 1) + ((last : Int) - first) + length + 1)
  int32 ((argvLength.tdiv 8 + 1) * 8)

/-- `argv_location` -/
def argvLocation (stackPage stackSize : Nat) (argvLength : Int) : Nat :=
  ((stackPage + stackSize - argvLength) % 4294967296).toNat

/-- The loop that copies the arguments, for `left` more of them. -/
def copyArguments (argv stackArgv : Nat) :
    Nat → Nat → Nat → TracedMemory → Except Stuck TracedMemory
  | 0, _, _, m => .ok m
  | left + 1, i, argvPtr, m =>
      let m := (m.writePointer (stackArgv + 4 * i) argvPtr).readPointer (argv + 4 * i)
      match m.strlen (m.pointerAt (argv + 4 * i)) with
      | .error e => .error e
      | .ok (n, m) =>
          let m := (m.readPointer (argv + 4 * i)).strncpy argvPtr (m.pointerAt (argv + 4 * i))
            (uint32 (n + 1))
          let m := m.readPointer (argv + 4 * i)
          match m.strlen (m.pointerAt (argv + 4 * i)) with
          | .error e => .error e
          | .ok (n, m) => copyArguments argv stackArgv left (i + 1) (uint32 (argvPtr + (n + 1))) m

/-- `execve`, where it sets up the command line arguments on the new stack: `argc`, `argv_location`
and the memory. -/
def execveArguments (stackPage stackSize argv : Nat) : Except Stuck (Nat × Nat × TracedMemory) :=
  if argv = 0 then .ok (0, uint32 (stackPage + stackSize), m)
  else
    match countArguments argv (addressSpace / 4 + 1) 0 m with
    | .error e => .error e
    | .ok (argc, m) =>
        let last := m.pointerAt (argv + 4 * argc - 4)
        let first := m.pointerAt argv
        let m := ((m.readPointer (argv + 4 * argc - 4)).readPointer argv).readPointer
          (argv + 4 * argc)
        match m.strlen (m.pointerAt (argv + 4 * argc)) with
        | .error e => .error e
        | .ok (n, m) =>
            let argvLocation := argvLocation stackPage stackSize (argvLength argc first last n)
            let argvPtr := uint32 (argvLocation + 4 * (argc + 2))
            match copyArguments argv argvLocation argc 0 argvPtr (m.write argvPtr 0) with
            | .error e => .error e
            | .ok m => .ok (argc, argvLocation, m)

end TracedMemory

/-! ## What the block is meant to be -/

/-- A string in memory, with the NUL behind it. -/
def StringAt (bytes : Nat → UInt8) (address : Nat) (string : CString) : Prop :=
  0 ∉ string ∧ address + string.length < addressSpace ∧ Stored bytes address (string ++ [0])

/-- An array of pointers to strings, with a null pointer behind it. -/
structure PointersAt (bytes : Nat → UInt8) (argv : Nat) (args : List (Nat × CString)) : Prop where
  room : argv + 4 * (args.length + 1) ≤ addressSpace
  pointer : ∀ i arg, args[i]? = some arg →
    wordAt bytes (argv + 4 * i) = arg.1 ∧ arg.1 ≠ 0 ∧ StringAt bytes arg.1 arg.2
  null : wordAt bytes (argv + 4 * args.length) = 0

/-- The block is on the stack: `argc` and the array, whose pointers lead to copies of the strings,
all that is written is in the stack and not below the array, and no copy overlaps with another one
or with the array. -/
structure BlockPlaced (stackPage stackSize : Nat) (args : List (Nat × CString))
    (argc argvLocation : Nat) (m : TracedMemory) : Prop where
  argc_eq : argc = args.length
  copies : ∃ copies : List (Nat × CString), copies.map Prod.snd = args.map Prod.snd ∧
    PointersAt m.bytes argvLocation copies ∧
    (∀ copy ∈ copies, argvLocation + 4 * (args.length + 1) ≤ copy.1) ∧
    copies.Pairwise fun copy copy' =>
      copy.1 + copy.2.length < copy'.1 ∨ copy'.1 + copy'.2.length < copy.1
  written : ∀ a ∈ m.writes, argvLocation ≤ a ∧ stackPage ≤ a ∧ a < stackPage + stackSize

/-- The block is on the stack, and only the array passed and its strings have been read. -/
structure ArgumentBlock (stackPage stackSize argv : Nat) (args : List (Nat × CString))
    (argc argvLocation : Nat) (m : TracedMemory) : Prop
    extends BlockPlaced stackPage stackSize args argc argvLocation m where
  read : ∀ a ∈ m.reads, (argv ≤ a ∧ a < argv + 4 * (args.length + 1)) ∨
    ∃ arg ∈ args, arg.1 ≤ a ∧ a ≤ arg.1 + arg.2.length

/-- `execve` puts the block on the stack, and reads only what it is passed. -/
def SetsUpArguments (stackPage stackSize argv : Nat) (args : List (Nat × CString))
    (bytes : Nat → UInt8) : Prop :=
  ∃ argc argvLocation m,
    (TracedMemory.untouched bytes).execveArguments stackPage stackSize argv =
      .ok (argc, argvLocation, m) ∧
    ArgumentBlock stackPage stackSize argv args argc argvLocation m

/-- The pointers and the strings fit in the stack. -/
def ArgumentsFit (stackSize : Nat) (args : List (Nat × CString)) : Prop :=
  4 * (args.length + 1) + (args.map fun arg => arg.2.length + 1).sum ≤ stackSize

/-! ## What is read -/

namespace TracedMemory

variable {m m' : TracedMemory}

theorem reads_subset_readPointer (address : Nat) : m.reads ⊆ (m.readPointer address).reads :=
  fun _ ha => List.mem_cons_of_mem _ (List.mem_cons_of_mem _ (List.mem_cons_of_mem _
    (List.mem_cons_of_mem _ ha)))

theorem reads_strlenLoop {fuel s1 i n : Nat} (h : strlenLoop fuel m s1 i = .ok (n, m')) :
    m.reads ⊆ m'.reads ∧ uint32 (s1 + i) ∈ m'.reads := by
  induction fuel generalizing m i with
  | zero => cases h
  | succ fuel ih =>
      rw [strlenLoop] at h
      split at h
      · cases h
        exact ⟨List.subset_cons_self _ _, List.mem_cons_self⟩
      · obtain ⟨hsub, -⟩ := ih h
        exact ⟨fun _ ha => hsub (List.mem_cons_of_mem _ ha), hsub List.mem_cons_self⟩

theorem reads_strlen {s1 n : Nat} (h : m.strlen s1 = .ok (n, m')) :
    m.reads ⊆ m'.reads ∧ uint32 s1 ∈ m'.reads := reads_strlenLoop h

theorem reads_strncpyLoop (dest src left i : Nat) (m : TracedMemory) :
    m.reads ⊆ (strncpyLoop dest src left i m).2.reads := by
  induction left generalizing i m with
  | zero => exact fun _ ha => ha
  | succ left ih =>
      simp only [strncpyLoop]
      split
      · exact fun _ ha => List.mem_cons_of_mem _ (List.mem_cons_of_mem _ ha)
      · exact fun _ ha => ih _ _ (List.mem_cons_of_mem _ (List.mem_cons_of_mem _ ha))

theorem reads_strncpyPad (dest left i : Nat) (m : TracedMemory) :
    (strncpyPad dest left i m).reads = m.reads := by
  induction left generalizing i m with
  | zero => rfl
  | succ left ih => exact ih _ _

theorem reads_strncpy (dest src n : Nat) : m.reads ⊆ (m.strncpy dest src n).reads := by
  simp only [strncpy, reads_strncpyPad]
  exact reads_strncpyLoop dest src n 0 m

/-- What has been read stays on record while the arguments are copied. -/
theorem reads_copyArguments {argv stackArgv left i argvPtr : Nat}
    (h : copyArguments argv stackArgv left i argvPtr m = .ok m') : m.reads ⊆ m'.reads := by
  induction left generalizing i argvPtr m with
  | zero =>
      cases h
      exact fun _ ha => ha
  | succ left ih =>
      simp only [copyArguments] at h
      split at h
      · cases h
      · rename_i n m₁ h₁
        split at h
        · cases h
        · rename_i n' m₂ h₂
          have hbefore := (reads_strlen h₁).1
          have hbehind := (reads_strlen h₂).1
          intro a ha
          apply ih h
          apply hbehind
          apply reads_subset_readPointer
          apply reads_strncpy
          apply reads_subset_readPointer
          apply hbefore
          apply reads_subset_readPointer
          exact ha

/-- The count ends at a null pointer. -/
theorem countArguments_null {argv fuel i argc : Nat}
    (h : countArguments argv fuel i m = .ok (argc, m')) :
    m'.bytes = m.bytes ∧ m.pointerAt (argv + 4 * argc) = 0 := by
  induction fuel generalizing i m with
  | zero => cases h
  | succ fuel ih =>
      rw [countArguments] at h
      split at h
      · rename_i hnull
        cases h
        exact ⟨rfl, hnull⟩
      · obtain ⟨hbytes, hnull⟩ := ih h
        exact ⟨hbytes, hnull⟩

/-- The string at the null pointer is read. -/
theorem zero_mem_reads {stackPage stackSize argv argc argvLocation : Nat} (hargv : argv ≠ 0)
    (h : m.execveArguments stackPage stackSize argv = .ok (argc, argvLocation, m')) :
    0 ∈ m'.reads := by
  rw [execveArguments, if_neg hargv] at h
  split at h
  · cases h
  · rename_i argc' m₁ hcount
    obtain ⟨hbytes, hnull⟩ := countArguments_null hcount
    simp only at h
    split at h
    · cases h
    · rename_i n m₂ hstrlen
      split at h
      · cases h
      · rename_i m₃ hcopy
        simp only [Except.ok.injEq, Prod.mk.injEq] at h
        obtain ⟨rfl, -, rfl⟩ := h
        apply reads_copyArguments hcopy
        have hzero : uint32 (m₁.pointerAt (argv + 4 * argc')) ∈ m₂.reads := (reads_strlen hstrlen).2
        have haddress : m₁.pointerAt (argv + 4 * argc') = 0 := by
          rw [pointerAt, hbytes]
          exact hnull
        rw [haddress] at hzero
        exact hzero

end TracedMemory

/-- Whatever the arguments are, `execve` reads what is none of them. -/
theorem not_setsUpArguments {argv : Nat} {args : List (Nat × CString)} {bytes : Nat → UInt8}
    (hargv : argv ≠ 0) (hargs : PointersAt bytes argv args) (stackPage stackSize : Nat) :
    ¬ SetsUpArguments stackPage stackSize argv args bytes := by
  rintro ⟨argc, argvLocation, m, hrun, hblock⟩
  have hzero := hblock.read 0 (TracedMemory.zero_mem_reads hargv hrun)
  rcases hzero with ⟨hle, -⟩ | ⟨arg, harg, hle, -⟩
  · exact hargv (Nat.le_zero.1 hle)
  · obtain ⟨i, hi⟩ := List.mem_iff_getElem?.1 harg
    exact (hargs.pointer i arg hi).2.1 (Nat.le_zero.1 hle)

/-- Memory that is zero but for a list of one argument, `hello`. -/
def helloBytes : Nat → UInt8 :=
  setWord (memcpy (fun _ => 0) 32768 [104, 101, 108, 108, 111]) 36864 32768

theorem helloBytes_pointersAt : PointersAt helloBytes 36864 [(32768, [104, 101, 108, 108, 111])] where
  room := by decide
  pointer := by
    intro i arg hi
    cases i with
    | zero =>
        cases hi
        refine ⟨by decide, by decide, by decide, by decide, ?_⟩
        decide
    | succ i => cases hi
  null := by decide

theorem not_setsUpArguments_hello :
    ¬ SetsUpArguments 1048576 8192 36864 [(32768, [104, 101, 108, 108, 111])] helloBytes :=
  not_setsUpArguments (by decide) helloBytes_pointersAt 1048576 8192

/-- With a zero at address 0 the block is taken to be 16 bytes long. The last two of the 18 that
are written are beyond the stack. -/
theorem setsUpArguments_beyond_stack :
    ArgumentsFit 8192 [(32768, [104, 101, 108, 108, 111])] ∧
      PointersAt helloBytes 36864 [(32768, [104, 101, 108, 108, 111])] ∧
      ¬ SetsUpArguments 1048576 8192 36864 [(32768, [104, 101, 108, 108, 111])] helloBytes := by
  refine ⟨by unfold ArgumentsFit; decide, helloBytes_pointersAt, ?_⟩
  rintro ⟨argc, argvLocation, m, hrun, hblock⟩
  have hbeyond : ((TracedMemory.untouched helloBytes).execveArguments 1048576 8192 36864).map
      (fun r => decide (1056769 ∈ r.2.2.writes)) = .ok true := by decide
  obtain ⟨r, hr, hmem⟩ := map_eq_ok.1 hbeyond
  rw [hrun] at hr
  cases hr
  have hlt := (hblock.written 1056769 (of_decide_eq_true hmem)).2.2
  exact absurd hlt (by decide)

end Vmwos
