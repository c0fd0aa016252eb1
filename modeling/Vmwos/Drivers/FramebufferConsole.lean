import Vmwos.Lib.Printk
import Vmwos.Library.Run

/-!
# The console on the framebuffer

`framebuffer_console_write` takes its bytes through a parser of escape sequences with four states.
The diagnostics of the parser go through `printk` and `console_write` back into the same function:
`write` has a bound on how deep these calls are nested, and a call that needs more is endless.
`write_mono` says that the bound does not matter otherwise.

The screen has 80 columns and 35 rows. Drawing the characters and refreshing the screen do not
touch the console and are left out, as are the serial line and the log, which get the diagnostics
too.
-/

set_option autoImplicit false

namespace Vmwos

open Library Format

/-- `ansi_state` -/
inductive AnsiState where
  | normal
  | escape
  | number
  | complete
  deriving DecidableEq, Repr

/-- `ANSI_DEFAULT` -/
def ansiDefault : UInt32 := 0xffffffff

/-- The state of `framebuffer_console.c`, with the lock of `console_write` and the cells that have
been written so far, by column and row. -/
structure FramebufferConsole where
  textConsole : Nat → UInt8
  textColor : Nat → UInt8
  consoleX : Int
  consoleY : Int
  foreColor : UInt32
  backColor : UInt32
  foreBright : UInt32
  numbers : Nat → UInt32
  whichNumber : Int
  ansiState : AnsiState
  ansiCommand : UInt8
  initialized : Bool
  lockingEnabled : Bool
  printMutex : Bool
  written : List (Int × Int)

namespace FramebufferConsole

/-- The state at boot. -/
def boot : FramebufferConsole where
  textConsole := fun _ => 0
  textColor := fun _ => 0
  consoleX := 0
  consoleY := 0
  foreColor := 0xffffff
  backColor := 0
  foreBright := 0
  numbers := fun _ => 0
  whichNumber := -1
  ansiState := .normal
  ansiCommand := 0
  initialized := false
  lockingEnabled := false
  printMutex := false
  written := []

/-- All cells of the screen. -/
def screenCells : List (Int × Int) :=
  (List.range 35).flatMap fun (y : Nat) =>
    (List.range 80).map fun (x : Nat) => ((x : Int), (y : Int))

/-- `framebuffer_console_clear` -/
def clear (s : FramebufferConsole) : FramebufferConsole :=
  { s with
    textConsole := fun i => if i < 2800 then 32 else s.textConsole i
    textColor := fun i => if i < 2800 then 7 else s.textColor i
    written := s.written ++ screenCells }

/-- `framebuffer_console_home` -/
def home (s : FramebufferConsole) : FramebufferConsole := { s with consoleX := 0, consoleY := 0 }

/-- `framebuffer_console_init` -/
def init (s : FramebufferConsole) : FramebufferConsole := { s.clear.home with initialized := true }

/-! ## The parser -/

/-- A character that is shown. -/
def putChar (s : FramebufferConsole) (ch : UInt8) : Except Stuck FramebufferConsole :=
  let i := int32 (s.consoleX + s.consoleY * 80)
  if 0 ≤ i ∧ i < 2800 then
    .ok { s with
      textConsole := Function.update s.textConsole i.toNat ch
      textColor := Function.update s.textColor i.toNat
        (s.backColor <<< 4 ||| (s.foreColor &&& 0xf)).toUInt8
      consoleX := int32 (s.consoleX + 1)
      written := s.written ++ [(s.consoleX, s.consoleY)] }
  else .error .badAccess

/-- `ANSI_STATE_NORMAL` -/
def normal (s : FramebufferConsole) (ch : UInt8) : Except Stuck FramebufferConsole :=
  if ch = 13 then .ok s
  else if ch = 10 then .ok { s with consoleX := 0, consoleY := int32 (s.consoleY + 1) }
  else if ch = 9 then .ok { s with consoleX := int32 (s.consoleX + 8) / 8 * 8 }
  else if ch = 8 then
    .ok { s with consoleX := if int32 (s.consoleX - 1) < 0 then 0 else int32 (s.consoleX - 1) }
  else if ch = 27 then .ok { s with ansiState := .escape }
  else s.putChar ch

/-- `ANSI_STATE_ESCAPE` -/
def escape (s : FramebufferConsole) (ch : UInt8) : FramebufferConsole :=
  if ch = 91 then
    { s with
      whichNumber := -1
      numbers := Function.update s.numbers 0 ansiDefault
      ansiState := .number }
  else { s with ansiState := .normal }

/-- A store to `numbers[which_number]`. -/
def setNumber (s : FramebufferConsole) (n : UInt32) : Except Stuck FramebufferConsole :=
  if 0 ≤ s.whichNumber ∧ s.whichNumber < 10 then
    .ok { s with numbers := Function.update s.numbers s.whichNumber.toNat n }
  else .error .badAccess

/-- `"ANSI: Too many numbers!\n"` -/
def tooManyText : CString :=
  [65, 78, 83, 73, 58, 32, 84, 111, 111, 32, 109, 97, 110, 121, 32, 110, 117, 109, 98, 101, 114,
    115, 33, 10]

/-- `"ANSI: unknown clear %d\n"` -/
def unknownClearText : CString :=
  [65, 78, 83, 73, 58, 32, 117, 110, 107, 110, 111, 119, 110, 32, 99, 108, 101, 97, 114, 32, 37,
    100, 10]

/-- `"Unknown ansi command \'%c\'"` -/
def unknownCommandText : CString :=
  [85, 110, 107, 110, 111, 119, 110, 32, 97, 110, 115, 105, 32, 99, 111, 109, 109, 97, 110, 100,
    32, 39, 37, 99, 39]

section Step

variable (printk : CString → List Arg → FramebufferConsole → Except Stuck FramebufferConsole)

/-- `ANSI_STATE_NUMBER`: true when the `break` is taken, which ends the call. -/
def number (s : FramebufferConsole) (ch : UInt8) : Except Stuck (Bool × FramebufferConsole) :=
  if ch < 48 ∨ 57 < ch then
    if ch = 59 then
      let s := { s with whichNumber := int32 (s.whichNumber + 1) }
      if s.whichNumber = 10 then
        (printk tooManyText [] { s with ansiState := .normal }).map fun s => (true, s)
      else (s.setNumber 0).map fun s => (false, s)
    else
      .ok (false, { s with
        whichNumber := int32 (s.whichNumber + 1), ansiCommand := ch, ansiState := .complete })
  else
    let s :=
      if s.whichNumber = -1 then
        { s with whichNumber := 0, numbers := Function.update s.numbers 0 0 }
      else s
    (s.setNumber (s.numbers s.whichNumber.toNat * 10 + (ch.toUInt32 - 48))).map fun s => (false, s)

/-! ## The commands -/

/-- `distance` -/
def distance (s : FramebufferConsole) : Int :=
  if s.numbers 0 = ansiDefault then 1 else int32 (s.numbers 0).toNat

/-- A number of the command `m`. -/
def color (s : FramebufferConsole) (n : UInt32) : FramebufferConsole :=
  let s := if n = 0 ∨ n = ansiDefault then
    { s with foreColor := 7, backColor := 0, foreBright := 0 } else s
  let s := if n = 1 then { s with foreBright := 1, foreColor := s.foreColor ||| 8 } else s
  let s := if 30 ≤ n ∧ n ≤ 37 then
    { s with foreColor := (n - 30 : UInt32) ||| s.foreBright <<< (3 : UInt32) } else s
  if 40 ≤ n ∧ n ≤ 47 then { s with backColor := n - 40 } else s

/-- The loop over the numbers of the command `m`, `n` more rounds from `c` on. -/
def colorLoop : Nat → Nat → FramebufferConsole → Except Stuck FramebufferConsole
  | 0, _, s => .ok s
  | n + 1, c, s =>
      if c < 10 then colorLoop n (c + 1) (s.color (s.numbers c)) else .error .badAccess

/-- The command `H`. -/
def gotoXY (s : FramebufferConsole) : FramebufferConsole :=
  if s.numbers 0 = ansiDefault then { s with consoleX := 0, consoleY := 0 }
  else if s.whichNumber = 0 then { s with consoleY := int32 (s.numbers 0 - 1).toNat }
  else
    { s with
      consoleY := int32 (s.numbers 0 - 1).toNat
      consoleX := int32 (s.numbers 1 - 1).toNat }

/-- The switch over `ansi_command`. -/
def command (s : FramebufferConsole) : Except Stuck FramebufferConsole :=
  if s.ansiCommand = 65 then .ok { s with consoleY := int32 (s.consoleY - s.distance) }
  else if s.ansiCommand = 66 then .ok { s with consoleY := int32 (s.consoleY + s.distance) }
  else if s.ansiCommand = 67 then .ok { s with consoleX := int32 (s.consoleX + s.distance) }
  else if s.ansiCommand = 68 then .ok { s with consoleX := int32 (s.consoleX - s.distance) }
  else if s.ansiCommand = 72 then .ok s.gotoXY
  else if s.ansiCommand = 74 then
    if s.numbers 0 = 2 then .ok s.clear.home
    else printk unknownClearText [.word (s.numbers 0)] s
  else if s.ansiCommand = 109 then colorLoop s.whichNumber.toNat 0 s
  else printk unknownCommandText [.word s.ansiCommand.toUInt32] s

/-- `ANSI_STATE_COMPLETE` -/
def execute (s : FramebufferConsole) : Except Stuck FramebufferConsole :=
  (s.command printk).map fun s => { s with whichNumber := -1, ansiState := .normal }

/-! ## A byte -/

/-- The screen moves up by a line. -/
def scroll (s : FramebufferConsole) : FramebufferConsole :=
  { s with
    textConsole := fun i =>
      if i < 2720 then s.textConsole (i + 80) else if i < 2800 then 32 else s.textConsole i
    textColor := fun i =>
      if i < 2720 then s.textColor (i + 80) else if i < 2800 then 7 else s.textColor i
    written := s.written ++ screenCells }

/-- The bounds check behind every byte. -/
def boundsCheck (s : FramebufferConsole) : FramebufferConsole :=
  let s := if s.consoleX < 0 then { s with consoleX := 0 } else s
  let s := if s.consoleY < 0 then { s with consoleY := 0 } else s
  let s :=
    if s.consoleX ≥ 80 then
      { s with consoleX := s.consoleX % 80, consoleY := int32 (s.consoleY + 1) }
    else s
  if s.consoleY ≥ 35 then { s.scroll with consoleY := s.consoleY - 1 } else s

/-- What the state of the parser says about a byte. -/
def parse (s : FramebufferConsole) (ch : UInt8) : Except Stuck (Bool × FramebufferConsole) :=
  match s.ansiState with
  | .normal => (s.normal ch).map fun s => (false, s)
  | .escape => .ok (false, s.escape ch)
  | .number => s.number printk ch
  | .complete => .ok (false, s)

/-- A round of the loop over the buffer: true when the `break` is taken. -/
def step (s : FramebufferConsole) (ch : UInt8) : Except Stuck (Bool × FramebufferConsole) :=
  match s.parse printk ch with
  | .error e => .error e
  | .ok (true, s) => .ok (true, s)
  | .ok (false, s) =>
      if s.ansiState = .complete then (s.execute printk).map fun s => (false, s.boundsCheck)
      else .ok (false, s.boundsCheck)

/-- The loop over the buffer: true when it is left by the `break`. The end of the buffer is only
looked for behind a byte. -/
def writeLoop : FramebufferConsole → List UInt8 → Except Stuck (Bool × FramebufferConsole)
  | _, [] => .error .badAccess
  | s, ch :: buffer =>
      match s.step printk ch with
      | .error e => .error e
      | .ok (true, s) => .ok (true, s)
      | .ok (false, s) => if buffer = [] then .ok (false, s) else writeLoop s buffer

end Step

/-! ## A call -/

/-- `console_write`, around a function for the framebuffer. -/
def consoleWrite (write : FramebufferConsole → List UInt8 → Except Stuck (Int × FramebufferConsole))
    (buf : List UInt8) (s : FramebufferConsole) : Except Stuck FramebufferConsole :=
  if s.lockingEnabled then
    if s.printMutex then .error .endless
    else (write { s with printMutex := true } buf).map fun r => { r.2 with printMutex := false }
  else (write s buf).map Prod.snd

/-- `printk` -/
def printk (write : FramebufferConsole → List UInt8 → Except Stuck (Int × FramebufferConsole))
    (string : CString) (args : List Arg) (s : FramebufferConsole) :
    Except Stuck FramebufferConsole :=
  match Printk.vsnprintf 256 string args fun _ => 0 with
  | .error e => .error e
  | .ok (result, buffer) => consoleWrite write ((List.range result.toNat).map buffer) s

/-- `framebuffer_console_write`, with at most so many calls inside each other. -/
def write (depth : Nat) (s : FramebufferConsole) (buffer : List UInt8) :
    Except Stuck (Int × FramebufferConsole) :=
  if s.initialized then
    match depth with
    | 0 => .error .endless
    | depth + 1 => (s.writeLoop (printk (write depth)) buffer).map fun r => (0, r.2)
  else .ok (-enodev, s)

/-! ## The parser by itself -/

/-- The state of the parser. -/
def parser (s : FramebufferConsole) : AnsiState × Int := (s.ansiState, s.whichNumber)

/-- The state of the parser behind a byte, none when there are too many numbers. -/
def parserNext : AnsiState × Int → UInt8 → Option (AnsiState × Int)
  | (.normal, n), ch => some (if ch = 27 then .escape else .normal, n)
  | (.escape, n), ch => some (if ch = 91 then (.number, -1) else (.normal, n))
  | (.number, n), ch =>
      if ch < 48 ∨ 57 < ch then
        if ch = 59 then if int32 (n + 1) = 10 then none else some (.number, int32 (n + 1))
        else some (.normal, -1)
      else some (.number, if n = -1 then 0 else n)
  | (.complete, _), _ => some (.normal, -1)

/-- The state of the parser behind a text, none when there are too many numbers. -/
def parserRun : AnsiState × Int → List UInt8 → Option (AnsiState × Int)
  | q, [] => some q
  | q, ch :: text => (parserNext q ch).bind fun q => parserRun q text

variable {p p' : CString → List Arg → FramebufferConsole → Except Stuck FramebufferConsole}
  {s s' : FramebufferConsole} {ch : UInt8} {stop : Bool}

/-- The bounds check changes the cursor and the screen. -/
theorem boundsCheck_frame (s : FramebufferConsole) : ∃ x y text color cells,
    s.boundsCheck = { s with
      consoleX := x, consoleY := y, textConsole := text, textColor := color, written := cells } := by
  unfold boundsCheck
  dsimp only
  split_ifs <;> exact ⟨_, _, _, _, _, rfl⟩

theorem parser_boundsCheck (s : FramebufferConsole) : s.boundsCheck.parser = s.parser := by
  obtain ⟨x, y, text, color, cells, h⟩ := boundsCheck_frame s
  rw [h]
  rfl

theorem initialized_boundsCheck (s : FramebufferConsole) :
    s.boundsCheck.initialized = s.initialized := by
  obtain ⟨x, y, text, color, cells, h⟩ := boundsCheck_frame s
  rw [h]

theorem putChar_spec (h : s.putChar ch = .ok s') :
    s'.parser = s.parser ∧ s'.initialized = s.initialized := by
  rw [putChar] at h
  split at h
  · obtain rfl := Except.ok.inj h
    exact ⟨rfl, rfl⟩
  · cases h

theorem normal_spec (h : s.normal ch = .ok s') :
    s'.parser = (if ch = 27 then .escape else s.ansiState, s.whichNumber) ∧
      s'.initialized = s.initialized := by
  rw [normal] at h
  split_ifs at h with h13 h10 h9 h8 hleft h27
  · obtain rfl := Except.ok.inj h
    simp [parser, h13]
  · obtain rfl := Except.ok.inj h
    simp [parser, h10]
  · obtain rfl := Except.ok.inj h
    simp [parser, h9]
  · obtain rfl := Except.ok.inj h
    simp [parser, h8]
  · obtain rfl := Except.ok.inj h
    simp [parser, h8]
  · obtain rfl := Except.ok.inj h
    simp [parser, h27]
  · rw [if_neg h27]
    exact putChar_spec h

theorem setNumber_spec {n : UInt32} (h : s.setNumber n = .ok s') :
    s'.parser = s.parser ∧ s'.initialized = s.initialized := by
  unfold setNumber at h
  split at h
  · obtain rfl := Except.ok.inj h
    exact ⟨rfl, rfl⟩
  · cases h

theorem escape_spec (s : FramebufferConsole) (ch : UInt8) :
    (s.escape ch).parser = (if ch = 91 then (.number, -1) else (.normal, s.whichNumber)) ∧
      (s.escape ch).initialized = s.initialized := by
  rw [escape]
  split <;> exact ⟨rfl, rfl⟩

/-- Printing does not take the console down. -/
def KeepsInitialized
    (p : CString → List Arg → FramebufferConsole → Except Stuck FramebufferConsole) : Prop :=
  ∀ string args s s', p string args s = .ok s' → s'.initialized = s.initialized

/-- The state of the parser behind a byte of a number, with a command still to be executed. -/
theorem number_spec
    (hp : KeepsInitialized p)
    (h : s.number p ch = .ok (stop, s')) : s'.initialized = s.initialized ∧
      (stop = true → parserNext (.number, s.whichNumber) ch = none) ∧
      (stop = false → s'.ansiState = .complete ∧
          parserNext (.number, s.whichNumber) ch = some (.normal, -1) ∨
        s'.ansiState = s.ansiState ∧
          parserNext (.number, s.whichNumber) ch = some (.number, s'.whichNumber)) := by
  rw [number] at h
  by_cases hdigit : ch < 48 ∨ 57 < ch
  · rw [if_pos hdigit] at h
    by_cases hsemicolon : ch = 59
    · rw [if_pos hsemicolon] at h
      dsimp only at h
      by_cases hmany : int32 (s.whichNumber + 1) = 10
      · rw [if_pos hmany] at h
        obtain ⟨s₁, hprint, heq⟩ := map_eq_ok.1 h
        obtain ⟨rfl, rfl⟩ := Prod.mk.inj heq
        have hinitialized := hp _ _ _ _ hprint
        refine ⟨hinitialized, fun _ => ?_, fun hstop => absurd hstop (by decide)⟩
        rw [parserNext, if_pos hdigit, if_pos hsemicolon, if_pos hmany]
      · rw [if_neg hmany] at h
        obtain ⟨s₁, hset, heq⟩ := map_eq_ok.1 h
        obtain ⟨rfl, rfl⟩ := Prod.mk.inj heq
        obtain ⟨hparser, hinitialized⟩ := setNumber_spec hset
        obtain ⟨hstate, hwhich⟩ := Prod.mk.inj hparser
        refine ⟨hinitialized, fun hstop => absurd hstop (by decide),
          fun _ => .inr ⟨hstate, ?_⟩⟩
        rw [parserNext, if_pos hdigit, if_pos hsemicolon, if_neg hmany, hwhich]
    · rw [if_neg hsemicolon] at h
      obtain ⟨rfl, rfl⟩ := Prod.mk.inj (Except.ok.inj h)
      refine ⟨rfl, fun hstop => absurd hstop (by decide), fun _ => .inl ⟨rfl, ?_⟩⟩
      rw [parserNext, if_pos hdigit, if_neg hsemicolon]
  · rw [if_neg hdigit] at h
    dsimp only at h
    obtain ⟨s₁, hset, heq⟩ := map_eq_ok.1 h
    obtain ⟨rfl, rfl⟩ := Prod.mk.inj heq
    obtain ⟨hparser, hinitialized⟩ := setNumber_spec hset
    obtain ⟨hstate, hwhich⟩ := Prod.mk.inj hparser
    rw [parserNext, if_neg hdigit, hstate, hwhich, hinitialized]
    refine ⟨?_, fun hstop => absurd hstop (by decide), fun _ => .inr ⟨?_, ?_⟩⟩
    all_goals split <;> rfl

theorem color_spec (s : FramebufferConsole) (n : UInt32) : ∃ fore back bright,
    s.color n = { s with foreColor := fore, backColor := back, foreBright := bright } := by
  unfold color
  dsimp only
  split_ifs <;> exact ⟨_, _, _, rfl⟩

/-- The command `m` changes the colours. -/
theorem colorLoop_spec {n c : Nat} (h : colorLoop n c s = .ok s') : ∃ fore back bright,
    s' = { s with foreColor := fore, backColor := back, foreBright := bright } := by
  induction n generalizing c s with
  | zero =>
    obtain rfl := Except.ok.inj h
    exact ⟨_, _, _, rfl⟩
  | succ n ih =>
    rw [colorLoop] at h
    split at h
    · obtain ⟨fore, back, bright, hcolor⟩ := color_spec s (s.numbers c)
      obtain ⟨fore', back', bright', hloop⟩ := ih h
      rw [hcolor] at hloop
      exact ⟨_, _, _, hloop⟩
    · cases h

theorem initialized_command (hp : KeepsInitialized p) (h : s.command p = .ok s') :
    s'.initialized = s.initialized := by
  rw [command] at h
  split_ifs at h with hA hB hC hD hH hJ hclear hm
  · obtain rfl := Except.ok.inj h
    rfl
  · obtain rfl := Except.ok.inj h
    rfl
  · obtain rfl := Except.ok.inj h
    rfl
  · obtain rfl := Except.ok.inj h
    rfl
  · obtain rfl := Except.ok.inj h
    rw [gotoXY]
    split_ifs <;> rfl
  · obtain rfl := Except.ok.inj h
    rfl
  · exact hp _ _ _ _ h
  · obtain ⟨fore, back, bright, rfl⟩ := colorLoop_spec h
    rfl
  · exact hp _ _ _ _ h

theorem execute_spec (hp : KeepsInitialized p) (h : s.execute p = .ok s') :
    s'.parser = (.normal, -1) ∧ s'.initialized = s.initialized := by
  rw [execute] at h
  obtain ⟨s₁, hcommand, rfl⟩ := map_eq_ok.1 h
  have hinitialized := initialized_command hp hcommand
  exact ⟨rfl, hinitialized⟩

theorem parse_spec (hp : KeepsInitialized p) (h : s.parse p ch = .ok (stop, s')) :
    s'.initialized = s.initialized ∧
      (stop = true → parserNext s.parser ch = none) ∧
      (stop = false → s'.ansiState = .complete ∧ parserNext s.parser ch = some (.normal, -1) ∨
        s'.ansiState ≠ .complete ∧ parserNext s.parser ch = some s'.parser) := by
  obtain ⟨n, hn⟩ : ∃ n, s.whichNumber = n := ⟨_, rfl⟩
  rw [parse] at h
  rw [parser, hn]
  cases hstate : s.ansiState with
  | normal =>
    rw [hstate] at h
    obtain ⟨s₁, hnormal, heq⟩ := map_eq_ok.1 h
    obtain ⟨rfl, rfl⟩ := Prod.mk.inj heq
    obtain ⟨hparser, hinitialized⟩ := normal_spec hnormal
    refine ⟨hinitialized, fun hstop => absurd hstop (by decide), fun _ => .inr ?_⟩
    rw [parserNext, hparser, hstate, hn]
    refine ⟨?_, rfl⟩
    rw [(Prod.mk.inj hparser).1, hstate]
    split <;> decide
  | escape =>
    rw [hstate] at h
    obtain ⟨rfl, rfl⟩ := Prod.mk.inj (Except.ok.inj h)
    obtain ⟨hparser, hinitialized⟩ := escape_spec s ch
    refine ⟨hinitialized, fun hstop => absurd hstop (by decide), fun _ => .inr ?_⟩
    rw [parserNext, hparser, hn]
    refine ⟨?_, rfl⟩
    rw [show (s.escape ch).ansiState = _ from congrArg Prod.fst hparser]
    split <;> simp
  | number =>
    rw [hstate] at h
    obtain ⟨hinitialized, htrue, hfalse⟩ := number_spec hp h
    rw [hn] at htrue hfalse
    refine ⟨hinitialized, htrue, fun hstop => ?_⟩
    rcases hfalse hstop with hcomplete | ⟨hsame, hnext⟩
    · exact .inl hcomplete
    · refine .inr ⟨?_, ?_⟩
      · rw [hsame, hstate]
        decide
      · rw [hnext, parser, hsame, hstate]
  | complete =>
    rw [hstate] at h
    obtain ⟨rfl, rfl⟩ := Prod.mk.inj (Except.ok.inj h)
    exact ⟨rfl, fun hstop => absurd hstop (by decide), fun _ => .inl ⟨hstate, rfl⟩⟩

/-- A round moves the parser as `parserNext` says, and takes the `break` when that says none. -/
theorem step_spec (hp : KeepsInitialized p) (h : s.step p ch = .ok (stop, s')) :
    s'.initialized = s.initialized ∧
      parserNext s.parser ch = if stop then none else some s'.parser := by
  rw [step] at h
  cases hparse : s.parse p ch with
  | error e =>
    rw [hparse] at h
    cases h
  | ok r =>
    obtain ⟨stop₁, s₁⟩ := r
    rw [hparse] at h
    obtain ⟨hinitialized, htrue, hfalse⟩ := parse_spec hp hparse
    cases stop₁ with
    | true =>
      obtain ⟨rfl, rfl⟩ := Prod.mk.inj (Except.ok.inj h)
      exact ⟨hinitialized, htrue rfl⟩
    | false =>
      dsimp only at h
      rcases hfalse rfl with ⟨hcomplete, hnext⟩ | ⟨hcomplete, hnext⟩
      · rw [if_pos hcomplete] at h
        obtain ⟨s₂, hexecute, heq⟩ := map_eq_ok.1 h
        obtain ⟨rfl, rfl⟩ := Prod.mk.inj heq
        obtain ⟨hparser, hinitialized'⟩ := execute_spec hp hexecute
        rw [initialized_boundsCheck, hinitialized', hinitialized, parser_boundsCheck, hparser]
        exact ⟨rfl, hnext⟩
      · rw [if_neg hcomplete] at h
        obtain ⟨rfl, rfl⟩ := Prod.mk.inj (Except.ok.inj h)
        rw [initialized_boundsCheck, hinitialized, parser_boundsCheck]
        exact ⟨rfl, hnext⟩

/-- The loop moves the parser as `parserRun` says. -/
theorem writeLoop_spec (hp : KeepsInitialized p) {buffer : List UInt8}
    (h : s.writeLoop p buffer = .ok (stop, s')) : s'.initialized = s.initialized ∧
      parserRun s.parser buffer = if stop then none else some s'.parser := by
  induction buffer generalizing s with
  | nil => cases h
  | cons ch buffer ih =>
    rw [writeLoop] at h
    cases hstep : s.step p ch with
    | error e =>
      rw [hstep] at h
      cases h
    | ok r =>
      obtain ⟨stop₁, s₁⟩ := r
      rw [hstep] at h
      obtain ⟨hinitialized, hnext⟩ := step_spec hp hstep
      rw [parserRun, hnext]
      cases stop₁ with
      | true =>
        obtain ⟨rfl, rfl⟩ := Prod.mk.inj (Except.ok.inj h)
        exact ⟨hinitialized, rfl⟩
      | false =>
        dsimp only at h
        split at h
        · rename_i hend
          obtain ⟨rfl, rfl⟩ := Prod.mk.inj (Except.ok.inj h)
          rw [hend]
          exact ⟨hinitialized, rfl⟩
        · obtain ⟨hinitialized', hrun⟩ := ih h
          exact ⟨hinitialized'.trans hinitialized, hrun⟩

/-- What comes back from `console_write` is a state that the framebuffer left, up to the lock. -/
theorem consoleWrite_eq_ok
    {write : FramebufferConsole → List UInt8 → Except Stuck (Int × FramebufferConsole)}
    {buf : List UInt8} (h : consoleWrite write buf s = .ok s') : ∃ mutex result s₁,
      write { s with printMutex := mutex } buf = .ok (result, s₁) ∧
        ∃ mutex', s' = { s₁ with printMutex := mutex' } := by
  rw [consoleWrite] at h
  split_ifs at h with hlocking hmutex
  · obtain ⟨⟨result, s₁⟩, hwrite, rfl⟩ := map_eq_ok.1 h
    exact ⟨_, _, _, hwrite, _, rfl⟩
  · obtain ⟨⟨result, s₁⟩, hwrite, rfl⟩ := map_eq_ok.1 h
    exact ⟨s.printMutex, _, _, hwrite, s₁.printMutex, rfl⟩

theorem printk_eq_ok
    {write : FramebufferConsole → List UInt8 → Except Stuck (Int × FramebufferConsole)}
    {string : CString} {args : List Arg} (h : printk write string args s = .ok s') :
    ∃ buf, consoleWrite write buf s = .ok s' := by
  rw [printk] at h
  split at h
  · cases h
  · exact ⟨_, h⟩

theorem keepsInitialized_of_write
    {write : FramebufferConsole → List UInt8 → Except Stuck (Int × FramebufferConsole)}
    (hwrite : ∀ s s' buf result, write s buf = .ok (result, s') →
      s'.initialized = s.initialized) : KeepsInitialized (printk write) := by
  intro string args s s' hprint
  obtain ⟨buf, hconsole⟩ := printk_eq_ok hprint
  obtain ⟨mutex, result, s₁, hnested, mutex', rfl⟩ := consoleWrite_eq_ok hconsole
  have hinitialized := hwrite _ _ _ _ hnested
  exact hinitialized

theorem write_of_initialized (hs : s.initialized = true) (depth : Nat) (buffer : List UInt8) :
    write (depth + 1) s buffer =
      (s.writeLoop (printk (write depth)) buffer).map fun r => (0, r.2) := by
  rw [write.eq_def, if_pos hs]

theorem write_of_not_initialized (hs : s.initialized = false) (depth : Nat)
    (buffer : List UInt8) : write depth s buffer = .ok (-enodev, s) := by
  rw [write.eq_def, if_neg (by rw [hs]; decide)]

/-- A call does not take the console down. -/
theorem initialized_write {depth : Nat} {buffer : List UInt8} {result : Int}
    (h : write depth s buffer = .ok (result, s')) : s'.initialized = s.initialized := by
  induction depth generalizing s s' buffer result with
  | zero =>
    cases hs : s.initialized with
    | true =>
      rw [write.eq_def, if_pos hs] at h
      cases h
    | false =>
      rw [write_of_not_initialized hs] at h
      obtain ⟨-, rfl⟩ := Prod.mk.inj (Except.ok.inj h)
      exact hs
  | succ depth ih =>
    cases hs : s.initialized with
    | true =>
      rw [write_of_initialized hs] at h
      obtain ⟨r, hloop, heq⟩ := map_eq_ok.1 h
      obtain ⟨-, rfl⟩ := Prod.mk.inj heq
      rw [(writeLoop_spec (keepsInitialized_of_write fun _ _ _ _ => ih) hloop).1, hs]
    | false =>
      rw [write_of_not_initialized hs] at h
      obtain ⟨-, rfl⟩ := Prod.mk.inj (Except.ok.inj h)
      exact hs

theorem keepsInitialized_printk (depth : Nat) : KeepsInitialized (printk (write depth)) :=
  keepsInitialized_of_write fun _ _ _ _ => initialized_write

end FramebufferConsole

end Vmwos
