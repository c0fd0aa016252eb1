import Vmwos.Drivers.FramebufferSequences

/-!
# When a call returns

`framebuffer_console_write` looks for the end of the buffer only behind a byte, and prints its
diagnostics through itself. A call returns exactly if there is a byte and every byte on its way is
harmless (`writes_iff_harmless`): a command that a diagnostic is printed for is not, since the parser
is still in `ANSI_STATE_COMPLETE` when the message comes back; the message for too many numbers
comes out, unless the lock of `console_write` is held already.
-/

set_option autoImplicit false

namespace Vmwos.FramebufferConsole

open Library Format

variable {p : CString → List Arg → FramebufferConsole → Except Stuck FramebufferConsole}
  {s s' : FramebufferConsole} {ch : UInt8} {text buffer : List UInt8}

/-! ## Harmless bytes -/

/-- Nothing can be printed. Of a byte that prints nothing the step with this is the step. -/
def mute : CString → List Arg → FramebufferConsole → Except Stuck FramebufferConsole :=
  fun _ _ _ => .error .endless

/-- The cell at the cursor is in the arrays. -/
def CellInside (s : FramebufferConsole) : Prop :=
  0 ≤ int32 (s.consoleX + s.consoleY * 80) ∧ int32 (s.consoleX + s.consoleY * 80) < 2800

/-- The bytes that `ANSI_STATE_NORMAL` does not store: `\r`, `\n`, `\t`, `\b` and escape. -/
def notStored : List UInt8 := [13, 10, 9, 8, 27]

/-- Every character of a text finds its cell in the arrays. -/
def Stored : FramebufferConsole → List UInt8 → Prop
  | _, [] => True
  | s, ch :: text =>
      (ch ∉ notStored → s.CellInside) ∧ ∀ s', s.normal ch = .ok s' → Stored s'.boundsCheck text

/-- The console as the message for too many numbers finds it. -/
def atMessage (s : FramebufferConsole) : FramebufferConsole :=
  { s with
    whichNumber := 10, ansiState := .normal, printMutex := s.lockingEnabled || s.printMutex }

/-- A byte does no harm: a character has its cell, a command is one that nothing is printed for, and
when it is one number too many the message can be printed. -/
structure Harmless (s : FramebufferConsole) (ch : UInt8) : Prop where
  character : s.ansiState = .normal → ch ∉ notStored → s.CellInside
  command : s.ansiState = .number → ch ≠ 59 → (ch < 48 ∨ 57 < ch) → ¬ (s.withCommand ch).Diagnosed
  tooMany : s.ansiState = .number → ch = 59 → s.whichNumber = 9 →
    ¬ (s.lockingEnabled = true ∧ s.printMutex = true) ∧ Stored s.atMessage tooManyText

/-- All bytes do no harm, as far as the loop gets. -/
def HarmlessAll : FramebufferConsole → List UInt8 → Prop
  | _, [] => True
  | s, ch :: buffer =>
      s.Harmless ch ∧ ∀ s', s.step mute ch = .ok (false, s') → HarmlessAll s' buffer

/-! ## Characters -/

theorem normal_returns_iff (s : FramebufferConsole) (ch : UInt8) :
    (∃ s', s.normal ch = .ok s') ↔ (ch ∉ notStored → s.CellInside) := by
  simp only [notStored, List.mem_cons, List.not_mem_nil, or_false, not_or]
  rw [FramebufferConsole.normal]
  split_ifs with hreturn hline htab hback hleft hescape
  · exact iff_of_true ⟨_, rfl⟩ fun h => absurd hreturn h.1
  · exact iff_of_true ⟨_, rfl⟩ fun h => absurd hline h.2.1
  · exact iff_of_true ⟨_, rfl⟩ fun h => absurd htab h.2.2.1
  · exact iff_of_true ⟨_, rfl⟩ fun h => absurd hback h.2.2.2.1
  · exact iff_of_true ⟨_, rfl⟩ fun h => absurd hback h.2.2.2.1
  · exact iff_of_true ⟨_, rfl⟩ fun h => absurd hescape h.2.2.2.2
  · rw [putChar]
    constructor
    · rintro ⟨s', h⟩ -
      split at h
      · rename_i hinside
        exact hinside
      · cases h
    · intro hinside
      exact ⟨_, if_pos (hinside ⟨hreturn, hline, htab, hback, hescape⟩)⟩

/-- In `ANSI_STATE_NORMAL` the bounds check is all that follows. -/
theorem step_normal (hstate : s.ansiState = .normal) (ch : UInt8) :
    s.step p ch = (s.normal ch).map fun s => (false, s.boundsCheck) := by
  rw [step, parse, hstate]
  dsimp only
  cases h : s.normal ch with
  | error e => rfl
  | ok s' =>
      have hopen : s'.ansiState ≠ .complete := by
        rw [(Prod.mk.inj (normal_spec h).1).1, hstate]
        split <;> exact AnsiState.noConfusion
      exact if_neg hopen

/-- A text without an escape is written exactly if all its characters are stored. -/
theorem writeLoop_plain_iff (hstate : s.ansiState = .normal) (hplain : 27 ∉ text)
    (htext : text ≠ []) : (∃ r, s.writeLoop p text = .ok r) ↔ Stored s text := by
  induction text generalizing s with
  | nil => exact absurd rfl htext
  | cons ch text ih =>
      obtain ⟨hch, hrest⟩ := not_or.1 fun h => hplain (List.mem_cons.2 h)
      rw [writeLoop, step_normal hstate, Stored, ← normal_returns_iff]
      cases h : s.normal ch with
      | error e =>
          refine iff_of_false ?_ ?_
          · rintro ⟨r, hr⟩
            cases hr
          · rintro ⟨⟨s', hs'⟩, -⟩
            cases hs'
      | ok s' =>
          have hnormal : s'.boundsCheck.ansiState = .normal := by
            rw [(boundsCheck_parsing s').1, (Prod.mk.inj (normal_spec h).1).1,
              if_neg (Ne.symm hch)]
            exact hstate
          simp only [Except.map]
          by_cases hend : text = []
          · rw [if_pos hend, hend]
            exact iff_of_true ⟨_, rfl⟩ ⟨⟨s', rfl⟩, fun _ _ => trivial⟩
          · rw [if_neg hend, ih hnormal hrest hend]
            constructor
            · intro hstored
              refine ⟨⟨s', rfl⟩, ?_⟩
              intro s'' hs''
              cases hs''
              exact hstored
            · intro hstored
              exact hstored.2 s' rfl

/-! ## The message for too many numbers -/

theorem write_plain_iff (hs : s.initialized = true) (hstate : s.ansiState = .normal)
    (hplain : 27 ∉ text) (htext : text ≠ []) (depth : Nat) :
    (∃ r, write (depth + 1) s text = .ok r) ↔ Stored s text := by
  rw [write_of_initialized hs, ← writeLoop_plain_iff (p := printk (write depth)) hstate hplain htext]
  constructor
  · rintro ⟨r, hr⟩
    obtain ⟨q, hq, -⟩ := map_eq_ok.1 hr
    exact ⟨q, hq⟩
  · rintro ⟨q, hq⟩
    exact ⟨_, map_eq_ok.2 ⟨q, hq, rfl⟩⟩

/-- `console_write` returns when it gets the lock and the framebuffer returns. -/
theorem consoleWrite_iff
    {write : FramebufferConsole → List UInt8 → Except Stuck (Int × FramebufferConsole)}
    (buf : List UInt8) (s : FramebufferConsole) :
    (∃ s', consoleWrite write buf s = .ok s') ↔
      ¬ (s.lockingEnabled = true ∧ s.printMutex = true) ∧
        ∃ r, write { s with printMutex := s.lockingEnabled || s.printMutex } buf = .ok r := by
  rw [consoleWrite]
  split_ifs with hlocking hmutex
  · refine iff_of_false ?_ fun h => h.1 ⟨hlocking, hmutex⟩
    rintro ⟨s', hs'⟩
    cases hs'
  · rw [hlocking, Bool.true_or]
    constructor
    · rintro ⟨s', hs'⟩
      obtain ⟨r, hr, -⟩ := map_eq_ok.1 hs'
      exact ⟨fun h => hmutex h.2, r, hr⟩
    · rintro ⟨-, r, hr⟩
      exact ⟨_, map_eq_ok.2 ⟨r, hr, rfl⟩⟩
  · have hsame : ({ s with printMutex := s.lockingEnabled || s.printMutex } :
        FramebufferConsole) = s := by
      have hmutex : (s.lockingEnabled || s.printMutex) = s.printMutex := by
        rw [Bool.not_eq_true] at hlocking
        rw [hlocking, Bool.false_or]
      rw [hmutex]
    rw [hsame]
    constructor
    · rintro ⟨s', hs'⟩
      obtain ⟨r, hr, -⟩ := map_eq_ok.1 hs'
      exact ⟨fun h => hlocking h.1, r, hr⟩
    · rintro ⟨-, r, hr⟩
      exact ⟨_, map_eq_ok.2 ⟨r, hr, rfl⟩⟩

/-- With one number too many the message is printed, and the call ends. -/
theorem step_tooMany (hstate : s.ansiState = .number) (hwhich : s.whichNumber = 9) :
    s.step p 59 = (p tooManyText [] { s with whichNumber := 10, ansiState := .normal }).map
      fun s => (true, s) := by
  have hnumber : s.number p 59 =
      (p tooManyText [] { s with whichNumber := 10, ansiState := .normal }).map
        fun s => (true, s) := by
    rw [FramebufferConsole.number, if_pos (by decide), if_pos rfl, hwhich]
    exact if_pos rfl
  rw [step, parse, hstate]
  dsimp only
  rw [hnumber]
  cases p tooManyText [] { s with whichNumber := 10, ansiState := .normal } with
  | error e => rfl
  | ok s' => rfl

theorem step_tooMany_iff (hs : s.initialized = true) (hstate : s.ansiState = .number)
    (hwhich : s.whichNumber = 9) (depth : Nat) :
    (∃ r, s.step (printk (write (depth + 1))) 59 = .ok r) ↔
      ¬ (s.lockingEnabled = true ∧ s.printMutex = true) ∧ Stored s.atMessage tooManyText := by
  have hs' : s.atMessage.initialized = true := hs
  have hwrite : (∃ r, write (depth + 1) s.atMessage tooManyText = .ok r) ↔
      Stored s.atMessage tooManyText := write_plain_iff hs' rfl (by decide) (by decide) depth
  have hconsole := @consoleWrite_iff (write (depth + 1)) tooManyText
    { s with whichNumber := 10, ansiState := .normal }
  rw [← hwrite, step_tooMany hstate hwhich, printk_tooMany]
  refine Iff.trans ?_ hconsole
  constructor
  · rintro ⟨r, hr⟩
    obtain ⟨s', hs', -⟩ := map_eq_ok.1 hr
    exact ⟨s', hs'⟩
  · rintro ⟨s', hs'⟩
    exact ⟨_, map_eq_ok.2 ⟨s', hs', rfl⟩⟩

/-! ## Commands -/

/-- A command without a diagnostic is executed, whatever would be printed. -/
theorem command_mute (hlow : -1 ≤ s.whichNumber) (hhigh : s.whichNumber < 10)
    (hquiet : ¬ (s.withCommand ch).Diagnosed) :
    ∃ v, (s.withCommand ch).command mute = .ok v := by
  have hknown : ch ∈ supported := by
    by_contra hunknown
    exact hquiet ⟨rfl, .inr hunknown⟩
  have hsame : Agree s s := ⟨fun _ _ => rfl, fun _ _ => rfl, rfl, rfl, rfl, rfl, rfl⟩
  obtain ⟨v, -, hv, -⟩ := hsame.command (p := mute) rfl hlow hhigh rfl (fun _ _ => rfl) hknown
    (fun _ _ _ => rfl) (by
      intro hJ
      by_contra hclear
      exact hquiet ⟨rfl, .inl ⟨hJ, hclear⟩⟩)
  exact ⟨v, hv⟩

/-- The state between two bytes. -/
structure BetweenBytes (s : FramebufferConsole) : Prop where
  initialized : s.initialized = true
  notComplete : s.ansiState ≠ .complete
  number : s.ansiState = .number → -1 ≤ s.whichNumber ∧ s.whichNumber < 10

/-- Nothing that comes back takes the console down. -/
theorem keepsInitialized_mute : KeepsInitialized mute := by
  intro string args s s' h
  cases h

theorem printsMore_mute
    (p : CString → List Arg → FramebufferConsole → Except Stuck FramebufferConsole) :
    PrintsMore mute p := by
  intro string args s s' h
  cases h

/-- The parser never counts as far as the end of the array, and executes at once. -/
theorem parserNext_room {q q' : AnsiState × Int}
    (hq : q.1 = .number → -1 ≤ q.2 ∧ q.2 < 10) (h : parserNext q ch = some q') :
    q'.1 ≠ .complete ∧ (q'.1 = .number → -1 ≤ q'.2 ∧ q'.2 < 10) := by
  obtain ⟨state, n⟩ := q
  cases state with
  | normal =>
      cases h
      refine ⟨?_, fun hnumber => ?_⟩
      · show (if ch = 27 then AnsiState.escape else .normal) ≠ .complete
        split <;> exact AnsiState.noConfusion
      · have hnumber : (if ch = 27 then AnsiState.escape else .normal) = .number := hnumber
        split at hnumber <;> cases hnumber
  | escape =>
      rw [parserNext] at h
      split at h
      · cases h
        exact ⟨AnsiState.noConfusion, fun _ => by decide⟩
      · cases h
        exact ⟨AnsiState.noConfusion, fun hnumber => by cases hnumber⟩
  | number =>
      obtain ⟨hlow, hhigh⟩ := hq rfl
      rw [parserNext] at h
      split_ifs at h with hdigit hsemicolon hmany hfirst
      · cases h
        have hnext : int32 (n + 1) = n + 1 := int32_of_mem (by omega) (by omega)
        rw [hnext] at hmany ⊢
        exact ⟨AnsiState.noConfusion, fun _ => ⟨by omega, by omega⟩⟩
      · cases h
        exact ⟨AnsiState.noConfusion, fun hnumber => by cases hnumber⟩
      · cases h
        exact ⟨AnsiState.noConfusion, fun _ => by decide⟩
      · cases h
        exact ⟨AnsiState.noConfusion, fun _ => ⟨hlow, hhigh⟩⟩
  | complete =>
      cases h
      exact ⟨AnsiState.noConfusion, fun hnumber => by cases hnumber⟩

theorem BetweenBytes.step (hs : s.BetweenBytes) (hp : KeepsInitialized p)
    (h : s.step p ch = .ok (false, s')) : s'.BetweenBytes := by
  obtain ⟨hinitialized, hnext⟩ := step_spec hp h
  obtain ⟨hcomplete, hnumber⟩ := @parserNext_room ch s.parser s'.parser hs.number hnext
  exact ⟨hinitialized.trans hs.initialized, hcomplete, hnumber⟩

/-- The `break` is taken in the normal state. -/
theorem BetweenBytes.stop (hs : s.BetweenBytes) {depth : Nat}
    (h : s.step (printk (write depth)) ch = .ok (true, s')) : s'.BetweenBytes := by
  have hinitialized := (step_spec (keepsInitialized_printk depth) h).1
  have hnormal := normal_step h
  refine ⟨hinitialized.trans hs.initialized, ?_, ?_⟩
  · rw [hnormal]
    exact AnsiState.noConfusion
  · intro hnumber
    rw [hnormal] at hnumber
    cases hnumber

theorem BetweenBytes.writeLoop (hs : s.BetweenBytes) {depth : Nat} {stop : Bool}
    (h : s.writeLoop (printk (write depth)) buffer = .ok (stop, s')) : s'.BetweenBytes := by
  induction buffer generalizing s with
  | nil => cases h
  | cons ch buffer ih =>
      rw [FramebufferConsole.writeLoop] at h
      cases hstep : s.step (printk (write depth)) ch with
      | error e =>
          rw [hstep] at h
          cases h
      | ok r =>
          obtain ⟨stop₁, s₁⟩ := r
          rw [hstep] at h
          cases stop₁ with
          | true =>
              cases h
              exact hs.stop hstep
          | false =>
              have hs₁ := hs.step (keepsInitialized_printk depth) hstep
              dsimp only at h
              split at h
              · cases h
                exact hs₁
              · exact ih hs₁ h

/-- Every state behind earlier calls is one between two bytes. -/
theorem Reached.betweenBytes (h : Reached s) : s.BetweenBytes := by
  induction h with
  | start lockingEnabled printMutex =>
      exact ⟨rfl, AnsiState.noConfusion, fun hnumber => by cases hnumber⟩
  | write hs hwrite ih =>
      obtain ⟨-, depth, stop, hloop⟩ := (writes_iff ih.initialized).1 ⟨_, hwrite⟩
      exact ih.writeLoop hloop
  | lock hs lockingEnabled printMutex ih =>
      exact ⟨ih.initialized, ih.notComplete, ih.number⟩

/-! ## A byte returns exactly if it is harmless -/

/-- A harmless byte is followed by the next one, or it is one number too many. -/
theorem Harmless.step (h : s.Harmless ch) (hs : s.BetweenBytes) :
    (∃ s', s.step mute ch = .ok (false, s')) ∨
      s.ansiState = .number ∧ ch = 59 ∧ s.whichNumber = 9 := by
  cases hstate : s.ansiState with
  | normal =>
      obtain ⟨s', hs'⟩ := (normal_returns_iff s ch).2 (h.character hstate)
      refine .inl ⟨s'.boundsCheck, ?_⟩
      rw [step_normal hstate, hs']
      rfl
  | escape =>
      refine .inl ⟨(s.escape ch).boundsCheck, ?_⟩
      have hopen : (s.escape ch).ansiState ≠ .complete := by
        rw [FramebufferConsole.escape]
        split <;> exact AnsiState.noConfusion
      rw [FramebufferConsole.step, parse, hstate]
      exact if_neg hopen
  | number =>
      obtain ⟨hlow, hhigh⟩ := hs.number hstate
      by_cases hbyte : ch ≠ 59 ∧ (ch < 48 ∨ 57 < ch)
      · -- a command
        obtain ⟨v, hv⟩ := command_mute hlow hhigh (h.command hstate hbyte.1 hbyte.2)
        refine .inl ⟨boundsCheck { v with whichNumber := -1, ansiState := .normal }, ?_⟩
        rw [step_command hstate hlow hhigh hbyte, execute, hv]
        rfl
      · by_cases hsemicolon : ch = 59
        · by_cases hnine : s.whichNumber = 9
          · exact .inr ⟨rfl, hsemicolon, hnine⟩
          · have hroom : (scanByte (s.whichNumber, s.numbers) ch).1 < 10 := by
              rw [scanByte, if_pos hsemicolon]
              show s.whichNumber + 1 < 10
              omega
            exact .inl ⟨s.scanNext ch, step_parameter hstate hlow hroom (.inl hsemicolon)⟩
        · -- a digit
          have hdigit : 48 ≤ ch ∧ ch ≤ 57 := by
            have hnot := not_or.1 fun hout => hbyte ⟨hsemicolon, hout⟩
            exact ⟨UInt8.not_lt.1 hnot.1, UInt8.not_lt.1 hnot.2⟩
          have hroom : (scanByte (s.whichNumber, s.numbers) ch).1 < 10 := by
            rw [scanByte, if_neg hsemicolon]
            split
            · show (0 : Int) < 10
              decide
            · exact hhigh
          exact .inl ⟨s.scanNext ch, step_parameter hstate hlow hroom (.inr hdigit)⟩
  | complete => exact absurd hstate hs.notComplete

/-- A byte that returns, at whatever depth, does no harm. -/
theorem harmless_of_step (hs : s.BetweenBytes) {depth : Nat} {r : Bool × FramebufferConsole}
    (h : s.step (printk (write depth)) ch = .ok r) : s.Harmless ch where
  character := by
    intro hstate
    rw [← normal_returns_iff]
    rw [step_normal hstate] at h
    obtain ⟨s', hs', -⟩ := map_eq_ok.1 h
    exact ⟨s', hs'⟩
  command := by
    intro hstate hsemicolon hdigit hdiagnosed
    obtain ⟨hlow, hhigh⟩ := hs.number hstate
    rw [step_command hstate hlow hhigh ⟨hsemicolon, hdigit⟩,
      execute_diagnosed (s := s.withCommand ch) depth hs.initialized hdiagnosed] at h
    cases h
  tooMany := by
    rintro hstate rfl hwhich
    rw [← step_tooMany_iff hs.initialized hstate hwhich depth]
    exact ⟨r, step_mono (printsMore_write (Nat.le_succ depth)) h⟩

/-- A buffer that returns, at whatever depth, does no harm. -/
theorem harmlessAll_of_writeLoop (hs : s.BetweenBytes) {depth : Nat}
    {r : Bool × FramebufferConsole} (h : s.writeLoop (printk (write depth)) buffer = .ok r) :
    HarmlessAll s buffer := by
  induction buffer generalizing s with
  | nil => trivial
  | cons ch buffer ih =>
      rw [FramebufferConsole.writeLoop] at h
      cases hstep : s.step (printk (write depth)) ch with
      | error e =>
          rw [hstep] at h
          cases h
      | ok q =>
          refine ⟨harmless_of_step hs hstep, ?_⟩
          intro s' hmute
          -- a byte that prints nothing takes the same step
          have hsame := step_mono (printsMore_mute (printk (write depth))) hmute
          rw [hsame] at h
          have hs' := hs.step keepsInitialized_mute hmute
          by_cases hend : buffer = []
          · rw [hend]
            trivial
          · exact ih hs' ((if_neg hend).symm.trans h)

/-- Harmless bytes are written; the message for too many numbers needs one call inside. -/
theorem writeLoop_of_harmlessAll (hs : s.BetweenBytes) (hbuffer : buffer ≠ [])
    (h : HarmlessAll s buffer) : ∃ r, s.writeLoop (printk (write 1)) buffer = .ok r := by
  induction buffer generalizing s with
  | nil => exact absurd rfl hbuffer
  | cons ch buffer ih =>
      obtain ⟨hch, hrest⟩ := h
      rw [FramebufferConsole.writeLoop]
      rcases hch.step hs with ⟨s', hmute⟩ | ⟨hstate, rfl, hwhich⟩
      · rw [step_mono (printsMore_mute (printk (write 1))) hmute]
        dsimp only
        by_cases hend : buffer = []
        · rw [if_pos hend]
          exact ⟨_, rfl⟩
        · rw [if_neg hend]
          exact ih (hs.step keepsInitialized_mute hmute) hend (hrest s' hmute)
      · obtain ⟨r, hr⟩ := (step_tooMany_iff hs.initialized hstate hwhich 0).2
          (hch.tooMany hstate rfl hwhich)
        -- the `break` ends the call
        rw [step_tooMany hstate hwhich] at hr ⊢
        obtain ⟨s', hs', -⟩ := map_eq_ok.1 hr
        rw [hs']
        exact ⟨_, rfl⟩

/-! ## A call -/

theorem writes_iff_of_reached (hs : Reached s) (buffer : List UInt8) :
    (∃ depth r, write depth s buffer = .ok r) ↔ buffer ≠ [] ∧ HarmlessAll s buffer := by
  have hbetween := hs.betweenBytes
  constructor
  · rintro ⟨depth, ⟨result, s'⟩, h⟩
    obtain ⟨-, depth', stop, hloop⟩ := (writes_iff hbetween.initialized).1 ⟨depth, h⟩
    refine ⟨?_, harmlessAll_of_writeLoop hbetween hloop⟩
    rintro rfl
    cases hloop
  · rintro ⟨hbuffer, hharmless⟩
    obtain ⟨⟨stop, s'⟩, hloop⟩ := writeLoop_of_harmlessAll hbetween hbuffer hharmless
    obtain ⟨depth, h⟩ := (writes_iff hbetween.initialized).2 ⟨rfl, 1, stop, hloop⟩
    exact ⟨depth, _, h⟩

/-- A call returns, and has read the bytes of its buffer only, exactly if the console is not up yet,
or there is a byte and all bytes do no harm. -/
theorem writes_iff_harmless (hs : s.initialized = true → Reached s) (buffer : List UInt8) :
    (∃ depth r, write depth s buffer = .ok r) ↔
      s.initialized = false ∨ buffer ≠ [] ∧ HarmlessAll s buffer := by
  cases hup : s.initialized with
  | false =>
      refine iff_of_true ⟨0, _, write_of_not_initialized hup 0 buffer⟩ (.inl rfl)
  | true =>
      rw [writes_iff_of_reached (hs hup) buffer]
      exact ⟨.inr, fun h => h.resolve_left Bool.noConfusion⟩

/-- One letter. -/
theorem writes_iff_harmless_letter : ∃ depth r, write depth (start false false) [104] = .ok r := by
  refine (writes_iff_harmless (fun _ => .start false false) [104]).2
    (.inr ⟨List.cons_ne_nil 104 [], ?_, ?_⟩)
  · exact ⟨fun _ _ => ⟨by decide, by decide⟩, fun hnumber => AnsiState.noConfusion hnumber,
      fun hnumber => AnsiState.noConfusion hnumber⟩
  · exact fun _ _ => trivial

/-- `ESC [ J`, the rest of the screen to be cleared: no depth is enough. -/
theorem not_writes :
    ¬ ∀ s, Reached s → ∀ buffer, ∃ depth r, write depth s buffer = .ok r := by
  intro hall
  obtain ⟨depth, r, h⟩ := hall _ (.start false false) (sequence [] 74)
  have hclear : ClearsPart [] 74 := ⟨rfl, by decide⟩
  have hempty : IsParameters [] := ⟨by simp, by simp⟩
  rw [write_clearsPart rfl rfl hempty hclear depth] at h
  cases h

end Vmwos.FramebufferConsole
