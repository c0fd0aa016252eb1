import Vmwos.Drivers.FramebufferCursor

/-!
# Writing in pieces

All progress of the parser is in the state, so a text can be written in pieces, with one exception:
the `break` behind too many numbers ends the call, and the rest of the buffer is lost. What comes in
a second call is not (`chunks_iff`).
-/

set_option autoImplicit false

namespace Vmwos.FramebufferConsole

open Library Format

variable {p p' : CString → List Arg → FramebufferConsole → Except Stuck FramebufferConsole}
  {s s' : FramebufferConsole}

/-- A call returns. -/
def Writes (s : FramebufferConsole) (buffer : List UInt8) (result : Int)
    (s' : FramebufferConsole) : Prop :=
  ∃ depth, write depth s buffer = .ok (result, s')

/-! ## The depth does not matter -/

/-- Every diagnostic that is printed at one depth is printed at the other. -/
def PrintsMore (p p' : CString → List Arg → FramebufferConsole → Except Stuck FramebufferConsole) :
    Prop :=
  ∀ string args s s', p string args s = .ok s' → p' string args s = .ok s'

theorem map_mono {α β : Type} {r r' : Except Stuck α} {f : α → β} {b : β}
    (h : ∀ a, r = .ok a → r' = .ok a) (hb : r.map f = .ok b) : r'.map f = .ok b := by
  obtain ⟨a, ha, rfl⟩ := map_eq_ok.1 hb
  rw [h a ha]
  rfl

theorem command_mono (hp : PrintsMore p p') (h : s.command p = .ok s') :
    s.command p' = .ok s' := by
  rw [command] at h ⊢
  split_ifs at h ⊢
  all_goals first
    | exact h
    | exact hp _ _ _ _ h

theorem number_mono (hp : PrintsMore p p') {ch : UInt8} {r : Bool × FramebufferConsole}
    (h : s.number p ch = .ok r) : s.number p' ch = .ok r := by
  rw [number] at h ⊢
  dsimp only at h ⊢
  split_ifs at h ⊢
  all_goals first
    | exact h
    | exact map_mono (hp _ _ _) h

theorem step_mono (hp : PrintsMore p p') {ch : UInt8} {r : Bool × FramebufferConsole}
    (h : s.step p ch = .ok r) : s.step p' ch = .ok r := by
  rw [step] at h ⊢
  cases hparse : s.parse p ch with
  | error e =>
    rw [hparse] at h
    cases h
  | ok q =>
    have hparse' : s.parse p' ch = .ok q := by
      rw [parse] at hparse ⊢
      cases hstate : s.ansiState with
      | normal =>
        rw [hstate] at hparse
        exact hparse
      | escape =>
        rw [hstate] at hparse
        exact hparse
      | number =>
        rw [hstate] at hparse
        exact number_mono hp hparse
      | complete =>
        rw [hstate] at hparse
        exact hparse
    obtain ⟨stop, s₁⟩ := q
    rw [hparse] at h
    rw [hparse']
    cases stop with
    | true => exact h
    | false =>
      dsimp only at h ⊢
      split at h
      · rename_i hcomplete
        rw [if_pos hcomplete]
        refine map_mono (fun s₂ hexecute => ?_) h
        exact map_mono (fun s₃ hcommand => command_mono hp hcommand) hexecute
      · rename_i hcomplete
        rw [if_neg hcomplete]
        exact h

theorem writeLoop_mono (hp : PrintsMore p p') {buffer : List UInt8}
    {r : Bool × FramebufferConsole} (h : s.writeLoop p buffer = .ok r) :
    s.writeLoop p' buffer = .ok r := by
  induction buffer generalizing s with
  | nil => cases h
  | cons ch buffer ih =>
    rw [writeLoop] at h ⊢
    cases hstep : s.step p ch with
    | error e =>
      rw [hstep] at h
      cases h
    | ok q =>
      obtain ⟨stop, s₁⟩ := q
      rw [hstep] at h
      rw [step_mono hp hstep]
      cases stop with
      | true => exact h
      | false =>
        dsimp only at h ⊢
        split at h
        · rename_i hend
          rw [if_pos hend]
          exact h
        · rename_i hend
          rw [if_neg hend]
          exact ih h

theorem printsMore_printk {write write' : FramebufferConsole → List UInt8 →
      Except Stuck (Int × FramebufferConsole)}
    (h : ∀ s buf r, write s buf = .ok r → write' s buf = .ok r) :
    PrintsMore (printk write) (printk write') := by
  intro string args s s' hprint
  rw [printk] at hprint ⊢
  split at hprint
  · cases hprint
  · rw [consoleWrite] at hprint ⊢
    split_ifs at hprint ⊢
    all_goals exact map_mono (h _ _) hprint

/-- A call that returns does so at the next depth too. -/
theorem write_succ {depth : Nat} {buffer : List UInt8} {r : Int × FramebufferConsole}
    (h : write depth s buffer = .ok r) : write (depth + 1) s buffer = .ok r := by
  induction depth generalizing s buffer r with
  | zero =>
    cases hs : s.initialized with
    | true =>
      rw [write.eq_def, if_pos hs] at h
      cases h
    | false =>
      rw [write_of_not_initialized hs] at h ⊢
      exact h
  | succ depth ih =>
    cases hs : s.initialized with
    | true =>
      rw [write_of_initialized hs] at h ⊢
      refine map_mono (fun q hloop => ?_) h
      exact writeLoop_mono (printsMore_printk fun s buf r => ih) hloop
    | false =>
      rw [write_of_not_initialized hs] at h ⊢
      exact h

theorem write_mono {depth depth' : Nat} (hle : depth ≤ depth') {buffer : List UInt8}
    {r : Int × FramebufferConsole} (h : write depth s buffer = .ok r) :
    write depth' s buffer = .ok r := by
  induction hle with
  | refl => exact h
  | step _ ih => exact write_succ ih

/-! ## One buffer behind another -/

/-- The loop over two buffers goes on into the second one unless the `break` is taken. -/
theorem writeLoop_append {a b : List UInt8} (ha : a ≠ []) (hb : b ≠ []) :
    s.writeLoop p (a ++ b) =
      match s.writeLoop p a with
      | .error e => .error e
      | .ok (true, s) => .ok (true, s)
      | .ok (false, s) => s.writeLoop p b := by
  induction a generalizing s with
  | nil => exact absurd rfl ha
  | cons ch a ih =>
    rw [List.cons_append, writeLoop, writeLoop]
    cases s.step p ch with
    | error e => rfl
    | ok r =>
      obtain ⟨stop, s₁⟩ := r
      cases stop with
      | true => rfl
      | false =>
        dsimp only
        rw [if_neg (List.append_ne_nil_of_right_ne_nil a hb)]
        cases a with
        | nil => rfl
        | cons ch' a => rw [if_neg (List.cons_ne_nil ch' a), ih (List.cons_ne_nil ch' a)]

/-- The parser meets more numbers than it has room for. -/
def TooManyNumbers (s : FramebufferConsole) (buffer : List UInt8) : Prop :=
  parserRun s.parser buffer = none

instance instDecidableTooManyNumbers (s : FramebufferConsole) (buffer : List UInt8) :
    Decidable (s.TooManyNumbers buffer) := inferInstanceAs (Decidable (_ = none))

/-- A call on the two texts together is a call on the first and a call on the second. -/
def Chunks (s : FramebufferConsole) (a b : List UInt8) : Prop :=
  ∀ result s', Writes s (a ++ b) result s' ↔
    ∃ result₁ s₁, Writes s a result₁ s₁ ∧ Writes s₁ b result s'

/-! ## Calls that return -/

theorem Writes.unique {buffer : List UInt8} {result result' : Int} {s₁ s₂ : FramebufferConsole}
    (h : Writes s buffer result s₁) (h' : Writes s buffer result' s₂) :
    result = result' ∧ s₁ = s₂ := by
  obtain ⟨depth, h⟩ := h
  obtain ⟨depth', h'⟩ := h'
  have heq := (write_mono (Nat.le_max_left depth depth') h).symm.trans
    (write_mono (Nat.le_max_right depth depth') h')
  exact Prod.mk.inj (Except.ok.inj heq)

theorem writes_of_not_initialized (hs : s.initialized = false) {buffer : List UInt8}
    {result : Int} : Writes s buffer result s' ↔ result = -enodev ∧ s' = s := by
  constructor
  · rintro ⟨depth, h⟩
    rw [write_of_not_initialized hs] at h
    obtain ⟨rfl, rfl⟩ := Prod.mk.inj (Except.ok.inj h)
    exact ⟨rfl, rfl⟩
  · rintro ⟨rfl, rfl⟩
    exact ⟨0, write_of_not_initialized hs 0 buffer⟩

/-- A call of a console that is up is a run of the loop. -/
theorem writes_iff (hs : s.initialized = true) {buffer : List UInt8} {result : Int} :
    Writes s buffer result s' ↔
      result = 0 ∧ ∃ depth stop, s.writeLoop (printk (write depth)) buffer = .ok (stop, s') := by
  constructor
  · rintro ⟨depth, h⟩
    have h := write_succ h
    rw [write_of_initialized hs] at h
    obtain ⟨⟨stop, s₁⟩, hloop, heq⟩ := map_eq_ok.1 h
    obtain ⟨rfl, rfl⟩ := Prod.mk.inj heq
    exact ⟨rfl, depth, stop, hloop⟩
  · rintro ⟨rfl, depth, stop, hloop⟩
    refine ⟨depth + 1, ?_⟩
    rw [write_of_initialized hs, hloop]
    rfl

theorem printsMore_write {depth depth' : Nat} (hle : depth ≤ depth') :
    PrintsMore (printk (write depth)) (printk (write depth')) :=
  printsMore_printk fun _ _ _ => write_mono hle

/-- The `break` is taken when there are too many numbers. -/
theorem writeLoop_stop {depth : Nat} {buffer : List UInt8} {stop : Bool}
    (h : s.writeLoop (printk (write depth)) buffer = .ok (stop, s')) :
    stop = true ↔ s.TooManyNumbers buffer := by
  rw [TooManyNumbers, (writeLoop_spec (keepsInitialized_printk depth) h).2]
  cases stop with
  | true => exact iff_of_true rfl rfl
  | false => exact iff_of_false Bool.noConfusion (Option.some_ne_none _)

/-! ## Behind too many numbers -/

theorem parserRun_plain {text : List UInt8} (htext : 27 ∉ text) (n : Int) :
    parserRun (.normal, n) text = some (.normal, n) := by
  induction text with
  | nil => rfl
  | cons ch text ih =>
    obtain ⟨hch, hrest⟩ := not_or.1 fun h => htext (List.mem_cons.2 h)
    rw [parserRun, parserNext, if_neg (Ne.symm hch)]
    exact ih hrest

/-- A text without an escape leaves the parser in its normal state. -/
theorem normal_write {depth : Nat} {text : List UInt8} (htext : 27 ∉ text) {result : Int}
    (hs : s.ansiState = .normal) (h : write depth s text = .ok (result, s')) :
    s'.ansiState = .normal := by
  cases hinitialized : s.initialized with
  | false =>
    rw [write_of_not_initialized hinitialized] at h
    obtain ⟨-, rfl⟩ := Prod.mk.inj (Except.ok.inj h)
    exact hs
  | true =>
    obtain ⟨-, depth', stop, hloop⟩ := (writes_iff hinitialized).1 ⟨depth, h⟩
    have hrun := (writeLoop_spec (keepsInitialized_printk depth') hloop).2
    rw [parser, hs, parserRun_plain htext] at hrun
    cases stop with
    | true => cases hrun
    | false => exact (congrArg Prod.fst (Option.some.inj hrun)).symm

theorem normal_tooMany {depth : Nat} (hs : s.ansiState = .normal)
    (h : printk (write depth) tooManyText [] s = .ok s') : s'.ansiState = .normal := by
  have htext : 27 ∉ tooManyText := by decide
  rw [printk_tooMany] at h
  obtain ⟨mutex, result, s₁, hwrite, mutex', rfl⟩ := consoleWrite_eq_ok h
  have hnormal := normal_write (s := { s with printMutex := mutex }) htext hs hwrite
  exact hnormal

theorem normal_step {depth : Nat} {ch : UInt8}
    (h : s.step (printk (write depth)) ch = .ok (true, s')) : s'.ansiState = .normal := by
  rw [step] at h
  cases hparse : s.parse (printk (write depth)) ch with
  | error e =>
    rw [hparse] at h
    cases h
  | ok r =>
    obtain ⟨stop, s₁⟩ := r
    rw [hparse] at h
    cases stop with
    | false =>
      dsimp only at h
      split at h
      · obtain ⟨s₂, -, heq⟩ := map_eq_ok.1 h
        cases heq
      · cases h
    | true =>
      obtain ⟨-, rfl⟩ := Prod.mk.inj (Except.ok.inj h)
      rw [parse] at hparse
      cases hstate : s.ansiState with
      | normal =>
        rw [hstate] at hparse
        obtain ⟨s₂, -, heq⟩ := map_eq_ok.1 hparse
        cases heq
      | escape =>
        rw [hstate] at hparse
        cases hparse
      | number =>
        rw [hstate] at hparse
        dsimp only [number] at hparse
        split_ifs at hparse
        · obtain ⟨s₂, hprint, heq⟩ := map_eq_ok.1 hparse
          obtain ⟨-, rfl⟩ := Prod.mk.inj heq
          exact normal_tooMany rfl hprint
        · obtain ⟨s₂, -, heq⟩ := map_eq_ok.1 hparse
          cases heq
        · cases hparse
        all_goals
          obtain ⟨s₂, -, heq⟩ := map_eq_ok.1 hparse
          cases heq
      | complete =>
        rw [hstate] at hparse
        cases hparse

/-- When the `break` has been taken the parser is in its normal state. -/
theorem normal_writeLoop {depth : Nat} {buffer : List UInt8}
    (h : s.writeLoop (printk (write depth)) buffer = .ok (true, s')) :
    s'.ansiState = .normal := by
  induction buffer generalizing s with
  | nil => cases h
  | cons ch buffer ih =>
    rw [writeLoop] at h
    cases hstep : s.step (printk (write depth)) ch with
    | error e =>
      rw [hstep] at h
      cases h
    | ok r =>
      obtain ⟨stop, s₁⟩ := r
      rw [hstep] at h
      cases stop with
      | true =>
        obtain ⟨-, rfl⟩ := Prod.mk.inj (Except.ok.inj h)
        exact normal_step hstep
      | false =>
        dsimp only at h
        split at h
        · cases h
        · exact ih h

/-- An escape moves the parser out of its normal state. -/
theorem writes_escape (hinitialized : s.initialized = true) (hs : s.ansiState = .normal) :
    ∃ s', Writes s [27] 0 s' ∧ s'.ansiState = .escape := by
  refine ⟨({ s with ansiState := .escape } : FramebufferConsole).boundsCheck,
    (writes_iff hinitialized).2 ⟨rfl, 0, false, ?_⟩, (Prod.mk.inj (parser_boundsCheck _)).1⟩
  rw [writeLoop, step, parse, hs]
  rfl

/-! ## The two orders -/

/-- A text can be followed by any other in a call of its own exactly when the call that it ends
does not run into too many numbers. -/
theorem chunks_iff (s : FramebufferConsole) (a : List UInt8) (ha : a ≠ []) :
    (∀ b, b ≠ [] → Chunks s a b) ↔
      ¬ (s.initialized = true ∧ s.TooManyNumbers a ∧ ∃ result s', Writes s a result s') := by
  cases hs : s.initialized with
  | false =>
    refine iff_of_true (fun b hb result s' => ?_) fun h => Bool.noConfusion h.1
    rw [writes_of_not_initialized hs]
    constructor
    · rintro ⟨rfl, rfl⟩
      exact ⟨_, s', (writes_of_not_initialized hs).2 ⟨rfl, rfl⟩,
        (writes_of_not_initialized hs).2 ⟨rfl, rfl⟩⟩
    · rintro ⟨result₁, s₁, hfirst, hsecond⟩
      obtain ⟨-, rfl⟩ := (writes_of_not_initialized hs).1 hfirst
      exact (writes_of_not_initialized hs).1 hsecond
  | true =>
    constructor
    · rintro hchunks ⟨-, hmany, result, s₁, hwrites⟩
      obtain ⟨rfl, depth, stop, hloop⟩ := (writes_iff hs).1 hwrites
      obtain rfl : stop = true := (writeLoop_stop hloop).2 hmany
      have hnormal := normal_writeLoop hloop
      have hinitialized : s₁.initialized = true :=
        (writeLoop_spec (keepsInitialized_printk depth) hloop).1.trans hs
      obtain ⟨s₂, hescape, hstate⟩ := writes_escape hinitialized hnormal
      -- the second call sees the escape, the call on both texts has lost it
      have hboth := (hchunks [27] (by decide) 0 s₂).2 ⟨0, s₁, hwrites, hescape⟩
      have hlost : Writes s (a ++ [27]) 0 s₁ := by
        refine (writes_iff hs).2 ⟨rfl, depth, true, ?_⟩
        rw [writeLoop_append ha (by decide), hloop]
      rw [(hlost.unique hboth).2, hstate] at hnormal
      cases hnormal
    · intro hmany b hb result s'
      constructor
      · intro hwrites
        obtain ⟨rfl, depth, stop, hloop⟩ := (writes_iff hs).1 hwrites
        rw [writeLoop_append ha hb] at hloop
        split at hloop
        · cases hloop
        · rename_i s₁ hfirst
          have hwrites₁ : Writes s a 0 s₁ := (writes_iff hs).2 ⟨rfl, depth, true, hfirst⟩
          exact absurd ⟨rfl, (writeLoop_stop hfirst).1 rfl, 0, s₁, hwrites₁⟩ hmany
        · rename_i s₁ hfirst
          have hinitialized : s₁.initialized = true :=
            (writeLoop_spec (keepsInitialized_printk depth) hfirst).1.trans hs
          exact ⟨0, s₁, (writes_iff hs).2 ⟨rfl, depth, false, hfirst⟩,
            (writes_iff hinitialized).2 ⟨rfl, depth, stop, hloop⟩⟩
      · rintro ⟨result₁, s₁, hfirst, hsecond⟩
        obtain ⟨rfl, depth, stop, hloop⟩ := (writes_iff hs).1 hfirst
        have hinitialized : s₁.initialized = true :=
          (writeLoop_spec (keepsInitialized_printk depth) hloop).1.trans hs
        obtain ⟨rfl, depth', stop', hloop'⟩ := (writes_iff hinitialized).1 hsecond
        cases stop with
        | true => exact absurd ⟨rfl, (writeLoop_stop hloop).1 rfl, 0, s₁, hfirst⟩ hmany
        | false =>
          refine (writes_iff hs).2 ⟨rfl, max depth depth', stop', ?_⟩
          rw [writeLoop_append ha hb,
            writeLoop_mono (printsMore_write (Nat.le_max_left depth depth')) hloop]
          exact writeLoop_mono (printsMore_write (Nat.le_max_right depth depth')) hloop'

/-- A command in two pieces. -/
theorem chunks_command : Chunks (start false false) [27, 91, 50] [74] :=
  have hmany : ¬ (start false false).TooManyNumbers [27, 91, 50] := by decide
  (chunks_iff (start false false) [27, 91, 50] (by decide)).2 (fun h => hmany h.2.1) [74]
    (by decide)

/-- The character behind an eleventh number is lost in one call and shown in two. -/
theorem not_chunks : ¬ Chunks (start false false) (27 :: 91 :: List.replicate 11 59) [65] := by
  intro hchunks
  obtain ⟨a, ha⟩ : ∃ a, (27 : UInt8) :: 91 :: List.replicate 11 59 = a := ⟨_, rfl⟩
  rw [ha] at hchunks
  have htwo : ((write 2 (start false false) a).toOption.bind fun r =>
      (write 2 r.2 [65]).toOption.map fun r => r.2.consoleX) = some 1 := by
    rw [← ha]
    decide +kernel
  have hone : ((write 2 (start false false) (a ++ [65])).toOption.map
      fun r => r.2.consoleX) = some 0 := by
    rw [← ha]
    decide +kernel
  cases hfirst : write 2 (start false false) a with
  | error e =>
    rw [hfirst] at htwo
    cases htwo
  | ok r =>
    cases hsecond : write 2 r.2 [65] with
    | error e =>
      simp only [hfirst, hsecond, Except.toOption, Option.bind] at htwo
      cases htwo
    | ok r' =>
      obtain ⟨depth, hboth⟩ := (hchunks r'.1 r'.2).2 ⟨r.1, r.2, ⟨2, hfirst⟩, 2, hsecond⟩
      cases htogether : write 2 (start false false) (a ++ [65]) with
      | error e =>
        rw [htogether] at hone
        cases hone
      | ok r'' =>
        obtain ⟨-, hsame⟩ := Writes.unique ⟨depth, hboth⟩ ⟨2, htogether⟩
        simp only [hfirst, hsecond, Except.toOption, Option.bind, Option.map] at htwo
        simp only [htogether, Except.toOption, Option.map, ← hsame] at hone
        rw [Option.some.inj hone] at htwo
        cases htwo

end Vmwos.FramebufferConsole
