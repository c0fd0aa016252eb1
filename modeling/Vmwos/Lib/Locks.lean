import Vmwos.Library.Processors

/-!
# The mutex of the kernel

`mutex_lock` and `mutex_unlock`, for the processors with and without `wfe` and `sev`. Both exclude
each other (`mutex_exclusive`), for any number of processors, in every interleaving of their
instructions, and a processor that finds the mutex free gets it when it is left alone
(`Arm1176.lock_alone`).

Where a processor waits in `wfe`, no signal is lost: as long as one waits while the mutex is free,
another one has yet to execute the `sev` of its `mutex_unlock` (`Armv7.no_signal_lost`).
-/

set_option autoImplicit false

namespace Vmwos

open Library Library.Processors
open Library.Arm (subFlags holds_eq Cond Flags)

/-! ## The listings -/

/-- The labels of `mutex_lock`. -/
inductive LockLabel where
  | retry
  | busy
  deriving DecidableEq, Repr

namespace Armv7

/-- `mutex_lock` of `locks.armv7.s` -/
def mutexLock : List (Line LockLabel) :=
  [.op .al (.ldr .r1 1),
    .label .retry,
    .op .al (.ldrex .r2 .r0),
    .op .al (.cmp .r2 .r1),
    .op .eq .wfe,
    .branch .eq .retry,
    .op .al (.strex .r2 .r1 .r0),
    .op .al (.cmpImm .r2 1),
    .branch .eq .retry,
    .op .al .dmb,
    .bx]

/-- `mutex_unlock` of `locks.armv7.s` -/
def mutexUnlock : List (Line LockLabel) :=
  [.op .al (.ldr .r1 0),
    .op .al .dmb,
    .op .al (.str .r1 .r0),
    .op .al .dmb,
    .op .al .sev,
    .bx]

end Armv7

namespace Arm1176

/-- `mutex_lock` of `locks.arm1176.s` -/
def mutexLock : List (Line LockLabel) :=
  [.op .al (.ldr .r1 1),
    .label .retry,
    .op .al (.ldrex .r2 .r0),
    .op .al (.cmp .r2 .r1),
    .branch .eq .busy,
    .op .ne (.strex .r2 .r1 .r0),
    .op .ne (.cmpImm .r2 1),
    .branch .eq .retry,
    .op .al (.ldr .r3 0),
    .op .al .dmb,
    .bx,
    .label .busy,
    .branch .al .retry]

/-- `mutex_unlock` of `locks.arm1176.s` -/
def mutexUnlock : List (Line LockLabel) :=
  [.op .al (.ldr .r1 0),
    .op .al (.ldr .r3 0),
    .op .al .dmb,
    .op .al (.str .r1 .r0),
    .bx]

end Arm1176

/-- Two processors that have not called `mutex_lock` yet. -/
def idle : Client (Fin 2) LockLabel where
  system := ⟨fun _ => ⟨fun _ => 4096, ⟨false, false, false, false⟩, none, false⟩, fun _ => 0⟩
  place _ := .outside

theorem idle_initial : idle.Initial 4096 := ⟨fun _ => rfl, rfl⟩

/-! ## What holds at each line -/

section Assertions

variable {mutex : UInt32}

/-- The word that has been read is still there while the monitor is closed. -/
def Current (mutex : UInt32) (p : Processor) (m : UInt32) : Prop :=
  p.monitor = some mutex → p.regs .r2 = m

theorem Current.disturbed {p p' : Processor} {m m' : UInt32} (h : Current mutex p m)
    (hd : Disturbed mutex m m' p p') : Current mutex p' m' := by
  intro hclosed
  rcases hd.monitor with hopen | ⟨hsame, hword⟩
  · rw [hopen] at hclosed
    cases hclosed
  · rw [hsame] at hclosed
    rw [hd.regs, hword hclosed]
    exact h hclosed

/-- The arguments of the loop in `mutex_lock`: the address of the mutex and `MUTEX_LOCKED`. -/
structure LoopRegs (mutex : UInt32) (p : Processor) : Prop where
  r0 : p.regs .r0 = mutex
  r1 : p.regs .r1 = 1

theorem LoopRegs.of_regs {p p' : Processor} (h : LoopRegs mutex p) (hregs : p'.regs = p.regs) :
    LoopRegs mutex p' := ⟨hregs ▸ h.r0, hregs ▸ h.r1⟩

variable {ι : Type} [DecidableEq ι] {i : ι} {s s' : System ι}

/-- A comparison has set the flag. -/
theorem eq_of_holds_eq {a b : UInt32} (h : Cond.eq.holds (subFlags a b) = true) : a = b := by
  rw [holds_eq, decide_eq_true_iff] at h
  exact UInt32.toNat_inj.1 h

/-- `ldrex r2, [r0]` reads the word of the mutex. -/
theorem exec_load (hregs : LoopRegs mutex (s.processors i))
    (hexec : (Instr.ldrex .r2 .r0).exec i s = some s') :
    s'.memory = s.memory ∧ LoopRegs mutex (s'.processors i) ∧
      Current mutex (s'.processors i) (s'.memory mutex) := by
  cases hexec
  refine ⟨rfl, ⟨?_, ?_⟩, fun _ => ?_⟩
  · rw [modify_self]
    exact hregs.r0
  · rw [modify_self]
    exact hregs.r1
  · rw [modify_self, hregs.r0]
    rfl

/-- `cmp r2, r1` compares what has been read with `MUTEX_LOCKED`. -/
theorem exec_compare (hregs : LoopRegs mutex (s.processors i))
    (hread : Current mutex (s.processors i) (s.memory mutex))
    (hexec : (Instr.cmp .r2 .r1).exec i s = some s') :
    s'.memory = s.memory ∧ LoopRegs mutex (s'.processors i) ∧
      Current mutex (s'.processors i) (s'.memory mutex) ∧
        (s'.processors i).flags = subFlags ((s'.processors i).regs .r2) 1 := by
  cases hexec
  rw [modify_self]
  refine ⟨rfl, ⟨hregs.r0, hregs.r1⟩, hread, ?_⟩
  show subFlags _ ((s.processors i).regs .r1) = _
  rw [hregs.r1]

/-- `strex r2, r1, [r0]` takes the mutex, or has lost the monitor. -/
theorem exec_store (hregs : LoopRegs mutex (s.processors i))
    (hread : Current mutex (s.processors i) (s.memory mutex)) (hne : (s.processors i).regs .r2 ≠ 1)
    (hword : s.memory mutex = 0 ∨ s.memory mutex = 1)
    (hexec : (Instr.strex .r2 .r1 .r0).exec i s = some s') :
    ∃ owns, (owns = false ∧ s'.memory mutex = s.memory mutex ∨
        Processors.Takes false owns (s.memory mutex) (s'.memory mutex)) ∧
      LoopRegs mutex (s'.processors i) ∧ (s'.processors i).regs .r2 = (if owns then 0 else 1) ∧
        (s'.processors i).flags = (s.processors i).flags := by
  rw [Instr.exec, hregs.r0, hregs.r1] at hexec
  dsimp only at hexec
  split at hexec
  · -- the word that was read is still there, and it is not `MUTEX_LOCKED`
    rename_i hclosed
    cases hexec
    have hzero : s.memory mutex = 0 := by
      rcases hword with hzero | hone
      · exact hzero
      · exact absurd ((hread hclosed).trans hone) hne
    rw [modify_self, store_self]
    exact ⟨true, .inr ⟨rfl, rfl, hzero, Function.update_self _ _ _⟩, ⟨hregs.r0, hregs.r1⟩, rfl, rfl⟩
  · cases hexec
    rw [modify_self]
    exact ⟨false, .inl ⟨rfl, rfl⟩, ⟨hregs.r0, hregs.r1⟩, rfl, rfl⟩

/-- The instructions of the loop, one after the other, where the mutex is free. -/
theorem exec_free (hregs : LoopRegs mutex (s.processors i)) (hzero : s.memory mutex = 0) :
    ∃ s₁ s₂ s₃ s₄, (Instr.ldrex .r2 .r0).exec i s = some s₁ ∧ (Instr.cmp .r2 .r1).exec i s₁ = some s₂ ∧
      (Instr.strex .r2 .r1 .r0).exec i s₂ = some s₃ ∧ (Instr.cmpImm .r2 1).exec i s₃ = some s₄ ∧
      (s₂.processors i).flags = subFlags 0 1 ∧ (s₃.processors i).flags = subFlags 0 1 ∧
        (s₄.processors i).flags = subFlags 0 1 := by
  obtain ⟨s₁, hload, hregs₁, hr2, hclosed⟩ : ∃ s₁, (Instr.ldrex .r2 .r0).exec i s = some s₁ ∧
      LoopRegs mutex (s₁.processors i) ∧ (s₁.processors i).regs .r2 = 0 ∧
        (s₁.processors i).monitor = some mutex := by
    refine ⟨_, rfl, (exec_load hregs rfl).2.1, ?_, ?_⟩
    · rw [modify_self, hregs.r0, hzero]
      rfl
    · rw [modify_self, hregs.r0]
  obtain ⟨s₂, hcompare, hregs₂, hclosed₂, hflags₂⟩ : ∃ s₂, (Instr.cmp .r2 .r1).exec i s₁ = some s₂ ∧
      LoopRegs mutex (s₂.processors i) ∧ (s₂.processors i).monitor = some mutex ∧
        (s₂.processors i).flags = subFlags 0 1 := by
    refine ⟨_, rfl, ?_, ?_, ?_⟩
    · rw [modify_self]
      exact ⟨hregs₁.r0, hregs₁.r1⟩
    · rw [modify_self]
      exact hclosed
    · rw [modify_self, hr2, hregs₁.r1]
  obtain ⟨s₃, hstore, hr2₃, hflags₃⟩ : ∃ s₃, (Instr.strex .r2 .r1 .r0).exec i s₂ = some s₃ ∧
      (s₃.processors i).regs .r2 = 0 ∧ (s₃.processors i).flags = subFlags 0 1 := by
    rw [Instr.exec, hregs₂.r0]
    refine ⟨_, if_pos hclosed₂, ?_, ?_⟩
    · rw [modify_self]
      rfl
    · rw [modify_self, store_self]
      exact hflags₂
  refine ⟨s₁, s₂, s₃, _, hload, hcompare, hstore, rfl, hflags₂, hflags₃, ?_⟩
  rw [modify_self, hr2₃]

end Assertions

namespace Armv7

/-- The lines of `mutex_lock`: what holds before each of them. -/
inductive Locking (mutex : UInt32) : Assertion LockLabel
  | entry {p : Processor} {m : UInt32} (hr0 : p.regs .r0 = mutex) :
      Locking mutex mutexLock false p m
  | retry {p : Processor} {m : UInt32} (hregs : LoopRegs mutex p) :
      Locking mutex (mutexLock.drop 1) false p m
  | load {p : Processor} {m : UInt32} (hregs : LoopRegs mutex p) :
      Locking mutex (mutexLock.drop 2) false p m
  | compare {p : Processor} {m : UInt32} (hregs : LoopRegs mutex p) (hread : Current mutex p m) :
      Locking mutex (mutexLock.drop 3) false p m
  | wait {p : Processor} {m : UInt32} (hregs : LoopRegs mutex p) (hread : Current mutex p m)
      (hflags : p.flags = subFlags (p.regs .r2) 1) : Locking mutex (mutexLock.drop 4) false p m
  | again {p : Processor} {m : UInt32} (hregs : LoopRegs mutex p) (hread : Current mutex p m)
      (hflags : p.flags = subFlags (p.regs .r2) 1) : Locking mutex (mutexLock.drop 5) false p m
  | store {p : Processor} {m : UInt32} (hregs : LoopRegs mutex p) (hread : Current mutex p m)
      (hne : p.regs .r2 ≠ 1) : Locking mutex (mutexLock.drop 6) false p m
  | stored {p : Processor} {m : UInt32} {owns : Bool} (hregs : LoopRegs mutex p)
      (howns : p.regs .r2 = if owns then 0 else 1) : Locking mutex (mutexLock.drop 7) owns p m
  | tested {p : Processor} {m : UInt32} {owns : Bool} (hregs : LoopRegs mutex p)
      (howns : p.flags = subFlags (if owns then 0 else 1) 1) :
      Locking mutex (mutexLock.drop 8) owns p m
  | won {p : Processor} {m : UInt32} : Locking mutex (mutexLock.drop 9) true p m
  | leave {p : Processor} {m : UInt32} : Locking mutex (mutexLock.drop 10) true p m

inductive Unlocking (mutex : UInt32) : Assertion LockLabel
  | entry {p : Processor} {m : UInt32} (hr0 : p.regs .r0 = mutex) :
      Unlocking mutex mutexUnlock true p m
  | barrier {p : Processor} {m : UInt32} (hr0 : p.regs .r0 = mutex) (hr1 : p.regs .r1 = 0) :
      Unlocking mutex (mutexUnlock.drop 1) true p m
  | store {p : Processor} {m : UInt32} (hr0 : p.regs .r0 = mutex) (hr1 : p.regs .r1 = 0) :
      Unlocking mutex (mutexUnlock.drop 2) true p m
  | stored {p : Processor} {m : UInt32} : Unlocking mutex (mutexUnlock.drop 3) false p m
  | signal {p : Processor} {m : UInt32} : Unlocking mutex (mutexUnlock.drop 4) false p m
  | leave {p : Processor} {m : UInt32} : Unlocking mutex (mutexUnlock.drop 5) false p m

theorem stable_locking (mutex : UInt32) : Stable (Locking mutex) mutex := by
  intro rest owns p p' m m' hd h
  cases h with
  | entry hr0 => exact .entry (hd.regs ▸ hr0)
  | retry hregs => exact .retry (hregs.of_regs hd.regs)
  | load hregs => exact .load (hregs.of_regs hd.regs)
  | compare hregs hread => exact .compare (hregs.of_regs hd.regs) (hread.disturbed hd)
  | wait hregs hread hflags =>
      exact .wait (hregs.of_regs hd.regs) (hread.disturbed hd) (by rw [hd.flags, hd.regs, hflags])
  | again hregs hread hflags =>
      exact .again (hregs.of_regs hd.regs) (hread.disturbed hd) (by rw [hd.flags, hd.regs, hflags])
  | store hregs hread hne =>
      exact .store (hregs.of_regs hd.regs) (hread.disturbed hd) (by rwa [hd.regs])
  | stored hregs howns => exact .stored (hregs.of_regs hd.regs) (by rw [hd.regs, howns])
  | tested hregs howns => exact .tested (hregs.of_regs hd.regs) (by rw [hd.flags, howns])
  | won => exact .won
  | leave => exact .leave

theorem stable_unlocking (mutex : UInt32) : Stable (Unlocking mutex) mutex := by
  intro rest owns p p' m m' hd h
  cases h with
  | entry hr0 => exact .entry (hd.regs ▸ hr0)
  | barrier hr0 hr1 => exact .barrier (hd.regs ▸ hr0) (hd.regs ▸ hr1)
  | store hr0 hr1 => exact .store (hd.regs ▸ hr0) (hd.regs ▸ hr1)
  | stored => exact .stored
  | signal => exact .signal
  | leave => exact .leave

theorem proves_locking (mutex : UInt32) :
    Proves mutexLock (Locking mutex) mutex true Processors.Takes := by
  intro ι _ i rest owns s s' left h hword hnext
  cases h with
  | entry hr0 =>
      have hline : next mutexLock i mutexLock s =
          some (some (mutexLock.drop 1), s.modify i fun p => p.set .r1 1) := rfl
      cases hline.symm.trans hnext
      refine ⟨false, .inl ⟨rfl, rfl⟩, .retry ⟨?_, ?_⟩⟩
      · rw [modify_self]
        exact hr0
      · rw [modify_self]
        rfl
  | retry hregs =>
      cases hnext
      exact ⟨false, .inl ⟨rfl, rfl⟩, .load hregs⟩
  | load hregs =>
      cases hnext
      obtain ⟨hmemory, hregs', hread⟩ := exec_load hregs rfl
      exact ⟨false, .inl ⟨rfl, congrFun hmemory mutex⟩, .compare hregs' hread⟩
  | compare hregs hread =>
      cases hnext
      obtain ⟨hmemory, hregs', hread', hflags⟩ := exec_compare hregs hread rfl
      exact ⟨false, .inl ⟨rfl, congrFun hmemory mutex⟩, .wait hregs' hread' hflags⟩
  | wait hregs hread hflags =>
      have hline : next mutexLock i (mutexLock.drop 4) s =
          if Cond.eq.holds (s.processors i).flags then
            (Instr.wfe.exec i s).map fun s => (some (mutexLock.drop 5), s)
          else some (some (mutexLock.drop 5), s) := rfl
      rw [hline] at hnext
      split at hnext
      · obtain ⟨s₁, hwfe, heq⟩ := Option.map_eq_some_iff.1 hnext
        cases heq
        rw [Instr.exec] at hwfe
        split at hwfe
        · cases hwfe
          refine ⟨false, .inl ⟨rfl, rfl⟩, .again ?_ ?_ ?_⟩
          · rw [modify_self]
            exact ⟨hregs.r0, hregs.r1⟩
          · rw [modify_self]
            exact hread
          · rw [modify_self]
            exact hflags
        · cases hwfe
      · cases hnext
        exact ⟨false, .inl ⟨rfl, rfl⟩, .again hregs hread hflags⟩
  | again hregs hread hflags =>
      have hline : next mutexLock i (mutexLock.drop 5) s =
          if Cond.eq.holds (s.processors i).flags then some (some (mutexLock.drop 1), s)
          else some (some (mutexLock.drop 6), s) := rfl
      rw [hline, hflags, holds_eq] at hnext
      split at hnext
      · cases hnext
        exact ⟨false, .inl ⟨rfl, rfl⟩, .retry hregs⟩
      · rename_i hne
        cases hnext
        refine ⟨false, .inl ⟨rfl, rfl⟩, .store hregs hread fun h1 => hne ?_⟩
        rw [h1]
        rfl
  | store hregs hread hne =>
      have hline : next mutexLock i (mutexLock.drop 6) s =
          ((Instr.strex .r2 .r1 .r0).exec i s).map fun s => (some (mutexLock.drop 7), s) := rfl
      rw [hline] at hnext
      obtain ⟨s₁, hstrex, heq⟩ := Option.map_eq_some_iff.1 hnext
      cases heq
      obtain ⟨owns, hchange, hregs', howns, -⟩ := exec_store hregs hread hne hword hstrex
      exact ⟨owns, hchange, .stored hregs' howns⟩
  | stored hregs howns =>
      cases hnext
      refine ⟨owns, .inl ⟨rfl, rfl⟩, .tested ?_ ?_⟩
      · rw [modify_self]
        exact ⟨hregs.r0, hregs.r1⟩
      · rw [modify_self, ← howns]
  | tested hregs howns =>
      have hline : next mutexLock i (mutexLock.drop 8) s =
          if Cond.eq.holds (s.processors i).flags then some (some (mutexLock.drop 1), s)
          else some (some (mutexLock.drop 9), s) := rfl
      rw [hline, howns] at hnext
      cases owns with
      | false =>
          cases hnext
          exact ⟨false, .inl ⟨rfl, rfl⟩, .retry hregs⟩
      | true =>
          cases hnext
          exact ⟨true, .inl ⟨rfl, rfl⟩, .won⟩
  | won =>
      cases hnext
      exact ⟨true, .inl ⟨rfl, rfl⟩, .leave⟩
  | leave =>
      cases hnext
      exact ⟨true, .inl ⟨rfl, rfl⟩, rfl⟩

theorem proves_unlocking (mutex : UInt32) :
    Proves mutexUnlock (Unlocking mutex) mutex false Gives := by
  intro ι _ i rest owns s s' left h hword hnext
  cases h with
  | entry hr0 =>
      cases hnext
      refine ⟨true, .inl ⟨rfl, rfl⟩, .barrier ?_ ?_⟩
      · rw [modify_self]
        exact hr0
      · rw [modify_self]
        rfl
  | barrier hr0 hr1 =>
      cases hnext
      exact ⟨true, .inl ⟨rfl, rfl⟩, .store hr0 hr1⟩
  | store hr0 hr1 =>
      cases hnext
      refine ⟨false, .inr ⟨rfl, rfl, ?_⟩, .stored⟩
      rw [store_memory, hr0, hr1, Function.update_self]
  | stored =>
      cases hnext
      exact ⟨false, .inl ⟨rfl, rfl⟩, .signal⟩
  | signal =>
      cases hnext
      exact ⟨false, .inl ⟨rfl, rfl⟩, .leave⟩
  | leave =>
      cases hnext
      exact ⟨false, .inl ⟨rfl, rfl⟩, rfl⟩

/-- From the head of the loop on, where the mutex is free. -/
theorem retry_alone {ι : Type} [DecidableEq ι] {mutex : UInt32} {i : ι} {s : System ι}
    (hregs : LoopRegs mutex (s.processors i)) (hzero : s.memory mutex = 0) :
    ∃ s', ReturnsAlone mutexLock i (mutexLock.drop 1) s s' := by
  obtain ⟨s₁, s₂, s₃, s₄, hload, hcompare, hstore, htest, hflags₂, -, hflags₄⟩ :=
    exec_free hregs hzero
  have hne₂ : Cond.eq.holds (s₂.processors i).flags = false := by rw [hflags₂]; rfl
  have hne₄ : Cond.eq.holds (s₄.processors i).flags = false := by rw [hflags₄]; rfl
  exact ⟨_, .label (.op rfl hload (.op rfl hcompare (.skip hne₂ (.pass hne₂ (.op rfl hstore
    (.op rfl htest (.pass hne₄ (.op rfl rfl (.bx rfl)))))))))⟩

/-- The proof outline of `locks.armv7.s`. -/
def outline (mutex : UInt32) : Outline mutexLock mutexUnlock mutex where
  locking := Locking mutex
  unlocking := Unlocking mutex
  stable_locking := stable_locking mutex
  stable_unlocking := stable_unlocking mutex
  call _ _ hr0 := .entry hr0
  release _ _ hr0 := .entry hr0
  lock := proves_locking mutex
  unlock := proves_unlocking mutex

/-! ## Signals -/

section Signals

variable {ι : Type} [DecidableEq ι] {mutex : UInt32} {c c' : Client ι LockLabel} {i j : ι}

/-- The mutex has been given back, and `sev` is still to be executed. -/
def BeforeSignal (place : Place LockLabel) : Prop :=
  place = .unlocking (mutexUnlock.drop 3) ∨ place = .unlocking (mutexUnlock.drop 4)

/-- A signal is still to come. -/
def SignalPending (c : Client ι LockLabel) : Prop := ∃ j, BeforeSignal (c.place j)

/-- The processor has seen the mutex locked and is going to wait, or waits. -/
def GoesToSleep (c : Client ι LockLabel) (i : ι) : Prop :=
  (c.place i = .locking (mutexLock.drop 3) ∧ (c.system.processors i).regs .r2 = 1 ∨
    c.place i = .locking (mutexLock.drop 4) ∧ (c.system.processors i).flags.z = true) ∧
      (c.system.processors i).event = false

/-- Who goes to sleep will be woken. -/
def Wakes (mutex : UInt32) (c : Client ι LockLabel) : Prop :=
  ∀ i, GoesToSleep c i → c.word mutex = 1 ∨ SignalPending c

omit [DecidableEq ι] in
theorem GoesToSleep.place_eq (h : GoesToSleep c i) :
    c.place i = .locking (mutexLock.drop 3) ∨ c.place i = .locking (mutexLock.drop 4) :=
  h.1.imp And.left And.left

omit [DecidableEq ι] in
theorem GoesToSleep.disturbed {s : System ι} {place : ι → Place LockLabel} {m m' : UInt32}
    (hplace : place j = c.place j)
    (hd : Disturbed mutex m m' (c.system.processors j) (s.processors j))
    (h : GoesToSleep ⟨s, place⟩ j) : GoesToSleep c j := by
  obtain ⟨hat, hevent⟩ := h
  dsimp only at hat hevent
  rw [hplace, hd.regs, hd.flags] at hat
  refine ⟨hat, ?_⟩
  cases hbefore : (c.system.processors j).event with
  | false => rfl
  | true =>
      rw [hd.event hbefore] at hevent
      cases hevent

/-- A step of one processor that is not its signal. -/
theorem Wakes.step_of (h : Wakes mutex c) {place : Place LockLabel} {s : System ι}
    (hd : ∀ j, j ≠ i → Disturbed mutex (c.word mutex) (s.memory mutex) (c.system.processors j)
      (s.processors j))
    (hword : s.memory mutex = 1 ∨ BeforeSignal place ∨
      s.memory mutex = c.word mutex ∧ ¬ BeforeSignal (c.place i))
    (hsleep : GoesToSleep ⟨s, Function.update c.place i place⟩ i →
      s.memory mutex = 1 ∨ GoesToSleep c i) :
    Wakes mutex ⟨s, Function.update c.place i place⟩ := by
  intro j hj
  rcases hword with hone | hbefore | ⟨hsame, hplace⟩
  · exact .inl hone
  · refine .inr ⟨i, ?_⟩
    dsimp only
    rwa [Function.update_self]
  · have hj' : s.memory mutex = 1 ∨ GoesToSleep c j := by
      by_cases hne : j = i
      · subst hne
        exact hsleep hj
      · exact .inr (hj.disturbed (Function.update_of_ne hne _ _) (hd j hne))
    rcases hj' with hone | hj'
    · exact .inl hone
    · refine (h j hj').imp hsame.trans fun hpending => ?_
      obtain ⟨k, hk⟩ := hpending
      have hne : k ≠ i := fun heq => hplace (heq ▸ hk)
      refine ⟨k, ?_⟩
      dsimp only
      rwa [Function.update_of_ne hne]

/-- A step of a processor to another place than those lines. -/
theorem not_sleeping {place : Place LockLabel} {s : System ι}
    (h₃ : place ≠ .locking (mutexLock.drop 3)) (h₄ : place ≠ .locking (mutexLock.drop 4)) :
    ¬ GoesToSleep ⟨s, Function.update c.place i place⟩ i := by
  intro hsleep
  have heq := hsleep.place_eq
  dsimp only at heq
  rw [Function.update_self] at heq
  exact heq.elim h₃ h₄

/-- The lines after a line that is not one of the two before `wfe`. -/
theorem not_sleeping_of_next {line : Line LockLabel} {rest rest' : List (Line LockLabel)}
    {s : System ι} (hnext : next mutexLock i (line :: rest) c.system = some (some rest', s))
    (h₃ : rest ≠ mutexLock.drop 3) (h₄ : rest ≠ mutexLock.drop 4) :
    ¬ GoesToSleep ⟨s, Function.update c.place i (.locking rest')⟩ i := by
  have hlabel (l : LockLabel) (k : Nat) (hk : k = 3 ∨ k = 4) :
      codeAt mutexLock l ≠ mutexLock.drop k := by
    rcases hk with rfl | rfl <;> cases l <;> decide
  rcases next_rest hnext with rfl | ⟨l, rfl⟩
  · exact not_sleeping (fun heq => h₃ (Place.locking.inj heq)) fun heq => h₄ (Place.locking.inj heq)
  · exact not_sleeping (fun heq => hlabel l 3 (.inl rfl) (Place.locking.inj heq))
      fun heq => hlabel l 4 (.inr rfl) (Place.locking.inj heq)

/-- A processor goes to sleep by reading `MUTEX_LOCKED`, and by comparing what it has read. -/
theorem sleep_lockLine {rest rest' : List (Line LockLabel)} {s : System ι} {owns : Bool}
    (hplace : c.place i = .locking rest)
    (hat : Locking mutex rest owns (c.system.processors i) (c.word mutex))
    (hnext : next mutexLock i rest c.system = some (some rest', s))
    (hsleep : GoesToSleep ⟨s, Function.update c.place i (.locking rest')⟩ i) :
    s.memory mutex = 1 ∨ GoesToSleep c i := by
  have helse {line : Line LockLabel} {rest : List (Line LockLabel)} {P : Prop}
      (hnext : next mutexLock i (line :: rest) c.system = some (some rest', s))
      (h₃ : rest ≠ mutexLock.drop 3) (h₄ : rest ≠ mutexLock.drop 4) : P :=
    absurd hsleep (not_sleeping_of_next hnext h₃ h₄)
  cases hat with
  | load hregs =>
      cases hnext
      obtain ⟨hline, -⟩ := hsleep
      dsimp only at hline
      rw [Function.update_self, Place.locking.injEq, Place.locking.injEq, modify_self] at hline
      rcases hline with ⟨-, hr2⟩ | ⟨hlist, -⟩
      · left
        rw [← hr2, hregs.r0]
        rfl
      · exact absurd hlist (by decide)
  | compare hregs hread =>
      cases hnext
      obtain ⟨hline, hevent⟩ := hsleep
      dsimp only at hline hevent
      rw [Function.update_self, Place.locking.injEq, Place.locking.injEq, modify_self] at hline
      rw [modify_self] at hevent
      rcases hline with ⟨hlist, -⟩ | ⟨-, hz⟩
      · exact absurd hlist (by decide)
      · right
        refine ⟨.inl ⟨hplace, ?_⟩, hevent⟩
        rw [hregs.r1] at hz
        exact eq_of_holds_eq hz
  | entry hr0 => exact helse hnext (by decide) (by decide)
  | retry hregs => exact helse hnext (by decide) (by decide)
  | wait hregs hread hflags => exact helse hnext (by decide) (by decide)
  | again hregs hread hflags => exact helse hnext (by decide) (by decide)
  | store hregs hread hne => exact helse hnext (by decide) (by decide)
  | stored hregs howns => exact helse hnext (by decide) (by decide)
  | tested hregs howns => exact helse hnext (by decide) (by decide)
  | won => exact helse hnext (by decide) (by decide)
  | leave => exact helse hnext (by decide) (by decide)

omit [DecidableEq ι] in
/-- A step that leaves the places and the word alone, and sends nobody to sleep. -/
theorem Wakes.idle (h : Wakes mutex c) {s : System ι} (hword : s.memory mutex = c.word mutex)
    (hsleep : ∀ j, GoesToSleep ⟨s, c.place⟩ j → GoesToSleep c j) : Wakes mutex ⟨s, c.place⟩ :=
  fun j hj => (h j (hsleep j hj)).imp_left hword.trans

theorem Wakes.step {owns : ι → Bool} (hholds : (outline mutex).Holds c owns) (h : Wakes mutex c)
    (hstep : Step mutexLock mutexUnlock mutex c c') : Wakes mutex c' := by
  have hbefore {i : ι} {place : Place LockLabel} (hplace : c.place i = place)
      (h₃ : place ≠ .unlocking (mutexUnlock.drop 3)) (h₄ : place ≠ .unlocking (mutexUnlock.drop 4)) :
      ¬ BeforeSignal (c.place i) := by
    rw [hplace]
    exact fun hor => hor.elim h₃ h₄
  cases hstep with
  | call i hplace hr0 =>
      refine h.step_of (fun _ _ => .refl _ _ _) (.inr (.inr ⟨rfl, hbefore hplace nofun nofun⟩)) ?_
      exact fun hsleep => absurd hsleep (not_sleeping nofun nofun)
  | lockLine i hplace hnext =>
      obtain ⟨owns', hat⟩ := hholds.locking_at hplace
      obtain ⟨owns'', hchange, -⟩ := proves_locking mutex ι i _ _ _ _ _ hat hholds.word hnext
      refine h.step_of (fun j hj => next_disturbed hj hnext mutex) ?_
        (sleep_lockLine hplace hat hnext)
      rcases hchange with ⟨-, hsame⟩ | ⟨-, -, -, hone⟩
      · exact .inr (.inr ⟨hsame, hbefore hplace nofun nofun⟩)
      · exact .inl hone
  | locked i hplace hnext =>
      obtain ⟨owns', hat⟩ := hholds.locking_at hplace
      obtain ⟨owns'', hchange, -⟩ := proves_locking mutex ι i _ _ _ _ _ hat hholds.word hnext
      refine h.step_of (fun j hj => next_disturbed hj hnext mutex) ?_
        fun hsleep => absurd hsleep (not_sleeping nofun nofun)
      rcases hchange with ⟨-, hsame⟩ | ⟨-, -, -, hone⟩
      · exact .inr (.inr ⟨hsame, hbefore hplace nofun nofun⟩)
      · exact .inl hone
  | release i hplace hr0 =>
      refine h.step_of (fun _ _ => .refl _ _ _) (.inr (.inr ⟨rfl, hbefore hplace nofun nofun⟩)) ?_
      exact fun hsleep => absurd hsleep (not_sleeping nofun nofun)
  | unlockLine i hplace hnext =>
      obtain ⟨owns', hat⟩ := hholds.unlocking_at hplace
      have hd := fun j hj => @next_disturbed _ _ _ _ i j hj _ _ _ _ _ hnext mutex
      have hawake {rest : List (Line LockLabel)} {s : System ι} {P : Prop} :
          GoesToSleep ⟨s, Function.update c.place i (.unlocking rest)⟩ i → P :=
        fun hsleep => absurd hsleep (not_sleeping nofun nofun)
      cases hat with
      | entry hr0 =>
          cases hnext
          exact h.step_of hd (.inr (.inr ⟨rfl, hbefore hplace nofun nofun⟩)) hawake
      | barrier hr0 hr1 =>
          cases hnext
          exact h.step_of hd (.inr (.inr ⟨rfl, hbefore hplace nofun nofun⟩)) hawake
      | store hr0 hr1 =>
          cases hnext
          exact h.step_of hd (.inr (.inl (.inl rfl))) hawake
      | stored =>
          cases hnext
          exact h.step_of hd (.inr (.inl (.inr rfl))) hawake
      | signal =>
          -- `sev` wakes everyone
          cases hnext
          intro j hj
          cases hj.2
      | leave => cases hnext
  | unlocked i hplace hnext =>
      obtain ⟨owns', hat⟩ := hholds.unlocking_at hplace
      cases hat with
      | leave =>
          cases hnext
          refine h.step_of (fun _ _ => .refl _ _ _) (.inr (.inr ⟨rfl, hbefore hplace nofun nofun⟩)) ?_
          exact fun hsleep => absurd hsleep (not_sleeping nofun nofun)
      | entry hr0 => cases hnext
      | barrier hr0 hr1 => cases hnext
      | store hr0 hr1 => cases hnext
      | stored => cases hnext
      | signal => cases hnext
  | work i hplace p memory hmutex =>
      refine h.idle hmutex fun j hj => ?_
      by_cases hne : j = i
      · subst hne
        have heq := hj.place_eq
        dsimp only at heq
        rcases hplace with hplace | hplace <;> rw [hplace] at heq <;> exact absurd heq nofun
      · have hsame : Disturbed mutex (c.word mutex) (c.word mutex) (c.system.processors j)
            (Function.update c.system.processors i p j) := by
          rw [Function.update_of_ne hne]
          exact .refl _ _ _
        exact hj.disturbed rfl hsame
  | lapse i =>
      exact h.idle rfl fun j hj => hj.disturbed rfl (lapse_disturbed _ _ _ mutex)
  | notify i =>
      exact h.idle rfl fun j hj => hj.disturbed rfl (notify_disturbed _ _ _ mutex)

theorem wakes (h : Reachable mutexLock mutexUnlock mutex c) : Wakes mutex c := by
  refine And.right (@Reachable.induction _ _ _ _ _ _ _
    (fun c => (∃ owns, (outline mutex).Holds c owns) ∧ Wakes mutex c) _ h ?_ ?_)
  · intro c hc
    refine ⟨(outline mutex).holds ⟨c, hc, .refl⟩, fun i hi => ?_⟩
    have heq := hi.place_eq
    rw [hc.outside i] at heq
    exact absurd heq nofun
  · rintro c c' ⟨⟨owns, hholds⟩, hwakes⟩ hstep
    exact ⟨hholds.step _ hstep, hwakes.step hholds hstep⟩

/-! ## On its own -/

/-- After the test of what `strex` has answered. -/
theorem tested_alone {owns : Bool} {s : System ι} (hregs : LoopRegs mutex (s.processors i))
    (howns : (s.processors i).flags = subFlags (if owns then 0 else 1) 1)
    (hfree : owns = false → s.memory mutex = 0) :
    ∃ s', ReturnsAlone mutexLock i (mutexLock.drop 8) s s' := by
  cases owns with
  | false =>
      obtain ⟨s', hs'⟩ := retry_alone hregs (hfree rfl)
      exact ⟨s', .branch (by rw [howns]; rfl) hs'⟩
  | true => exact ⟨s, .pass (by rw [howns]; rfl) (.op rfl rfl (.bx rfl))⟩

theorem stored_alone {owns : Bool} {s : System ι} (hregs : LoopRegs mutex (s.processors i))
    (howns : (s.processors i).regs .r2 = if owns then 0 else 1)
    (hfree : owns = false → s.memory mutex = 0) :
    ∃ s', ReturnsAlone mutexLock i (mutexLock.drop 7) s s' := by
  obtain ⟨s₁, htest, hregs₁, hflags, hmemory⟩ : ∃ s₁, (Instr.cmpImm .r2 1).exec i s = some s₁ ∧
      LoopRegs mutex (s₁.processors i) ∧
        (s₁.processors i).flags = subFlags (if owns then 0 else 1) 1 ∧ s₁.memory = s.memory := by
    refine ⟨_, rfl, ?_, ?_, rfl⟩
    · rw [modify_self]
      exact ⟨hregs.r0, hregs.r1⟩
    · rw [modify_self, ← howns]
  obtain ⟨s', hs'⟩ := tested_alone hregs₁ hflags fun hno => hmemory ▸ hfree hno
  exact ⟨s', .op rfl htest hs'⟩

theorem store_alone {s : System ι} (hregs : LoopRegs mutex (s.processors i))
    (hread : Current mutex (s.processors i) (s.memory mutex)) (hne : (s.processors i).regs .r2 ≠ 1)
    (hzero : s.memory mutex = 0) : ∃ s', ReturnsAlone mutexLock i (mutexLock.drop 6) s s' := by
  obtain ⟨s₁, hstore⟩ : ∃ s₁, (Instr.strex .r2 .r1 .r0).exec i s = some s₁ := by
    rw [Instr.exec]
    dsimp only
    split <;> exact ⟨_, rfl⟩
  obtain ⟨owns, hchange, hregs₁, howns, -⟩ := exec_store hregs hread hne (.inl hzero) hstore
  obtain ⟨s', hs'⟩ := stored_alone hregs₁ howns fun hno => by
    rcases hchange with ⟨-, hsame⟩ | ⟨-, hyes, -⟩
    · exact hsame.trans hzero
    · exact absurd (hno.symm.trans hyes) Bool.false_ne_true
  exact ⟨s', .op rfl hstore hs'⟩

theorem again_alone {s : System ι} (hregs : LoopRegs mutex (s.processors i))
    (hread : Current mutex (s.processors i) (s.memory mutex))
    (hflags : (s.processors i).flags = subFlags ((s.processors i).regs .r2) 1)
    (hzero : s.memory mutex = 0) : ∃ s', ReturnsAlone mutexLock i (mutexLock.drop 5) s s' := by
  by_cases hr2 : (s.processors i).regs .r2 = 1
  · obtain ⟨s', hs'⟩ := retry_alone hregs hzero
    exact ⟨s', .branch (by rw [hflags, hr2]; rfl) hs'⟩
  · obtain ⟨s', hs'⟩ := store_alone hregs hread hr2 hzero
    refine ⟨s', .pass (Bool.eq_false_of_not_eq_true fun heq => hr2 ?_) hs'⟩
    rw [hflags] at heq
    exact eq_of_holds_eq heq

theorem wait_alone {s : System ι} (hregs : LoopRegs mutex (s.processors i))
    (hread : Current mutex (s.processors i) (s.memory mutex))
    (hflags : (s.processors i).flags = subFlags ((s.processors i).regs .r2) 1)
    (hzero : s.memory mutex = 0)
    (hawake : (s.processors i).flags.z = true → (s.processors i).event = true) :
    ∃ s', ReturnsAlone mutexLock i (mutexLock.drop 4) s s' := by
  by_cases hz : (s.processors i).flags.z = true
  · obtain ⟨s₁, hwfe, hregs₁, hread₁, hflags₁, hmemory⟩ : ∃ s₁, Instr.wfe.exec i s = some s₁ ∧
        LoopRegs mutex (s₁.processors i) ∧ Current mutex (s₁.processors i) (s₁.memory mutex) ∧
          (s₁.processors i).flags = subFlags ((s₁.processors i).regs .r2) 1 ∧
            s₁.memory = s.memory := by
      rw [Instr.exec, if_pos (hawake hz)]
      refine ⟨_, rfl, ?_, ?_, ?_, rfl⟩ <;> rw [modify_self]
      · exact ⟨hregs.r0, hregs.r1⟩
      · exact hread
      · exact hflags
    obtain ⟨s', hs'⟩ := again_alone hregs₁ hread₁ hflags₁ (hmemory ▸ hzero)
    exact ⟨s', .op hz hwfe hs'⟩
  · obtain ⟨s', hs'⟩ := again_alone hregs hread hflags hzero
    exact ⟨s', .skip (Bool.eq_false_of_not_eq_true hz) hs'⟩

/-- From any line, where the mutex is free and the processor does not go to sleep. -/
theorem awake_alone {owns : ι → Bool} {rest : List (Line LockLabel)}
    (hholds : (outline mutex).Holds c owns) (hplace : c.place i = .locking rest)
    (hzero : c.word mutex = 0) (hawake : ¬ GoesToSleep c i) :
    ∃ s', ReturnsAlone mutexLock i rest c.system s' := by
  obtain ⟨owns', hat⟩ := hholds.locking_at hplace
  have hevent (h : (c.place i = .locking (mutexLock.drop 3) ∧ (c.system.processors i).regs .r2 = 1 ∨
      c.place i = .locking (mutexLock.drop 4) ∧ (c.system.processors i).flags.z = true)) :
      (c.system.processors i).event = true :=
    Bool.eq_true_of_not_eq_false fun hno => hawake ⟨h, hno⟩
  cases hat with
  | entry hr0 =>
      obtain ⟨s₁, hline, hregs, hmemory⟩ : ∃ s₁, (Instr.ldr .r1 1).exec i c.system = some s₁ ∧
          LoopRegs mutex (s₁.processors i) ∧ s₁.memory = c.system.memory := by
        refine ⟨_, rfl, ⟨?_, ?_⟩, rfl⟩ <;> rw [modify_self]
        · exact hr0
        · rfl
      obtain ⟨s', hs'⟩ := retry_alone hregs (hmemory ▸ hzero)
      exact ⟨s', .op rfl hline hs'⟩
  | retry hregs => exact retry_alone hregs hzero
  | load hregs =>
      obtain ⟨s', hs'⟩ := retry_alone hregs hzero
      cases hs' with
      | line hnext hrest =>
          cases hnext
          exact ⟨s', hrest⟩
      | bx hnext => cases hnext
  | compare hregs hread =>
      obtain ⟨s₁, hcompare, hr2, hsame, hz⟩ : ∃ s₁, (Instr.cmp .r2 .r1).exec i c.system = some s₁ ∧
          (s₁.processors i).regs .r2 = (c.system.processors i).regs .r2 ∧
            (s₁.processors i).event = (c.system.processors i).event ∧
              (s₁.processors i).flags = subFlags ((c.system.processors i).regs .r2) 1 := by
        refine ⟨_, rfl, ?_, ?_, ?_⟩ <;> rw [modify_self]
        rw [hregs.r1]
      obtain ⟨hmemory, hregs₁, hread₁, hflags₁⟩ := exec_compare hregs hread hcompare
      obtain ⟨s', hs'⟩ := wait_alone hregs₁ hread₁ hflags₁ (hmemory ▸ hzero) fun hone => by
        rw [hsame]
        refine hevent (.inl ⟨hplace, ?_⟩)
        exact eq_of_holds_eq ((congrArg Flags.z hz).symm.trans hone)
      exact ⟨s', .op rfl hcompare hs'⟩
  | wait hregs hread hflags =>
      exact wait_alone hregs hread hflags hzero fun hz => hevent (.inr ⟨hplace, hz⟩)
  | again hregs hread hflags => exact again_alone hregs hread hflags hzero
  | store hregs hread hne => exact store_alone hregs hread hne hzero
  | stored hregs howns => exact stored_alone hregs howns fun _ => hzero
  | tested hregs howns => exact tested_alone hregs howns fun _ => hzero
  | won => exact ⟨_, .op rfl rfl (.bx rfl)⟩
  | leave => exact ⟨_, .bx rfl⟩

/-- The signal of another processor. -/
theorem signal_alone {owns : ι → Bool} {rest : List (Line LockLabel)}
    (hholds : (outline mutex).Holds c owns) (hplace : c.place i = .locking rest)
    (hzero : c.word mutex = 0) (hpending : BeforeSignal (c.place j)) :
    ∃ rest' s₁, c.place j = .unlocking rest' ∧ ReturnsAlone mutexUnlock j rest' c.system s₁ ∧
      ∃ s₂, ReturnsAlone mutexLock i rest s₁ s₂ := by
  let s₁ : System ι :=
    { c.system with processors := fun k => { c.system.processors k with event := true } }
  have hlater : ∃ s₂, ReturnsAlone mutexLock i rest s₁ s₂ := by
    have hholds₁ : (outline mutex).Holds (⟨s₁, c.place⟩ : Client ι LockLabel) owns :=
      hholds.disturb rfl fun k =>
        (hholds.at_place k).disturbed ⟨rfl, rfl, .inr ⟨rfl, fun _ => rfl⟩, fun _ => rfl⟩
    exact awake_alone hholds₁ hplace hzero fun hsleep => nomatch hsleep.2
  rcases hpending with hj | hj
  · exact ⟨_, s₁, hj, .op rfl rfl (.op rfl rfl (.bx rfl)), hlater⟩
  · exact ⟨_, s₁, hj, .op rfl rfl (.bx rfl), hlater⟩

/-- A processor in `mutex_lock` gets the mutex while it is free: at once, when it is left alone, or
after another one has executed what is left of its `mutex_unlock`. -/
theorem no_signal_lost (h : Reachable mutexLock mutexUnlock mutex c) {rest : List (Line LockLabel)}
    (hplace : c.place i = .locking rest) (hzero : c.word mutex = 0) :
    (∃ s', ReturnsAlone mutexLock i rest c.system s') ∨
      ∃ j rest' s₁, c.place j = .unlocking rest' ∧ ReturnsAlone mutexUnlock j rest' c.system s₁ ∧
        ∃ s₂, ReturnsAlone mutexLock i rest s₁ s₂ := by
  obtain ⟨owns, hholds⟩ := (outline mutex).holds h
  by_cases hsleep : GoesToSleep c i
  · rcases wakes h i hsleep with hone | ⟨j, hpending⟩
    · exact absurd (hzero.symm.trans hone) (by decide)
    · exact .inr ⟨j, signal_alone hholds hplace hzero hpending⟩
  · exact .inl (awake_alone hholds hplace hzero hsleep)

theorem no_signal_lost_idle :
    (∃ s', ReturnsAlone mutexLock 0 mutexLock (idle.system) s') ∨
      ∃ j rest' s₁, Function.update idle.place 0 (.locking mutexLock) j = .unlocking rest' ∧
        ReturnsAlone mutexUnlock j rest' idle.system s₁ ∧
          ∃ s₂, ReturnsAlone mutexLock 0 mutexLock s₁ s₂ :=
  no_signal_lost ⟨idle, idle_initial, .single (.call idle 0 rfl rfl)⟩ rfl rfl

end Signals

end Armv7

namespace Arm1176

/-- The lines of `mutex_lock`: what holds before each of them. -/
inductive Locking (mutex : UInt32) : Assertion LockLabel
  | entry {p : Processor} {m : UInt32} (hr0 : p.regs .r0 = mutex) :
      Locking mutex mutexLock false p m
  | retry {p : Processor} {m : UInt32} (hregs : LoopRegs mutex p) :
      Locking mutex (mutexLock.drop 1) false p m
  | load {p : Processor} {m : UInt32} (hregs : LoopRegs mutex p) :
      Locking mutex (mutexLock.drop 2) false p m
  | compare {p : Processor} {m : UInt32} (hregs : LoopRegs mutex p) (hread : Current mutex p m) :
      Locking mutex (mutexLock.drop 3) false p m
  | compared {p : Processor} {m : UInt32} (hregs : LoopRegs mutex p) (hread : Current mutex p m)
      (hflags : p.flags = subFlags (p.regs .r2) 1) : Locking mutex (mutexLock.drop 4) false p m
  | store {p : Processor} {m : UInt32} (hregs : LoopRegs mutex p) (hread : Current mutex p m)
      (hne : p.regs .r2 ≠ 1) (hflags : p.flags.z = false) :
      Locking mutex (mutexLock.drop 5) false p m
  | stored {p : Processor} {m : UInt32} {owns : Bool} (hregs : LoopRegs mutex p)
      (howns : p.regs .r2 = if owns then 0 else 1) (hflags : p.flags.z = false) :
      Locking mutex (mutexLock.drop 6) owns p m
  | tested {p : Processor} {m : UInt32} {owns : Bool} (hregs : LoopRegs mutex p)
      (howns : p.flags = subFlags (if owns then 0 else 1) 1) :
      Locking mutex (mutexLock.drop 7) owns p m
  | won {p : Processor} {m : UInt32} : Locking mutex (mutexLock.drop 8) true p m
  | barrier {p : Processor} {m : UInt32} : Locking mutex (mutexLock.drop 9) true p m
  | leave {p : Processor} {m : UInt32} : Locking mutex (mutexLock.drop 10) true p m
  | busy {p : Processor} {m : UInt32} (hregs : LoopRegs mutex p) :
      Locking mutex (mutexLock.drop 11) false p m
  | again {p : Processor} {m : UInt32} (hregs : LoopRegs mutex p) :
      Locking mutex (mutexLock.drop 12) false p m

inductive Unlocking (mutex : UInt32) : Assertion LockLabel
  | entry {p : Processor} {m : UInt32} (hr0 : p.regs .r0 = mutex) :
      Unlocking mutex mutexUnlock true p m
  | clear {p : Processor} {m : UInt32} (hr0 : p.regs .r0 = mutex) (hr1 : p.regs .r1 = 0) :
      Unlocking mutex (mutexUnlock.drop 1) true p m
  | barrier {p : Processor} {m : UInt32} (hr0 : p.regs .r0 = mutex) (hr1 : p.regs .r1 = 0) :
      Unlocking mutex (mutexUnlock.drop 2) true p m
  | store {p : Processor} {m : UInt32} (hr0 : p.regs .r0 = mutex) (hr1 : p.regs .r1 = 0) :
      Unlocking mutex (mutexUnlock.drop 3) true p m
  | leave {p : Processor} {m : UInt32} : Unlocking mutex (mutexUnlock.drop 4) false p m

theorem stable_locking (mutex : UInt32) : Stable (Locking mutex) mutex := by
  intro rest owns p p' m m' hd h
  cases h with
  | entry hr0 => exact .entry (hd.regs ▸ hr0)
  | retry hregs => exact .retry (hregs.of_regs hd.regs)
  | load hregs => exact .load (hregs.of_regs hd.regs)
  | compare hregs hread => exact .compare (hregs.of_regs hd.regs) (hread.disturbed hd)
  | compared hregs hread hflags =>
      exact .compared (hregs.of_regs hd.regs) (hread.disturbed hd) (by rw [hd.flags, hd.regs, hflags])
  | store hregs hread hne hflags =>
      exact .store (hregs.of_regs hd.regs) (hread.disturbed hd) (by rwa [hd.regs])
        (by rw [hd.flags, hflags])
  | stored hregs howns hflags =>
      exact .stored (hregs.of_regs hd.regs) (by rw [hd.regs, howns]) (by rw [hd.flags, hflags])
  | tested hregs howns => exact .tested (hregs.of_regs hd.regs) (by rw [hd.flags, howns])
  | won => exact .won
  | barrier => exact .barrier
  | leave => exact .leave
  | busy hregs => exact .busy (hregs.of_regs hd.regs)
  | again hregs => exact .again (hregs.of_regs hd.regs)

theorem stable_unlocking (mutex : UInt32) : Stable (Unlocking mutex) mutex := by
  intro rest owns p p' m m' hd h
  cases h with
  | entry hr0 => exact .entry (hd.regs ▸ hr0)
  | clear hr0 hr1 => exact .clear (hd.regs ▸ hr0) (hd.regs ▸ hr1)
  | barrier hr0 hr1 => exact .barrier (hd.regs ▸ hr0) (hd.regs ▸ hr1)
  | store hr0 hr1 => exact .store (hd.regs ▸ hr0) (hd.regs ▸ hr1)
  | leave => exact .leave

theorem proves_locking (mutex : UInt32) :
    Proves mutexLock (Locking mutex) mutex true Processors.Takes := by
  intro ι _ i rest owns s s' left h hword hnext
  cases h with
  | entry hr0 =>
      have hline : next mutexLock i mutexLock s =
          some (some (mutexLock.drop 1), s.modify i fun p => p.set .r1 1) := rfl
      cases hline.symm.trans hnext
      refine ⟨false, .inl ⟨rfl, rfl⟩, .retry ⟨?_, ?_⟩⟩
      · rw [modify_self]
        exact hr0
      · rw [modify_self]
        rfl
  | retry hregs =>
      cases hnext
      exact ⟨false, .inl ⟨rfl, rfl⟩, .load hregs⟩
  | load hregs =>
      cases hnext
      obtain ⟨hmemory, hregs', hread⟩ := exec_load hregs rfl
      exact ⟨false, .inl ⟨rfl, congrFun hmemory mutex⟩, .compare hregs' hread⟩
  | compare hregs hread =>
      cases hnext
      obtain ⟨hmemory, hregs', hread', hflags⟩ := exec_compare hregs hread rfl
      exact ⟨false, .inl ⟨rfl, congrFun hmemory mutex⟩, .compared hregs' hread' hflags⟩
  | compared hregs hread hflags =>
      have hline : next mutexLock i (mutexLock.drop 4) s =
          if Cond.eq.holds (s.processors i).flags then some (some (mutexLock.drop 11), s)
          else some (some (mutexLock.drop 5), s) := rfl
      rw [hline] at hnext
      split at hnext
      · cases hnext
        exact ⟨false, .inl ⟨rfl, rfl⟩, .busy hregs⟩
      · rename_i hne
        cases hnext
        refine ⟨false, .inl ⟨rfl, rfl⟩, .store hregs hread (fun h1 => hne ?_) ?_⟩
        · rw [hflags, h1]
          rfl
        · exact Bool.eq_false_of_not_eq_true hne
  | store hregs hread hne hflags =>
      have hline : next mutexLock i (mutexLock.drop 5) s =
          if (!(s.processors i).flags.z) = true then
            ((Instr.strex .r2 .r1 .r0).exec i s).map fun s => (some (mutexLock.drop 6), s)
          else some (some (mutexLock.drop 6), s) := rfl
      rw [hline, hflags, if_pos Bool.not_false] at hnext
      obtain ⟨s₁, hstrex, heq⟩ := Option.map_eq_some_iff.1 hnext
      cases heq
      obtain ⟨owns, hchange, hregs', howns, hsame⟩ := exec_store hregs hread hne hword hstrex
      exact ⟨owns, hchange, .stored hregs' howns (by rw [hsame, hflags])⟩
  | stored hregs howns hflags =>
      have hline : next mutexLock i (mutexLock.drop 6) s =
          if (!(s.processors i).flags.z) = true then
            ((Instr.cmpImm .r2 1).exec i s).map fun s => (some (mutexLock.drop 7), s)
          else some (some (mutexLock.drop 7), s) := rfl
      rw [hline, hflags, if_pos Bool.not_false] at hnext
      cases hnext
      refine ⟨owns, .inl ⟨rfl, rfl⟩, .tested ?_ ?_⟩
      · rw [modify_self]
        exact ⟨hregs.r0, hregs.r1⟩
      · rw [modify_self, ← howns]
  | tested hregs howns =>
      have hline : next mutexLock i (mutexLock.drop 7) s =
          if Cond.eq.holds (s.processors i).flags then some (some (mutexLock.drop 1), s)
          else some (some (mutexLock.drop 8), s) := rfl
      rw [hline, howns] at hnext
      cases owns with
      | false =>
          cases hnext
          exact ⟨false, .inl ⟨rfl, rfl⟩, .retry hregs⟩
      | true =>
          cases hnext
          exact ⟨true, .inl ⟨rfl, rfl⟩, .won⟩
  | won =>
      cases hnext
      exact ⟨true, .inl ⟨rfl, rfl⟩, .barrier⟩
  | barrier =>
      cases hnext
      exact ⟨true, .inl ⟨rfl, rfl⟩, .leave⟩
  | leave =>
      cases hnext
      exact ⟨true, .inl ⟨rfl, rfl⟩, rfl⟩
  | busy hregs =>
      cases hnext
      exact ⟨false, .inl ⟨rfl, rfl⟩, .again hregs⟩
  | again hregs =>
      cases hnext
      exact ⟨false, .inl ⟨rfl, rfl⟩, .retry hregs⟩

theorem proves_unlocking (mutex : UInt32) :
    Proves mutexUnlock (Unlocking mutex) mutex false Gives := by
  intro ι _ i rest owns s s' left h hword hnext
  cases h with
  | entry hr0 =>
      cases hnext
      refine ⟨true, .inl ⟨rfl, rfl⟩, .clear ?_ ?_⟩
      · rw [modify_self]
        exact hr0
      · rw [modify_self]
        rfl
  | clear hr0 hr1 =>
      cases hnext
      refine ⟨true, .inl ⟨rfl, rfl⟩, .barrier ?_ ?_⟩
      · rw [modify_self]
        exact hr0
      · rw [modify_self]
        exact hr1
  | barrier hr0 hr1 =>
      cases hnext
      exact ⟨true, .inl ⟨rfl, rfl⟩, .store hr0 hr1⟩
  | store hr0 hr1 =>
      cases hnext
      refine ⟨false, .inr ⟨rfl, rfl, ?_⟩, .leave⟩
      rw [store_memory, hr0, hr1, Function.update_self]
  | leave =>
      cases hnext
      exact ⟨false, .inl ⟨rfl, rfl⟩, rfl⟩

/-- From the head of the loop on, where the mutex is free. -/
theorem retry_alone {ι : Type} [DecidableEq ι] {mutex : UInt32} {i : ι} {s : System ι}
    (hregs : LoopRegs mutex (s.processors i)) (hzero : s.memory mutex = 0) :
    ∃ s', ReturnsAlone mutexLock i (mutexLock.drop 1) s s' := by
  obtain ⟨s₁, s₂, s₃, s₄, hload, hcompare, hstore, htest, hflags₂, hflags₃, hflags₄⟩ :=
    exec_free hregs hzero
  have heq₂ : Cond.eq.holds (s₂.processors i).flags = false := by rw [hflags₂]; rfl
  have hne₂ : Cond.ne.holds (s₂.processors i).flags = true := by rw [hflags₂]; rfl
  have hne₃ : Cond.ne.holds (s₃.processors i).flags = true := by rw [hflags₃]; rfl
  have heq₄ : Cond.eq.holds (s₄.processors i).flags = false := by rw [hflags₄]; rfl
  exact ⟨_, .label (.op rfl hload (.op rfl hcompare (.pass heq₂ (.op hne₂ hstore
    (.op hne₃ htest (.pass heq₄ (.op rfl rfl (.op rfl rfl (.bx rfl)))))))))⟩

/-- The proof outline of `locks.arm1176.s`. -/
def outline (mutex : UInt32) : Outline mutexLock mutexUnlock mutex where
  locking := Locking mutex
  unlocking := Unlocking mutex
  stable_locking := stable_locking mutex
  stable_unlocking := stable_unlocking mutex
  call _ _ hr0 := .entry hr0
  release _ _ hr0 := .entry hr0
  lock := proves_locking mutex
  unlock := proves_unlocking mutex

/-! ## On its own -/

section Alone

variable {ι : Type} [DecidableEq ι] {mutex : UInt32} {c : Client ι LockLabel} {i : ι} {s : System ι}

theorem busy_alone (hregs : LoopRegs mutex (s.processors i)) (hzero : s.memory mutex = 0) :
    ∃ s', ReturnsAlone mutexLock i (mutexLock.drop 11) s s' := by
  obtain ⟨s', hs'⟩ := retry_alone hregs hzero
  exact ⟨s', .label (.branch rfl hs')⟩

theorem won_alone : ∃ s', ReturnsAlone mutexLock i (mutexLock.drop 8) s s' :=
  ⟨_, .op rfl rfl (.op rfl rfl (.bx rfl))⟩

theorem tested_alone {owns : Bool} (hregs : LoopRegs mutex (s.processors i))
    (howns : (s.processors i).flags = subFlags (if owns then 0 else 1) 1)
    (hfree : owns = false → s.memory mutex = 0) :
    ∃ s', ReturnsAlone mutexLock i (mutexLock.drop 7) s s' := by
  cases owns with
  | false =>
      obtain ⟨s', hs'⟩ := retry_alone hregs (hfree rfl)
      exact ⟨s', .branch (by rw [howns]; rfl) hs'⟩
  | true =>
      obtain ⟨s', hs'⟩ := @won_alone ι _ i s
      exact ⟨s', .pass (by rw [howns]; rfl) hs'⟩

theorem stored_alone {owns : Bool} (hregs : LoopRegs mutex (s.processors i))
    (howns : (s.processors i).regs .r2 = if owns then 0 else 1)
    (hflags : (s.processors i).flags.z = false) (hfree : owns = false → s.memory mutex = 0) :
    ∃ s', ReturnsAlone mutexLock i (mutexLock.drop 6) s s' := by
  obtain ⟨s₁, htest, hregs₁, hflags₁, hmemory⟩ : ∃ s₁, (Instr.cmpImm .r2 1).exec i s = some s₁ ∧
      LoopRegs mutex (s₁.processors i) ∧
        (s₁.processors i).flags = subFlags (if owns then 0 else 1) 1 ∧ s₁.memory = s.memory := by
    refine ⟨_, rfl, ?_, ?_, rfl⟩
    · rw [modify_self]
      exact ⟨hregs.r0, hregs.r1⟩
    · rw [modify_self, ← howns]
  obtain ⟨s', hs'⟩ := tested_alone hregs₁ hflags₁ fun hno => hmemory ▸ hfree hno
  exact ⟨s', .op (congrArg Bool.not hflags) htest hs'⟩

theorem store_alone (hregs : LoopRegs mutex (s.processors i))
    (hread : Current mutex (s.processors i) (s.memory mutex)) (hne : (s.processors i).regs .r2 ≠ 1)
    (hflags : (s.processors i).flags.z = false) (hzero : s.memory mutex = 0) :
    ∃ s', ReturnsAlone mutexLock i (mutexLock.drop 5) s s' := by
  obtain ⟨s₁, hstore⟩ : ∃ s₁, (Instr.strex .r2 .r1 .r0).exec i s = some s₁ := by
    rw [Instr.exec]
    dsimp only
    split <;> exact ⟨_, rfl⟩
  obtain ⟨owns, hchange, hregs₁, howns, hsame⟩ := exec_store hregs hread hne (.inl hzero) hstore
  have hflags₁ : (s₁.processors i).flags.z = false := by rw [hsame, hflags]
  obtain ⟨s', hs'⟩ := stored_alone hregs₁ howns hflags₁ fun hno => by
    rcases hchange with ⟨-, hword⟩ | ⟨-, hyes, -⟩
    · exact hword.trans hzero
    · exact absurd (hno.symm.trans hyes) Bool.false_ne_true
  exact ⟨s', .op (congrArg Bool.not hflags) hstore hs'⟩

theorem compared_alone (hregs : LoopRegs mutex (s.processors i))
    (hread : Current mutex (s.processors i) (s.memory mutex))
    (hflags : (s.processors i).flags = subFlags ((s.processors i).regs .r2) 1)
    (hzero : s.memory mutex = 0) : ∃ s', ReturnsAlone mutexLock i (mutexLock.drop 4) s s' := by
  by_cases hr2 : (s.processors i).regs .r2 = 1
  · obtain ⟨s', hs'⟩ := busy_alone hregs hzero
    exact ⟨s', .branch (by rw [hflags, hr2]; rfl) hs'⟩
  · have hne : Cond.eq.holds (s.processors i).flags = false := by
      refine Bool.eq_false_of_not_eq_true fun heq => hr2 ?_
      rw [hflags] at heq
      exact eq_of_holds_eq heq
    obtain ⟨s', hs'⟩ := store_alone hregs hread hr2 hne hzero
    exact ⟨s', .pass hne hs'⟩

/-- A processor in `mutex_lock` gets the mutex while it is free and the others rest. -/
theorem lock_alone (h : Reachable mutexLock mutexUnlock mutex c) {rest : List (Line LockLabel)}
    (hplace : c.place i = .locking rest) (hzero : c.word mutex = 0) :
    ∃ s', ReturnsAlone mutexLock i rest c.system s' := by
  obtain ⟨owns, hholds⟩ := (outline mutex).holds h
  obtain ⟨owns', hat⟩ := hholds.locking_at hplace
  cases hat with
  | entry hr0 =>
      obtain ⟨s₁, hline, hregs, hmemory⟩ : ∃ s₁, (Instr.ldr .r1 1).exec i c.system = some s₁ ∧
          LoopRegs mutex (s₁.processors i) ∧ s₁.memory = c.system.memory := by
        refine ⟨_, rfl, ⟨?_, ?_⟩, rfl⟩ <;> rw [modify_self]
        · exact hr0
        · rfl
      obtain ⟨s', hs'⟩ := retry_alone hregs (hmemory ▸ hzero)
      exact ⟨s', .op rfl hline hs'⟩
  | retry hregs => exact retry_alone hregs hzero
  | load hregs =>
      obtain ⟨s', hs'⟩ := retry_alone hregs hzero
      cases hs' with
      | line hnext hrest =>
          cases hnext
          exact ⟨s', hrest⟩
      | bx hnext => cases hnext
  | compare hregs hread =>
      obtain ⟨s₁, hcompare⟩ : ∃ s₁, (Instr.cmp .r2 .r1).exec i c.system = some s₁ := ⟨_, rfl⟩
      obtain ⟨hmemory, hregs₁, hread₁, hflags₁⟩ := exec_compare hregs hread hcompare
      obtain ⟨s', hs'⟩ := compared_alone hregs₁ hread₁ hflags₁ (hmemory ▸ hzero)
      exact ⟨s', .op rfl hcompare hs'⟩
  | compared hregs hread hflags => exact compared_alone hregs hread hflags hzero
  | store hregs hread hne hflags => exact store_alone hregs hread hne hflags hzero
  | stored hregs howns hflags => exact stored_alone hregs howns hflags fun _ => hzero
  | tested hregs howns => exact tested_alone hregs howns fun _ => hzero
  | won => exact won_alone
  | barrier => exact ⟨_, .op rfl rfl (.bx rfl)⟩
  | leave => exact ⟨_, .bx rfl⟩
  | busy hregs => exact busy_alone hregs hzero
  | again hregs =>
      obtain ⟨s', hs'⟩ := retry_alone hregs hzero
      exact ⟨s', .branch rfl hs'⟩

theorem lock_alone_idle : ∃ s', ReturnsAlone mutexLock 0 mutexLock idle.system s' :=
  lock_alone ⟨idle, idle_initial, .single (.call idle 0 rfl rfl)⟩ rfl rfl

end Alone

end Arm1176

/-! ## Mutual exclusion -/

/-- With the listings of either file, no two processors are between `mutex_lock` and
`mutex_unlock`. -/
theorem mutex_exclusive {ι : Type} [DecidableEq ι] {mutex : UInt32}
    {lock unlock : List (Line LockLabel)} {c : Client ι LockLabel} {i j : ι}
    (hlisting : lock = Armv7.mutexLock ∧ unlock = Armv7.mutexUnlock ∨
      lock = Arm1176.mutexLock ∧ unlock = Arm1176.mutexUnlock)
    (h : Reachable lock unlock mutex c) (hi : c.place i = .inside) (hj : c.place j = .inside) :
    i = j := by
  rcases hlisting with ⟨rfl, rfl⟩ | ⟨rfl, rfl⟩
  · exact mutualExclusion (Armv7.outline mutex) h hi hj
  · exact mutualExclusion (Arm1176.outline mutex) h hi hj

theorem mutex_exclusive_idle :
    (∃ c : Client (Fin 2) LockLabel, Reachable Armv7.mutexLock Armv7.mutexUnlock 4096 c ∧
        c.place 0 = .inside ∧ ∀ j, c.place j = .inside → 0 = j) ∧
      ∃ c : Client (Fin 2) LockLabel, Reachable Arm1176.mutexLock Arm1176.mutexUnlock 4096 c ∧
        c.place 0 = .inside ∧ ∀ j, c.place j = .inside → 0 = j := by
  have hregs : LoopRegs 4096 ((idle.system.modify 0 fun p => p.set .r1 1).processors 0) := ⟨rfl, rfl⟩
  constructor
  · obtain ⟨s, hs⟩ := Armv7.retry_alone hregs rfl
    have hline : ReturnsAlone Armv7.mutexLock 0 Armv7.mutexLock idle.system s := .op rfl rfl hs
    have hreach : Reachable Armv7.mutexLock Armv7.mutexUnlock 4096
        (⟨s, Function.update (Function.update idle.place 0 (.locking Armv7.mutexLock)) 0 .inside⟩ :
          Client (Fin 2) LockLabel) :=
      ⟨idle, idle_initial, .head (.call idle 0 rfl rfl)
        (@ReturnsAlone.steps _ _ _ _ _ _ _ ⟨_, _⟩ _ _ _ hline rfl)⟩
    exact ⟨_, hreach, rfl, fun j hj => mutex_exclusive (.inl ⟨rfl, rfl⟩) hreach rfl hj⟩
  · obtain ⟨s, hs⟩ := Arm1176.retry_alone hregs rfl
    have hline : ReturnsAlone Arm1176.mutexLock 0 Arm1176.mutexLock idle.system s := .op rfl rfl hs
    have hreach : Reachable Arm1176.mutexLock Arm1176.mutexUnlock 4096
        (⟨s, Function.update (Function.update idle.place 0 (.locking Arm1176.mutexLock)) 0 .inside⟩ :
          Client (Fin 2) LockLabel) :=
      ⟨idle, idle_initial, .head (.call idle 0 rfl rfl)
        (@ReturnsAlone.steps _ _ _ _ _ _ _ ⟨_, _⟩ _ _ _ hline rfl)⟩
    exact ⟨_, hreach, rfl, fun j hj => mutex_exclusive (.inr ⟨rfl, rfl⟩) hreach rfl hj⟩

end Vmwos
