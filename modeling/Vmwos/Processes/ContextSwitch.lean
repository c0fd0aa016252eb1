import Mathlib.Data.List.OfFn
import Vmwos.Library.AddressSpace
import Vmwos.Processes.Process

/-!
# Context switches

The registers of the processes: the handlers in assembler that save them in the control block of the
running process and restore them, `process_switch` and `process_save`, and `vfork`, which copies a
control block with the kernel stack in it.

A run is a list of events. `Views` follows what each process does to its own registers, and
`registers_kept` says that this is what it finds in them whenever it runs, whatever interrupts it
and whichever processes run in between.
-/

set_option autoImplicit false

namespace Vmwos

namespace ContextSwitch

open Library

/-! ## Registers -/

/-- `r0` to `r14`. -/
abbrev Registers := Fin 15 → UInt32

/-- The registers of a process in user mode. -/
structure UserState where
  r : Registers
  pc : UInt32
  cpsr : UInt32

/-- As they are stored in `user_state`. -/
def UserState.words (u : UserState) : List UInt32 := List.ofFn u.r ++ [u.pc, u.cpsr]

/-- The processor. In a mode for exceptions `r13` and `r14` are those of this mode, and the user's
are set aside. Every handler begins with setting them, so one bank stands for those of all these
modes. -/
structure Cpu where
  r : Registers
  userSp : UInt32
  userLr : UInt32
  pc : UInt32
  cpsr : UInt32
  spsr : UInt32
  exception : Bool

def Cpu.set (c : Cpu) (rd : Fin 15) (w : UInt32) : Cpu := { c with r := Function.update c.r rd w }

section Set

variable {c : Cpu} {rd i : Fin 15} {w : UInt32}

@[simp] theorem Cpu.set_same : (c.set rd w).r rd = w := by
  unfold Cpu.set
  exact Function.update_self rd w c.r

@[simp] theorem Cpu.set_other (hi : i ≠ rd) : (c.set rd w).r i = c.r i := by
  unfold Cpu.set
  exact Function.update_of_ne hi w c.r

@[simp] theorem Cpu.set_spsr : (c.set rd w).spsr = c.spsr := rfl

@[simp] theorem Cpu.set_exception : (c.set rd w).exception = c.exception := rfl

end Set

/-- `{r0-lr}^` -/
def Cpu.userRegs (c : Cpu) : Registers :=
  Function.update (Function.update c.r 13 c.userSp) 14 c.userLr

/-- A handler may set its own `r13` and `r14`. -/
@[simp] theorem Cpu.set_userRegs {c : Cpu} {rd : Fin 15} {w : UInt32} (hrd : rd = 13 ∨ rd = 14) :
    (c.set rd w).userRegs = c.userRegs := by
  funext i
  unfold Cpu.userRegs Cpu.set
  by_cases h14 : i = 14
  · rw [h14, Function.update_self, Function.update_self]
  · rw [Function.update_of_ne h14, Function.update_of_ne h14]
    by_cases h13 : i = 13
    · rw [h13, Function.update_self, Function.update_self]
    · rw [Function.update_of_ne h13, Function.update_of_ne h13]
      refine Function.update_of_ne ?_ w c.r
      rintro rfl
      exact hrd.elim h13 h14

/-- What the process sees while it runs. -/
def Cpu.userState (c : Cpu) : UserState := ⟨c.r, c.pc, c.cpsr⟩

/-- The handlers. -/
inductive Handler where
  | interrupt
  | dataAbort
  | swi
  deriving DecidableEq, Repr

/-- The address in `r14`, from the one of the instruction to be executed next, the one that aborted
or the `swi`. -/
def Handler.link : Handler → UInt32 → UInt32
  | .interrupt, pc => pc + 4
  | .dataAbort, pc => pc + 8
  | .swi, pc => pc + 4

/-- Where the process goes on afterwards. -/
def Handler.next : Handler → UInt32 → UInt32
  | .interrupt, pc => pc
  | .dataAbort, pc => pc + 4
  | .swi, pc => pc + 4

/-- The registers with which the process goes on, when the C function has returned `r0`. -/
def Handler.result : Handler → UInt32 → UserState → UserState
  | .swi, r0, u => { u with r := Function.update u.r 0 r0 }
  | _, _, u => u

/-- What the processor does before the first instruction of a handler. -/
def Cpu.take (c : Cpu) (h : Handler) (sp cpsr : UInt32) : Cpu where
  r := Function.update (Function.update c.r 13 sp) 14 (h.link c.pc)
  userSp := c.r 13
  userLr := c.r 14
  pc := c.pc
  cpsr := cpsr
  spsr := c.cpsr
  exception := true

@[simp] theorem Cpu.take_userRegs {c : Cpu} {h : Handler} {sp cpsr : UInt32} :
    (c.take h sp cpsr).userRegs = c.r := by
  funext i
  unfold Cpu.take Cpu.userRegs
  by_cases h14 : i = 14
  · rw [h14, Function.update_self]
  · rw [Function.update_of_ne h14]
    by_cases h13 : i = 13
    · rw [h13, Function.update_self]
    · rw [Function.update_of_ne h13]
      exact (Function.update_of_ne h14 _ _).trans (Function.update_of_ne h13 _ _)

@[simp] theorem Cpu.take_link {c : Cpu} {h : Handler} {sp cpsr : UInt32} :
    (c.take h sp cpsr).r 14 = h.link c.pc := by
  unfold Cpu.take
  exact Function.update_self 14 (h.link c.pc) (Function.update c.r 13 sp)

@[simp] theorem Cpu.take_spsr {c : Cpu} {h : Handler} {sp cpsr : UInt32} :
    (c.take h sp cpsr).spsr = c.cpsr := rfl

@[simp] theorem Cpu.take_exception {c : Cpu} {h : Handler} {sp cpsr : UInt32} :
    (c.take h sp cpsr).exception = true := rfl

/-! ## Instructions -/

inductive Instr where
  /-- `ldr rd, =w`, or a value that the compiler has put into the register -/
  | const (rd : Fin 15) (w : UInt32)
  /-- `mov rd, rn` -/
  | mov (rd rn : Fin 15)
  /-- `add rd, rn, #imm` -/
  | add (rd rn : Fin 15) (imm : UInt32)
  /-- `sub rd, rn, #imm` -/
  | sub (rd rn : Fin 15) (imm : UInt32)
  /-- `ldr rd, [rn, #offset]` -/
  | ldr (rd rn : Fin 15) (offset : UInt32)
  /-- `str rt, [rn, #offset]`, or `stmia rn, {rt}` -/
  | str (rt rn : Fin 15) (offset : UInt32)
  /-- `stmia rn, {r0-lr}` -/
  | stm (rn : Fin 15)
  /-- `ldmia rn, {r0-r14}` -/
  | ldm (rn : Fin 15)
  /-- `stmia rn, {r0-lr}^` -/
  | stmUser (rn : Fin 15)
  /-- `ldmia rn, {r0-lr}^` -/
  | ldmUser (rn : Fin 15)
  /-- `mrs rd, SPSR` -/
  | mrs (rd : Fin 15)
  /-- `msr SPSR, rn` -/
  | msr (rn : Fin 15)
  /-- `movs pc, lr` -/
  | movsPcLr
  deriving Repr

/-- The registers at an address. -/
def registersAt (memory : Memory) (a : UInt32) : Registers :=
  fun i => memory.loadWord (a + UInt32.ofNat (4 * i))

def Instr.exec : Instr → Cpu × Memory → Cpu × Memory
  | .const rd w, (c, m) => (c.set rd w, m)
  | .mov rd rn, (c, m) => (c.set rd (c.r rn), m)
  | .add rd rn imm, (c, m) => (c.set rd (c.r rn + imm), m)
  | .sub rd rn imm, (c, m) => (c.set rd (c.r rn - imm), m)
  | .ldr rd rn offset, (c, m) => (c.set rd (m.loadWord (c.r rn + offset)), m)
  | .str rt rn offset, (c, m) => (c, m.storeWord (c.r rn + offset) (c.r rt))
  | .stm rn, (c, m) => (c, m.storeWords (c.r rn) (List.ofFn c.r))
  | .ldm rn, (c, m) => ({ c with r := registersAt m (c.r rn) }, m)
  | .stmUser rn, (c, m) => (c, m.storeWords (c.r rn) (List.ofFn c.userRegs))
  | .ldmUser rn, (c, m) =>
      let user := registersAt m (c.r rn)
      ({ c with
        r := Function.update (Function.update user 13 (c.r 13)) 14 (c.r 14)
        userSp := user 13
        userLr := user 14 }, m)
  | .mrs rd, (c, m) => (c.set rd c.spsr, m)
  | .msr rn, (c, m) => ({ c with spsr := c.r rn }, m)
  | .movsPcLr, (c, m) =>
      ({ c with r := c.userRegs, pc := c.r 14, cpsr := c.spsr, exception := false }, m)

def execAll (listing : List Instr) (s : Cpu × Memory) : Cpu × Memory :=
  listing.foldl (fun s i => i.exec s) s

/-! ## The listings

`currentProc` is the address of `current_proc`. In a control block `user_state.pc` is at 60,
`user_state.spsr` at 64 and `kernel_state` at 68, with its own `spsr` 60 bytes behind that; its
stack ends after 8192 bytes. -/

section Listings

variable (currentProc : UInt32)

/-- `interrupt_handler`, `data_abort_handler` and `swi_handler` up to the call of the C function. -/
def entryListing : Handler → List Instr
  | .interrupt =>
      [.sub 14 14 4, .const 13 currentProc, .ldr 13 13 0, .stmUser 13, .str 14 13 60, .mrs 0,
        .str 0 13 64, .add 13 13 8192]
  | .dataAbort =>
      [.sub 14 14 4, .const 13 currentProc, .ldr 13 13 0, .stmUser 13, .str 14 13 60, .mrs 0,
        .str 0 13 64, .mov 0 13, .add 13 13 8192]
  | .swi =>
      [.const 13 currentProc, .ldr 13 13 0, .stmUser 13, .str 14 13 60, .mrs 12, .str 12 13 64,
        .add 13 13 8192]

/-- The three handlers from the return of the C function on. -/
def exitListing : Handler → List Instr
  | .interrupt => [.sub 13 13 8192, .ldr 0 13 64, .msr 0, .ldr 14 13 60, .ldmUser 13, .movsPcLr]
  | .dataAbort => [.sub 13 13 8192, .ldr 0 13 64, .msr 0, .ldr 14 13 60, .ldmUser 13, .movsPcLr]
  | .swi =>
      [.sub 13 13 8192, .str 0 13 0, .ldr 0 13 64, .msr 0, .ldr 14 13 60, .ldmUser 13, .movsPcLr]

/-- The first half of `process_switch`. -/
def saveListing (old : UInt32) : List Instr :=
  [.const 2 (old + 68), .stm 2, .add 2 2 60, .mrs 0, .str 0 2 0]

/-- The second half of `process_switch`, up to its return. -/
def restoreListing (new : UInt32) : List Instr :=
  [.const 2 (new + 68), .ldr 0 2 60, .msr 0, .ldm 2]

/-- `process_switch` -/
def processSwitch (old new : UInt32) (s : Cpu × Memory) : Cpu × Memory :=
  let (c, m) := execAll (saveListing old) s
  execAll (restoreListing new) (c, m.storeWord currentProc new)

/-- `process_save`, with its second argument in `r1`. -/
def processSave (proc newStack : UInt32) : List Instr :=
  [.const 1 newStack, .const 2 (proc + 68), .stm 2, .add 2 2 52, .str 1 2 0, .add 2 2 8, .mrs 0,
    .str 0 2 0]

/-- `enter_kernelspace` -/
def enterKernelspace (shellAddress : UInt32) : List Instr :=
  [.const 14 shellAddress, .const 13 currentProc, .ldr 13 13 0, .const 0 0x1f, .msr 0, .movsPcLr]

end Listings

/-! ## The machine -/

/-- What a control block is used for: for no process, for the idle task before it has run, for a
process that has been switched away from, or for the running one. -/
inductive Slot where
  | free
  | fresh
  | suspended
  | running
  deriving DecidableEq, Repr

/-- Where `all_processes` and `current_proc` are. -/
structure Layout where
  allProcesses : UInt32
  currentProc : UInt32
  apart : 131072 ≤ distance allProcesses currentProc
  whole : distance allProcesses currentProc + 4 ≤ 4294967296

/-- The address of a control block. -/
def Layout.address (L : Layout) (p : ProcId) : UInt32 := L.allProcesses + UInt32.ofNat (8192 * p)

/-- A stack pointer is within the stack of a control block. -/
def Layout.OnStack (L : Layout) (p : ProcId) (sp : UInt32) : Prop :=
  0 < distance (L.address p) sp ∧ distance (L.address p) sp ≤ 8192

/-- `handler` is the handler into which the code on each kernel stack returns. -/
structure Machine where
  cpu : Cpu
  memory : Memory
  slot : ProcId → Slot
  handler : ProcId → Handler

/-- Nothing is written to `current_proc` and to the saved registers of the processes. -/
structure Layout.Spares (L : Layout) (slot : ProcId → Slot) (m m' : Memory) : Prop where
  current : ∀ x, distance L.currentProc x < 4 → m' x = m x
  saved : ∀ p, slot p ≠ .free → ∀ x, distance (L.address p) x < 132 → m' x = m x

inductive Event where
  /-- The running process executes an instruction. -/
  | user (f : UserState → UserState)
  | entry (h : Handler)
  /-- C code of the kernel. -/
  | kernel
  /-- `execve` sets the registers of the running process. -/
  | exec (u : UserState)
  | switch (new : ProcId)
  /-- The idle task is switched to for the first time, and finds whatever there is. -/
  | start (new : ProcId) (u : UserState)
  | vfork (child : ProcId)
  | destroy (p : ProcId)
  | exit (h : Handler) (r0 : UInt32)

/-- The registers that a control block holds. -/
def SavedAt (memory : Memory) (a : UInt32) (u : UserState) : Prop :=
  memory.loadWords a 17 = u.words

/-- One event. A handler is not interrupted, and the code of the kernel stays on the stack that it
is on; user code reaches none of what the kernel has saved. -/
inductive Step (L : Layout) : Machine → Event → Machine → Prop
  | user (m : Machine) (f : UserState → UserState) (memory : Memory)
      (hmode : m.cpu.exception = false) (hspares : L.Spares m.slot m.memory memory) :
      Step L m (.user f)
        { m with
          cpu := { m.cpu with
            r := (f m.cpu.userState).r
            pc := (f m.cpu.userState).pc
            cpsr := (f m.cpu.userState).cpsr }
          memory }
  | entry (m : Machine) (h : Handler) (p : ProcId) (sp cpsr : UInt32)
      (hmode : m.cpu.exception = false) (hp : m.slot p = .running) {s : Cpu × Memory}
      (hs : s = execAll (entryListing L.currentProc h) (m.cpu.take h sp cpsr, m.memory)) :
      Step L m (.entry h)
        { m with
          cpu := s.1
          memory := s.2
          handler := Function.update m.handler p h }
  | kernel (m : Machine) (r : Registers) (cpsr : UInt32) (memory : Memory)
      (hmode : m.cpu.exception = true) (hstack : ∀ p, L.OnStack p (m.cpu.r 13) → L.OnStack p (r 13))
      (hspares : L.Spares m.slot m.memory memory) :
      Step L m .kernel { m with cpu := { m.cpu with r, cpsr }, memory }
  | exec (m : Machine) (p : ProcId) (u : UserState) (hmode : m.cpu.exception = true)
      (hp : m.slot p = .running) :
      Step L m (.exec u) { m with memory := m.memory.storeWords (L.address p) u.words }
  | switch (m : Machine) (old new : ProcId) (hmode : m.cpu.exception = true)
      (hold : m.slot old = .running) (hnew : m.slot new = .suspended) {s : Cpu × Memory}
      (hs : s = processSwitch L.currentProc (L.address old) (L.address new) (m.cpu, m.memory)) :
      Step L m (.switch new)
        { m with
          cpu := s.1
          memory := s.2
          slot := Function.update (Function.update m.slot old .suspended) new .running }
  | start (m : Machine) (old new : ProcId) (hmode : m.cpu.exception = true)
      (hold : m.slot old = .running) (hnew : m.slot new = .fresh) {s s' : Cpu × Memory}
      (hs : s = processSwitch L.currentProc (L.address old) (L.address new) (m.cpu, m.memory))
      (hs' : s' = execAll (enterKernelspace L.currentProc (s.2.loadWord (L.address new + 60))) s) :
      Step L m (.start new s'.1.userState)
        { m with
          cpu := s'.1
          memory := s'.2
          slot := Function.update (Function.update m.slot old .suspended) new .running }
  | vfork (m : Machine) (parent child : ProcId) (hmode : m.cpu.exception = true)
      (hparent : m.slot parent = .running) (hchild : m.slot child = .free) {s : Cpu × Memory}
      (hs : s = execAll (processSave (L.address child)
        (L.address child + (m.cpu.r 13 - L.address parent)))
          (m.cpu, m.memory.copyRange (L.address child) (L.address parent) 0 8192)) :
      Step L m (.vfork child)
        { m with
          cpu := s.1
          memory := s.2
          slot := Function.update m.slot child .suspended
          handler := Function.update m.handler child (m.handler parent) }
  | destroy (m : Machine) (p : ProcId) (hmode : m.cpu.exception = true)
      (hp : m.slot p = .suspended) :
      Step L m (.destroy p) { m with slot := Function.update m.slot p .free }
  | exit (m : Machine) (p : ProcId) (hmode : m.cpu.exception = true)
      (htop : m.cpu.r 13 = L.address p + 8192) {s : Cpu × Memory}
      (hs : s = execAll (exitListing (m.handler p)) (m.cpu, m.memory)) :
      Step L m (.exit (m.handler p) (m.cpu.r 0)) { m with cpu := s.1, memory := s.2 }

/-- A run, with its events. -/
inductive Run (L : Layout) : Machine → List Event → Machine → Prop
  | nil (m : Machine) : Run L m [] m
  | snoc {m₀ m m' : Machine} {es : List Event} {e : Event} (hrun : Run L m₀ es m)
      (hstep : Step L m e m') : Run L m₀ (es ++ [e]) m'

/-! ## What each process does to its registers -/

structure Views where
  current : ProcId
  state : ProcId → UserState

/-- Nothing but the running process itself changes its registers: an instruction of its own, the
result of a call to the kernel, or `execve`. A child begins with those of its parent. -/
def Views.follow (v : Views) : Event → Views
  | .user f => { v with state := Function.update v.state v.current (f (v.state v.current)) }
  | .entry h =>
      let u := v.state v.current
      { v with state := Function.update v.state v.current { u with pc := h.next u.pc } }
  | .kernel => v
  | .exec u => { v with state := Function.update v.state v.current u }
  | .switch new => { v with current := new }
  | .start new u => ⟨new, Function.update v.state new u⟩
  | .vfork child => { v with state := Function.update v.state child (v.state v.current) }
  | .destroy _ => v
  | .exit h r0 =>
      { v with state := Function.update v.state v.current (h.result r0 (v.state v.current)) }

/-! ## The control blocks -/

section Blocks

variable {L : Layout} {p q : ProcId} {x : UInt32} {k : Nat}

theorem Layout.distance_address (L : Layout) (p : ProcId) (x : UInt32) :
    distance (L.address p) x =
      (distance L.allProcesses x + (4294967296 - 8192 * p)) % 4294967296 := by
  have hp : p.val < 16 := p.isLt
  exact distance_later _ _ (by omega)

/-- The control blocks do not overlap. -/
theorem Layout.blocks_apart (hpq : p ≠ q) (hx : distance (L.address p) x < 8192) :
    8192 ≤ distance (L.address q) x := by
  have hp : p.val < 16 := p.isLt
  have hq : q.val < 16 := q.isLt
  have hne : p.val ≠ q.val := mt Fin.ext hpq
  have hlt := distance_lt L.allProcesses x
  rw [L.distance_address] at hx ⊢
  omega

/-- `current_proc` is in no control block. -/
theorem Layout.current_apart (hx : distance L.currentProc x < 4) (p : ProcId) :
    8192 ≤ distance (L.address p) x := by
  have hp : p.val < 16 := p.isLt
  have hlt := distance_lt L.allProcesses x
  have hwhole := L.whole
  have hapart := L.apart
  rw [← start_add_distance L.allProcesses L.currentProc, distance_later _ _ (by omega)] at hx
  rw [L.distance_address]
  omega

/-- Each stack pointer is on the stack of one process only. -/
theorem Layout.OnStack.unique {sp : UInt32} (hp : L.OnStack p sp) (hq : L.OnStack q sp) :
    p = q := by
  have hp' : p.val < 16 := p.isLt
  have hq' : q.val < 16 := q.isLt
  have hlt := distance_lt L.allProcesses sp
  obtain ⟨hp₀, hp₁⟩ := hp
  obtain ⟨hq₀, hq₁⟩ := hq
  rw [L.distance_address] at hp₀ hp₁ hq₀ hq₁
  exact Fin.ext (by omega)

theorem Layout.onStack_top (L : Layout) (p : ProcId) : L.OnStack p (L.address p + 8192) := by
  have htop : distance (L.address p) (L.address p + 8192) = 8192 :=
    distance_add (k := 8192) (by omega)
  exact ⟨by omega, by omega⟩

/-- The registers of the kernel are behind those of the user. -/
theorem kernelState_far {a : UInt32} (hx : distance a x < 68 ∨ 132 ≤ distance a x) :
    64 ≤ distance (a + 68) x := by
  have hlater := distance_later (k := 68) a x (by omega)
  have hlt := distance_lt a x
  have hplace : a + UInt32.ofNat 68 = a + 68 := rfl
  rw [hplace] at hlater
  omega

end Blocks

/-! ## Saved registers -/

section Saved

variable {memory memory' : Memory} {a : UInt32} {u : UserState}

@[simp] theorem UserState.length_words (u : UserState) : u.words.length = 17 := by
  simp [UserState.words]

theorem savedAt_storeWords : SavedAt (memory.storeWords a u.words) a u := by
  have hback := @Memory.loadWords_storeWords memory a u.words (by simp)
  rwa [u.length_words] at hback

theorem SavedAt.congr (h : SavedAt memory a u)
    (hsame : ∀ x, distance a x < 68 → memory' x = memory x) : SavedAt memory' a u := by
  rw [SavedAt, Memory.loadWords_congr (by omega) hsame]
  exact h

theorem SavedAt.loadWord {i : Nat} (h : SavedAt memory a u) (hi : i < u.words.length) :
    memory.loadWord (a + UInt32.ofNat (4 * i)) = u.words[i] := by
  rw [← Memory.getElem_loadWords (n := 17) (by simpa using hi)]
  exact List.getElem_of_eq h _

theorem SavedAt.registersAt (h : SavedAt memory a u) : registersAt memory a = u.r := by
  funext i
  have hi : i.val < u.words.length := by simp; omega
  have hword : u.words[i.val] = u.r i :=
    (List.getElem_append_left (by simp)).trans (List.getElem_ofFn (by simp))
  exact (h.loadWord hi).trans hword

theorem SavedAt.pc (h : SavedAt memory a u) : memory.loadWord (a + 60) = u.pc := by
  have hword := h.loadWord (i := 15) (by simp)
  simpa [UserState.words] using hword

theorem SavedAt.cpsr (h : SavedAt memory a u) : memory.loadWord (a + 64) = u.cpsr := by
  have hword := h.loadWord (i := 16) (by simp)
  simpa [UserState.words] using hword

/-- The result of a call takes the place of `r0`. -/
theorem SavedAt.storeResult (h : SavedAt memory a u) (r0 : UInt32) :
    SavedAt (memory.storeWord a r0) a { u with r := Function.update u.r 0 r0 } := by
  have hrest : memory.loadWords (a + 4) 16 = u.words.tail := congrArg List.tail h
  rw [SavedAt, Memory.loadWords_storeWord (by omega), hrest]
  simp [UserState.words]

end Saved

/-! ## What the listings do -/

section Effects

variable {c : Cpu} {m : Memory} {a : UInt32} {u : UserState} {s : Cpu × Memory}

/-- The handlers change only those of the registers that are not the user's. -/
theorem Cpu.userRegs_eq {r : Registers} (hsp : c.userSp = r 13) (hlr : c.userLr = r 14)
    (hrest : ∀ i, i ≠ 13 → i ≠ 14 → c.r i = r i) : c.userRegs = r := by
  funext i
  unfold Cpu.userRegs
  by_cases h14 : i = 14
  · rw [h14, Function.update_self, hlr]
  · by_cases h13 : i = 13
    · rw [h13, Function.update_of_ne (by decide), Function.update_self, hsp]
    · rw [Function.update_of_ne h14, Function.update_of_ne h13, hrest i h13 h14]

theorem storeWords_words (memory : Memory) (a : UInt32) (u : UserState) :
    ((memory.storeWords a (List.ofFn u.r)).storeWord (a + 60) u.pc).storeWord (a + 64) u.cpsr =
      memory.storeWords a u.words := by
  have hbehind : a + 60 + 4 = a + 64 := UInt32.add_assoc a 60 4
  rw [UserState.words, Memory.storeWords_append, List.length_ofFn, ← hbehind]
  rfl

theorem execAll_nil (s : Cpu × Memory) : execAll [] s = s := rfl

theorem execAll_cons (i : Instr) (listing : List Instr) (s : Cpu × Memory) :
    execAll (i :: listing) s = execAll listing (i.exec s) := by
  rw [execAll, List.foldl_cons, ← execAll]

/-- A handler saves what the process had in its registers, and where it goes on. -/
theorem entry_effect (h : Handler) (c : Cpu) (m : Memory) (sp cpsr currentProc : UInt32)
    (hs : s = execAll (entryListing currentProc h) (c.take h sp cpsr, m)) :
    s.2 = m.storeWords (m.loadWord currentProc) { c.userState with pc := h.next c.pc }.words ∧
      s.1.r 13 = m.loadWord currentProc + 8192 ∧ s.1.exception = true := by
  have habort : c.pc + 8 - 4 = c.pc + 4 := by
    have htwice : c.pc + 8 = c.pc + 4 + 4 := (UInt32.add_assoc c.pc 4 4).symm
    rw [htwice, UInt32.add_sub_cancel]
  subst hs
  rw [← storeWords_words]
  cases h
  all_goals
    simp only [entryListing, execAll_cons, execAll_nil, Instr.exec, Handler.link, Handler.next,
      Cpu.userState, UInt32.add_zero, UInt32.add_sub_cancel, habort, Cpu.set_same, Cpu.set_other,
      Cpu.set_spsr, Cpu.set_exception, Cpu.set_userRegs, Cpu.take_userRegs, Cpu.take_link,
      Cpu.take_spsr, Cpu.take_exception, true_or, or_true, ne_eq, Fin.reduceEq, not_false_eq_true,
      and_true]

/-- The last instructions of each handler. -/
def returnListing : List Instr := [.ldr 0 13 64, .msr 0, .ldr 14 13 60, .ldmUser 13, .movsPcLr]

theorem return_effect (hsaved : SavedAt m a u) (hbase : c.r 13 = a)
    (hs : s = execAll returnListing (c, m)) :
    s.1.userState = u ∧ s.1.exception = false ∧ s.2 = m := by
  subst hs
  simp only [returnListing, execAll_cons, execAll_nil, Instr.exec, Cpu.set, Cpu.userState, hbase,
    hsaved.pc, hsaved.cpsr, hsaved.registersAt, Function.update_self, ne_eq, Fin.reduceEq,
    not_false_eq_true, Function.update_of_ne]
  rw [Cpu.userRegs_eq (r := u.r) rfl rfl]
  · exact ⟨rfl, trivial, trivial⟩
  · intro i h13 h14
    simp [h13, h14]

/-- A handler returns to what the control block holds. -/
theorem exit_effect (h : Handler) (hsaved : SavedAt m a u) (htop : c.r 13 = a + 8192)
    (hs : s = execAll (exitListing h) (c, m)) :
    s.1.userState = h.result (c.r 0) u ∧ s.1.exception = false ∧
      ∀ x, 68 ≤ distance a x → s.2 x = m x := by
  have hbase : (c.set 13 (c.r 13 - 8192)).r 13 = a := by
    rw [Cpu.set_same, htop, UInt32.add_sub_cancel]
  have hsame : (c.set 13 (c.r 13 - 8192)).r 0 = c.r 0 := Cpu.set_other (by decide)
  cases h with
  | swi =>
      obtain ⟨huser, hmode, hmemory⟩ := return_effect (hsaved.storeResult (c.r 0)) hbase rfl
      have hreturn : s = execAll returnListing
          (c.set 13 (c.r 13 - 8192), m.storeWord a (c.r 0)) := by
        rw [hs, exitListing, execAll_cons, execAll_cons, Instr.exec, Instr.exec, hbase, hsame,
          UInt32.add_zero]
        rfl
      rw [hreturn]
      refine ⟨huser, hmode, fun x hx => ?_⟩
      rw [hmemory]
      exact if_neg (by omega)
  | interrupt | dataAbort =>
      obtain ⟨huser, hmode, hmemory⟩ := return_effect hsaved hbase rfl
      subst hs
      exact ⟨huser, hmode, fun x _ => congrFun hmemory x⟩

/-- The stack pointer among the saved registers of the kernel. -/
theorem loadWord_kernelState {ws : List UInt32} {w : UInt32} (hlength : ws.length = 16)
    (hw : ws[13]? = some w) : (m.storeWords (a + 68) ws).loadWord (a + 120) = w := by
  have hplace : a + 68 + UInt32.ofNat (4 * 13) = a + 120 := UInt32.add_assoc a 68 52
  obtain ⟨hi, hword⟩ := List.getElem?_eq_some_iff.1 hw
  rw [← hword, ← hplace, ← Memory.getElem_loadWords (n := ws.length) (by simpa using hi)]
  exact List.getElem_of_eq (Memory.loadWords_storeWords (by omega)) _

/-- The kernel's registers of one process are saved and those of the other one loaded. -/
theorem processSwitch_effect {currentProc old new : UInt32}
    (hs : s = processSwitch currentProc old new (c, m)) :
    ∃ ws : List UInt32, ws.length = 16 ∧ ws[13]? = some (c.r 13) ∧
      s.2 = (m.storeWords (old + 68) ws).storeWord currentProc new ∧
      s.1.r 13 = s.2.loadWord (new + 120) ∧ s.1.exception = c.exception := by
  have hsp : new + 68 + UInt32.ofNat (4 * 13) = new + 120 := UInt32.add_assoc new 68 52
  refine ⟨List.ofFn (c.set 2 (old + 68)).r ++ [c.spsr], by simp, ?_, ?_⟩
  · rw [List.getElem?_append_left (by simp)]
    simp [Cpu.set]
  · subst hs
    rw [Memory.storeWords_append, List.length_ofFn]
    simp only [processSwitch, saveListing, restoreListing, execAll_cons, execAll_nil, Instr.exec,
      Cpu.set, Function.update_self, ne_eq, Fin.reduceEq, not_false_eq_true, Function.update_of_ne,
      UInt32.add_zero, Memory.storeWords, registersAt]
    refine ⟨rfl, ?_, trivial⟩
    exact congrArg _ hsp

/-- The registers of the kernel are saved with another stack pointer. -/
theorem processSave_effect {proc newStack : UInt32}
    (hs : s = execAll (processSave proc newStack) (c, m)) :
    s.2.loadWord (proc + 120) = newStack ∧
      (∀ x, 64 ≤ distance (proc + 68) x → s.2 x = m x) ∧
      s.1.r 13 = c.r 13 ∧ s.1.exception = c.exception := by
  have hsp : proc + 68 + 52 = proc + 120 := UInt32.add_assoc proc 68 52
  have hspsr : proc + 120 + 8 = proc + 128 := UInt32.add_assoc proc 120 8
  subst hs
  simp only [processSave, execAll_cons, execAll_nil, Instr.exec, Cpu.set, Function.update_self,
    ne_eq, Fin.reduceEq, not_false_eq_true, Function.update_of_ne, UInt32.add_zero, hsp, hspsr]
  have hnear (x : UInt32) : distance (proc + 120) x =
      (distance (proc + 68) x + (4294967296 - 52)) % 4294967296 := by
    rw [← hsp]
    exact distance_later (k := 52) (proc + 68) x (by omega)
  have hfar (x : UInt32) : distance (proc + 128) x =
      (distance (proc + 68) x + (4294967296 - 60)) % 4294967296 := by
    rw [← hspsr, ← hsp, UInt32.add_assoc]
    exact distance_later (k := 60) (proc + 68) x (by omega)
  refine ⟨?_, fun x hx => ?_, trivial, trivial⟩
  · refine (Memory.loadWord_congr fun k hk => if_neg ?_).trans Memory.loadWord_storeWord
    have hplace : distance (proc + 120) (proc + 120 + UInt32.ofNat k) = k :=
      distance_add (by omega)
    have hnear := hnear (proc + 120 + UInt32.ofNat k)
    have hfar := hfar (proc + 120 + UInt32.ofNat k)
    omega
  · have hlt := distance_lt (proc + 68) x
    have hnear := hnear x
    have hfar := hfar x
    rw [Memory.storeWord, if_neg (by omega), Memory.storeWord, if_neg (by omega),
      Memory.storeWords_outside (by simp) (by simp; omega)]

theorem enterKernelspace_effect {currentProc shellAddress : UInt32}
    (hs : s = execAll (enterKernelspace currentProc shellAddress) (c, m)) :
    s.1.exception = false ∧ s.2 = m := by
  subst hs
  exact ⟨rfl, rfl⟩

end Effects

/-! ## The invariant -/

/-- What there is of a process that has been switched away from. -/
def Layout.Kept (L : Layout) (memory : Memory) (p : ProcId) (u : UserState) : Prop :=
  SavedAt memory (L.address p) u ∧ L.OnStack p (memory.loadWord (L.address p + 120))

/-- The registers of the running process are in the processor, or in its control block while the
kernel runs; those of all the others are in their control blocks. -/
structure Inv (L : Layout) (m : Machine) (v : Views) : Prop where
  current : m.memory.loadWord L.currentProc = L.address v.current
  running : ∀ p, m.slot p = .running ↔ p = v.current
  user : m.cpu.exception = false → m.cpu.userState = v.state v.current
  kernel : m.cpu.exception = true →
    SavedAt m.memory (L.address v.current) (v.state v.current) ∧ L.OnStack v.current (m.cpu.r 13)
  suspended : ∀ p, m.slot p = .suspended → L.Kept m.memory p (v.state p)

section Frames

variable {L : Layout} {m m' : Machine} {v : Views} {memory memory' : Memory} {p : ProcId}
  {u : UserState} {state : ProcId → UserState}

theorem Layout.Kept.congr (h : L.Kept memory p u)
    (hsame : ∀ x, distance (L.address p) x < 132 → memory' x = memory x) : L.Kept memory' p u := by
  have hword : memory'.loadWord (L.address p + 120) = memory.loadWord (L.address p + 120) := by
    refine Memory.loadWord_congr fun k hk => hsame _ ?_
    have hplace : L.address p + 120 + UInt32.ofNat k = L.address p + UInt32.ofNat (120 + k) :=
      Memory.add_ofNat_add (L.address p) 120 k
    rw [hplace, distance_add (by omega)]
    omega
  refine ⟨h.1.congr fun x hx => hsame x (by omega), ?_⟩
  rw [hword]
  exact h.2

theorem Layout.loadCurrent_congr
    (hsame : ∀ x, distance L.currentProc x < 4 → memory' x = memory x) :
    memory'.loadWord L.currentProc = memory.loadWord L.currentProc := by
  refine Memory.loadWord_congr fun k hk => hsame _ ?_
  rw [distance_add (by omega)]
  exact hk

theorem Inv.ne_current (h : Inv L m v) (hp : m.slot p = .suspended) : p ≠ v.current := by
  intro heq
  have hrun := (h.running p).2 heq
  rw [hp] at hrun
  cases hrun

/-- Nothing happens to the processes that do not run. -/
theorem Inv.others (h : Inv L m v)
    (hsame : ∀ p, p ≠ v.current → m.slot p = .suspended →
      ∀ x, distance (L.address p) x < 132 → memory x = m.memory x)
    (hstate : ∀ p, p ≠ v.current → state p = v.state p) (hp : m.slot p = .suspended) :
    L.Kept memory p (state p) := by
  have hne := h.ne_current hp
  rw [hstate p hne]
  exact (h.suspended p hp).congr (hsame p hne hp)

/-- Only the user's registers in the control block of the running process change. -/
theorem Inv.rest (h : Inv L m v)
    (hsame : ∀ x, 68 ≤ distance (L.address v.current) x → memory x = m.memory x) (u : UserState) :
    memory.loadWord L.currentProc = L.address v.current ∧
      ∀ p, m.slot p = .suspended → L.Kept memory p (Function.update v.state v.current u p) := by
  constructor
  · rw [← h.current]
    refine Layout.loadCurrent_congr fun x hx => hsame x ?_
    have happart := L.current_apart hx v.current
    omega
  · intro p hp
    refine h.others (fun q hq _ x hx => hsame x ?_) (fun q hq => Function.update_of_ne hq _ _) hp
    have happart := L.blocks_apart hq (x := x) (by omega)
    omega

theorem storeWords_words_outside {a x : UInt32} (hx : 68 ≤ distance a x) :
    memory.storeWords a u.words x = memory x := by
  apply Memory.storeWords_outside
  all_goals
    rw [u.length_words]
    omega

end Frames

section Steps

variable {L : Layout} {m m' : Machine} {v : Views} {e : Event} {memory : Memory} {c : Cpu}
  {u : UserState} {p old new : ProcId} {s s' : Cpu × Memory}

/-- The process itself, or the kernel in its place, changes its registers. -/
theorem Inv.ran (h : Inv L m v) {handler : ProcId → Handler}
    (hcurrent : memory.loadWord L.currentProc = L.address v.current)
    (hothers : ∀ p, m.slot p = .suspended →
      L.Kept memory p (Function.update v.state v.current u p))
    (huser : c.exception = false → c.userState = u)
    (hkernel : c.exception = true → SavedAt memory (L.address v.current) u ∧
      L.OnStack v.current (c.r 13)) :
    Inv L ⟨c, memory, m.slot, handler⟩ ⟨v.current, Function.update v.state v.current u⟩ where
  current := hcurrent
  running := h.running
  user hmode := (huser hmode).trans (Function.update_self v.current u v.state).symm
  kernel hmode := by simpa only [Function.update_self] using hkernel hmode
  suspended := hothers

theorem keeps_user (h : Inv L m v) (f : UserState → UserState) (hmode : m.cpu.exception = false)
    (hspares : L.Spares m.slot m.memory memory) (hc : c.exception = false)
    (hf : c.userState = f m.cpu.userState) :
    Inv L { m with cpu := c, memory } (v.follow (.user f)) := by
  refine h.ran ?_ (fun p hp => ?_) (fun _ => ?_) (fun hkernel => ?_)
  · exact (Layout.loadCurrent_congr hspares.current).trans h.current
  · refine h.others (fun q _ hq => hspares.saved q ?_) (fun q hq => ?_) hp
    · rw [hq]
      nofun
    · exact Function.update_of_ne hq _ _
  · rw [hf, h.user hmode]
  · rw [hc] at hkernel
    cases hkernel

theorem keeps_entry (h : Inv L m v) (hd : Handler) {handler : ProcId → Handler} {sp cpsr : UInt32}
    (hmode : m.cpu.exception = false)
    (hs : s = execAll (entryListing L.currentProc hd) (m.cpu.take hd sp cpsr, m.memory)) :
    Inv L ⟨s.1, s.2, m.slot, handler⟩ (v.follow (.entry hd)) := by
  obtain ⟨hmemory, hsp, hexception⟩ := entry_effect hd m.cpu m.memory sp cpsr L.currentProc hs
  have hstate := h.user hmode
  have hpc : m.cpu.pc = (v.state v.current).pc := congrArg UserState.pc hstate
  rw [h.current, hstate, hpc] at hmemory
  rw [h.current] at hsp
  have hsame : ∀ x, 68 ≤ distance (L.address v.current) x → s.2 x = m.memory x := fun x hx => by
    rw [hmemory, storeWords_words_outside hx]
  obtain ⟨hcurrent, hothers⟩ := h.rest hsame _
  refine h.ran hcurrent hothers (fun huser => ?_) (fun _ => ⟨?_, ?_⟩)
  · rw [hexception] at huser
    cases huser
  · rw [hmemory]
    exact savedAt_storeWords
  · rw [hsp]
    exact L.onStack_top v.current

theorem keeps_kernel (h : Inv L m v) (hmode : m.cpu.exception = true)
    (hstack : ∀ p, L.OnStack p (m.cpu.r 13) → L.OnStack p (c.r 13))
    (hspares : L.Spares m.slot m.memory memory) (hc : c.exception = true) :
    Inv L { m with cpu := c, memory } (v.follow .kernel) := by
  obtain ⟨hsaved, hsp⟩ := h.kernel hmode
  have hrun : m.slot v.current = .running := (h.running v.current).2 rfl
  have hran := @Inv.ran L m v memory c (v.state v.current) h m.handler ?_ (fun p hp => ?_)
    (fun huser => ?_) (fun _ => ⟨hsaved.congr fun x hx => ?_, hstack _ hsp⟩)
  · rwa [Function.update_eq_self] at hran
  · exact (Layout.loadCurrent_congr hspares.current).trans h.current
  · rw [Function.update_eq_self]
    refine h.others (fun q _ hq => hspares.saved q ?_) (fun q _ => rfl) hp
    rw [hq]
    nofun
  · rw [hc] at huser
    cases huser
  · refine hspares.saved v.current ?_ x (by omega)
    rw [hrun]
    nofun

theorem keeps_exec (h : Inv L m v) (hmode : m.cpu.exception = true) (hp : m.slot p = .running)
    (u : UserState) :
    Inv L { m with memory := m.memory.storeWords (L.address p) u.words } (v.follow (.exec u)) := by
  have hcur : p = v.current := (h.running p).1 hp
  rw [hcur]
  obtain ⟨hcurrent, hothers⟩ := h.rest (fun x hx => storeWords_words_outside hx) u
  refine h.ran hcurrent hothers (fun huser => ?_) (fun _ => ⟨savedAt_storeWords, ?_⟩)
  · rw [hmode] at huser
    cases huser
  · exact (h.kernel hmode).2

theorem keeps_exit (h : Inv L m v) (hmode : m.cpu.exception = true)
    (htop : m.cpu.r 13 = L.address p + 8192)
    (hs : s = execAll (exitListing (m.handler p)) (m.cpu, m.memory)) :
    Inv L { m with cpu := s.1, memory := s.2 } (v.follow (.exit (m.handler p) (m.cpu.r 0))) := by
  obtain ⟨hsaved, hsp⟩ := h.kernel hmode
  have hcur : p = v.current := by
    rw [htop] at hsp
    exact (L.onStack_top p).unique hsp
  subst hcur
  obtain ⟨huser, hexception, hsame⟩ := exit_effect (m.handler v.current) hsaved htop hs
  obtain ⟨hcurrent, hothers⟩ := h.rest hsame _
  refine h.ran hcurrent hothers (fun _ => huser) (fun hkernel => ?_)
  rw [hexception] at hkernel
  cases hkernel

/-- `process_switch` -/
theorem Inv.switched (h : Inv L m v) (hmode : m.cpu.exception = true)
    (hold : m.slot old = .running)
    (hs : s = processSwitch L.currentProc (L.address old) (L.address new) (m.cpu, m.memory)) :
    s.2.loadWord L.currentProc = L.address new ∧
      (∀ p, m.slot p = .suspended ∨ p = old → L.Kept s.2 p (v.state p)) ∧
      s.1.r 13 = s.2.loadWord (L.address new + 120) ∧ s.1.exception = true := by
  obtain ⟨ws, hlength, hws, hmemory, hsp, hexception⟩ := processSwitch_effect hs
  obtain rfl : old = v.current := (h.running old).1 hold
  obtain ⟨hsaved, hstack⟩ := h.kernel hmode
  have hblock : ∀ p x, distance (L.address p) x < 132 →
      s.2 x = m.memory.storeWords (L.address v.current + 68) ws x := by
    intro p x hx
    rw [hmemory]
    refine if_neg fun hnear => ?_
    have happart := L.current_apart hnear p
    omega
  have hold : L.Kept (m.memory.storeWords (L.address v.current + 68) ws) v.current
      (v.state v.current) := by
    refine ⟨hsaved.congr fun x hx => ?_, ?_⟩
    · exact Memory.storeWords_outside (by omega) (by have := kernelState_far (.inl hx); omega)
    · rw [loadWord_kernelState hlength hws]
      exact hstack
  refine ⟨?_, fun p hp => ?_, hsp, hexception.trans hmode⟩
  · rw [hmemory]
    exact Memory.loadWord_storeWord
  · by_cases hcur : p = v.current
    · rw [hcur]
      exact hold.congr (hblock v.current)
    · refine (h.suspended p (hp.resolve_right hcur)).congr fun x hx => ?_
      have happart := L.blocks_apart hcur (x := x) (by omega)
      have hfar := kernelState_far (a := L.address v.current) (x := x) (.inr (by omega))
      rw [hblock p x hx, Memory.storeWords_outside (by omega) (by omega)]

/-- The running process becomes another one. -/
theorem Inv.running_after (h : Inv L m v) (hold : m.slot old = .running) (p : ProcId) :
    Function.update (Function.update m.slot old .suspended) new .running p = .running ↔
      p = new := by
  by_cases hp : p = new
  · rw [hp, Function.update_self]
    exact iff_of_true rfl rfl
  · refine iff_of_false ?_ hp
    rw [Function.update_of_ne hp]
    by_cases hcur : p = old
    · rw [hcur, Function.update_self]
      nofun
    · rw [Function.update_of_ne hcur, h.running, ← (h.running old).1 hold]
      exact hcur

theorem suspended_after {slot : ProcId → Slot}
    (hp : Function.update (Function.update slot old .suspended) new .running p = .suspended) :
    p ≠ new ∧ (slot p = .suspended ∨ p = old) := by
  have hne : p ≠ new := by
    rintro rfl
    rw [Function.update_self] at hp
    cases hp
  rw [Function.update_of_ne hne] at hp
  by_cases hcur : p = old
  · exact ⟨hne, .inr hcur⟩
  · rw [Function.update_of_ne hcur] at hp
    exact ⟨hne, .inl hp⟩

theorem keeps_switch (h : Inv L m v) (hmode : m.cpu.exception = true)
    (hold : m.slot old = .running) (hnew : m.slot new = .suspended)
    (hs : s = processSwitch L.currentProc (L.address old) (L.address new) (m.cpu, m.memory)) :
    Inv L ⟨s.1, s.2, Function.update (Function.update m.slot old .suspended) new .running,
      m.handler⟩ (v.follow (.switch new)) := by
  obtain ⟨hcurrent, hkept, hsp, hexception⟩ := h.switched hmode hold hs
  obtain ⟨hsaved, hstack⟩ := hkept new (.inl hnew)
  refine ⟨hcurrent, h.running_after hold, fun huser => ?_, fun _ => ⟨hsaved, ?_⟩, fun p hp => ?_⟩
  · rw [hexception] at huser
    cases huser
  · rw [← hsp] at hstack
    exact hstack
  · exact hkept p (suspended_after hp).2

theorem keeps_start (h : Inv L m v) (hmode : m.cpu.exception = true)
    (hold : m.slot old = .running) {shellAddress : UInt32}
    (hs : s = processSwitch L.currentProc (L.address old) (L.address new) (m.cpu, m.memory))
    (hs' : s' = execAll (enterKernelspace L.currentProc shellAddress) s) :
    Inv L ⟨s'.1, s'.2, Function.update (Function.update m.slot old .suspended) new .running,
      m.handler⟩ (v.follow (.start new s'.1.userState)) := by
  obtain ⟨hcurrent, hkept, -, -⟩ := h.switched hmode hold hs
  obtain ⟨hexception, hmemory⟩ := enterKernelspace_effect hs'
  rw [← hmemory] at hcurrent hkept
  refine ⟨hcurrent, h.running_after hold, fun _ => ?_, fun hkernel => ?_, fun p hp => ?_⟩
  · exact (Function.update_self new s'.1.userState v.state).symm
  · rw [hexception] at hkernel
    cases hkernel
  · obtain ⟨hne, hp⟩ := suspended_after hp
    have hstate : Function.update v.state new s'.1.userState p = v.state p :=
      Function.update_of_ne hne _ _
    simpa only [Views.follow, hstate] using hkept p hp

/-- The control block of the child is that of the parent, with the stack pointer at the same place
in its own stack. -/
theorem keeps_vfork (h : Inv L m v) {parent child : ProcId} {handler : ProcId → Handler}
    (hmode : m.cpu.exception = true) (hparent : m.slot parent = .running)
    (hchild : m.slot child = .free)
    (hs : s = execAll (processSave (L.address child)
      (L.address child + (m.cpu.r 13 - L.address parent)))
        (m.cpu, m.memory.copyRange (L.address child) (L.address parent) 0 8192)) :
    Inv L ⟨s.1, s.2, Function.update m.slot child .suspended, handler⟩
      (v.follow (.vfork child)) := by
  obtain ⟨hword, hsave, hsp, hexception⟩ := processSave_effect hs
  obtain rfl : parent = v.current := (h.running parent).1 hparent
  obtain ⟨hsaved, hstack⟩ := h.kernel hmode
  have hne : v.current ≠ child := by
    intro heq
    rw [heq, hchild] at hparent
    cases hparent
  have hfar : ∀ x, 8192 ≤ distance (L.address child) x → s.2 x = m.memory x := by
    intro x hx
    rw [hsave x (kernelState_far (.inr (by omega)))]
    exact if_neg (by omega)
  have hother : ∀ p ≠ child, ∀ x, distance (L.address p) x < 132 → s.2 x = m.memory x :=
    fun p hp x hx => hfar x (L.blocks_apart hp (by omega))
  have hcopy : SavedAt s.2 (L.address child) (v.state v.current) := by
    refine Eq.trans (Memory.loadWords_shift fun k hk => ?_) hsaved
    have hplace : distance (L.address child) (L.address child + UInt32.ofNat k) = k :=
      distance_add (by omega)
    rw [hsave _ (kernelState_far (.inl (by omega))), Memory.copyRange, hplace, if_pos (by omega)]
  have hstate : ∀ p ≠ child, Function.update v.state child (v.state v.current) p = v.state p :=
    fun p hp => Function.update_of_ne hp _ _
  refine ⟨?_, fun p => ?_, fun huser => ?_, fun _ => ⟨?_, ?_⟩, fun p hp => ?_⟩
  · exact (Layout.loadCurrent_congr fun x hx => hfar x (L.current_apart hx child)).trans h.current
  · by_cases hp : p = child
    · rw [hp]
      simpa [Views.follow] using hne.symm
    · simpa [Views.follow, hp] using h.running p
  · rw [hexception, hmode] at huser
    cases huser
  · simp only [Views.follow, hstate _ hne]
    exact hsaved.congr fun x hx => hother v.current hne x (by omega)
  · rw [← hsp] at hstack
    exact hstack
  · by_cases hchild : p = child
    · subst hchild
      simp only [Views.follow, Function.update_self]
      refine ⟨hcopy, ?_⟩
      rw [hword, Layout.OnStack, distance, UInt32.add_comm, UInt32.add_sub_cancel]
      exact hstack
    · simp only [Function.update_of_ne hchild] at hp
      simp only [Views.follow, hstate p hchild]
      exact (h.suspended p hp).congr (hother p hchild)

theorem keeps_destroy (h : Inv L m v) (hp : m.slot p = .suspended) :
    Inv L { m with slot := Function.update m.slot p .free } (v.follow (.destroy p)) := by
  have hne := h.ne_current hp
  refine ⟨h.current, fun q => ?_, h.user, h.kernel, fun q hq => h.suspended q ?_⟩
  · by_cases hq : q = p
    · rw [hq]
      simpa [Views.follow] using hne
    · simpa [Views.follow, hq] using h.running q
  · have hother : q ≠ p := by
      rintro rfl
      simp at hq
    simpa [hother] using hq

theorem Step.keeps (h : Inv L m v) (hstep : Step L m e m') : Inv L m' (v.follow e) := by
  cases hstep with
  | user f memory hmode hspares => exact keeps_user h f hmode hspares hmode rfl
  | entry hd p sp cpsr hmode hp hs => exact keeps_entry h hd hmode hs
  | kernel r cpsr memory hmode hstack hspares => exact keeps_kernel h hmode hstack hspares hmode
  | exec p u hmode hp => exact keeps_exec h hmode hp u
  | switch old new hmode hold hnew hs => exact keeps_switch h hmode hold hnew hs
  | start old new hmode hold hnew hs hs' => exact keeps_start h hmode hold hs hs'
  | vfork parent child hmode hparent hchild hs => exact keeps_vfork h hmode hparent hchild hs
  | destroy p hmode hp => exact keeps_destroy h hp
  | exit p hmode htop hs => exact keeps_exit h hmode htop hs

theorem Run.keeps {m₀ : Machine} {es : List Event} (h : Inv L m₀ v) (hrun : Run L m₀ es m) :
    Inv L m (es.foldl Views.follow v) := by
  induction hrun with
  | nil => exact h
  | snoc hrun hstep ih =>
      rw [List.foldl_append]
      exact hstep.keeps ih

end Steps

/-- What each process has in its registers after some events, when `init` has been the first one. -/
def viewsAfter (init : ProcId) (u : UserState) (es : List Event) : Views :=
  es.foldl Views.follow ⟨init, fun _ => u⟩

/-- Every process finds in its registers what it had there, when it runs again. -/
theorem registers_kept {L : Layout} {m₀ m : Machine} {es : List Event} {init idle : ProcId}
    (hmode : m₀.cpu.exception = false)
    (hcurrent : m₀.memory.loadWord L.currentProc = L.address init)
    (hslot : m₀.slot = Function.update (Function.update (fun _ => .free) idle .fresh) init .running)
    (hrun : Run L m₀ es m) (huser : m.cpu.exception = false) :
    m.memory.loadWord L.currentProc =
        L.address (viewsAfter init m₀.cpu.userState es).current ∧
      m.cpu.userState = (viewsAfter init m₀.cpu.userState es).state
        (viewsAfter init m₀.cpu.userState es).current := by
  have hrunning : ∀ p, m₀.slot p = .running ↔ p = init := by
    intro p
    rw [hslot]
    simp only [Function.update_apply]
    split_ifs <;> simp_all
  have hsuspended : ∀ p, m₀.slot p ≠ .suspended := by
    intro p
    rw [hslot]
    simp only [Function.update_apply]
    split_ifs <;> nofun
  have hfirst : Inv L m₀ ⟨init, fun _ => m₀.cpu.userState⟩ :=
    ⟨hcurrent, hrunning, fun _ => rfl, fun hkernel => by simp [hmode] at hkernel,
      fun p hp => absurd hp (hsuspended p)⟩
  have hlast := hrun.keeps hfirst
  exact ⟨hlast.current, hlast.user huser⟩

/-- The first process has just been started. -/
def firstMachine : Machine where
  cpu := ⟨fun i => UInt32.ofNat (100 + i), 0, 0, 0x8000, 0x10, 0, false⟩
  memory := fun _ => 0
  slot := Function.update (Function.update (fun _ => .free) 1 .fresh) 0 .running
  handler := fun _ => .interrupt

def firstLayout : Layout where
  allProcesses := 0
  currentProc := 0x100000
  apart := by decide
  whole := by decide

/-- A child goes on where its parent has called `vfork`, and with its registers. -/
theorem registers_kept_vfork :
    ∃ r0 m, Run firstLayout firstMachine [.entry .swi, .vfork 2, .switch 2, .exit .swi r0] m ∧
      m.memory.loadWord firstLayout.currentProc = firstLayout.address 2 ∧
      m.cpu.userState.pc = 0x8004 ∧ m.cpu.userState.r 13 = 113 := by
  have hrun := Run.snoc (Run.snoc (Run.snoc (Run.snoc (Run.nil (L := firstLayout) firstMachine)
    (.entry _ .swi 0 0 0 rfl rfl rfl)) (.vfork _ 0 2 rfl rfl rfl rfl))
    (.switch _ 0 2 rfl rfl rfl rfl)) (.exit _ 2 rfl (by decide) rfl)
  obtain ⟨hcurrent, huser⟩ := @registers_kept firstLayout _ _ _ 0 1 rfl (by decide) rfl
    hrun rfl
  refine ⟨_, _, hrun, hcurrent, ?_, ?_⟩
  · rw [huser]
    rfl
  · rw [huser]
    rfl

end ContextSwitch

end Vmwos
