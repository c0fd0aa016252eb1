import Vmwos.Lib.Base
import Vmwos.Library.LinkedList
import Mathlib.Data.List.FinRange
import Mathlib.Logic.Function.Basic

/-!
# Process control blocks and the process list

The 16 process control blocks, the doubly linked list of the processes in use, and the
scheduler. Pointers to control blocks are indices into `all_processes`. Registers and the
kernel stack are left out; what a process does when it is switched to is kept as `resume`.

The walks along the list are `Library.findFrom`, with fuel for one more node than there are
control blocks: a list of control blocks that ends is no longer than that.
-/

set_option autoImplicit false

namespace Vmwos

/-- `MAX_PROCS` -/
abbrev maxProcs : Nat := 16
/-- `MAX_FD_PER_PROC` -/
abbrev maxFdPerProc : Nat := 8
/-- `MAX_OPEN_FILES` -/
abbrev maxOpenFiles : Nat := 64

theorem maxFdPerProc_le_maxOpenFiles : maxFdPerProc ≤ maxOpenFiles := by decide

instance : NeZero maxProcs := ⟨by decide⟩

/-- A pointer to a control block of `all_processes`. -/
abbrev ProcId := Fin maxProcs

instance : LawfulBEq ProcId := inferInstance

/-- `PROCESS_STATUS_SLEEPING`, `PROCESS_STATUS_READY` and `PROCESS_STATUS_EXITED`. -/
inductive ProcessStatus where
  | sleeping
  | ready
  | exited
  deriving DecidableEq, Repr

/-- What a process goes on with when it is switched to: it returns to user mode, or it is
inside `vfork` or in the loop of `waitpid`. -/
inductive Resume where
  | user
  | vfork (child : ProcId) (childPid : Int)
  | waitpid (pid : Int) (proc : ProcId)
  deriving DecidableEq, Repr

/-- `struct process_control_block_type` -/
structure Process where
  next : Option ProcId
  prev : Option ProcId
  waitQueueNext : Option ProcId
  valid : Bool
  running : Int
  status : ProcessStatus
  startTime : Nat
  userTime : Nat
  kernelTime : Nat
  lastScheduled : Nat
  pid : Int
  exitValue : Int
  parent : Option ProcId
  stack : Nat
  stacksize : Nat
  text : Nat
  textsize : Nat
  name : CString
  files : Fin maxFdPerProc → Option (Fin maxOpenFiles)
  currentDir : CString
  resume : Resume

/-- A control block cleared to zero. -/
def Process.zeroed : Process where
  next := none
  prev := none
  waitQueueNext := none
  valid := false
  running := 0
  status := .sleeping
  startTime := 0
  userTime := 0
  kernelTime := 0
  lastScheduled := 0
  pid := 0
  exitValue := 0
  parent := none
  stack := 0
  stacksize := 0
  text := 0
  textsize := 0
  name := []
  files := fun _ => none
  currentDir := []
  resume := .user

/-- The wait queues of the kernel. -/
inductive WaitQueue where
  | waitpid
  | timer
  | console
  deriving DecidableEq, Repr

/-- The control blocks, the list of the processes, the running process, the next pid, the
timer ticks since boot and the first process of each wait queue. -/
structure ProcTable where
  allProcesses : ProcId → Process
  procFirst : Option ProcId
  currentProc : ProcId
  availPid : Int
  ticksSinceBoot : Nat
  waitQueueFirst : WaitQueue → Option ProcId

/-- The table before any process is created. -/
def ProcTable.zeroed : ProcTable where
  allProcesses := fun _ => Process.zeroed
  procFirst := none
  currentProc := 0
  availPid := 0
  ticksSinceBoot := 0
  waitQueueFirst := fun _ => none

/-- Steps of a walk along control blocks. -/
abbrev listRounds : Nat := maxProcs + 1

/-- Subtraction of `uint32_t`. -/
def sub32 (a b : Nat) : Nat := (((a : Int) - b) % 4294967296).toNat

namespace ProcTable

variable (t : ProcTable)

/-- Change one control block. -/
def modify (p : ProcId) (f : Process → Process) : ProcTable :=
  { t with allProcesses := Function.update t.allProcesses p (f (t.allProcesses p)) }

/-- The successor in the process list. -/
def next (p : ProcId) : Option ProcId := (t.allProcesses p).next

/-- The predecessor in the process list. -/
def prev (p : ProcId) : Option ProcId := (t.allProcesses p).prev

/-- The status of a process. -/
def status (p : ProcId) : ProcessStatus := (t.allProcesses p).status

/-- The first process of the list with a property. -/
def find (property : ProcId → Bool) : Except Stuck (Option ProcId) :=
  match Library.findFrom t.next property listRounds t.procFirst with
  | none => .error .endless
  | some found => .ok found

/-- `process_lookup` -/
def processLookup (pid : Int) : Except Stuck (Option ProcId) :=
  t.find fun p => (t.allProcesses p).pid = pid

/-- `process_lookup_child`: init is its own parent. -/
def processLookupChild (caller : ProcId) : Except Stuck (Option ProcId) :=
  t.find fun p => p ≠ caller ∧ (t.allProcesses p).parent = some caller

/-- `process_insert` -/
def processInsert (proc : ProcId) : Except Stuck ProcTable :=
  match t.procFirst with
  | none =>
      .ok { t.modify proc fun p => { p with next := none, prev := none } with
        procFirst := some proc }
  | some _ =>
      match t.find fun p => (t.next p).isNone with
      | .ok (some last) =>
          .ok ((t.modify last fun p => { p with next := some proc }).modify proc fun p =>
            { p with next := none, prev := some last })
      | .ok none => .error .badAccess
      | .error e => .error e

/-- `process_remove`. A process that is not on the list only makes it print a message. -/
def processRemove (proc : ProcId) : Except Stuck ProcTable :=
  match t.procFirst with
  | none => .ok t
  | some first =>
      if first = proc then .ok { t with procFirst := t.next proc }
      else
        match t.find (· = proc) with
        | .error e => .error e
        | .ok none => .ok t
        | .ok (some current) =>
            match t.prev current with
            | none => .error .badAccess
            | some before =>
                let t := t.modify before fun p => { p with next := (t.allProcesses proc).next }
                .ok (match t.next proc with
                  | none => t
                  | some behind =>
                      t.modify behind fun p => { p with prev := (t.allProcesses proc).prev })

/-- The control block that `process_create` sets up. -/
def newProcess : Process :=
  { Process.zeroed with
    valid := true
    startTime := t.ticksSinceBoot
    lastScheduled := t.ticksSinceBoot
    pid := t.availPid }

/-- A control block is taken for a new process, with the next pid. -/
def takeSlot (newProc : ProcId) : ProcTable :=
  { t with
    allProcesses := Function.update t.allProcesses newProc t.newProcess
    availPid := int32 (t.availPid + 1) }

/-- `process_create`: the new process, or `none` when all control blocks are in use. -/
def processCreate : Except Stuck (Option ProcId × ProcTable) :=
  match (List.finRange maxProcs).find? fun i => !(t.allProcesses i).valid with
  | none => .ok (none, t)
  | some newProc =>
      match (t.takeSlot newProc).processInsert newProc with
      | .error e => .error e
      | .ok t => .ok (some newProc, t)

/-- `process_destroy`, as far as the process table goes: its open files and its memory are
given back by the layers that own them. The control block keeps its contents. -/
def processDestroy (proc : ProcId) : Except Stuck ProcTable :=
  (t.modify proc fun p => { p with valid := false }).processRemove proc

/-! ## The scheduler -/

/-- The search of `schedule` from `proc` on, which ends at a ready process or where it
began; the idle process, the first of the list, is the answer when nothing is ready. -/
def scheduleLoop (first origProc : ProcId) : Nat → ProcId → Except Stuck ProcId
  | 0, _ => .error .endless
  | fuel + 1, proc =>
      match (t.next proc).or (t.next first) with
      | none => .ok first
      | some proc =>
          if t.status proc = .ready then .ok proc
          else if proc = origProc then .ok first
          else scheduleLoop first origProc fuel proc

/-- The end of `schedule`: the time is accounted and the process switched to. -/
def processSwitch (proc : ProcId) : ProcTable :=
  let now := t.ticksSinceBoot
  let t := t.modify t.currentProc fun p =>
    { p with userTime := uint32 (p.userTime + sub32 now p.lastScheduled) }
  let t := t.modify proc fun p => { p with lastScheduled := now }
  { t with currentProc := proc }

/-- `schedule`. With only the idle process there is nothing to do. -/
def schedule : Except Stuck ProcTable :=
  match t.procFirst with
  | none => .error .badAccess
  | some first =>
      if t.currentProc = first then
        match t.next first with
        | none => .ok t
        | some proc =>
            match t.scheduleLoop first proc listRounds proc with
            | .error e => .error e
            | .ok proc => .ok (t.processSwitch proc)
      else
        match t.scheduleLoop first t.currentProc listRounds t.currentProc with
        | .error e => .error e
        | .ok proc => .ok (t.processSwitch proc)

/-! ## Wait queues -/

/-- The first half of `wait_queue_add`: the process is put behind the last one of the queue,
unless it is on it already. -/
def enqueue (queue : WaitQueue) (proc : ProcId) : Except Stuck ProcTable :=
  match t.waitQueueFirst queue with
  | none => .ok { t with waitQueueFirst := Function.update t.waitQueueFirst queue (some proc) }
  | some first =>
      match Library.findFrom (fun p => (t.allProcesses p).waitQueueNext)
          (fun p => p = proc ∨ (t.allProcesses p).waitQueueNext = none) listRounds (some first) with
      | none => .error .endless
      | some none => .ok t
      | some (some last) =>
          .ok (if last = proc then t
            else t.modify last fun p => { p with waitQueueNext := some proc })

/-- `wait_queue_add` -/
def waitQueueAdd (queue : WaitQueue) (proc : ProcId) : Except Stuck ProcTable :=
  match t.enqueue queue proc with
  | .error e => .error e
  | .ok t => (t.modify proc fun p => { p with status := .sleeping }).schedule

/-- The loop of `wait_queue_wake`. It clears each pointer it follows, so a walk around a
loop of pointers ends too. -/
def wakeLoop : Nat → ProcTable → Option ProcId → ProcTable
  | 0, t, _ => t
  | _ + 1, t, none => t
  | fuel + 1, t, some proc =>
      wakeLoop fuel (t.modify proc fun p => { p with status := .ready, waitQueueNext := none })
        (t.allProcesses proc).waitQueueNext

/-- `wait_queue_wake` -/
def waitQueueWake (queue : WaitQueue) : ProcTable :=
  let t := wakeLoop (listRounds + 1) t (t.waitQueueFirst queue)
  { t with waitQueueFirst := Function.update t.waitQueueFirst queue none }

end ProcTable

end Vmwos
