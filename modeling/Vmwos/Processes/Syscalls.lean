import Vmwos.Processes.Process
import Vmwos.Library.Run

/-!
# The process system calls

`vfork`, `execve`, `exit` and `waitpid` as they change the process table, and the machine
they run on: the running process makes a system call from user mode, a process that was
switched to inside a call goes on with it, and interrupts come in while the running process
is in user mode.

A system call runs without interrupts up to its next call of `schedule`. `nanosleep` and
`console_read` put the caller on their wait queue, once or several times; each time is one
`sleep`. The timer interrupt is a `wake` (when its time has come) and a `schedule`, a
received character a `wake`.
-/

set_option autoImplicit false

namespace Vmwos

/-- `ECHILD` -/
def echild : Int := 10

/-- `WNOHANG` -/
abbrev wnohang : Int := 1

/-- What `execve` puts into the control block when it succeeds. -/
structure Image where
  name : CString
  stack : Nat
  stacksize : Nat
  text : Nat
  textsize : Nat
  deriving DecidableEq, Repr

/-- What a step answers to the process that was running: nothing, when it is suspended or
has exited, or the value of its call and, from `waitpid`, the exit value stored. -/
inductive SysReply where
  | suspended
  | returned (value : Int)
  | reaped (value exitValue : Int)
  deriving DecidableEq, Repr

namespace ProcTable

variable (t : ProcTable)

/-- The control block that `vfork` gives the child, made of the one that `process_create`
set up (`new`) and the parent's. -/
def childProcess (new : Process) (parent : ProcId) : Process :=
  { t.allProcesses parent with
    pid := new.pid
    prev := new.prev
    next := new.next
    parent := some parent
    stack := 0
    text := 0
    status := .ready
    resume := .user }

/-- The copy that `vfork` makes; the child is ready, and the parent sleeps. -/
def forkInto (child parent : ProcId) : ProcTable :=
  (t.modify child fun new => t.childProcess new parent).modify parent fun p =>
    { p with status := .sleeping, resume := .vfork child (t.allProcesses child).pid }

/-- `vfork`. The child gets a copy of the control block of the parent, except for its pid
and its place in the list. -/
def vfork : Except Stuck (SysReply × ProcTable) :=
  match t.processCreate with
  | .error e => .error e
  | .ok (none, t) => .ok (.returned (-1), t)
  | .ok (some child, t₁) =>
      match (t₁.forkInto child t.currentProc).schedule with
      | .error e => .error e
      | .ok t => .ok (.suspended, t)

/-- What a successful `execve` writes to the control block of the caller. -/
def setImage : Option Image → ProcTable
  | none => t
  | some image => t.modify t.currentProc fun p =>
      { p with
        name := image.name
        stack := image.stack
        stacksize := image.stacksize
        text := image.text
        textsize := image.textsize }

/-- `SYSCALL_EXECVE`: whatever `execve` answers, the parent is made ready. -/
def execve (image : Option Image) : Except Stuck (SysReply × ProcTable) :=
  match (t.allProcesses t.currentProc).parent with
  | none => .error .badAccess
  | some parent =>
      match ((t.setImage image).modify parent fun p => { p with status := .ready }).schedule with
      | .error e => .error e
      | .ok t => .ok (.suspended, t)

/-- The running process becomes a zombie. -/
def markExited (status : Int) : ProcTable :=
  t.modify t.currentProc fun p => { p with status := .exited, exitValue := status }

/-- `exit` -/
def exit (status : Int) : Except Stuck (SysReply × ProcTable) :=
  match ((t.markExited status).waitQueueWake .waitpid).schedule with
  | .error e => .error e
  | .ok t => .ok (.suspended, t)

/-- Where the running process goes on when it is switched to again. -/
def setResume (resume : Resume) : ProcTable :=
  t.modify t.currentProc fun p => { p with resume := resume }

/-- The loop of `waitpid` that waits for `proc`, with what follows it. -/
def waitpidLoop (pid : Int) (proc : ProcId) : Except Stuck (SysReply × ProcTable) :=
  if t.status proc ≠ .exited then
    match (t.setResume (.waitpid pid proc)).waitQueueAdd .waitpid t.currentProc with
    | .error e => .error e
    | .ok t => .ok (.suspended, t)
  else
    match (t.setResume .user).processDestroy proc with
    | .error e => .error e
    | .ok t' => .ok (.reaped pid (t.allProcesses proc).exitValue, t')

/-- `waitpid`. A pid without a process leads to a read through NULL. -/
def waitpid (pid options : Int) : Except Stuck (SysReply × ProcTable) :=
  let found : Except Stuck (Option ProcId) :=
    if pid = -1 then t.processLookupChild t.currentProc
    else if pid < 0 then .ok none
    else t.processLookup pid
  match found with
  | .error e => .error e
  | .ok none =>
      if pid = -1 then .ok (.returned (-echild), t)
      else if pid < 0 then .ok (.returned (-enodev), t)
      else .error .badAccess
  | .ok (some proc) =>
      if options = wnohang then
        if t.status proc = .exited then
          match t.processDestroy proc with
          | .error e => .error e
          | .ok t' => .ok (.reaped (t.allProcesses proc).pid (t.allProcesses proc).exitValue, t')
        else .ok (.returned 0, t)
      else t.waitpidLoop pid proc

/-- A process that was switched to inside a system call goes on with it. -/
def resumeCall : Except Stuck (SysReply × ProcTable) :=
  match (t.allProcesses t.currentProc).resume with
  | .user => .error .badAccess
  | .vfork _ childPid =>
      .ok (.returned childPid, t.setResume .user)
  | .waitpid pid proc => t.waitpidLoop pid proc

end ProcTable

/-! ## The machine -/

/-- What can happen next. -/
inductive SysOp where
  | vfork
  | execve (image : Option Image)
  | exit (status : Int)
  | waitpid (pid options : Int)
  | sleep (queue : WaitQueue)
  | resume
  | wake (queue : WaitQueue)
  | schedule
  deriving DecidableEq, Repr

/-- Why a step is not taken: it cannot happen in this state, or it does not come back. -/
inductive Fault where
  | notEnabled
  | stuck (e : Stuck)
  deriving DecidableEq, Repr

/-- The step can happen: system calls are made in user mode, by a process other than the
idle one; `waitpid` and `exit` have the wait queue of `waitpid` to themselves; interrupts
find the running process in user mode. -/
def SysOp.Enabled (t : ProcTable) : SysOp → Prop
  | .vfork | .execve _ | .exit _ | .waitpid _ _ =>
      (t.allProcesses t.currentProc).resume = .user ∧ t.procFirst ≠ some t.currentProc
  | .sleep queue =>
      (t.allProcesses t.currentProc).resume = .user ∧ t.procFirst ≠ some t.currentProc ∧
        queue ≠ .waitpid
  | .resume => (t.allProcesses t.currentProc).resume ≠ .user
  | .wake queue => (t.allProcesses t.currentProc).resume = .user ∧ queue ≠ .waitpid
  | .schedule => (t.allProcesses t.currentProc).resume = .user

instance (t : ProcTable) (op : SysOp) : Decidable (op.Enabled t) := by
  cases op <;> unfold SysOp.Enabled <;> infer_instance

namespace ProcTable

/-- What a step does when it can happen. -/
def perform (t : ProcTable) : SysOp → Except Stuck (SysReply × ProcTable)
  | .vfork => t.vfork
  | .execve image => t.execve image
  | .exit status => t.exit status
  | .waitpid pid options => t.waitpid pid options
  | .sleep queue => (t.waitQueueAdd queue t.currentProc).map fun t => (.suspended, t)
  | .resume => t.resumeCall
  | .wake queue => .ok (.suspended, t.waitQueueWake queue)
  | .schedule => t.schedule.map fun t => (.suspended, t)

/-- One step of the machine. -/
def step (t : ProcTable) (op : SysOp) : Except Fault (SysReply × ProcTable) :=
  if op.Enabled t then
    match t.perform op with
    | .ok r => .ok r
    | .error e => .error (.stuck e)
  else .error .notEnabled

/-- A run of the machine. -/
def run : ProcTable → List SysOp → Except Fault (List SysReply × ProcTable) := Library.run step

/-! ## Booting -/

/-- `create_idle_task`: the first process; its stack is at `stack` and its code at `text`. -/
def createIdleTask (stack text : Nat) : ProcTable :=
  match zeroed.processCreate with
  | .ok (some idle, t) =>
      t.modify idle fun p =>
        { p with
          running := 1
          stack := stack
          stacksize := 4096
          text := text
          textsize := 4
          name := [105, 100, 108, 101]
          status := .ready }
  | _ => zeroed

/-- `start_userspace`: init is its own parent. Its descriptors 0 to 2 are set up and its
image is loaded by other layers. -/
def startUserspace (stack text : Nat) (image : Image) : ProcTable :=
  match (createIdleTask stack text).processCreate with
  | .ok (some init, t) =>
      { t.modify init fun p =>
          { p with
            parent := some init
            currentDir := [47]
            files := fun fd =>
              if fd.val < 3 then some (fd.castLE maxFdPerProc_le_maxOpenFiles) else none
            name := image.name
            stack := image.stack
            stacksize := image.stacksize
            text := image.text
            textsize := image.textsize
            status := .ready } with
        currentProc := init }
  | _ => zeroed

end ProcTable

end Vmwos
