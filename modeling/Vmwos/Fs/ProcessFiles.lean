import Vmwos.Fs.Descriptors
import Vmwos.Fs.Open
import Vmwos.Processes.ProcessTable

/-!
# The open files of the processes

The tables of the processes, of the open files and of the inodes together, and the calls that
change the descriptors of a process: `open_syscall`, `close_syscall`, `dup2_syscall`, `vfork` and
`process_destroy`. A call is given with the process that makes it.
-/

set_option autoImplicit false

namespace Vmwos

open Library

/-- One call after another on the file objects of a list of descriptors, NULL pointers left out. -/
def FileTables.eachFile (call : FileTables → FileId → Except Stuck FileTables) (files : FdTable) :
    List (Fin maxFdPerProc) → FileTables → Except Stuck FileTables
  | [], s => .ok s
  | i :: is, s =>
      match files i with
      | none => eachFile call files is s
      | some f =>
          match call s f with
          | .error e => .error e
          | .ok s => eachFile call files is s

/-- The processes and the open files. -/
structure FileUse (δ : Type) where
  procs : ProcTable
  openFiles : OpenFiles δ

/-- A call of a process. What `dup2` finds at a number that is no descriptor is given with it. -/
inductive FdOp where
  | openFile (pathname : CString) (flags : Nat)
  | dup2 (oldfd newfd : Int) (beyond : Int → Bool)
  | vfork
  | destroy (proc : ProcId)
  | io (fd : Int) (call : IoCall)

namespace FileUse

variable {δ : Type}

/-- The descriptors of a process. -/
def files (s : FileUse δ) (p : ProcId) : FdTable := (s.procs.allProcesses p).files

/-- Change the open files and the descriptors of a process. -/
def put (s : FileUse δ) (p : ProcId) (openFiles : OpenFiles δ) (files : FdTable) : FileUse δ :=
  ⟨s.procs.modify p fun proc => { proc with files := files }, openFiles⟩

/-- The same on the tables of the open files. -/
def putTables (s : FileUse δ) (p : ProcId) (tables : FileTables) (files : FdTable) : FileUse δ :=
  s.put p { s.openFiles with toFileTables := tables } files

/-- `vfork`: the child gets the descriptors of the process, and their file objects are counted
once more. The result is the one in the child. -/
def vfork (s : FileUse δ) (p : ProcId) : Except Stuck (IoReply × FileUse δ) :=
  match ({ s.procs with currentProc := p } : ProcTable).vfork with
  | .error e => .error e
  | .ok (.suspended, t) =>
      (FileTables.eachFile FileTables.filesIncrementCount (s.files p) (List.finRange maxFdPerProc)
        s.openFiles.toFileTables).map fun tables =>
          (.ofResult 0, ⟨t, { s.openFiles with toFileTables := tables }⟩)
  | .ok (_, t) => .ok (.ofResult (-1), { s with procs := t })

/-- `process_destroy`, its memory left out. The control block keeps the pointers. -/
def processDestroy (s : FileUse δ) (proc : ProcId) : Except Stuck (IoReply × FileUse δ) :=
  match s.procs.processDestroy proc with
  | .error e => .error e
  | .ok t =>
      (FileTables.eachFile FileTables.fileObjectFree (t.allProcesses proc).files
        (List.finRange maxFdPerProc) s.openFiles.toFileTables).map fun tables =>
          (.ofResult 0, ⟨t, { s.openFiles with toFileTables := tables }⟩)

/-- One call. -/
def step (dev : Devices δ) (s : FileUse δ) : ProcId × FdOp → Except Stuck (IoReply × FileUse δ)
  | (p, .openFile pathname flags) =>
      (s.openFiles.openSyscall (s.files p) (s.procs.allProcesses p).currentDir pathname flags).map
        fun (result, tables, files) => (.ofResult result, s.putTables p tables files)
  | (p, .dup2 oldfd newfd beyond) =>
      (s.openFiles.dup2Syscall (s.files p) beyond oldfd newfd).map
        fun (result, tables, files) => (.ofResult result, s.putTables p tables files)
  | (p, .vfork) => s.vfork p
  | (_, .destroy proc) => s.processDestroy proc
  | (p, .io fd call) =>
      (s.openFiles.ioCall dev (s.files p) fd call).map
        fun ((reply, files), openFiles) => (reply, s.put p openFiles files)

/-- The state in which init starts: its descriptors are those of the console. -/
def start (stack text : Nat) (image : Image) (fs : FileSystems) (chars : δ) :
    Except Stuck (FileUse δ) :=
  (FileTables.boot fs).start.map fun tables =>
    ⟨ProcTable.startUserspace stack text image, ⟨tables, chars⟩⟩

end FileUse

end Vmwos
