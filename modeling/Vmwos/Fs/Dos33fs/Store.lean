import Vmwos.Fs.Dos33fs.File
import Vmwos.Library.Run

/-!
# A volume with files in use

The functions of the file system work on a volume and on the in-core inode of one
file. `Store` keeps the volume with the inodes of all files in use, and `Store.step` is
one call of a function, so that histories of calls on any number of files are runs of
`Store.step`. Nothing here keeps one file from having two in-core inodes.
-/

set_option autoImplicit false

namespace Vmwos

open Library

/-- Calls on the files of a store. The inode of `make` and `open` is the record that is
filled in; that of `open` has the number of the file to read. -/
inductive FileOp where
  | make (f : Nat) (inode : Inode)
  | «open» (f : Nat) (inode : Inode)
  | link (f : Nat) (name : CString)
  | write (f : Nat) (buf : List UInt8) (offset : Nat)
  | read (f count offset : Nat)
  | truncate (f size : Nat)
  | unlink (f : Nat)
  | destroy (f : Nat)

/-- What a call answers. -/
inductive Reply where
  | result (r : Int)
  | written (r : Int) (offset : Nat)
  | bytes (r : Int) (buf : List UInt8) (offset : Nat)
  deriving DecidableEq

/-- A volume and the in-core inodes of the files in use. -/
structure Store where
  volume : Dos33Volume
  inode : Nat → Option Inode

/-- The inode of `f` is filled in, unless the call failed. -/
def Store.fill (s : Store) (f : Nat) (r : Int) (inode : Inode) : Nat → Option Inode :=
  if r < 0 then s.inode else Function.update s.inode f (some inode)

/-- One call. A destroyed file has no inode left, as `inode_free` clears its slot. -/
def Store.step (dirInode : Inode) (s : Store) : FileOp → Except Stuck (Reply × Store)
  | .make f inode =>
      match dos33fsMakeInode s.volume dirInode inode with
      | .error e => .error e
      | .ok (r, v, inode) => .ok (.result r, ⟨v, s.fill f r inode⟩)
  | .open f inode =>
      let (r, inode) := dos33ReadInode s.volume.disk inode
      .ok (.result r, ⟨s.volume, s.fill f r inode⟩)
  | .link f name =>
      match s.inode f with
      | none => .error .badAccess
      | some inode =>
          let (r, v, inode) := dos33fsLinkInode s.volume inode name
          .ok (.result r, ⟨v, Function.update s.inode f (some inode)⟩)
  | .write f buf offset =>
      match s.inode f with
      | none => .error .badAccess
      | some inode =>
          match dos33fsWriteFile s.volume inode buf offset with
          | .error e => .error e
          | .ok (r, v, inode, offset) =>
              .ok (.written r offset, ⟨v, Function.update s.inode f (some inode)⟩)
  | .read f count offset =>
      match s.inode f with
      | none => .error .badAccess
      | some inode =>
          let (r, buf, offset) := dos33fsReadFile s.volume.disk inode count offset
          .ok (.bytes r buf offset, s)
  | .truncate f size =>
      match s.inode f with
      | none => .error .badAccess
      | some inode =>
          match dos33fsTruncateInode s.volume inode size with
          | .error e => .error e
          | .ok (r, v, inode) => .ok (.result r, ⟨v, Function.update s.inode f (some inode)⟩)
  | .unlink f =>
      match s.inode f with
      | none => .error .badAccess
      | some inode =>
          let (r, v) := dos33fsUnlinkInode s.volume inode
          .ok (.result r, ⟨v, s.inode⟩)
  | .destroy f =>
      match s.inode f with
      | none => .error .badAccess
      | some inode =>
          match dos33fsDestroyInode s.volume inode with
          | .error e => .error e
          | .ok (r, v, _) => .ok (.result r, ⟨v, Function.update s.inode f none⟩)

/-- What a call that returns has done, and what it returns. -/
inductive Store.Returns (dirInode : Inode) (s : Store) : FileOp → Reply → Store → Prop
  | make {f : Nat} {inode inode' : Inode} {r : Int} {v : Dos33Volume}
      (call : dos33fsMakeInode s.volume dirInode inode = .ok (r, v, inode')) :
      Returns dirInode s (.make f inode) (.result r) ⟨v, s.fill f r inode'⟩
  | «open» {f : Nat} {inode inode' : Inode} {r : Int}
      (call : dos33ReadInode s.volume.disk inode = (r, inode')) :
      Returns dirInode s (.open f inode) (.result r) ⟨s.volume, s.fill f r inode'⟩
  | link {f : Nat} {name : CString} {inode inode' : Inode} {r : Int} {v : Dos33Volume}
      (held : s.inode f = some inode)
      (call : dos33fsLinkInode s.volume inode name = (r, v, inode')) :
      Returns dirInode s (.link f name) (.result r) ⟨v, Function.update s.inode f (some inode')⟩
  | write {f offset offset' : Nat} {buf : List UInt8} {inode inode' : Inode} {r : Int}
      {v : Dos33Volume} (held : s.inode f = some inode)
      (call : dos33fsWriteFile s.volume inode buf offset = .ok (r, v, inode', offset')) :
      Returns dirInode s (.write f buf offset) (.written r offset')
        ⟨v, Function.update s.inode f (some inode')⟩
  | read {f count offset offset' : Nat} {buf : List UInt8} {inode : Inode} {r : Int}
      (held : s.inode f = some inode)
      (call : dos33fsReadFile s.volume.disk inode count offset = (r, buf, offset')) :
      Returns dirInode s (.read f count offset) (.bytes r buf offset') s
  | truncate {f size : Nat} {inode inode' : Inode} {r : Int} {v : Dos33Volume}
      (held : s.inode f = some inode)
      (call : dos33fsTruncateInode s.volume inode size = .ok (r, v, inode')) :
      Returns dirInode s (.truncate f size) (.result r) ⟨v, Function.update s.inode f (some inode')⟩
  | unlink {f : Nat} {inode : Inode} {r : Int} {v : Dos33Volume} (held : s.inode f = some inode)
      (call : dos33fsUnlinkInode s.volume inode = (r, v)) :
      Returns dirInode s (.unlink f) (.result r) ⟨v, s.inode⟩
  | destroy {f : Nat} {inode inode' : Inode} {r : Int} {v : Dos33Volume}
      (held : s.inode f = some inode)
      (call : dos33fsDestroyInode s.volume inode = .ok (r, v, inode')) :
      Returns dirInode s (.destroy f) (.result r) ⟨v, Function.update s.inode f none⟩

theorem Store.returns_of_step {dirInode : Inode} {s s' : Store} {op : FileOp} {r : Reply}
    (hstep : s.step dirInode op = .ok (r, s')) : s.Returns dirInode op r s' := by
  cases op with
  | make f inode =>
      rw [Store.step] at hstep
      split at hstep
      · cases hstep
      · rename_i hcall
        cases hstep
        exact .make hcall
  | «open» f inode =>
      cases hstep
      exact .open rfl
  | link f name =>
      rw [Store.step] at hstep
      split at hstep
      · cases hstep
      · rename_i inode hheld
        cases hstep
        exact .link hheld rfl
  | write f buf offset =>
      rw [Store.step] at hstep
      split at hstep
      · cases hstep
      · rename_i inode hheld
        split at hstep
        · cases hstep
        · rename_i hcall
          cases hstep
          exact .write hheld hcall
  | read f count offset =>
      rw [Store.step] at hstep
      split at hstep
      · cases hstep
      · rename_i inode hheld
        cases hstep
        exact .read hheld rfl
  | truncate f size =>
      rw [Store.step] at hstep
      split at hstep
      · cases hstep
      · rename_i inode hheld
        split at hstep
        · cases hstep
        · rename_i hcall
          cases hstep
          exact .truncate hheld hcall
  | unlink f =>
      rw [Store.step] at hstep
      split at hstep
      · cases hstep
      · rename_i inode hheld
        cases hstep
        exact .unlink hheld rfl
  | destroy f =>
      rw [Store.step] at hstep
      split at hstep
      · cases hstep
      · rename_i inode hheld
        split at hstep
        · cases hstep
        · rename_i hcall
          cases hstep
          exact .destroy hheld hcall

/-- A sequence of calls. -/
def Store.run (dirInode : Inode) : Store → List FileOp → Except Stuck (List Reply × Store) :=
  Library.run (Store.step dirInode)

end Vmwos
