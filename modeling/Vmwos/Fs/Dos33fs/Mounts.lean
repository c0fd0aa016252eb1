import Vmwos.Fs.Dos33fs.Store

/-!
# Mounted volumes

`dos33fs_mount` reads the VTOC of a device into a row of the static array `vtoc_list`, and
every function of the file system reaches it through `sb->private`. The array is declared as
`vtoc_list[DOS33_VTOC_SIZE][DOS33_MAX_VTOCS]`, so row `k` starts `2 * k` bytes behind the first
byte and its 256 bytes run into those of the next row. `Mounts` keeps the array as it lies in
memory, together with the block devices and, for each mounted superblock, the in-core inodes
of its files. Mounting a device and calling a function on a mounted volume are its steps.
-/

set_option autoImplicit false

namespace Vmwos

open Library

abbrev dos33VtocSize : Nat := 256
abbrev dos33MaxVtocs : Nat := 2
abbrev dos33VtocFirstCatTrack : Nat := 0x01
abbrev dos33VtocFirstCatSector : Nat := 0x02

/-- The fields of `struct superblock_type` that the functions of the file system use: the block
device, the place in `vtoc_list` that `private` points to, the root directory and the two
counts of blocks. -/
structure Dos33Superblock where
  block : Nat
  vtoc : Nat
  rootDir : Nat
  blocks : Nat
  blocksFree : Nat

/-- `vtoc_list`, `next_vtoc`, the superblocks mounted so far, the block devices and the in-core
inodes of each superblock. -/
structure Mounts where
  vtocList : Nat → UInt8
  nextVtoc : Nat
  sbs : List Dos33Superblock
  disk : Nat → Disk
  inode : Nat → Nat → Option Inode

namespace Mounts

/-- Nothing is mounted yet. -/
def boot (disk : Nat → Disk) : Mounts := ⟨fun _ => 0, 0, [], disk, fun _ _ => none⟩

/-- What a function of the file system sees through a superblock. -/
def volume (m : Mounts) (sb : Dos33Superblock) : Dos33Volume :=
  ⟨fun i => m.vtocList (sb.vtoc + i), m.disk sb.block, sb.blocks, sb.blocksFree⟩

/-- The volume of superblock `k` with the files in use on it. -/
def store (m : Mounts) (k : Nat) (sb : Dos33Superblock) : Store := ⟨m.volume sb, m.inode k⟩

/-- What a call through superblock `k` leaves behind. -/
def putStore (m : Mounts) (k : Nat) (sb : Dos33Superblock) (s : Store) : Mounts where
  vtocList := fun i => if i < sb.vtoc then m.vtocList i else s.volume.vtoc (i - sb.vtoc)
  nextVtoc := m.nextVtoc
  sbs := m.sbs.set k
    { sb with blocks := s.volume.blocks, blocksFree := s.volume.blocksFree }
  disk := Function.update m.disk sb.block s.volume.disk
  inode := Function.update m.inode k s.inode

end Mounts

/-- `dos33fs_mount` of the block device with the given number. -/
def dos33fsMount (m : Mounts) (block : Nat) : Int × Mounts :=
  if m.nextVtoc ≥ dos33MaxVtocs then (-e2big, m)
  else
    -- a row of `vtoc_list` has `DOS33_MAX_VTOCS` bytes
    let vtoc := m.nextVtoc * dos33MaxVtocs
    let sector := readBlock (m.disk block) (ts 17 0)
    let vtocList := fun i =>
      if vtoc ≤ i ∧ i < vtoc + dos33VtocSize then sector (i - vtoc) else m.vtocList i
    let rootDir := inodeNumber (vtocList (vtoc + dos33VtocFirstCatTrack)).toNat
      (vtocList (vtoc + dos33VtocFirstCatSector)).toNat 0xff
    let v := dos33UpdateBlocksFree ⟨fun i => vtocList (vtoc + i), m.disk block, 0, 0⟩
    (0, { m with
      vtocList := vtocList
      nextVtoc := m.nextVtoc + 1
      sbs := m.sbs ++ [⟨block, vtoc, rootDir, v.blocks, v.blocksFree⟩] })

/-- The inode that stands for the root directory of a superblock. -/
def Dos33Superblock.dirInode (sb : Dos33Superblock) : Inode :=
  { Inode.zeroed with number := sb.rootDir }

/-- Mounting a block device, and a call on a file of superblock `k`. -/
inductive MountOp where
  | mount (block : Nat)
  | call (k : Nat) (op : FileOp)

/-- One mount or call. -/
def Mounts.step (m : Mounts) : MountOp → Except Stuck (Reply × Mounts)
  | .mount block =>
      let (r, m) := dos33fsMount m block
      .ok (.result r, m)
  | .call k op =>
      match m.sbs[k]? with
      | none => .error .badAccess
      | some sb =>
          match Store.step sb.dirInode (m.store k sb) op with
          | .error e => .error e
          | .ok (r, s) => .ok (r, m.putStore k sb s)

/-- A sequence of mounts and calls. -/
def Mounts.run : Mounts → List MountOp → Except Stuck (List Reply × Mounts) :=
  Library.run Mounts.step

/-! ## Mounting -/

/-- What mounting a block device through superblock `sb` does. -/
structure Mounted (m m' : Mounts) (block : Nat) (sb : Dos33Superblock) : Prop where
  sbs : m'.sbs = m.sbs ++ [sb]
  device : sb.block = block
  vtoc : sb.vtoc = 2 * m.nextVtoc
  nextVtoc : m'.nextVtoc = m.nextVtoc + 1
  disk : m'.disk = m.disk
  inode : m'.inode = m.inode
  read : ∀ i < dos33VtocSize, m'.vtocList (sb.vtoc + i) = m.disk block 272 i
  rootDir : sb.rootDir = inodeNumber (m.disk block 272 dos33VtocFirstCatTrack).toNat
    (m.disk block 272 dos33VtocFirstCatSector).toNat 0xff

/-- There are two rows for VTOCs. -/
theorem dos33fsMount_spec (m : Mounts) (block : Nat) :
    (m.nextVtoc ≥ dos33MaxVtocs ∧ dos33fsMount m block = (-e2big, m)) ∨
      ∃ m' sb, dos33fsMount m block = (0, m') ∧ Mounted m m' block sb := by
  by_cases hroom : m.nextVtoc ≥ dos33MaxVtocs
  · exact Or.inl ⟨hroom, if_pos hroom⟩
  · right
    rw [dos33fsMount, if_neg hroom]
    generalize hrow : m.nextVtoc * dos33MaxVtocs = row
    have hread : ∀ i < dos33VtocSize, (if row ≤ row + i ∧ row + i < row + dos33VtocSize then
        readBlock (m.disk block) (ts 17 0) (row + i - row) else m.vtocList (row + i)) =
          m.disk block 272 i := by
      intro i hi
      rw [if_pos ⟨Nat.le_add_right _ _, Nat.add_lt_add_left hi _⟩, Nat.add_sub_cancel_left]
      rfl
    refine ⟨_, _, rfl, ⟨rfl, rfl, ?_, rfl, rfl, rfl, hread, ?_⟩⟩
    · rw [← hrow]
      exact Nat.mul_comm _ _
    · simp only
      rw [hread dos33VtocFirstCatTrack (by decide), hread dos33VtocFirstCatSector (by decide)]

/-! ## What a call sees and leaves -/

namespace Mounts

variable {m m' : Mounts} {k : Nat} {sb : Dos33Superblock} {s : Store}

/-- A call that returns is a call on the store of its superblock. -/
theorem step_call_eq_ok {op : FileOp} {r : Reply} :
    m.step (.call k op) = .ok (r, m') ↔
      ∃ sb s, m.sbs[k]? = some sb ∧ Store.step sb.dirInode (m.store k sb) op = .ok (r, s) ∧
        m' = m.putStore k sb s := by
  rw [step]
  cases hsb : m.sbs[k]? with
  | none =>
      constructor
      · intro h
        cases h
      · rintro ⟨sb, s, h, -⟩
        cases h
  | some sb =>
      simp only
      cases hstep : Store.step sb.dirInode (m.store k sb) op with
      | error e =>
          constructor
          · intro h
            cases h
          · rintro ⟨sb', s, h, hstep', -⟩
            cases h
            rw [hstep] at hstep'
            cases hstep'
      | ok q =>
          constructor
          · intro h
            cases h
            exact ⟨sb, q.2, rfl, hstep, rfl⟩
          · rintro ⟨sb', s, h, hstep', rfl⟩
            cases h
            rw [hstep] at hstep'
            cases hstep'
            rfl

@[simp] theorem putStore_nextVtoc : (m.putStore k sb s).nextVtoc = m.nextVtoc := rfl

@[simp] theorem putStore_disk_self : (m.putStore k sb s).disk sb.block = s.volume.disk :=
  Function.update_self ..

theorem putStore_disk_of_ne {block : Nat} (h : block ≠ sb.block) :
    (m.putStore k sb s).disk block = m.disk block := Function.update_of_ne h ..

@[simp] theorem putStore_inode_self : (m.putStore k sb s).inode k = s.inode :=
  Function.update_self ..

theorem putStore_inode_of_ne {j : Nat} (h : j ≠ k) : (m.putStore k sb s).inode j = m.inode j :=
  Function.update_of_ne h ..

/-- Through its own superblock a call finds again what it left. -/
theorem vtocList_putStore (i : Nat) :
    (m.putStore k sb s).vtocList (sb.vtoc + i) = s.volume.vtoc i := by
  show (if sb.vtoc + i < sb.vtoc then _ else s.volume.vtoc (sb.vtoc + i - sb.vtoc)) = _
  rw [if_neg (Nat.not_lt.2 (Nat.le_add_right _ _)), Nat.add_sub_cancel_left]

theorem sbs_putStore_self (hk : m.sbs[k]? = some sb) : (m.putStore k sb s).sbs[k]? =
    some { sb with blocks := s.volume.blocks, blocksFree := s.volume.blocksFree } :=
  List.getElem?_set_self (List.getElem?_eq_some_iff.1 hk).1

theorem sbs_putStore_of_ne {j : Nat} (hj : k ≠ j) : (m.putStore k sb s).sbs[j]? = m.sbs[j]? :=
  List.getElem?_set_ne hj

/-- The counts of blocks apart, mounting and calls do not change a superblock. -/
theorem store_putStore (hk : m.sbs[k]? = some sb) :
    ∃ sb', (m.putStore k sb s).sbs[k]? = some sb' ∧ sb'.block = sb.block ∧ sb'.vtoc = sb.vtoc ∧
      sb'.rootDir = sb.rootDir ∧ (m.putStore k sb s).store k sb' = s := by
  refine ⟨{ sb with blocks := s.volume.blocks, blocksFree := s.volume.blocksFree },
    sbs_putStore_self hk, rfl, rfl, rfl, ?_⟩
  have hvtoc : (fun i => (m.putStore k sb s).vtocList (sb.vtoc + i)) = s.volume.vtoc :=
    funext vtocList_putStore
  rw [store, volume, putStore_inode_self]
  simp only [hvtoc, putStore_disk_self]

end Mounts

end Vmwos
