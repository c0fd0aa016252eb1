import Vmwos.Fs.Dos33fs.Mounts
import Vmwos.Fs.Romfs.Lookup
import Mathlib.Data.List.FinRange
import Mathlib.Logic.Equiv.Basic

/-!
# The table of mounted file systems

`mount_syscall` takes the first free slot of `superblock_table` before it looks at the device,
the type and the image, and never gives a slot back; `superblock_lookup` compares the mount
points of the valid slots with a path, character by character and in the order of the slots.

A mount that fails in a table with a free slot is therefore visible
(`mountSyscall_invisible_iff`). Which mount a path belongs to depends on the order of mounting as
soon as two mount points other than the root are prefixes of the path, and a mount point counts
as a prefix of a path that goes on within the same component (`selectsInEveryOrder_iff`).
-/

set_option autoImplicit false

namespace Vmwos

open Library

/-- `BLOCK_DEV_MAX` -/
abbrev blockDevMax : Nat := 8

/-- The two drivers that fill in `sb_ops`. -/
inductive FsType where
  | romfs
  | dos33fs
  deriving DecidableEq, Repr

/-- `struct superblock_type`: `vtoc` is the place in `vtoc_list` that `private` points to, and the
driver is `none` while the operations are NULL. -/
structure Superblock where
  valid : Bool
  blocks : Nat
  blocksFree : Nat
  blockSize : Nat
  rootDir : Nat
  mountpoint : CString
  sbOps : Option FsType
  block : Option (Fin blockDevMax)
  vtoc : Option Nat
  deriving DecidableEq, Repr

/-- A slot that has never been used. -/
def Superblock.zeroed : Superblock := ⟨false, 0, 0, 0, 0, [], none, none, none⟩

/-- `superblock_table` -/
abbrev SuperblockTable := Fin maxMounts → Superblock

/-- An entry of `block_devs`: its name, and whether a driver has set `block_ops`. -/
structure BlockDev where
  name : CString
  hasOps : Bool
  deriving DecidableEq, Repr

/-- The table of the mounts, the static data of `dos33fs.c` and the block devices. -/
structure FileSystems where
  superblockTable : SuperblockTable
  vtocList : Nat → UInt8
  nextVtoc : Nat
  blockDevs : Fin blockDevMax → BlockDev
  disk : Nat → Disk

namespace FileSystems

/-- Nothing is mounted yet. -/
def boot (blockDevs : Fin blockDevMax → BlockDev) (disk : Nat → Disk) : FileSystems :=
  ⟨fun _ => Superblock.zeroed, fun _ => 0, 0, blockDevs, disk⟩

/-- `block_dev_find`: a name matches every device whose name it is a prefix of. -/
def blockDevFind (s : FileSystems) (name : CString) : Option (Fin blockDevMax) :=
  (List.finRange blockDevMax).find? fun i =>
    strncmp name (s.blockDevs i).name name.length = 0

/-- Change one slot of the table. -/
def setSuperblock (s : FileSystems) (i : Fin maxMounts) (sb : Superblock) : FileSystems :=
  { s with superblockTable := Function.update s.superblockTable i sb }

/-- What `dos33fs_mount` works on. -/
def mounts (s : FileSystems) : Mounts := ⟨s.vtocList, s.nextVtoc, [], s.disk, fun _ _ => none⟩

end FileSystems

/-- `superblock_allocate`: the slot and the table with the slot marked valid. -/
def superblockAllocate (table : SuperblockTable) : Option (Fin maxMounts × SuperblockTable) :=
  ((List.finRange maxMounts).find? fun i => (table i).valid = false).map fun i =>
    (i, Function.update table i { table i with valid := true })

/-- The first loop of `superblock_lookup`: the slot of the root. -/
def rootSlot (table : SuperblockTable) : Option (Fin maxMounts) :=
  (List.finRange maxMounts).find? fun i =>
    (table i).valid ∧ strncmp [0x2f] (table i).mountpoint (table i).mountpoint.length = 0

/-- `superblock_lookup`. Without a root `which_root` is 0, so slot 0 is left out. -/
def superblockLookup (table : SuperblockTable) (path : CString) : Option (Fin maxMounts) :=
  let sbRoot := rootSlot table
  let whichRoot := sbRoot.getD 0
  let other := (List.finRange maxMounts).find? fun i =>
    i ≠ whichRoot ∧ (table i).valid ∧
      strncmp (table i).mountpoint path (table i).mountpoint.length = 0
  match other with
  | some i => some i
  | none => sbRoot

/-- `romfs_mount` on a slot: the result and the state. The device is set first. -/
def romfsMount (s : FileSystems) (i : Fin maxMounts) (block : Fin blockDevMax) :
    Except Stuck (Int × FileSystems) :=
  let sb := { s.superblockTable i with block := some block }
  if (s.blockDevs block).hasOps = false then .error .badAccess
  else
    match Romfs.mount (s.disk block).image with
    | .error e => .error e
    | .ok none => .ok (-1, s.setSuperblock i sb)
    | .ok (some m) => .ok (0, s.setSuperblock i
        { sb with
          blocks := m.blocks, blocksFree := 0, blockSize := 1, sbOps := some .romfs
          rootDir := m.rootDir })

/-- `dos33fs_mount` on a slot: the result and the state. The device is set first. -/
def dos33fsMountAt (s : FileSystems) (i : Fin maxMounts) (block : Fin blockDevMax) :
    Except Stuck (Int × FileSystems) :=
  let sb := { s.superblockTable i with block := some block }
  let (result, m) := dos33fsMount s.mounts block
  match m.sbs.head? with
  | none => .ok (result, s.setSuperblock i sb)
  | some d =>
      if (s.blockDevs block).hasOps = false then .error .badAccess
      else .ok (result, { s.setSuperblock i
          { sb with
            vtoc := some d.vtoc, blockSize := dos33BlockSize, sbOps := some .dos33fs
            rootDir := d.rootDir, blocks := d.blocks, blocksFree := d.blocksFree } with
        vtocList := m.vtocList, nextVtoc := m.nextVtoc })

/-- `"romfs"` -/
def romfsName : CString := [0x72, 0x6f, 0x6d, 0x66, 0x73]

/-- `"dos33fs"` -/
def dos33fsName : CString := [0x64, 0x6f, 0x73, 0x33, 0x33, 0x66, 0x73]

/-- The end of `mount_syscall`: the mount point of the slot. A longer one is cut off, and the
slot has not been used before, so NULs follow. -/
def setMountpoint (s : FileSystems) (i : Fin maxMounts) (target : CString) : FileSystems :=
  s.setSuperblock i { s.superblockTable i with mountpoint := target.take maxFilenameSize }

/-- `mount_syscall`: the result and the state. -/
def mountSyscall (s : FileSystems) (source target filesystemtype : CString) :
    Except Stuck (Int × FileSystems) :=
  match superblockAllocate s.superblockTable with
  | none => .ok (-erange, s)
  | some (i, table) =>
      let s := { s with superblockTable := table }
      match s.blockDevFind source with
      | none => .ok (-enodev, s)
      | some block =>
          if strncmp filesystemtype romfsName 5 = 0 then
            match romfsMount s i block with
            | .error e => .error e
            | .ok (result, s) =>
                if result < 0 then .ok (-einval, s) else .ok (0, setMountpoint s i target)
          else if strncmp filesystemtype dos33fsName 5 = 0 then
            match dos33fsMountAt s i block with
            | .error e => .error e
            | .ok (result, s) =>
                if result < 0 then .ok (-einval, s) else .ok (0, setMountpoint s i target)
          else .ok (-enodev, setMountpoint s i target)

/-- A call of `mount_syscall`. -/
structure MountCall where
  source : CString
  target : CString
  filesystemtype : CString

/-- One call of `mount_syscall`, as a step. -/
def FileSystems.mountStep (s : FileSystems) (c : MountCall) : Except Stuck (Int × FileSystems) :=
  mountSyscall s c.source c.target c.filesystemtype

/-! ## What a mount does to the table -/

variable {s s' : FileSystems} {table : SuperblockTable} {i : Fin maxMounts} {r : Int}

/-- The table as a change of one slot that keeps it valid. -/
def KeepsValid (table table' : SuperblockTable) (i : Fin maxMounts) : Prop :=
  ∃ sb, table' = Function.update table i sb ∧ sb.valid = (table i).valid

theorem keepsValid_setSuperblock {sb : Superblock} (h : sb.valid = (s.superblockTable i).valid) :
    KeepsValid s.superblockTable (s.setSuperblock i sb).superblockTable i := ⟨sb, rfl, h⟩

theorem KeepsValid.trans {table₁ table₂ : SuperblockTable} (h : KeepsValid table table₁ i)
    (h' : KeepsValid table₁ table₂ i) : KeepsValid table table₂ i := by
  obtain ⟨sb, rfl, hvalid⟩ := h
  obtain ⟨sb', rfl, hvalid'⟩ := h'
  refine ⟨sb', Function.update_idem _ _ _, ?_⟩
  rw [hvalid', Function.update_self, hvalid]

theorem KeepsValid.valid {table' : SuperblockTable} (h : KeepsValid table table' i) (hvalid : (table i).valid = true) :
    (table' i).valid = true := by
  obtain ⟨sb, rfl, hsb⟩ := h
  rw [Function.update_self, hsb, hvalid]

theorem KeepsValid.of_ne {table' : SuperblockTable} (h : KeepsValid table table' i) {j : Fin maxMounts} (hj : j ≠ i) :
    table' j = table j := by
  obtain ⟨sb, rfl, -⟩ := h
  exact Function.update_of_ne hj _ _

theorem romfsMount_keepsValid {block : Fin blockDevMax} (h : romfsMount s i block = .ok (r, s')) :
    KeepsValid s.superblockTable s'.superblockTable i := by
  unfold romfsMount at h
  simp only at h
  split at h
  · cases h
  · split at h
    · cases h
    · cases h
      exact keepsValid_setSuperblock rfl
    · cases h
      exact keepsValid_setSuperblock rfl

theorem dos33fsMountAt_keepsValid {block : Fin blockDevMax}
    (h : dos33fsMountAt s i block = .ok (r, s')) :
    KeepsValid s.superblockTable s'.superblockTable i := by
  unfold dos33fsMountAt at h
  simp only at h
  split at h
  · cases h
    exact keepsValid_setSuperblock rfl
  · split at h
    · cases h
    · cases h
      exact keepsValid_setSuperblock rfl

theorem setMountpoint_keepsValid (s : FileSystems) (i : Fin maxMounts) (target : CString) :
    KeepsValid s.superblockTable (setMountpoint s i target).superblockTable i :=
  keepsValid_setSuperblock rfl

theorem setMountpoint_mountpoint (s : FileSystems) (i : Fin maxMounts) (target : CString) :
    ((setMountpoint s i target).superblockTable i).mountpoint = target.take maxFilenameSize := by
  show (Function.update s.superblockTable i _ i).mountpoint = _
  rw [Function.update_self]

/-- The slot that the next mount takes. -/
def freeSlot (table : SuperblockTable) : Option (Fin maxMounts) :=
  (superblockAllocate table).map Prod.fst

theorem freeSlot_eq (table : SuperblockTable) :
    freeSlot table = (List.finRange maxMounts).find? fun i => (table i).valid = false := by
  unfold freeSlot superblockAllocate
  rw [Option.map_map]
  exact Option.map_id'

theorem freeSlot_eq_none : freeSlot table = none ↔ ∀ i, (table i).valid = true := by
  rw [freeSlot_eq, List.find?_eq_none]
  simp

theorem not_valid_of_freeSlot (h : freeSlot table = some i) : (table i).valid = false := by
  rw [freeSlot_eq] at h
  simpa using List.find?_some h

/-- What a call of `mount_syscall` does: nothing, when the table is full, and otherwise it takes
the first free slot, whatever it returns. -/
theorem mountSyscall_cases {source target filesystemtype : CString}
    (h : mountSyscall s source target filesystemtype = .ok (r, s')) :
    (freeSlot s.superblockTable = none ∧ r = -erange ∧ s' = s) ∨
      ∃ i, freeSlot s.superblockTable = some i ∧ (s'.superblockTable i).valid = true ∧
        (∀ j, j ≠ i → s'.superblockTable j = s.superblockTable j) ∧
        (r = 0 → (s'.superblockTable i).mountpoint = target.take maxFilenameSize) := by
  unfold mountSyscall at h
  cases halloc : superblockAllocate s.superblockTable with
  | none =>
      rw [halloc] at h
      cases h
      exact Or.inl ⟨by rw [freeSlot, halloc]; rfl, rfl, rfl⟩
  | some slot =>
      obtain ⟨i, table⟩ := slot
      rw [halloc] at h
      right
      have htable : table = Function.update s.superblockTable i
          { s.superblockTable i with valid := true } := by
        unfold superblockAllocate at halloc
        obtain ⟨j, -, hj⟩ := Option.map_eq_some_iff.1 halloc
        cases hj
        rfl
      -- whatever the call does after the allocation, the slot stays valid
      have hkept : ∀ s₁ : FileSystems, KeepsValid table s₁.superblockTable i →
          (s₁.superblockTable i).valid = true ∧
            ∀ j, j ≠ i → s₁.superblockTable j = s.superblockTable j := by
        intro s₁ hs₁
        constructor
        · apply hs₁.valid
          rw [htable, Function.update_self]
        · intro j hj
          rw [hs₁.of_ne hj, htable, Function.update_of_ne hj]
      have hfailed : ∀ s₁ : FileSystems, KeepsValid table s₁.superblockTable i → r ≠ 0 → s' = s₁ →
          ∃ i, freeSlot s.superblockTable = some i ∧ (s'.superblockTable i).valid = true ∧
            (∀ j, j ≠ i → s'.superblockTable j = s.superblockTable j) ∧
            (r = 0 → (s'.superblockTable i).mountpoint = target.take maxFilenameSize) := by
        rintro s₁ hs₁ hr rfl
        exact ⟨i, by rw [freeSlot, halloc]; rfl, (hkept s' hs₁).1, (hkept s' hs₁).2,
          fun h0 => absurd h0 hr⟩
      have hset : ∀ s₁ : FileSystems, KeepsValid table s₁.superblockTable i →
          s' = setMountpoint s₁ i target →
          ∃ i, freeSlot s.superblockTable = some i ∧ (s'.superblockTable i).valid = true ∧
            (∀ j, j ≠ i → s'.superblockTable j = s.superblockTable j) ∧
            (r = 0 → (s'.superblockTable i).mountpoint = target.take maxFilenameSize) := by
        rintro s₁ hs₁ rfl
        have hs₂ := hs₁.trans (setMountpoint_keepsValid s₁ i target)
        exact ⟨i, by rw [freeSlot, halloc]; rfl, (hkept _ hs₂).1, (hkept _ hs₂).2,
          fun _ => setMountpoint_mountpoint s₁ i target⟩
      simp only at h
      split at h
      · -- unknown device
        cases h
        exact hfailed _ ⟨table i, (Function.update_eq_self i table).symm, rfl⟩ (by decide) rfl
      · rename_i block hblock
        split at h
        · split at h
          · cases h
          · rename_i result s₁ hmount
            have hs₁ := romfsMount_keepsValid hmount
            split at h
            · cases h
              exact hfailed s' hs₁ (by decide) rfl
            · cases h
              exact hset s₁ hs₁ rfl
        · split at h
          · split at h
            · cases h
            · rename_i result s₁ hmount
              have hs₁ := dos33fsMountAt_keepsValid hmount
              split at h
              · cases h
                exact hfailed s' hs₁ (by decide) rfl
              · cases h
                exact hset s₁ hs₁ rfl
          · -- unknown type: the mount point is set all the same
            cases h
            exact hset _ ⟨table i, (Function.update_eq_self i table).symm, rfl⟩ rfl

/-! ## Two ramdisks -/

/-- `"ramdisk0"` and `"ramdisk1"` are the devices 1 and 2, as `allocate_block_dev` hands them
out. -/
def twoRamdisks : Fin blockDevMax → BlockDev := fun i =>
  if i = 1 then ⟨[0x72, 0x61, 0x6d, 0x64, 0x69, 0x73, 0x6b, 0x30], true⟩
  else if i = 2 then ⟨[0x72, 0x61, 0x6d, 0x64, 0x69, 0x73, 0x6b, 0x31], true⟩
  else ⟨[], false⟩

/-- A ROMFS image on the first ramdisk and a blank DOS 3.3 volume on the second. -/
def twoRamdisksBoot : FileSystems := FileSystems.boot twoRamdisks fun n =>
  if n = 1 then fun sector i => Romfs.oneFileImage (sector * 256 + i) else blankDisk

/-- `ramdisk0` at `/`. -/
def mountRoot : MountCall :=
  ⟨[0x72, 0x61, 0x6d, 0x64, 0x69, 0x73, 0x6b, 0x30], [0x2f], romfsName⟩

/-- `ramdisk1` at `/disk`. -/
def mountDisk : MountCall :=
  ⟨[0x72, 0x61, 0x6d, 0x64, 0x69, 0x73, 0x6b, 0x31], [0x2f, 0x64, 0x69, 0x73, 0x6b], dos33fsName⟩

/-! ## Failed mounts -/

/-- Every path resolves as before, and the next mount takes the slot it would have taken. -/
def Invisible (s s' : FileSystems) : Prop :=
  (∀ path, superblockLookup s'.superblockTable path = superblockLookup s.superblockTable path) ∧
    freeSlot s'.superblockTable = freeSlot s.superblockTable

/-- A call of `mount_syscall` that fails is, like any other, invisible exactly if there was no
free slot. -/
theorem mountSyscall_invisible_iff {source target filesystemtype : CString}
    (h : mountSyscall s source target filesystemtype = .ok (r, s')) :
    Invisible s s' ↔ ∀ i, (s.superblockTable i).valid = true := by
  rw [← freeSlot_eq_none]
  rcases mountSyscall_cases h with ⟨hfull, -, rfl⟩ | ⟨i, hfree, hvalid, -, -⟩
  · constructor
    · intro _
      exact hfull
    · intro _
      exact ⟨fun _ => rfl, rfl⟩
  · constructor
    · rintro ⟨-, hnext⟩
      -- the slot is valid now, so it is not the next one any more
      rw [hfree] at hnext
      have hnot := not_valid_of_freeSlot hnext
      rw [hvalid] at hnot
      cases hnot
    · intro hfull
      rw [hfull] at hfree
      cases hfree

/-- The mount of a device that does not exist at `/cd`. -/
def mountMissing : MountCall :=
  ⟨[0x63, 0x64, 0x72, 0x6f, 0x6d], [0x2f, 0x63, 0x64], romfsName⟩

/-- It takes the first slot of an empty table. -/
theorem mountSyscall_invisible_missing : ∃ s',
    twoRamdisksBoot.mountStep mountMissing = .ok (-enodev, s') ∧ ¬ Invisible twoRamdisksBoot s' := by
  obtain ⟨s', hmount⟩ : ∃ s', twoRamdisksBoot.mountStep mountMissing = .ok (-enodev, s') := ⟨_, rfl⟩
  refine ⟨s', hmount, ?_⟩
  intro hinvisible
  have hfull := (mountSyscall_invisible_iff hmount).1 hinvisible 0
  cases hfull

/-- Behind a mounted root it takes the paths of the root: its mount point is still empty. -/
theorem not_invisible : ∃ s s', run FileSystems.mountStep twoRamdisksBoot [mountRoot] =
      .ok ([0], s) ∧ s.mountStep mountMissing = .ok (-enodev, s') ∧
    superblockLookup s.superblockTable [0x2f, 0x66] = some 0 ∧
    superblockLookup s'.superblockTable [0x2f, 0x66] = some 1 ∧ ¬ Invisible s s' := by
  have h : (match run FileSystems.mountStep twoRamdisksBoot [mountRoot] with
      | .ok (rs, s) =>
          match s.mountStep mountMissing with
          | .ok (r, s') => decide (rs = [0] ∧ r = -enodev ∧
              superblockLookup s.superblockTable [0x2f, 0x66] = some 0 ∧
              superblockLookup s'.superblockTable [0x2f, 0x66] = some 1)
          | .error _ => false
      | .error _ => false) = true := by decide
  split at h
  · rename_i rs s hrun
    split at h
    · rename_i r s' hmount
      obtain ⟨rfl, rfl, hbefore, hafter⟩ := of_decide_eq_true h
      refine ⟨s, s', hrun, hmount, hbefore, hafter, ?_⟩
      intro hinvisible
      have hsame := hinvisible.1 [0x2f, 0x66]
      rw [hbefore, hafter] at hsame
      cases hsame
    · cases h
  · cases h

/-! ## Choosing a mount -/

/-- A mount point is a prefix of a path component by component. -/
def ComponentPrefix (mountpoint path : CString) : Prop :=
  mountpoint = [0x2f] ∨ mountpoint = path ∨ ∃ rest, path = mountpoint ++ 0x2f :: rest

/-- The mount in a slot is the one that a path belongs to: its mount point is the longest
component-wise prefix of the path. -/
def Selects (table : SuperblockTable) (path : CString) (i : Fin maxMounts) : Prop :=
  (table i).valid = true ∧ ComponentPrefix (table i).mountpoint path ∧
    ∀ j, (table j).valid = true → ComponentPrefix (table j).mountpoint path →
      (table j).mountpoint.length ≤ (table i).mountpoint.length

/-- In every order of the mounts a path resolves to the one it belongs to. -/
def SelectsInEveryOrder (table : SuperblockTable) (path : CString) : Prop :=
  ∃ m, Selects table path m ∧ ∀ order : Equiv.Perm (Fin maxMounts),
    superblockLookup (table ∘ order) path = some (order.symm m)

/-- Only the root is mounted at the root, at most one other mount point is a prefix of the path,
character by character, and it is one component by component. -/
structure Unambiguous (table : SuperblockTable) (path : CString) : Prop where
  oneRoot : ∀ i j, (table i).valid = true → (table j).valid = true →
    (table i).mountpoint <+: [0x2f] → (table j).mountpoint <+: [0x2f] → i = j
  oneOther : ∀ i j, (table i).valid = true → (table j).valid = true →
    ¬ (table i).mountpoint <+: [0x2f] → ¬ (table j).mountpoint <+: [0x2f] →
      (table i).mountpoint <+: path → (table j).mountpoint <+: path → i = j
  component : ∀ i, (table i).valid = true → ¬ (table i).mountpoint <+: [0x2f] →
    (table i).mountpoint <+: path → ComponentPrefix (table i).mountpoint path

section Orders

variable {path : CString}

theorem rootSlot_eq (hnul : ∀ i, 0 ∉ (table i).mountpoint) : rootSlot table =
    (List.finRange maxMounts).find? fun i => (table i).valid ∧ (table i).mountpoint <+: [0x2f] := by
  unfold rootSlot
  congr 1
  funext i
  have hroot : strncmp [0x2f] (table i).mountpoint (table i).mountpoint.length = 0 ↔
      (table i).mountpoint <+: [0x2f] := by
    rw [strncmp_eq_zero_iff (by decide) (hnul i), List.take_length, List.prefix_iff_eq_take]
    exact eq_comm
  exact decide_eq_decide.2 (and_congr_right' hroot)

theorem superblockLookup_eq (hnul : ∀ i, 0 ∉ (table i).mountpoint) (hpath : 0 ∉ path)
    {root : Fin maxMounts} (hroot : rootSlot table = some root) : superblockLookup table path =
      match (List.finRange maxMounts).find? fun i =>
        i ≠ root ∧ (table i).valid ∧ (table i).mountpoint <+: path with
      | some i => some i
      | none => some root := by
  unfold superblockLookup
  simp only [hroot, Option.getD_some, strncmp_length_eq_zero_iff (hnul _) hpath]

/-- A search finds the only slot with the property. -/
theorem find?_finRange_unique {n : Nat} {p : Fin n → Prop} [DecidablePred p] {i : Fin n} (hi : p i)
    (hunique : ∀ j, p j → j = i) : (List.finRange n).find? (fun j => p j) = some i := by
  cases hfind : (List.finRange n).find? fun j => p j with
  | none =>
      rw [List.find?_eq_none] at hfind
      exact absurd (decide_eq_true hi) (hfind i (List.mem_finRange i))
  | some j =>
      have hj : p j := by simpa using List.find?_some hfind
      rw [hunique j hj]

/-- Some order has two given slots in front. -/
theorem exists_order {i j : Fin maxMounts} (hij : i ≠ j) :
    ∃ order : Equiv.Perm (Fin maxMounts), order 0 = j ∧ order 1 = i := by
  refine ⟨(Equiv.swap 1 (Equiv.swap 0 j i)).trans (Equiv.swap 0 j), ?_, ?_⟩
  · have hne : (0 : Fin maxMounts) ≠ Equiv.swap 0 j i := by
      intro h
      have h' := congrArg (Equiv.swap 0 j) h
      rw [Equiv.swap_apply_left, Equiv.swap_apply_self] at h'
      exact hij h'.symm
    rw [Equiv.trans_apply, Equiv.swap_apply_of_ne_of_ne (by decide) hne, Equiv.swap_apply_left]
  · rw [Equiv.trans_apply, Equiv.swap_apply_left, Equiv.swap_apply_self]

/-- A mount whose mount point is a prefix of the path is chosen in some order, when another one
is there for the root. -/
theorem exists_order_lookup (hnul : ∀ i, 0 ∉ (table i).mountpoint) (hpath : 0 ∉ path)
    {i j : Fin maxMounts} (hij : i ≠ j) (hi : (table i).valid = true)
    (hstarts : (table i).mountpoint <+: path) (hj : (table j).valid = true)
    (hroot : (table j).mountpoint <+: [0x2f]) :
    ∃ order : Equiv.Perm (Fin maxMounts),
      superblockLookup (table ∘ order) path = some (order.symm i) := by
  obtain ⟨order, h0, h1⟩ := exists_order hij
  refine ⟨order, ?_⟩
  have hnul' : ∀ i, 0 ∉ ((table ∘ order) i).mountpoint := fun i => hnul (order i)
  have hrootSlot : rootSlot (table ∘ order) = some 0 := by
    have h : (table (order 0)).valid = true ∧ (table (order 0)).mountpoint <+: [0x2f] := by
      rw [h0]
      exact ⟨hj, hroot⟩
    rw [rootSlot_eq hnul']
    exact List.find?_cons_of_pos (decide_eq_true h)
  have hother : ((List.finRange maxMounts).find? fun i =>
      i ≠ 0 ∧ ((table ∘ order) i).valid ∧ ((table ∘ order) i).mountpoint <+: path) = some 1 := by
    have h : (1 : Fin maxMounts) ≠ 0 ∧ (table (order 1)).valid = true ∧
        (table (order 1)).mountpoint <+: path := by
      rw [h1]
      exact ⟨by decide, hi, hstarts⟩
    exact (List.find?_cons_of_neg (by simp)).trans (List.find?_cons_of_pos (decide_eq_true h))
  rw [superblockLookup_eq hnul' hpath hrootSlot, hother, ← h1, Equiv.symm_apply_apply]

/-- With one mount at the root and one other that matches at most, the order does not matter. -/
theorem Unambiguous.lookup (h : Unambiguous table path) (hnul : ∀ i, 0 ∉ (table i).mountpoint)
    (hpath : 0 ∉ path) {root : Fin maxMounts} (hvalid : (table root).valid = true)
    (hroot : (table root).mountpoint <+: [0x2f]) (order : Equiv.Perm (Fin maxMounts)) :
    superblockLookup (table ∘ order) path =
      match (List.finRange maxMounts).find? fun i =>
        i ≠ root ∧ (table i).valid ∧ (table i).mountpoint <+: path with
      | some i => some (order.symm i)
      | none => some (order.symm root) := by
  have hnul' : ∀ i, 0 ∉ ((table ∘ order) i).mountpoint := fun i => hnul (order i)
  have hmatch : ∀ i, i ≠ root ∧ (table i).valid = true ∧ (table i).mountpoint <+: path →
      ¬ (table i).mountpoint <+: [0x2f] :=
    fun i hi hi' => hi.1 (h.oneRoot i root hi.2.1 hvalid hi' hroot)
  have hrootSlot : rootSlot (table ∘ order) = some (order.symm root) := by
    rw [rootSlot_eq hnul']
    apply find?_finRange_unique
    · rw [Function.comp_apply, Equiv.apply_symm_apply]
      exact ⟨hvalid, hroot⟩
    · intro j hj
      rw [Equiv.eq_symm_apply]
      exact h.oneRoot (order j) root hj.1 hvalid hj.2 hroot
  rw [superblockLookup_eq hnul' hpath hrootSlot]
  cases hother : (List.finRange maxMounts).find? fun i =>
      i ≠ root ∧ (table i).valid ∧ (table i).mountpoint <+: path with
  | some i =>
      have hi : i ≠ root ∧ (table i).valid = true ∧ (table i).mountpoint <+: path := by
        simpa using List.find?_some hother
      have hfind : ((List.finRange maxMounts).find? fun j => j ≠ order.symm root ∧
          ((table ∘ order) j).valid ∧ ((table ∘ order) j).mountpoint <+: path) =
            some (order.symm i) := by
        apply find?_finRange_unique
        · rw [Function.comp_apply, Equiv.apply_symm_apply]
          exact ⟨fun heq => hi.1 (order.symm.injective heq), hi.2⟩
        · intro j hj
          have hj' : order j ≠ root ∧ (table (order j)).valid = true ∧
              (table (order j)).mountpoint <+: path :=
            ⟨fun heq => hj.1 (Equiv.eq_symm_apply order |>.2 heq), hj.2⟩
          rw [Equiv.eq_symm_apply]
          exact h.oneOther (order j) i hj'.2.1 hi.2.1 (hmatch _ hj') (hmatch _ hi) hj'.2.2 hi.2.2
      rw [hfind]
  | none =>
      have hfind : ((List.finRange maxMounts).find? fun j => j ≠ order.symm root ∧
          ((table ∘ order) j).valid ∧ ((table ∘ order) j).mountpoint <+: path) = none := by
        rw [List.find?_eq_none] at hother ⊢
        intro j _ hj
        have hj := of_decide_eq_true hj
        refine hother (order j) (List.mem_finRange _) (decide_eq_true ⟨?_, hj.2⟩)
        exact fun heq => hj.1 (Equiv.eq_symm_apply order |>.2 heq)
      rw [hfind]

/-- A component-wise prefix other than the root is a prefix. -/
theorem ComponentPrefix.prefix_of_ne {mountpoint : CString} (h : ComponentPrefix mountpoint path)
    (hne : mountpoint ≠ [0x2f]) : mountpoint <+: path := by
  rcases h with hroot | rfl | ⟨rest, rfl⟩
  · exact absurd hroot hne
  · exact List.prefix_refl _
  · exact List.prefix_append _ _

/-- With a mount at `/`, a path resolves to the mount it belongs to in every order of the mounts
exactly if the mounts are unambiguous for it. -/
theorem selectsInEveryOrder_iff (hnul : ∀ i, 0 ∉ (table i).mountpoint) (hpath : 0 ∉ path)
    (habsolute : path.head? = some 0x2f)
    (hroot : ∃ i, (table i).valid = true ∧ (table i).mountpoint = [0x2f]) :
    SelectsInEveryOrder table path ↔ Unambiguous table path := by
  obtain ⟨root, hvalid, hmountpoint⟩ := hroot
  have hroot : (table root).mountpoint <+: [0x2f] := by rw [hmountpoint]
  obtain ⟨rest, rfl⟩ : ∃ rest, path = 0x2f :: rest := by
    cases path with
    | nil => cases habsolute
    | cons c rest => exact ⟨rest, by rw [Option.some.inj habsolute]⟩
  have hrootPath : ∀ {mountpoint : CString}, mountpoint <+: [0x2f] → mountpoint <+: 0x2f :: rest :=
    fun hmp => hmp.trans (List.cons_prefix_cons.2 ⟨rfl, List.nil_prefix⟩)
  constructor
  · rintro ⟨m, hm, hlookup⟩
    -- a mount that some order chooses is the one that every order chooses
    have hchosen : ∀ i j, i ≠ j → (table i).valid = true → (table i).mountpoint <+: 0x2f :: rest →
        (table j).valid = true → (table j).mountpoint <+: [0x2f] → i = m := by
      intro i j hij hi hstarts hj hjroot
      obtain ⟨order, horder⟩ := exists_order_lookup hnul hpath hij hi hstarts hj hjroot
      rw [hlookup order] at horder
      exact (order.symm.injective (Option.some.inj horder)).symm
    have hother : ∀ i, (table i).valid = true → ¬ (table i).mountpoint <+: [0x2f] →
        (table i).mountpoint <+: 0x2f :: rest → i = m := by
      intro i hi hnot hstarts
      have hne : i ≠ root := fun heq => hnot (heq ▸ hroot)
      exact hchosen i root hne hi hstarts hvalid hroot
    refine ⟨?_, ?_, ?_⟩
    · intro i j hi hj hiroot hjroot
      by_contra hij
      have hi' := hchosen i j hij hi (hrootPath hiroot) hj hjroot
      have hj' := hchosen j i (Ne.symm hij) hj (hrootPath hjroot) hi hiroot
      exact hij (hi'.trans hj'.symm)
    · intro i j hi hj hnoti hnotj hpi hpj
      rw [hother i hi hnoti hpi, hother j hj hnotj hpj]
    · intro i hi hnot hstarts
      rw [hother i hi hnot hstarts]
      exact hm.2.1
  · intro h
    have hlookup := h.lookup hnul hpath hvalid hroot
    cases hfind : (List.finRange maxMounts).find? fun i =>
        i ≠ root ∧ (table i).valid ∧ (table i).mountpoint <+: 0x2f :: rest with
    | some m =>
        rw [hfind] at hlookup
        have hm : m ≠ root ∧ (table m).valid = true ∧ (table m).mountpoint <+: 0x2f :: rest := by
          simpa using List.find?_some hfind
        have hnot : ¬ (table m).mountpoint <+: [0x2f] :=
          fun hm' => hm.1 (h.oneRoot m root hm.2.1 hvalid hm' hroot)
        have hpos : 1 ≤ (table m).mountpoint.length := by
          apply List.length_pos_of_ne_nil
          intro hnil
          rw [hnil] at hnot
          exact hnot List.nil_prefix
        refine ⟨m, ⟨hm.2.1, h.component m hm.2.1 hnot hm.2.2, ?_⟩, hlookup⟩
        intro j hj hcomponent
        by_cases hjroot : (table j).mountpoint <+: [0x2f]
        · exact Nat.le_trans hjroot.length_le hpos
        · have hjne : (table j).mountpoint ≠ [0x2f] := fun heq => hjroot (by rw [heq])
          rw [h.oneOther j m hj hm.2.1 hjroot hnot (hcomponent.prefix_of_ne hjne) hm.2.2]
    | none =>
        rw [hfind] at hlookup
        refine ⟨root, ⟨hvalid, Or.inl hmountpoint, ?_⟩, hlookup⟩
        intro j hj hcomponent
        rw [hmountpoint]
        by_cases hjroot : (table j).mountpoint <+: [0x2f]
        · exact hjroot.length_le
        · -- no other mount point is a prefix of the path
          have hjne : (table j).mountpoint ≠ [0x2f] := fun heq => hjroot (by rw [heq])
          rw [List.find?_eq_none] at hfind
          exact absurd (decide_eq_true ⟨fun heq => hjroot (heq ▸ hroot), hj,
            hcomponent.prefix_of_ne hjne⟩) (hfind j (List.mem_finRange j))

end Orders

/-- What the second slot holds and where `/disk2/x` is looked up after both mounts. -/
theorem run_mountDisk : ∃ s, run FileSystems.mountStep twoRamdisksBoot [mountRoot, mountDisk] =
      .ok ([0, 0], s) ∧ (s.superblockTable 0).mountpoint = [0x2f] ∧
    (s.superblockTable 1).mountpoint = [0x2f, 0x64, 0x69, 0x73, 0x6b] ∧
    superblockLookup s.superblockTable [0x2f, 0x64, 0x69, 0x73, 0x6b, 0x32, 0x2f, 0x78] = some 1 ∧
    (∀ i, (s.superblockTable i).valid = true ↔ i.val < 2) ∧
    ∀ i, 0 ∉ (s.superblockTable i).mountpoint := by
  have h : (match run FileSystems.mountStep twoRamdisksBoot [mountRoot, mountDisk] with
      | .ok (rs, s) => decide (rs = [0, 0] ∧ (s.superblockTable 0).mountpoint = [0x2f] ∧
          (s.superblockTable 1).mountpoint = [0x2f, 0x64, 0x69, 0x73, 0x6b] ∧
          superblockLookup s.superblockTable [0x2f, 0x64, 0x69, 0x73, 0x6b, 0x32, 0x2f, 0x78] =
            some 1 ∧ (∀ i, (s.superblockTable i).valid = true ↔ i.val < 2) ∧
          ∀ i, 0 ∉ (s.superblockTable i).mountpoint)
      | .error _ => false) = true := by decide
  split at h
  · rename_i rs s hrun
    have h := of_decide_eq_true h
    obtain ⟨rfl, hrest⟩ := h
    exact ⟨s, hrun, hrest⟩
  · cases h

/-- After both mounts a path below `/disk` resolves to the second one in every order. -/
theorem selectsInEveryOrder_mountDisk : ∃ s,
    run FileSystems.mountStep twoRamdisksBoot [mountRoot, mountDisk] = .ok ([0, 0], s) ∧
      SelectsInEveryOrder s.superblockTable [0x2f, 0x64, 0x69, 0x73, 0x6b, 0x2f, 0x78] := by
  obtain ⟨s, hrun, hroot, hdisk, -, hvalid, hnul⟩ := run_mountDisk
  have hfirst : ∀ i : Fin maxMounts, i.val < 2 → i = 0 ∨ i = 1 := by decide
  have hslot : ∀ i, (s.superblockTable i).valid = true → i = 0 ∨ i = 1 :=
    fun i hi => hfirst i ((hvalid i).1 hi)
  have hdiskRoot : ¬ (s.superblockTable 1).mountpoint <+: [0x2f] := by
    rw [hdisk]
    decide
  have hrootRoot : (s.superblockTable 0).mountpoint <+: [0x2f] := by rw [hroot]
  refine ⟨s, hrun, (selectsInEveryOrder_iff hnul (by decide) rfl
    ⟨0, (hvalid 0).2 (by decide), hroot⟩).2 ⟨?_, ?_, ?_⟩⟩
  · intro i j hi hj hiroot hjroot
    rcases hslot i hi with rfl | rfl
    · rcases hslot j hj with rfl | rfl
      · rfl
      · exact absurd hjroot hdiskRoot
    · exact absurd hiroot hdiskRoot
  · intro i j hi hj hiroot hjroot _ _
    rcases hslot i hi with rfl | rfl
    · exact absurd hrootRoot hiroot
    · rcases hslot j hj with rfl | rfl
      · exact absurd hrootRoot hjroot
      · rfl
  · intro i hi hiroot _
    rcases hslot i hi with rfl | rfl
    · exact absurd hrootRoot hiroot
    · rw [hdisk]
      exact Or.inr (Or.inr ⟨[0x78], rfl⟩)

/-- But so does a path below `/disk2`, which belongs to the root. -/
theorem not_selectsInEveryOrder : ∃ s,
    run FileSystems.mountStep twoRamdisksBoot [mountRoot, mountDisk] = .ok ([0, 0], s) ∧
      ¬ SelectsInEveryOrder s.superblockTable [0x2f, 0x64, 0x69, 0x73, 0x6b, 0x32, 0x2f, 0x78] := by
  obtain ⟨s, hrun, -, hdisk, hlookup, -, -⟩ := run_mountDisk
  refine ⟨s, hrun, ?_⟩
  rintro ⟨m, hm, horder⟩
  have hm1 : some m = some 1 := (horder (Equiv.refl _)).symm.trans hlookup
  cases hm1
  have hcomponent := hm.2.1
  rw [hdisk] at hcomponent
  rcases hcomponent with h | h | ⟨rest, h⟩
  · cases h
  · cases h
  · cases h

end Vmwos
