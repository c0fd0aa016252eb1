import Vmwos.Fs.FileOffsets
import Vmwos.Lib.Blocks
import Vmwos.Lib.Strings

/-!
# The bounds of a ramdisk

`ramdisk_read` and `ramdisk_write` compare the length of an access with the length of the device, and
leave out the offset. The offset of a descriptor is what `llseek` has made it, so the calls reach all
of the memory. `ramdisk_iff` says which accesses, and which runs of calls, stay within the device.
-/

set_option autoImplicit false

namespace Vmwos

open Library

/-- `struct block_dev_type`, without its name and numbers. `data` is `private`. -/
structure BlockDevType where
  start : Nat
  length : Nat
  capacity : Nat
  data : UInt32

/-- `ramdisk_init` -/
def ramdiskInit (start length : UInt32) : BlockDevType := ⟨0, length.toNat, length.toNat, start⟩

/-- What an access does: the result, the addresses that are accessed by way of the device, and the
memory. -/
structure RamdiskReply where
  result : Int
  touched : List UInt32
  memory : Memory

/-- A call on a descriptor of a block device, with the pointer to the buffer. -/
inductive BlockCall where
  | read (buf count : UInt32)
  | write (buf count : UInt32)
  | llseek (offset whence : Int)
  deriving DecidableEq, Repr

/-- The file object of the descriptor, and the memory. -/
structure BlockFile where
  file : FileObject
  memory : Memory

namespace BlockDevType

section

variable (dev : BlockDevType)

/-- What `ramdisk_read` and `ramdisk_write` have in common: the test, and an access that leads to
`copied`. -/
def access (offset length : UInt32) (memory copied : Memory) : RamdiskReply :=
  if uint64 (dev.start + length.toNat) > dev.length then ⟨-erange, [], memory⟩
  else ⟨int32 length.toNat, charsAt (dev.data + offset) length.toNat, copied⟩

/-- `ramdisk_read` -/
def ramdiskRead (offset length dest : UInt32) (memory : Memory) : RamdiskReply :=
  dev.access offset length memory (memcpyByte memory dest (dev.data + offset) length).2

/-- `ramdisk_write` -/
def ramdiskWrite (offset length src : UInt32) (memory : Memory) : RamdiskReply :=
  dev.access offset length memory (memcpyByte memory (dev.data + offset) src length).2

/-- The offset that is handed to the driver, which takes 32 bits. -/
def driverOffset (file : FileObject) : UInt32 := UInt32.ofNat file.fileOffset

/-- `read_syscall`, `write_syscall` and `llseek_syscall` on a block device: the result and the
addresses that are accessed by way of the device. -/
def step (s : BlockFile) : BlockCall → Except Stuck ((Int × List UInt32) × BlockFile)
  | .read buf count =>
      if s.file.flags &&& oRwMask = oWronly then .ok ((-ebadf, []), s)
      else
        let reply := dev.ramdiskRead (driverOffset s.file) count buf s.memory
        let offset := if reply.result ≥ 0 then uint64OfInt (s.file.fileOffset + reply.result)
          else s.file.fileOffset
        .ok ((reply.result, reply.touched), ⟨{ s.file with fileOffset := offset }, reply.memory⟩)
  | .write buf count =>
      if s.file.flags &&& oRwMask = oRdonly then .ok ((-ebadf, []), s)
      else
        let reply := dev.ramdiskWrite (driverOffset s.file) count buf s.memory
        .ok ((reply.result, reply.touched), ⟨s.file, reply.memory⟩)
  | .llseek offset whence =>
      let (result, file) := llseekGeneric s.file offset whence
      .ok ((result, []), ⟨file, s.memory⟩)

/-! ## Bounds -/

/-- One of the bytes of the device. -/
def InDevice (x : UInt32) : Prop := distance dev.data x < dev.length

/-- What an access is to do: it only touches the device, it returns the length exactly when it ends
within the device, and otherwise an error, and touches nothing. -/
structure Bounded (offset length : UInt32) (memory : Memory) (reply : RamdiskReply) : Prop where
  touches : ∀ x ∈ reply.touched, dev.InDevice x
  succeeds : reply.result = length.toNat ↔ offset.toNat + length.toNat ≤ dev.length
  refuses : dev.length < offset.toNat + length.toNat →
    reply.result = -erange ∧ reply.touched = [] ∧ reply.memory = memory

/-- The access ends within the device, with a length that the result can be; or its length alone is
too much. -/
def InRange (offset length : UInt32) : Prop :=
  (offset.toNat + length.toNat ≤ dev.length ∧ length.toNat < 2147483648) ∨
    dev.length < length.toNat

/-- No call reaches other memory. -/
def TouchesDevice (_ : BlockFile) (_ : BlockCall) (reply : Int × List UInt32) (_ : BlockFile) :
    Prop :=
  ∀ x ∈ reply.2, dev.InDevice x

/-- The access is empty, too long, or ends within the device. -/
def StaysIn (offset length : UInt32) : Prop :=
  length = 0 ∨ dev.length < length.toNat ∨ offset.toNat + length.toNat ≤ dev.length

/-- A call that is refused, or stays in the device. -/
def CallStaysIn (s : BlockFile) : BlockCall → Prop
  | .read _ count => s.file.flags &&& oRwMask = oWronly ∨ dev.StaysIn (driverOffset s.file) count
  | .write _ count => s.file.flags &&& oRwMask = oRdonly ∨ dev.StaysIn (driverOffset s.file) count
  | .llseek _ _ => True

end

/-! ## One access -/

section Access

variable {address size offset length : UInt32} {memory copied : Memory}

theorem access_eq : (ramdiskInit address size).access offset length memory copied =
    if size.toNat < length.toNat then ⟨-erange, [], memory⟩
    else ⟨int32 length.toNat, charsAt (address + offset) length.toNat, copied⟩ := by
  have hlength : uint64 (0 + length.toNat) = length.toNat := by
    rw [Nat.zero_add]
    exact uint64_of_lt (Nat.lt_trans length.toNat_lt (by decide))
  simp only [access, ramdiskInit, hlength, gt_iff_lt]

/-- The addresses of an access that is let through. -/
theorem distance_touched (k : Nat) :
    distance address (address + offset + UInt32.ofNat k) = (offset.toNat + k) % 4294967296 := by
  have hk : offset = UInt32.ofNat offset.toNat := UInt32.ofNat_toNat.symm
  rw [hk, Memory.add_ofNat_add, ← hk]
  rw [distance, UInt32.add_comm, UInt32.add_sub_cancel, UInt32.toNat_ofNat']

/-- All of them are in the device exactly when the last one is, and the access does not run around
the end of the address space. -/
theorem touches_iff : (∀ x ∈ ((ramdiskInit address size).access offset length memory copied).touched,
    (ramdiskInit address size).InDevice x) ↔ (ramdiskInit address size).StaysIn offset length := by
  have hsize := size.toNat_lt
  have hoffset := offset.toNat_lt
  rw [access_eq]
  by_cases hlong : size.toNat < length.toNat
  · rw [if_pos hlong]
    exact ⟨fun _ => Or.inr (Or.inl hlong), fun _ x hx => absurd hx List.not_mem_nil⟩
  · rw [if_neg hlong]
    constructor
    · intro hall
      by_cases hzero : length = 0
      · exact Or.inl hzero
      · have hpos : length.toNat ≠ 0 := fun h => hzero (UInt32.toNat_inj.1 h)
        have hin (k : Nat) (hk : k < length.toNat) : (offset.toNat + k) % 4294967296 < size.toNat := by
          have hmem := hall (address + offset + UInt32.ofNat k)
            (List.mem_map.2 ⟨k, List.mem_range.2 hk, rfl⟩)
          rwa [InDevice, ramdiskInit, distance_touched] at hmem
        right
        right
        by_cases haround : offset.toNat + length.toNat ≤ 4294967296
        · have hlast := hin (length.toNat - 1) (by omega)
          rw [Nat.mod_eq_of_lt (by omega)] at hlast
          show offset.toNat + length.toNat ≤ size.toNat
          omega
        · -- the last byte of the address space is not in the device
          have htop := hin (4294967295 - offset.toNat) (by omega)
          omega
    · intro hstays x hx
      obtain ⟨k, hk, rfl⟩ := List.mem_map.1 hx
      rw [List.mem_range] at hk
      rw [InDevice, ramdiskInit, distance_touched]
      rcases hstays with rfl | hlonger | hle
      · exact absurd hk (Nat.not_lt_zero k)
      · exact absurd hlonger hlong
      · have hend : offset.toNat + length.toNat ≤ size.toNat := hle
        rw [Nat.mod_eq_of_lt (by omega)]
        exact Nat.lt_of_lt_of_le (Nat.add_lt_add_left hk _) hend

theorem int32_eq_iff {n : Nat} (h : n < 4294967296) : int32 n = n ↔ n < 2147483648 := by
  constructor
  · intro heq
    unfold int32 at heq
    omega
  · exact int32_of_lt

/-- An access does what it is to do exactly when it is in range. -/
theorem bounded_access_iff :
    (ramdiskInit address size).Bounded offset length memory
        ((ramdiskInit address size).access offset length memory copied) ↔
      (ramdiskInit address size).InRange offset length := by
  have hsize : (ramdiskInit address size).length = size.toNat := rfl
  have hlength := length.toNat_lt
  constructor
  · intro h
    by_cases hlong : size.toNat < length.toNat
    · exact Or.inr hlong
    · have hsucceeds := h.succeeds
      have hrefuses := h.refuses
      rw [access_eq, if_neg hlong] at hsucceeds hrefuses
      by_cases hend : offset.toNat + length.toNat ≤ size.toNat
      · exact Or.inl ⟨hend, (int32_eq_iff hlength).1 (hsucceeds.2 hend)⟩
      · -- behind the end nothing may be touched, so the access is empty and returns 0
        obtain ⟨hresult, htouched, -⟩ := hrefuses (Nat.lt_of_not_le hend)
        have hnone : length.toNat = 0 := by
          have hlen := congrArg List.length htouched
          rwa [charsAt, List.length_map, List.length_range] at hlen
        have hne : int32 ((0 : Nat) : Int) ≠ -erange := by decide
        rw [hnone] at hresult
        exact absurd hresult hne
  · rintro (⟨hend, hsmall⟩ | hlong)
    · have hnot : ¬ size.toNat < length.toNat :=
        Nat.not_lt.2 (Nat.le_trans (Nat.le_add_left _ _) hend)
      refine ⟨touches_iff.2 (Or.inr (Or.inr hend)), ?_, fun h => absurd hend (Nat.not_le.2 h)⟩
      rw [access_eq, if_neg hnot]
      exact ⟨fun _ => hend, fun _ => int32_of_lt hsmall⟩
    · have hlong' : size.toNat < length.toNat := hlong
      refine ⟨touches_iff.2 (Or.inr (Or.inl hlong)), ?_, fun _ => ?_⟩
      · rw [access_eq, if_pos hlong', hsize]
        constructor
        · intro hresult
          have hneg : (-erange : Int) < 0 := by decide
          exact absurd hresult (Int.ne_of_lt (Int.lt_of_lt_of_le hneg (Int.natCast_nonneg _)))
        · intro hend
          exact absurd hend (Nat.not_le.2 (Nat.lt_of_lt_of_le hlong' (Nat.le_add_left _ _)))
      · rw [access_eq, if_pos hlong']
        exact ⟨rfl, rfl, rfl⟩

end Access

/-! ## Calls on a descriptor -/

section Calls

variable {δ : Type} {devs : Devices δ} {file file' : FileObject} {v v' : Vfs} {i : InodeId}
  {block : Fin blockDevMax} {d d' : δ} {reply : IoReply} {address size : UInt32} {memory : Memory}
  {s s' : BlockFile} {call : BlockCall} {r : Int × List UInt32}

/-- `read_syscall` on a descriptor of the device returns the same result, and moves the offset in
the same way. -/
theorem step_read (h : OnBlock devs file v i block)
    (hlength : (devs.blockDevs block).length = size.toNat) {buf count : UInt32}
    (hok : readFileObject devs count.toNat file v d = .ok (reply, file', v', d')) :
    ∃ touched memory', (ramdiskInit address size).step ⟨file, memory⟩ (.read buf count) =
      .ok ((reply.result, touched), ⟨file', memory'⟩) := by
  by_cases hflags : file.flags &&& oRwMask = oWronly
  · rw [readFileObject, if_pos hflags] at hok
    cases hok
    rw [step, if_pos hflags]
    exact ⟨[], memory, rfl⟩
  · obtain ⟨result, read, hread, rfl, -, rfl⟩ := readFileObject_block h hflags hok
    have hresult : ((ramdiskInit address size).ramdiskRead (driverOffset file) count buf
        memory).result = result := by
      rw [hlength, Romfs.ramdiskRead] at hread
      rw [ramdiskRead, access_eq]
      by_cases hlong : size.toNat < count.toNat
      · rw [if_pos hlong] at hread ⊢
        exact (Prod.mk.inj hread).1
      · rw [if_neg hlong] at hread ⊢
        exact (Prod.mk.inj hread).1
    rw [step, if_neg hflags]
    simp only [hresult]
    exact ⟨_, _, rfl⟩

/-- `write_syscall` does so too. -/
theorem step_write (h : OnBlock devs file v i block)
    (hlength : (devs.blockDevs block).length = size.toNat) {buf count : UInt32}
    {bytes : List UInt8} (hcount : bytes.length = count.toNat)
    (hok : writeFileObject devs bytes file v d = .ok (reply, file', v', d')) :
    ∃ touched memory', (ramdiskInit address size).step ⟨file, memory⟩ (.write buf count) =
      .ok ((reply.result, touched), ⟨file', memory'⟩) := by
  by_cases hflags : file.flags &&& oRwMask = oRdonly
  · rw [writeFileObject, if_pos hflags] at hok
    cases hok
    rw [step, if_pos hflags]
    exact ⟨[], memory, rfl⟩
  · obtain ⟨result, disk, hwrite, rfl, rfl, -⟩ := writeFileObject_block h hflags hok
    have hresult : ((ramdiskInit address size).ramdiskWrite (driverOffset file') count buf
        memory).result = result := by
      rw [hlength, Vmwos.ramdiskWrite, hcount] at hwrite
      rw [ramdiskWrite, access_eq]
      by_cases hlong : size.toNat < count.toNat
      · rw [if_pos hlong] at hwrite ⊢
        exact (Prod.mk.inj hwrite).1
      · rw [if_neg hlong] at hwrite ⊢
        exact (Prod.mk.inj hwrite).1
    rw [step, if_neg hflags]
    simp only [hresult]
    exact ⟨_, _, rfl⟩

/-- And `llseek_syscall`. -/
theorem step_llseek (h : OnBlock devs file v i block) {offset whence : Int}
    (hok : llseekFileObject offset whence file v d = .ok (reply, file', v', d')) :
    (ramdiskInit address size).step ⟨file, memory⟩ (.llseek offset whence) =
      .ok ((reply.result, []), ⟨file', memory⟩) := by
  rw [llseekFileObject, h.inode] at hok
  simp only [h.mode, if_true] at hok
  cases hok
  rfl

/-- A call reaches no other memory exactly when it is refused or stays in the device. -/
theorem callStaysIn_iff (hstep : (ramdiskInit address size).step s call = .ok (r, s')) :
    (ramdiskInit address size).CallStaysIn s call ↔
      (ramdiskInit address size).TouchesDevice s call r s' := by
  cases call with
  | read buf count =>
      rw [step] at hstep
      by_cases hflags : s.file.flags &&& oRwMask = oWronly
      · rw [if_pos hflags] at hstep
        cases hstep
        exact ⟨fun _ x hx => absurd hx List.not_mem_nil, fun _ => Or.inl hflags⟩
      · rw [if_neg hflags] at hstep
        cases hstep
        rw [CallStaysIn, or_iff_right hflags, ← touches_iff]
        exact Iff.rfl
  | write buf count =>
      rw [step] at hstep
      by_cases hflags : s.file.flags &&& oRwMask = oRdonly
      · rw [if_pos hflags] at hstep
        cases hstep
        exact ⟨fun _ x hx => absurd hx List.not_mem_nil, fun _ => Or.inl hflags⟩
      · rw [if_neg hflags] at hstep
        cases hstep
        rw [CallStaysIn, or_iff_right hflags, ← touches_iff]
        exact Iff.rfl
  | llseek offset whence =>
      cases hstep
      exact ⟨fun _ x hx => absurd hx List.not_mem_nil, fun _ => trivial⟩

theorem step_ok (dev : BlockDevType) (s : BlockFile) (call : BlockCall) :
    ∃ r s', dev.step s call = .ok (r, s') := by
  cases call with
  | read buf count =>
      rw [step]
      split
      · exact ⟨_, _, rfl⟩
      · exact ⟨_, _, rfl⟩
  | write buf count =>
      rw [step]
      split
      · exact ⟨_, _, rfl⟩
      · exact ⟨_, _, rfl⟩
  | llseek offset whence => exact ⟨_, _, rfl⟩

/-- Every run comes to its end. -/
theorem run_ok (dev : BlockDevType) (s : BlockFile) (calls : List BlockCall) :
    ∃ rs s', run dev.step s calls = .ok (rs, s') := by
  induction calls generalizing s with
  | nil => exact ⟨[], s, rfl⟩
  | cons call calls ih =>
      obtain ⟨r, s₁, hstep⟩ := step_ok dev s call
      obtain ⟨rs, s', hrun⟩ := ih s₁
      exact ⟨r :: rs, s', run_cons_eq_ok.2 ⟨r, s₁, rs, hstep, hrun, rfl⟩⟩

end Calls

/-- An access does what it is to do exactly when it is in range, and a run of calls keeps to the
device exactly when all its calls do. -/
theorem ramdisk_iff (address size : UInt32) :
    (∀ offset length buf memory, (ramdiskInit address size).Bounded offset length memory
        ((ramdiskInit address size).ramdiskRead offset length buf memory) ↔
      (ramdiskInit address size).InRange offset length) ∧
    (∀ offset length buf memory, (ramdiskInit address size).Bounded offset length memory
        ((ramdiskInit address size).ramdiskWrite offset length buf memory) ↔
      (ramdiskInit address size).InRange offset length) ∧
    ∀ s calls, Throughout (ramdiskInit address size).step (ramdiskInit address size).TouchesDevice
        s calls ↔
      Along (ramdiskInit address size).step (ramdiskInit address size).CallStaysIn s calls := by
  refine ⟨fun _ _ _ _ => bounded_access_iff, fun _ _ _ _ => bounded_access_iff, ?_⟩
  intro s calls
  obtain ⟨rs, s', hrun⟩ := run_ok (ramdiskInit address size) s calls
  exact (along_iff_throughout (fun _ => True) (fun _ _ _ _ _ hstep => callStaysIn_iff hstep)
    (fun _ _ _ _ _ _ _ => trivial) trivial hrun).symm

/-- A byte is read from behind a device of one byte. -/
theorem not_ramdisk : ¬ ∀ address size : UInt32,
    (∀ offset length buf memory, (ramdiskInit address size).Bounded offset length memory
      ((ramdiskInit address size).ramdiskRead offset length buf memory)) ∧
    (∀ offset length buf memory, (ramdiskInit address size).Bounded offset length memory
      ((ramdiskInit address size).ramdiskWrite offset length buf memory)) ∧
    ∀ s calls, Throughout (ramdiskInit address size).step (ramdiskInit address size).TouchesDevice
      s calls := by
  intro hall
  have hbounded := (hall 0 1).1 1 1 16 fun _ => 0
  obtain ⟨-, htouched, -⟩ := hbounded.refuses (by decide)
  rw [ramdiskRead, access_eq, if_neg (by decide)] at htouched
  exact absurd (congrArg List.length htouched) (by decide)

end BlockDevType

end Vmwos
