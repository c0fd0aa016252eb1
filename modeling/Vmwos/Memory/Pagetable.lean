import Vmwos.Lib.Base
import Mathlib.Logic.Function.Basic

/-!
# The page tables of the two MMUs

`setup_pagetable` fills a first-level table of 4096 section descriptors, one for each megabyte, by
loops over ranges of sections that overwrite what the loops before them have stored. There is one
for ARMv7 and one for the ARM1176. A loop is described by the table it leaves (`setSections_eq`), a
descriptor by its section and its access permissions; what user mode may reach is then a question
about the last loop that passed over a section.
-/

set_option autoImplicit false

namespace Vmwos

/-- `NUM_PAGE_TABLE_ENTRIES` -/
abbrev numPageTableEntries : Nat := 4096

/-- `page_table` -/
abbrev PageTable := Nat → UInt32

/-- `i << 20 | attributes` -/
def sectionDescriptor (attributes : UInt32) (i : Nat) : UInt32 :=
  UInt32.ofNat i <<< 20 ||| attributes

/-- `n` rounds of a loop that stores descriptors from section `i` on. -/
def sectionLoop (attributes : UInt32) : Nat → Nat → PageTable → Except Stuck PageTable
  | 0, _, table => .ok table
  | n + 1, i, table =>
      if i < numPageTableEntries then
        sectionLoop attributes n (i + 1)
          (Function.update table i (sectionDescriptor attributes i))
      else .error .badAccess

/-- `for (i = first; i < last; i++) page_table[i] = i << 20 | attributes;` -/
def setSections (attributes : UInt32) (first last : Nat) (table : PageTable) :
    Except Stuck PageTable :=
  sectionLoop attributes (last - first) first table

namespace Armv7

def sectionKernel : UInt32 := 0x9140e
def sectionUser : UInt32 := 0x90c0e
def section1GB : UInt32 := 0x90416
def section2GB : UInt32 := 0x90416
def sectionDefault : UInt32 := 0x90c16

/-- `setup_pagetable` of `armv7-mmu.c` -/
def setupPagetable (memStart memEnd kernelEnd : UInt32) (table : PageTable) :
    Except Stuck PageTable := do
  let table ← setSections sectionDefault 0 numPageTableEntries table
  let table ← setSections sectionKernel (memStart >>> 20).toNat (kernelEnd >>> 20).toNat table
  let table ← setSections sectionUser (kernelEnd >>> 20).toNat (memEnd >>> 20).toNat table
  let table ← setSections section1GB (0x40000000 >>> 20) (0x80000000 >>> 20) table
  setSections section2GB (0x80000000 >>> 20) ((0xffffffff >>> 20) + 1) table

end Armv7

namespace Arm1176

def cacheDisabled : UInt32 := 0x12
def cacheWriteback : UInt32 := 0x1e
def apSupervisorOnly : UInt32 := 0x1

/-- `setup_pagetable` of `arm1176-mmu.c` -/
def setupPagetable (memStart memEnd kernelEnd : UInt32) (table : PageTable) :
    Except Stuck PageTable := do
  let table ← setSections (apSupervisorOnly <<< 10 ||| cacheDisabled) 0 numPageTableEntries table
  let table ← setSections (apSupervisorOnly <<< 10 ||| cacheWriteback)
    (memStart >>> 20).toNat (kernelEnd >>> 20).toNat table
  setSections ((3 : UInt32) <<< 10 ||| cacheWriteback) (kernelEnd >>> 20).toNat (memEnd >>> 20).toNat table

end Arm1176

/-! ## What a descriptor says -/

/-- The section that a descriptor maps to. -/
def physicalSection (descriptor : UInt32) : Nat := (descriptor >>> 20).toNat

/-- The access permission bits: bit 15 (AP[2], which the ARM1176 leaves 0), 11 and 10. -/
structure AccessPermission where
  ap2 : Bool
  ap1 : Bool
  ap0 : Bool
  deriving DecidableEq, Repr

/-- The access permissions of a descriptor. -/
def accessPermission (descriptor : UInt32) : AccessPermission where
  ap2 := descriptor.toNat.testBit 15
  ap1 := descriptor.toNat.testBit 11
  ap0 := descriptor.toNat.testBit 10

/-- User mode may at least read: AP[1] is set, as in `AP_USER_READ_ONLY` and `AP_FULL_ACCESS`. -/
def AccessPermission.UserAccess (permission : AccessPermission) : Prop := permission.ap1 = true

instance (permission : AccessPermission) : Decidable permission.UserAccess :=
  inferInstanceAs (Decidable (permission.ap1 = true))

/-- The descriptor is one of a section: bits 1 and 0 are 1,0 and bit 18 is 0. -/
def IsSection (descriptor : UInt32) : Prop :=
  descriptor.toNat.testBit 1 = true ∧ descriptor.toNat.testBit 0 = false ∧
    descriptor.toNat.testBit 18 = false

instance (descriptor : UInt32) : Decidable (IsSection descriptor) :=
  inferInstanceAs (Decidable (_ ∧ _ ∧ _))

/-- Every section is mapped to itself, and user mode reaches the sections between the kernel and
the end of memory and no others. -/
def UserMemoryOnly (memEnd kernelEnd : UInt32) (table : PageTable) : Prop :=
  ∀ i < numPageTableEntries, IsSection (table i) ∧ physicalSection (table i) = i ∧
    ((accessPermission (table i)).UserAccess ↔
      kernelEnd.toNat ≤ i * 1048576 ∧ i * 1048576 < memEnd.toNat)

/-- The access permissions of an address. -/
def addressPermission (table : PageTable) (address : UInt32) : AccessPermission :=
  accessPermission (table (address >>> 20).toNat)

section Descriptor

variable {attributes : UInt32} {i : Nat}

theorem toNat_sectionDescriptor (hattributes : attributes.toNat < 1048576)
    (hi : i < numPageTableEntries) :
    (sectionDescriptor attributes i).toNat = 2 ^ 20 * i + attributes.toNat := by
  have hi' : i < 4096 := hi
  have hsize : i < 2 ^ 32 := Nat.lt_trans hi' (by decide)
  have hshift : 2 ^ 20 * i < 2 ^ 32 := by omega
  rw [sectionDescriptor, UInt32.toNat_or, UInt32.toNat_shiftLeft, UInt32.toNat_ofNat_of_lt' hsize]
  show i <<< 20 % 2 ^ 32 ||| attributes.toNat = _
  rw [Nat.shiftLeft_eq, Nat.mul_comm, Nat.mod_eq_of_lt hshift]
  exact (Nat.two_pow_add_eq_or_of_lt hattributes i).symm

theorem testBit_sectionDescriptor (hattributes : attributes.toNat < 1048576)
    (hi : i < numPageTableEntries) {bit : Nat} (hbit : bit < 20) :
    (sectionDescriptor attributes i).toNat.testBit bit = attributes.toNat.testBit bit := by
  rw [toNat_sectionDescriptor hattributes hi, Nat.testBit_two_pow_mul_add i hattributes, if_pos hbit]

theorem accessPermission_sectionDescriptor (hattributes : attributes.toNat < 1048576)
    (hi : i < numPageTableEntries) :
    accessPermission (sectionDescriptor attributes i) = accessPermission attributes := by
  simp only [accessPermission]
  rw [testBit_sectionDescriptor hattributes hi (by decide),
    testBit_sectionDescriptor hattributes hi (by decide),
    testBit_sectionDescriptor hattributes hi (by decide)]

theorem isSection_sectionDescriptor (hattributes : attributes.toNat < 1048576)
    (hi : i < numPageTableEntries) (h : IsSection attributes) :
    IsSection (sectionDescriptor attributes i) := by
  unfold IsSection
  rw [testBit_sectionDescriptor hattributes hi (by decide),
    testBit_sectionDescriptor hattributes hi (by decide),
    testBit_sectionDescriptor hattributes hi (by decide)]
  exact h

theorem physicalSection_sectionDescriptor (hattributes : attributes.toNat < 1048576)
    (hi : i < numPageTableEntries) :
    physicalSection (sectionDescriptor attributes i) = i := by
  rw [physicalSection, UInt32.toNat_shiftRight, toNat_sectionDescriptor hattributes hi]
  show (1048576 * i + attributes.toNat) >>> 20 = i
  rw [Nat.shiftRight_eq_div_pow]
  show (1048576 * i + attributes.toNat) / 1048576 = i
  rw [Nat.mul_add_div (by decide), Nat.div_eq_of_lt hattributes, Nat.add_zero]

end Descriptor

/-! ## What the loops leave -/

/-- The table after a loop over the sections from `first` to `last`. -/
theorem sectionLoop_eq (attributes : UInt32) (n first : Nat) (table : PageTable)
    (hlast : first + n ≤ numPageTableEntries) :
    sectionLoop attributes n first table = .ok fun i =>
      if first ≤ i ∧ i < first + n then sectionDescriptor attributes i else table i := by
  induction n generalizing first table with
  | zero =>
    simp only [sectionLoop]
    congr
    funext i
    rw [if_neg (by omega)]
  | succ n ih =>
    rw [sectionLoop, if_pos (by omega), ih (first + 1) _ (by omega)]
    congr
    funext i
    by_cases hi : i = first
    · subst hi
      rw [if_neg (by omega), Function.update_self, if_pos (by omega)]
    · rw [Function.update_of_ne hi]
      exact if_congr (by omega) rfl rfl

theorem setSections_eq (attributes : UInt32) (first last : Nat) (table : PageTable)
    (hfirst : first ≤ numPageTableEntries) (hlast : last ≤ numPageTableEntries) :
    setSections attributes first last table = .ok fun i =>
      if first ≤ i ∧ i < last then sectionDescriptor attributes i else table i := by
  rw [setSections, sectionLoop_eq _ _ _ _ (by omega)]
  congr
  funext i
  exact if_congr (by omega) rfl rfl

theorem section_lt (address : UInt32) : (address >>> 20).toNat < numPageTableEntries := by
  rw [UInt32.toNat_shiftRight]
  show address.toNat >>> 20 < 4096
  have hlt := address.toNat_lt
  rw [Nat.shiftRight_eq_div_pow]
  omega

theorem section_le (address : UInt32) : (address >>> 20).toNat ≤ numPageTableEntries :=
  Nat.le_of_lt (section_lt address)

theorem zero_section : ((0 : UInt32) >>> 20).toNat = 0 := rfl

/-- The attributes that the last loop over a section stores. -/
def Armv7.attributes (memEnd kernelEnd : UInt32) (i : Nat) : UInt32 :=
  if 2048 ≤ i then section2GB
  else if 1024 ≤ i then section1GB
  else if (kernelEnd >>> 20).toNat ≤ i ∧ i < (memEnd >>> 20).toNat then sectionUser
  else if i < (kernelEnd >>> 20).toNat then sectionKernel
  else sectionDefault

theorem sections_1GB : (0x40000000 >>> 20 : Nat) = 1024 ∧ (0x80000000 >>> 20 : Nat) = 2048 ∧
    (0xffffffff >>> 20 : Nat) + 1 = 4096 := by decide

theorem Armv7.setupPagetable_eq (memEnd kernelEnd : UInt32) (table : PageTable) :
    ∃ result, setupPagetable 0 memEnd kernelEnd table = .ok result ∧
      ∀ i < numPageTableEntries,
        result i = sectionDescriptor (attributes memEnd kernelEnd i) i := by
  have hkernel := section_le kernelEnd
  have hmem := section_le memEnd
  obtain ⟨h1GB, h2GB, h4GB⟩ := sections_1GB
  unfold setupPagetable
  rw [h1GB, h2GB, h4GB, zero_section, setSections_eq _ _ _ _ (Nat.zero_le _) (Nat.le_refl _),
    ok_bind, setSections_eq _ _ _ _ (Nat.zero_le _) hkernel, ok_bind,
    setSections_eq _ _ _ _ hkernel hmem, ok_bind,
    setSections_eq section1GB _ _ _ (by decide) (by decide), ok_bind,
    setSections_eq section2GB _ _ _ (by decide) (by decide)]
  refine ⟨_, rfl, fun i hi => ?_⟩
  -- the loops from the last one back: the first that passes over the section has stored it
  have hlast : i < 4096 := hi
  rw [attributes]
  by_cases h2 : 2048 ≤ i
  · rw [if_pos h2, if_pos ⟨h2, hlast⟩]
  · rw [if_neg h2, if_neg fun h => h2 h.1]
    by_cases h1 : 1024 ≤ i
    · rw [if_pos h1, if_pos ⟨h1, Nat.lt_of_not_le h2⟩]
    · rw [if_neg h1, if_neg fun h => h1 h.1]
      simp only [Nat.zero_le, true_and, hi, if_true]
      split
      · rfl
      · split <;> rfl

/-- The attributes that the last loop over a section stores. -/
def Arm1176.attributes (memEnd kernelEnd : UInt32) (i : Nat) : UInt32 :=
  if (kernelEnd >>> 20).toNat ≤ i ∧ i < (memEnd >>> 20).toNat then (3 : UInt32) <<< 10 ||| cacheWriteback
  else if i < (kernelEnd >>> 20).toNat then apSupervisorOnly <<< 10 ||| cacheWriteback
  else apSupervisorOnly <<< 10 ||| cacheDisabled

theorem Arm1176.setupPagetable_eq (memEnd kernelEnd : UInt32) (table : PageTable) :
    ∃ result, setupPagetable 0 memEnd kernelEnd table = .ok result ∧
      ∀ i < numPageTableEntries,
        result i = sectionDescriptor (attributes memEnd kernelEnd i) i := by
  have hkernel := section_le kernelEnd
  have hmem := section_le memEnd
  rw [setupPagetable, zero_section, setSections_eq _ _ _ _ (Nat.zero_le _) (Nat.le_refl _), ok_bind,
    setSections_eq _ _ _ _ (Nat.zero_le _) hkernel, ok_bind, setSections_eq _ _ _ _ hkernel hmem]
  refine ⟨_, rfl, fun i hi => ?_⟩
  rw [attributes]
  simp only [Nat.zero_le, true_and, hi, if_true]
  split
  · rfl
  · split <;> rfl

/-! ## Who may reach what -/

theorem Armv7.attributes_valid (memEnd kernelEnd : UInt32) (i : Nat) :
    (attributes memEnd kernelEnd i).toNat < 1048576 ∧ IsSection (attributes memEnd kernelEnd i) := by
  unfold attributes
  repeat' split
  all_goals decide

theorem Arm1176.attributes_valid (memEnd kernelEnd : UInt32) (i : Nat) :
    (attributes memEnd kernelEnd i).toNat < 1048576 ∧ IsSection (attributes memEnd kernelEnd i) := by
  unfold attributes
  repeat' split
  all_goals decide

theorem Armv7.supervisorAccess_attributes (memEnd kernelEnd : UInt32) (i : Nat) :
    (accessPermission (attributes memEnd kernelEnd i)).ap2 = false ∧
      (accessPermission (attributes memEnd kernelEnd i)).ap0 = true := by
  unfold attributes
  repeat' split
  all_goals decide

theorem Arm1176.supervisorAccess_attributes (memEnd kernelEnd : UInt32) (i : Nat) :
    (accessPermission (attributes memEnd kernelEnd i)).ap2 = false ∧
      (accessPermission (attributes memEnd kernelEnd i)).ap0 = true := by
  unfold attributes
  repeat' split
  all_goals decide

/-- Below the first gigabyte everything but the kernel is open to user mode, memory or not. -/
theorem Armv7.userAccess_attributes (memEnd kernelEnd : UInt32) (i : Nat) :
    (accessPermission (attributes memEnd kernelEnd i)).UserAccess ↔
      i < 1024 ∧ (kernelEnd >>> 20).toNat ≤ i := by
  unfold attributes
  split
  · exact iff_of_false (by decide) (by omega)
  · split
    · exact iff_of_false (by decide) (by omega)
    · split
      · exact iff_of_true (by decide) (by omega)
      · split
        · exact iff_of_false (by decide) (by omega)
        · exact iff_of_true (by decide) (by omega)

theorem Arm1176.userAccess_attributes (memEnd kernelEnd : UInt32) (i : Nat) :
    (accessPermission (attributes memEnd kernelEnd i)).UserAccess ↔
      (kernelEnd >>> 20).toNat ≤ i ∧ i < (memEnd >>> 20).toNat := by
  unfold attributes
  split
  · exact iff_of_true (by decide) ‹_›
  · split
    · exact iff_of_false (by decide) ‹_›
    · exact iff_of_false (by decide) ‹_›

section Protection

variable {memEnd kernelEnd : UInt32}

/-- A bound that is a multiple of the size of a section, in sections. -/
theorem section_mul {address : UInt32} (h : address.toNat % 1048576 = 0) :
    (address >>> 20).toNat * 1048576 = address.toNat := by
  rw [UInt32.toNat_shiftRight]
  show address.toNat >>> 20 * 1048576 = _
  rw [Nat.shiftRight_eq_div_pow]
  omega

/-- Access of user mode is a question about the attributes of the sections. -/
theorem userMemoryOnly_iff {table : PageTable} {attributes : Nat → UInt32}
    (hkernel : kernelEnd.toNat % 1048576 = 0) (hmem : memEnd.toNat % 1048576 = 0)
    (htable : ∀ i < numPageTableEntries, table i = sectionDescriptor (attributes i) i)
    (hvalid : ∀ i, (attributes i).toNat < 1048576 ∧ IsSection (attributes i)) :
    UserMemoryOnly memEnd kernelEnd table ↔ ∀ i < numPageTableEntries,
      ((accessPermission (attributes i)).UserAccess ↔
        (kernelEnd >>> 20).toNat ≤ i ∧ i < (memEnd >>> 20).toNat) := by
  have hkernel' := section_mul hkernel
  have hmem' := section_mul hmem
  refine forall_congr' fun i => forall_congr' fun hi => ?_
  obtain ⟨hsize, hsection⟩ := hvalid i
  have hbounds : kernelEnd.toNat ≤ i * 1048576 ∧ i * 1048576 < memEnd.toNat ↔
      (kernelEnd >>> 20).toNat ≤ i ∧ i < (memEnd >>> 20).toNat := by omega
  rw [htable i hi, hbounds, accessPermission_sectionDescriptor hsize hi,
    physicalSection_sectionDescriptor hsize hi]
  exact ⟨fun h => h.2.2, fun h => ⟨isSection_sectionDescriptor hsize hi hsection, rfl, h⟩⟩

/-- The supervisor may always read and write: two permissions differ in what user mode may do. -/
theorem AccessPermission.ext_userAccess {p q : AccessPermission} (hp : p.ap2 = false ∧ p.ap0 = true)
    (hq : q.ap2 = false ∧ q.ap0 = true) (h : p.UserAccess ↔ q.UserAccess) : p = q := by
  obtain ⟨p2, p1, p0⟩ := p
  obtain ⟨q2, q1, q0⟩ := q
  obtain ⟨rfl, rfl⟩ : p2 = false ∧ p0 = true := hp
  obtain ⟨rfl, rfl⟩ : q2 = false ∧ q0 = true := hq
  obtain rfl : p1 = q1 := Bool.eq_iff_iff.2 h
  rfl

/-- What the two implementations are for: user mode reaches user memory only, and the two tables
give the same permissions to every address. -/
def ProtectsMemory (memEnd kernelEnd : UInt32) (table : PageTable) : Prop :=
  ∃ armv7 arm1176, Armv7.setupPagetable 0 memEnd kernelEnd table = .ok armv7 ∧
    Arm1176.setupPagetable 0 memEnd kernelEnd table = .ok arm1176 ∧
    UserMemoryOnly memEnd kernelEnd armv7 ∧ UserMemoryOnly memEnd kernelEnd arm1176 ∧
    ∀ address, addressPermission armv7 address = addressPermission arm1176 address

/-- Memory is protected on both exactly when it fills the first gigabyte. -/
theorem protectsMemory_iff (memEnd kernelEnd : UInt32) (table : PageTable)
    (hkernel : kernelEnd.toNat % 1048576 = 0) (hmem : memEnd.toNat % 1048576 = 0)
    (hle : kernelEnd ≤ memEnd) (hmax : memEnd ≤ 0x40000000) :
    ProtectsMemory memEnd kernelEnd table ↔ memEnd = 0x40000000 := by
  have hkernel' := section_mul hkernel
  have hmem' := section_mul hmem
  have hle' : kernelEnd.toNat ≤ memEnd.toNat := UInt32.le_iff_toNat_le.1 hle
  have hmax' : memEnd.toNat ≤ 1073741824 := UInt32.le_iff_toNat_le.1 hmax
  obtain ⟨armv7, harmv7, htable7⟩ := Armv7.setupPagetable_eq memEnd kernelEnd table
  obtain ⟨arm1176, harm1176, htable6⟩ := Arm1176.setupPagetable_eq memEnd kernelEnd table
  have hiff7 := userMemoryOnly_iff hkernel hmem htable7 (Armv7.attributes_valid memEnd kernelEnd)
  have hiff6 := userMemoryOnly_iff hkernel hmem htable6 (Arm1176.attributes_valid memEnd kernelEnd)
  constructor
  · rintro ⟨table7, table6, h7, -, honly, -, -⟩
    obtain rfl : armv7 = table7 := Except.ok.inj (harmv7.symm.trans h7)
    -- the section behind the memory, when it is below the first gigabyte
    by_contra hne
    have hlt : (memEnd >>> 20).toNat < 1024 := by
      have hne' : memEnd.toNat ≠ 1073741824 := fun h => hne (UInt32.toNat_inj.1 h)
      omega
    have haccess := hiff7.1 honly _ (Nat.lt_trans hlt (by decide))
    rw [Armv7.userAccess_attributes] at haccess
    exact Nat.lt_irrefl _ (haccess.1 ⟨hlt, by omega⟩).2
  · rintro rfl
    have hend : ((0x40000000 : UInt32) >>> 20).toNat = 1024 := by decide
    have haccess7 : ∀ i, (accessPermission (Armv7.attributes 0x40000000 kernelEnd i)).UserAccess ↔
        (kernelEnd >>> 20).toNat ≤ i ∧ i < ((0x40000000 : UInt32) >>> 20).toNat := by
      intro i
      rw [Armv7.userAccess_attributes, hend, and_comm]
    refine ⟨armv7, arm1176, harmv7, harm1176, hiff7.2 fun i _ => haccess7 i,
      hiff6.2 fun i _ => Arm1176.userAccess_attributes _ _ i, fun address => ?_⟩
    have haddress : (address >>> 20).toNat < numPageTableEntries := section_lt address
    rw [addressPermission, addressPermission, htable7 _ haddress, htable6 _ haddress,
      accessPermission_sectionDescriptor (Armv7.attributes_valid _ _ _).1 haddress,
      accessPermission_sectionDescriptor (Arm1176.attributes_valid _ _ _).1 haddress]
    exact AccessPermission.ext_userAccess (Armv7.supervisorAccess_attributes _ _ _)
      (Arm1176.supervisorAccess_attributes _ _ _)
      ((haccess7 _).trans (Arm1176.userAccess_attributes _ _ _).symm)

theorem protectsMemory_gigabyte : ProtectsMemory 0x40000000 0x1000000 (fun _ => 0) :=
  (protectsMemory_iff 0x40000000 0x1000000 (fun _ => 0) (by decide) (by decide) (by decide)
    (by decide)).2 rfl

/-- With half a gigabyte user mode reaches what lies behind it, the peripherals included. -/
theorem not_protectsMemory : ¬ ProtectsMemory 0x20000000 0x1000000 (fun _ => 0) := by
  rintro ⟨armv7, -, harmv7, -, honly, -, -⟩
  obtain ⟨result, hresult, htable⟩ := Armv7.setupPagetable_eq 0x20000000 0x1000000 fun _ => 0
  obtain rfl : result = armv7 := Except.ok.inj (hresult.symm.trans harmv7)
  have haccess := (honly 0x3f0 (by decide)).2.2
  rw [htable _ (by decide)] at haccess
  exact absurd (haccess.1 (by decide)) (by decide)

end Protection

end Vmwos
