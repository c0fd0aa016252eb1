import Vmwos.Fs.Descriptors

/-!
# The system call `llseek`

The offset passes three layers: `SYSCALL_LLSEEK` puts it together from two registers and looks at
the result in an unsigned variable, `llseek_syscall` looks at the kind of the file, and
`llseek_generic` adds to an unsigned offset without looking at all. `seeks_iff` says which calls
come out as they should: those that succeed. Every error is taken for an offset.
-/

set_option autoImplicit false

namespace Vmwos

open Library

namespace OpenFiles

variable {δ : Type} {s s' : OpenFiles δ} {files : FdTable} {fd offset whence reply : Int}
  {stored : Option Nat}

/-- The 64-bit offset in two registers. -/
def seekOffset (r1 r2 : UInt32) : Int := int64 ((r1.toNat <<< 32 ||| r2.toNat : Nat) : Int)

/-- `SYSCALL_LLSEEK`: what is returned and what is stored for the caller. `result64` is unsigned,
so it is never below zero. -/
def syscallLlseek (s : OpenFiles δ) (files : FdTable) (fd : Int) (r1 r2 : UInt32) (whence : Int) :
    Except Stuck (Int × Option Nat × OpenFiles δ) :=
  (s.llseekSyscall files fd (seekOffset r1 r2) whence).map fun (reply, s) =>
    let result64 := uint64OfInt reply.result
    if result64 ≥ 0 then (0, some result64, s) else (int32 result64, none, s)

/-- Where a seek counts from. -/
def seekBase (s : OpenFiles δ) (file : FileObject) (whence : Int) : Option Nat :=
  if whence = seekSet then some 0
  else if whence = seekCur then some file.fileOffset
  else if whence = seekEnd then file.inode.map fun i => (s.inodes i).size
  else none

/-- The offset that a seek is meant to lead to. -/
def SeekTarget (s : OpenFiles δ) (file : FileObject) (offset whence : Int) (n : Nat) : Prop :=
  ∃ base, s.seekBase file whence = some base ∧ (base : Int) + offset = n ∧ n < 9223372036854775808

/-- Either the offset is set, and stored for the caller, or an error is returned and nothing
changes; and a negative result of `llseek_syscall` is returned as an error. -/
structure LlseekValid (s : OpenFiles δ) (files : FdTable) (fd offset whence : Int) (reply : Int)
    (stored : Option Nat) (s' : OpenFiles δ) : Prop where
  outcome :
    (reply = 0 ∧ ∃ f n, s.mapFdToFile files fd = .ok f ∧
      s.SeekTarget (s.fileObjects f) offset whence n ∧ (s'.fileObjects f).fileOffset = n ∧
        stored = some n) ∨
    (reply < 0 ∧ stored = none ∧
      ∀ f, (s'.fileObjects f).fileOffset = (s.fileObjects f).fileOffset)
  reported : ∀ r s₁, s.llseekSyscall files fd offset whence = .ok (r, s₁) → r.result < 0 → reply < 0

/-- A seek from the start or the current offset to an offset that is not negative, on a block device
or a file that has its operations; or one that stays at offset zero of a character device. -/
def MaySeek (s : OpenFiles δ) (files : FdTable) (fd offset whence : Int) : Prop :=
  ∃ f i n, s.mapFdToFile files fd = .ok f ∧ (s.fileObjects f).inode = some i ∧
    s.SeekTarget (s.fileObjects f) offset whence n ∧
    ((((s.inodes i).mode &&& sIfmt = sIfblk ∨
          ((s.inodes i).mode &&& sIfmt = sIfreg ∧ (s.fileObjects f).fileOps ≠ none)) ∧
        whence ≠ seekEnd) ∨
      ((s.inodes i).mode &&& sIfmt = sIfchr ∧ n = 0 ∧ (s.fileObjects f).fileOffset = 0))

/-- Every offset fits in the registers. -/
theorem exists_seekOffset {offset : Int} (hlow : -9223372036854775808 ≤ offset)
    (hhigh : offset < 9223372036854775808) : ∃ r1 r2, seekOffset r1 r2 = offset := by
  obtain ⟨n, hn⟩ : ∃ n : Nat, (n : Int) = offset % 18446744073709551616 :=
    ⟨(offset % 18446744073709551616).toNat, by omega⟩
  refine ⟨UInt32.ofNat (n / 4294967296), UInt32.ofNat (n % 4294967296), ?_⟩
  have hhi : (UInt32.ofNat (n / 4294967296)).toNat = n / 4294967296 :=
    UInt32.toNat_ofNat_of_lt (by show n / 4294967296 < 4294967296; omega)
  have hlo : (UInt32.ofNat (n % 4294967296)).toNat = n % 4294967296 :=
    UInt32.toNat_ofNat_of_lt (Nat.mod_lt n (by decide))
  have hor : (n / 4294967296) <<< 32 ||| n % 4294967296 = n := by
    rw [← Nat.shiftLeft_add_eq_or_of_lt (Nat.mod_lt n (by decide)), Nat.shiftLeft_eq]
    omega
  rw [seekOffset, hhi, hlo, hor, int64, hn]
  omega

/-- `SYSCALL_LLSEEK` always returns zero. -/
theorem syscallLlseek_eq_ok {r1 r2 : UInt32}
    (hok : s.syscallLlseek files fd r1 r2 whence = .ok (reply, stored, s')) :
    ∃ r, s.llseekSyscall files fd (seekOffset r1 r2) whence = .ok (r, s') ∧ reply = 0 ∧
      stored = some (uint64OfInt r.result) := by
  obtain ⟨⟨r, s₁⟩, hcall, hreply⟩ := map_eq_ok.1 hok
  simp only [ge_iff_le, Nat.zero_le, if_true, Prod.mk.injEq] at hreply
  obtain ⟨rfl, rfl, rfl⟩ := hreply
  exact ⟨r, hcall, rfl, rfl⟩

/-! ## The layers below -/

/-- To a target, other than from the end, `llseek_generic` goes. -/
theorem llseekGeneric_target {file : FileObject} {n : Nat}
    (htarget : s.SeekTarget file offset whence n) (hend : whence ≠ seekEnd) :
    llseekGeneric file offset whence = ((n : Int), { file with fileOffset := n }) := by
  obtain ⟨base, hbase, hsum, hlt⟩ := htarget
  have hn : uint64OfInt (n : Int) = n := by
    unfold uint64OfInt
    omega
  have hresult : int64 (n : Int) = n := by
    unfold int64
    omega
  unfold seekBase at hbase
  unfold llseekGeneric
  by_cases hset : whence = seekSet
  · rw [if_pos hset] at hbase ⊢
    cases hbase
    have hoffset : offset = n := by omega
    rw [hoffset, hn]
    simp only [hresult]
  · rw [if_neg hset] at hbase ⊢
    by_cases hcur : whence = seekCur
    · rw [if_pos hcur] at hbase ⊢
      cases hbase
      rw [hsum, hn]
      simp only [hresult]
    · rw [if_neg hcur, if_neg hend] at hbase
      cases hbase

/-- What the kind of the file decides. -/
theorem llseekFileObject_cases {file file' : FileObject} {v v' : Vfs} {d d' : δ} {r : IoReply}
    (hok : llseekFileObject offset whence file v d = .ok (r, file', v', d')) :
    ∃ i, file.inode = some i ∧
      ((((v.inodes i).mode &&& sIfmt = sIfblk ∨
            ((v.inodes i).mode &&& sIfmt = sIfreg ∧ file.fileOps ≠ none)) ∧
          r.result = (llseekGeneric file offset whence).1 ∧
          file' = (llseekGeneric file offset whence).2) ∨
        ((v.inodes i).mode &&& sIfmt = sIfchr ∧ r.result = 0 ∧ file' = file) ∨
        ((v.inodes i).mode &&& sIfmt ≠ sIfblk ∧ (v.inodes i).mode &&& sIfmt ≠ sIfreg ∧
          (v.inodes i).mode &&& sIfmt ≠ sIfchr ∧ (r.result = -eisdir ∨ r.result = -einval))) := by
  unfold llseekFileObject at hok
  split at hok
  · cases hok
  · rename_i i hinode
    refine ⟨i, hinode, ?_⟩
    simp only at hok
    split at hok
    · rename_i hblk
      cases hok
      exact Or.inl ⟨Or.inl hblk, rfl, rfl⟩
    · rename_i hblk
      split at hok
      · rename_i hchr
        cases hok
        exact Or.inr (Or.inl ⟨hchr, rfl, rfl⟩)
      · rename_i hchr
        split at hok
        · rename_i hreg
          split at hok
          · cases hok
          · rename_i ops hops
            cases hok
            refine Or.inl ⟨Or.inr ⟨hreg, ?_⟩, rfl, rfl⟩
            rw [hops]
            exact Option.some_ne_none ops
        · rename_i hreg
          -- a directory, or nothing known
          split at hok <;> cases hok
          · exact Or.inr (Or.inr ⟨hblk, hreg, hchr, Or.inl rfl⟩)
          · exact Or.inr (Or.inr ⟨hblk, hreg, hchr, Or.inr rfl⟩)

/-- On a kind of file that can be seeked the call comes back. -/
theorem llseekFileObject_returns {file : FileObject} {v : Vfs} (d : δ) {i : InodeId}
    (hinode : file.inode = some i)
    (hkind : (v.inodes i).mode &&& sIfmt = sIfblk ∨ (v.inodes i).mode &&& sIfmt = sIfchr ∨
      ((v.inodes i).mode &&& sIfmt = sIfreg ∧ file.fileOps ≠ none)) :
    ∃ reply, llseekFileObject offset whence file v d = .ok reply := by
  unfold llseekFileObject
  rw [hinode]
  rcases hkind with hblk | hchr | ⟨hreg, hops⟩
  · exact ⟨_, if_pos hblk⟩
  · refine ⟨_, (if_neg ?_).trans (if_pos hchr)⟩
    rw [hchr]
    decide
  · obtain ⟨ops, hops⟩ := Option.ne_none_iff_exists'.1 hops
    simp only [hreg, hops]
    exact ⟨_, rfl⟩

/-- An error in an unsigned variable is no offset that a seek is meant to lead to. -/
theorem target_ne_error {file : FileObject} {n : Nat} {e : Int}
    (htarget : s.SeekTarget file offset whence n) (hlow : -9223372036854775808 ≤ e) (hneg : e < 0) :
    uint64OfInt e ≠ n := by
  obtain ⟨-, -, -, hlt⟩ := htarget
  unfold uint64OfInt
  omega

/-! ## Which seeks are valid -/

/-- A seek that comes out as it should was meant to succeed. -/
theorem LlseekValid.maySeek {r1 r2 : UInt32}
    (hok : s.syscallLlseek files fd r1 r2 whence = .ok (reply, stored, s'))
    (hvalid : LlseekValid s files fd (seekOffset r1 r2) whence reply stored s') :
    s.MaySeek files fd (seekOffset r1 r2) whence := by
  obtain ⟨r, hcall, rfl, rfl⟩ := syscallLlseek_eq_ok hok
  rcases hvalid.outcome with ⟨-, f, n, hf, htarget, hoffset, hstored⟩ | ⟨hneg, -⟩
  · obtain ⟨d', hfile⟩ := onFd_eq_ok hf hcall
    obtain ⟨i, hinode, hkind⟩ := llseekFileObject_cases hfile
    have hn : uint64OfInt r.result = n := Option.some.inj hstored
    refine ⟨f, i, n, hf, hinode, htarget, ?_⟩
    rcases hkind with ⟨hmode, hresult, -⟩ | ⟨hmode, hresult, hfile'⟩ | ⟨-, -, -, herror⟩
    · refine Or.inl ⟨hmode, ?_⟩
      rintro rfl
      have hend : r.result = -enosys := hresult
      rw [hend] at hn
      exact target_ne_error htarget (by decide) (by decide) hn
    · refine Or.inr ⟨hmode, ?_, ?_⟩
      · rw [hresult] at hn
        exact hn.symm
      · rw [hresult] at hn
        rw [← hfile', hoffset]
        exact hn.symm
    · -- the error has been stored as an offset
      rcases herror with herror | herror
      · rw [herror] at hn
        exact absurd hn (target_ne_error htarget (by decide) (by decide))
      · rw [herror] at hn
        exact absurd hn (target_ne_error htarget (by decide) (by decide))
  · exact absurd hneg (Int.lt_irrefl 0)

theorem MaySeek.llseekValid {r1 r2 : UInt32}
    (hmay : s.MaySeek files fd (seekOffset r1 r2) whence)
    (hok : s.syscallLlseek files fd r1 r2 whence = .ok (reply, stored, s')) :
    LlseekValid s files fd (seekOffset r1 r2) whence reply stored s' := by
  obtain ⟨r, hcall, rfl, rfl⟩ := syscallLlseek_eq_ok hok
  obtain ⟨f, i, n, hf, hinode, htarget, hkind⟩ := hmay
  obtain ⟨d', hfile⟩ := onFd_eq_ok hf hcall
  obtain ⟨i', hinode', hcases⟩ := llseekFileObject_cases hfile
  rw [hinode] at hinode'
  cases hinode'
  have hn : uint64OfInt (n : Int) = n := by
    obtain ⟨-, -, -, hlt⟩ := htarget
    unfold uint64OfInt
    omega
  -- what is returned below is the target, also on a character device
  have hresult : r.result = n ∧ (s'.fileObjects f).fileOffset = n := by
    rcases hkind with ⟨hmode, hend⟩ | ⟨hmode, rfl, hzero⟩
    · rcases hcases with ⟨-, hresult, hfile'⟩ | ⟨hchr, -⟩ | ⟨hblk, hreg, -⟩
      · rw [llseekGeneric_target htarget hend] at hresult hfile'
        exact ⟨hresult, by rw [hfile']⟩
      · rw [hchr] at hmode
        rcases hmode with hmode | ⟨hmode, -⟩ <;> cases hmode
      · exact (hmode.elim hblk fun hfile => hreg hfile.1).elim
    · rcases hcases with ⟨hmode', -⟩ | ⟨-, hresult, hfile'⟩ | ⟨-, -, hchr, -⟩
      · rw [hmode] at hmode'
        rcases hmode' with hmode' | ⟨hmode', -⟩ <;> cases hmode'
      · exact ⟨hresult, by rw [hfile', hzero]⟩
      · exact absurd hmode hchr
  refine ⟨Or.inl ⟨rfl, f, n, hf, htarget, hresult.2, ?_⟩, ?_⟩
  · rw [hresult.1, hn]
  · intro r' s₁ hcall' hneg
    rw [hcall] at hcall'
    cases hcall'
    rw [hresult.1] at hneg
    exact absurd hneg (Int.not_lt.2 (Int.natCast_nonneg n))

/-- The call returns, and comes out as it should. -/
def Seeks (s : OpenFiles δ) (files : FdTable) (fd : Int) (r1 r2 : UInt32) (whence : Int) : Prop :=
  ∃ reply stored s', s.syscallLlseek files fd r1 r2 whence = .ok (reply, stored, s') ∧
    LlseekValid s files fd (seekOffset r1 r2) whence reply stored s'

/-- A seek comes out as it should exactly if it is one that succeeds: an error is returned for none,
and stored as an offset. -/
theorem seeks_iff (s : OpenFiles δ) (files : FdTable) (fd : Int) (r1 r2 : UInt32) (whence : Int) :
    s.Seeks files fd r1 r2 whence ↔ s.MaySeek files fd (seekOffset r1 r2) whence := by
  constructor
  · rintro ⟨reply, stored, s', hok, hvalid⟩
    exact hvalid.maySeek hok
  · intro hmay
    obtain ⟨f, i, n, hf, hinode, htarget, hkind⟩ := hmay
    have hreturns : ∃ reply, llseekFileObject (seekOffset r1 r2) whence (s.fileObjects f) s.toVfs
        s.chars = .ok reply := by
      apply llseekFileObject_returns s.chars hinode
      rcases hkind with ⟨hblk | hreg, -⟩ | ⟨hchr, -⟩
      · exact Or.inl hblk
      · exact Or.inr (Or.inr hreg)
      · exact Or.inr (Or.inl hchr)
    obtain ⟨⟨r, file, v, d⟩, hcall⟩ := hreturns
    have hok : ∃ reply stored s', s.syscallLlseek files fd r1 r2 whence =
        .ok (reply, stored, s') := by
      rw [syscallLlseek, llseekSyscall, onFd, hf]
      simp only [onFile, hcall]
      exact ⟨_, _, _, rfl⟩
    obtain ⟨reply, stored, s', hok⟩ := hok
    exact ⟨reply, stored, s', hok,
      MaySeek.llseekValid ⟨f, i, n, hf, hinode, htarget, hkind⟩ hok⟩

/-- A seek on a descriptor that is not open returns zero, and stores the error. -/
theorem not_seeks : ¬ ∀ (s : OpenFiles Unit) files fd r1 r2 whence,
    s.Seeks files fd r1 r2 whence := by
  intro hall
  obtain ⟨reply, stored, s', hok, hvalid⟩ := hall
    { toFileTables := FileTables.boot noFileSystems, chars := () } (fun _ => none) 3 0 0 seekSet
  obtain ⟨-, -, rfl, -⟩ := syscallLlseek_eq_ok hok
  rcases hvalid.outcome with ⟨-, f, -, hf, -⟩ | ⟨hneg, -⟩
  · cases hf
  · exact absurd hneg (by decide)

end OpenFiles

end Vmwos
