import Vmwos.Fs.Inodes
import Vmwos.Fs.Dos33fs.FileSizes

/-!
# Changing the mode of a file

`chmod_syscall` writes the whole inode back: the lock bit, the number of sectors and, for the types
that have one, the length. The number of sectors is made of the remainder of the size by 256 where
its quotient is meant, and the length of a program is written two bytes larger than it is read.
`chmodSyscall_lockBitOnly_iff` says for which files no other byte changes.
-/

set_option autoImplicit false

namespace Vmwos

open Library

/-- Nothing but the lock bit of the type of entry `e` in sector `c` is another. -/
structure LockBitOnly (d d' : Disk) (c e : Nat) : Prop where
  rest : ∀ n p, ¬ (n = c ∧ p = catOffset e dos33CatOffsetFileType) → d' n p = d n p
  type : fileType d' c e = fileType d c e

/-- The number of sectors in a catalog entry. -/
def storedSectors (b : Block) (e : Nat) : Nat :=
  (b (catOffset e dos33CatOffsetFileLengthL)).toNat +
    256 * (b (catOffset e dos33CatOffsetFileLengthH)).toNat

/-- The number of sectors that `dos33fs_write_inode` makes of a size. -/
def recomputedSectors (size : Nat) : Nat :=
  let blocksize := size % dos33BlockSize + 1
  (if blocksize > 12 then blocksize + 1 else blocksize) + 1

/-! ## Two bytes -/

theorem twoBytes_eq_iff (a b : UInt8) (x : Nat) :
    a.toNat + 256 * b.toNat = x % 65536 ↔
      UInt8.ofNat (x &&& 0xff) = a ∧ UInt8.ofNat (x >>> 8 &&& 0xff) = b := by
  have ha := a.toNat_lt
  have hb := b.toNat_lt
  rw [← UInt8.toNat_inj, ← UInt8.toNat_inj, UInt8.toNat_ofNat', UInt8.toNat_ofNat', and_ff, and_ff,
    Nat.shiftRight_eq_div_pow]
  omega

theorem lengthAt_lt (b : Block) (k : Nat) : lengthAt b k < 65536 := by
  have hlow := (b k).toNat_lt
  have hhigh := (b (k + 1)).toNat_lt
  rw [lengthAt]
  omega

/-- A length is stored already. -/
theorem setLengthAt_eq_self_iff (b : Block) (k size : Nat) :
    setLengthAt b k size = b ↔ lengthAt b k = size % 65536 := by
  constructor
  · intro h
    rw [← lengthAt_setLengthAt b k size, h]
  · intro h
    obtain ⟨hlow, hhigh⟩ := (twoBytes_eq_iff _ _ size).1 h
    rw [setLengthAt, setByte, setByte, hlow, Function.update_eq_self, hhigh,
      Function.update_eq_self]

theorem recomputedSectors_le (size : Nat) : recomputedSectors size ≤ 258 := by
  have hlt : size % 256 < 256 := Nat.mod_lt size (by decide)
  show (if size % 256 + 1 > 12 then size % 256 + 1 + 1 else size % 256 + 1) + 1 ≤ 258
  split <;> omega

/-- The two bytes of the number of sectors, as `dos33fs_write_inode` stores them. -/
theorem storedSectors_eq_iff (b : Block) (e size : Nat) :
    storedSectors b e = recomputedSectors size ↔
      UInt8.ofNat (recomputedSectors size &&& 0xff) = b (catOffset e 0x21) ∧
        UInt8.ofNat (recomputedSectors size >>> 8) = b (catOffset e 0x22) := by
  have hle := recomputedSectors_le size
  have hhigh : recomputedSectors size >>> 8 = recomputedSectors size >>> 8 &&& 0xff := by
    rw [and_ff, Nat.shiftRight_eq_div_pow]
    omega
  rw [storedSectors, hhigh, ← twoBytes_eq_iff, Nat.mod_eq_of_lt (by omega : _ < 65536)]

/-! ## Writing the inode back -/

section Write

variable {v : Dos33Volume} {inode : Inode} {root c e n : Nat}

theorem dos33fsWriteInode_sectors {d : Disk} (hn : Names inode.number c e) (he : e < 7) :
    dos33fsWriteInode d inode =
      Function.update (dos33SetFilesize d inode.number (fileType d c e) inode.size) c
        (setTypeLength (d c) e (storedType (d c) e inode.mode)
          (recomputedSectors inode.size &&& 0xff) (recomputedSectors inode.size >>> 8)) := by
  have hcond : ¬ (e = 0xff ∨ e = 0xfe ∨ e ≥ dos33CatMaxEntries) := by
    show ¬ (e = 0xff ∨ e = 0xfe ∨ e ≥ 7)
    omega
  rw [fileType, ← storedType_low (d c) e inode.mode, dos33fsWriteInode]
  simp only [hn.entry, hn.block, if_neg hcond, readBlock_mul, writeBlock_mul]
  rfl

/-- The sector that the length is in is not that of the entry. -/
theorem ne_catalog_of_firstData (h : WellFormed v root) (hf : IsFile v.disk root c e)
    (hdata : (dataAt v.disk c e 0).getD 0 = n) : n ≠ c := by
  obtain ⟨k, hk⟩ := hf.catalog
  have hc : Refers v.disk root (.catalog k) c := hk
  rintro rfl
  cases hd : dataAt v.disk n e 0 with
  | none =>
      rw [hd, Option.getD_none] at hdata
      have hge := (h.range _ _ hc).1
      omega
  | some m =>
      rw [hd, Option.getD_some] at hdata
      subst hdata
      have huse := h.account.exclusive _ _ _ hc (show Refers v.disk root (.data m e 0) m from ⟨hf, hd⟩)
      cases huse

/-- The disk without the length is changed only where the length is. -/
theorem dos33SetFilesize_eq_self_iff {d : Disk} {number l type size : Nat} (hn : Names number c e)
    (hl : tsListAt d c e 0 = some l) (hdata : (dataAt d c e 0).getD 0 = n) :
    dos33SetFilesize d number type size = d ↔
      (hasLength type = true → lengthAt (d n) (lengthOffset type) = size % 65536) := by
  by_cases htype : hasLength type = true
  · rw [dos33SetFilesize_eq_update hn hl hdata htype, ← setLengthAt_eq_self_iff]
    constructor
    · intro h _
      have hself := congrFun h n
      rwa [Function.update_self] at hself
    · intro h
      rw [h htype, Function.update_eq_self]
  · rw [dos33SetFilesize, if_neg htype]
    exact iff_of_true rfl fun h => absurd h htype

/-- The sector of the entry is not where the length is. -/
theorem dos33SetFilesize_catalog {d : Disk} {number l type size : Nat} (hn : Names number c e)
    (hl : tsListAt d c e 0 = some l) (hdata : (dataAt d c e 0).getD 0 = n) (hne : n ≠ c) :
    dos33SetFilesize d number type size c = d c := by
  by_cases htype : hasLength type = true
  · rw [dos33SetFilesize_eq_update hn hl hdata htype, Function.update_of_ne (Ne.symm hne)]
  · rw [dos33SetFilesize, if_neg htype]

/-- Writing an inode back changes nothing but the lock bit exactly if the number of sectors and
the length are as they are on disk. -/
theorem lockBitOnly_iff (h : WellFormed v root) (hf : IsFile v.disk root c e)
    (hn : Names inode.number c e) (hdata : (dataAt v.disk c e 0).getD 0 = n) :
    LockBitOnly v.disk (dos33fsWriteInode v.disk inode) c e ↔
      storedSectors (v.disk c) e = recomputedSectors inode.size ∧
        (hasLength (fileType v.disk c e) = true →
          lengthAt (v.disk n) (lengthOffset (fileType v.disk c e)) = inode.size % 65536) := by
  obtain ⟨l, hl⟩ := h.exists_tsList hf
  have hne := ne_catalog_of_firstData h hf hdata
  rw [dos33fsWriteInode_sectors hn hf.entry, storedSectors_eq_iff,
    ← dos33SetFilesize_eq_self_iff hn hl hdata]
  have hcat : dos33SetFilesize v.disk inode.number (fileType v.disk c e) inode.size c = v.disk c :=
    dos33SetFilesize_catalog hn hl hdata hne
  generalize dos33SetFilesize v.disk inode.number (fileType v.disk c e) inode.size = d at hcat ⊢
  generalize hb : setTypeLength (v.disk c) e (storedType (v.disk c) e inode.mode)
    (recomputedSectors inode.size &&& 0xff) (recomputedSectors inode.size >>> 8) = b
  have hlow : b (catOffset e 0x21) = UInt8.ofNat (recomputedSectors inode.size &&& 0xff) := by
    rw [← hb, setTypeLength, setByte,
      Function.update_of_ne (catOffset_ne (by decide) (by decide) (Or.inr (by decide))), setByte,
      Function.update_self]
  have hhigh : b (catOffset e 0x22) = UInt8.ofNat (recomputedSectors inode.size >>> 8) := by
    rw [← hb]
    exact Function.update_self _ _ _
  constructor
  · intro honly
    have hsector : ∀ p, p ≠ catOffset e 2 → b p = v.disk c p := by
      intro p hp
      have hrest := honly.rest c p (fun hcp => hp hcp.2)
      rwa [Function.update_self] at hrest
    refine ⟨⟨?_, ?_⟩, ?_⟩
    · rw [← hlow]
      exact hsector _ (catOffset_ne (by decide) (by decide) (Or.inr (by decide)))
    · rw [← hhigh]
      exact hsector _ (catOffset_ne (by decide) (by decide) (Or.inr (by decide)))
    · funext m
      by_cases hm : m = c
      · rw [hm, hcat]
      · funext p
        have hrest := honly.rest m p (fun hcp => hm hcp.1)
        rwa [Function.update_of_ne hm] at hrest
  · rintro ⟨⟨hl', hh'⟩, rfl⟩
    refine ⟨?_, ?_⟩
    · intro m p hmp
      by_cases hm : m = c
      · subst hm
        rw [Function.update_self]
        by_cases h21 : p = catOffset e 0x21
        · rw [h21, hlow, hl']
        · by_cases h22 : p = catOffset e 0x22
          · rw [h22, hhigh, hh']
          · rw [← hb]
            exact setTypeLength_of_ne (fun h2 => hmp ⟨rfl, h2⟩) h21 h22
      · rw [Function.update_of_ne hm]
    · rw [fileType, Function.update_self, ← hb, setTypeLength_type, UInt8.toNat_ofNat',
        Nat.mod_eq_of_lt (storedType_lt _ _ _), storedType_low, fileType]

end Write

/-! ## The call -/

section Call

variable {s s₁ : Vfs} {currentDir pathname : CString} {r : Int} {i : InodeId} {k : Fin maxMounts}
  {block : Fin blockDevMax} {vtoc root c e n : Nat}

/-- The call comes back, and nothing on any device is another but the lock bit of the entry. -/
def ChmodLockBitOnly (s : Vfs) (currentDir pathname : CString) (mode : Nat)
    (block : Fin blockDevMax) (c e : Nat) : Prop :=
  ∃ r s', s.chmodSyscall currentDir pathname mode = .ok (r, s') ∧
    (∀ b : Nat, b ≠ block → s'.disk b = s.disk b) ∧ LockBitOnly (s.disk block) (s'.disk block) c e

/-- Once the inode has been found, it is written back with the new mode. -/
theorem chmodSyscall_eq (hfree : s.FreeSlots)
    (hlookup : s.inodeLookupAndAlloc currentDir pathname = .ok ((r, some i), s₁))
    (hdriver : s₁.driver (s₁.inodes i).sb = .ok (k, .dos33fs block vtoc)) (mode : Nat) :
    ∃ s', s.chmodSyscall currentDir pathname mode = .ok (r, s') ∧
      s'.disk = Function.update s.disk block (dos33fsWriteInode (s.disk block)
        { s₁.inodes i with mode := (s₁.inodes i).mode &&& 0xfffffe00 ||| mode &&& 0x1ff }) := by
  have hfound := inodeLookupAndAlloc_found hlookup
  generalize hinode : ({ s₁.inodes i with
    mode := (s₁.inodes i).mode &&& 0xfffffe00 ||| mode &&& 0x1ff } : Inode) = inode
  have hsb : inode.sb = (s₁.inodes i).sb := by rw [← hinode]
  have hcount : inode.count = (s₁.inodes i).count := by rw [← hinode]
  have hlinks : inode.hardLinks = (s₁.inodes i).hardLinks := by rw [← hinode]
  have hdisk : s₁.disk = s.disk := congrArg FileSystems.disk hfound.fileSystems
  have hwrite : s₁.writeInode inode = .ok { s₁.toFileSystems with
      disk := Function.update s.disk block (dos33fsWriteInode (s.disk block) inode) } := by
    rw [FileSystems.writeInode, hsb, hdriver, ← hdisk]
  simp only [Vfs.chmodSyscall, hlookup, hinode, hwrite]
  generalize hs₂ : ({ s₁.setInode i inode with toFileSystems := { s₁.toFileSystems with
    disk := Function.update s.disk block (dos33fsWriteInode (s.disk block) inode) } } : Vfs) = s₂
  have hdisk₂ : s₂.disk =
      Function.update s.disk block (dos33fsWriteInode (s.disk block) inode) := by rw [← hs₂]
  have hslot : s₂.inodes i = inode := by
    rw [← hs₂]
    exact Function.update_self _ _ _
  have hkept : (s₂.inodes i).count = 1 → (s₂.inodes i).hardLinks ≠ 0 := by
    rw [hslot, hcount, hlinks]
    exact hfound.hardLinks hfree
  obtain ⟨r', s', hok⟩ := (inodeFree_returns (s := s₂) (i := i)).2 fun h1 h0 =>
    absurd h0 (hkept h1)
  refine ⟨s', map_eq_ok.2 ⟨(r', s'), hok, rfl⟩, ?_⟩
  rw [← hdisk₂]
  rcases inodeFree_cases hok with ⟨-, -, rfl⟩ | ⟨-, -, rfl⟩ | ⟨-, -, -, rfl⟩ | ⟨h1, -, h0, -⟩
  · rfl
  · rfl
  · rfl
  · exact absurd h0 (hkept h1)

/-- `chmod` of a file of a volume touches nothing but the lock bit exactly if the number of sectors
in the entry is the one made of the size of the inode, and the length in the file is that size. -/
theorem chmodSyscall_lockBitOnly_iff (hfree : s.FreeSlots)
    (hlookup : s.inodeLookupAndAlloc currentDir pathname = .ok ((r, some i), s₁))
    (hdriver : s₁.driver (s₁.inodes i).sb = .ok (k, .dos33fs block vtoc))
    (hwf : WellFormed (s.volume k block vtoc) root) (hf : IsFile (s.disk block) root c e)
    (hn : Names (s₁.inodes i).number c e) (hdata : (dataAt (s.disk block) c e 0).getD 0 = n)
    (mode : Nat) :
    ChmodLockBitOnly s currentDir pathname mode block c e ↔
      storedSectors (s.disk block c) e = recomputedSectors (s₁.inodes i).size ∧
        (hasLength (fileType (s.disk block) c e) = true →
          lengthAt (s.disk block n) (lengthOffset (fileType (s.disk block) c e)) =
            (s₁.inodes i).size % 65536) := by
  obtain ⟨s', hok, hdisk⟩ := chmodSyscall_eq hfree hlookup hdriver mode
  have hiff := @lockBitOnly_iff (s.volume k block vtoc) { s₁.inodes i with
    mode := (s₁.inodes i).mode &&& 0xfffffe00 ||| mode &&& 0x1ff } root c e n hwf hf hn hdata
  refine Iff.trans ?_ hiff
  constructor
  · rintro ⟨r', s'', hok', -, honly⟩
    rw [hok] at hok'
    cases hok'
    rw [hdisk, Function.update_self] at honly
    exact honly
  · intro honly
    refine ⟨r, s', hok, ?_, ?_⟩
    · intro b hb
      rw [hdisk, Function.update_of_ne hb]
    · rw [hdisk, Function.update_self]
      exact honly

end Call

/-- For an inode as it is read from disk: the length of a binary file is written as it was read, a
program has its length changed, and the number of sectors has to be the one that is recomputed. -/
theorem lockBitOnly_read_iff {v : Dos33Volume} {inode : Inode} {root c e : Nat}
    (h : WellFormed v root) (hf : IsFile v.disk root c e) (hn : Names inode.number c e)
    (hsize : inode.size = dos33GetFilesize v.disk inode.number (fileType v.disk c e)) :
    LockBitOnly v.disk (dos33fsWriteInode v.disk inode) c e ↔
      storedSectors (v.disk c) e = recomputedSectors inode.size ∧
        fileType v.disk c e ≠ dos33FileTypeI ∧ fileType v.disk c e ≠ dos33FileTypeA := by
  obtain ⟨l, hl⟩ := h.exists_tsList hf
  rw [lockBitOnly_iff h hf hn rfl]
  refine and_congr_right fun _ => ?_
  by_cases htype : hasLength (fileType v.disk c e) = true
  · rw [dos33GetFilesize_eq hn hl rfl htype] at hsize
    have hlt := lengthAt_lt (v.disk ((dataAt v.disk c e 0).getD 0))
      (lengthOffset (fileType v.disk c e))
    rw [hsize]
    generalize lengthAt (v.disk ((dataAt v.disk c e 0).getD 0))
      (lengthOffset (fileType v.disk c e)) = length at hlt ⊢
    rcases hasLength_iff.1 htype with hB | hI | hA
    · rw [hB]
      refine iff_of_true (fun _ => ?_) ⟨by decide, by decide⟩
      exact (Nat.mod_eq_of_lt hlt).symm
    · rw [hI]
      refine iff_of_false (fun hlen => ?_) (fun hne => hne.1 rfl)
      have heq : length = (length + 2) % 65536 := hlen rfl
      omega
    · rw [hA]
      refine iff_of_false (fun hlen => ?_) (fun hne => hne.2 rfl)
      have heq : length = (length + 2) % 65536 := hlen rfl
      omega
  · refine iff_of_true (fun hlen => absurd hlen htype) ⟨fun hI => htype ?_, fun hA => htype ?_⟩
    · rw [hI]
      rfl
    · rw [hA]
      rfl

/-! ## A volume at the root -/

/-- A volume mounted at the root, and no inode in use. -/
def Vfs.mounted (v : Dos33Volume) (rootDir : Nat) : Vfs where
  superblockTable := Function.update (fun _ => Superblock.zeroed) 0
    ⟨true, v.blocks, v.blocksFree, dos33BlockSize, rootDir, [0x2f], some .dos33fs, some 0, some 0⟩
  vtocList := v.vtoc
  nextVtoc := 1
  blockDevs := fun _ => ⟨[], true⟩
  disk := fun _ => v.disk
  inodes := fun _ => Inode.zeroed

theorem Vfs.mounted_freeSlots (v : Dos33Volume) (rootDir : Nat) : (mounted v rootDir).FreeSlots :=
  fun _ _ => rfl

theorem Vfs.mounted_volume (v : Dos33Volume) (rootDir : Nat) :
    (mounted v rootDir).volume 0 0 0 = v := by
  have hvtoc : (fun i => v.vtoc (0 + i)) = v.vtoc := funext fun i => by rw [Nat.zero_add]
  rw [FileSystems.volume]
  show (⟨fun i => v.vtoc (0 + i), v.disk, v.blocks, v.blocksFree⟩ : Dos33Volume) = v
  rw [hvtoc]

/-- The first file of a blank volume gets the name `A`. -/
theorem blankStore_link {s s' : Store} {inode : Inode} (hwf : WellFormed s.volume blankRoot)
    (hd : Denotes blankRoot s 0 inode 287 0) (hlive : IsLive s.volume.disk 287 0) {r : Reply}
    (hstep : s.step blankDirInode (.link 0 [0x41]) = .ok (r, s')) :
    WellFormed s'.volume blankRoot ∧ IsFile s'.volume.disk blankRoot 287 0 := by
  have hname : ([0x41] : CString).length ≤ 30 := by decide
  obtain ⟨v', hlink, hsame, -⟩ := dos33fsLinkInode_spec hwf hd.file hd.names hlive hname
  cases Store.returns_of_step hstep with
  | link hheld hcall =>
      obtain rfl := hd.held_eq hheld
      cases hlink.symm.trans hcall
      exact ⟨hsame.frame.wf, hsame.frame.file⟩

/-- What is seen of the first file of a volume: the fields of its inode and of its entry. -/
def firstFile (s : Store) : Option (Nat × Nat) × Bool :=
  ((s.inode 0).map fun i => (inodeToBlock i.number, inodeEntry i.number),
    decide (EntryUsed (s.volume.disk 287) 0 ∧ s.volume.disk 287 (catOffset 0 0) ≠ 0xfe))

/-- What a lookup has found. -/
structure LookupSeen where
  result : Int
  slot : InodeId
  sb : Option (Fin maxMounts)
  block : Nat
  entry : Nat
  size : Nat
  deriving DecidableEq

/-- What looking up `/A` on the mounted volume finds. -/
def lookupA (v : Dos33Volume) : Option LookupSeen :=
  match (Vfs.mounted v 0x110fff).inodeLookupAndAlloc [] [0x2f, 0x41] with
  | .ok ((r, some i), s) => some ⟨r, i, (s.inodes i).sb, inodeToBlock (s.inodes i).number,
      inodeEntry (s.inodes i).number, (s.inodes i).size⟩
  | _ => none

/-- The driver that was found is that of the mounted volume, and the inode names the first entry. -/
theorem lookupA_eq_some {v : Dos33Volume} {size : Nat}
    (h : lookupA v = some ⟨0, 0, some 0, 256 * 287, 0, size⟩) :
    ∃ s₁, (Vfs.mounted v 0x110fff).inodeLookupAndAlloc [] [0x2f, 0x41] = .ok ((0, some 0), s₁) ∧
      s₁.driver (s₁.inodes 0).sb = .ok (0, .dos33fs 0 0) ∧
        Names (s₁.inodes 0).number 287 0 ∧ (s₁.inodes 0).size = size := by
  rw [lookupA] at h
  split at h
  · rename_i r i s₁ hok
    obtain ⟨rfl, rfl, hsb, hblock, hentry, hsize⟩ := LookupSeen.mk.inj (Option.some.inj h)
    refine ⟨s₁, hok, ?_, ⟨hblock, hentry⟩, hsize⟩
    rw [hsb, (inodeLookupAndAlloc_found hok).fileSystems]
    rfl
  · cases h

/-- A first file that is there before the call `link` is there behind it. -/
theorem blankStore_named {ops : List FileOp} {rs rs' : List Reply} {s s' : Store}
    (hstays : Along (Store.step blankDirInode) (Stays blankRoot) blankStore ops)
    (hrun : Store.run blankDirInode blankStore ops = .ok (rs, s))
    (hfirst : firstFile s = (some (256 * 287, 0), true))
    (hrun' : Store.run blankDirInode blankStore (ops ++ [.link 0 [0x41]]) = .ok (rs', s')) :
    WellFormed s'.volume blankRoot ∧ IsFile s'.volume.disk blankRoot 287 0 := by
  obtain ⟨hinode, hobs⟩ := Prod.mk.inj hfirst
  obtain ⟨hused, hlive⟩ := of_decide_eq_true hobs
  obtain ⟨inode, hi, hfields⟩ := Option.map_eq_some_iff.1 hinode
  obtain ⟨hblock, hentry⟩ := Prod.mk.inj hfields
  have hwf := Store.run_wellFormed blankVolume_wellFormed blankRoot_eq hstays hrun
  have hcatalog : ∃ k, catalogAt s.volume.disk blankRoot k = some 287 := ⟨0, rfl⟩
  have hd : Denotes blankRoot s 0 inode 287 0 :=
    ⟨hi, ⟨hblock, hentry⟩, ⟨hcatalog, by decide, hused⟩⟩
  obtain ⟨rs₁, s₁, rs₂, hrun₁, hrun₂, -⟩ := run_append_eq_ok.1 hrun'
  rw [Store.run, hrun₁] at hrun
  cases hrun
  obtain ⟨r, hstep, -⟩ := run_singleton_eq_ok.1 hrun₂
  exact blankStore_link hwf hd hlive hstep

/-- A file that was given a size of 512 here has the number of sectors that is recomputed. -/
theorem chmodSyscall_lockBitOnly_iff_sized :
    ∃ rs s, Store.run blankDirInode blankStore
        [.make 0 Inode.zeroed, .truncate 0 512, .link 0 [0x41]] = .ok (rs, s) ∧
      ChmodLockBitOnly (Vfs.mounted s.volume 0x110fff) [] [0x2f, 0x41] 0o444 0 287 0 := by
  have hpre : (Store.run blankDirInode blankStore [.make 0 Inode.zeroed, .truncate 0 512]).map
      (fun q => firstFile q.2) = .ok (some (256 * 287, 0), true) := by decide +kernel
  obtain ⟨⟨rs₀, s₀⟩, hrun₀, hfirst⟩ := map_eq_ok.1 hpre
  have hobs : (Store.run blankDirInode blankStore
      [.make 0 Inode.zeroed, .truncate 0 512, .link 0 [0x41]]).map (fun q =>
        (lookupA q.2.volume, decide (storedSectors (q.2.volume.disk 287) 0 = recomputedSectors 512 ∧
          lengthAt (q.2.volume.disk ((dataAt q.2.volume.disk 287 0 0).getD 0))
            (lengthOffset (fileType q.2.volume.disk 287 0)) = 512 % 65536))) =
      .ok (some ⟨0, 0, some 0, 256 * 287, 0, 512⟩, true) := by decide +kernel
  obtain ⟨⟨rs, s⟩, hrun, hseen⟩ := map_eq_ok.1 hobs
  obtain ⟨hlookup, hcond⟩ := Prod.mk.inj hseen
  obtain ⟨hsectors, hlength⟩ := of_decide_eq_true hcond
  obtain ⟨hwf, hf⟩ := blankStore_named (blankStore_grow_stays (by decide)) hrun₀ hfirst hrun
  obtain ⟨s₁, hok, hdriver, hnames, hsize⟩ := lookupA_eq_some hlookup
  have hwf' : WellFormed ((Vfs.mounted s.volume 0x110fff).volume 0 0 0) blankRoot := by
    rw [Vfs.mounted_volume]
    exact hwf
  refine ⟨rs, s, hrun, (chmodSyscall_lockBitOnly_iff (Vfs.mounted_freeSlots _ _) hok hdriver hwf' hf
    hnames rfl _).2 ⟨?_, fun _ => ?_⟩⟩
  · rw [hsize]
    exact hsectors
  · rw [hsize]
    exact hlength

/-- A file that was just made has no sectors in its entry, and `chmod` stores 2. -/
theorem not_chmodLockBitOnly :
    ∃ rs s, Store.run blankDirInode blankStore [.make 0 Inode.zeroed, .link 0 [0x41]] =
        .ok (rs, s) ∧ WellFormed s.volume blankRoot ∧ IsFile s.volume.disk blankRoot 287 0 ∧
      ¬ ChmodLockBitOnly (Vfs.mounted s.volume 0x110fff) [] [0x2f, 0x41] 0o444 0 287 0 := by
  have hpre : (Store.run blankDirInode blankStore [.make 0 Inode.zeroed]).map
      (fun q => firstFile q.2) = .ok (some (256 * 287, 0), true) := by decide +kernel
  obtain ⟨⟨rs₀, s₀⟩, hrun₀, hfirst⟩ := map_eq_ok.1 hpre
  have hobs : (Store.run blankDirInode blankStore [.make 0 Inode.zeroed, .link 0 [0x41]]).map
      (fun q => (lookupA q.2.volume, storedSectors (q.2.volume.disk 287) 0)) =
      .ok (some ⟨0, 0, some 0, 256 * 287, 0, 0⟩, 0) := by decide +kernel
  obtain ⟨⟨rs, s⟩, hrun, hseen⟩ := map_eq_ok.1 hobs
  obtain ⟨hlookup, hsectors⟩ := Prod.mk.inj hseen
  have hstays : Along (Store.step blankDirInode) (Stays blankRoot) blankStore
      [.make 0 Inode.zeroed] := ⟨trivial, fun _ _ _ => trivial⟩
  obtain ⟨hwf, hf⟩ := blankStore_named hstays hrun₀ hfirst hrun
  obtain ⟨s₁, hok, hdriver, hnames, hsize⟩ := lookupA_eq_some hlookup
  refine ⟨rs, s, hrun, hwf, hf, ?_⟩
  rintro ⟨r, s', hcall, -, honly⟩
  obtain ⟨s'', hok', hdisk⟩ := chmodSyscall_eq (Vfs.mounted_freeSlots _ _) hok hdriver 0o444
  rw [hcall] at hok'
  cases hok'
  rw [hdisk, Function.update_self] at honly
  have hstored := ((@lockBitOnly_iff s.volume { s₁.inodes 0 with
    mode := (s₁.inodes 0).mode &&& 0xfffffe00 ||| 0o444 &&& 0x1ff } blankRoot 287 0 _ hwf hf
      hnames rfl).1 honly).1
  have hzero : storedSectors (s.volume.disk 287) 0 = 0 := hsectors
  have hempty : (s₁.inodes 0).size = 0 := hsize
  rw [hzero] at hstored
  simp only [hempty] at hstored
  exact absurd hstored (by decide)

end Vmwos
