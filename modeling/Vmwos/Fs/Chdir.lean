import Vmwos.Fs.Chmod
import Vmwos.Fs.Lookups

/-!
# Changing the current directory

`chdir_syscall` joins the current directory and a relative path, and then looks for the slash at
the end of the path in the joined string, at the index where the path would end. What stands there
is a character of the current directory or of the middle of the path, and if it is a slash the
rest of the path is cut off (`chdirsTo_iff`).
-/

set_option autoImplicit false

namespace Vmwos

open Library

/-! ## The call -/

/-- `new_path` as the path is expanded. -/
def expandedDir (currentDir path : CString) : CString :=
  if path.head? = some 0x2f then path.take maxPathLen
  else (currentDir ++ 0x2f :: path).take (maxPathLen - 1)

/-- `new_path` without the character at the end of a path of `len` characters, if that is a
slash. -/
def stripSlash (len : Nat) (newPath : CString) : CString :=
  if len > 1 ∧ newPath.getD (len - 1) 0 = 0x2f then newPath.take (len - 1) else newPath

/-- The path that `chdir_syscall` looks up. A string without a terminator would be read beyond its
buffer. -/
def chdirPath (currentDir path : CString) : Except Stuck CString :=
  let newPath := stripSlash path.length (expandedDir currentDir path)
  if path.head? ≠ some 0x2f ∧ currentDir.length ≥ maxPathLen ∨ newPath.length ≥ maxPathLen then
    .error .badAccess
  else .ok newPath

/-- `chdir_syscall`: the result, the state and the current directory. -/
def Vfs.chdirSyscall (s : Vfs) (currentDir path : CString) :
    Except Stuck (Int × Vfs × CString) :=
  if path.length > maxPathLen then .ok (-e2big, s, currentDir)
  else
    match chdirPath currentDir path with
    | .error e => .error e
    | .ok newPath =>
        match s.inodeLookupAndAlloc currentDir newPath with
        | .error e => .error e
        | .ok ((_, none), s) => .ok (-enoent, s, currentDir)
        | .ok ((_, some i), s) =>
            if (s.inodes i).mode &&& sIfmt ≠ sIfdir then
              (s.inodeFree i).map fun (_, s) => (-enotdir, s, currentDir)
            else (s.inodeFree i).map fun (_, s) => (0, s, newPath)

/-! ## Where it goes -/

/-- What tells an inode from another, and the mode it has. -/
structure Target where
  sb : Option (Fin maxMounts)
  number : Nat
  mode : Nat

/-- The target that an inode of the table is. -/
def Inode.target (inode : Inode) : Target := ⟨inode.sb, inode.number, inode.mode⟩

/-- The target is a directory. -/
def Target.IsDirectory (x : Target) : Prop := x.mode &&& sIfmt = sIfdir

/-- Looking the path up gives this inode. -/
def Vfs.LeadsTo (s : Vfs) (d p : CString) (x : Target) : Prop :=
  ∃ r i s₁, s.inodeLookupAndAlloc d p = .ok ((r, some i), s₁) ∧ (s₁.inodes i).target = x

/-- A path without one slash at its end. -/
def withoutSlash (p : CString) : CString :=
  if p.length > 1 ∧ p.getLast? = some 0x2f then p.dropLast else p

/-- The call goes to the directory that the path leads to, or stays where it is. -/
def ChdirsTo (s : Vfs) (d p : CString) : Prop :=
  ∀ r s' d', s.chdirSyscall d p = .ok (r, s', d') →
    (r = 0 → ∃ x, s.LeadsTo d (withoutSlash p) x ∧ x.IsDirectory ∧ s'.LeadsTo d' d' x) ∧
      (r ≠ 0 → d' = d)

/-- The path, joined to the current directory if it is relative, fits into the buffer. -/
def ExpansionFits (d p : CString) : Prop :=
  if p.head? = some 0x2f then p.length < maxPathLen else (d ++ 0x2f :: p).length < maxPathLen

instance (d p : CString) : Decidable (ExpansionFits d p) :=
  inferInstanceAs (Decidable (if p.head? = some 0x2f then p.length < maxPathLen
    else (d ++ 0x2f :: p).length < maxPathLen))

/-- The slash is looked for in the wrong place: the path is relative, and it ends in a slash or one
stands in the joined path at the index of its last character. -/
def Misplaced (d p : CString) : Prop :=
  p.head? ≠ some 0x2f ∧ p.length > 1 ∧
    (p.getLast? = some 0x2f ∨ (d ++ 0x2f :: p).getD (p.length - 1) 0 = 0x2f)

/-- The joined path as far as that slash. -/
def cutPath (d p : CString) : CString :=
  if (d ++ 0x2f :: p).getD (p.length - 1) 0 = 0x2f then (d ++ 0x2f :: p).take (p.length - 1)
  else d ++ 0x2f :: p

/-! ## Looking a path up again -/

section Again

variable {s s' s₁ : Vfs} {d p d' p' : CString} {temp i : InodeId} {x y : Target} {r : Int}

/-- Filling an inode in keeps its superblock and looks at its number alone. -/
theorem romfsReadInodeLoop_target {image : Romfs.Image} {fuel : Nat} {a b a' : Inode}
    (hnumber : b.number = a.number) (hsb : b.sb = a.sb)
    (h : Romfs.readInodeLoop image fuel a = .ok (r, a')) :
    ∃ b', Romfs.readInodeLoop image fuel b = .ok (r, b') ∧ b'.target = a'.target := by
  induction fuel generalizing a b with
  | zero => cases h
  | succ fuel ih =>
      rw [Romfs.readInodeLoop] at h ⊢
      rw [hnumber]
      split at h
      · rename_i htype
        rw [if_pos htype]
        apply ih _ _ h
        · rfl
        · exact hsb
      · rename_i htype
        cases h
        rw [if_neg htype]
        refine ⟨_, rfl, ?_⟩
        simp [Inode.target, Romfs.fillInode, hnumber, hsb]

theorem dos33ReadInode_target {disk : Disk} {a b a' : Inode} (hnumber : b.number = a.number)
    (hsb : b.sb = a.sb) (h : dos33ReadInode disk a = (r, a')) (hpos : 0 ≤ r) :
    ∃ b', dos33ReadInode disk b = (r, b') ∧ b'.target = a'.target := by
  rw [dos33ReadInode] at h ⊢
  simp only [hnumber] at h ⊢
  split at h
  · rename_i hentry
    cases h
    rw [if_pos hentry]
    refine ⟨_, rfl, ?_⟩
    simp [Inode.target, dos33InodeDone, hsb]
  · rename_i hentry
    rw [if_neg hentry]
    split at h
    · obtain ⟨rfl, -⟩ := Prod.mk.inj h
      exact absurd hpos (by decide)
    · rename_i hmax
      cases h
      rw [if_neg hmax]
      refine ⟨_, rfl, ?_⟩
      simp [Inode.target, dos33InodeDone, hsb]

theorem romfsLookupInode_target {image : Romfs.Image} {path : CString} {a b a' : Inode}
    (hnumber : b.number = a.number) (hsb : b.sb = a.sb)
    (h : Romfs.lookupInode image a path = .ok (r, a')) (hpos : 0 ≤ r) :
    ∃ b', Romfs.lookupInode image b path = .ok (r, b') ∧ b'.target = a'.target := by
  rw [Romfs.lookupInode] at h ⊢
  rw [hnumber]
  split at h
  · rename_i hpath
    rw [if_pos hpath]
    exact romfsReadInodeLoop_target hnumber hsb h
  · rename_i hpath
    rw [if_neg hpath]
    split at h
    · cases h
    · split at h
      · rename_i hneg
        cases h
        exact absurd hpos (Int.not_le.2 hneg)
      · rename_i hneg
        simp only [hneg, if_false]
        apply romfsReadInodeLoop_target _ _ h
        · rfl
        · exact hsb

theorem dos33fsLookupInode_target {disk : Disk} {path : CString} {a b a' : Inode}
    (hnumber : b.number = a.number) (hsb : b.sb = a.sb)
    (h : dos33fsLookupInode disk a path = .ok (r, a')) (hpos : 0 ≤ r) :
    ∃ b', dos33fsLookupInode disk b path = .ok (r, b') ∧ b'.target = a'.target := by
  rw [dos33fsLookupInode] at h ⊢
  rw [hnumber]
  split at h
  · rename_i hpath
    rw [if_pos hpath]
    obtain ⟨b', hread, hsame⟩ := dos33ReadInode_target hnumber hsb (Except.ok.inj h) hpos
    exact ⟨b', congrArg Except.ok hread, hsame⟩
  · rename_i hpath
    rw [if_neg hpath]
    split at h
    · cases h
    · rename_i result number hwalk
      split at h
      · rename_i hneg
        cases h
        exact absurd hpos (Int.not_le.2 hneg)
      · rename_i hneg
        simp only [hneg, if_false]
        have hsame : ({ b with number := number } : Inode).number =
          ({ a with number := number } : Inode).number := rfl
        obtain ⟨b', hread, hsame⟩ := dos33ReadInode_target hsame hsb (Except.ok.inj h) hpos
        exact ⟨b', congrArg Except.ok hread, hsame⟩

/-- Two inodes with the same superblock and number lead to the same file. -/
theorem lookupInode_target {fs : FileSystems} {path : CString} {a b a' : Inode}
    (hnumber : b.number = a.number) (hsb : b.sb = a.sb) (h : fs.lookupInode a path = .ok (r, a'))
    (hpos : 0 ≤ r) : ∃ b', fs.lookupInode b path = .ok (r, b') ∧ b'.target = a'.target := by
  rw [FileSystems.lookupInode] at h ⊢
  rw [hsb]
  split at h
  · cases h
  · exact romfsLookupInode_target hnumber hsb h hpos
  · exact dos33fsLookupInode_target hnumber hsb h hpos

/-- What a lookup goes through that finds something, in the slot `temp` that it takes. -/
structure Vfs.Reaches (s : Vfs) (temp : InodeId) (d p : CString) (r : Int) (inode : Inode)
    (i : InodeId) : Prop where
  filled : ∃ k path, s.resolve d p = .ok (some (k, path)) ∧
    s.lookupInode (s.temporary temp k) path = .ok (r, inode)
  pos : 0 ≤ r
  existing : (s.setInode temp inode).inodeFindExisting inode.sb inode.number = some i

/-- There is one way to go. -/
theorem Vfs.Reaches.unique {inode inode' : Inode} {r' : Int} {j : InodeId}
    (h : s.Reaches temp d p r inode i) (h' : s.Reaches temp d p r' inode' j) :
    r' = r ∧ inode' = inode ∧ j = i := by
  obtain ⟨k, path, hresolve, hlookup⟩ := h.filled
  obtain ⟨k', path', hresolve', hlookup'⟩ := h'.filled
  rw [hresolve] at hresolve'
  cases hresolve'
  rw [hlookup] at hlookup'
  cases hlookup'
  have hj := h'.existing
  rw [h.existing] at hj
  cases hj
  exact ⟨rfl, rfl, rfl⟩

/-- Such a lookup comes back. -/
theorem Vfs.Reaches.returns {inode : Inode} (hfree : s.freeInode = some temp)
    (h : s.Reaches temp d p r inode i) :
    ∃ s₁, s.inodeLookupAndAlloc d p = .ok ((r, some i), s₁) := by
  obtain ⟨k, path, hresolve, hlookup⟩ := h.filled
  obtain ⟨hcount, -, hlinks⟩ := temporary_filledIn hlookup
  rw [inodeLookupAndAlloc_eq, inodeAllocate_eq, hfree]
  simp only [Option.map_some, hresolve, Vfs.lookupFrom]
  have htemp : { (s.setInode temp { s.inodes temp with count := 1 }).inodes temp with
      number := ((s.setInode temp { s.inodes temp with count := 1 }).superblockTable k).rootDir
      sb := some k } = s.temporary temp k := by
    rw [setInode_self]
    rfl
  have hlookup' : (s.setInode temp { s.inodes temp with count := 1 }).lookupInode
      (s.temporary temp k) path = .ok (r, inode) := hlookup
  rw [htemp, hlookup']
  simp only [setInode_setInode, Int.not_lt.2 h.pos, if_false, h.existing]
  -- the slot taken has the link that was read from the disk
  generalize hs : (s.setInode temp inode).setInode i { (s.setInode temp inode).inodes i with
    count := ((s.setInode temp inode).inodes i).count + 1 } = s₂
  have hslot : (s₂.inodes temp).hardLinks ≠ 0 := by
    rw [← hs]
    by_cases hi : temp = i
    · subst hi
      simp [hlinks h.pos]
    · rw [setInode_of_ne _ _ hi, setInode_self, hlinks h.pos]
      exact Int.one_ne_zero
  obtain ⟨q, s₃, hok⟩ := (inodeFree_returns (s := s₂) (i := temp)).2 fun _ h0 => absurd h0 hslot
  rw [hok]
  exact ⟨s₃, rfl⟩

/-- A lookup that has found something went that way; giving the inode back leaves the table as it
was, but for the slot that the lookup had taken. -/
theorem Vfs.Reaches.of_lookup (h : s.inodeLookupAndAlloc d p = .ok ((r, some i), s₁)) :
    ∃ temp inode, s.freeInode = some temp ∧ s.Reaches temp d p r inode i ∧
      (s₁.inodes i).target = ((s.setInode temp inode).inodes i).target ∧
      (s.FreeSlots → ∃ q, s₁.inodeFree i = .ok (q, s.setInode temp Inode.cleared)) := by
  cases lookedUp h with
  | fresh hfree hresolve hlookup hpos hexisting =>
      rename_i k path inode
      obtain ⟨hcount, -, hlinks⟩ := temporary_filledIn hlookup
      refine ⟨i, inode, hfree, ⟨⟨k, path, hresolve, hlookup⟩, hpos, hexisting⟩, rfl, fun _ => ?_⟩
      have hone : inode.hardLinks ≠ 0 := by
        rw [hlinks hpos]
        exact Int.one_ne_zero
      refine ⟨0, ?_⟩
      simp [Vfs.inodeFree, hcount, hone]
  | shared hfree hresolve hlookup hpos hexisting hi =>
      rename_i temp k path inode
      obtain ⟨-, hsb, -⟩ := temporary_filledIn hlookup
      have hexist := inodeFindExisting_eq_some hexisting
      rw [setInode_of_ne _ _ hi] at hexist
      have hslot : ((s.setInode i { s.inodes i with count := (s.inodes i).count + 1 }).setInode temp
          Inode.cleared).inodes i = { s.inodes i with count := (s.inodes i).count + 1 } := by
        rw [setInode_of_ne _ _ hi, setInode_self]
      refine ⟨temp, inode, hfree, ⟨⟨k, path, hresolve, hlookup⟩, hpos, hexisting⟩, ?_, ?_⟩
      · rw [hslot, setInode_of_ne _ _ hi]
        rfl
      · -- the slot found has been in use
        intro hslots
        have hused : (s.inodes i).count ≠ 0 := by
          intro h0
          have hnone := hslots i h0
          rw [hexist.1, hsb] at hnone
          cases hnone
        have hback : s.setInode i { s.inodes i with count := (s.inodes i).count } = s := by
          simp [Vfs.setInode]
        refine ⟨0, ?_⟩
        rw [Vfs.inodeFree, hslot]
        simp only [Nat.succ_ne_zero, if_false, Nat.add_sub_cancel, ne_eq, hused,
          not_false_eq_true, if_true]
        rw [setInode_comm _ _ _ (Ne.symm hi), setInode_setInode, hback]

theorem leadsTo_iff (hfree : s.freeInode = some temp) : s.LeadsTo d p x ↔
    ∃ r inode i, s.Reaches temp d p r inode i ∧ ((s.setInode temp inode).inodes i).target = x := by
  constructor
  · rintro ⟨r, i, s₁, hok, rfl⟩
    obtain ⟨temp', inode, hfree', hreaches, htarget, -⟩ := Vfs.Reaches.of_lookup hok
    rw [hfree] at hfree'
    cases hfree'
    exact ⟨r, inode, i, hreaches, htarget.symm⟩
  · rintro ⟨r, inode, i, hreaches, rfl⟩
    obtain ⟨s₁, hok⟩ := hreaches.returns hfree
    obtain ⟨temp', inode', hfree', hreaches', htarget, -⟩ := Vfs.Reaches.of_lookup hok
    rw [hfree] at hfree'
    cases hfree'
    obtain ⟨-, rfl, -⟩ := hreaches.unique hreaches'
    exact ⟨r, i, s₁, hok, htarget⟩

/-- A path leads to one inode. -/
theorem Vfs.LeadsTo.unique (h : s.LeadsTo d p x) (h' : s.LeadsTo d p y) : y = x := by
  obtain ⟨r, i, s₁, hok, rfl⟩ := h
  obtain ⟨r', i', s₁', hok', rfl⟩ := h'
  rw [hok] at hok'
  cases hok'
  rfl

/-- The mount and the path inside it decide. -/
theorem Vfs.LeadsTo.congr (h : s.LeadsTo d p x) (hresolve : s.resolve d p = s.resolve d' p') :
    s.LeadsTo d' p' x := by
  rw [Vfs.LeadsTo, inodeLookupAndAlloc_congr hresolve] at h
  exact h

/-- The slot that a lookup takes stays the first free one whatever it holds. -/
theorem freeInode_setInode {inode : Inode} (hfree : s.freeInode = some temp)
    (hcount : inode.count = 0) : (s.setInode temp inode).freeInode = some temp := by
  have hcounts : ∀ j, ((s.setInode temp inode).inodes j).count = (s.inodes j).count := by
    intro j
    by_cases hj : j = temp
    · subst hj
      rw [setInode_self, count_of_freeInode hfree, hcount]
    · rw [setInode_of_ne _ _ hj]
  rw [← hfree, Vfs.freeInode, Vfs.freeInode]
  simp only [hcounts]

/-- What is left in that slot changes nothing about where paths lead. -/
theorem Vfs.LeadsTo.freeSlot {inode₀ : Inode} (hfree : s.freeInode = some temp)
    (hcount : inode₀.count = 0) (h : s.LeadsTo d p x) :
    (s.setInode temp inode₀).LeadsTo d p x := by
  have hfree' := freeInode_setInode hfree hcount
  rw [leadsTo_iff hfree'] at ⊢
  obtain ⟨r, inode, i, hreaches, rfl⟩ := (leadsTo_iff hfree).1 h
  obtain ⟨k, path, hresolve, hlookup⟩ := hreaches.filled
  -- the slot is filled in from another inode with the same superblock and number
  obtain ⟨inode', hlookup', htarget⟩ := @lookupInode_target _ s.toFileSystems path
    (s.temporary temp k) ((s.setInode temp inode₀).temporary temp k) inode rfl rfl hlookup
    hreaches.pos
  obtain ⟨hsb, hnumber, -⟩ : inode'.sb = inode.sb ∧ inode'.number = inode.number ∧
      inode'.mode = inode.mode := by
    simpa [Inode.target] using htarget
  have htargets : ∀ j, ((s.setInode temp inode').inodes j).target =
      ((s.setInode temp inode).inodes j).target := by
    intro j
    by_cases hj : j = temp
    · subst hj
      rw [setInode_self, setInode_self, htarget]
    · rw [setInode_of_ne _ _ hj, setInode_of_ne _ _ hj]
  refine ⟨r, inode', i, ⟨⟨k, path, hresolve, hlookup'⟩, hreaches.pos, ?_⟩, ?_⟩
  · rw [setInode_setInode, hsb, hnumber, ← hreaches.existing]
    have hfields : ∀ j, ((s.setInode temp inode').inodes j).sb =
        ((s.setInode temp inode).inodes j).sb ∧ ((s.setInode temp inode').inodes j).number =
        ((s.setInode temp inode).inodes j).number := fun j =>
      ⟨congrArg Target.sb (htargets j), congrArg Target.number (htargets j)⟩
    simp only [Vfs.inodeFindExisting, hfields]
  · rw [setInode_setInode]
    exact htargets i

/-- In particular it may be cleared. -/
theorem leadsTo_cleared_iff (hfree : s.freeInode = some temp) :
    (s.setInode temp Inode.cleared).LeadsTo d p x ↔ s.LeadsTo d p x := by
  constructor
  · intro h
    have hback := h.freeSlot (freeInode_setInode hfree rfl) (count_of_freeInode hfree)
    have hself : s.setInode temp (s.inodes temp) = s := by simp [Vfs.setInode]
    rwa [setInode_setInode, hself] at hback
  · exact Vfs.LeadsTo.freeSlot hfree rfl

end Again

/-! ## The path that is looked up -/

section Paths

variable {s : Vfs} {d d' p q : CString}

theorem chdirPath_eq_ok (h : chdirPath d p = .ok q) :
    q = stripSlash p.length (expandedDir d p) ∧ q.length < maxPathLen := by
  rw [chdirPath] at h
  split at h
  · cases h
  · rename_i hfit
    cases h
    exact ⟨rfl, Nat.lt_of_not_le fun hle => hfit (Or.inr hle)⟩

theorem head?_take {c : UInt8} {l : CString} {n : Nat} (hl : l.head? = some c) (hn : n ≠ 0) :
    (l.take n).head? = some c := by
  rw [List.head?_take, if_neg hn, hl]

/-- It is an absolute path if the current directory is one. -/
theorem head?_of_chdirPath (hd : d.head? = some 0x2f) (h : chdirPath d p = .ok q) :
    q.head? = some 0x2f := by
  have hexpanded : (expandedDir d p).head? = some 0x2f := by
    rw [expandedDir]
    split
    · rename_i hp
      exact head?_take hp (by decide)
    · apply head?_take _ (by decide)
      rw [List.head?_append, hd, Option.some_or]
  rw [(chdirPath_eq_ok h).1, stripSlash]
  split
  · rename_i hslash
    exact head?_take hexpanded (Nat.sub_ne_zero_of_lt hslash.1)
  · exact hexpanded

/-- The last character, as it is looked for. -/
theorem getD_pred_eq_iff {c : UInt8} (hlen : p.length > 1) :
    p.getD (p.length - 1) 0 = c ↔ p.getLast? = some c := by
  have hlt : p.length - 1 < p.length := Nat.sub_lt (Nat.lt_trans Nat.zero_lt_one hlen) Nat.one_pos
  rw [List.getLast?_eq_getElem?, List.getD_eq_getElem?_getD, List.getElem?_eq_getElem hlt]
  simp

theorem length_stripSlash_le (len : Nat) (p : CString) : (stripSlash len p).length ≤ p.length := by
  rw [stripSlash]
  split
  · rw [List.length_take]
    exact Nat.min_le_right _ _
  · exact Nat.le_refl _

/-- The slash at the end of an absolute path is found. -/
theorem chdirPath_absolute (hp : p.head? = some 0x2f) (hfit : p.length < maxPathLen) :
    chdirPath d p = .ok (withoutSlash p) := by
  have hexpanded : expandedDir d p = p := by
    rw [expandedDir, if_pos hp, List.take_of_length_le (Nat.le_of_lt hfit)]
  have hstrip : stripSlash p.length p = withoutSlash p := by
    rw [stripSlash, withoutSlash, List.dropLast_eq_take]
    by_cases hlen : p.length > 1
    · simp only [getD_pred_eq_iff hlen]
    · rw [if_neg fun h => hlen h.1, if_neg fun h => hlen h.1]
  have hshort := length_stripSlash_le p.length p
  rw [hstrip] at hshort
  rw [chdirPath, hexpanded, hstrip, if_neg]
  rintro (⟨hrelative, -⟩ | hlong)
  · exact hrelative hp
  · exact absurd (Nat.lt_of_le_of_lt hshort hfit) (Nat.not_lt.2 hlong)

/-- In the joined path another character is looked at. -/
theorem chdirPath_relative (hp : p.head? ≠ some 0x2f)
    (hfit : (d ++ 0x2f :: p).length < maxPathLen) :
    chdirPath d p = .ok (if p.length > 1 then cutPath d p else d ++ 0x2f :: p) := by
  have hexpanded : expandedDir d p = d ++ 0x2f :: p := by
    rw [expandedDir, if_neg hp, List.take_of_length_le (Nat.le_sub_one_of_lt hfit)]
  have hstrip : stripSlash p.length (d ++ 0x2f :: p) =
      if p.length > 1 then cutPath d p else d ++ 0x2f :: p := by
    rw [stripSlash, cutPath]
    by_cases hlen : p.length > 1
    · simp only [hlen, true_and, if_true]
    · simp only [hlen, false_and, if_false]
  have hshort := length_stripSlash_le p.length (d ++ 0x2f :: p)
  rw [hstrip] at hshort
  rw [chdirPath, hexpanded, hstrip, if_neg]
  rintro (⟨-, hlong⟩ | hlong)
  · rw [List.length_append] at hfit
    exact absurd (Nat.lt_of_le_of_lt (Nat.le_add_right _ _) hfit) (Nat.not_lt.2 hlong)
  · exact absurd (Nat.lt_of_le_of_lt hshort hfit) (Nat.not_lt.2 hlong)

/-- An absolute path is looked up the same way from everywhere. -/
theorem resolve_absolute (hq : q.head? = some 0x2f) : s.resolve d q = s.resolve d' q := by
  rw [FileSystems.resolve, FileSystems.resolve, Vfs.expandPath, Vfs.expandPath, if_pos hq, if_pos hq]

/-- A relative path is looked up as the joined one. -/
theorem resolve_relative (hd : d.head? = some 0x2f) (hp : p.head? ≠ some 0x2f)
    (hfit : (d ++ 0x2f :: p).length < maxPathLen) : s.resolve d (d ++ 0x2f :: p) = s.resolve d p := by
  have hjoined : (d ++ 0x2f :: p).head? = some 0x2f := by
    rw [List.head?_append, hd, Option.some_or]
  have hlen : d.length < maxPathLen := by
    rw [List.length_append] at hfit
    omega
  rw [FileSystems.resolve, FileSystems.resolve, expandPath_relative hp hlen,
    List.take_of_length_le (Nat.le_sub_one_of_lt hfit), Vfs.expandPath, if_pos hjoined,
    if_neg (Nat.not_le.2 hfit)]

/-- Where the slash is not misplaced, the path looked up is resolved as the one given. -/
theorem resolve_chdirPath (hd : d.head? = some 0x2f) (hfit : ExpansionFits d p)
    (hplaced : ¬ Misplaced d p) (h : chdirPath d p = .ok q) :
    s.resolve d q = s.resolve d (withoutSlash p) := by
  rw [ExpansionFits] at hfit
  split at hfit
  · rename_i hp
    rw [chdirPath_absolute hp hfit] at h
    cases h
    rfl
  · rename_i hp
    rw [chdirPath_relative hp hfit] at h
    rw [withoutSlash]
    by_cases hlen : p.length > 1
    · -- neither of the two slashes is there
      have hlast : p.getLast? ≠ some 0x2f := fun hlast => hplaced ⟨hp, hlen, Or.inl hlast⟩
      have hinner : (d ++ 0x2f :: p).getD (p.length - 1) 0 ≠ 0x2f :=
        fun hinner => hplaced ⟨hp, hlen, Or.inr hinner⟩
      rw [if_pos hlen, cutPath, if_neg hinner] at h
      cases h
      rw [if_neg fun hslash => hlast hslash.2]
      exact resolve_relative hd hp hfit
    · rw [if_neg hlen] at h
      cases h
      rw [if_neg fun hslash => hlen hslash.1]
      exact resolve_relative hd hp hfit

end Paths

/-! ## The directory that is left behind -/

section Call

variable {s s' : Vfs} {d d' p q : CString} {x : Target} {r : Int}

/-- A call that comes back has failed, or has found a directory by the path that it looked up. -/
theorem chdirSyscall_cases (hslots : s.FreeSlots) (h : s.chdirSyscall d p = .ok (r, s', d')) :
    (r ≠ 0 ∧ d' = d) ∨
      (r = 0 ∧ chdirPath d p = .ok d' ∧ ∃ x temp, s.LeadsTo d d' x ∧ x.IsDirectory ∧
        s.freeInode = some temp ∧ s' = s.setInode temp Inode.cleared) := by
  rw [Vfs.chdirSyscall] at h
  split at h
  · cases h
    exact Or.inl ⟨by decide, rfl⟩
  · split at h
    · cases h
    · rename_i newPath hpath
      split at h
      · cases h
      · cases h
        exact Or.inl ⟨by decide, rfl⟩
      · rename_i result i s₁ hlookup
        split at h
        · obtain ⟨⟨q, s₂⟩, -, heq⟩ := map_eq_ok.1 h
          cases heq
          exact Or.inl ⟨by decide, rfl⟩
        · rename_i hmode
          obtain ⟨⟨q, s₂⟩, hok, heq⟩ := map_eq_ok.1 h
          cases heq
          obtain ⟨temp, inode, hfree, -, -, hfreed⟩ := Vfs.Reaches.of_lookup hlookup
          obtain ⟨q', hok'⟩ := hfreed hslots
          rw [hok] at hok'
          cases hok'
          exact Or.inr ⟨rfl, hpath, _, temp, ⟨result, i, s₁, hlookup, rfl⟩, not_not.1 hmode, hfree,
            rfl⟩

/-- A path that leads to a directory is gone to. -/
theorem chdirSyscall_of_directory (hslots : s.FreeSlots) (hlen : p.length ≤ maxPathLen)
    (hpath : chdirPath d p = .ok q) (hleads : s.LeadsTo d q x) (hdir : x.IsDirectory) :
    ∃ s', s.chdirSyscall d p = .ok (0, s', q) := by
  obtain ⟨result, i, s₁, hlookup, rfl⟩ := hleads
  obtain ⟨temp, inode, -, -, -, hfreed⟩ := Vfs.Reaches.of_lookup hlookup
  obtain ⟨q', hok⟩ := hfreed hslots
  have hmode : (s₁.inodes i).mode &&& sIfmt = sIfdir := hdir
  refine ⟨s.setInode temp Inode.cleared, ?_⟩
  rw [Vfs.chdirSyscall, if_neg (Nat.not_lt.2 hlen), hpath]
  simp only [hlookup, hmode, ne_eq, not_true_eq_false, if_false, hok]
  rfl

/-- The new current directory leads to the directory found. -/
theorem Vfs.LeadsTo.newDir {temp : InodeId} (hd : d.head? = some 0x2f)
    (hpath : chdirPath d p = .ok q) (hfree : s.freeInode = some temp) (hleads : s.LeadsTo d q x) :
    (s.setInode temp Inode.cleared).LeadsTo q q x :=
  ((leadsTo_cleared_iff hfree).2 hleads).congr (resolve_absolute (head?_of_chdirPath hd hpath))

/-- Free slots stay empty, and the current directory stays an absolute path that fits. -/
theorem chdirSyscall_keeps (hslots : s.FreeSlots) (hd : d.head? = some 0x2f)
    (h : s.chdirSyscall d p = .ok (0, s', d')) :
    s'.FreeSlots ∧ d'.head? = some 0x2f ∧ d'.length < maxPathLen := by
  rcases chdirSyscall_cases hslots h with ⟨hr, -⟩ | ⟨-, hpath, x, temp, -, -, hfree, rfl⟩
  · exact absurd rfl hr
  · exact ⟨hslots.setInode fun _ => rfl, head?_of_chdirPath hd hpath, (chdirPath_eq_ok hpath).2⟩

/-- From any directory `chdir` goes where the path leads to, exactly unless the slash is misplaced
and the joined path, cut off there, leads to a directory other than the path does. -/
theorem chdirsTo_iff (hslots : s.FreeSlots) (hd : d.head? = some 0x2f) (hfit : ExpansionFits d p) :
    ChdirsTo s d p ↔ (Misplaced d p →
      ∀ x, s.LeadsTo d (cutPath d p) x → x.IsDirectory → s.LeadsTo d (withoutSlash p) x) := by
  constructor
  · rintro hchdir ⟨hp, hlen, -⟩ x hleads hdir
    rw [ExpansionFits, if_neg hp] at hfit
    have hpath : chdirPath d p = .ok (cutPath d p) := by
      rw [chdirPath_relative hp hfit, if_pos hlen]
    have hshort : p.length ≤ maxPathLen := by
      rw [List.length_append, List.length_cons] at hfit
      omega
    obtain ⟨s', hok⟩ := chdirSyscall_of_directory hslots hshort hpath hleads hdir
    obtain ⟨y, hwithout, -, hnew⟩ := (hchdir _ _ _ hok).1 rfl
    -- the new directory leads to `x`, so that is where the path led to
    rcases chdirSyscall_cases hslots hok with ⟨hr, -⟩ | ⟨-, -, -, temp, -, -, hfree, rfl⟩
    · exact absurd rfl hr
    · rwa [hnew.unique (hleads.newDir hd hpath hfree)]
  · intro hcond r s' d' hok
    rcases chdirSyscall_cases hslots hok with
      ⟨hr, rfl⟩ | ⟨rfl, hpath, x, temp, hleads, hdir, hfree, rfl⟩
    · exact ⟨fun h0 => absurd h0 hr, fun _ => rfl⟩
    · refine ⟨fun _ => ⟨x, ?_, hdir, hleads.newDir hd hpath hfree⟩, fun h0 => absurd rfl h0⟩
      by_cases hplaced : Misplaced d p
      · have hrelative := hfit
        rw [ExpansionFits, if_neg hplaced.1] at hrelative
        rw [chdirPath_relative hplaced.1 hrelative, if_pos hplaced.2.1] at hpath
        cases hpath
        exact hcond hplaced x hleads hdir
      · exact hleads.congr (resolve_chdirPath hd hfit hplaced hpath)

end Call

/-! ## A name of two characters at the root -/

/-- On a blank volume at the root, `/` leads to the root directory. -/
theorem chdirsTo_iff_root : ChdirsTo (Vfs.mounted blankStore.volume 0x110fff) [0x2f] [0x2f] :=
  (chdirsTo_iff (Vfs.mounted_freeSlots _ _) rfl (by decide)).2 fun h => absurd rfl h.1

/-- There `ab` leads nowhere, and `chdir` to it succeeds: the second character of `//ab` is a
slash. -/
theorem not_chdirsTo : (∃ s', (Vfs.mounted blankStore.volume 0x110fff).chdirSyscall [0x2f]
      [0x61, 0x62] = .ok (0, s', [0x2f])) ∧
    ¬ ChdirsTo (Vfs.mounted blankStore.volume 0x110fff) [0x2f] [0x61, 0x62] := by
  have hobs : ((Vfs.mounted blankStore.volume 0x110fff).chdirSyscall [0x2f] [0x61, 0x62]).map
      (fun q => (q.1, q.2.2)) = .ok (0, [0x2f]) := by decide
  have hnone : ((Vfs.mounted blankStore.volume 0x110fff).inodeLookupAndAlloc [0x2f]
      [0x61, 0x62]).map (fun q => q.1.2) = .ok none := by decide
  obtain ⟨⟨r, s', d'⟩, hok, hseen⟩ := map_eq_ok.1 hobs
  obtain ⟨rfl, rfl⟩ := Prod.mk.inj hseen
  refine ⟨⟨s', hok⟩, fun hchdir => ?_⟩
  obtain ⟨x, ⟨r, i, s₁, hlookup, -⟩, -⟩ := (hchdir _ _ _ hok).1 rfl
  have hpath : withoutSlash [0x61, 0x62] = [0x61, 0x62] := by decide
  rw [hpath] at hlookup
  rw [hlookup] at hnone
  cases hnone

end Vmwos
