import Vmwos.Fs.FailedOpens

/-!
# One inode for a file

A lookup fills the first free slot in and then takes the first slot that has the superblock and the
number, so it takes the new one whenever that comes before the one in use: a file that is opened
again after a slot in front of its inode has become free has two inodes (`not_run_oneInode`). The
table keeps to one inode for a file as long as no call to `open` does that, and none leaves a slot
behind that it has not filled in (`run_oneInode`).
-/

set_option autoImplicit false

namespace Vmwos

open Library

namespace Vfs

/-- No two inodes in use have the same superblock and number. -/
def OneInode (s : Vfs) : Prop :=
  ∀ i j, (s.inodes i).count ≠ 0 → (s.inodes j).count ≠ 0 → (s.inodes i).sb = (s.inodes j).sb →
    (s.inodes i).number = (s.inodes j).number → i = j

/-- The inodes in use behind a step were in use before it. -/
def Within (s s' : Vfs) : Prop :=
  ∀ j, (s'.inodes j).count ≠ 0 → (s.inodes j).count ≠ 0 ∧
    (s'.inodes j).sb = (s.inodes j).sb ∧ (s'.inodes j).number = (s.inodes j).number

/-! ## The conditions -/

/-- A lookup does not leave a slot taken: there is none, or some mount has the path. -/
def HasMount (s : Vfs) (d p : CString) : Prop := s.freeInode ≠ none → s.resolve d p ≠ .ok none

/-- An inode in use for the file that the path leads to stands before the first free slot. -/
def FindsFirst (s : Vfs) (d p : CString) : Prop :=
  ∀ temp x, s.freeInode = some temp → s.LeadsTo d p x → ∀ j, (s.inodes j).count ≠ 0 →
    (s.inodes j).sb = x.sb → (s.inodes j).number = x.number → j < temp

/-- A file can be made in the directory, in a catalog entry that no inode in use has. -/
def HasUnusedEntry (s : Vfs) (dir : Target) : Prop :=
  ∃ k block vtoc t sector entry, s.driver dir.sb = .ok (k, .dos33fs block vtoc) ∧
    makeInodeLoop (s.disk block) chainRounds (inodeTrack dir.number) (inodeSector dir.number) =
      .ok (some (t, sector, entry)) ∧
    ∀ j, (s.inodes j).count ≠ 0 → (s.inodes j).sb = dir.sb →
      (s.inodes j).number ≠ inodeNumber t sector entry

/-- A missing file is created with a new inode: looking for it does no harm, the inode of its
directory is found, and an entry there is not used. -/
def CreatesNew (s : Vfs) (d p : CString) : Prop :=
  s.freeInode ≠ none → s.LeadsNowhere d p → s.HarmlessLookup d p ∧
    ∀ full, createPath d p = .ok full → s.resolve d (splitPathname full).1 ≠ .ok none ∧
      s.FindsFirst d (splitPathname full).1 ∧
      ∀ x, s.LeadsTo d (splitPathname full).1 x → s.HasUnusedEntry x

/-- A call of `open` opens the inode of its file. -/
def OpensOne (s : Vfs) (d p : CString) (flags : Nat) : Prop :=
  s.HasMount d p ∧ s.FindsFirst d p ∧ (flags &&& oCreat ≠ 0 → s.CreatesNew d p)

end Vfs

/-! ## Steps that take no slot -/

section Within

variable {s s₁ s₂ s' : Vfs} {d p : CString} {i : InodeId} {r : Int} {inode : Inode}
  {fs : FileSystems}

theorem Vfs.Within.refl (s : Vfs) : s.Within s := fun _ hj => ⟨hj, rfl, rfl⟩

theorem Vfs.Within.trans (h : s.Within s₁) (h' : s₁.Within s') : s.Within s' := by
  intro j hj
  obtain ⟨hj₁, hsb', hnumber'⟩ := h' j hj
  obtain ⟨hj₀, hsb, hnumber⟩ := h j hj₁
  exact ⟨hj₀, hsb'.trans hsb, hnumber'.trans hnumber⟩

theorem Vfs.OneInode.within (h : s.OneInode) (hwithin : s.Within s') : s'.OneInode := by
  intro i j hi hj hsb hnumber
  obtain ⟨hi₀, hsbi, hnumberi⟩ := hwithin i hi
  obtain ⟨hj₀, hsbj, hnumberj⟩ := hwithin j hj
  apply h i j hi₀ hj₀
  · rw [← hsbi, ← hsbj, hsb]
  · rw [← hnumberi, ← hnumberj, hnumber]

theorem Vfs.KeepsRefs.within (h : s.KeepsRefs s') : s.Within s' := by
  intro j hj
  rw [h.count] at hj
  exact ⟨hj, h.file j hj⟩

/-- An inode is put back with another size, mode or count of links. -/
theorem count_putInode (hsame : (s.inodes i).SameFile inode) (j : InodeId) :
    ((s.putInode i inode fs).inodes j).count = (s.inodes j).count := by
  show ((s.setInode i inode).inodes j).count = _
  by_cases hj : j = i
  · subst hj
    rw [setInode_self, hsame.2.2]
  · rw [setInode_of_ne s inode hj]

theorem within_putInode (hsame : (s.inodes i).SameFile inode) : s.Within (s.putInode i inode fs) := by
  intro j hj
  rw [count_putInode hsame] at hj
  refine ⟨hj, ?_⟩
  show ((s.setInode i inode).inodes j).sb = (s.inodes j).sb ∧
    ((s.setInode i inode).inodes j).number = (s.inodes j).number
  by_cases hji : j = i
  · subst hji
    rw [setInode_self]
    exact ⟨hsame.1, hsame.2.1⟩
  · rw [setInode_of_ne s inode hji]
    exact ⟨rfl, rfl⟩

theorem within_inodeFree (h : s.inodeFree i = .ok (r, s')) : s.Within s' := by
  by_cases hi : (s.inodes i).count = 0
  · rw [Vfs.inodeFree, if_pos hi] at h
    cases h
    exact Vfs.Within.refl s
  · obtain ⟨hcount, hfile, -⟩ := inodeFree_takesRef h hi
    intro j hj
    refine ⟨?_, hfile j hj⟩
    rw [← hcount j]
    exact Nat.ne_of_gt (Nat.add_pos_left (Nat.pos_of_ne_zero hj) _)

/-- A lookup that fails takes no slot unless no mount has the path. -/
theorem within_lookup (hmount : s.HasMount d p)
    (h : s.inodeLookupAndAlloc d p = .ok ((r, none), s')) : s.Within s' := by
  by_cases hfull : s.freeInode = none
  · rw [lookup_of_full hfull] at h
    cases h
    exact Vfs.Within.refl s
  · exact (keepsRefs_lookup h (hmount hfull)).within

/-- A reference that a lookup has taken is given back, with the inode changed in between. -/
theorem within_lookup_inodeFree (h : s.inodeLookupAndAlloc d p = .ok ((r, some i), s₁))
    (hcounts : ∀ j, (s₂.inodes j).count = (s₁.inodes j).count) (hwithin : s₁.Within s₂)
    {r' : Int} (hfree : s₂.inodeFree i = .ok (r', s')) : s.Within s' := by
  have htakes := takesRef_lookup h
  have hi : (s₂.inodes i).count ≠ 0 := by
    rw [hcounts, htakes.count, if_pos rfl]
    exact Nat.succ_ne_zero _
  obtain ⟨hcount, hfile, -⟩ := inodeFree_takesRef hfree hi
  intro j hj
  -- what is in use behind the call was in use before the lookup
  have hsame : (s'.inodes j).count = (s.inodes j).count := by
    have hback := hcount j
    rw [hcounts, htakes.count] at hback
    exact Nat.add_right_cancel hback
  have hj₀ : (s.inodes j).count ≠ 0 := hsame ▸ hj
  have hj₂ : (s₂.inodes j).count ≠ 0 := by
    rw [hcounts, htakes.count]
    exact Nat.ne_of_gt (Nat.add_pos_left (Nat.pos_of_ne_zero hj₀) _)
  obtain ⟨-, hsb₂, hnumber₂⟩ := hwithin j hj₂
  obtain ⟨hsb₁, hnumber₁⟩ := htakes.file j hj₀
  obtain ⟨hsb', hnumber'⟩ := hfile j hj
  exact ⟨hj₀, hsb'.trans (hsb₂.trans hsb₁), hnumber'.trans (hnumber₂.trans hnumber₁)⟩

end Within

/-! ## The calls that take a path -/

section Calls

variable {s s' : Vfs} {d p : CString} {i : InodeId} {r : Int}

theorem within_statSyscall {buf : Option Vfs.VmwosStat} (hmount : s.HasMount d p)
    (h : s.statSyscall d p = .ok ((r, buf), s')) : s.Within s' := by
  rw [Vfs.statSyscall] at h
  split at h
  · cases h
  · rename_i hlookup
    cases h
    exact within_lookup hmount hlookup
  · rename_i hlookup
    obtain ⟨⟨r', s₁⟩, hfree, heq⟩ := map_eq_ok.1 h
    cases heq
    exact within_lookup_inodeFree hlookup (fun _ => rfl) (Vfs.Within.refl _) hfree

theorem within_chmodSyscall {mode : Nat} (hmount : s.HasMount d p)
    (h : s.chmodSyscall d p mode = .ok (r, s')) : s.Within s' := by
  rw [Vfs.chmodSyscall] at h
  split at h
  · cases h
  · rename_i hlookup
    cases h
    exact within_lookup hmount hlookup
  · rename_i hlookup
    dsimp only at h
    split at h
    · cases h
    · rename_i i s₁ hlookup fs hwrite
      obtain ⟨⟨r', s₂⟩, hfree, heq⟩ := map_eq_ok.1 h
      cases heq
      have hsame : (s₁.inodes i).SameFile { s₁.inodes i with
        mode := (s₁.inodes i).mode &&& 0xfffffe00 ||| mode &&& 0x1ff } := ⟨rfl, rfl, rfl⟩
      exact within_lookup_inodeFree hlookup (count_putInode hsame) (within_putInode hsame) hfree

/-- The inode that is truncated keeps its slot. -/
theorem truncateInode_keeps {size : Nat} (h : s.truncateInode i size = .ok (r, s')) :
    (∀ j, (s'.inodes j).count = (s.inodes j).count) ∧ s.Within s' := by
  rw [Vfs.truncateInode] at h
  split at h
  · cases h
  · rename_i result inode fs htruncate
    have hsame := truncateInode_sameFile htruncate
    have hkeeps : (∀ j, ((s.putInode i inode fs).inodes j).count = (s.inodes j).count) ∧
        s.Within (s.putInode i inode fs) := ⟨count_putInode hsame, within_putInode hsame⟩
    split at h
    · obtain ⟨fs', -, heq⟩ := map_eq_ok.1 h
      cases heq
      exact hkeeps
    · cases h
      exact hkeeps

theorem within_truncate64Syscall {size : Nat} (hmount : s.HasMount d p)
    (h : s.truncate64Syscall d p size = .ok (r, s')) : s.Within s' := by
  rw [Vfs.truncate64Syscall] at h
  split at h
  · cases h
  · rename_i hlookup
    cases h
    exact within_lookup hmount hlookup
  · rename_i hlookup
    split at h
    · cases h
    · rename_i htruncate
      obtain ⟨⟨r', s₂⟩, hfree, heq⟩ := map_eq_ok.1 h
      cases heq
      obtain ⟨hcounts, hwithin⟩ := truncateInode_keeps htruncate
      exact within_lookup_inodeFree hlookup hcounts hwithin hfree

theorem within_unlinkSyscall (hmount : s.HasMount d p)
    (h : s.unlinkSyscall d p = .ok (r, s')) : s.Within s' := by
  rw [Vfs.unlinkSyscall] at h
  split at h
  · cases h
  · rename_i hlookup
    cases h
    exact within_lookup hmount hlookup
  · rename_i i s₁ hlookup
    split at h
    · obtain ⟨⟨r', s₂⟩, hfree, heq⟩ := map_eq_ok.1 h
      cases heq
      exact within_lookup_inodeFree hlookup (fun _ => rfl) (Vfs.Within.refl _) hfree
    · split at h
      · cases h
      · rename_i result fs hunlink
        -- only the links may have changed
        have hsame : (s₁.inodes i).SameFile (if result ≥ 0 then
            { s₁.inodes i with hardLinks := (s₁.inodes i).hardLinks - 1 } else s₁.inodes i) := by
          split
          · exact ⟨rfl, rfl, rfl⟩
          · exact ⟨rfl, rfl, rfl⟩
        obtain ⟨⟨r', s₂⟩, hfree, heq⟩ := map_eq_ok.1 h
        cases heq
        exact within_lookup_inodeFree hlookup (count_putInode hsame) (within_putInode hsame) hfree

theorem within_chdirSyscall {path dir : CString}
    (hmount : ∀ q, chdirPath d path = .ok q → s.HasMount d q)
    (h : s.chdirSyscall d path = .ok (r, s', dir)) : s.Within s' := by
  rw [Vfs.chdirSyscall] at h
  split at h
  · cases h
    exact Vfs.Within.refl s
  · split at h
    · cases h
    · rename_i hpath
      split at h
      · cases h
      · rename_i hlookup
        cases h
        exact within_lookup (hmount _ hpath) hlookup
      · rename_i hlookup
        split at h
        · obtain ⟨⟨r', s₂⟩, hfree, heq⟩ := map_eq_ok.1 h
          cases heq
          exact within_lookup_inodeFree hlookup (fun _ => rfl) (Vfs.Within.refl _) hfree
        · obtain ⟨⟨r', s₂⟩, hfree, heq⟩ := map_eq_ok.1 h
          cases heq
          exact within_lookup_inodeFree hlookup (fun _ => rfl) (Vfs.Within.refl _) hfree

end Calls

/-! ## A lookup that takes a slot -/

section Slots

variable {s s' : Vfs} {d p : CString} {i j dir : InodeId} {r : Int} {inode inode' : Inode}
  {fs : FileSystems}

/-- The slot found is the first one. -/
theorem inodeFindExisting_first {sb : Option (Fin maxMounts)} {number : Nat}
    (h : s.inodeFindExisting sb number = some i) (hj : j < i) :
    ¬ ((s.inodes j).sb = sb ∧ (s.inodes j).number = number) := by
  obtain ⟨-, before, behind, hlist, hbefore⟩ := List.find?_eq_some_iff_append.1 h
  have hmem : j ∈ before ++ i :: behind := hlist ▸ List.mem_finRange j
  have hsorted := hlist ▸ List.pairwise_lt_finRange numInodes
  rcases List.mem_append.1 hmem with hmem | hmem
  · simpa only [Bool.not_eq_true', decide_eq_false_iff_not] using hbefore j hmem
  · rcases List.mem_cons.1 hmem with rfl | hmem
    · exact absurd hj (lt_irrefl j)
    · have hlt := (List.pairwise_cons.1 (List.pairwise_append.1 hsorted).2.1).1 j hmem
      exact absurd hj (lt_asymm hlt)

/-- A slot is filled in for a file that has no other inode in use. -/
theorem Vfs.OneInode.setInode (h : s.OneInode)
    (hnew : ∀ j, j ≠ i → (s.inodes j).count ≠ 0 → (s.inodes j).sb = inode.sb →
      (s.inodes j).number ≠ inode.number) : (s.setInode i inode).OneInode := by
  intro a b ha hb hsb hnumber
  by_cases hai : a = i
  · by_cases hbi : b = i
    · rw [hai, hbi]
    · subst hai
      rw [setInode_self, setInode_of_ne s inode hbi] at hsb hnumber
      rw [setInode_of_ne s inode hbi] at hb
      exact absurd hnumber.symm (hnew b hbi hb hsb.symm)
  · by_cases hbi : b = i
    · subst hbi
      rw [setInode_self, setInode_of_ne s inode hai] at hsb hnumber
      rw [setInode_of_ne s inode hai] at ha
      exact absurd hnumber (hnew a hai ha hsb)
    · rw [setInode_of_ne s inode hai, setInode_of_ne s inode hbi] at hsb hnumber
      rw [setInode_of_ne s inode hai] at ha
      rw [setInode_of_ne s inode hbi] at hb
      exact h a b ha hb hsb hnumber

/-- A lookup finds the inode in use if there is one. -/
theorem Vfs.OneInode.lookup (h : s.OneInode) (hslots : s.SlotsInv) (hfirst : s.FindsFirst d p)
    (hlookup : s.inodeLookupAndAlloc d p = .ok ((r, some i), s')) : s'.OneInode := by
  have hleads : s.LeadsTo d p (s'.inodes i).target := ⟨r, i, s', hlookup, rfl⟩
  cases lookedUp hlookup with
  | fresh hfree hresolve hfound hpos hexisting =>
      rename_i k path inode
      rw [setInode_self] at hleads
      refine h.setInode fun j hj hcount hsb hnumber => ?_
      -- one in use would have been found
      have hlt := hfirst i _ hfree hleads j hcount hsb hnumber
      apply inodeFindExisting_first hexisting hlt
      rw [setInode_of_ne s inode hj]
      exact ⟨hsb, hnumber⟩
  | shared hfree hresolve hfound hpos hexisting hi =>
      rename_i temp k path inode
      have hsb : (s.inodes i).sb = some k := by
        have hsame := (inodeFindExisting_eq_some hexisting).1
        rwa [setInode_of_ne s inode hi, (temporary_filledIn hfound).2.1] at hsame
      have hused : (s.inodes i).count ≠ 0 := by
        intro h0
        rw [(hslots.slots i h0).1] at hsb
        cases hsb
      refine h.within fun j hj => ?_
      by_cases hjt : j = temp
      · subst hjt
        rw [setInode_self] at hj
        exact absurd rfl hj
      · rw [setInode_of_ne _ _ hjt] at hj ⊢
        by_cases hji : j = i
        · subst hji
          rw [setInode_self]
          exact ⟨hused, rfl, rfl⟩
        · rw [setInode_of_ne s _ hji] at hj ⊢
          exact ⟨hj, rfl, rfl⟩

end Slots

/-! ## The entry of a new file -/

section Entries

variable {d : Disk} {n t sector t' sector' entry fuel : Nat} {r : Int} {inode inode' : Inode}
  {path : CString}

/-- The entry that is taken holds no file. -/
theorem makeInodeLoop_hidden (ht : t < 256) (hs : sector < 256)
    (h : makeInodeLoop d fuel t sector = .ok (some (t', sector', entry))) :
    Names (inodeNumber t' sector' entry) (16 * t' + sector') entry ∧ entry < dos33CatMaxEntries ∧
      entryHidden (d (16 * t' + sector') (catOffset entry dos33CatOffsetFirstT)) = true := by
  induction fuel generalizing t sector with
  | zero => cases h
  | succ fuel ih =>
      rw [makeInodeLoop, ts_eq, readBlock_mul] at h
      dsimp only at h
      split at h
      · rename_i i hfind
        cases h
        obtain ⟨hi, hunused⟩ := findFreeEntry_eq_some hfind
        rw [Nat.zero_add] at hi
        refine ⟨names_inodeNumber ht hs (Nat.lt_trans hi (by decide)), hi, ?_⟩
        by_contra hvisible
        rw [entryHidden] at hvisible
        refine hunused ⟨fun h0 => hvisible ?_, fun hff => hvisible ?_⟩
        · rw [show d _ (catOffset entry dos33CatOffsetFirstT) = 0 from h0]
          rfl
        · rw [show d _ (catOffset entry dos33CatOffsetFirstT) = 0xff from hff]
          rfl
      · split at h
        · cases h
        · exact ih (UInt8.toNat_lt _) (UInt8.toNat_lt _) h

/-- A lookup from a root ends there or at a file. -/
theorem dos33fsLookupInode_reaches (h : dos33fsLookupInode d inode path = .ok (r, inode')) :
    inode'.number = inode.number ∨ NamesLive d inode'.number := by
  rw [dos33fsLookupInode] at h
  split at h
  · have hnumber := dos33ReadInode_number d inode
    rw [Except.ok.inj h] at hnumber
    exact Or.inl hnumber
  · split at h
    · cases h
    · rename_i result n hcomponents
      have hreaches := lookupComponents_reaches hcomponents
      split at h
      · cases h
        exact hreaches
      · have hnumber := dos33ReadInode_number d { inode with number := n }
        rw [Except.ok.inj h] at hnumber
        rw [hnumber]
        exact hreaches

/-- So the entry is not that of the directory. -/
theorem number_ne_of_hidden (hroot : inodeEntry inode.number = 0xff)
    (hlookup : dos33fsLookupInode d inode path = .ok (r, inode')) (ht : t < 256) (hs : sector < 256)
    (h : makeInodeLoop d fuel t sector = .ok (some (t', sector', entry))) :
    inode'.number ≠ inodeNumber t' sector' entry := by
  obtain ⟨hnames, hentry, hhidden⟩ := makeInodeLoop_hidden ht hs h
  intro heq
  rcases dos33fsLookupInode_reaches hlookup with hsame | ⟨c, e, hlive, he, hvisible⟩
  · rw [← hsame, heq, hnames.entry] at hroot
    rw [hroot] at hentry
    exact absurd hentry (by decide)
  · rw [heq] at hlive
    obtain ⟨rfl, rfl⟩ := Prod.mk.inj (hlive.unique hnames)
    rw [hhidden] at hvisible
    cases hvisible

end Entries

/-! ## Creating -/

section Creating

variable {s s₁ s' : Vfs} {d p : CString} {i dir temp : InodeId} {r : Int} {inode inode' : Inode}
  {fs : FileSystems} {found : Int × Option InodeId} {k : Fin maxMounts}
  {block : Fin blockDevMax} {vtoc t sector entry : Nat}

/-- A new inode is that of the entry. -/
theorem makeInode_names {s : FileSystems} {dirInode : Inode}
    (hdriver : s.driver dirInode.sb = .ok (k, .dos33fs block vtoc))
    (hloop : makeInodeLoop (s.disk block) chainRounds (inodeTrack dirInode.number)
      (inodeSector dirInode.number) = .ok (some (t, sector, entry)))
    (h : s.makeInode dirInode inode = .ok (r, inode', fs)) :
    inode'.sb = dirInode.sb ∧ inode'.number = inodeNumber t sector entry := by
  have hloop' : makeInodeLoop (s.volume k block vtoc).disk chainRounds
      (inodeTrack dirInode.number) (inodeSector dirInode.number) =
        .ok (some (t, sector, entry)) := hloop
  rw [FileSystems.makeInode, hdriver] at h
  dsimp only at h
  split at h
  · cases h
  · rename_i hok
    cases h
    simp only [dos33fsMakeInode, hloop'] at hok
    split at hok
    · cases hok
    · split at hok
      · cases hok
      · cases hok
        exact ⟨(dos33ReadInode_filledIn _ _).sb, dos33ReadInode_number _ _⟩

theorem dos33fsLinkInode_sameFile (v : Dos33Volume) (inode : Inode) (name : CString) :
    inode.SameFile (dos33fsLinkInode v inode name).2.2 := by
  rw [dos33fsLinkInode]
  split
  · exact ⟨rfl, rfl, rfl⟩
  · exact ⟨rfl, rfl, rfl⟩

theorem linkInode_sameFile {s : FileSystems} {sb : Option (Fin maxMounts)} {name : CString}
    (h : s.linkInode sb inode name = .ok (r, inode', fs)) : inode.SameFile inode' := by
  rw [FileSystems.linkInode] at h
  split at h
  · cases h
  · cases h
    exact ⟨rfl, rfl, rfl⟩
  · cases h
    apply dos33fsLinkInode_sameFile

/-- A file is made in a directory that has an entry for it. -/
theorem Vfs.OneInode.createIn {name : Option CString} (h : s.OneInode)
    (hentry : s.HasUnusedEntry (s.inodes dir).target) (hdir : (s.inodes dir).count ≠ 0)
    (hok : s.createIn dir name = .ok (found, s')) : s'.OneInode := by
  rw [Vfs.createIn, inodeAllocate_eq] at hok
  cases hfree : s.freeInode with
  | none =>
      rw [hfree] at hok
      cases hok
      exact h
  | some i =>
      have hne : dir ≠ i := by
        rintro rfl
        exact hdir (count_of_freeInode hfree)
      obtain ⟨k, block, vtoc, t, sector, entry, hdriver, hloop, hunused⟩ := hentry
      simp only [hfree, Option.map_some, setInode_of_ne s _ hne] at hok
      split at hok
      · cases hok
      · rename_i result inode fs hmake
        have hnames := makeInode_names (s := s.toFileSystems) hdriver hloop hmake
        have hslot : (s.setInode i { s.inodes i with count := 1 }).putInode i inode fs =
            s.putInode i inode fs := by
          simp [Vfs.putInode, Vfs.setInode]
        have hset : (s.setInode i inode).OneInode := by
          refine h.setInode fun j hj hcount hsb hnumber => ?_
          exact hunused j hcount (hsb.trans hnames.1) (hnumber.trans hnames.2)
        have hmade : (s.putInode i inode fs).OneInode := hset
        rw [hslot] at hok
        split at hok
        · cases hok
          exact hmade
        · split at hok
          · cases hok
          · rw [Vfs.linkNew] at hok
            split at hok
            · cases hok
            · rename_i result' inode' fs' hlink
              have hlinked : ((s.putInode i inode fs).putInode i inode' fs').OneInode :=
                hmade.within (within_putInode (linkInode_sameFile hlink))
              split at hok
              · cases hok
                exact hlinked
              · obtain ⟨⟨r', s₂⟩, hback, heq⟩ := map_eq_ok.1 hok
                cases heq
                exact hlinked.within (within_inodeFree hback)

/-- The directory that a lookup has found is not what the free entry names. -/
theorem directory_number_ne (hslots : s.SlotsInv)
    (hlookup : s.inodeLookupAndAlloc d p = .ok ((r, some dir), s'))
    (hdriver : s.driver (s'.inodes dir).sb = .ok (k, .dos33fs block vtoc))
    (hloop : makeInodeLoop (s.disk block) chainRounds (inodeTrack (s'.inodes dir).number)
      (inodeSector (s'.inodes dir).number) = .ok (some (t, sector, entry))) :
    (s'.inodes dir).number ≠ inodeNumber t sector entry := by
  obtain ⟨temp, inode, -, hreaches, htarget, -⟩ := Vfs.Reaches.of_lookup hlookup
  obtain ⟨k', path, -, hfound⟩ := hreaches.filled
  obtain ⟨hsb, hnumber⟩ := inodeFindExisting_eq_some hreaches.existing
  -- what has been found has the superblock and the number that were looked for
  have hsb' : (s'.inodes dir).sb = some k' := by
    rw [show (s'.inodes dir).sb = _ from congrArg Target.sb htarget]
    exact hsb.trans (temporary_filledIn hfound).2.1
  have hnumber' : (s'.inodes dir).number = inode.number := by
    rw [show (s'.inodes dir).number = _ from congrArg Target.number htarget]
    exact hnumber
  rw [hsb'] at hdriver
  obtain ⟨rfl, hops⟩ := FileSystems.driver_dos33fs hdriver
  have hdos : dos33fsLookupInode (s.disk block) (s.temporary temp k) path = .ok (r, inode) := by
    rw [FileSystems.lookupInode] at hfound
    rwa [show (s.temporary temp k).sb = some k from rfl, hdriver] at hfound
  rw [hnumber']
  exact number_ne_of_hidden (hslots.roots k hops) hdos (inodeTrack_lt _) (inodeSector_lt _) hloop

theorem inodes_cleared_of_ne {j : InodeId} (hfree : s.freeInode = some temp)
    (hj : ((s.setInode temp Inode.cleared).inodes j).count ≠ 0) :
    (s.setInode temp Inode.cleared).inodes j = s.inodes j := by
  apply setInode_of_ne
  rintro rfl
  rw [setInode_self] at hj
  exact hj rfl

/-- A slot that is cleared does not change what is found first. -/
theorem Vfs.FindsFirst.cleared (h : s.FindsFirst d p) (hfree : s.freeInode = some temp) :
    (s.setInode temp Inode.cleared).FindsFirst d p := by
  intro temp' x htemp hleads j hj hsb hnumber
  rw [freeInode_setInode hfree rfl] at htemp
  cases htemp
  have hsame := inodes_cleared_of_ne hfree hj
  rw [hsame] at hj hsb hnumber
  exact h temp x hfree ((leadsTo_cleared_iff hfree).1 hleads) j hj hsb hnumber

/-- The directory has been looked up in the slot that was cleared, and has taken a reference. -/
theorem hasUnusedEntry_of_lookup (hslots : s.SlotsInv)
    (hlookup : s.inodeLookupAndAlloc d p = .ok ((r, some dir), s'))
    (h : s.HasUnusedEntry (s'.inodes dir).target) :
    s'.HasUnusedEntry (s'.inodes dir).target := by
  obtain ⟨k, block, vtoc, t, sector, entry, hdriver, hloop, hunused⟩ := h
  have hfs := (inodeLookupAndAlloc_found hlookup).fileSystems
  have htakes := takesRef_lookup hlookup
  refine ⟨k, block, vtoc, t, sector, entry, ?_, ?_, fun j hj hsb => ?_⟩
  · rw [hfs]
    exact hdriver
  · rw [show s'.disk = s.disk from congrArg FileSystems.disk hfs]
    exact hloop
  · by_cases hjd : j = dir
    · rw [hjd]
      exact directory_number_ne hslots hlookup hdriver hloop
    · have hj₀ : (s.inodes j).count ≠ 0 := by
        rwa [htakes.count, if_neg hjd, Nat.add_zero] at hj
      obtain ⟨hsb₀, hnumber₀⟩ := htakes.file j hj₀
      rw [hnumber₀]
      exact hunused j hj₀ (hsb₀.symm.trans hsb)

/-- Behind a lookup that has failed the file is created with a new inode. -/
theorem Vfs.OneInode.createFileObject (h : s.OneInode) (hslots : s.SlotsInv)
    (hmount : s.HasMount d p) (hcreates : s.CreatesNew d p)
    (hmissing : s.inodeLookupAndAlloc d p = .ok ((r, none), s₁))
    (hok : s₁.createFileObject d p = .ok (found, s')) : s'.OneInode := by
  have hone₁ := h.within (within_lookup hmount hmissing)
  have hslots₁ := hslots.lookup hmissing
  rw [Vfs.createFileObject] at hok
  split at hok
  · cases hok
  · rename_i full hfull
    rcases lookup_fails hslots hmissing with ⟨hnone, rfl⟩ | ⟨temp, hfree, hcases⟩
    · rw [lookup_of_full hnone] at hok
      cases hok
      exact h
    · have hsome : s.freeInode ≠ none := by
        rw [hfree]
        exact Option.some_ne_none temp
      obtain ⟨hharmless, hpath⟩ := hcreates hsome (leadsNowhere_of_lookup hmissing)
      obtain ⟨hdirmount, hdirfirst, hentry⟩ := hpath full hfull
      rcases hcases with ⟨hresolve, -⟩ | ⟨-, rfl⟩ | ⟨hharmful, -⟩
      · exact absurd hresolve (hmount hsome)
      · split at hok
        · cases hok
        · rename_i hdir
          cases hok
          exact hone₁.within (within_lookup (fun _ => hdirmount) hdir)
        · rename_i result dir s₂ hdir
          have hone₂ := hone₁.lookup hslots₁ (hdirfirst.cleared hfree) hdir
          -- an entry that was not used is not used now either
          have hleads := (leadsTo_cleared_iff hfree).1 ⟨result, dir, s₂, hdir, rfl⟩
          obtain ⟨k, block, vtoc, t, sector, entry, hdriver, hloop, hunused⟩ := hentry _ hleads
          refine hone₂.createIn (hasUnusedEntry_of_lookup hslots₁ hdir ⟨k, block, vtoc, t, sector,
            entry, hdriver, hloop, fun j hj => ?_⟩) ?_ hok
          · have hsame := inodes_cleared_of_ne hfree hj
            rw [hsame] at hj ⊢
            exact hunused j hj
          · rw [(takesRef_lookup hdir).count, if_pos rfl]
            exact Nat.succ_ne_zero _
      · exact absurd hharmless hharmful

end Creating

/-! ## Opening and closing -/

section Opening

variable {s s' : FileTables} {files files' : FdTable} {d p : CString} {i : InodeId} {f : FileId}
  {flags : Nat} {r : Int}

/-- A file object is taken for the inode, which may be truncated. -/
theorem within_openInode {found : Except Int FileId} (h : s.openInode i flags = .ok (found, s')) :
    s.Within s'.toVfs := by
  rw [FileTables.openInode, FileTables.fileObjectAllocate] at h
  split at h
  · cases h
    exact Vfs.Within.refl _
  · rename_i f s₁ halloc
    obtain ⟨f', -, heq⟩ := Option.map_eq_some_iff.1 halloc
    cases heq
    split at h
    · cases h
    · dsimp only at h
      split at h
      · cases h
      · rename_i s₂ htruncate
        cases h
        rw [FileTables.truncateOpened] at htruncate
        split at htruncate
        · cases htruncate
          exact Vfs.Within.refl _
        · split at htruncate
          · cases htruncate
          · rename_i hok
            cases htruncate
            exact within_putInode (truncateInode_sameFile hok)

theorem oneInode_openSyscall (h : s.OneInode) (hslots : s.SlotsInv) (hopens : s.OpensOne d p flags)
    (hok : s.openSyscall files d p flags = .ok (r, s', files')) : s'.OneInode := by
  obtain ⟨hmount, hfirst, hcreates⟩ := hopens
  have hobject : ∀ {found : Except Int FileId} {t : FileTables},
      s.openFileObject d p flags = .ok (found, t) → t.OneInode := by
    intro found t hopen
    rw [FileTables.openFileObject] at hopen
    split at hopen
    · cases hopen
    · rename_i hlookup
      exact (h.lookup hslots hfirst hlookup).within (within_openInode hopen)
    · rename_i hlookup
      split at hopen
      · cases hopen
        exact h.within (within_lookup hmount hlookup)
      · rename_i hcreat
        split at hopen
        · cases hopen
        · rename_i hcreated
          have hone := h.createFileObject hslots hmount (hcreates hcreat) hlookup hcreated
          exact hone.within (within_openInode hopen)
        · rename_i hcreated
          cases hopen
          exact h.createFileObject hslots hmount (hcreates hcreat) hlookup hcreated
  rw [FileTables.openSyscall] at hok
  split at hok
  · cases hok
    exact h
  · split at hok
    · cases hok
    · rename_i hopen
      cases hok
      exact hobject hopen
    · rename_i hopen
      cases hok
      exact hobject hopen

theorem within_closeSyscall {fd : Int} (h : s.closeSyscall files fd = .ok (r, s', files')) :
    s.Within s'.toVfs := by
  rw [FileTables.closeSyscall] at h
  split at h
  · obtain ⟨t, hfree, heq⟩ := map_eq_ok.1 h
    cases heq
    rw [FileTables.fileObjectFree] at hfree
    split at hfree
    · cases hfree
      exact Vfs.Within.refl _
    · obtain ⟨q, hinode, rfl⟩ := map_eq_ok.1 hfree
      exact within_inodeFree hinode
  · cases h
  · cases h
    exact Vfs.Within.refl _

/-- An inode of the console has its own number. -/
theorem fileSpecial_oneInode {which : FileId} (h : s.OneInode)
    (hbelow : ∀ j, (s.inodes j).count ≠ 0 → (s.inodes j).number < which)
    (hok : s.fileSpecial which = .ok s') :
    s'.OneInode ∧ ∀ j, (s'.inodes j).count ≠ 0 → (s'.inodes j).number ≤ which := by
  rw [FileTables.fileSpecial, inodeAllocate_eq] at hok
  cases hfree : s.freeInode with
  | none =>
      rw [hfree] at hok
      cases hok
  | some i =>
      simp only [hfree, Option.map_some, setInode_setInode, Except.ok.injEq] at hok
      subst hok
      constructor
      · exact h.setInode fun j _ hcount _ => Nat.ne_of_lt (hbelow j hcount)
      · intro j hj
        have hset : (((s.setInode i _).inodes j).count ≠ 0) := hj
        show ((s.setInode i _).inodes j).number ≤ which
        by_cases hji : j = i
        · subst hji
          rw [setInode_self]
        · rw [setInode_of_ne s.toVfs _ hji] at hset ⊢
          exact Nat.le_of_lt (hbelow j hset)

theorem oneInode_start (h : ∀ j, (s.inodes j).count = 0) (hok : s.start = .ok s') :
    s'.OneInode := by
  have hnone : s.OneInode := fun a _ ha => absurd (h a) ha
  rw [FileTables.start] at hok
  split at hok
  · cases hok
  · rename_i s₁ h₀
    obtain ⟨hone₁, hle₁⟩ := fileSpecial_oneInode hnone (fun j hj => absurd (h j) hj) h₀
    split at hok
    · cases hok
    · rename_i s₂ h₁
      have hlt₁ (j : InodeId) (hj : (s₁.inodes j).count ≠ 0) : (s₁.inodes j).number < 1 :=
        Nat.lt_succ_of_le (hle₁ j hj)
      obtain ⟨hone₂, hle₂⟩ := fileSpecial_oneInode hone₁ hlt₁ h₁
      have hlt₂ (j : InodeId) (hj : (s₂.inodes j).count ≠ 0) : (s₂.inodes j).number < 2 :=
        Nat.lt_succ_of_le (hle₂ j hj)
      exact (fileSpecial_oneInode hone₂ hlt₂ hok).1

end Opening

/-! ## In every run -/

namespace FileUse

variable {δ : Type} {dev : Devices δ} {s s' s₀ : FileUse δ}

/-- The calls that the table of the inodes keeps to one inode for a file: those that take a path
have a mount for it, `open` finds the inode of its file or makes a new one, and `close`. -/
def KeepsOneInode (s : FileUse δ) : FsOp → Prop
  | .mount _ => True
  | .stat p pathname | .chmod p pathname _ | .truncate64 p pathname _ | .unlink p pathname =>
      s.openFiles.HasMount (s.currentDir p) pathname
  | .chdir p path =>
      ∀ newPath, chdirPath (s.currentDir p) path = .ok newPath →
        s.openFiles.HasMount (s.currentDir p) newPath
  | .descriptors p (.openFile pathname flags) =>
      s.openFiles.OpensOne (s.currentDir p) pathname flags
  | .descriptors _ (.io _ .close) => True
  | .descriptors _ _ => False

/-- One call. -/
theorem oneInode_fsStep {op : FsOp} {reply : IoReply} (h : s.openFiles.OneInode)
    (hslots : s.openFiles.SlotsInv) (hkeeps : s.KeepsOneInode op)
    (hok : fsStep dev s op = .ok (reply, s')) : s'.openFiles.OneInode := by
  cases op with
  | mount call =>
      obtain ⟨⟨result, fs⟩, -, heq⟩ := map_eq_ok.1 hok
      cases heq
      exact h
  | stat p pathname =>
      obtain ⟨⟨⟨result, buf⟩, vfs⟩, hstat, heq⟩ := map_eq_ok.1 hok
      cases heq
      exact h.within (within_statSyscall hkeeps hstat)
  | chmod p pathname mode =>
      obtain ⟨⟨result, vfs⟩, hchmod, heq⟩ := map_eq_ok.1 hok
      cases heq
      exact h.within (within_chmodSyscall hkeeps hchmod)
  | truncate64 p pathname size =>
      obtain ⟨⟨result, vfs⟩, hcut, heq⟩ := map_eq_ok.1 hok
      cases heq
      exact h.within (within_truncate64Syscall hkeeps hcut)
  | unlink p pathname =>
      obtain ⟨⟨result, vfs⟩, hunlink, heq⟩ := map_eq_ok.1 hok
      cases heq
      exact h.within (within_unlinkSyscall hkeeps hunlink)
  | chdir p path =>
      obtain ⟨⟨result, vfs, dir⟩, hchdir, heq⟩ := map_eq_ok.1 hok
      cases heq
      exact h.within (within_chdirSyscall hkeeps hchdir)
  | descriptors p op =>
      cases op with
      | openFile pathname flags =>
          obtain ⟨⟨result, tables, files⟩, hopen, heq⟩ := map_eq_ok.1 hok
          cases heq
          exact oneInode_openSyscall h hslots hkeeps hopen
      | io fd call =>
          cases call with
          | close =>
              obtain ⟨⟨⟨reply', files⟩, openFiles⟩, hio, heq⟩ := map_eq_ok.1 hok
              cases heq
              obtain ⟨⟨result, tables, files'⟩, hclose, heq⟩ := map_eq_ok.1 hio
              cases heq
              exact h.within (within_closeSyscall hclose)
          | _ => exact hkeeps.elim
      | _ => exact hkeeps.elim

/-- The inode that a descriptor is open on. -/
def inodeOf (s : FileUse δ) (p : ProcId) (fd : Fin maxFdPerProc) : Option InodeId :=
  (s.files p fd).bind fun f => (s.openFiles.fileObjects f).inode

/-- In a run of such calls every file has one inode in every state reached, and descriptors that are
open on the same file share it. -/
theorem run_oneInode {stack text : Nat} {image : Image} {blockDevs : Fin blockDevMax → BlockDev}
    {disk : Nat → Disk} {chars : δ} {ops : List FsOp} {replies : List IoReply}
    (hstart : start stack text image (FileSystems.boot blockDevs disk) chars = .ok s₀)
    (hkeeps : Along (fsStep dev) KeepsOneInode s₀ ops)
    (hrun : run (fsStep dev) s₀ ops = .ok (replies, s)) :
    s.openFiles.OneInode ∧ ∀ p q fd fd' i j, s.inodeOf p fd = some i → s.inodeOf q fd' = some j →
      (s.openFiles.inodes i).count ≠ 0 → (s.openFiles.inodes j).count ≠ 0 →
        (s.openFiles.inodes i).sb = (s.openFiles.inodes j).sb →
          (s.openFiles.inodes i).number = (s.openFiles.inodes j).number → i = j := by
  have hinv := run_preserves (fun s : FileUse δ => s.openFiles.OneInode ∧ s.openFiles.SlotsInv)
    (fun s op r s' h hkeeps hok =>
      ⟨oneInode_fsStep h.1 h.2 hkeeps hok, slotsInv_fsStep h.2 hok⟩)
    ⟨?_, slotsInv_start hstart⟩ hkeeps hrun
  · exact ⟨hinv.1, fun _ _ _ _ i j _ _ => hinv.1 i j⟩
  · obtain ⟨tables, htables, heq⟩ := map_eq_ok.1 hstart
    cases heq
    exact oneInode_start (fun _ => rfl) htables

/-- The file `A` is opened, by init. -/
def openA : FsOp := .descriptors 1 (.openFile [0x41] 0)

theorem eq_ok_of_toOption {ε α : Type} {x : Except ε α} {a : α} (h : x.toOption = some a) :
    x = .ok a := by
  cases x with
  | error e => cases h
  | ok b => rw [Option.some.inj h]

/-- The first slots are those of the console, and the fourth is for the file. -/
theorem run_oneInode_open : ∃ s₀ replies s, start 0 0 noImage oneFileSystems () = .ok s₀ ∧
    Along (fsStep noDevices) KeepsOneInode s₀ [mountOneFile, openA] ∧
      run (fsStep noDevices) s₀ [mountOneFile, openA] = .ok (replies, s) ∧ s.openFiles.OneInode := by
  have h : ((start 0 0 noImage oneFileSystems ()).toOption.any fun s₀ =>
      (fsStep noDevices s₀ mountOneFile).toOption.any fun q =>
        decide (q.2.openFiles.freeInode = some 3 ∧
          (∀ j, (q.2.openFiles.inodes j).count ≠ 0 → j < 3) ∧
          (q.2.openFiles.resolve (q.2.currentDir 1) [0x41]).toOption.any Option.isNone = false) &&
        (run (fsStep noDevices) s₀ [mountOneFile, openA]).toOption.isSome) = true := by
    decide
  obtain ⟨s₀, hstart, h⟩ := (Option.any_eq_true _ _).1 h
  obtain ⟨⟨reply, s₁⟩, hmount, h⟩ := (Option.any_eq_true _ _).1 h
  obtain ⟨hslots, hrun⟩ := Bool.and_eq_true_iff.1 h
  obtain ⟨hfree, hused, hresolve⟩ := of_decide_eq_true hslots
  obtain ⟨⟨replies, s⟩, hrun⟩ := Option.isSome_iff_exists.1 hrun
  have hstart := eq_ok_of_toOption hstart
  have hmount := eq_ok_of_toOption hmount
  have hrun := eq_ok_of_toOption hrun
  have hopens : s₁.openFiles.OpensOne (s₁.currentDir 1) [0x41] 0 := by
    refine ⟨fun _ hnone => ?_, fun temp x htemp _ j hj _ _ => ?_, fun hcreat => ?_⟩
    · rw [hnone] at hresolve
      cases hresolve
    · rw [hfree] at htemp
      cases htemp
      exact hused j hj
    · exact absurd rfl hcreat
  have hkeeps : Along (fsStep noDevices) KeepsOneInode s₀ [mountOneFile, openA] := by
    refine ⟨trivial, fun r s' hstep => ⟨?_, fun _ _ _ => trivial⟩⟩
    rw [hmount] at hstep
    cases hstep
    exact hopens
  exact ⟨s₀, replies, s, hstart, hkeeps, hrun, (run_oneInode hstart hkeeps hrun).1⟩

/-- With the standard input closed in between, the file that is opened twice has two inodes. -/
theorem not_run_oneInode : ∃ s₀ replies s, start 0 0 noImage oneFileSystems () = .ok s₀ ∧
    run (fsStep noDevices) s₀ [mountOneFile, openA, .descriptors 1 (.io 0 .close), openA] =
      .ok (replies, s) ∧ ¬ s.openFiles.OneInode := by
  have h : ((start 0 0 noImage oneFileSystems ()).toOption.any fun s₀ =>
      (run (fsStep noDevices) s₀
        [mountOneFile, openA, .descriptors 1 (.io 0 .close), openA]).toOption.any fun q =>
          decide ((q.2.openFiles.inodes 0).count ≠ 0 ∧ (q.2.openFiles.inodes 3).count ≠ 0 ∧
            (q.2.openFiles.inodes 0).sb = (q.2.openFiles.inodes 3).sb ∧
            (q.2.openFiles.inodes 0).number = (q.2.openFiles.inodes 3).number)) = true := by
    decide
  obtain ⟨s₀, hstart, h⟩ := (Option.any_eq_true _ _).1 h
  obtain ⟨⟨replies, s⟩, hrun, h⟩ := (Option.any_eq_true _ _).1 h
  obtain ⟨h0, h3, hsb, hnumber⟩ := of_decide_eq_true h
  refine ⟨s₀, replies, s, eq_ok_of_toOption hstart, eq_ok_of_toOption hrun, fun hone => ?_⟩
  exact absurd (hone 0 3 h0 h3 hsb hnumber) (by decide)

end FileUse

end Vmwos
