import Vmwos.Fs.Inodes

/-!
# Relative paths

`inode_lookup_and_alloc` puts the current directory, a slash and a relative path together, and at
the root that gives two slashes. Mount points are compared with the text of the path, so one that
the path leads to is not found then. Everywhere else a relative path is looked up as the absolute
one would be (`relativeAgrees_iff`).
-/

set_option autoImplicit false

namespace Vmwos

open Library

/-- What `inode_lookup_and_alloc` hands to the file system: the path past the mount point and the
slashes behind it. -/
def pathWithin (mountpoint fullPath : CString) : CString :=
  (fullPath.drop mountpoint.length).dropWhile (· = 0x2f)

/-- The mount that a path selects and the path inside it, or none without a mount for it. -/
def FileSystems.resolve (s : FileSystems) (currentDir pathname : CString) :
    Except Stuck (Option (Fin maxMounts × CString)) :=
  (Vfs.expandPath currentDir pathname).map fun fullPath =>
    (superblockLookup s.superblockTable fullPath).map fun k =>
      (k, pathWithin (s.superblockTable k).mountpoint fullPath)

/-- The rest of `inode_lookup_and_alloc`, from the root directory of a mount. -/
def Vfs.lookupFrom (s : Vfs) (temp : InodeId) (k : Fin maxMounts) (path : CString) :
    Except Stuck ((Int × Option InodeId) × Vfs) :=
  match s.lookupInode { s.inodes temp with
      number := (s.superblockTable k).rootDir, sb := some k } path with
  | .error e => .error e
  | .ok (result, inode) =>
      let s := s.setInode temp inode
      if result < 0 then
        (s.inodeFree temp).map fun (_, s) => ((-enoent, none), s)
      else
        match s.inodeFindExisting inode.sb inode.number with
        | none => .ok ((result, some temp), s)
        | some i =>
            let s := s.setInode i { s.inodes i with count := (s.inodes i).count + 1 }
            (s.inodeFree temp).map fun (_, s) => ((result, some i), s)

/-- A current directory: absolute, and without a slash at its end unless it is the root. -/
def IsCurrentDir (d : CString) : Prop :=
  d.head? = some 0x2f ∧ (d = [0x2f] ∨ d.getLast? ≠ some 0x2f)

/-- A directory and a path with one slash between them. -/
def joinDir (d r : CString) : CString := if d = [0x2f] then 0x2f :: r else d ++ 0x2f :: r

/-- The relative path is looked up as the absolute one: in the same mount, by the same path, and
with the same outcome. -/
def RelativeAgrees (s : Vfs) (d r : CString) : Prop :=
  s.resolve d r = s.resolve d (joinDir d r) ∧
    s.inodeLookupAndAlloc d r = s.inodeLookupAndAlloc d (joinDir d r)

section Resolve

variable {s : Vfs} {d r p d' p' : CString} {table : SuperblockTable} {k : Fin maxMounts}

/-- The table of the inodes is the same in both parts. -/
theorem inodeLookupAndAlloc_eq : s.inodeLookupAndAlloc d p =
    match s.inodeAllocate with
    | none => .ok ((-enomem, none), s)
    | some (temp, s₁) =>
        match s.resolve d p with
        | .error e => .error e
        | .ok none => .ok ((-enoent, none), s₁)
        | .ok (some (k, path)) => s₁.lookupFrom temp k path := by
  rw [Vfs.inodeLookupAndAlloc]
  cases halloc : s.inodeAllocate with
  | none => rfl
  | some q =>
      obtain ⟨temp, s₁⟩ := q
      obtain ⟨-, rfl⟩ := inodeAllocate_eq_some halloc
      have htable : (s.setInode temp { s.inodes temp with count := 1 }).superblockTable =
        s.superblockTable := rfl
      simp only [FileSystems.resolve]
      cases Vfs.expandPath d p with
      | error e => rfl
      | ok fullPath =>
          simp only [Except.map]
          cases hk : superblockLookup s.superblockTable fullPath with
          | none => simp only [htable, hk, Option.map]
          | some k =>
              simp only [htable, hk, Option.map]
              rfl

/-- The outcome depends on the mount and the path inside it alone. -/
theorem inodeLookupAndAlloc_congr (h : s.resolve d p = s.resolve d' p') :
    s.inodeLookupAndAlloc d p = s.inodeLookupAndAlloc d' p' := by
  rw [inodeLookupAndAlloc_eq, inodeLookupAndAlloc_eq, h]

theorem relativeAgrees_iff_resolve :
    RelativeAgrees s d r ↔ s.resolve d r = s.resolve d (joinDir d r) :=
  ⟨fun h => h.1, fun h => ⟨h, inodeLookupAndAlloc_congr h⟩⟩

/-- A path that fits is not cut off. -/
theorem expandPath_absolute {rest : CString} (h : (0x2f :: rest).length < maxPathLen) :
    Vfs.expandPath d (0x2f :: rest) = .ok (0x2f :: rest) := by
  have hhead : (0x2f :: rest : CString).head? = some 0x2f := rfl
  rw [Vfs.expandPath, if_pos hhead, if_neg (Nat.not_le.2 h)]

theorem expandPath_relative (hr : r.head? ≠ some 0x2f) (hd : d.length < maxPathLen) :
    Vfs.expandPath d r = .ok ((d ++ 0x2f :: r).take (maxPathLen - 1)) := by
  rw [Vfs.expandPath, if_neg hr, if_neg (Nat.not_le.2 hd)]

/-- The mount point that is selected starts the path, or is the root. -/
theorem mountpoint_of_superblockLookup (hnul : ∀ i, 0 ∉ (table i).mountpoint) (hp : 0 ∉ p)
    (h : superblockLookup table p = some k) :
    (table k).mountpoint <+: p ∨ (table k).mountpoint <+: [0x2f] := by
  have hroot : (0 : UInt8) ∉ ([0x2f] : CString) := by decide
  rw [superblockLookup] at h
  split at h
  · rename_i i hi
    cases h
    have hcond := List.find?_some hi
    simp only [decide_eq_true_eq] at hcond
    exact Or.inl ((strncmp_length_eq_zero_iff (hnul k) hp).1 hcond.2.2)
  · have hcond := List.find?_some h
    simp only [decide_eq_true_eq] at hcond
    right
    have hle := hcond.2
    rw [strncmp_eq_zero_iff hroot (hnul k), List.take_length] at hle
    rw [← hle]
    exact List.take_prefix _ _

/-- Below a directory other than the root the two strings are the same. -/
theorem resolve_joinDir (hd : IsCurrentDir d) (hne : d ≠ [0x2f]) (hr : r.head? ≠ some 0x2f)
    (hfit : (joinDir d r).length < maxPathLen) : s.resolve d r = s.resolve d (joinDir d r) := by
  obtain ⟨rest, rfl⟩ : ∃ rest, d = 0x2f :: rest := by
    cases d with
    | nil => cases hd.1
    | cons c rest => exact ⟨rest, by rw [Option.some.inj hd.1]⟩
  rw [joinDir, if_neg hne] at hfit ⊢
  have hlt : (0x2f :: rest : CString).length < maxPathLen := by
    rw [List.length_append] at hfit
    exact Nat.lt_of_le_of_lt (Nat.le_add_right _ _) hfit
  have htake : ((0x2f :: rest) ++ 0x2f :: r).take (maxPathLen - 1) = (0x2f :: rest) ++ 0x2f :: r :=
    List.take_of_length_le (Nat.le_sub_one_of_lt hfit)
  rw [FileSystems.resolve, FileSystems.resolve, expandPath_relative hr hlt, htake]
  rw [List.cons_append] at hfit ⊢
  rw [expandPath_absolute hfit]

/-- A path without a slash in front is left when slashes are skipped. -/
theorem dropWhile_slash (hr : r.head? ≠ some 0x2f) : r.dropWhile (· = 0x2f) = r := by
  cases r with
  | nil => rfl
  | cons c r =>
      have hc : c ≠ 0x2f := fun h => hr (by rw [h]; rfl)
      simp [hc]

/-- Past a mount point that starts with one slash and does not go on with a second. -/
theorem pathWithin_root {mountpoint : CString} (hr : r.head? ≠ some 0x2f)
    (hm : mountpoint <+: [0x2f]) :
    pathWithin mountpoint (0x2f :: r) = r ∧ pathWithin mountpoint (0x2f :: 0x2f :: r) = r := by
  have hskip : (0x2f :: r).dropWhile (· = 0x2f) = r := by
    rw [List.dropWhile_cons_of_pos (by simp), dropWhile_slash hr]
  rcases List.prefix_cons_iff.1 hm with rfl | ⟨m, rfl, hm'⟩
  · refine ⟨hskip, ?_⟩
    rw [pathWithin, List.length_nil, List.drop_zero, List.dropWhile_cons_of_pos (by simp), hskip]
  · rw [List.prefix_nil.1 hm']
    exact ⟨dropWhile_slash hr, hskip⟩

/-- A mount point that starts both strings is the root. -/
theorem root_of_both_starts {mountpoint r' : CString} (hr : r.head? ≠ some 0x2f)
    (h₁ : mountpoint <+: 0x2f :: 0x2f :: r' ∨ mountpoint <+: [0x2f])
    (h₂ : mountpoint <+: 0x2f :: r ∨ mountpoint <+: [0x2f]) : mountpoint <+: [0x2f] := by
  rcases h₁ with h₁ | h₁
  · rcases h₂ with h₂ | h₂
    · rcases List.prefix_cons_iff.1 h₁ with rfl | ⟨m, rfl, hm⟩
      · exact List.nil_prefix
      · rcases List.prefix_cons_iff.1 hm with rfl | ⟨m', rfl, -⟩
        · exact List.prefix_refl _
        · -- the second slash would be the first character of the relative path
          obtain ⟨t, ht⟩ := (List.cons_prefix_cons.1 h₂).2
          rw [← ht] at hr
          exact absurd rfl hr
    · exact h₂
  · exact h₁

/-- At the root the mount has to be the same, and the second slash may not cost a character. -/
theorem resolve_root_iff (hnul : ∀ i, 0 ∉ (s.superblockTable i).mountpoint) (hr0 : 0 ∉ r)
    (hr : r.head? ≠ some 0x2f) (hfit : (joinDir [0x2f] r).length < maxPathLen) :
    s.resolve [0x2f] r = s.resolve [0x2f] (joinDir [0x2f] r) ↔
      superblockLookup s.superblockTable (0x2f :: 0x2f :: r.take 1021) =
          superblockLookup s.superblockTable (0x2f :: r) ∧
        (superblockLookup s.superblockTable (0x2f :: r) = none ∨ r.length ≤ 1021) := by
  have hdir : ([0x2f] : CString).length < maxPathLen := by decide
  rw [joinDir, if_pos rfl] at hfit ⊢
  rw [FileSystems.resolve, FileSystems.resolve, expandPath_relative hr hdir,
    expandPath_absolute hfit]
  have htake : (([0x2f] : CString) ++ 0x2f :: r).take (maxPathLen - 1) =
      0x2f :: 0x2f :: r.take 1021 := rfl
  rw [htake]
  generalize hr' : r.take 1021 = r'
  have hhead : r'.head? ≠ some 0x2f := by
    rw [← hr']
    cases r with
    | nil => exact hr
    | cons c r => exact hr
  have hnul' : 0 ∉ (0x2f :: 0x2f :: r' : CString) := by
    intro h
    rcases List.mem_cons.1 h with h | h
    · exact absurd h (by decide)
    · rcases List.mem_cons.1 h with h | h
      · exact absurd h (by decide)
      · rw [← hr'] at h
        exact hr0 (List.mem_of_mem_take h)
  have hnul'' : 0 ∉ (0x2f :: r : CString) := by
    intro h
    rcases List.mem_cons.1 h with h | h
    · exact absurd h (by decide)
    · exact hr0 h
  have hcut : r' = r ↔ r.length ≤ 1021 := by
    rw [← hr', List.take_eq_self_iff]
  cases h₁ : superblockLookup s.superblockTable (0x2f :: 0x2f :: r') with
  | none =>
      cases h₂ : superblockLookup s.superblockTable (0x2f :: r) with
      | none => simp [Except.map, h₁, h₂]
      | some k => simp [Except.map, h₁, h₂]
  | some k =>
      cases h₂ : superblockLookup s.superblockTable (0x2f :: r) with
      | none => simp [Except.map, h₁, h₂]
      | some k' =>
          simp only [Except.map, h₁, h₂, Option.map, Except.ok.injEq, Option.some.injEq,
            Prod.mk.injEq, reduceCtorEq, false_or, ← hcut]
          refine and_congr_right ?_
          rintro rfl
          have hm := root_of_both_starts hr (mountpoint_of_superblockLookup hnul hnul' h₁)
            (mountpoint_of_superblockLookup hnul hnul'' h₂)
          rw [(pathWithin_root hhead hm).2, (pathWithin_root hr hm).1]

end Resolve

/-- The file systems with nothing in use. -/
def Vfs.start (fs : FileSystems) : Vfs := { fs with inodes := fun _ => Inode.zeroed }

/-- The mounts that `/disk/x`, `//disk/x`, `/x` and `//x` select on two mounted ramdisks. -/
theorem run_mountDisk_lookups : ∃ fs,
    run FileSystems.mountStep twoRamdisksBoot [mountRoot, mountDisk] = .ok ([0, 0], fs) ∧
      (∀ i, 0 ∉ (fs.superblockTable i).mountpoint) ∧
      [[0x2f, 0x64, 0x69, 0x73, 0x6b, 0x2f, 0x78], [0x2f, 0x2f, 0x64, 0x69, 0x73, 0x6b, 0x2f, 0x78],
        [0x2f, 0x78], [0x2f, 0x2f, 0x78]].map (superblockLookup fs.superblockTable) =
          [some 1, some 0, some 0, some 0] := by
  have h : (run FileSystems.mountStep twoRamdisksBoot [mountRoot, mountDisk]).map (fun q =>
      (q.1, decide ((∀ i, 0 ∉ (q.2.superblockTable i).mountpoint) ∧
        [[0x2f, 0x64, 0x69, 0x73, 0x6b, 0x2f, 0x78],
          [0x2f, 0x2f, 0x64, 0x69, 0x73, 0x6b, 0x2f, 0x78], [0x2f, 0x78], [0x2f, 0x2f, 0x78]].map
            (superblockLookup q.2.superblockTable) = [some 1, some 0, some 0, some 0]))) =
      .ok ([0, 0], true) := by decide
  obtain ⟨⟨rs, fs⟩, hrun, hobs⟩ := map_eq_ok.1 h
  obtain ⟨rfl, hlookups⟩ := Prod.mk.inj hobs
  exact ⟨fs, hrun, of_decide_eq_true hlookups⟩

end Vmwos
