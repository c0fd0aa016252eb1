import Vmwos.Fs.Romfs.Tree

/-!
# Resolving paths in a ROMFS image

In an image of a tree `romfs_lookup_inode` finds what the walk of the tree finds: the inode
filled in from the header reached, or an error when a component is absent or is looked for in
something that is no directory (`lookupInode_walk`). The step is one component
(`Represents.lookupInodeDir_eq`, and `Represents.lookupInodeDir_notDirectory` for a header
without entries); the run is the induction over the components.
-/

set_option autoImplicit false

namespace Vmwos.Romfs

open Library

/-- A header reached in an image of a tree: a directory of the tree, or a header that is no
directory and no link. -/
structure Reached (image : Image) (tree : Tree) (header : Nat) : Prop where
  type_ne : headerType image header ≠ 0
  notDirectory : tree.directory header = none → headerType image header ≠ 1

variable {image : Image} {tree : Tree}

namespace Represents

theorem reached_directory (h : Represents image tree) {d : Nat} {entries : List Entry}
    (hd : tree.directory d = some entries) : Reached image tree d where
  type_ne := by
    rw [h.isDirectory d entries hd]
    exact Nat.one_ne_zero
  notDirectory := fun hnone => by
    rw [hd] at hnone
    cases hnone

/-- The entry of a directory that has a name leads to a header that can be gone on from. -/
theorem reached_target (h : Represents image tree) {d : Nat} {entries : List Entry} {e : Entry}
    (hd : tree.directory d = some entries) {p : Entry → Bool} (he : entries.find? p = some e) :
    Reached image tree e.target :=
  have hat := h.entryAt d entries hd e (List.mem_of_find?_eq_some he)
  ⟨hat.links.type_ne, hat.notDirectory⟩

/-- In something that is no directory no name is found. -/
theorem lookupInodeDir_notDirectory {d : Nat} (hreached : Reached image tree d)
    (hd : tree.directory d = none) (name : CString) :
    lookupInodeDir image d name = .ok (-enotdir, d) := by
  rw [lookupInodeDir, if_pos (hreached.notDirectory hd)]

/-- The walk over the components: with the header of the tree's walk, or a negative result. -/
theorem lookupComponents_walk (h : Represents image tree) {cs : List CString} {c : CString}
    {d fuel : Nat} (hcs : ∀ x ∈ c :: cs, IsComponent x) (hreached : Reached image tree d)
    (hfuel : cs.length < fuel) :
    match tree.walk d (c :: cs) with
    | some target => lookupComponents image fuel d (joinPath (c :: cs)) = .ok (0, target) ∧
        Reached image tree target
    | none => ∃ r number, lookupComponents image fuel d (joinPath (c :: cs)) = .ok (r, number) ∧
        r < 0 := by
  induction cs generalizing c d fuel with
  | nil =>
      obtain ⟨fuel, rfl⟩ := Nat.exists_eq_succ_of_ne_zero (Nat.ne_of_gt hfuel)
      have hc := hcs c List.mem_cons_self
      rw [joinPath, Tree.walk, lookupComponents, splitFilename_last hc]
      cases hd : tree.directory d with
      | none =>
          simp only [lookupInodeDir_notDirectory hreached hd]
          exact ⟨-enotdir, d, rfl, by decide⟩
      | some entries =>
          simp only [h.lookupInodeDir_eq hd hc.noNul (Nat.le_of_lt (Nat.lt_succ_of_lt hc.short))]
          cases hfind : entries.find? fun e => e.name = c with
          | none => exact ⟨-1, d, rfl, by decide⟩
          | some e => exact ⟨rfl, h.reached_target hd hfind⟩
  | cons c' cs ih =>
      obtain ⟨fuel, rfl⟩ := Nat.exists_eq_succ_of_ne_zero (Nat.ne_of_gt (Nat.zero_lt_of_lt hfuel))
      have hc := hcs c List.mem_cons_self
      rw [joinPath, Tree.walk, lookupComponents, splitFilename_slash hc]
      cases hd : tree.directory d with
      | none =>
          simp only [lookupInodeDir_notDirectory hreached hd]
          exact ⟨-enotdir, d, rfl, by decide⟩
      | some entries =>
          simp only [h.lookupInodeDir_eq hd hc.noNul (Nat.le_of_lt (Nat.lt_succ_of_lt hc.short))]
          cases hfind : entries.find? fun e => e.name = c with
          | none => exact ⟨-1, d, rfl, by decide⟩
          | some e =>
              -- the walk goes on from the target of the entry
              exact ih (fun x hx => hcs x (List.mem_cons_of_mem c hx))
                (h.reached_target hd hfind) (Nat.lt_of_succ_lt_succ hfuel)

end Represents

/-- `romfs_lookup_inode` resolves every path as the walk of the tree does, from any directory. -/
theorem lookupInode_walk {inode : Inode} {entries : List Entry} {cs : List CString}
    (h : Represents image tree) (hdir : tree.directory inode.number = some entries)
    (hcs : ∀ c ∈ cs, IsComponent c) :
    match tree.walk inode.number cs with
    | some target => lookupInode image inode (joinPath cs) =
        .ok (0, fillInode image { inode with number := target })
    | none => ∃ r inode', lookupInode image inode (joinPath cs) = .ok (r, inode') ∧ r < 0 := by
  have hreached := h.reached_directory hdir
  cases cs with
  | nil =>
      rw [joinPath, lookupInode, if_pos rfl]
      exact readInode_of_type_ne hreached.type_ne
  | cons c cs =>
      have hne : joinPath (c :: cs) ≠ [] := joinPath_ne_nil (hcs c List.mem_cons_self)
      have hfuel : cs.length < (joinPath (c :: cs)).length + 1 := by
        have hlen := length_joinPath hcs
        rw [List.length_cons] at hlen
        omega
      have hwalk := h.lookupComponents_walk hcs hreached hfuel
      rw [lookupInode, if_neg hne]
      cases hw : tree.walk inode.number (c :: cs) with
      | none =>
          rw [hw] at hwalk
          obtain ⟨r, number, hlookup, hr⟩ := hwalk
          rw [hlookup]
          exact ⟨r, { inode with number := number }, if_pos hr, hr⟩
      | some target =>
          rw [hw] at hwalk
          obtain ⟨hlookup, htarget⟩ := hwalk
          rw [hlookup]
          have htype : headerType image ({ inode with number := target } : Inode).number ≠ 0 :=
            htarget.type_ne
          exact readInode_of_type_ne htype

/-! ## An image -/

/-- An image with one file `f`: the headers of `.` at 32, of `..`, a hard link to it, at 64 and
of the file at 96. -/
def oneFileImage : Image := fun a => List.getD
  (magic ++ [0, 0, 0, 144, 0, 0, 0, 0] ++ [0x56, 0x4d, 0x57, 0x6f, 0x73] ++ List.replicate 11 0 ++
    [0, 0, 0, 0x49, 0, 0, 0, 0x20, 0, 0, 0, 0, 0, 0, 0, 0] ++ [0x2e] ++ List.replicate 15 0 ++
    [0, 0, 0, 0x60, 0, 0, 0, 0x20, 0, 0, 0, 0, 0, 0, 0, 0] ++ [0x2e, 0x2e] ++
      List.replicate 14 0 ++
    [0, 0, 0, 2, 0, 0, 0, 0, 0, 0, 0, 3, 0, 0, 0, 0] ++ [0x66] ++ List.replicate 15 0 ++
    [0x61, 0x62, 0x63]) a 0

/-- The entries of its root directory. -/
def oneFileEntries : List Entry := [⟨32, [0x2e], 32⟩, ⟨64, [0x2e, 0x2e], 32⟩, ⟨96, [0x66], 96⟩]

/-- Its tree. -/
def oneFileTree : Tree where
  volumeName := [0x56, 0x4d, 0x57, 0x6f, 0x73]
  directory := fun d => if d = 32 then some oneFileEntries else none

instance (image : Image) (offset : Nat) (rest : CString) : Decidable (Holds image offset rest) :=
  inferInstanceAs (Decidable (∀ i < paddedLength rest.length, _))

theorem oneFileImage_represents : Represents oneFileImage oneFileTree := by
  have hname : ∀ offset name, 0 ∉ name → Holds oneFileImage offset name →
      offset + paddedLength name.length ≤ 4294967296 → NameAt oneFileImage offset name :=
    fun offset name => NameAt.mk
  have hdir : ∀ d entries, oneFileTree.directory d = some entries →
      d = 32 ∧ entries = oneFileEntries := by
    intro d entries hd
    unfold oneFileTree at hd
    simp only at hd
    split at hd
    · rename_i h32
      exact ⟨h32, (Option.some.inj hd).symm⟩
    · cases hd
  refine ⟨hname 16 _ (by decide) (by decide) (by decide), ?_, ?_, ?_⟩
  · intro d entries hd
    obtain ⟨rfl, -⟩ := hdir d entries hd
    decide
  · intro d entries hd
    obtain ⟨rfl, rfl⟩ := hdir d entries hd
    decide
  · intro d entries hd e he
    obtain ⟨rfl, rfl⟩ := hdir d entries hd
    simp only [oneFileEntries, List.mem_cons, List.not_mem_nil, or_false] at he
    rcases he with rfl | rfl | rfl
    · exact ⟨by decide, hname 48 _ (by decide) (by decide) (by decide), by decide,
        ⟨[], by decide⟩, fun hnone => by cases hnone⟩
    · exact ⟨by decide, hname 80 _ (by decide) (by decide) (by decide), by decide,
        ⟨[64], by decide⟩, fun hnone => by cases hnone⟩
    · exact ⟨by decide, hname 112 _ (by decide) (by decide) (by decide), by decide,
        ⟨[], by decide⟩, fun _ => by decide⟩

theorem lookupInode_walk_oneFile :
    lookupInode oneFileImage { Inode.zeroed with number := 32 } (joinPath [[0x2e, 0x2e], [0x66]]) =
      .ok (0, fillInode oneFileImage { Inode.zeroed with number := 96 }) := by
  have hdir : oneFileTree.directory ({ Inode.zeroed with number := 32 } : Inode).number =
      some oneFileEntries := rfl
  have hcs : ∀ c ∈ [[0x2e, 0x2e], [0x66]], IsComponent c := by
    intro c hc
    simp only [List.mem_cons, List.not_mem_nil, or_false] at hc
    rcases hc with rfl | rfl
    · exact ⟨by decide, by decide, by decide, by decide⟩
    · exact ⟨by decide, by decide, by decide, by decide⟩
  exact lookupInode_walk oneFileImage_represents hdir hcs

end Vmwos.Romfs
