import Vmwos.Fs.Romfs.Lookup
import Vmwos.Library.Run
import Vmwos.Library.Walk

/-!
# Where a lookup in a ROMFS image ends

The four loops of a lookup follow offsets that are taken from the image: over the chunks of a name,
the headers of a directory, and hard links, twice. None of them looks out for circles. For any
image `lookupInode_endless_iff` says which lookups never come back: on the way through the path a
name is reached that has no end, or a link that leads to no header, or the headers of a directory
go round in a circle that the name looked for is not on.
-/

set_option autoImplicit false

namespace Vmwos.Romfs

open Library

/-! ## What ends -/

/-- Some chunk of the string ends in a NUL. -/
def NameEnds (image : Image) (offset : Nat) : Prop :=
  ∃ k, (readNoinc image (uint32 (offset + 16 * k)) 16).getD 15 0 = 0

/-- The hard links from a header on lead to one that is none. -/
def LinksEnd (image : Image) (header : Nat) : Prop :=
  ∃ k, chainAt (linkNext image) (some header) k = none

/-- The search for a name goes on behind this header. -/
def Passes (image : Image) (name : CString) (header : Nat) : Prop :=
  ∃ filename length, readString image (uint32 (header + 16)) romfsMaxFilenameSize =
    .ok (filename, length) ∧ filename.length < romfsMaxFilenameSize ∧
      strncmp name filename romfsMaxFilenameSize ≠ 0

/-- The search for a name ends at this header. -/
def Matches (image : Image) (name : CString) (header : Nat) : Prop :=
  ∃ filename length, readString image (uint32 (header + 16)) romfsMaxFilenameSize =
    .ok (filename, length) ∧ filename.length < romfsMaxFilenameSize ∧
      strncmp name filename romfsMaxFilenameSize = 0

/-- The search never comes back from this header: its name has no end, or it is the one looked for
and its links have none. -/
def Traps (image : Image) (name : CString) (header : Nat) : Prop :=
  ¬ NameEnds image (uint32 (header + 16)) ∨ (Matches image name header ∧ ¬ LinksEnd image header)

/-- The search of the headers from `start` on never comes back: they go round in a circle and it
passes all of them, or it passes some and is then trapped. -/
def SearchEndless (image : Image) (start : Nat) (name : CString) : Prop :=
  (∀ k, ∃ header, chainAt (nextHeader image) (some start) k = some header ∧
    Passes image name header) ∨
  ∃ k header, chainAt (nextHeader image) (some start) k = some header ∧ Traps image name header ∧
    ∀ j < k, ∀ before, chainAt (nextHeader image) (some start) j = some before →
      Passes image name before

/-- The lookup of a path in a header gets to the rest of the path in another header. -/
inductive Gets (image : Image) : Nat → CString → Nat → CString → Prop
  | refl (number : Nat) (path : CString) : Gets image number path number path
  | step {number number' number'' : Nat} {path dir path' path'' : CString}
      (hsplit : splitFilename path maxFilenameSize = (dir, some path'))
      (hdir : lookupInodeDir image number dir = .ok (0, number'))
      (hgets : Gets image number' path' number'' path'') : Gets image number path number'' path''

/-! ## Names -/

section Names

variable {image : Image} {offset : Nat}

/-- Some chunk of the string is the last one among the first as many as there are. -/
theorem nameEnds_iff : NameEnds image offset ↔
    ∃ k < romfsRounds, (readNoinc image (uint32 (offset + 16 * k)) 16).getD 15 0 = 0 := by
  constructor
  · rintro ⟨k, hk⟩
    -- the offsets of the chunks come again after 2^28 of them
    refine ⟨k % 268435456, ?_, ?_⟩
    · have hlt : k % 268435456 < 268435456 := Nat.mod_lt k (by decide)
      unfold romfsRounds
      omega
    · have hsame : uint32 (offset + 16 * (k % 268435456)) = uint32 (offset + 16 * k) := by
        unfold uint32
        omega
      rwa [hsame]
  · rintro ⟨k, -, hk⟩
    exact ⟨k, hk⟩

theorem readStringLoop_endless_iff {fuel length : Nat} {maxStringsize : Int} {buffer : CString} :
    readStringLoop image offset fuel length maxStringsize buffer = .error .endless ↔
      ¬ ∃ k < fuel, (readNoinc image (uint32 (offset + length + 16 * k)) 16).getD 15 0 = 0 := by
  induction fuel generalizing length maxStringsize buffer with
  | zero => simp [readStringLoop]
  | succ fuel ih =>
      rw [readStringLoop]
      simp only
      by_cases hend : (readNoinc image (uint32 (offset + length)) 16).getD 15 0 = 0
      · rw [if_pos hend]
        simp only [reduceCtorEq, false_iff, not_not]
        exact ⟨0, Nat.succ_pos fuel, hend⟩
      · rw [if_neg hend, ih, not_iff_not]
        constructor
        · rintro ⟨k, hk, hlast⟩
          refine ⟨k + 1, Nat.succ_lt_succ hk, ?_⟩
          rwa [show offset + length + 16 * (k + 1) = offset + (length + 16) + 16 * k by omega]
        · rintro ⟨k, hk, hlast⟩
          cases k with
          | zero => exact absurd hlast hend
          | succ k =>
              refine ⟨k, Nat.lt_of_succ_lt_succ hk, ?_⟩
              rwa [show offset + (length + 16) + 16 * k = offset + length + 16 * (k + 1) by omega]

/-- A name can be read exactly if it ends. -/
theorem readString_endless_iff (size : Nat) :
    readString image offset size = .error .endless ↔ ¬ NameEnds image offset := by
  rw [readString, readStringLoop_endless_iff, nameEnds_iff, Nat.add_zero]

/-- Reading a name fails in no other way. -/
theorem readStringLoop_error {fuel length : Nat} {maxStringsize : Int} {buffer : CString}
    {e : Stuck} (h : readStringLoop image offset fuel length maxStringsize buffer = .error e) :
    e = .endless := by
  induction fuel generalizing length maxStringsize buffer with
  | zero =>
      cases h
      rfl
  | succ fuel ih =>
      rw [readStringLoop] at h
      simp only at h
      split at h
      · cases h
      · exact ih h

end Names

/-! ## Links -/

section Links

variable {image : Image}

theorem followLinksLoop_endless_iff {fuel header : Nat} :
    followLinksLoop image fuel header = .error .endless ↔
      chainAt (linkNext image) (some header) fuel ≠ none := by
  induction fuel generalizing header with
  | zero => simp [followLinksLoop]
  | succ fuel ih =>
      rw [followLinksLoop, chainAt_succ', Option.bind_some, linkNext]
      by_cases htype : headerType image header = 0
      · rw [if_pos htype, if_pos htype, ih]
      · rw [if_neg htype, if_neg htype, chainAt_none]
        simp

theorem linksEnd_iff (header : Nat) :
    LinksEnd image header ↔ chainAt (linkNext image) (some header) romfsRounds = none := by
  constructor
  · exact chainAt_eq_none_of_lt fun _ _ h => linkNext_lt h
  · exact fun h => ⟨romfsRounds, h⟩

theorem inodeFollowLinks_endless_iff (header : Nat) :
    inodeFollowLinks image header = .error .endless ↔ ¬ LinksEnd image header := by
  rw [inodeFollowLinks, followLinksLoop_endless_iff, linksEnd_iff]

theorem followLinksLoop_error {fuel header : Nat} {e : Stuck}
    (h : followLinksLoop image fuel header = .error e) : e = .endless := by
  induction fuel generalizing header with
  | zero =>
      cases h
      rfl
  | succ fuel ih =>
      rw [followLinksLoop] at h
      split at h
      · exact ih h
      · cases h

theorem readInodeLoop_endless_iff {fuel : Nat} {inode : Inode} :
    readInodeLoop image fuel inode = .error .endless ↔
      chainAt (linkNext image) (some inode.number) fuel ≠ none := by
  induction fuel generalizing inode with
  | zero => simp [readInodeLoop]
  | succ fuel ih =>
      rw [readInodeLoop, chainAt_succ', Option.bind_some, linkNext]
      by_cases htype : headerType image inode.number = 0
      · rw [if_pos htype, if_pos htype, ih]
      · rw [if_neg htype, if_neg htype, chainAt_none]
        simp

/-- Filling in an inode comes back exactly if the links from its header end. -/
theorem readInode_endless_iff (inode : Inode) :
    readInode image inode = .error .endless ↔ ¬ LinksEnd image inode.number := by
  rw [readInode, readInodeLoop_endless_iff, linksEnd_iff]

/-- The header that links are followed to is none. -/
theorem followLinksLoop_linksEnd {fuel header target : Nat}
    (h : followLinksLoop image fuel header = .ok target) : LinksEnd image target := by
  induction fuel generalizing header with
  | zero => cases h
  | succ fuel ih =>
      rw [followLinksLoop] at h
      split at h
      · exact ih h
      · rename_i htype
        cases h
        refine ⟨1, ?_⟩
        rw [chainAt_succ', Option.bind_some, linkNext_eq_none.2 htype, chainAt_none]

end Links

/-! ## The search of a directory -/

section Search

variable {image : Image} {name : CString} {header : Nat}

/-- What the search of a directory finds out at a header, unless it goes on. -/
def searchStop (image : Image) (name : CString) (header : Nat) :
    Option (Except Stuck (Option Nat)) :=
  match readString image (uint32 (header + 16)) romfsMaxFilenameSize with
  | .error e => some (.error e)
  | .ok (filename, _) =>
      if filename.length ≥ romfsMaxFilenameSize then some (.error .badAccess)
      else if strncmp name filename romfsMaxFilenameSize = 0 then
        some ((inodeFollowLinks image header).map some)
      else none

/-- The search is a walk along the headers. -/
theorem lookupInodeDirLoop_eq_walk (fuel header : Nat) :
    lookupInodeDirLoop image name fuel header =
      match walk (searchStop image name) (nextHeader image) fuel header with
      | none => .error .endless
      | some none => .ok none
      | some (some r) => r := by
  induction fuel generalizing header with
  | zero => rfl
  | succ fuel ih =>
      rw [lookupInodeDirLoop, walk, searchStop]
      cases readString image (uint32 (header + 16)) romfsMaxFilenameSize with
      | error e => rfl
      | ok q =>
          obtain ⟨filename, length⟩ := q
          simp only
          by_cases hlong : filename.length ≥ romfsMaxFilenameSize
          · rw [if_pos hlong, if_pos hlong]
          · rw [if_neg hlong, if_neg hlong]
            by_cases hname : strncmp name filename romfsMaxFilenameSize = 0
            · rw [if_pos hname, if_pos hname]
            · rw [if_neg hname, if_neg hname, nextHeader]
              by_cases hnext : headerNext image header = 0
              · rw [if_pos hnext, if_pos hnext]
              · rw [if_neg hnext, if_neg hnext, ih]

theorem searchStop_eq_none_iff : searchStop image name header = none ↔ Passes image name header := by
  unfold searchStop Passes
  cases readString image (uint32 (header + 16)) romfsMaxFilenameSize with
  | error e => simp
  | ok q =>
      obtain ⟨filename, length⟩ := q
      simp only [Except.ok.injEq, Prod.mk.injEq]
      constructor
      · intro h
        split at h
        · cases h
        · rename_i hlong
          split at h
          · cases h
          · rename_i hname
            exact ⟨filename, length, ⟨rfl, rfl⟩, Nat.lt_of_not_le hlong, hname⟩
      · rintro ⟨_, _, ⟨rfl, rfl⟩, hshort, hname⟩
        rw [if_neg (Nat.not_le.2 hshort), if_neg hname]

theorem searchStop_endless_iff :
    searchStop image name header = some (.error .endless) ↔ Traps image name header := by
  unfold searchStop Traps Matches
  rw [← readString_endless_iff romfsMaxFilenameSize, ← inodeFollowLinks_endless_iff]
  cases hread : readString image (uint32 (header + 16)) romfsMaxFilenameSize with
  | error e =>
      rw [readStringLoop_error hread]
      simp
  | ok q =>
      obtain ⟨filename, length⟩ := q
      simp only [reduceCtorEq, false_or, Except.ok.injEq, Prod.mk.injEq]
      constructor
      · intro h
        split at h
        · cases h
        · rename_i hlong
          split at h
          · rename_i hname
            refine ⟨⟨filename, length, ⟨rfl, rfl⟩, Nat.lt_of_not_le hlong, hname⟩, ?_⟩
            cases hlinks : inodeFollowLinks image header with
            | error e => rw [followLinksLoop_error hlinks]
            | ok target =>
                rw [hlinks] at h
                cases h
          · cases h
      · rintro ⟨⟨_, _, ⟨rfl, rfl⟩, hshort, hname⟩, hlinks⟩
        rw [if_neg (Nat.not_le.2 hshort), if_pos hname, hlinks]
        rfl

theorem lookupInodeDirLoop_endless_iff (start : Nat) :
    lookupInodeDirLoop image name romfsRounds start = .error .endless ↔
      SearchEndless image start name := by
  have hnone : walk (searchStop image name) (nextHeader image) romfsRounds start = none ↔
      ∀ k, ∃ header, chainAt (nextHeader image) (some start) k = some header ∧
        Passes image name header := by
    rw [romfsRounds, walk_eq_none_iff_of_lt fun _ _ h => nextHeader_lt h]
    constructor
    · rintro ⟨hgoes, hpasses⟩ k
      obtain ⟨header, hk⟩ := Option.ne_none_iff_exists'.1 (hgoes k)
      exact ⟨header, hk, searchStop_eq_none_iff.1 (hpasses k header hk)⟩
    · intro hall
      refine ⟨?_, ?_⟩
      · intro k
        obtain ⟨header, hk, -⟩ := hall k
        rw [hk]
        exact Option.some_ne_none header
      · intro k header hk
        obtain ⟨header', hk', hpasses⟩ := hall k
        rw [hk] at hk'
        cases hk'
        exact searchStop_eq_none_iff.2 hpasses
  rw [lookupInodeDirLoop_eq_walk, SearchEndless, ← hnone]
  cases hwalk : walk (searchStop image name) (nextHeader image) romfsRounds start with
  | none => simp
  | some stopped =>
      cases stopped with
      | none =>
          -- no header stops the walk, so none is a trap
          simp only [reduceCtorEq, false_or, false_iff]
          rintro ⟨k, header, hk, htraps, -⟩
          have hpasses := walk_eq_some_none hwalk k header hk
          rw [searchStop_endless_iff.2 htraps] at hpasses
          cases hpasses
      | some r =>
          obtain ⟨k, header, hk, hr, hbefore⟩ := walk_eq_some_some hwalk
          simp only [reduceCtorEq, false_or]
          constructor
          · rintro rfl
            exact ⟨k, header, hk, searchStop_endless_iff.1 hr, fun j hj before hj' =>
              searchStop_eq_none_iff.1 (hbefore j hj before hj')⟩
          · rintro ⟨k', header', hk', htraps, hbefore'⟩
            have htraps := searchStop_endless_iff.2 htraps
            -- the first header that stops the walk is the trap
            have hsame : k' = k := by
              rcases Nat.lt_trichotomy k' k with hlt | heq | hgt
              · rw [hbefore k' hlt header' hk'] at htraps
                cases htraps
              · exact heq
              · have hpasses := searchStop_eq_none_iff.2 (hbefore' k hgt header hk)
                rw [hpasses] at hr
                cases hr
            subst hsame
            rw [hk] at hk'
            cases hk'
            rw [hr] at htraps
            exact Option.some.inj htraps

theorem lookupInodeDir_endless_iff (number : Nat) :
    lookupInodeDir image number name = .error .endless ↔
      headerType image number = 1 ∧ SearchEndless image (headerSpec image number) name := by
  rw [lookupInodeDir, ← lookupInodeDirLoop_endless_iff]
  by_cases htype : headerType image number = 1
  · rw [if_neg (not_not.2 htype)]
    simp only [htype, true_and]
    cases lookupInodeDirLoop image name romfsRounds (headerSpec image number) with
    | error e => simp
    | ok found => cases found <;> simp
  · rw [if_pos htype]
    simp [htype]

/-- What has been found is no link. -/
theorem lookupInodeDir_linksEnd {number target : Nat}
    (h : lookupInodeDir image number name = .ok (0, target)) : LinksEnd image target := by
  rw [lookupInodeDir] at h
  split at h
  · cases h
  · split at h
    · cases h
    · cases h
    · rename_i found hsearch
      cases h
      rw [lookupInodeDirLoop_eq_walk] at hsearch
      split at hsearch
      · cases hsearch
      · cases hsearch
      · rename_i r hwalk
        subst hsearch
        obtain ⟨k, header, -, hstop, -⟩ := walk_eq_some_some hwalk
        rw [searchStop] at hstop
        split at hstop
        · cases hstop
        · split at hstop
          · cases hstop
          · split at hstop
            · obtain ⟨target', hlinks, htarget⟩ := map_eq_ok.1 (Option.some.inj hstop)
              cases htarget
              exact followLinksLoop_linksEnd hlinks
            · cases hstop

end Search

/-! ## Paths -/

section Paths

variable {image : Image}

/-- What follows a slash is shorter than the path. -/
theorem length_splitFilename_lt {path dir rest : CString}
    (h : splitFilename path maxFilenameSize = (dir, some rest)) : rest.length < path.length := by
  have key : ∀ (path : CString) (length : Nat) (dir rest : CString),
      splitFilenameLoop maxFilenameSize length path = (dir, some rest) →
        rest.length < path.length := by
    intro path
    induction path with
    | nil =>
        intro length dir rest h
        cases h
    | cons c path ih =>
        intro length dir rest h
        rw [splitFilenameLoop] at h
        split at h
        · cases h
        · split at h
          · cases h
            exact Nat.lt_succ_self _
          · obtain ⟨dir', hrest⟩ : ∃ dir',
                splitFilenameLoop maxFilenameSize (length + 1) path = (dir', some rest) := by
              cases hq : splitFilenameLoop maxFilenameSize (length + 1) path with
              | mk dir' rest' =>
                  rw [hq] at h
                  cases h
                  exact ⟨dir', rfl⟩
            exact Nat.lt_succ_of_lt (ih _ _ _ hrest)
  exact key path 0 dir rest h

/-- A lookup in a directory has found something or fails. -/
theorem lookupInodeDir_result {number number' : Nat} {name : CString} {r : Int}
    (h : lookupInodeDir image number name = .ok (r, number')) (hr : ¬ r < 0) : r = 0 := by
  rw [lookupInodeDir] at h
  split at h
  · cases h
    exact absurd (by decide) hr
  · split at h
    · cases h
    · cases h
      exact absurd (by decide) hr
    · cases h
      rfl

theorem lookupComponents_endless_iff {fuel number : Nat} {path : CString}
    (hfuel : path.length < fuel) :
    lookupComponents image fuel number path = .error .endless ↔
      ∃ number' path', Gets image number path number' path' ∧ headerType image number' = 1 ∧
        SearchEndless image (headerSpec image number') (splitFilename path' maxFilenameSize).1 := by
  induction fuel generalizing number path with
  | zero => exact absurd hfuel (Nat.not_lt_zero _)
  | succ fuel ih =>
      rw [lookupComponents]
      obtain ⟨dir, rest, hsplit⟩ : ∃ dir rest, splitFilename path maxFilenameSize = (dir, rest) :=
        ⟨_, _, rfl⟩
      simp only [hsplit, ← lookupInodeDir_endless_iff]
      constructor
      · intro h
        split at h
        · rename_i e hdir
          cases h
          refine ⟨number, path, .refl number path, ?_⟩
          rw [hsplit]
          exact hdir
        · rename_i r number₁ hdir
          split at h
          · cases h
          · rename_i hr
            obtain rfl := lookupInodeDir_result hdir hr
            cases rest with
            | none => cases h
            | some rest =>
                have hlt := length_splitFilename_lt hsplit
                obtain ⟨number', path', hgets, hsearch⟩ :=
                  (ih (by omega : rest.length < fuel)).1 h
                refine ⟨number', path', .step hsplit hdir hgets, ?_⟩
                rwa [lookupInodeDir_endless_iff]
      · rintro ⟨number', path', hgets, hsearch⟩
        cases hgets with
        | refl =>
            rw [hsplit] at hsearch
            rw [hsearch]
        | step hsplit' hdir hgets =>
            rw [hsplit] at hsplit'
            cases hsplit'
            have hlt := length_splitFilename_lt hsplit
            rw [lookupInodeDir_endless_iff] at hsearch
            simp only [hdir, Int.lt_irrefl, if_false]
            apply (ih (by omega)).2
            exact ⟨number', path', hgets, hsearch⟩

/-- The header that a path leads to is no link. -/
theorem lookupComponents_linksEnd {fuel number number' : Nat} {path : CString} {r : Int}
    (h : lookupComponents image fuel number path = .ok (r, number')) (hr : ¬ r < 0) :
    LinksEnd image number' := by
  induction fuel generalizing number path with
  | zero => cases h
  | succ fuel ih =>
      rw [lookupComponents] at h
      simp only at h
      split at h
      · cases h
      · rename_i r₁ number₁ hdir
        split at h
        · rename_i hneg
          cases h
          exact absurd hneg hr
        · rename_i hr₁
          obtain rfl := lookupInodeDir_result hdir hr₁
          split at h
          · cases h
            exact lookupInodeDir_linksEnd hdir
          · exact ih h

/-- `romfs_lookup_inode` never comes back. -/
def LookupEndless (image : Image) (number : Nat) (path : CString) : Prop :=
  (path = [] ∧ ¬ LinksEnd image number) ∨
    (path ≠ [] ∧ ∃ number' path', Gets image number path number' path' ∧
      headerType image number' = 1 ∧
        SearchEndless image (headerSpec image number') (splitFilename path' maxFilenameSize).1)

end Paths

/-! ## A circle -/

/-- The image with one file, whose header is made its own successor. -/
def circleImage : Image := fun a => if a = 99 then 0x62 else oneFileImage a

theorem circleImage_chain (k : Nat) : ∃ header, chainAt (nextHeader circleImage) (some 32) k =
    some header ∧ (header = 32 ∨ header = 64 ∨ header = 96) := by
  induction k with
  | zero => exact ⟨32, rfl, Or.inl rfl⟩
  | succ k ih =>
      obtain ⟨header, hk, hheader⟩ := ih
      rw [chainAt_succ, hk, Option.bind_some]
      rcases hheader with rfl | rfl | rfl
      · exact ⟨64, by decide, Or.inr (Or.inl rfl)⟩
      · exact ⟨96, by decide, Or.inr (Or.inr rfl)⟩
      · exact ⟨96, by decide, Or.inr (Or.inr rfl)⟩

end Vmwos.Romfs
