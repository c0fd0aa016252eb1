import Vmwos.Fs.Romfs.Romfs
import Vmwos.Library.ByteArray
import Vmwos.Library.LinkedList
import Mathlib.Data.List.TakeWhile

/-!
# Directory trees in a ROMFS image

A directory is a list of entries, each a header with its name and the header that its hard
links lead to. `Tree` is that view of a file system, with nothing said about bytes, and
`Tree.walk` is what resolving a path in it means. `Represents` says that an image holds a tree:
the names are padded with NULs to 16-byte chunks, the headers of a directory form a chain that
ends, and so do hard links. In such an image the loops of the driver over chunks, links and
headers end and find what the tree says.
-/

set_option autoImplicit false

namespace Vmwos.Romfs

open Library FileBytes

/-! ## Trees -/

/-- An entry of a directory: its header, its name and the header its hard links lead to. -/
structure Entry where
  header : Nat
  name : CString
  target : Nat

/-- The entries of each directory; a header that is no directory has none. -/
structure Tree where
  volumeName : CString
  directory : Nat → Option (List Entry)

/-- At each component the first entry with exactly that name. -/
def Tree.walk (tree : Tree) : Nat → List CString → Option Nat
  | d, [] => some d
  | d, c :: cs =>
      match tree.directory d with
      | none => none
      | some entries =>
          match entries.find? fun e => e.name = c with
          | none => none
          | some e => tree.walk e.target cs

/-! ## Images of a tree -/

/-- The header that a hard link points to. -/
def linkNext (image : Image) (header : Nat) : Option Nat :=
  if headerType image header = 0 then some (headerSpec image header) else none

/-- The next header of a directory. -/
def nextHeader (image : Image) (header : Nat) : Option Nat :=
  if headerNext image header = 0 then none else some (headerNext image header)

/-- The bytes a name takes, with its terminator and padding. -/
def paddedLength (length : Nat) : Nat := (length / 16 + 1) * 16

/-- The bytes of a name, or of the rest of one, and its padding. -/
def Holds (image : Image) (offset : Nat) (rest : CString) : Prop :=
  ∀ i < paddedLength rest.length, image (offset + i) = byteAt rest i

/-- A name at an offset of the image, padded with NULs. -/
structure NameAt (image : Image) (offset : Nat) (name : CString) : Prop where
  noNul : 0 ∉ name
  bytes : Holds image offset name
  inRange : offset + paddedLength name.length ≤ 4294967296

/-- Following hard links from one header ends at another. -/
def LinksTo (image : Image) (header target : Nat) : Prop :=
  ∃ links, Segment (linkNext image) (some header) (links ++ [target]) none

/-- The image holds an entry. The superblock is at offset 0, so no header is. -/
structure EntryAt (image : Image) (tree : Tree) (e : Entry) : Prop where
  header_pos : 0 < e.header
  name : NameAt image (e.header + 16) e.name
  short : e.name.length < romfsMaxFilenameSize
  links : LinksTo image e.header e.target
  notDirectory : tree.directory e.target = none → headerType image e.target ≠ 1

/-- The image holds the tree. -/
structure Represents (image : Image) (tree : Tree) : Prop where
  volume : NameAt image 16 tree.volumeName
  isDirectory : ∀ d entries, tree.directory d = some entries → headerType image d = 1
  chain : ∀ d entries, tree.directory d = some entries →
    Segment (nextHeader image) (some (headerSpec image d)) (entries.map Entry.header) none
  entryAt : ∀ d entries, tree.directory d = some entries → ∀ e ∈ entries, EntryAt image tree e

/-! ## Words -/

theorem readWord_lt (image : Image) (offset : Nat) : readWord image offset < 4294967296 := by
  have h0 := (image offset).toNat_lt
  have h1 := (image (offset + 1)).toNat_lt
  have h2 := (image (offset + 2)).toNat_lt
  have h3 := (image (offset + 3)).toNat_lt
  simp only [readWord, Nat.shiftLeft_eq]
  omega

theorem headerNext_lt (image : Image) (header : Nat) : headerNext image header < 4294967296 :=
  Nat.lt_of_le_of_lt Nat.and_le_left (readWord_lt image header)

theorem nextHeader_lt {image : Image} {header next : Nat}
    (h : nextHeader image header = some next) : next < 4294967296 := by
  unfold nextHeader at h
  split at h
  · cases h
  · cases h
    exact headerNext_lt image header

theorem linkNext_lt {image : Image} {header next : Nat}
    (h : linkNext image header = some next) : next < 4294967296 := by
  unfold linkNext at h
  split at h
  · cases h
    exact readWord_lt image _
  · cases h

/-- A chain of offsets that ends is shorter than the loops go round. -/
theorem chain_length_lt {next : Nat → Option Nat} {start : Nat} {l : List Nat}
    (hnext : ∀ h n, next h = some n → n < 4294967296) (hstart : start < 4294967296)
    (h : Segment next (some start) l none) : l.length < romfsRounds := by
  have hlt : ∀ x ∈ l, x < 4294967296 := h.forall_mem hstart fun a _ b hab => hnext a b hab
  have hsub : l ⊆ List.range 4294967296 := fun x hx => List.mem_range.2 (hlt x hx)
  have hle := (List.subperm_of_subset h.nodup hsub).length_le
  rw [List.length_range] at hle
  exact Nat.lt_of_le_of_lt hle (Nat.lt_succ_self _)

/-! ## Reading names -/

section Names

variable {image : Image} {offset length : Nat} {rest : CString}

theorem paddedLength_sub {n k : Nat} (h : 16 * k ≤ n) :
    paddedLength (n - 16 * k) + 16 * k = paddedLength n := by
  unfold paddedLength
  omega

/-- Behind some chunks an image holds the rest of the name. -/
theorem Holds.drop (h : Holds image offset rest) {k : Nat} (hk : 16 * k ≤ rest.length) :
    Holds image (offset + 16 * k) (rest.drop (16 * k)) := by
  intro i hi
  rw [List.length_drop] at hi
  have hpad := paddedLength_sub hk
  rw [byteAt_drop, ← h (16 * k + i) (by omega), Nat.add_assoc]

/-- A chunk in the middle of a name has no NUL; the last one ends in a NUL. -/
theorem Holds.chunk (h : Holds image offset rest) :
    readNoinc image offset 16 = (rest ++ List.replicate 16 0).take 16 := by
  apply ext_byteAt
  · simp [readNoinc]
  · intro i hi
    have hi : i < 16 := by simpa [readNoinc] using hi
    have hpad : i < paddedLength rest.length := by
      unfold paddedLength
      omega
    have hleft : byteAt (readNoinc image offset 16) i = image (offset + i) := by
      rw [readNoinc, byteAt_of_lt (by simpa using hi)]
      simp
    rw [hleft, h i hpad, byteAt_take, if_pos hi, byteAt_append]
    split
    · rfl
    · rename_i hend
      rw [byteAt_replicate_zero, byteAt_of_le (Nat.le_of_not_lt hend)]

/-- Of the characters of a chunk the first ones, up to a NUL, are those of the rest of the name. -/
theorem Holds.chunk_take (h : Holds image offset rest) (hnul : 0 ∉ rest) {n : Nat} (hn : n ≤ 16) :
    ((readNoinc image offset 16).take n).takeWhile (· ≠ 0) = rest.take n := by
  have hall : ∀ c ∈ rest.take n, (decide (c ≠ 0)) = true := by
    intro c hc
    have hc0 : c ≠ 0 := fun h0 => hnul (h0 ▸ List.mem_of_mem_take hc)
    exact decide_eq_true hc0
  rw [h.chunk, List.take_take, Nat.min_eq_left hn, List.take_append, List.take_replicate,
    List.takeWhile_append_of_pos hall]
  cases min (n - rest.length) 16 with
  | zero => simp
  | succ k => simp [List.replicate_succ]

/-- The byte at the end of a chunk tells whether it is the last one. -/
theorem Holds.chunk_end (h : Holds image offset rest) (hnul : 0 ∉ rest) :
    (readNoinc image offset 16).getD 15 0 = 0 ↔ rest.length < 16 := by
  rw [h.chunk]
  show byteAt _ 15 = 0 ↔ _
  rw [byteAt_take, if_pos (by decide), byteAt_append]
  constructor
  · intro h0
    by_contra hlong
    have hlong : 15 < rest.length := by omega
    rw [if_pos hlong, byteAt_of_lt hlong] at h0
    exact hnul (h0 ▸ List.getElem_mem hlong)
  · intro hshort
    split
    · rw [byteAt_of_le (by omega)]
    · exact byteAt_replicate_zero _ _

/-- What the bound leaves of a name is taken from this chunk and the ones behind it. -/
theorem take_chunks (rest : CString) (maxStringsize : Int) :
    rest.take (min 16 maxStringsize.toNat) ++ (rest.drop 16).take (maxStringsize - 16).toNat =
      rest.take maxStringsize.toNat := by
  rcases Nat.le_total 16 maxStringsize.toNat with hle | hle
  · have hmax : maxStringsize.toNat = 16 + (maxStringsize - 16).toNat := by omega
    rw [Nat.min_eq_left hle, hmax, List.take_add]
  · have hzero : (maxStringsize - 16).toNat = 0 := by omega
    rw [Nat.min_eq_right hle, hzero, List.take_zero, List.append_nil]

/-- Reading on from the middle of a name, chunk by chunk, appends what the bound leaves of it. -/
theorem readStringLoop_eq {buffer : CString} {fuel : Nat} {maxStringsize : Int}
    (h : Holds image (offset + length) rest) (hnul : 0 ∉ rest)
    (hrange : offset + length + paddedLength rest.length ≤ 4294967296)
    (hfuel : rest.length / 16 < fuel) :
    readStringLoop image offset fuel length maxStringsize buffer =
      .ok (buffer ++ rest.take maxStringsize.toNat, length + paddedLength rest.length) := by
  induction fuel generalizing length rest maxStringsize buffer with
  | zero => exact absurd hfuel (Nat.not_lt_zero _)
  | succ fuel ih =>
      have hoffset : uint32 (offset + length) = offset + length := by
        apply uint32_of_lt
        unfold paddedLength at hrange
        omega
      have hcopied : (if maxStringsize > 0 then
          buffer ++ ((readNoinc image (offset + length) 16).take
            (if maxStringsize > 16 then 16 else maxStringsize.toNat)).takeWhile (· ≠ 0)
          else buffer) = buffer ++ rest.take (min 16 maxStringsize.toNat) := by
        split
        · have hlen : (if maxStringsize > 16 then 16 else maxStringsize.toNat) =
              min 16 maxStringsize.toNat := by
            split <;> omega
          rw [hlen, h.chunk_take hnul (Nat.min_le_left _ _)]
        · have hzero : maxStringsize.toNat = 0 := by omega
          rw [hzero, Nat.min_zero, List.take_zero, List.append_nil]
      rw [readStringLoop, hoffset]
      dsimp only
      rw [hcopied]
      by_cases hshort : rest.length < 16
      · -- the last chunk
        have hpad : paddedLength rest.length = 16 := by
          unfold paddedLength
          omega
        have hnone : rest.drop 16 = [] := List.drop_eq_nil_of_le (Nat.le_of_lt hshort)
        have htake := take_chunks rest maxStringsize
        rw [hnone, List.take_nil, List.append_nil] at htake
        rw [if_pos ((h.chunk_end hnul).2 hshort), htake, hpad]
      · have hlong : 16 ≤ rest.length := Nat.le_of_not_lt hshort
        have hpad : paddedLength (rest.length - 16) + 16 = paddedLength rest.length :=
          paddedLength_sub (k := 1) hlong
        have hdrop : Holds image (offset + (length + 16)) (rest.drop 16) := by
          rw [← Nat.add_assoc]
          exact h.drop (k := 1) hlong
        rw [if_neg (mt (h.chunk_end hnul).1 hshort),
          ih hdrop fun hmem => hnul (List.mem_of_mem_drop hmem)]
        · rw [List.append_assoc, take_chunks, List.length_drop]
          congr 2
          omega
        · rw [List.length_drop]
          omega
        · rw [List.length_drop]
          omega

/-- Where the last chunk of a name starts. -/
theorem lastChunk_eq {fuel : Nat} (h : Holds image (offset + length) rest) (hnul : 0 ∉ rest)
    (hrange : offset + length + paddedLength rest.length ≤ 4294967296)
    (hfuel : rest.length / 16 < fuel) :
    lastChunk image offset fuel length = .ok (length + rest.length / 16 * 16) := by
  induction fuel generalizing length rest with
  | zero => exact absurd hfuel (Nat.not_lt_zero _)
  | succ fuel ih =>
      have hoffset : uint32 (offset + length) = offset + length := by
        apply uint32_of_lt
        unfold paddedLength at hrange
        omega
      rw [lastChunk, hoffset]
      by_cases hshort : rest.length < 16
      · rw [if_pos ((h.chunk_end hnul).2 hshort), Nat.div_eq_of_lt hshort, Nat.zero_mul,
          Nat.add_zero]
      · have hlong : 16 ≤ rest.length := Nat.le_of_not_lt hshort
        have hpad : paddedLength (rest.length - 16) + 16 = paddedLength rest.length :=
          paddedLength_sub (k := 1) hlong
        have hdrop : Holds image (offset + (length + 16)) (rest.drop 16) := by
          rw [← Nat.add_assoc]
          exact h.drop (k := 1) hlong
        rw [if_neg (mt (h.chunk_end hnul).1 hshort),
          ih hdrop fun hmem => hnul (List.mem_of_mem_drop hmem)]
        · rw [List.length_drop]
          congr 1
          omega
        · rw [List.length_drop]
          omega
        · rw [List.length_drop]
          omega

end Names

namespace NameAt

variable {image : Image} {offset : Nat} {name : CString}

theorem length_lt (h : NameAt image offset name) : name.length / 16 < romfsRounds := by
  have hrange := h.inRange
  unfold paddedLength at hrange
  unfold romfsRounds
  omega

/-- Reading with any bound. -/
theorem readString_take (h : NameAt image offset name) (size : Nat) :
    readString image offset size = .ok (name.take size, paddedLength name.length) := by
  have hstart : Holds image (offset + 0) name := h.bytes
  rw [Romfs.readString, readStringLoop_eq hstart h.noNul h.inRange h.length_lt, List.nil_append,
    Nat.zero_add, Int.toNat_natCast]

theorem readString (h : NameAt image offset name) {size : Nat} (hsize : name.length ≤ size) :
    readString image offset size = .ok (name, paddedLength name.length) := by
  rw [h.readString_take, List.take_of_length_le hsize]

/-- The bytes of the last chunk of a name that has already been found. -/
theorem lastChunk (h : NameAt image offset name) :
    Romfs.lastChunk image offset romfsRounds 0 = .ok (name.length / 16 * 16) := by
  have hstart : Holds image (offset + 0) name := h.bytes
  rw [lastChunk_eq hstart h.noNul h.inRange h.length_lt, Nat.zero_add]

theorem stringLengthChunks (h : NameAt image offset name) :
    stringLengthChunks image offset = .ok (paddedLength name.length) := by
  rw [Romfs.stringLengthChunks, h.lastChunk]
  show Except.ok (name.length / 16 * 16 + 16) = _
  unfold paddedLength
  rw [Nat.add_mul, Nat.one_mul]

theorem stringLength (h : NameAt image offset name) :
    stringLength image offset = .ok name.length := by
  have hk : 16 * (name.length / 16) ≤ name.length := Nat.mul_div_le _ _
  have hlast : Holds image (offset + 16 * (name.length / 16)) (name.drop (16 * (name.length / 16))) :=
    h.bytes.drop hk
  have hshort : (name.drop (16 * (name.length / 16))).length < 16 := by
    rw [List.length_drop]
    omega
  have hoffset : uint32 (offset + name.length / 16 * 16) = offset + 16 * (name.length / 16) := by
    have hrange := h.inRange
    unfold paddedLength at hrange
    rw [Nat.mul_comm]
    apply uint32_of_lt
    omega
  have hchunk := hlast.chunk_take (fun hmem => h.noNul (List.mem_of_mem_drop hmem))
    (Nat.le_refl 16)
  rw [List.take_of_length_le (by simp [readNoinc]),
    List.take_of_length_le (Nat.le_of_lt hshort)] at hchunk
  rw [Romfs.stringLength, h.lastChunk]
  show Except.ok (_ + _) = _
  rw [hoffset, hchunk, List.length_drop, Nat.mul_comm, Nat.add_sub_cancel' hk]

end NameAt

/-! ## Following hard links -/

theorem linkNext_eq_none {image : Image} {h : Nat} :
    linkNext image h = none ↔ headerType image h ≠ 0 := by
  unfold linkNext
  split <;> simp_all

theorem linkNext_eq_some {image : Image} {h t : Nat} :
    linkNext image h = some t ↔ headerType image h = 0 ∧ headerSpec image h = t := by
  unfold linkNext
  split <;> simp_all

theorem followLinksLoop_eq {image : Image} {fuel h t : Nat} {links : List Nat}
    (hlinks : Segment (linkNext image) (some h) (links ++ [t]) none)
    (hfuel : links.length < fuel) : followLinksLoop image fuel h = .ok t := by
  induction links generalizing fuel h with
  | nil =>
      obtain ⟨fuel, rfl⟩ := Nat.exists_eq_succ_of_ne_zero (Nat.ne_of_gt hfuel)
      obtain ⟨hstart, hend⟩ := segment_singleton.1 hlinks
      cases hstart
      rw [followLinksLoop, if_neg (linkNext_eq_none.1 hend)]
  | cons a links ih =>
      obtain ⟨fuel, rfl⟩ := Nat.exists_eq_succ_of_ne_zero (Nat.ne_of_gt (Nat.zero_lt_of_lt hfuel))
      obtain ⟨hstart, hrest⟩ := hlinks
      cases hstart
      -- the chain goes on behind `a`, so `a` is a hard link
      obtain ⟨b, hb⟩ : ∃ b, linkNext image a = some b := by
        cases hn : linkNext image a with
        | none =>
            rw [hn] at hrest
            cases links <;> cases hrest.1
        | some b => exact ⟨b, rfl⟩
      rw [hb] at hrest
      obtain ⟨htype, hspec⟩ := linkNext_eq_some.1 hb
      rw [followLinksLoop, if_pos htype, hspec]
      exact ih hrest (Nat.lt_of_succ_lt_succ hfuel)

theorem LinksTo.inodeFollowLinks {image : Image} {h t : Nat} (hlinks : LinksTo image h t)
    (hlt : h < 4294967296) : inodeFollowLinks image h = .ok t := by
  obtain ⟨links, hlinks⟩ := hlinks
  have hlen := chain_length_lt (fun _ _ => linkNext_lt) hlt hlinks
  rw [List.length_append] at hlen
  exact followLinksLoop_eq hlinks (Nat.lt_of_succ_lt hlen)

/-- What links lead to is not a link. -/
theorem LinksTo.type_ne {image : Image} {h t : Nat} (hlinks : LinksTo image h t) :
    headerType image t ≠ 0 := by
  obtain ⟨links, hlinks⟩ := hlinks
  obtain ⟨middle, -, hlast⟩ := segment_append.1 hlinks
  exact linkNext_eq_none.1 hlast.2

/-- An inode whose header is not a link is filled in from it. -/
theorem readInode_of_type_ne {image : Image} {inode : Inode}
    (h : headerType image inode.number ≠ 0) : readInode image inode = .ok (0, fillInode image inode) := by
  rw [readInode, romfsRounds, readInodeLoop, if_neg h]

/-! ## Searching a directory -/

namespace EntryAt

variable {image : Image} {tree : Tree} {e : Entry}

theorem header_lt (h : EntryAt image tree e) : e.header + 32 ≤ 4294967296 := by
  have hrange := h.name.inRange
  unfold paddedLength at hrange
  omega

theorem name_offset (h : EntryAt image tree e) : uint32 (e.header + 16) = e.header + 16 := by
  have hlt := h.header_lt
  exact uint32_of_lt (by omega)

end EntryAt

/-- The search of a directory finds the target of the first entry with the name. -/
theorem lookupInodeDirLoop_eq {image : Image} {tree : Tree} {name : CString} {fuel start : Nat}
    {entries : List Entry} (hnul : 0 ∉ name) (hshort : name.length ≤ romfsMaxFilenameSize)
    (hchain : Segment (nextHeader image) (some start) (entries.map Entry.header) none)
    (hentries : ∀ e ∈ entries, EntryAt image tree e) (hfuel : entries.length < fuel) :
    lookupInodeDirLoop image name fuel start =
      .ok ((entries.find? fun e => e.name = name).map Entry.target) := by
  induction entries generalizing fuel start with
  | nil => cases hchain
  | cons e entries ih =>
      obtain ⟨fuel, rfl⟩ := Nat.exists_eq_succ_of_ne_zero (Nat.ne_of_gt (Nat.zero_lt_of_lt hfuel))
      obtain ⟨hstart, hrest⟩ := hchain
      cases hstart
      have he := hentries e List.mem_cons_self
      rw [lookupInodeDirLoop, he.name_offset, he.name.readString (Nat.le_of_lt he.short)]
      have hcompare : strncmp name e.name romfsMaxFilenameSize = 0 ↔ e.name = name := by
        rw [strncmp_eq_zero_iff hnul he.name.noNul, List.take_of_length_le hshort,
          List.take_of_length_le (Nat.le_of_lt he.short)]
        exact eq_comm
      simp only [Nat.not_le.2 he.short, if_false, hcompare]
      by_cases hname : e.name = name
      · have hlt := he.header_lt
        rw [if_pos hname, he.links.inodeFollowLinks (by omega)]
        simp [hname, Except.map]
      · rw [if_neg hname]
        simp only [List.find?_cons, hname, decide_false]
        by_cases hnext : headerNext image e.header = 0
        · -- the last header of the chain
          have hend : nextHeader image e.header = none := if_pos hnext
          rw [hend] at hrest
          cases entries with
          | nil => rw [if_pos hnext, List.find?_nil, Option.map_none]
          | cons e' entries => cases hrest.1
        · have hmore : nextHeader image e.header = some (headerNext image e.header) := if_neg hnext
          rw [hmore] at hrest
          rw [if_neg hnext]
          exact ih hrest (fun e' he' => hentries e' (List.mem_cons_of_mem e he'))
            (Nat.lt_of_succ_lt_succ hfuel)

namespace Represents

variable {image : Image} {tree : Tree} {d : Nat} {entries : List Entry}

/-- A directory has fewer entries than the loops go round. -/
theorem entries_length_lt (h : Represents image tree) (hd : tree.directory d = some entries) :
    entries.length < romfsRounds := by
  have hlen := chain_length_lt (fun _ _ => nextHeader_lt) (readWord_lt image _) (h.chain d entries hd)
  rwa [List.length_map] at hlen

/-- Looking one name up in a directory. -/
theorem lookupInodeDir_eq (h : Represents image tree) (hd : tree.directory d = some entries)
    {name : CString} (hnul : 0 ∉ name) (hshort : name.length ≤ romfsMaxFilenameSize) :
    lookupInodeDir image d name = .ok (match entries.find? fun e => e.name = name with
      | none => (-1, d)
      | some e => (0, e.target)) := by
  rw [lookupInodeDir, if_neg (not_not.2 (h.isDirectory d entries hd)),
    lookupInodeDirLoop_eq hnul hshort (h.chain d entries hd) (h.entryAt d entries hd)
      (h.entries_length_lt hd)]
  cases entries.find? fun e => e.name = name <;> rfl

end Represents

end Vmwos.Romfs
