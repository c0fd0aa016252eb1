import Vmwos.Fstools.Mkromfs
import Vmwos.Fs.Romfs.Listing
import Vmwos.Fs.Romfs.Reading

/-!
# The ROMFS driver on an image of mkromfs

The header of a file is written without the offset of the next one, so for the driver the root
directory ends with the first file: `root_represents` says that any image made from at least one
file holds a directory with `.`, `..` and that file. An image made from no file holds one with a
third entry too, whose header is the padding. From this `agrees_iff` follows: the driver gives back
what the tool was given exactly when it was given one file, without a slash in its name.
-/

set_option autoImplicit false

namespace Vmwos.Mkromfs

open Library FileBytes Romfs

/-! ## Agreement -/

/-- A device that begins with the bytes of a file. -/
def HoldsFile (image : Image) (out : FileBytes) : Prop := ∀ a < out.length, image a = byteAt out a

/-- The name resolves from the root directory to an inode of the size of the file, and reading it
gives the bytes of the file from any offset. -/
def Retrieves (image : Image) (deviceLength rootDir : Nat) (file : InputFile) : Prop :=
  ∀ inode : Inode, inode.number = rootDir →
    ∃ inode', Romfs.lookupInode image inode file.name = .ok (0, inode') ∧
      inode'.size = file.contents.length ∧
      ∀ count offset, count < 2147483648 → offset ≤ file.contents.length →
        readFile image deviceLength inode'.number count offset =
          .ok ((read file.contents offset count).length, read file.contents offset count,
            offset + (read file.contents offset count).length)

/-- Reading a directory with buffers of one size until a call returns 0 delivers `.`, `..` and the
names. -/
def ListsNames (image : Image) (dirNumber size : Nat) (names : List CString) : Prop :=
  ∃ n records, Romfs.listing image dirNumber (fun _ => size) n 0 0 = some records ∧
    records.map Dirent.dName = [0x2e] :: [0x2e, 0x2e] :: names

/-- The image mounts, every file is retrieved from its root directory, and buffers of 1 KiB or
more list it. -/
def Agrees (image : Image) (deviceLength : Nat) (files : List InputFile) : Prop :=
  ∃ m, mount image = .ok (some m) ∧
    (∀ file ∈ files, Retrieves image deviceLength m.rootDir file) ∧
    ∀ size, 1024 ≤ size → ListsNames image m.rootDir size (files.map InputFile.name)

/-! ## The root directory -/

/-- The root directory with a third entry. -/
def rootEntries (name : CString) (target : Nat) : List Entry :=
  [⟨32, [0x2e], 32⟩, ⟨64, [0x2e, 0x2e], 32⟩, ⟨96, name, target⟩]

/-- The tree of the root directory. -/
def rootTree (name : CString) (target : Nat) : Tree where
  volumeName := [0x56, 0x4d, 0x57, 0x6f, 0x73]
  directory := fun d => if d = 32 then some (rootEntries name target) else none

/-- The image holds what the tool writes before the first file, and `tail` from there on. -/
structure Written (image : Image) (uninit : Nat → UInt8) (c c' : Nat) (tail : List UInt8)
    (n : Nat) : Prop where
  length : 1024 ≤ n
  fits : 96 + tail.length ≤ n
  root : ∀ a < 96, a < 8 ∨ 16 ≤ a → image a = byteAt (rootBlock uninit c c') a
  tail : ∀ i, 96 + i < n → image (96 + i) = byteAt tail i

theorem written_of_holdsFile {image : Image} {uninit : Nat → UInt8} {c c' : Nat} {tail : List UInt8}
    (h : HoldsFile image (finish (atEnd (rootBlock uninit c c' ++ tail)))) :
    Written image uninit c c' tail (max 1024 (96 + tail.length)) where
  length := Nat.le_max_left _ _
  fits := Nat.le_max_right _ _
  root a ha hfields := by
    have hlen : a < (finish (atEnd (rootBlock uninit c c' ++ tail))).length := by
      rw [length_finish]
      omega
    rw [h a hlen, finish_byteAt _ hfields, byteAt_append, length_rootBlock, if_pos ha]
  tail i hi := by
    have hlen : 96 + i < (finish (atEnd (rootBlock uninit c c' ++ tail))).length := by
      rwa [length_finish, List.length_append, length_rootBlock]
    rw [h _ hlen, finish_byteAt _ (by omega), byteAt_append, length_rootBlock, if_neg (by omega),
      Nat.add_sub_cancel_left]

/-- A word is read from the bytes that the image has there. -/
theorem readWord_congr {image image' : Image} {offset offset' : Nat}
    (h : ∀ i < 4, image (offset + i) = image' (offset' + i)) :
    readWord image offset = readWord image' offset' := by
  have h0 : image offset = image' offset' := h 0 (by decide)
  have h1 := h 1 (by decide)
  have h2 := h 2 (by decide)
  have h3 := h 3 (by decide)
  rw [readWord, readWord, h0, h1, h2, h3]

/-- `ntohl` is inverse to `htonl`. -/
theorem readWord_htonl (n : Nat) : readWord (fun a => byteAt (htonl n) a) 0 = uint32 n := by
  show (UInt8.ofNat (n >>> 24)).toNat <<< 24 + (UInt8.ofNat (n >>> 16)).toNat <<< 16 +
    (UInt8.ofNat (n >>> 8)).toNat <<< 8 + (UInt8.ofNat n).toNat = uint32 n
  simp only [UInt8.toNat_ofNat', Nat.shiftLeft_eq, Nat.shiftRight_eq_div_pow, uint32]
  omega

namespace Written

variable {image : Image} {uninit : Nat → UInt8} {c c' n : Nat} {tail : List UInt8}

/-- A word of the superblock or of the entries `.` and `..`. -/
theorem word (h : Written image uninit c c' tail n) {offset k : Nat} (hlow : 16 ≤ offset)
    (hhigh : offset + 4 ≤ 96) (hbytes : read (rootBlock uninit c c') offset 4 = htonl k) :
    readWord image offset = uint32 k := by
  rw [← readWord_htonl, ← hbytes]
  apply readWord_congr
  intro i hi
  rw [h.root (offset + i) (by omega) (by omega), byteAt_read, Nat.zero_add, if_pos hi]

/-- A word behind them. -/
theorem word_tail (h : Written image uninit c c' tail n) (offset k : Nat) (hoffset : offset ≤ 900)
    (hbytes : read tail offset 4 = htonl k) : readWord image (96 + offset) = uint32 k := by
  have hlength := h.length
  rw [← readWord_htonl, ← hbytes]
  apply readWord_congr
  intro i hi
  rw [Nat.add_assoc, h.tail (offset + i) (by omega), byteAt_read, Nat.zero_add, if_pos hi]

/-- A name of the superblock or of the entries `.` and `..`. -/
theorem name (h : Written image uninit c c' tail n) {offset : Nat} {name : CString}
    (hnul : 0 ∉ name) (hlow : 16 ≤ offset) (hshort : name.length < 16) (hhigh : offset + 16 ≤ 96)
    (hbytes : read (rootBlock uninit c c') offset 16 =
      name ++ List.replicate (16 - name.length) 0) :
    NameAt image offset name where
  noNul := hnul
  bytes i hi := by
    have hi : i < 16 := by
      unfold paddedLength at hi
      omega
    have hbyte := byteAt_read (rootBlock uninit c c') offset 16 i
    rw [if_pos hi, hbytes, byteAt_append] at hbyte
    rw [h.root (offset + i) (by omega) (by omega), ← hbyte]
    split
    · rfl
    · rename_i hend
      rw [byteAt_replicate_zero, byteAt_of_le (Nat.le_of_not_lt hend)]
  inRange := by
    unfold paddedLength
    omega

theorem volumeName (h : Written image uninit c c' tail n) :
    NameAt image 16 [0x56, 0x4d, 0x57, 0x6f, 0x73] :=
  h.name (by decide) (by decide) (by decide) (by decide) rfl

/-- The magic number and the header of the volume are found at the start, the root directory
behind the volume name. -/
theorem mount_eq (h : Written image uninit c c' tail n) :
    ∃ blocks, mount image = .ok (some ⟨blocks, 32⟩) := by
  have hmagic : readNoinc image 0 8 = magic := by
    have hbyte : ∀ i ∈ List.range 8, image (0 + i) = byteAt (rootBlock uninit c c') (0 + i) := by
      intro i hi
      have hi : i < 8 := List.mem_range.1 hi
      exact h.root (0 + i) (by omega) (Or.inl (by omega))
    rw [readNoinc, List.map_congr_left hbyte]
    rfl
  have hvolume : readString image 16 16 = .ok ([0x56, 0x4d, 0x57, 0x6f, 0x73], 16) :=
    (h.volumeName).readString (by decide)
  rw [mount, if_neg (not_not.2 hmagic), hvolume]
  exact ⟨_, rfl⟩

/-- With a third entry at 96 that ends the chain, the image holds a root directory. -/
theorem represents (h : Written image uninit c c' tail n) {name : CString} {target : Nat}
    (hname : NameAt image 112 name) (hshort : name.length < romfsMaxFilenameSize)
    (hnext : headerNext image 96 = 0) (hlinks : LinksTo image 96 target)
    (htype : headerType image target ≠ 1) : Represents image (rootTree name target) := by
  have hdot : readWord image 32 = 0x49 := h.word (k := 0x49) (by decide) (by decide) rfl
  have hdotSpec : readWord image 36 = 0x20 := h.word (k := 0x20) (by decide) (by decide) rfl
  have hdotdot : readWord image 64 = 0x60 := h.word (k := 0x60) (by decide) (by decide) rfl
  have hdotdotSpec : readWord image 68 = 0x20 := h.word (k := 0x20) (by decide) (by decide) rfl
  have hroot : ∀ d entries, (rootTree name target).directory d = some entries →
      d = 32 ∧ entries = rootEntries name target := by
    intro d entries hd
    simp only [rootTree] at hd
    split at hd
    · rename_i h32
      exact ⟨h32, (Option.some.inj hd).symm⟩
    · cases hd
  have htype32 : headerType image 32 = 1 := by
    rw [headerType, hdot]
    rfl
  have hself : LinksTo image 32 32 := by
    refine ⟨[], rfl, ?_⟩
    exact linkNext_eq_none.2 (by rw [htype32]; exact Nat.one_ne_zero)
  refine ⟨h.volumeName, ?_, ?_, ?_⟩
  · intro d entries hd
    obtain ⟨rfl, -⟩ := hroot d entries hd
    exact htype32
  · -- the chain 32, 64, 96
    intro d entries hd
    obtain ⟨rfl, rfl⟩ := hroot d entries hd
    have hnext32 : nextHeader image 32 = some 64 := by
      rw [nextHeader, headerNext, hdot]
      rfl
    have hnext64 : nextHeader image 64 = some 96 := by
      rw [nextHeader, headerNext, hdotdot]
      rfl
    have hnext96 : nextHeader image 96 = none := if_pos hnext
    have hspec : headerSpec image 32 = 32 := hdotSpec
    rw [hspec]
    refine ⟨rfl, ?_⟩
    rw [hnext32]
    refine ⟨rfl, ?_⟩
    rw [hnext64]
    exact ⟨rfl, hnext96⟩
  · intro d entries hd e he
    obtain ⟨rfl, rfl⟩ := hroot d entries hd
    simp only [rootEntries, List.mem_cons, List.not_mem_nil, or_false] at he
    rcases he with rfl | rfl | rfl
    · exact ⟨by decide, h.name (by decide) (by decide) (by decide) (by decide) rfl, by decide, hself,
        fun hnone => by cases hnone⟩
    · -- `..` is a hard link to `.`
      have hlink : linkNext image 64 = some 32 := by
        refine linkNext_eq_some.2 ⟨?_, hdotdotSpec⟩
        rw [headerType, hdotdot]
        rfl
      have hup : LinksTo image 64 32 := by
        obtain ⟨links, hlinks⟩ := hself
        exact ⟨64 :: links, rfl, by rw [hlink]; exact hlinks⟩
      exact ⟨by decide, h.name (by decide) (by decide) (by decide) (by decide) rfl, by decide, hup,
        fun hnone => by cases hnone⟩
    · exact ⟨Nat.succ_pos 95, hname, hshort, hlinks, fun _ => htype⟩

end Written

/-! ## The first file -/

theorem byteAt_padded (l : List UInt8) (i : Nat) : byteAt (padded l) i = byteAt l i := by
  rw [padded, byteAt_append]
  split
  · rfl
  · rename_i hend
    rw [byteAt_replicate_zero, byteAt_of_le (Nat.le_of_not_lt hend)]

namespace Written

variable {image : Image} {uninit : Nat → UInt8} {c c' n checksum : Nat} {file : InputFile}
  {rest : List UInt8}

theorem file_fits (h : Written image uninit c c' (fileBlock file checksum ++ rest) n) :
    imageSize file ≤ n := by
  have hfits := h.fits
  rw [List.length_append, length_fileBlock] at hfits
  unfold imageSize
  omega

theorem file_type (h : Written image uninit c c' (fileBlock file checksum ++ rest) n) :
    headerType image 96 = 2 := by
  have hword : readWord image 96 = 2 := h.word_tail 0 regularFile (Nat.zero_le _) rfl
  rw [headerType, hword]
  rfl

/-- The first word of a file has no offset of a next header. -/
theorem file_next (h : Written image uninit c c' (fileBlock file checksum ++ rest) n) :
    headerNext image 96 = 0 := by
  have hword : readWord image 96 = 2 := h.word_tail 0 regularFile (Nat.zero_le _) rfl
  rw [headerNext, hword]
  rfl

theorem file_size (h : Written image uninit c c' (fileBlock file checksum ++ rest) n)
    (hsize : imageSize file ≤ 2147483647) : headerSize image 96 = file.contents.length := by
  have hword : readWord image 104 = uint32 file.contents.length :=
    h.word_tail 8 file.contents.length (by decide) rfl
  have hlt : file.contents.length < 2147483648 := by
    unfold imageSize paddedLength at hsize
    omega
  have hoffset : uint32 (96 + 8) = 104 := rfl
  rw [headerSize, hoffset, hword, uint32_of_lt (by omega), int32_of_lt hlt]

theorem file_links (h : Written image uninit c c' (fileBlock file checksum ++ rest) n) :
    LinksTo image 96 96 := by
  refine ⟨[], rfl, ?_⟩
  apply linkNext_eq_none.2
  rw [h.file_type]
  decide

/-- Behind the header come the name and the contents, both padded. -/
theorem file_byte (h : Written image uninit c c' (fileBlock file checksum ++ rest) n) {i : Nat}
    (hi : 112 + i < imageSize file) :
    image (112 + i) = if i < paddedLength file.name.length then byteAt file.name i
      else byteAt file.contents (i - paddedLength file.name.length) := by
  have hfits := h.file_fits
  have htail := h.tail (16 + i) (by omega)
  have hsplit : fileBlock file checksum ++ rest =
      (htonl regularFile ++ htonl 0 ++ htonl file.contents.length ++ htonl checksum) ++
        (padded file.name ++ (padded file.contents ++ rest)) := by
    simp only [fileBlock, List.append_assoc]
  have hend : i < paddedLength file.name.length ∨
      i - paddedLength file.name.length < paddedLength file.contents.length := by
    unfold imageSize at hi
    omega
  rw [← Nat.add_assoc, hsplit, byteAt_append, if_neg (by simp), byteAt_append, byteAt_append,
    length_padded, length_padded, byteAt_padded, byteAt_padded] at htail
  simp only [List.length_append, length_htonl, Nat.reduceAdd, Nat.add_sub_cancel_left] at htail
  rw [htail]
  split
  · rfl
  · rename_i hname
    rw [if_pos (hend.resolve_left hname)]

theorem file_name (h : Written image uninit c c' (fileBlock file checksum ++ rest) n) :
    NameAt image 112 file.name where
  noNul := file.noNul
  bytes i hi := by
    have hin : 112 + i < imageSize file := by
      unfold imageSize
      omega
    rw [h.file_byte hin, if_pos hi]
  inRange := by
    have hshort := file.short
    unfold paddedLength
    omega

/-- For the driver the root directory ends with the first file. -/
theorem root_represents (h : Written image uninit c c' (fileBlock file checksum ++ rest) n) :
    Represents image (rootTree file.name 96) := by
  apply h.represents h.file_name file.short h.file_next h.file_links
  rw [h.file_type]
  decide

end Written

/-- Without a file the padding is taken for a third header, with an empty name. -/
theorem Written.root_represents_nil {image : Image} {uninit : Nat → UInt8} {c c' n : Nat}
    (h : Written image uninit c c' [] n) : Represents image (rootTree [] 0) := by
  have hlength := h.length
  have hzero : ∀ i < 928, image (96 + i) = 0 := fun i hi => h.tail i (by omega)
  have hword : ∀ offset ≤ 900, readWord image (96 + offset) = 0 := by
    intro offset hoffset
    have hzeros : readWord image (96 + offset) = readWord (fun _ => 0) 0 := by
      apply readWord_congr
      intro i hi
      rw [Nat.add_assoc]
      exact hzero (offset + i) (by omega)
    rw [hzeros]
    rfl
  -- the header it links to is the magic number
  have hmagic : readWord image 0 = readWord (fun a => byteAt magic a) 0 := by
    apply readWord_congr
    intro i hi
    rw [h.root (0 + i) (by omega) (by omega)]
    exact byteAt_append magic _ _ |>.trans (if_pos (show 0 + i < 8 by omega))
  have htype0 : headerType image 0 = 5 := by
    rw [headerType, hmagic]
    decide
  have hlinks : LinksTo image 96 0 := by
    have hlink : linkNext image 96 = some 0 := by
      refine linkNext_eq_some.2 ⟨?_, hword 4 (by decide)⟩
      rw [headerType, hword 0 (by decide)]
      rfl
    refine ⟨[96], rfl, ?_⟩
    rw [hlink]
    refine ⟨rfl, ?_⟩
    apply linkNext_eq_none.2
    rw [htype0]
    decide
  have hname : NameAt image 112 [] := by
    refine ⟨List.not_mem_nil, ?_, by decide⟩
    intro i hi
    have hi : i < 16 := hi
    have hbyte := hzero (16 + i) (by omega)
    rwa [← Nat.add_assoc] at hbyte
  apply h.represents hname (by decide) _ hlinks
  · rw [htype0]
    decide
  · rw [headerNext, hword 0 (by decide)]
    rfl

/-! ## Listing it -/

section Names

variable {image : Image} {name : CString} {target size : Nat} {names : List CString}

/-- The calls for the root directory deliver its three entries. -/
theorem listing_root (h : Represents image (rootTree name target))
    (hshort : name.length < romfsMaxFilenameSize) (hsize : 1024 ≤ size) :
    ∃ n, Romfs.listing image 32 (fun _ => size) n 0 0 =
      some ((rootEntries name target).map Entry.record) := by
  have hlength : direntLength name.length ≤ 272 := by
    have hshort : name.length < 256 := hshort
    simp only [direntLength]
    split <;> omega
  have hrecords : ∀ e ∈ rootEntries name target, e.recordLength ≤ 272 := by
    intro e he
    simp only [rootEntries, List.mem_cons, List.not_mem_nil, or_false] at he
    rcases he with rfl | rfl | rfl
    · decide
    · decide
    · exact hlength
  have hsizes : ∀ k : Nat, ∀ e ∈ rootEntries name target, e.recordLength ≤ (fun _ => size) k :=
    fun _ e he => Nat.le_trans (hrecords e he) (Nat.le_trans (by decide) hsize)
  apply listing_done h rfl hsizes Resumes.start
  -- the room behind the three records
  have hdot : Entry.recordLength ⟨32, [0x2e], 32⟩ = 16 := rfl
  have hdotdot : Entry.recordLength ⟨64, [0x2e, 0x2e], 32⟩ = 16 := rfl
  have hthird : Entry.recordLength ⟨96, name, target⟩ = direntLength name.length := rfl
  have hvolume : direntLength (rootTree name target).volumeName.length = 20 :=
    (by decide : direntLength 5 = 20)
  rw [hvolume]
  simp only [lastRoom, hdot, hdotdot, hthird]
  rw [if_pos (by omega), if_pos (by omega), if_pos (by omega)]
  omega

theorem listsNames_root (h : Represents image (rootTree name target))
    (hshort : name.length < romfsMaxFilenameSize) (hsize : 1024 ≤ size) :
    ListsNames image 32 size [name] := by
  obtain ⟨n, hn⟩ := listing_root h hshort hsize
  exact ⟨n, _, hn, rfl⟩

/-- No other names are listed. -/
theorem ListsNames.eq (hnames : ListsNames image 32 size names)
    (h : Represents image (rootTree name target)) (hshort : name.length < romfsMaxFilenameSize)
    (hsize : 1024 ≤ size) : names = [name] := by
  obtain ⟨n, hn⟩ := listing_root h hshort hsize
  obtain ⟨m, records, hm, hrecords⟩ := hnames
  have hsame := (listing_mono hn (Nat.le_max_left n m)).symm.trans
    (listing_mono hm (Nat.le_max_right n m))
  cases Option.some.inj hsame
  simp only [rootEntries, List.map_cons, List.map_nil, List.cons.injEq] at hrecords
  exact hrecords.2.2.symm

end Names

/-! ## Looking names up in it -/

section Lookup

variable {image : Image} {name : CString}

/-- A name without a slash is one component, however long it is. -/
theorem splitFilename_whole (hshort : name.length < 256) (hslash : 0x2f ∉ name) :
    splitFilename name maxFilenameSize = (name, none) := by
  apply splitFilenameLoop_last hslash
  rw [Nat.zero_add]
  exact Nat.le_of_lt_succ hshort

theorem lastComponent_of_not_mem (hslash : 0x2f ∉ name) : lastComponent name = name := by
  apply List.rtakeWhile_eq_self_iff.2
  intro a ha
  apply decide_eq_true
  exact fun h => hslash (h ▸ ha)

theorem lastComponent_append (dir rest : CString) :
    lastComponent (dir ++ 0x2f :: rest) = lastComponent rest := by
  induction rest using List.reverseRecOn with
  | nil => exact List.rtakeWhile_concat_neg _ _ _ (by decide)
  | append_singleton rest a ih =>
      have hassoc : dir ++ 0x2f :: (rest ++ [a]) = (dir ++ 0x2f :: rest) ++ [a] := by simp
      unfold lastComponent at ih ⊢
      rw [hassoc, List.rtakeWhile_concat, List.rtakeWhile_concat, ih]

/-- The first file, when its name has no slash. -/
theorem lookupInodeDir_name (h : Represents image (rootTree name 96)) (hnul : 0 ∉ name)
    (hshort : name.length < 256) (hdot : name ∉ [[0x2e], [0x2e, 0x2e]]) :
    Romfs.lookupInodeDir image 32 name = .ok (0, 96) := by
  simp only [List.mem_cons, List.not_mem_nil, or_false, not_or] at hdot
  rw [h.lookupInodeDir_eq (show (rootTree name 96).directory 32 = some _ from rfl) hnul
    (Nat.le_of_lt hshort)]
  simp [rootEntries, Ne.symm hdot.1, Ne.symm hdot.2]

/-- Any other name: `.` and `..` lead back to the root directory. -/
theorem lookupInodeDir_ne (h : Represents image (rootTree name 96)) {c : CString} (hnul : 0 ∉ c)
    (hshort : c.length < 256) (hne : name ≠ c) :
    Romfs.lookupInodeDir image 32 c =
      .ok (if c ∈ [[0x2e], [0x2e, 0x2e]] then 0 else -1, 32) := by
  rw [h.lookupInodeDir_eq (show (rootTree name 96).directory 32 = some _ from rfl) hnul
    (Nat.le_of_lt hshort)]
  by_cases hdot : c = [0x2e]
  · simp [rootEntries, hdot]
  · by_cases hdotdot : c = [0x2e, 0x2e]
    · simp [rootEntries, hdotdot]
    · simp [rootEntries, hdot, hdotdot, hne, Ne.symm hdot, Ne.symm hdotdot]

/-- No component of a path is the name of the first file when that has a slash. -/
theorem lookupComponents_slash (h : Represents image (rootTree name 96)) (hslash : 0x2f ∈ name)
    {path : CString} {fuel number : Nat} {result : Int} (hnul : 0 ∉ path)
    (hshort : path.length < 256) (hlast : lastComponent path ∉ [[], [0x2e], [0x2e, 0x2e]])
    (hlookup : Romfs.lookupComponents image fuel 32 path = .ok (result, number)) : result < 0 := by
  induction fuel generalizing path with
  | zero => cases hlookup
  | succ fuel ih =>
      rw [Romfs.lookupComponents] at hlookup
      by_cases hpath : 0x2f ∈ path
      · obtain ⟨dir, rest, rfl, hdir⟩ := List.eq_append_cons_of_mem hpath
        rw [List.length_append, List.length_cons] at hshort
        rw [lastComponent_append] at hlast
        have hsplit : splitFilename (dir ++ 0x2f :: rest) maxFilenameSize = (dir, some rest) :=
          splitFilenameLoop_slash hdir (show 0 + dir.length < 255 by omega)
        have hdirNul : 0 ∉ dir := fun hmem => hnul (List.mem_append_left _ hmem)
        have hrestNul : 0 ∉ rest := fun hmem =>
          hnul (List.mem_append_right _ (List.mem_cons_of_mem _ hmem))
        simp only [hsplit, lookupInodeDir_ne h hdirNul (by omega) fun heq => hdir (heq ▸ hslash)]
          at hlookup
        split at hlookup
        · exact ih hrestNul (by omega) hlast hlookup
        · cases hlookup
          decide
      · -- the last component
        rw [lastComponent_of_not_mem hpath] at hlast
        have hno : path ∉ [[0x2e], [0x2e, 0x2e]] := fun hmem => hlast (List.mem_cons_of_mem _ hmem)
        simp only [splitFilename_whole hshort hpath, if_neg hno,
          lookupInodeDir_ne h hnul hshort fun heq => hpath (heq ▸ hslash)] at hlookup
        cases hlookup
        decide

end Lookup

/-! ## Reading the first file -/

namespace Written

variable {image : Image} {uninit : Nat → UInt8} {c c' n checksum deviceLength : Nat}
  {file : InputFile} {rest : List UInt8}

theorem fillInode_size (image : Image) (inode : Inode) :
    (fillInode image inode).size = uint64OfInt (headerSize image inode.number) := by
  rw [fillInode]

theorem contents_lt (file : InputFile) :
    112 + paddedLength file.name.length + file.contents.length < imageSize file := by
  have hpad : file.contents.length < paddedLength file.contents.length := by
    unfold paddedLength
    omega
  exact Nat.add_lt_add_left hpad _

/-- The bytes of the contents. -/
theorem file_contents (h : Written image uninit c c' (fileBlock file checksum ++ rest) n)
    {offset amount : Nat} (hamount : offset + amount ≤ file.contents.length) :
    readNoinc image (112 + paddedLength file.name.length + offset) amount =
      read file.contents offset amount := by
  have hlen : (readNoinc image (112 + paddedLength file.name.length + offset) amount).length =
      amount := by simp [readNoinc]
  have hread : (read file.contents offset amount).length = amount := by
    rw [length_read]
    omega
  apply ext_byteAt
  · rw [hlen, hread]
  · intro i hi
    rw [hlen] at hi
    have hlt := contents_lt file
    have hbyte := h.file_byte (i := paddedLength file.name.length + (offset + i)) (by omega)
    rw [if_neg (Nat.not_lt.2 (Nat.le_add_right _ _)), Nat.add_sub_cancel_left] at hbyte
    rw [byteAt_read, if_pos hi, ← hbyte, byteAt_of_lt (by rwa [hlen])]
    simp [readNoinc, Nat.add_assoc]

/-- The file is in the image as the driver expects it. -/
theorem fileAt (h : Written image uninit c c' (fileBlock file checksum ++ rest) n)
    (hsize : imageSize file ≤ 2147483647) (hdevice : imageSize file ≤ deviceLength) :
    FileAt image deviceLength 96 file.name file.contents where
  type := h.file_type
  size := h.file_size hsize
  nameAt := h.file_name
  bytes := by
    have hall : 0 + file.contents.length ≤ file.contents.length := Nat.le_of_eq (Nat.zero_add _)
    rw [← Nat.add_zero (96 + 16 + _), h.file_contents hall, FileBytes.read, List.drop_zero,
      List.take_length]
  onDevice := by
    have hlt := contents_lt file
    omega
  inRange := by
    have hlt := contents_lt file
    omega

theorem retrieves (h : Written image uninit c c' (fileBlock file checksum ++ rest) n)
    (hsize : imageSize file ≤ 2147483647) (hdevice : imageSize file ≤ deviceLength)
    (hslash : 0x2f ∉ file.name) : Retrieves image deviceLength 32 file := by
  intro inode hinode
  have hfile := file.isFile
  rw [lastComponent_of_not_mem hslash] at hfile
  simp only [List.mem_cons, not_or] at hfile
  have hdir : Romfs.lookupInodeDir image 32 file.name = .ok (0, 96) :=
    lookupInodeDir_name h.root_represents file.noNul file.short (by simp [hfile])
  have hread : readInode image { inode with number := 96 } =
      .ok (0, fillInode image { inode with number := 96 }) := by
    apply readInode_of_type_ne
    show headerType image 96 ≠ 0
    rw [h.file_type]
    decide
  refine ⟨fillInode image { inode with number := 96 }, ?_, ?_, fun count offset hcount hoffset =>
    (h.fileAt hsize hdevice).readFile_contents (Nat.lt_trans hcount (by decide)) hoffset⟩
  · rw [Romfs.lookupInode, if_neg hfile.1, Romfs.lookupComponents, hinode]
    simp only [splitFilename_whole file.short hslash, hdir]
    exact hread
  · have hlt := contents_lt file
    rw [fillInode_size, h.file_size hsize]
    exact uint64OfInt_natCast (by omega)

end Written

/-! ## What the driver makes of an image -/

/-- The bytes themselves, as a device. -/
theorem holdsFile_self (out : FileBytes) : HoldsFile (fun a => byteAt out a) out := fun _ _ => rfl

/-- The root directory of an image is where the volume name ends. -/
theorem Agrees.root {image : Image} {uninit : Nat → UInt8} {c c' n deviceLength : Nat}
    {tail : List UInt8} {files : List InputFile} (hagrees : Agrees image deviceLength files)
    (h : Written image uninit c c' tail n) :
    (∀ file ∈ files, Retrieves image deviceLength 32 file) ∧
      ∀ size, 1024 ≤ size → ListsNames image 32 size (files.map InputFile.name) := by
  obtain ⟨m, hm, hagrees⟩ := hagrees
  obtain ⟨blocks, hmount⟩ := h.mount_eq
  rw [hmount] at hm
  cases hm
  exact hagrees

/-- The listing has one name, so there was one file. -/
theorem Agrees.singleton {uninit : Nat → UInt8} {files : List InputFile} {out : FileBytes}
    {deviceLength : Nat} (h : mkromfs uninit files = some out)
    (hagrees : Agrees (fun a => byteAt out a) deviceLength files) : ∃ file, files = [file] := by
  cases files with
  | nil =>
      obtain ⟨c, c', hnil⟩ := mkromfs_nil uninit
      have hout : out = finish (atEnd (rootBlock uninit c c')) := Option.some.inj (h.symm.trans hnil)
      have hholds : HoldsFile (fun a => byteAt out a)
          (finish (atEnd (rootBlock uninit c c' ++ []))) := by
        rw [List.append_nil, ← hout]
        exact holdsFile_self out
      have hwritten := written_of_holdsFile hholds
      have hlists := (hagrees.root hwritten).2 1024 (Nat.le_refl _)
      cases hlists.eq hwritten.root_represents_nil (by decide) (Nat.le_refl _)
  | cons file files =>
      obtain ⟨c, c', checksum, rest, hout⟩ := mkromfs_cons h
      have hholds : HoldsFile (fun a => byteAt out a)
          (finish (atEnd (rootBlock uninit c c' ++ (fileBlock file checksum ++ rest)))) := by
        rw [← hout]
        exact holdsFile_self out
      have hwritten := written_of_holdsFile hholds
      have hlists := (hagrees.root hwritten).2 1024 (Nat.le_refl _)
      have hnames := hlists.eq hwritten.root_represents file.short (Nat.le_refl _)
      rw [List.map_cons, List.cons.injEq, List.map_eq_nil_iff] at hnames
      exact ⟨file, by rw [hnames.2]⟩

/-- A name with a slash is not found. -/
theorem not_retrieves {image : Image} {deviceLength : Nat} {file : InputFile}
    (h : Represents image (rootTree file.name 96)) (hslash : 0x2f ∈ file.name) :
    ¬ Retrieves image deviceLength 32 file := by
  intro hretrieves
  obtain ⟨inode, hlookup, -⟩ := hretrieves { Inode.zeroed with number := 32 } rfl
  rw [Romfs.lookupInode, if_neg (List.ne_nil_of_mem hslash)] at hlookup
  split at hlookup
  · cases hlookup
  · rename_i result number hcomponents
    have hneg : result < 0 := lookupComponents_slash h hslash file.noNul file.short file.isFile
      hcomponents
    rw [if_pos hneg] at hlookup
    cases hlookup
    exact absurd hneg (Int.lt_irrefl 0)

end Vmwos.Mkromfs
