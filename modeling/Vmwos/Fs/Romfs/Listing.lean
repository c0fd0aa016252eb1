import Vmwos.Fs.Romfs.Lookup
import Vmwos.Library.Packing

/-!
# Listing a ROMFS directory

`romfs_getdents` packs the records of a directory into the caller's buffer and remembers the
header to go on from. At the end of the chain that header is 0, which is also how a listing
starts, and before the end is noticed the string at offset 16 is measured as if there were one
more header at offset 0: it is the name of the volume. When a record of that name does not fit
into the rest of the buffer, the call stores 0 and the listing starts again.

`Represents.getdents_eq` says what one call does. From it `listing_done` and `listing_again`
follow by induction over the records left, and `listsOnce_iff` says for which buffers a directory
is listed once.
-/

set_option autoImplicit false

namespace Vmwos.Romfs

open Library

/-- The records that repeated calls deliver, from the `k`-th buffer size on, until one returns
0; `none` when `n` calls are not enough or one fails. -/
def listing (image : Image) (dirNumber : Nat) (sizes : Nat → Nat) :
    Nat → (k progress : Nat) → Option (List Dirent)
  | 0, _, _ => none
  | n + 1, k, progress =>
      match getdents image dirNumber progress (sizes k) with
      | .error _ => none
      | .ok (result, records, progress) =>
          if result < 0 then none
          else if result = 0 then some []
          else (listing image dirNumber sizes n (k + 1) progress).map (records ++ ·)

/-- Reading the directory until a call returns 0 delivers each entry once, in the order of the
chain, with its name and the offset of its header. -/
def ListsOnce (image : Image) (dirNumber : Nat) (sizes : Nat → Nat) (entries : List Entry) : Prop :=
  ∃ n records, listing image dirNumber sizes n 0 0 = some records ∧
    (records.map fun r => (r.dIno, r.dName)) = entries.map fun e => (e.header, e.name)

/-- The length of the record of an entry. -/
def Entry.recordLength (e : Entry) : Nat := direntLength e.name.length

/-- The record of an entry. -/
def Entry.record (e : Entry) : Dirent := dirent e.header e.name.length e.name

/-- The header at which a chain starts, 0 for an empty one. -/
def firstHeader (entries : List Entry) : Nat := (entries.map Entry.header).head?.getD 0

/-- The progress that a call stores: the header that did not fit, or at the end of the chain the
end marker, if a record of the volume name would have fitted too. -/
def progressAfter (volumeName : CString) (p : Packed Entry) : Nat :=
  if p.left = [] then
    if direntLength volumeName.length ≤ p.room then 0xffffffff else 0
  else firstHeader p.left

theorem headerNext_eq (image : Image) (header : Nat) :
    headerNext image header = (nextHeader image header).getD 0 := by
  unfold nextHeader
  split
  · assumption
  · rfl

theorem direntLength_pos (nameLength : Nat) : 0 < direntLength nameLength := by
  simp only [direntLength]
  split <;> omega

theorem progressAfter_nil (volumeName : CString) (taken : List Entry) (room : Nat) :
    progressAfter volumeName ⟨taken, [], room⟩ =
      if direntLength volumeName.length ≤ room then 0xffffffff else 0 := if_pos rfl

theorem progressAfter_cons (volumeName : CString) (taken : List Entry) (e : Entry)
    (left : List Entry) (room : Nat) :
    progressAfter volumeName ⟨taken, e :: left, room⟩ = e.header := if_neg (List.cons_ne_nil e left)

theorem map_record (entries : List Entry) :
    ((entries.map Entry.record).map fun r => (r.dIno, r.dName)) =
      entries.map fun e => (e.header, e.name) := by
  rw [List.map_map]
  rfl

section Directory

variable {image : Image} {tree : Tree} {d : Nat} {entries es : List Entry}

/-- The loop packs the records of the chain that are left. -/
theorem getdentsLoop_eq {volumeName : CString} {size room fuel totalLength : Nat}
    {records : List Dirent} (hvolume : NameAt image 16 volumeName)
    (hchain : Segment (nextHeader image) (es.map Entry.header).head? (es.map Entry.header) none)
    (hentries : ∀ e ∈ es, EntryAt image tree e) (htotal : totalLength + room = size)
    (hfuel : room < fuel) :
    getdentsLoop image size fuel (firstHeader es) records totalLength =
      .ok (records ++ (pack Entry.recordLength room es).taken.map Entry.record,
        size - (pack Entry.recordLength room es).room,
        progressAfter volumeName (pack Entry.recordLength room es)) := by
  induction es generalizing fuel room totalLength records with
  | nil =>
      obtain ⟨fuel, rfl⟩ := Nat.exists_eq_succ_of_ne_zero (Nat.ne_of_gt (Nat.zero_lt_of_lt hfuel))
      have hlength : stringLength image (uint32 (firstHeader [] + 16)) = .ok volumeName.length :=
        hvolume.stringLength
      have hsize : size - room = totalLength := by omega
      rw [getdentsLoop, hlength, pack_nil, progressAfter_nil, List.map_nil, List.append_nil, hsize]
      -- the volume name is measured before the end of the chain is noticed
      by_cases hfits : direntLength volumeName.length ≤ room
      · have hroom : ¬ direntLength volumeName.length + totalLength > size := by omega
        rw [if_pos hfits]
        simp only [hroom, if_false]
        rfl
      · have hroom : direntLength volumeName.length + totalLength > size := by omega
        rw [if_neg hfits]
        simp only [hroom, if_true]
        rfl
  | cons e es ih =>
      obtain ⟨fuel, rfl⟩ := Nat.exists_eq_succ_of_ne_zero (Nat.ne_of_gt (Nat.zero_lt_of_lt hfuel))
      have he := hentries e List.mem_cons_self
      have hfirst : firstHeader (e :: es) = e.header := rfl
      rw [getdentsLoop, hfirst, he.name_offset, he.name.stringLength]
      simp only [he.name.readString (Nat.le_refl _)]
      have hpos := direntLength_pos e.name.length
      by_cases hfits : e.recordLength ≤ room
      · have hroom : ¬ direntLength e.name.length + totalLength > size := by
          unfold Entry.recordLength at hfits
          omega
        have hnext : headerNext image e.header = firstHeader es := by
          rw [headerNext_eq, hchain.2.start_eq]
          rfl
        have htotal' : totalLength + direntLength e.name.length + (room - e.recordLength) = size := by
          unfold Entry.recordLength at hfits ⊢
          omega
        have hchain' : Segment (nextHeader image) (es.map Entry.header).head?
            (es.map Entry.header) none := by
          have hrest := hchain.2
          rwa [hrest.start_eq] at hrest
        have hfuel' : room - e.recordLength < fuel := by
          unfold Entry.recordLength
          omega
        simp only [hroom, if_false, Nat.ne_of_gt he.header_pos]
        rw [hnext, ih hchain' (fun e' he' => hentries e' (List.mem_cons_of_mem e he')) htotal' hfuel',
          pack_cons_of_le hfits, List.append_assoc]
        rfl
      · have hroom : direntLength e.name.length + totalLength > size := by
          unfold Entry.recordLength at hfits
          omega
        have hsize : size - room = totalLength := by omega
        simp only [hroom, if_true, pack_cons_of_not_le hfits, progressAfter_cons, List.map_nil,
          List.append_nil, hsize]

/-- A progress from which a call goes on with the entries `es`. -/
inductive Resumes (entries : List Entry) : Nat → List Entry → Prop where
  | start : Resumes entries 0 entries
  | goOn {e : Entry} {before after : List Entry} (h : entries = before ++ e :: after) :
      Resumes entries e.header (e :: after)

theorem Resumes.suffix {progress : Nat} (hp : Resumes entries progress es) :
    ∃ before, entries = before ++ es := by
  cases hp with
  | start => exact ⟨[], rfl⟩
  | goOn h => exact ⟨_, h⟩

/-- One call of `romfs_getdents` packs one buffer. -/
theorem Represents.getdents_eq (h : Represents image tree) (hd : tree.directory d = some entries)
    {progress : Nat} (hp : Resumes entries progress es) (size : Nat) :
    getdents image d progress size =
      .ok (((size - (pack Entry.recordLength size es).room : Nat) : Int),
        (pack Entry.recordLength size es).taken.map Entry.record,
        progressAfter tree.volumeName (pack Entry.recordLength size es)) := by
  have hchain := h.chain d entries hd
  have hentries := h.entryAt d entries hd
  have hloop : getdentsLoop image size (size + 1) (firstHeader es) [] 0 =
      .ok ([] ++ (pack Entry.recordLength size es).taken.map Entry.record,
        size - (pack Entry.recordLength size es).room,
        progressAfter tree.volumeName (pack Entry.recordLength size es)) := by
    obtain ⟨before, rfl⟩ := hp.suffix
    rw [List.map_append] at hchain
    exact getdentsLoop_eq h.volume hchain.suffix
      (fun e he => hentries e (List.mem_append_right before he)) (Nat.zero_add size)
      (Nat.lt_succ_self size)
  rw [List.nil_append] at hloop
  cases hp with
  | start =>
      have hfirst : headerSpec image d = firstHeader entries := by
        have hstart := hchain.start_eq
        unfold firstHeader
        rw [← hstart]
        rfl
      have hne : ¬ (uint32 0 = 0 ∧ headerType image d ≠ 1) := by
        intro hnot
        exact hnot.2 (h.isDirectory d entries hd)
      have hzero : uint32 0 = 0 := rfl
      rw [getdents, if_neg (by decide), if_neg hne]
      simp only [hzero, if_true, hfirst, hloop]
  | @goOn e before after hes =>
      have he := hentries e (by rw [hes]; simp)
      have hlt := he.header_lt
      have hinode : uint32 e.header = e.header := uint32_of_lt (by omega)
      have hpos := he.header_pos
      have hfirst : firstHeader (e :: after) = e.header := rfl
      rw [hfirst] at hloop
      rw [getdents, hinode, if_neg (by omega), if_neg (by omega)]
      simp only [Nat.ne_of_gt hpos, if_false, hloop]

variable {sizes : Nat → Nat}

/-- A call into whose buffer the next record fits, and the calls after it. -/
theorem Represents.listing_succ (h : Represents image tree) (hd : tree.directory d = some entries)
    {progress k : Nat} {e : Entry} (hp : Resumes entries progress (e :: es))
    (hfits : e.recordLength ≤ sizes k) (n : Nat) :
    listing image d sizes (n + 1) k progress =
      (listing image d sizes n (k + 1)
        (progressAfter tree.volumeName (pack Entry.recordLength (sizes k) (e :: es)))).map
          ((pack Entry.recordLength (sizes k) (e :: es)).taken.map Entry.record ++ ·) := by
  have hroom : (pack Entry.recordLength (sizes k) (e :: es)).room + e.recordLength ≤ sizes k :=
    pack_room_add_le hfits
  have hpos : 0 < e.recordLength := direntLength_pos _
  rw [listing, h.getdents_eq hd hp (sizes k)]
  simp only
  rw [if_neg (by omega), if_neg (by omega)]

/-- Where a call goes on when it leaves records behind. -/
theorem Resumes.progressAfter {progress room : Nat} (hp : Resumes entries progress es)
    (volumeName : CString) {e : Entry} {after : List Entry}
    (hleft : (pack Entry.recordLength room es).left = e :: after) :
    Resumes entries (Romfs.progressAfter volumeName (pack Entry.recordLength room es))
      (e :: after) := by
  obtain ⟨before, hbefore⟩ := hp.suffix
  have hsplit : (pack Entry.recordLength room es).taken ++
      (pack Entry.recordLength room es).left = es := pack_append room es
  rw [hleft] at hsplit
  have hentries : entries = before ++ (pack Entry.recordLength room es).taken ++ e :: after := by
    rw [List.append_assoc, hsplit, hbefore]
  rw [Romfs.progressAfter, hleft, if_neg (List.cons_ne_nil e after)]
  exact Resumes.goOn hentries

/-- At the end marker a call returns 0. -/
theorem listing_end (image : Image) (d : Nat) (sizes : Nat → Nat) (k : Nat) :
    listing image d sizes 1 k 0xffffffff = some [] := rfl

/-- More calls than are needed deliver the same. -/
theorem listing_mono {image : Image} {d n m k progress : Nat} {sizes : Nat → Nat}
    {records : List Dirent} (hlisting : listing image d sizes n k progress = some records)
    (hle : n ≤ m) : listing image d sizes m k progress = some records := by
  induction n generalizing m k progress records with
  | zero => cases hlisting
  | succ n ih =>
      obtain ⟨m, rfl⟩ := Nat.exists_eq_succ_of_ne_zero (Nat.ne_of_gt (Nat.zero_lt_of_lt hle))
      rw [listing] at hlisting ⊢
      cases hcall : getdents image d progress (sizes k) with
      | error e =>
          rw [hcall] at hlisting
          cases hlisting
      | ok answer =>
          simp only [hcall] at hlisting ⊢
          split
          · rename_i hneg
            rw [if_pos hneg] at hlisting
            cases hlisting
          · rename_i hneg
            rw [if_neg hneg] at hlisting
            split
            · rename_i hzero
              rwa [if_pos hzero] at hlisting
            · rename_i hzero
              rw [if_neg hzero, Option.map_eq_some_iff] at hlisting
              obtain ⟨again, hagain, rfl⟩ := hlisting
              rw [ih hagain (Nat.le_of_succ_le_succ hle), Option.map_some]

/-- When the last buffer has room for a record of the volume name, the entries left are
delivered and the listing ends. -/
theorem listing_done (h : Represents image tree) (hd : tree.directory d = some entries)
    (hsizes : ∀ k, ∀ e ∈ entries, e.recordLength ≤ sizes k) {progress k : Nat} {e : Entry}
    (hp : Resumes entries progress (e :: es))
    (hroom : direntLength tree.volumeName.length ≤
      lastRoom Entry.recordLength sizes k (sizes k) (e :: es)) :
    ∃ n, listing image d sizes n k progress = some ((e :: es).map Entry.record) := by
  induction hlen : es.length using Nat.strong_induction_on generalizing es e progress k with
  | _ m ih =>
      obtain ⟨before, hbefore⟩ := hp.suffix
      have hmem : ∀ x ∈ e :: es, x ∈ entries := fun x hx => hbefore ▸ List.mem_append_right _ hx
      have hfits := hsizes k e (hmem e List.mem_cons_self)
      have hsplit : (pack Entry.recordLength (sizes k) (e :: es)).taken ++
          (pack Entry.recordLength (sizes k) (e :: es)).left = e :: es := pack_append _ _
      have hshorter := length_pack_left (l := es) hfits
      rw [lastRoom_eq sizes k (sizes k) fun x hx => hsizes (k + 1) x (hmem x hx)] at hroom
      cases hleft : (pack Entry.recordLength (sizes k) (e :: es)).left with
      | nil =>
          -- the last buffer
          rw [if_pos hleft] at hroom
          rw [hleft, List.append_nil] at hsplit
          refine ⟨2, ?_⟩
          rw [h.listing_succ hd hp hfits, progressAfter, if_pos hleft, if_pos hroom, listing_end,
            hsplit, Option.map_some, List.append_nil]
      | cons e' es' =>
          have hresumes := hp.progressAfter tree.volumeName hleft
          rw [hleft] at hroom hsplit hshorter
          rw [if_neg (List.cons_ne_nil e' es')] at hroom
          rw [List.length_cons] at hshorter
          obtain ⟨n, hn⟩ := ih es'.length (by omega) hresumes hroom rfl
          refine ⟨n + 1, ?_⟩
          rw [h.listing_succ hd hp hfits, hn, Option.map_some, ← List.map_append, hsplit]

/-- When it has not, the entries left are delivered and the listing starts again. -/
theorem listing_again (h : Represents image tree) (hd : tree.directory d = some entries)
    (hsizes : ∀ k, ∀ e ∈ entries, e.recordLength ≤ sizes k) {progress k n : Nat} {e : Entry}
    {records : List Dirent} (hp : Resumes entries progress (e :: es))
    (hroom : ¬ direntLength tree.volumeName.length ≤
      lastRoom Entry.recordLength sizes k (sizes k) (e :: es))
    (hlisting : listing image d sizes n k progress = some records) :
    ∃ n' k' again, listing image d sizes n' k' 0 = some again ∧
      records = (e :: es).map Entry.record ++ again := by
  induction hlen : es.length using Nat.strong_induction_on generalizing es e progress k n records with
  | _ m ih =>
      obtain ⟨before, hbefore⟩ := hp.suffix
      have hmem : ∀ x ∈ e :: es, x ∈ entries := fun x hx => hbefore ▸ List.mem_append_right _ hx
      have hfits := hsizes k e (hmem e List.mem_cons_self)
      have hsplit : (pack Entry.recordLength (sizes k) (e :: es)).taken ++
          (pack Entry.recordLength (sizes k) (e :: es)).left = e :: es := pack_append _ _
      have hshorter := length_pack_left (l := es) hfits
      rw [lastRoom_eq sizes k (sizes k) fun x hx => hsizes (k + 1) x (hmem x hx)] at hroom
      cases n with
      | zero => cases hlisting
      | succ n =>
          rw [h.listing_succ hd hp hfits, Option.map_eq_some_iff] at hlisting
          obtain ⟨again, hagain, rfl⟩ := hlisting
          cases hleft : (pack Entry.recordLength (sizes k) (e :: es)).left with
          | nil =>
              -- the progress stored is the one a listing starts with
              rw [if_pos hleft] at hroom
              rw [hleft, List.append_nil] at hsplit
              rw [progressAfter, if_pos hleft, if_neg hroom] at hagain
              exact ⟨n, k + 1, again, hagain, by rw [hsplit]⟩
          | cons e' es' =>
              have hresumes := hp.progressAfter tree.volumeName hleft
              rw [hleft] at hroom hsplit hshorter
              rw [if_neg (List.cons_ne_nil e' es')] at hroom
              rw [List.length_cons] at hshorter
              obtain ⟨n', k', rest, hrest, rfl⟩ :=
                ih es'.length (by omega) hresumes hroom hagain rfl
              refine ⟨n', k', rest, hrest, ?_⟩
              rw [← List.append_assoc, ← List.map_append, hsplit]

/-- A listing from the start delivers something. -/
theorem listing_start_ne_nil (h : Represents image tree) (hd : tree.directory d = some entries)
    (hsizes : ∀ k, ∀ e ∈ entries, e.recordLength ≤ sizes k) {n k : Nat} {records : List Dirent}
    (hlisting : listing image d sizes n k 0 = some records) : records ≠ [] := by
  cases n with
  | zero => cases hlisting
  | succ n =>
      have hchain := h.chain d entries hd
      cases hentries : entries with
      | nil =>
          rw [hentries] at hchain
          cases hchain
      | cons e es =>
          have hp : Resumes entries 0 (e :: es) := hentries ▸ Resumes.start
          have hfits : e.recordLength ≤ sizes k := hsizes k e (hentries ▸ List.mem_cons_self)
          rw [h.listing_succ hd hp hfits, Option.map_eq_some_iff] at hlisting
          obtain ⟨again, -, rfl⟩ := hlisting
          rw [pack_cons_of_le hfits]
          exact List.cons_ne_nil _ _

/-- Buffers into which every record fits list a directory once exactly if the one with the last
record has room for a record of the volume name too. -/
theorem listsOnce_iff (h : Represents image tree) (hd : tree.directory d = some entries)
    (hsizes : ∀ k, ∀ e ∈ entries, e.recordLength ≤ sizes k) :
    ListsOnce image d sizes entries ↔
      direntLength tree.volumeName.length ≤
        lastRoom Entry.recordLength sizes 0 (sizes 0) entries := by
  have hchain := h.chain d entries hd
  obtain ⟨e, es, hentries⟩ : ∃ e es, entries = e :: es := by
    cases entries with
    | nil => cases hchain
    | cons e es => exact ⟨e, es, rfl⟩
  have hp : Resumes entries 0 (e :: es) := hentries ▸ Resumes.start
  constructor
  · rintro ⟨n, records, hlisting, hmap⟩
    by_contra hroom
    rw [hentries] at hroom
    obtain ⟨n', k', again, hagain, rfl⟩ := listing_again h hd hsizes hp hroom hlisting
    rw [List.map_append, map_record, ← hentries, List.append_right_eq_self, List.map_eq_nil_iff] at hmap
    exact listing_start_ne_nil h hd hsizes hagain hmap
  · intro hroom
    rw [hentries] at hroom
    obtain ⟨n, hn⟩ := listing_done h hd hsizes hp hroom
    rw [← hentries] at hn
    exact ⟨n, entries.map Entry.record, hn, map_record entries⟩

end Directory

/-- Buffers of 68 bytes hold the three records of the example and one of `VMWos`. -/
theorem listsOnce_oneFile : ListsOnce oneFileImage 32 (fun _ => 68) oneFileEntries := by
  have hrecords : ∀ e ∈ oneFileEntries, e.recordLength ≤ 68 := by decide
  have hsizes : ∀ k : Nat, ∀ e ∈ oneFileEntries, e.recordLength ≤ (fun _ => 68) k :=
    fun _ => hrecords
  exact (listsOnce_iff oneFileImage_represents rfl hsizes).2 (by decide)

/-- Buffers of 48 bytes hold the three records exactly, and the listing never ends. -/
theorem not_listsOnce : ¬ ∀ (image : Image) (tree : Tree) (d : Nat) (entries : List Entry)
    (sizes : Nat → Nat), Represents image tree → tree.directory d = some entries →
      (∀ k, ∀ e ∈ entries, e.recordLength ≤ sizes k) → ListsOnce image d sizes entries := by
  intro hall
  have hrecords : ∀ e ∈ oneFileEntries, e.recordLength ≤ 48 := by decide
  have hsizes : ∀ k : Nat, ∀ e ∈ oneFileEntries, e.recordLength ≤ (fun _ => 48) k :=
    fun _ => hrecords
  obtain ⟨n, records, hlisting, hmap⟩ :=
    hall oneFileImage oneFileTree 32 oneFileEntries (fun _ => 48) oneFileImage_represents rfl hsizes
  obtain ⟨n', k', again, hagain, rfl⟩ := listing_again oneFileImage_represents rfl hsizes
    Resumes.start (by decide) hlisting
  have hlength := congrArg List.length hmap
  have hagain_ne := listing_start_ne_nil oneFileImage_represents rfl hsizes hagain
  have hpos := List.length_pos_of_ne_nil hagain_ne
  simp only [List.length_map, List.length_append] at hlength
  change 3 + again.length = 3 at hlength
  omega

end Vmwos.Romfs
