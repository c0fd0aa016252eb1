import Vmwos.Fs.Dos33fs.BinaryFiles
import Vmwos.Fs.Dos33fs.Store
import Vmwos.Fs.Dos33fs.BlankVolume

/-!
# The file store refines byte arrays

Abstractly a store of files is a set of byte arrays with names of their own
(`Arrays`), each linked in the directory or not. `Arrays.Step` says what an
operation answers and what it does to the arrays. The file system keeps the same
files in catalog entries, T/S lists and data sectors, and works on them through
in-core inodes (`Store`). The relation `Refines` connects the two: every open file is
a catalog entry of its own whose chain of lists holds the bytes of the array, with
zeros from the end of the array to the end of the list.

`Store.step_refines` keeps the relation over one operation and `Store.run_agrees` over
every finite interleaving of operations on any number of files.
-/

set_option autoImplicit false

namespace Vmwos

open Library

/-! ## Byte arrays -/

/-- A file seen as a byte array, and whether the directory still names it. -/
structure ArrayFile where
  bytes : FileBytes
  linked : Bool

/-- The files of a store. -/
abbrev Arrays := Nat → Option ArrayFile

/-- The operations on byte arrays. A new file is empty, unless the directory is full. -/
inductive Arrays.Step (full : Prop) : Arrays → FileOp → Reply → Arrays → Prop where
  | make {a : Arrays} (f : Nat) (inode : Inode) (hfull : ¬ full) :
      Step full a (.make f inode) (.result 0) (Function.update a f (some ⟨[], true⟩))
  | makeFull {a : Arrays} (f : Nat) (inode : Inode) (hfull : full) :
      Step full a (.make f inode) (.result (-e2big)) a
  | write {a : Arrays} (f : Nat) (buf : List UInt8) (offset : Nat) {x : ArrayFile}
      (hx : a f = some x) :
      Step full a (.write f buf offset) (.written buf.length (offset + buf.length))
        (Function.update a f (some { x with bytes := x.bytes.write offset buf }))
  | read {a : Arrays} (f count offset : Nat) {x : ArrayFile} (hx : a f = some x) :
      Step full a (.read f count offset)
        (.bytes (x.bytes.read offset count).length (x.bytes.read offset count)
          (offset + (x.bytes.read offset count).length)) a
  | truncate {a : Arrays} (f size : Nat) {x : ArrayFile} (hx : a f = some x) :
      Step full a (.truncate f size) (.result 0)
        (Function.update a f (some { x with bytes := x.bytes.resize size }))
  | unlink {a : Arrays} (f : Nat) {x : ArrayFile} (hx : a f = some x) :
      Step full a (.unlink f) (.result 0) (Function.update a f (some { x with linked := false }))

/-- The sizes that one T/S list holds, four bytes of it being the header. -/
def fitsOneList (size : Nat) : Prop := size + 4 < 122 * 256

/-- The operations considered: on files that were made and exist, with sizes that fit one
T/S list, and one unlink per file. -/
def Admissible (a : Arrays) : FileOp → Prop
  | .make f _ => a f = none
  | .write f buf offset =>
      ∃ x, a f = some x ∧ fitsOneList (max x.bytes.length (offset + buf.length))
  | .read f _ _ => ∃ x, a f = some x
  | .truncate f size => ∃ x, a f = some x ∧ fitsOneList size
  | .unlink f => ∃ x, a f = some x ∧ x.linked = true
  | _ => False

/-! ## The relation -/

/-- Every entry of the catalog is used. -/
def CatalogFull (d : Disk) (root : Nat) : Prop :=
  ∀ k c e, catalogAt d root k = some c → e < 7 → EntryUsed (d c) e

/-- The operation needs more sectors than there are: the pool goes empty while it
fills a file, or holds less than the two sectors of a new one. -/
def Starved (root : Nat) (v : Dos33Volume) : Prop :=
  (∃ c e, OutOfSpace root c e v) ∨ ∃ m, ∀ n < 16 * numTracks v.vtoc, FreeIn v n → n = m

/-- Entry `e` of catalog sector `c` holds the byte array, and the inode names it. -/
structure Holds (d : Disk) (root : Nat) (inode : Inode) (x : ArrayFile) (c e : Nat) : Prop where
  names : Names inode.number c e
  binary : IsBinary d root c e
  size : inode.size = x.bytes.length
  fits : fitsOneList x.bytes.length
  bytes : ∀ p, p + 4 < 31232 → fileByte d c e (p + 4) = FileBytes.byteAt x.bytes p
  linked : x.linked = true → IsLive d c e

/-- The store holds the byte arrays. -/
structure Refines (root : Nat) (s : Store) (a : Arrays) : Prop where
  wf : WellFormed s.volume root
  none_iff : ∀ f, s.inode f = none ↔ a f = none
  holds : ∀ f inode x, s.inode f = some inode → a f = some x →
    ∃ c e, Holds s.volume.disk root inode x c e
  distinct : ∀ f f' inode inode' c e, s.inode f = some inode → s.inode f' = some inode' →
    Names inode.number c e → Names inode'.number c e → f = f'

section Relation

variable {v v' : Dos33Volume} {root c e : Nat}

/-- Every other file keeps its contents. -/
theorem TouchesOnly.holds {inode : Inode} {x : ArrayFile} {c' e' : Nat}
    (ht : TouchesOnly v.disk v'.disk root c e) (h : WellFormed v root)
    (hc : ∃ k, catalogAt v.disk root k = some c) (hh : Holds v.disk root inode x c' e')
    (hne : (c', e') ≠ (c, e)) : Holds v'.disk root inode x c' e' where
  names := hh.names
  binary := by
    refine ⟨(ht.isFile_iff hne).2 hh.binary.file, ?_, ?_⟩
    · rw [fileType, ht.entry_eq hh.binary.file.catalog hne (by decide)]
      exact hh.binary.type
    · rw [ht.dataAt_eq h.account hc hh.binary.file hne]
      exact hh.binary.first
  size := hh.size
  fits := hh.fits
  bytes p hp := by
    rw [ht.fileByte_eq h.account hc hh.binary.file hne]
    exact hh.bytes p hp
  linked hx := by
    rw [IsLive, ht.entry_eq hh.binary.file.catalog hne (by decide)]
    exact hh.linked hx

/-- An operation on file `f` that touches nothing but its entry. -/
theorem Refines.update {s : Store} {a : Arrays} (h : Refines root s a) {f : Nat} {inode : Inode}
    {x : ArrayFile} (hc : ∃ k, catalogAt s.volume.disk root k = some c) (hwf : WellFormed v' root)
    (ht : TouchesOnly s.volume.disk v'.disk root c e) (hnew : Holds v'.disk root inode x c e)
    (hold : ∀ f' inode', s.inode f' = some inode' → f' ≠ f → ¬ Names inode'.number c e) :
    Refines root ⟨v', Function.update s.inode f (some inode)⟩ (Function.update a f (some x)) where
  wf := hwf
  none_iff f' := by
    by_cases hf : f' = f
    · subst hf
      simp only [Function.update_self, reduceCtorEq]
    · simp only [Function.update_of_ne hf, h.none_iff f']
  holds f' inode' x' hi hx := by
    by_cases hf : f' = f
    · subst hf
      simp only [Function.update_self, Option.some.injEq] at hi hx
      obtain rfl := hi
      obtain rfl := hx
      exact ⟨c, e, hnew⟩
    · simp only [Function.update_of_ne hf] at hi hx
      obtain ⟨c', e', hh⟩ := h.holds f' inode' x' hi hx
      refine ⟨c', e', ht.holds h.wf hc hh fun heq => ?_⟩
      obtain ⟨rfl, rfl⟩ := Prod.mk.inj heq
      exact hold f' inode' hi hf hh.names
  distinct f₁ f₂ inode₁ inode₂ c' e' h₁ h₂ hn₁ hn₂ := by
    by_cases hf₁ : f₁ = f
    · by_cases hf₂ : f₂ = f
      · rw [hf₁, hf₂]
      · subst hf₁
        simp only [Function.update_self, Option.some.injEq] at h₁
        simp only [Function.update_of_ne hf₂] at h₂
        obtain rfl := h₁
        obtain ⟨rfl, rfl⟩ := Prod.mk.inj (hn₁.unique hnew.names)
        exact absurd hn₂ (hold f₂ inode₂ h₂ hf₂)
    · simp only [Function.update_of_ne hf₁] at h₁
      by_cases hf₂ : f₂ = f
      · subst hf₂
        simp only [Function.update_self, Option.some.injEq] at h₂
        obtain rfl := h₂
        obtain ⟨rfl, rfl⟩ := Prod.mk.inj (hn₂.unique hnew.names)
        exact absurd hn₁ (hold f₁ inode₁ h₁ hf₁)
      · simp only [Function.update_of_ne hf₂] at h₂
        exact h.distinct f₁ f₂ inode₁ inode₂ c' e' h₁ h₂ hn₁ hn₂

/-- The inode of a file that is there, with its place on disk. -/
theorem Refines.obtain {s : Store} {a : Arrays} (h : Refines root s a) {f : Nat} {x : ArrayFile}
    (hx : a f = some x) :
    ∃ inode c e, s.inode f = some inode ∧ Holds s.volume.disk root inode x c e ∧
      ∀ f' inode', s.inode f' = some inode' → f' ≠ f → ¬ Names inode'.number c e := by
  cases hi : s.inode f with
  | none =>
      rw [(h.none_iff f).1 hi] at hx
      cases hx
  | some inode =>
      obtain ⟨c, e, hh⟩ := h.holds f inode x hi hx
      exact ⟨inode, c, e, rfl, hh, fun f' inode' hi' hne hn =>
        hne (h.distinct f' f inode' inode c e hi' hi hn hh.names)⟩

/-- The contents after a step, as a byte array. -/
theorem Holds.of_binaryStep {inode inode' : Inode} {x : ArrayFile} {bytes : FileBytes}
    {contents : Nat → UInt8} (hh : Holds v.disk root inode x c e)
    (hs : BinaryStep root c e v v' inode.size inode'.size contents)
    (hnum : inode'.number = inode.number) (hsize : inode'.size = bytes.length)
    (hfits : fitsOneList bytes.length)
    (hbytes : ∀ p, p + 4 < 31232 → contents p = FileBytes.byteAt bytes p) :
    Holds v'.disk root inode' { x with bytes := bytes } c e where
  names := hnum ▸ hh.names
  binary := hh.binary.of_step hs
  size := hsize
  fits := hfits
  bytes p hp := by rw [hs.bytes, hbytes p hp]
  linked hx := by
    rw [IsLive, hs.step.entry.bytes 0 (by decide) (by decide)]
    exact hh.linked hx

end Relation

/-! ## One operation -/

section Step

variable {root : Nat} {dirInode : Inode} {s : Store} {a : Arrays}

/-- The answer and the new arrays of an operation that the allocator lets return. -/
def StepRefines (root : Nat) (dirInode : Inode) (s : Store) (a : Arrays) (op : FileOp) : Prop :=
  (s.step dirInode op = .error .noFreeSector ∧ Starved root s.volume) ∨
    ∃ r s' a', s.step dirInode op = .ok (r, s') ∧
      Arrays.Step (CatalogFull s.volume.disk root) a op r a' ∧ Refines root s' a'

theorem make_refines (h : Refines root s a)
    (hroot : root = 16 * inodeTrack dirInode.number + inodeSector dirInode.number) (f : Nat)
    (inode : Inode) : StepRefines root dirInode s a (.make f inode) := by
  rcases dos33fsMakeInode_spec h.wf inode hroot with ⟨hmake, hfull⟩ | ⟨hmake, hfew⟩ |
    ⟨c, e, v', inode', hnew, hmade, hmake⟩
  · refine Or.inr ⟨_, s, a, ?_, .makeFull f inode hfull, h⟩
    simp only [Store.step, hmake]
    rfl
  · left
    refine ⟨?_, Or.inr hfew⟩
    simp only [Store.step, hmake]
  · right
    refine ⟨_, ⟨v', Function.update s.inode f (some inode')⟩, _, ?_, .make f inode fun hfull => ?_, ?_⟩
    · simp only [Store.step, hmake]
      rfl
    · obtain ⟨k, hk⟩ := hmade.catalog
      exact hmade.unused (hfull k c e hk hmade.entry)
    · refine h.update hmade.catalog hmade.frame.wf hmade.frame.touches ?_ fun f' inode' hi _ hn' => ?_
      · exact ⟨hnew.names, ⟨hmade.frame.file, hmade.type, hmade.first⟩, hnew.size,
          (by decide : 0 + 4 < 122 * 256), fun p _ => hmade.bytes (p + 4), fun _ => hmade.live⟩
      · -- the entry was free, and open files have used ones
        cases hx : a f' with
        | none =>
            rw [(h.none_iff f').2 hx] at hi
            cases hi
        | some x =>
            obtain ⟨c', e', hh⟩ := h.holds f' inode' x hi hx
            obtain ⟨rfl, rfl⟩ := Prod.mk.inj (hn'.unique hh.names)
            exact hmade.unused hh.binary.file.used

theorem write_refines (h : Refines root s a) {f : Nat} {buf : List UInt8} {offset : Nat}
    {x : ArrayFile} (hx : a f = some x)
    (hfits : fitsOneList (max x.bytes.length (offset + buf.length))) :
    StepRefines root dirInode s a (.write f buf offset) := by
  obtain ⟨inode, c, e, hi, hh, hother⟩ := h.obtain hx
  have hsize := hh.size
  have hin : max inode.size (offset + buf.length) + 4 < 31232 := by rwa [hsize]
  rcases dos33fsWriteFile_binary h.wf hh.binary hh.names hin with ⟨hw, hout⟩ | ⟨v', hw, hs⟩
  · left
    refine ⟨?_, Or.inl ⟨c, e, hout⟩⟩
    simp only [Store.step, hi, hw]
  · right
    refine ⟨_, ⟨v', Function.update s.inode f (some { inode with
      size := max inode.size (offset + buf.length) })⟩, _, ?_, .write f buf offset hx, ?_⟩
    · simp only [Store.step, hi, hw]
    · refine h.update hh.binary.file.catalog hs.step.wf hs.step.touches ?_ hother
      have hlen : (x.bytes.write offset buf).length = max inode.size (offset + buf.length) := by
        rw [FileBytes.length_write, hsize]
      refine hh.of_binaryStep hs rfl hlen.symm (by rw [hlen]; exact hin) fun p hp => ?_
      rw [FileBytes.byteAt_write, hh.bytes p hp]

theorem read_refines (h : Refines root s a) {f count offset : Nat} {x : ArrayFile}
    (hx : a f = some x) : StepRefines root dirInode s a (.read f count offset) := by
  obtain ⟨inode, c, e, hi, hh, -⟩ := h.obtain hx
  have hin : inode.size + 4 < 31232 := by
    rw [hh.size]
    exact hh.fits
  have hlen : (x.bytes.read offset count).length = min count (inode.size - offset) := by
    rw [FileBytes.length_read, hh.size]
  have hbytes : fileBytes s.volume.disk c e (offset + 4) (min count (inode.size - offset)) =
      x.bytes.read offset count := by
    apply FileBytes.ext_byteAt
    · rw [fileBytes_length, hlen]
    · intro j hj
      rw [fileBytes_length] at hj
      have hpos : offset + 4 + j = offset + j + 4 := by omega
      rw [FileBytes.byteAt_read, if_pos (by omega), FileBytes.byteAt_of_lt (by rwa [fileBytes_length])]
      simp only [fileBytes, List.getElem_map, List.getElem_range]
      rw [hpos, hh.bytes _ (by omega)]
  refine Or.inr ⟨_, s, a, ?_, .read f count offset hx, h⟩
  simp only [Store.step, hi, dos33fsReadFile_binary h.wf hh.binary hh.names hin, hbytes, hlen]

theorem truncate_refines (h : Refines root s a) {f size : Nat} {x : ArrayFile} (hx : a f = some x)
    (hfits : fitsOneList size) : StepRefines root dirInode s a (.truncate f size) := by
  obtain ⟨inode, c, e, hi, hh, hother⟩ := h.obtain hx
  have hin : inode.size + 4 < 31232 := by
    rw [hh.size]
    exact hh.fits
  obtain ⟨v', ht, hs⟩ := dos33fsTruncateInode_binary h.wf hh.binary hh.names hin hfits
  refine Or.inr ⟨_, ⟨v', Function.update s.inode f (some { inode with size := size })⟩, _, ?_,
    .truncate f size hx, ?_⟩
  · simp only [Store.step, hi, ht]
  · refine h.update hh.binary.file.catalog hs.step.wf hs.step.touches ?_ hother
    refine hh.of_binaryStep hs rfl (by rw [FileBytes.length_resize])
      (by rw [FileBytes.length_resize]; exact hfits) fun p hp => ?_
    rw [FileBytes.byteAt_resize, hh.bytes p hp]
    by_cases hps : p < size
    · rw [if_neg (by omega), if_pos hps]
    · rw [if_neg hps]
      by_cases hz : size ≤ p ∧ (p + 4) / 256 ≤ (inode.size + 4) / 256 ∧ size < inode.size
      · rw [if_pos hz]
      · -- past the old end the array has zeros of its own
        have hle : x.bytes.length ≤ p := by
          rw [← hh.size]
          by_contra hlt
          exact hz ⟨by omega, by omega, by omega⟩
        rw [if_neg hz, FileBytes.byteAt_of_le hle]

theorem unlink_refines (h : Refines root s a) {f : Nat} {x : ArrayFile} (hx : a f = some x)
    (hlinked : x.linked = true) : StepRefines root dirInode s a (.unlink f) := by
  obtain ⟨inode, c, e, hi, hh, hother⟩ := h.obtain hx
  obtain ⟨v', hu, hsame, -⟩ :=
    dos33fsUnlinkInode_spec h.wf hh.binary.file hh.names (hh.linked hlinked)
  refine Or.inr ⟨_, ⟨v', s.inode⟩, _, ?_, .unlink f hx, ?_⟩
  · simp only [Store.step, hi, hu]
  · have hnew : Holds v'.disk root inode { x with linked := false } c e := by
      refine ⟨hh.names, ⟨hsame.frame.file, hsame.type.trans hh.binary.type, ?_⟩, hh.size, hh.fits,
        fun p hp => ?_, fun hx => by cases hx⟩
      · rw [hsame.data]
        exact hh.binary.first
      · rw [hsame.bytes]
        exact hh.bytes p hp
    have key := h.update hh.binary.file.catalog hsame.frame.wf hsame.frame.touches hnew hother
    rwa [← hi, Function.update_eq_self] at key

/-- Every admissible operation is answered as the byte arrays answer it. -/
theorem Store.step_refines (h : Refines root s a)
    (hroot : root = 16 * inodeTrack dirInode.number + inodeSector dirInode.number) {op : FileOp}
    (hadm : Admissible a op) : StepRefines root dirInode s a op := by
  cases op with
  | make f inode => exact make_refines h hroot f inode
  | write f buf offset =>
      obtain ⟨x, hx, hfits⟩ := hadm
      exact write_refines h hx hfits
  | read f count offset =>
      obtain ⟨x, hx⟩ := hadm
      exact read_refines h hx
  | truncate f size =>
      obtain ⟨x, hx, hfits⟩ := hadm
      exact truncate_refines h hx hfits
  | unlink f =>
      obtain ⟨x, hx, hlinked⟩ := hadm
      exact unlink_refines h hx hlinked
  | «open» f inode => exact hadm.elim
  | link f name => exact hadm.elim
  | destroy f => exact hadm.elim

end Step

/-! ## Runs -/

/-- The store answers a sequence of operations as the byte arrays do: each admissible
operation in turn gets the answer of the arrays, until the allocator finds no free
sector. -/
def Agrees (root : Nat) (dirInode : Inode) : List FileOp → Store → Arrays → Prop
  | [], _, _ => True
  | op :: ops, s, a => Admissible a op →
      (s.step dirInode op = .error .noFreeSector ∧ Starved root s.volume) ∨
        ∃ r s' a', s.step dirInode op = .ok (r, s') ∧
          Arrays.Step (CatalogFull s.volume.disk root) a op r a' ∧ Agrees root dirInode ops s' a'

theorem Refines.agrees {root : Nat} {dirInode : Inode} {s : Store} {a : Arrays}
    (h : Refines root s a)
    (hroot : root = 16 * inodeTrack dirInode.number + inodeSector dirInode.number)
    (ops : List FileOp) : Agrees root dirInode ops s a := by
  induction ops generalizing s a with
  | nil => trivial
  | cons op ops ih =>
      intro hadm
      rcases Store.step_refines h hroot hadm with hout | ⟨r, s', a', hstep, harr, href⟩
      · exact Or.inl hout
      · exact Or.inr ⟨r, s', a', hstep, harr, ih href⟩

/-- From any well-formed volume on, every sequence of operations on files made there is
answered as byte arrays would answer it. -/
theorem Store.run_agrees {v : Dos33Volume} {root : Nat} {dirInode : Inode} (h : WellFormed v root)
    (hroot : root = 16 * inodeTrack dirInode.number + inodeSector dirInode.number)
    (ops : List FileOp) : Agrees root dirInode ops ⟨v, fun _ => none⟩ fun _ => none := by
  have href : Refines root ⟨v, fun _ => none⟩ fun _ => none := by
    refine ⟨h, fun _ => ⟨fun _ => rfl, fun _ => rfl⟩, ?_, ?_⟩
    · intro f inode x hi
      cases hi
    · intro f f' inode inode' c e hi
      cases hi
  exact href.agrees hroot ops

/-- A file made on a fresh volume, written, shortened, unlinked and read back. -/
theorem Store.run_agrees_blankVolume :
    Agrees blankRoot blankDirInode
      [.make 0 Inode.zeroed, .write 0 [1, 2, 3] 300, .truncate 0 302, .unlink 0, .read 0 8 298]
      ⟨blankVolume, fun _ => none⟩ fun _ => none :=
  Store.run_agrees blankVolume_wellFormed (by decide) _

end Vmwos
