import Vmwos.Fs.Dos33fs.SectorsWanted
import Vmwos.Fs.Dos33fs.BlankVolume
import Vmwos.Fs.Dos33fs.Entries
import Vmwos.Fs.Dos33fs.Store

/-!
# The disk is full

The callers of `dos33_allocate_sector` check for a negative result, and the allocator has an
`-ENOSPC` exit, but the exit is behind `debug`. So no call ever fails for want of a sector:
making, writing and truncating get to their end if there are as many free sectors as they ask
for, and search for ever if there are not (`Store.failsWhenFull_iff`).
-/

set_option autoImplicit false

namespace Vmwos

open Library

/-! ## The search -/

/-- Without a free sector the search loop of the allocator has not ended after any number of
rounds. -/
theorem allocateLoop_full {v : Dos33Volume} (h : VtocOk v.vtoc) (hfull : freeSectors v = ∅)
    (fuel : Nat) {dir : Int} (hdir : dir = 1 ∨ dir = -1) :
    allocateLoop v.vtoc (numTracks v.vtoc) fuel (v.vtoc dos33VtocLastTrackAllocated).toNat dir =
      none :=
  allocateLoop_eq_none h.tracks_ge (freeSectors_eq_empty.1 hfull) fuel (Int.natCast_nonneg _)
    (Int.ofNat_lt.2 h.last_lt) hdir

/-! ## Making -/

/-- The sectors that `dos33fs_make_inode` asks for: a T/S list and a first data sector, when the
catalog has an entry left. -/
def makeWants (v : Dos33Volume) (dirInode : Inode) : Nat :=
  match makeInodeLoop v.disk chainRounds (inodeTrack dirInode.number)
      (inodeSector dirInode.number) with
  | .ok (some _) => 2
  | _ => 0

section Make

variable {v : Dos33Volume} {root : Nat} {dirInode : Inode}

/-- The walk along the catalog of a well-formed volume ends. -/
theorem makeInodeLoop_ends (h : WellFormed v root)
    (hroot : root = 16 * inodeTrack dirInode.number + inodeSector dirInode.number) :
    ∃ found, makeInodeLoop v.disk chainRounds (inodeTrack dirInode.number)
      (inodeSector dirInode.number) = .ok found := by
  rcases makeInodeLoop_spec (k := 0) h chainRounds (inodeTrack_lt dirInode.number)
    (inodeSector_lt dirInode.number) (congrArg some hroot) (by decide)
    (fun j hj => absurd hj (Nat.not_lt_zero j)) with ⟨hloop, -⟩ | ⟨t, s, e, hloop, -⟩
  · exact ⟨_, hloop⟩
  · exact ⟨_, hloop⟩

/-- `dos33fs_make_inode` asks for both sectors one after the other. -/
theorem dos33fsMakeInode_takes (h : WellFormed v root) (inode : Inode)
    (hroot : root = 16 * inodeTrack dirInode.number + inodeSector dirInode.number) :
    Takes v (fun r => r.2.1) (dos33fsMakeInode v dirInode inode) (makeWants v dirInode) := by
  obtain ⟨found, hfound⟩ := makeInodeLoop_ends h hroot
  rw [dos33fsMakeInode, makeWants, hfound]
  cases found with
  | none => exact takes_ok h.vtoc rfl
  | some entry =>
      obtain ⟨nextT, nextS, entry⟩ := entry
      simp only
      -- the T/S list
      refine (dos33AllocateSector_takes h.vtoc).bind (m := 1) ?_ ?_
      · intro herr
        rw [herr]
      · rintro ⟨track, sector, v1⟩ hlist hvtoc1
        rw [hlist]
        simp only
        -- it is zeroed and put into the catalog, which leaves the VTOC alone
        generalize hv2 : ({ dos33ZeroOutSector v1 track sector with
          disk := writeBlock (dos33ZeroOutSector v1 track sector).disk (ts nextT nextS) _ } :
            Dos33Volume) = v2
        have hvtoc2 : v2.vtoc = v1.vtoc := by rw [← hv2]; rfl
        -- the data sector
        refine Takes.congr ?_ hvtoc2
        refine (dos33AllocateSector_takes (hvtoc2 ▸ hvtoc1)).map ?_ ?_
        · intro herr
          rw [herr]
        · rintro ⟨dataT, dataS, v3⟩ hdata
          rw [hdata]
          exact ⟨_, rfl, rfl⟩

end Make

/-! ## A call that lacks a sector -/

/-- The sectors that a call asks for. -/
def Store.wants (dirInode : Inode) (s : Store) : FileOp → Nat
  | .make _ _ => makeWants s.volume dirInode
  | .write f buf offset =>
      match s.inode f with
      | none => 0
      | some inode => writeWants s.volume inode buf offset
  | .truncate f size =>
      match s.inode f with
      | none => 0
      | some inode => truncateWants s.volume inode size
  | _ => 0

/-- The call makes a file, or writes or truncates one that is in use. -/
def Store.Changes (s : Store) : FileOp → Prop
  | .make _ _ => True
  | .write f _ _ => (s.inode f).isSome
  | .truncate f _ => (s.inode f).isSome
  | _ => False

/-- The file at entry `e` of sector `c` is the one that the call writes. -/
def Store.Writes (s : Store) (c e : Nat) : FileOp → Prop
  | .write f _ _ => ∃ inode, s.inode f = some inode ∧ Names inode.number c e
  | .truncate f _ => ∃ inode, s.inode f = some inode ∧ Names inode.number c e
  | _ => False

/-- The call answers with a negative error. -/
def Reply.Failed : Reply → Prop
  | .result r => r < 0
  | .written r _ => r < 0
  | .bytes r _ _ => r < 0

/-- The file is there still, with the same contents and the same size. -/
structure FileKept (root c e : Nat) (d d' : Disk) : Prop where
  file : IsFile d' root c e
  bytes : ∀ p, fileByte d' c e p = fileByte d c e p
  size : ∀ number, Names number c e →
    dos33GetFilesize d' number (fileType d' c e) = dos33GetFilesize d number (fileType d c e)

/-- The call returns; if there are fewer free sectors than it asks for then with an error, and
with the other files as they were. -/
def Store.FailsWhenFull (dirInode : Inode) (root : Nat) (s : Store) (op : FileOp) : Prop :=
  ∃ reply s', Store.step dirInode s op = .ok (reply, s') ∧
    ((freeSectors s.volume).card < s.wants dirInode op →
      reply.Failed ∧ ∀ c e, IsFile s.volume.disk root c e → ¬ s.Writes c e op →
        FileKept root c e s.volume.disk s'.volume.disk)

section Calls

variable {s : Store} {root : Nat} {dirInode : Inode} {op : FileOp}

/-- A call that may take sectors returns exactly if there are as many as it asks for. -/
theorem Store.step_ends_iff (h : WellFormed s.volume root)
    (hroot : root = 16 * inodeTrack dirInode.number + inodeSector dirInode.number)
    (hop : s.Changes op) : (∃ q, Store.step dirInode s op = .ok q) ↔
      s.wants dirInode op ≤ (freeSectors s.volume).card := by
  cases op with
  | make f inode =>
      rw [Store.wants, ← (dos33fsMakeInode_takes h inode hroot).ends_iff, Store.step]
      cases dos33fsMakeInode s.volume dirInode inode with
      | error e => simp
      | ok r => simp
  | write f buf offset =>
      obtain ⟨inode, hinode⟩ := Option.isSome_iff_exists.1 hop
      simp only [Store.wants, Store.step, hinode]
      rw [← (dos33fsWriteFile_takes h.vtoc inode buf offset).ends_iff]
      cases dos33fsWriteFile s.volume inode buf offset with
      | error e => simp
      | ok r => simp
  | truncate f size =>
      obtain ⟨inode, hinode⟩ := Option.isSome_iff_exists.1 hop
      simp only [Store.wants, Store.step, hinode]
      rw [← dos33fsTruncateInode_ends_iff h.vtoc inode size]
      cases dos33fsTruncateInode s.volume inode size with
      | error e => simp
      | ok r => simp
  | «open» f inode => exact hop.elim
  | link f name => exact hop.elim
  | read f count offset => exact hop.elim
  | unlink f => exact hop.elim
  | destroy f => exact hop.elim

end Calls

/-- Making, writing and truncating treat a full disk as an error exactly when they do not run
into one. -/
theorem Store.failsWhenFull_iff {s : Store} {root : Nat} {dirInode : Inode} {op : FileOp}
    (h : WellFormed s.volume root)
    (hroot : root = 16 * inodeTrack dirInode.number + inodeSector dirInode.number)
    (hop : s.Changes op) : s.FailsWhenFull dirInode root op ↔
      s.wants dirInode op ≤ (freeSectors s.volume).card := by
  rw [← Store.step_ends_iff h hroot hop]
  constructor
  · rintro ⟨reply, s', hstep, -⟩
    exact ⟨_, hstep⟩
  · rintro ⟨⟨reply, s'⟩, hstep⟩
    refine ⟨reply, s', hstep, fun hlt => ?_⟩
    have hle := (Store.step_ends_iff h hroot hop).1 ⟨_, hstep⟩
    exact absurd hle (Nat.not_le.2 hlt)

/-- A freshly formatted volume has room for the first file. -/
theorem Store.failsWhenFull_blankVolume :
    (⟨blankVolume, fun _ => none⟩ : Store).FailsWhenFull blankDirInode blankRoot
      (.make 0 Inode.zeroed) := by
  have hchanges : (⟨blankVolume, fun _ => none⟩ : Store).Changes (.make 0 Inode.zeroed) := trivial
  exact (Store.failsWhenFull_iff blankVolume_wellFormed rfl hchanges).2 (by decide +kernel)

/-! ## A full volume -/

/-- The VTOC of a volume of 35 tracks on which every sector is in use. -/
def fullVtoc : Block := fun i => if i < dos33VtocFreeBitmaps then blankVtoc i else 0

/-- A volume without a free sector. Its catalog has entries left. -/
def fullVolume : Dos33Volume :=
  dos33fsWriteSuperblock { blankVolume with vtoc := fullVtoc, blocksFree := 0 }

theorem not_freeIn_fullVtoc (n : Nat) : isFree fullVtoc n = false := by
  have hge := bitmapByte_ge (n / 16) (n % 16)
  rw [isFree, fullVtoc, if_neg (Nat.not_lt.2 hge)]
  exact BitVec.getLsbD_zero

theorem fullVolume_wellFormed : WellFormed fullVolume blankRoot := by
  have hblank := blankVolume_wellFormed
  have hlow : ∀ i < 0x38, fullVtoc i = blankVtoc i := fun i hi => if_pos hi
  have hnone (n : Nat) : ¬ isFree fullVtoc n = true := by
    rw [not_freeIn_fullVtoc n]
    exact Bool.false_ne_true
  have hwf : WellFormed { blankVolume with vtoc := fullVtoc, blocksFree := 0 } blankRoot :=
    { hblank with
      vtoc := hblank.vtoc.congr hlow
      account := ⟨hblank.account.exclusive, fun _ n _ hfree => hnone n hfree⟩
      range := fun u n hu => by
        rw [show numTracks fullVtoc = numTracks blankVolume.vtoc from numTracks_congr hlow]
        exact hblank.range u n hu
      reserved := fun n hfree => absurd hfree (hnone n) }
  exact wellFormed_update_unreferenced hwf fullVtoc hwf.not_refers_vtoc

/-- Making a file on the full volume does not return. -/
theorem Store.not_failsWhenFull :
    ¬ ∀ (s : Store) (root : Nat) (dirInode : Inode) (op : FileOp), WellFormed s.volume root →
      root = 16 * inodeTrack dirInode.number + inodeSector dirInode.number → s.Changes op →
        s.FailsWhenFull dirInode root op := by
  intro hclaim
  obtain ⟨reply, s', hstep, -⟩ := hclaim ⟨fullVolume, fun _ => none⟩ blankRoot blankDirInode
    (.make 0 Inode.zeroed) fullVolume_wellFormed rfl trivial
  have hchanges : (⟨fullVolume, fun _ => none⟩ : Store).Changes (.make 0 Inode.zeroed) := trivial
  have hle := (Store.step_ends_iff fullVolume_wellFormed rfl hchanges).1 ⟨_, hstep⟩
  -- the catalog is empty, so two sectors are asked for
  have hlt : ¬ Store.wants blankDirInode ⟨fullVolume, fun _ => none⟩ (.make 0 Inode.zeroed) ≤
      (freeSectors fullVolume).card := by decide +kernel
  exact hlt hle

end Vmwos
