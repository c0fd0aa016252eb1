import Vmwos.Fs.Dos33fs.SectorOwnership
import Vmwos.Fs.Dos33fs.Mounts

/-!
# The VTOC on disk

The free bitmap is changed in memory and the VTOC sector is written by a separate call. The
allocator, growing and shrinking end with that call, and nothing else they write goes to the
VTOC sector, so the sector is the VTOC in memory after each of them (`WrittenThrough`).
`dos33fs_destroy_inode` marks the first T/S list free after its truncation has written the
VTOC and does not write it again: a file destroyed leaves the sector behind
(`dos33fsDestroyInode_leavesBehind`). So the sector follows the VTOC along a run exactly when
no file is destroyed in it (`Mounts.run_writtenThrough_iff`).
-/

set_option autoImplicit false

namespace Vmwos

open Library

/-- The VTOC sector on the device is the VTOC in memory, byte for byte. -/
def WrittenThrough (v : Dos33Volume) : Prop := ∀ i < dos33VtocSize, v.disk 272 i = v.vtoc i

/-! ## Writes that leave the VTOC sector alone -/

section Volume

variable {v v' : Dos33Volume} {root c e k l : Nat}

theorem WrittenThrough.of_eq (h : WrittenThrough v) (hdisk : v'.disk 272 = v.disk 272)
    (hvtoc : v'.vtoc = v.vtoc) : WrittenThrough v' := by
  intro i hi
  rw [hdisk, hvtoc]
  exact h i hi

/-- A sector other than the VTOC is written. -/
theorem WrittenThrough.update (h : WrittenThrough v) {n : Nat} (hn : n ≠ 272) (b : Block) :
    WrittenThrough { v with disk := Function.update v.disk n b } :=
  h.of_eq (Function.update_of_ne hn.symm _ _) rfl

/-- A sector in use is not the VTOC. -/
theorem Refers.ne_vtoc {u : SectorUse} {n : Nat} (hu : Refers v.disk root u n)
    (h : WellFormed v root) : n ≠ 272 := by
  rintro rfl
  exact h.not_refers_vtoc u hu

theorem IsFile.ne_vtoc (hf : IsFile v.disk root c e) (h : WellFormed v root) : c ≠ 272 := by
  obtain ⟨j, hj⟩ := hf.catalog
  exact Refers.ne_vtoc (u := .catalog j) hj h

theorem writtenThrough_dos33fsWriteSuperblock (v : Dos33Volume) :
    WrittenThrough (dos33fsWriteSuperblock v) := by
  intro i _
  exact congrFun (Function.update_self (f := v.disk) 272 v.vtoc) i

/-- The allocator writes the VTOC. -/
theorem Taken.writtenThrough {n : Nat} (ha : Taken v v' n) : WrittenThrough v' := by
  intro i _
  rw [ha.disk, Function.update_self]

theorem writtenThrough_growFileOnlyWrite (v : Dos33Volume) (inode : Inode) (size : Nat) :
    WrittenThrough (growFileOnlyWrite v inode size).1 :=
  writtenThrough_dos33fsWriteSuperblock _

/-- Growing ends with recording the size, or has done nothing. -/
theorem dos33fsGrowFile_cases {inode inode' : Inode} {size : Nat} {r : Int}
    (hok : dos33fsGrowFile v inode size = .ok (r, v', inode')) :
    v' = v ∨ ∃ v1, v' = (growFileOnlyWrite v1 inode size).1 := by
  obtain ⟨current, hcurrent⟩ : ∃ i, endIndex v inode inode.size = i := ⟨_, rfl⟩
  obtain ⟨last, hlast⟩ : ∃ i, endIndex v inode size = i := ⟨_, rfl⟩
  rw [dos33fsGrowFile_eq v inode size hcurrent hlast] at hok
  clear hcurrent hlast
  split at hok
  · exact Or.inr ⟨v, (congrArg (fun q => q.2.1) (Except.ok.inj hok)).symm⟩
  · split at hok
    · exact Or.inl (congrArg (fun q => q.2.1) (Except.ok.inj hok)).symm
    · split at hok
      · cases hok
      · rename_i v1 _
        exact Or.inr ⟨v1, (congrArg (fun q => q.2.1) (Except.ok.inj hok)).symm⟩

/-- Whatever growing does, it ends with writing the VTOC, or has done nothing. -/
theorem WrittenThrough.grow (h : WrittenThrough v) {inode inode' : Inode} {size : Nat} {r : Int}
    (hok : dos33fsGrowFile v inode size = .ok (r, v', inode')) : WrittenThrough v' := by
  rcases dos33fsGrowFile_cases hok with rfl | ⟨v1, rfl⟩
  · exact h
  · exact writtenThrough_growFileOnlyWrite v1 inode size

/-! ## Writing -/

/-- A hole that is filled: the allocator has written the VTOC, the list is another sector. -/
theorem WrittenThrough.fillHole (h : WellFormed v root) {w w' : TsWalk} {i location : Nat}
    {data : Block} (hl : Refers v.disk root (.tsList c e k) l) (hw : AtList v.disk w l)
    (hv : WrittenThrough v) (hok : fillHole v w i = .ok (location, data, v', w')) :
    WrittenThrough v' := by
  rw [Vmwos.fillHole] at hok
  simp only at hok
  split at hok
  · split at hok
    · cases hok
    · rename_i t s v1 ha
      have htaken := (dos33AllocateSector_taken h.vtoc ha).2
      rw [hw.location, writeBlock_mul] at hok
      cases hok
      exact htaken.writtenThrough.update (hl.ne_vtoc h) _
  · cases hok
    exact hv

/-- One data sector is written: it is in use by the file. -/
theorem WrittenThrough.writeSector (h : WellFormed v root) {w w' : TsWalk} {i off : Nat}
    {buf rest : List UInt8} (hl : Refers v.disk root (.tsList c e k) l) (hw : AtList v.disk w l)
    (hi : i < 122) (hv : WrittenThrough v)
    (hok : writeSector v w i off buf = .ok (v', w', rest)) : WrittenThrough v' := by
  rcases fillHole_spec h hl hw hi with ⟨herr, -⟩ | ⟨n, data, v1, w1, hfill, hstep, -, -, -, hdata, -⟩
  · rw [Vmwos.writeSector, herr] at hok
    cases hok
  · have hv1 := hv.fillHole h hl hw hfill
    have hn : Refers v1.disk root (.data c e (122 * k + i)) n :=
      ⟨hstep.file, by rw [hdata, if_pos rfl]⟩
    rw [Vmwos.writeSector, hfill] at hok
    simp only [writeBlock_mul] at hok
    cases hok
    exact hv1.update (hn.ne_vtoc hstep.wf) _

/-- A run of data sectors within one list. -/
theorem WrittenThrough.writeLoop (fuel : Nat) (h : WellFormed v root) {w : TsWalk} {i off : Nat}
    {buf : List UInt8} {r : Int} (hl : Refers v.disk root (.tsList c e k) l)
    (hw : AtList v.disk w l) (hi : i < 122) (hoff : off < 256)
    (hend : 256 * i + off + buf.length ≤ 256 * 122) (hv : WrittenThrough v)
    (hok : writeLoop fuel v w 0 i off buf = .ok (r, v')) : WrittenThrough v' := by
  induction fuel generalizing v w i off buf with
  | zero =>
      cases hok
      exact hv
  | succ fuel ih =>
      rw [Vmwos.writeLoop, advanceTs_zero] at hok
      rcases writeSector_spec h buf hl hw hi hoff with ⟨herr, -⟩ | ⟨v1, w1, hsector, hw1, heff⟩
      · simp only [herr] at hok
        cases hok
      · have hv1 := hv.writeSector h hl hw hi hsector
        simp only [hsector] at hok
        by_cases hrest : (buf.drop (256 - off)).length = 0
        · rw [if_pos hrest] at hok
          cases hok
          exact hv1
        · -- there is more to write, so the sector was not the last of the list
          have hlen := List.length_drop (l := buf) (i := 256 - off)
          rw [if_neg hrest, nextEntry_of_lt (by omega)] at hok
          exact ih heff.step.wf ⟨heff.step.file, by rw [heff.lists, hl.2]⟩ hw1 (by omega)
            (by omega) (by omega) hv1 hok

/-- `dos33fs_write_file` within the first list. -/
theorem WrittenThrough.writeFile {inode inode' : Inode} {buf : List UInt8} {off off' : Nat}
    {r : Int} (h : WellFormed v root) (hf : IsFile v.disk root c e) (hn : Names inode.number c e)
    (hstays : WriteStays v.disk c e inode.size off buf.length) (hv : WrittenThrough v)
    (hok : dos33fsWriteFile v inode buf off = .ok (r, v', inode', off')) : WrittenThrough v' := by
  have hlt := hstays.size_lt
  have h64 : uint64 (off + buf.length) = off + buf.length := uint64_of_lt (by omega)
  -- what is left once the file is large enough
  have transfer {v1 : Dos33Volume} {inode1 : Inode} (hwf : WellFormed v1 root)
      (hf1 : IsFile v1.disk root c e) (hn1 : Names inode1.number c e) (hv1 : WrittenThrough v1)
      (hgrown : (if uint64 (off + buf.length) > inode.size then
        dos33fsGrowFile v inode (uint64 (off + buf.length)) else .ok (0, v, inode)) =
          .ok (0, v1, inode1))
      (hend : off + headerLength (fileType v1.disk c e) + max 1 buf.length ≤ 31232) :
      WrittenThrough v' := by
    obtain ⟨l, w, hl, hw, heq⟩ := dos33fsWriteFile_walk hwf hf1 hn1 hgrown hend
    rw [heq] at hok
    split at hok
    · cases hok
    · rename_i result v2 hloop
      have hv2 := hv1.writeLoop (k := 0) _ hwf ⟨hf1, hl⟩ hw (by omega) (Nat.mod_lt _ (by decide))
        (by omega) hloop
      split at hok
      · cases hok
        exact hv2
      · cases hok
        exact hv2
  by_cases hgrow : off + buf.length > inode.size
  · rw [Nat.max_eq_right (by omega)] at hlt
    cases hg : dos33fsGrowFile v inode (off + buf.length) with
    | error err =>
        simp only [dos33fsWriteFile, h64, if_pos hgrow, hg] at hok
        cases hok
    | ok result =>
        obtain ⟨r1, v1, inode1⟩ := result
        obtain ⟨rfl, rfl, hkeeps⟩ := dos33fsGrowFile_keeps h hf hn (Nat.le_of_lt hgrow) hlt
          (hstays.grow hgrow) hg
        have hend := hstays.transfer
        rw [← hkeeps.step.entry.type] at hend
        have hn1 : Names ({ inode with size := off + buf.length } : Inode).number c e := hn
        exact transfer hkeeps.step.wf hkeeps.step.file hn1 (hv.grow hg)
          (by rw [h64, if_pos hgrow, hg]) hend
  · exact transfer h hf hn hv (by rw [h64, if_neg hgrow]) hstays.transfer

/-! ## Truncating, naming and unlinking -/

/-- `dos33fs_truncate_inode` of a file that lies in its first list. -/
theorem WrittenThrough.truncate {inode inode' : Inode} {size : Nat} {r : Int}
    (h : WellFormed v root) (hf : IsFile v.disk root c e) (hn : Names inode.number c e)
    (hshrink : size < inode.size → endSector v.disk c e inode.size < 122) (hv : WrittenThrough v)
    (hok : dos33fsTruncateInode v inode size = .ok (r, v', inode')) : WrittenThrough v' := by
  rw [dos33fsTruncateInode] at hok
  split at hok
  · cases hok
    exact hv
  · split at hok
    · rename_i hlt
      obtain ⟨v1, hs, -⟩ := dos33fsShrinkFile_spec h hf hn (Nat.le_of_lt hlt) (hshrink hlt)
      rw [hs] at hok
      cases hok
      exact writtenThrough_growFileOnlyWrite v1 inode size
    · exact hv.grow hok

theorem WrittenThrough.link {inode : Inode} (h : WellFormed v root) (hf : IsFile v.disk root c e)
    (hn : Names inode.number c e) (hv : WrittenThrough v) (name : CString) :
    WrittenThrough (dos33fsLinkInode v inode name).2.1 := by
  rw [dos33fsLinkInode]
  split
  · exact hv
  · simp only [hn.block, writeBlock_mul]
    exact hv.update (hf.ne_vtoc h) _

theorem WrittenThrough.unlink {inode : Inode} (h : WellFormed v root) (hf : IsFile v.disk root c e)
    (hn : Names inode.number c e) (hv : WrittenThrough v) :
    WrittenThrough (dos33fsUnlinkInode v inode).2 := by
  rw [dos33fsUnlinkInode]
  split
  · exact hv
  · split
    · exact hv
    · simp only [hn.block, writeBlock_mul]
      exact hv.update (hf.ne_vtoc h) _

/-! ## Making and destroying -/

/-- The length of a new file goes to its first data sector. -/
theorem Making.disk_vtoc {number t s : Nat} {v1 v2 : Dos33Volume} (h : WellFormed v root)
    (hm : Making root number c e v v1 v2 l t s) :
    makingDisk v2.disk number l t s 272 = v2.disk 272 := by
  have hwf1 := hm.frame.wf
  have hl : l ≠ 272 := (h.reserved l hm.free).2
  have hn : 16 * t + s ≠ 272 := (hwf1.reserved _ hm.taken.free).2
  have hlist1 : tsListAt v1.disk c e 0 = some l := by rw [hm.list, if_pos rfl]
  have hlc : l ≠ c := by
    rintro rfl
    obtain ⟨j, hj⟩ := hm.frame.file.catalog
    exact ne_catalog_of_own hwf1.account (u := .tsList l e 0) ⟨hm.frame.file, hlist1⟩ rfl hj rfl
  have hnc : 16 * t + s ≠ c := by
    intro heq
    obtain ⟨j, hj⟩ := hm.frame.file.catalog
    exact hwf1.account.busy (.catalog j) c hj (heq ▸ hm.taken.free)
  generalize hd : Function.update (Function.update v2.disk (16 * t + s) fun _ => 0) l
    (setTsEntry (fun _ => 0) 0 t s) = d
  have hd272 : d 272 = v2.disk 272 := by
    rw [← hd, Function.update_of_ne hl.symm, Function.update_of_ne hn.symm]
  have hdl : d l = setTsEntry (fun _ => 0) 0 t s := by rw [← hd, Function.update_self]
  have hdc : d c = v1.disk c := by
    rw [← hd, Function.update_of_ne hlc.symm, Function.update_of_ne hnc.symm, hm.taken.disk,
      Function.update_of_ne (hm.frame.file.ne_vtoc hwf1)]
  have hlist : tsListAt d c e 0 = some l := by
    show headPtr (d c) e = some l
    rw [hdc]
    exact hlist1
  have htracks : t < 256 := by
    have h1 := hm.taken.lt
    have h2 := hwf1.vtoc.tracks_le
    omega
  have hpos := (hwf1.reserved _ hm.taken.free).1
  have hs := hm.sector
  have hdata : dataAt d c e 0 = some (16 * t + s) := by
    rw [dataAt, hlist, Option.bind_some, hdl, tsEntry_setTsEntry htracks (by omega), if_pos rfl,
      if_neg (by omega)]
  rw [makingDisk, hd]
  rcases dos33SetFilesize_eq (d := d) hm.names hlist 4 0 with heq | ⟨b, heq⟩
  · rw [heq, hd272]
  · rw [heq, hdata, Option.getD_some, Function.update_of_ne hn.symm, hd272]

theorem WrittenThrough.make {dirInode inode inode' : Inode} {r : Int} (h : WellFormed v root)
    (hroot : root = 16 * inodeTrack dirInode.number + inodeSector dirInode.number)
    (hv : WrittenThrough v) (hok : dos33fsMakeInode v dirInode inode = .ok (r, v', inode')) :
    WrittenThrough v' := by
  rcases dos33fsMakeInode_cases h inode hroot with ⟨hmake, -⟩ | ⟨hmake, -⟩ |
    ⟨number, c, e, v1, v2, l, t, s, hmaking, hmake⟩
  · rw [hmake] at hok
    cases hok
    exact hv
  · rw [hmake] at hok
    cases hok
  · rw [hmake] at hok
    cases hok
    exact hmaking.taken.writtenThrough.of_eq (hmaking.disk_vtoc h) rfl

/-- Behind the truncation `dos33fs_destroy_inode` writes the catalog sector only. -/
theorem dos33fsDestroyInode_disk {v1 : Dos33Volume} {inode inode1 inode' : Inode}
    (hn : Names inode1.number c e)
    (htrunc : dos33fsTruncateInode v inode 0 = .ok (0, v1, inode1)) {r : Int}
    (hok : dos33fsDestroyInode v inode = .ok (r, v', inode')) {n : Nat} (hne : n ≠ c) :
    v'.disk n = v1.disk n := by
  rw [dos33fsDestroyInode, htrunc] at hok
  simp only [hn.block, writeBlock_mul] at hok
  split at hok
  · cases hok
    rfl
  · split at hok
    · cases hok
      rfl
    · split at hok
      · cases hok
        rfl
      · cases hok
        rw [dos33MarkBlocksFree_disk]
        exact Function.update_of_ne hne _ _

/-- A bit of the bitmap lies in the bytes that are written. -/
theorem isFree_congr {vtoc vtoc' : Block} (h : ∀ i < dos33VtocSize, vtoc' i = vtoc i) {n : Nat}
    (hn : n < 800) : isFree vtoc' n = isFree vtoc n := by
  have hlt : bitmapByte (n / 16) (n % 16) < 256 := by
    rw [bitmapByte_eq]
    split <;> omega
  rw [isFree, isFree, h _ hlt]

/-- The first T/S list of a destroyed file is free in memory, and in use on disk. -/
theorem dos33fsDestroyInode_leavesBehind {inode inode' : Inode} {r : Int} (h : WellFormed v root)
    (hf : IsFile v.disk root c e) (hn : Names inode.number c e)
    (hin : inode.size ≠ 0 → endSector v.disk c e inode.size < 122) (hv : WrittenThrough v)
    (hok : dos33fsDestroyInode v inode = .ok (r, v', inode')) : ¬ WrittenThrough v' := by
  intro hv'
  obtain ⟨l, hl⟩ := h.exists_tsList hf
  have hstays : TruncateStays v.disk c e inode.size 0 :=
    ⟨by decide, fun hlt => hin (by omega), fun hgt => absurd hgt (Nat.not_lt_zero _)⟩
  cases htrunc : dos33fsTruncateInode v inode 0 with
  | error err =>
      rw [dos33fsDestroyInode, htrunc] at hok
      cases hok
  | ok q =>
      obtain ⟨r1, v1, inode1⟩ := q
      obtain ⟨rfl, rfl, hkeeps⟩ := dos33fsTruncateInode_keeps h hf hn hstays htrunc
      have hwf1 := hkeeps.step.wf
      have hv1 : WrittenThrough v1 := hv.truncate h hf hn (fun hlt => hin (by omega)) htrunc
      obtain ⟨l1, hl1⟩ := hwf1.exists_tsList hkeeps.step.file
      have hl1' : Refers v1.disk root (.tsList c e 0) l1 := ⟨hkeeps.step.file, hl1⟩
      have hn1 : Names ({ inode with size := 0 } : Inode).number c e := hn
      obtain ⟨v2, hdestroy, hdest⟩ :=
        dos33fsDestroyInode_entry hwf1 hkeeps.step.file hl1 hn1 htrunc
      rw [hdestroy] at hok
      cases hok
      have hlt : l1 < 800 := by
        have h1 := (hwf1.range _ _ hl1').2.1
        have h2 := hwf1.vtoc.tracks_le
        omega
      -- the sector still has the bitmap from before the list was given back
      have hsame : ∀ i < dos33VtocSize, v'.vtoc i = v1.vtoc i := by
        intro i hi
        rw [← hv' i hi, ← hv1 i hi,
          dos33fsDestroyInode_disk hn1 htrunc hdestroy (hkeeps.step.file.ne_vtoc hwf1).symm]
      have hfree : FreeIn v' l1 := (hdest.free l1).2 (Or.inl rfl)
      rw [FreeIn, isFree_congr hsame hlt] at hfree
      exact hwf1.account.busy _ _ hl1' hfree

end Volume

/-! ## One call -/

/-- The call destroys a file. -/
def FileOp.Destroys : FileOp → Prop
  | .destroy _ => True
  | _ => False

/-- A call that stays in the first list keeps the VTOC sector up to date exactly if it is not
one that destroys a file. -/
theorem Store.step_writtenThrough_iff {root : Nat} {dirInode : Inode} {s s' : Store} {op : FileOp}
    {r : Reply} (h : WellFormed s.volume root)
    (hroot : root = 16 * inodeTrack dirInode.number + inodeSector dirInode.number)
    (hstays : Stays root s op) (hv : WrittenThrough s.volume)
    (hstep : s.step dirInode op = .ok (r, s')) : ¬ op.Destroys ↔ WrittenThrough s'.volume := by
  cases Store.returns_of_step hstep with
  | make hmake => exact iff_of_true id (hv.make h hroot hmake)
  | «open» => exact iff_of_true id hv
  | @link f name inode inode' r v hheld hlink =>
      refine iff_of_true id ?_
      obtain ⟨inode₁, c, e, hd, -⟩ := hstays
      obtain rfl := hd.held_eq hheld
      have hlinked := hv.link h hd.file hd.names name
      rw [hlink] at hlinked
      exact hlinked
  | write hheld hwrite =>
      refine iff_of_true id ?_
      obtain ⟨inode₁, c, e, hd, hw⟩ := hstays
      obtain rfl := hd.held_eq hheld
      exact hv.writeFile h hd.file hd.names hw hwrite
  | read => exact iff_of_true id hv
  | truncate hheld htruncate =>
      refine iff_of_true id ?_
      obtain ⟨inode₁, c, e, hd, ht⟩ := hstays
      obtain rfl := hd.held_eq hheld
      exact hv.truncate h hd.file hd.names ht.shrink htruncate
  | @unlink f inode r v hheld hunlink =>
      refine iff_of_true id ?_
      obtain ⟨inode₁, c, e, hd, -⟩ := hstays
      obtain rfl := hd.held_eq hheld
      have hunlinked := hv.unlink h hd.file hd.names
      rw [hunlink] at hunlinked
      exact hunlinked
  | destroy hheld hdestroy =>
      refine iff_of_false (not_not.2 trivial) ?_
      obtain ⟨inode₁, c, e, hd, hin⟩ := hstays
      obtain rfl := hd.held_eq hheld
      exact dos33fsDestroyInode_leavesBehind h hd.file hd.names hin hv hdestroy

/-! ## Mounting -/

/-- A volume stays well formed when only bytes behind the VTOC differ. -/
theorem WellFormed.congr_vtoc {v v' : Dos33Volume} {root : Nat} (h : WellFormed v root)
    (hdisk : v'.disk = v.disk) (hvtoc : ∀ i < dos33VtocSize, v'.vtoc i = v.vtoc i) :
    WellFormed v' root := by
  have hlow : ∀ i < 0x38, v'.vtoc i = v.vtoc i := fun i hi =>
    hvtoc i (Nat.lt_trans hi (by decide))
  have htracks : numTracks v'.vtoc = numTracks v.vtoc := numTracks_congr hlow
  have hle := h.vtoc.tracks_le
  refine ⟨h.vtoc.congr hlow, ⟨?_, ?_⟩, ?_, ?_, ?_, ?_, ?_, ?_⟩
  · rw [hdisk]
    exact h.account.exclusive
  · intro u n hu hfree
    rw [hdisk] at hu
    have hlt := (h.range u n hu).2.1
    rw [FreeIn, isFree_congr hvtoc (by omega)] at hfree
    exact h.account.busy u n hu hfree
  · intro u n hu
    rw [hdisk] at hu
    rw [htracks]
    exact h.range u n hu
  · intro n hfree
    rcases Nat.lt_or_ge n 800 with hlt | hge
    · rw [FreeIn, isFree_congr hvtoc hlt] at hfree
      exact h.reserved n hfree
    · omega
  · rw [hdisk]
    exact h.catalog_ends
  · rw [hdisk]
    exact h.catalog_link
  · rw [hdisk]
    exact h.head
  · rw [hdisk]
    exact h.head_sector

/-- The catalog sector that the VTOC of a device names. -/
def catalogRoot (vtoc : Block) : Nat :=
  16 * (vtoc dos33VtocFirstCatTrack).toNat + (vtoc dos33VtocFirstCatSector).toNat

/-- The sector that the root directory of a superblock starts in. -/
def Dos33Superblock.root (sb : Dos33Superblock) : Nat :=
  16 * inodeTrack sb.rootDir + inodeSector sb.rootDir

theorem root_inodeNumber {t s e : Nat} (ht : t < 256) (hs : s < 256) (he : e < 256) :
    16 * inodeTrack (inodeNumber t s e) + inodeSector (inodeNumber t s e) = 16 * t + s := by
  have hblock := (names_inodeNumber ht hs he).block
  rw [inodeToBlock, ts_eq] at hblock
  exact Nat.eq_of_mul_eq_mul_left (by decide) hblock

/-- The VTOC sector of every mounted device is the VTOC in memory. -/
def Mounts.WrittenThrough (m : Mounts) : Prop := ∀ sb ∈ m.sbs, Vmwos.WrittenThrough (m.volume sb)

/-- A well-formed volume is mounted, and it is the only one; a call is on a file of the volume
and stays in the first T/S list. -/
def MountStays (m : Mounts) : MountOp → Prop
  | .mount block =>
      m.nextVtoc = 0 ∧
        WellFormed ⟨m.disk block 272, m.disk block, 0, 0⟩ (catalogRoot (m.disk block 272))
  | .call k op => ∃ sb, m.sbs[k]? = some sb ∧ Stays sb.root (m.store k sb) op

/-- Nothing is mounted, or one well-formed volume. -/
def Mounts.OneVolume (m : Mounts) : Prop :=
  (m.sbs = [] ∧ m.nextVtoc = 0) ∨
    ∃ sb, m.sbs = [sb] ∧ m.nextVtoc = 1 ∧ WellFormed (m.volume sb) sb.root

theorem Dos33Superblock.root_eq (sb : Dos33Superblock) :
    sb.root = 16 * inodeTrack sb.dirInode.number + inodeSector sb.dirInode.number := rfl

section Mount

variable {m m' : Mounts} {r : Reply}

/-- The VTOC in memory is the sector that mounting has read. -/
theorem Mounted.writtenThrough {block : Nat} {sb : Dos33Superblock} (h : Mounted m m' block sb) :
    WrittenThrough (m'.volume sb) := by
  intro i hi
  show m'.disk sb.block 272 i = m'.vtocList (sb.vtoc + i)
  rw [h.read i hi, h.disk, h.device]

theorem Mounted.wellFormed {block : Nat} {sb : Dos33Superblock} (h : Mounted m m' block sb)
    (hwf : WellFormed ⟨m.disk block 272, m.disk block, 0, 0⟩ (catalogRoot (m.disk block 272))) :
    WellFormed (m'.volume sb) sb.root := by
  have hroot : sb.root = catalogRoot (m.disk block 272) := by
    rw [Dos33Superblock.root, h.rootDir,
      root_inodeNumber (UInt8.toNat_lt _) (UInt8.toNat_lt _) (by decide), catalogRoot]
  rw [hroot]
  refine hwf.congr_vtoc ?_ h.read
  show m'.disk sb.block = m.disk block
  rw [h.disk, h.device]

/-- The only volume is well formed and the VTOC sector on its device up to date. -/
theorem Mounts.step_writtenThrough_iff {op : MountOp} (hv : m.WrittenThrough) (hone : m.OneVolume)
    (hstays : MountStays m op) (hstep : m.step op = .ok (r, m')) :
    m'.OneVolume ∧ ((∀ k f, op ≠ .call k (.destroy f)) ↔ m'.WrittenThrough) := by
  cases op with
  | mount block =>
      obtain ⟨hnext, hwf⟩ := hstays
      rcases hone with ⟨hsbs, -⟩ | ⟨sb, -, hnext', -⟩
      · rcases dos33fsMount_spec m block with ⟨hfull, -⟩ | ⟨m₁, sb, hmount, hmounted⟩
        · rw [hnext] at hfull
          exact absurd hfull (by decide)
        · simp only [Mounts.step, hmount, Except.ok.injEq, Prod.mk.injEq] at hstep
          obtain ⟨-, rfl⟩ := hstep
          have hsbs' : m₁.sbs = [sb] := by rw [hmounted.sbs, hsbs, List.nil_append]
          refine ⟨Or.inr ⟨sb, hsbs', by rw [hmounted.nextVtoc, hnext], hmounted.wellFormed hwf⟩, ?_⟩
          refine iff_of_true (fun k f h => by cases h) ?_
          intro sb' hsb'
          rw [hsbs', List.mem_singleton] at hsb'
          rw [hsb']
          exact hmounted.writtenThrough
      · rw [hnext] at hnext'
        cases hnext'
  | call k op =>
      obtain ⟨sb, hk, hst⟩ := hstays
      rcases hone with ⟨hsbs, -⟩ | ⟨sb', hsbs, hnext, hwf⟩
      · rw [hsbs] at hk
        cases hk
      · -- the only superblock is number 0
        obtain ⟨rfl, rfl⟩ : k = 0 ∧ sb' = sb := by
          rw [hsbs] at hk
          cases k with
          | zero => exact ⟨rfl, Option.some.inj hk⟩
          | succ k => cases hk
        obtain ⟨sb₁, s, hk₁, hcall, rfl⟩ := Mounts.step_call_eq_ok.1 hstep
        rw [hk] at hk₁
        cases hk₁
        obtain ⟨sb₁, hk₁, -, -, hroot₁, hstore⟩ := Mounts.store_putStore (s := s) hk
        have hvolume : (m.putStore 0 sb' s).volume sb₁ = s.volume := congrArg Store.volume hstore
        have hsbs₁ : (m.putStore 0 sb' s).sbs = [sb₁] := by
          have hlen : (m.putStore 0 sb' s).sbs = m.sbs.set 0 _ := rfl
          rw [hlen, hsbs] at hk₁ ⊢
          rw [List.set_cons_zero] at hk₁ ⊢
          rw [Option.some.inj hk₁]
        have hsb' : sb' ∈ m.sbs := by
          rw [hsbs]
          exact List.mem_singleton_self sb'
        have hwf' : WellFormed (m.store 0 sb').volume sb'.root := hwf
        have hiff := Store.step_writtenThrough_iff hwf' sb'.root_eq hst (hv sb' hsb') hcall
        refine ⟨Or.inr ⟨sb₁, hsbs₁, hnext, ?_⟩, ?_⟩
        · rw [hvolume, Dos33Superblock.root, hroot₁]
          exact Store.step_wellFormed hwf' sb'.root_eq hst hcall
        · rw [Mounts.WrittenThrough, hsbs₁, List.forall_mem_singleton, hvolume, ← hiff]
          constructor
          · intro h
            cases op with
            | destroy f => exact absurd rfl (h 0 f)
            | _ => exact id
          · rintro h k f heq
            cases heq
            exact h trivial

end Mount

/-! ## Runs -/

/-- From a machine with nothing mounted on, in a run that mounts one well-formed volume and
stays in the first T/S lists, the VTOC sector on the device is the VTOC in memory in every
state reached exactly if no file is destroyed. -/
theorem Mounts.run_writtenThrough_iff {disk : Nat → Disk} {ops : List MountOp} {rs : List Reply}
    {m : Mounts} (hstays : Along Mounts.step MountStays (Mounts.boot disk) ops)
    (hrun : Mounts.run (Mounts.boot disk) ops = .ok (rs, m)) :
    Throughout Mounts.step (fun _ _ _ m' => m'.WrittenThrough) (Mounts.boot disk) ops ↔
      ∀ k f, MountOp.call k (.destroy f) ∉ ops := by
  have key := along_iff_throughout_of_along (P := fun _ op => ∀ k f, op ≠ .call k (.destroy f))
    (Q := fun _ _ _ m' => m'.WrittenThrough) (fun m => m.WrittenThrough ∧ m.OneVolume)
    (fun m op r m' hm hst hstep => (Mounts.step_writtenThrough_iff hm.1 hm.2 hst hstep).2)
    (fun m op r m' hm hst hstep hv => ⟨hv, (Mounts.step_writtenThrough_iff hm.1 hm.2 hst hstep).1⟩)
    ⟨fun sb hsb => absurd hsb List.not_mem_nil, Or.inl ⟨rfl, rfl⟩⟩ hstays hrun
  rw [← key, along_input hrun]
  constructor
  · intro h k f hmem
    exact h _ hmem k f rfl
  · rintro h op hmem k f rfl
    exact h k f hmem

/-- Devices that all hold a freshly formatted volume. -/
def blankDevices : Nat → Disk := fun _ => blankDisk

/-- A file is made on a freshly formatted volume. -/
theorem Mounts.run_writtenThrough_blankDevices :
    ∃ rs m, Mounts.run (Mounts.boot blankDevices) [.mount 0, .call 0 (.make 0 Inode.zeroed)] =
        .ok (rs, m) ∧
      Throughout Mounts.step (fun _ _ _ m' => m'.WrittenThrough) (Mounts.boot blankDevices)
        [.mount 0, .call 0 (.make 0 Inode.zeroed)] := by
  have hok : ((Mounts.run (Mounts.boot blankDevices)
      [.mount 0, .call 0 (.make 0 Inode.zeroed)]).map (·.1)) = .ok [.result 0, .result 0] := by
    decide
  obtain ⟨⟨rs, m⟩, hrun, -⟩ := map_eq_ok.1 hok
  have hstays : Along Mounts.step MountStays (Mounts.boot blankDevices)
      [.mount 0, .call 0 (.make 0 Inode.zeroed)] := by
    refine ⟨⟨rfl, blankVolume_wellFormed.congr_vtoc rfl fun _ _ => rfl⟩, ?_⟩
    intro r m₁ hmount
    refine ⟨?_, fun _ _ _ => trivial⟩
    rcases dos33fsMount_spec (Mounts.boot blankDevices) 0 with ⟨hfull, -⟩ | ⟨m₂, sb, hok₂, hmounted⟩
    · exact absurd hfull (by decide)
    · simp only [Mounts.step, hok₂, Except.ok.injEq, Prod.mk.injEq] at hmount
      obtain ⟨-, rfl⟩ := hmount
      exact ⟨sb, by rw [hmounted.sbs]; rfl, trivial⟩
  refine ⟨rs, m, hrun, (Mounts.run_writtenThrough_iff hstays hrun).2 ?_⟩
  intro k f hmem
  simp at hmem

/-- A file is made and destroyed: byte `0x38 + 18 * 4 + 1` of the VTOC in memory says that 18/0,
where its T/S list was, is free, and the sector on the device says that it is in use. -/
theorem Mounts.run_leavesVtocBehind :
    ∃ m, Mounts.run (Mounts.boot blankDevices)
        [.mount 0, .call 0 (.make 0 Inode.zeroed), .call 0 (.destroy 0)] =
          .ok ([.result 0, .result 0, .result 0], m) ∧ ¬ m.WrittenThrough := by
  obtain ⟨⟨rs, m⟩, hrun, hobs⟩ := map_eq_ok.1 (by decide +kernel :
    (Mounts.run (Mounts.boot blankDevices)
      [.mount 0, .call 0 (.make 0 Inode.zeroed), .call 0 (.destroy 0)]).map (fun q =>
        (q.1, q.2.sbs.map fun sb => (q.2.disk sb.block 272 129, (q.2.volume sb).vtoc 129))) =
      .ok ([.result 0, .result 0, .result 0], [(0xfc, 0xfd)]))
  simp only [Prod.mk.injEq] at hobs
  obtain ⟨rfl, hbytes⟩ := hobs
  refine ⟨m, hrun, ?_⟩
  intro hv
  obtain ⟨sb, hsb, hbyte⟩ := List.mem_map.1 (hbytes ▸ List.mem_singleton_self (0xfc, 0xfd))
  have hsame := hv sb hsb 129 (by decide)
  rw [Prod.mk.injEq] at hbyte
  have hdiff : (0xfc : UInt8) = 0xfd := hbyte.1.symm.trans (hsame.trans hbyte.2)
  exact absurd hdiff (by decide)

end Vmwos
