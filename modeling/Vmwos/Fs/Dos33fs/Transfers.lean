import Vmwos.Fs.Dos33fs.FileSteps
import Vmwos.Library.ByteArray

/-!
# The loops of the file operations

What the loops of reading, writing, shrinking and growing do as long as they stay in
one T/S list of the file. Each has a lemma for one sector, which says what happens to
the bytes and the sectors of the file, and a lemma for a run of sectors by induction
on the rounds. The position in the chain of lists is the invariant `AtList`: the list
held in memory is the list on disk.
-/

set_option autoImplicit false

namespace Vmwos

open Library

/-! ## The walk -/

/-- The walk has list `l` in memory, as it is on disk. -/
structure AtList (d : Disk) (w : TsWalk) (l : Nat) : Prop where
  location : w.blockLocation = 256 * l
  block : w.currentBlock = d l

section Walk

variable {d : Disk} {number c e l : Nat}

theorem loadCatalogEntry_currentBlock (hn : Names number c e) :
    (loadCatalogEntry d number).currentBlock = d c := by
  show readBlock d (inodeToBlock number) = d c
  rw [hn.block, readBlock_mul]

theorem loadCatalogEntry_type (hn : Names number c e) :
    (loadCatalogEntry d number).type = fileType d c e := by
  show (readBlock d (inodeToBlock number) (catOffset (inodeEntry number) 2)).toNat &&& 0x7f = _
  rw [hn.block, hn.entry, readBlock_mul, fileType]

theorem loadCatalogEntry_next (hn : Names number c e) :
    (loadCatalogEntry d number).nextT = (headTrack (d c) e).toNat ∧
      (loadCatalogEntry d number).nextS = (d c (catOffset e 1)).toNat := by
  constructor
  · show (if (readBlock d (inodeToBlock number) (catOffset (inodeEntry number) 0)).toNat = 0xfe
      then _ else _) = _
    rw [hn.block, hn.entry, readBlock_mul, headTrack]
    by_cases hfe : d c (catOffset e 0) = 0xfe
    · rw [if_pos hfe, if_pos (by rw [hfe]; rfl)]
    · rw [if_neg hfe, if_neg]
      intro h
      exact hfe (UInt8.toNat_inj.1 (by rw [h]; rfl))
  · show (readBlock d (inodeToBlock number) (catOffset (inodeEntry number) 1)).toNat = _
    rw [hn.block, hn.entry, readBlock_mul]

theorem ts_of_sectorPtr {t s : UInt8} {n : Nat} (h : sectorPtr t s = some n) :
    ts t.toNat s.toNat = 256 * n := by
  rw [ts_eq, (sectorPtr_eq_some.1 h).2]

/-- A pointer leads off the end exactly when it is 0/0. -/
theorem ts_eq_zero_iff {t s : UInt8} : ts t.toNat s.toNat = 0 ↔ sectorPtr t s = none := by
  rw [ts_eq, sectorPtr_eq_none, ← toNat_eq_zero, ← toNat_eq_zero]
  omega

/-- The first list is loaded. The pointer for the time after is the link of the catalog
sector, not that of the list. -/
theorem advanceTs_catalog (hn : Names number c e) (hl : tsListAt d c e 0 = some l) (hpos : l ≠ 0)
    (location : Nat) :
    advanceTs d 1 ((loadCatalogEntry d number).walk location) =
      some ⟨256 * l, (d c 1).toNat, (d c 2).toNat, d l⟩ := by
  have hts : ts (loadCatalogEntry d number).nextT (loadCatalogEntry d number).nextS = 256 * l := by
    rw [(loadCatalogEntry_next hn).1, (loadCatalogEntry_next hn).2]
    exact ts_of_sectorPtr hl
  simp only [advanceTs, CatPointer.walk, hts, readBlock_mul, loadCatalogEntry_currentBlock hn]
  rw [if_neg (by omega)]

theorem advanceTs_first (hn : Names number c e) (hl : tsListAt d c e 0 = some l) (hpos : l ≠ 0)
    (location : Nat) :
    ∃ w, advanceTs d 1 ((loadCatalogEntry d number).walk location) = some w ∧ AtList d w l :=
  ⟨_, advanceTs_catalog hn hl hpos location, rfl, rfl⟩

/-- Without an advance the walk stays. -/
theorem advanceTs_zero (w : TsWalk) : advanceTs d 0 w = some w := rfl

theorem nextEntry_of_lt {which : Nat} (h : which + 1 < 122) : nextEntry which = (0, which + 1) :=
  if_neg (Nat.not_le_of_lt h)

/-- Entry `i` of list `k` in memory is data sector `122 * k + i` on disk. -/
theorem tsEntry_atList {w : TsWalk} {k i : Nat} (hw : AtList d w l)
    (hl : tsListAt d c e k = some l) (hi : i < 122) :
    tsEntry w.currentBlock i = dataAt d c e (122 * k + i) := by
  have hk : (122 * k + i) / 122 = k := by omega
  have hi' : (122 * k + i) % 122 = i := by omega
  rw [dataAt, hk, hi', hl, Option.bind_some, hw.block]

end Walk

/-! ## Writing -/

section Write

variable {v v' v'' : Dos33Volume} {root c e k l : Nat}

/-- What the transfer of `buf` to byte `start` of a file does. -/
structure WriteEffect (root c e : Nat) (v v' : Dos33Volume) (start : Nat) (buf : List UInt8) :
    Prop where
  step : FileStep root c e v v'
  pool : SamePool root c e v v'
  lists : ∀ j, tsListAt v'.disk c e j = tsListAt v.disk c e j
  bytes : ∀ p, fileByte v'.disk c e p =
    if start ≤ p ∧ p < start + buf.length then FileBytes.byteAt buf (p - start)
    else fileByte v.disk c e p
  mono : ∀ j n, dataAt v.disk c e j = some n → dataAt v'.disk c e j = some n
  new : ∀ j, dataAt v'.disk c e j ≠ none →
    dataAt v.disk c e j ≠ none ∨ 256 * j < start + max 1 buf.length

/-- Some of the file's sectors have come from the pool, and the pool is empty. -/
def OutOfSpace (root c e : Nat) (v : Dos33Volume) : Prop :=
  ∃ v', FileStep root c e v v' ∧ SamePool root c e v v' ∧
    ∀ n < 16 * numTracks v'.vtoc, ¬ FreeIn v' n

theorem OutOfSpace.of_step (h : WellFormed v root) (hf : IsFile v.disk root c e)
    (hstep : FileStep root c e v v') (hpool : SamePool root c e v v')
    (hout : OutOfSpace root c e v') : OutOfSpace root c e v := by
  obtain ⟨v'', hstep', hpool', hnone⟩ := hout
  exact ⟨v'', hstep.trans h hf hstep', hpool.trans hpool', hnone⟩

/-- The allocator takes a sector, or the pool is empty. -/
theorem dos33AllocateSector_or_outOfSpace (h : WellFormed v root) (hf : IsFile v.disk root c e) :
    (dos33AllocateSector v = .error .noFreeSector ∧ OutOfSpace root c e v) ∨
      ∃ t s v', dos33AllocateSector v = .ok (t, s, v') := by
  rcases dos33AllocateSector_cases v with herr | hok
  · refine Or.inl ⟨herr, v, FileStep.refl h hf, SamePool.refl _ _ _ _, fun n hn hfree => ?_⟩
    rw [FreeIn, (dos33AllocateSector_eq_error_iff h.vtoc).1 herr n hn] at hfree
    cases hfree
  · exact Or.inr hok

theorem WriteEffect.trans {start : Nat} {buf rest : List UInt8} (h : WellFormed v root)
    (hf : IsFile v.disk root c e) (hrest : rest ≠ [])
    (h1 : WriteEffect root c e v v' start buf)
    (h2 : WriteEffect root c e v' v'' (start + buf.length) rest) :
    WriteEffect root c e v v'' start (buf ++ rest) where
  step := h1.step.trans h hf h2.step
  pool := h1.pool.trans h2.pool
  lists j := (h2.lists j).trans (h1.lists j)
  bytes p := by
    rw [h2.bytes, h1.bytes, List.length_append, FileBytes.byteAt_append]
    by_cases h2p : start + buf.length ≤ p ∧ p < start + buf.length + rest.length
    · rw [if_pos h2p, if_pos (by omega), if_neg (by omega)]
      congr 1
      omega
    · rw [if_neg h2p]
      by_cases h1p : start ≤ p ∧ p < start + buf.length
      · rw [if_pos h1p, if_pos (by omega), if_pos (by omega)]
      · rw [if_neg h1p, if_neg (by omega)]
  mono j n hn := h2.mono j n (h1.mono j n hn)
  new j hj := by
    have hpos : 0 < rest.length := List.length_pos_iff.2 hrest
    rw [List.length_append]
    rcases h2.new j hj with hj | hj
    · exact (h1.new j hj).imp_right fun hj => by omega
    · exact Or.inr (by omega)

/-- A hole gets a sector, a sector there is kept: in both cases the contents stay, and
the sector found holds the file's bytes. -/
theorem fillHole_spec (h : WellFormed v root) {w : TsWalk} {i : Nat}
    (hl : Refers v.disk root (.tsList c e k) l) (hw : AtList v.disk w l) (hi : i < 122) :
    (fillHole v w i = .error .noFreeSector ∧ OutOfSpace root c e v) ∨
      ∃ n data v' w', fillHole v w i = .ok (256 * n, data, v', w') ∧
        FileStep root c e v v' ∧ SamePool root c e v v' ∧ AtList v'.disk w' l ∧
        (∀ j, tsListAt v'.disk c e j = tsListAt v.disk c e j) ∧
        (∀ j, dataAt v'.disk c e j = if j = 122 * k + i then some n else dataAt v.disk c e j) ∧
        (∀ p, p / 256 ≠ 122 * k + i → fileByte v'.disk c e p = fileByte v.disk c e p) ∧
        (∀ q < 256, data q = fileByte v.disk c e (256 * (122 * k + i) + q)) ∧
        (∀ n', dataAt v.disk c e (122 * k + i) = some n' → n' = n) := by
  have hentry := tsEntry_atList hw hl.2 hi
  have hp (q : Nat) (hq : q < 256) : (256 * (122 * k + i) + q) / 256 = 122 * k + i ∧
      (256 * (122 * k + i) + q) % 256 = q := by omega
  cases hdata : dataAt v.disk c e (122 * k + i) with
  | none =>
      rw [hdata] at hentry
      have hzero := tsEntry_eq_none.1 hentry
      rcases dos33AllocateSector_or_outOfSpace h hl.1 with ⟨herr, hout⟩ | ⟨t, s, v1, ha⟩
      · left
        refine ⟨?_, hout⟩
        simp only [fillHole, hzero, and_self, if_true, herr]
      · right
        obtain ⟨hs, htaken⟩ := dos33AllocateSector_taken h.vtoc ha
        have ht : t < 256 := by
          have h1 := htaken.lt
          have h2 := h.vtoc.tracks_le
          omega
        have hs' : s < 256 := by omega
        have hm := htaken.sameMeta h
        have hstep := htaken.fileStep h hl.1
        have hl' : Refers v1.disk root (.tsList c e k) l := (hm.refers_iff _ _).2 hl
        have hblock : w.currentBlock = v1.disk l := by rw [hw.block, hm.tsList c e k l hl.1 hl.2]
        have hne : ¬ (t = 0 ∧ s = 0) := by
          have := (h.reserved _ htaken.free).1
          omega
        refine ⟨16 * t + s, fun _ => 0,
          { v1 with disk := Function.update v1.disk l (setTsEntry (v1.disk l) i t s) },
          { w with currentBlock := setTsEntry (v1.disk l) i t s }, ?_, ?_, ?_, ?_, ?_, ?_, ?_, ?_, ?_⟩
        · rw [hblock] at hzero
          simp only [fillHole, hblock, hzero, and_self, if_true, ha, hw.location, writeBlock_mul, ts_eq]
        · exact hstep.trans h hl.1 (fileStep_setTsEntry hstep.wf hl' hi ht hs' (htaken.spare h))
        · exact samePool_fill h hl hi ht hs' htaken hdata
        · exact ⟨hw.location, (Function.update_self l (setTsEntry (v1.disk l) i t s) v1.disk).symm⟩
        · intro j
          exact (tsListAt_setTsEntry hstep.wf hl' i t s j).trans (hm.tsListAt_eq hl.1 j)
        · intro j
          rw [dataAt_setTsEntry hstep.wf hl' ht hs' hi, if_neg hne, hm.dataAt_eq hl.1]
        · intro p hpne
          rw [fileByte_setTsEntry hstep.wf hl' ht hs' hi hpne, htaken.disk]
          exact fileByte_update_unreferenced hl.1 _ h.not_refers_vtoc p
        · intro q hq
          rw [fileByte_of_none]
          rw [(hp q hq).1, hdata]
        · intro n' hn'
          cases hn'
  | some n =>
      right
      rw [hdata] at hentry
      have hzero : ¬ (tsEntryT w.currentBlock i = 0 ∧ tsEntryS w.currentBlock i = 0) := by
        rw [← tsEntry_eq_none, hentry]
        exact fun h => by cases h
      refine ⟨n, v.disk n, v, w, ?_, FileStep.refl h hl.1, SamePool.refl _ _ _ _, hw,
        fun _ => rfl, ?_, fun _ _ => rfl, ?_, ?_⟩
      · simp only [fillHole, hzero, if_false, ts_of_tsEntry hentry, readBlock_mul]
      · intro j
        by_cases hj : j = 122 * k + i
        · rw [if_pos hj, hj, hdata]
        · rw [if_neg hj]
      · intro q hq
        rw [fileByte_of_some (n := n) (by rw [(hp q hq).1, hdata]), (hp q hq).2]
      · intro n' hn'
        exact (Option.some.inj hn').symm

/-- The bytes of a buffer after some are copied in. -/
theorem copyIn_apply (b : Block) (start : Nat) (buf : List UInt8) (q : Nat) :
    copyIn b start buf q =
      if start ≤ q ∧ q < start + buf.length then FileBytes.byteAt buf (q - start) else b q := by
  rw [copyIn]
  induction buf generalizing b start with
  | nil =>
      rw [if_neg (by simp only [List.length_nil]; omega)]
      rfl
  | cons x buf ih =>
      rw [setBytes, ih]
      by_cases hq : q = start
      · subst hq
        rw [if_neg (by omega), if_pos (by simp only [List.length_cons]; omega), Function.update_self,
          Nat.sub_self]
        rfl
      · rw [Function.update_of_ne hq]
        by_cases hin : start + 1 ≤ q ∧ q < start + 1 + buf.length
        · have hcons : q - start = (q - (start + 1)) + 1 := by omega
          rw [if_pos hin, if_pos (by simp only [List.length_cons]; omega), hcons]
          rfl
        · rw [if_neg hin, if_neg (by simp only [List.length_cons]; omega)]

/-- One data sector is written. -/
theorem writeSector_spec (h : WellFormed v root) {w : TsWalk} {i off : Nat} (buf : List UInt8)
    (hl : Refers v.disk root (.tsList c e k) l) (hw : AtList v.disk w l) (hi : i < 122)
    (hoff : off < 256) :
    (writeSector v w i off buf = .error .noFreeSector ∧ OutOfSpace root c e v) ∨
      ∃ v' w', writeSector v w i off buf = .ok (v', w', buf.drop (256 - off)) ∧
        AtList v'.disk w' l ∧
        WriteEffect root c e v v' (256 * (122 * k + i) + off) (buf.take (256 - off)) := by
  rcases fillHole_spec h hl hw hi with ⟨herr, hout⟩ | ⟨n, data, v1, w1, hfill, hstep, hpool, hw1,
    hlists, hdata, hother, hold, hsame⟩
  · left
    refine ⟨?_, hout⟩
    simp only [writeSector, herr]
  · right
    have htake : buf.take (min (256 - off) buf.length) = buf.take (256 - off) := by
      rw [List.take_eq_take_iff]
      omega
    have hdrop : buf.drop (min (256 - off) buf.length) = buf.drop (256 - off) := by
      by_cases hlen : 256 - off ≤ buf.length
      · rw [Nat.min_eq_left hlen]
      · rw [Nat.min_eq_right (by omega), List.drop_length, List.drop_eq_nil_of_le (by omega)]
    have hn : Refers v1.disk root (.data c e (122 * k + i)) n :=
      ⟨hstep.file, by rw [hdata, if_pos rfl]⟩
    have hl1 : Refers v1.disk root (.tsList c e k) l := ⟨hstep.file, by rw [hlists, hl.2]⟩
    have hln : l ≠ n := by
      rintro rfl
      cases hstep.wf.account.exclusive _ _ l hn hl1
    have hm := SameMeta.update_data (b := copyIn data off (buf.take (256 - off)))
      hstep.wf.account hn
    refine ⟨{ v1 with disk := Function.update v1.disk n (copyIn data off (buf.take (256 - off))) },
      w1, ?_, ?_, ?_⟩
    · simp only [writeSector, hfill, writeBlock_mul, htake, hdrop]
    · exact ⟨hw1.location, by rw [hw1.block]; exact (Function.update_of_ne hln _ _).symm⟩
    · have hd (j : Nat) : dataAt (Function.update v1.disk n
          (copyIn data off (buf.take (256 - off)))) c e j =
          if j = 122 * k + i then some n else dataAt v.disk c e j := by
        rw [hm.dataAt_eq hstep.file, hdata]
      have hlen : (buf.take (256 - off)).length ≤ 256 - off := List.length_take_le _ _
      refine ⟨hstep.trans h hl.1 (fileStep_update_data hstep.wf _ hn),
        hpool.trans (samePool_update_data hstep.wf _ hn), ?_, ?_, ?_, ?_⟩
      · intro j
        exact (hm.tsListAt_eq hstep.file j).trans (hlists j)
      · intro p
        rw [fileByte_update_data hstep.wf.account hn, copyIn_apply]
        by_cases hp : p / 256 = 122 * k + i
        · have hpq : p = 256 * (122 * k + i) + p % 256 := by omega
          rw [if_pos hp, hold (p % 256) (by omega), ← hpq]
          by_cases hin : off ≤ p % 256 ∧ p % 256 < off + (buf.take (256 - off)).length
          · rw [if_pos hin, if_pos (by omega)]
            congr 1
            omega
          · rw [if_neg hin, if_neg (by omega)]
        · rw [if_neg hp, hother p hp, if_neg (by omega)]
      · intro j m hm'
        rw [hd]
        by_cases hj : j = 122 * k + i
        · rw [hj] at hm'
          rw [if_pos hj, hsame m hm']
        · rw [if_neg hj, hm']
      · intro j hj
        rw [hd] at hj
        by_cases hji : j = 122 * k + i
        · exact Or.inr (by omega)
        · rw [if_neg hji] at hj
          exact Or.inl hj

/-- An advance before the loop or at its head. -/
theorem writeLoop_advance {fuel n which off : Nat} {w w' : TsWalk} {buf : List UInt8}
    (h : advanceTs v.disk n w = some w') :
    writeLoop (fuel + 1) v w n which off buf = writeLoop (fuel + 1) v w' 0 which off buf := by
  simp only [writeLoop, h, advanceTs_zero]

/-- A run of data sectors within one list is written. The induction is on the rounds;
the list in memory is the list on disk before each of them. -/
theorem writeLoop_spec (fuel : Nat) (h : WellFormed v root) {w : TsWalk} {i : Nat} (off : Nat)
    (buf : List UInt8) (hl : Refers v.disk root (.tsList c e k) l) (hw : AtList v.disk w l)
    (hi : i < 122) (hoff : off < 256) (hend : 256 * i + off + buf.length ≤ 256 * 122)
    (hfuel : buf.length < fuel) :
    (writeLoop fuel v w 0 i off buf = .error .noFreeSector ∧ OutOfSpace root c e v) ∨
      ∃ v', writeLoop fuel v w 0 i off buf = .ok (0, v') ∧
        WriteEffect root c e v v' (256 * (122 * k + i) + off) buf := by
  induction fuel generalizing v w i off buf with
  | zero => omega
  | succ fuel ih =>
      rw [writeLoop, advanceTs_zero]
      rcases writeSector_spec h buf hl hw hi hoff with ⟨herr, hout⟩ | ⟨v1, w1, hsector, hw1, heff⟩
      · left
        refine ⟨?_, hout⟩
        simp only [herr]
      · simp only [hsector]
        by_cases hrest : (buf.drop (256 - off)).length = 0
        · right
          rw [if_pos hrest]
          refine ⟨v1, rfl, ?_⟩
          rw [List.length_drop] at hrest
          rwa [List.take_of_length_le (by omega)] at heff
        · rw [if_neg hrest]
          rw [List.length_drop] at hrest
          rw [nextEntry_of_lt (by omega)]
          have hl1 : Refers v1.disk root (.tsList c e k) l :=
            ⟨heff.step.file, by rw [heff.lists, hl.2]⟩
          have hlen : (buf.drop (256 - off)).length = buf.length - (256 - off) := List.length_drop
          rcases ih heff.step.wf (i := i + 1) 0 (buf.drop (256 - off)) hl1 hw1
            (by omega) (by omega) (by omega) (by omega) with ⟨herr, hout⟩ | ⟨v2, hloop, heff2⟩
          · exact Or.inl ⟨herr, hout.of_step h hl.1 heff.step heff.pool⟩
          · right
            refine ⟨v2, hloop, ?_⟩
            have hstart : 256 * (122 * k + (i + 1)) + 0 =
                256 * (122 * k + i) + off + (buf.take (256 - off)).length := by
              rw [List.length_take]
              omega
            rw [hstart] at heff2
            have key := heff.trans h hl.1 (by
              rw [← List.length_pos_iff, hlen]
              omega) heff2
            rwa [List.take_append_drop] at key

end Write

/-! ## Reading -/

section Read

variable {d : Disk} {c e k l : Nat}

/-- The bytes of a file from `start` on. -/
def fileBytes (d : Disk) (c e start length : Nat) : List UInt8 :=
  (List.range length).map fun j => fileByte d c e (start + j)

theorem fileBytes_length (d : Disk) (c e start length : Nat) :
    (fileBytes d c e start length).length = length := by
  rw [fileBytes, List.length_map, List.length_range]

theorem fileBytes_append (d : Disk) (c e start m n : Nat) :
    fileBytes d c e start m ++ fileBytes d c e (start + m) n = fileBytes d c e start (m + n) := by
  rw [fileBytes, fileBytes, fileBytes, List.range_add, List.map_append, List.map_map]
  congr 1
  apply List.map_congr_left
  intro j _
  show fileByte d c e (start + m + j) = fileByte d c e (start + (m + j))
  rw [Nat.add_assoc]

/-- A data sector in memory holds the file's bytes. -/
theorem loadData_eq {w : TsWalk} {i : Nat} (hw : AtList d w l) (hl : tsListAt d c e k = some l)
    (hi : i < 122) {q : Nat} (hq : q < 256) :
    loadData d w.currentBlock i q = fileByte d c e (256 * (122 * k + i) + q) := by
  have hentry := tsEntry_atList hw hl hi
  have hdiv : (256 * (122 * k + i) + q) / 256 = 122 * k + i := by omega
  have hmod : (256 * (122 * k + i) + q) % 256 = q := by omega
  cases hdata : dataAt d c e (122 * k + i) with
  | none =>
      rw [hdata] at hentry
      rw [fileByte_of_none (by rw [hdiv, hdata]), loadData, if_pos (tsEntry_eq_none.1 hentry)]
  | some n =>
      rw [hdata] at hentry
      have hzero : ¬ (tsEntryT w.currentBlock i = 0 ∧ tsEntryS w.currentBlock i = 0) := by
        rw [← tsEntry_eq_none, hentry]
        exact fun h => by cases h
      rw [fileByte_of_some (n := n) (by rw [hdiv, hdata]), hmod, loadData, if_neg hzero,
        ts_of_tsEntry hentry, readBlock_mul]

theorem copyOut_loadData {w : TsWalk} {i off length : Nat} (hw : AtList d w l)
    (hl : tsListAt d c e k = some l) (hi : i < 122) (hlen : off + length ≤ 256) :
    copyOut (loadData d w.currentBlock i) off length =
      fileBytes d c e (256 * (122 * k + i) + off) length := by
  rw [copyOut, fileBytes]
  apply List.map_congr_left
  intro j hj
  rw [List.mem_range] at hj
  rw [loadData_eq hw hl hi (by omega), Nat.add_assoc]

/-- One data sector is read; `last` and `lo` are the last sector and the offset of
the end of the file in it. -/
theorem readSector_spec {w : TsWalk} {i off last lo : Nat} (desired : Nat) (hw : AtList d w l)
    (hl : tsListAt d c e k = some l) (hi : i < 122) (hlo : lo < 256)
    (hstart : 256 * (122 * k + i) + off ≤ 256 * last + lo) (hoff : off < 256) :
    let n := min desired (min (256 - off) (256 * last + lo - (256 * (122 * k + i) + off)))
    (readSector d last lo w i off ((122 * k + i : Nat) : Int) desired).1 =
        fileBytes d c e (256 * (122 * k + i) + off) n ∧
      (readSector d last lo w i off ((122 * k + i : Nat) : Int) desired).2 =
        if 122 * k + i < last then desired - n else 0 := by
  intro n
  simp only [readSector]
  by_cases hend : 122 * k + i = last ∧ off + min (256 - off) desired > lo
  · have hend' : ((122 * k + i : Nat) : Int) = (last : Int) ∧
        ((off + min (256 - off) desired : Nat) : Int) > (lo : Int) := by omega
    have hn : ((lo : Int) - off).toNat = n := by omega
    rw [if_pos hend', if_pos hend', hn, copyOut_loadData hw hl hi (by omega), if_neg (by omega)]
    exact ⟨rfl, Nat.sub_self n⟩
  · have hend' : ¬ (((122 * k + i : Nat) : Int) = (last : Int) ∧
        ((off + min (256 - off) desired : Nat) : Int) > (lo : Int)) := by omega
    have hn : min (256 - off) desired = n := by omega
    rw [if_neg hend', if_neg hend', hn, copyOut_loadData hw hl hi (by omega)]
    refine ⟨rfl, ?_⟩
    by_cases hlast : 122 * k + i < last
    · rw [if_pos hlast]
    · rw [if_neg hlast]
      omega

theorem readLoop_advance {fuel n which off desired : Nat} {last lo current : Int} {w w' : TsWalk}
    (h : advanceTs d n w = some w') :
    readLoop d last lo (fuel + 1) w n which off current desired =
      readLoop d last lo (fuel + 1) w' 0 which off current desired := by
  simp only [readLoop, h, advanceTs_zero]

/-- A run of data sectors within one list is read, up to the end of the file: the file or
what is wanted ends in the list. -/
theorem readLoop_spec (fuel : Nat) {w : TsWalk} {i : Nat} (off last lo desired : Nat)
    (hw : AtList d w l) (hl : tsListAt d c e k = some l) (hi : i < 122) (hoff : off < 256) (hlo : lo < 256)
    (hin : last < 122 * k + 122 ∨ 256 * (122 * k + i) + off + desired ≤ 256 * (122 * k + 122))
    (hstart : 256 * (122 * k + i) + off ≤ 256 * last + lo) (hfuel : desired < fuel) :
    readLoop d last lo fuel w 0 i off ((122 * k + i : Nat) : Int) desired =
      some (fileBytes d c e (256 * (122 * k + i) + off)
        (min desired (256 * last + lo - (256 * (122 * k + i) + off)))) := by
  induction fuel generalizing i off desired with
  | zero => omega
  | succ fuel ih =>
      obtain ⟨hbytes, hrest⟩ := readSector_spec desired hw hl hi hlo hstart hoff
      rw [readLoop, advanceTs_zero]
      simp only [hbytes, hrest]
      by_cases hdone : (if 122 * k + i < last then desired -
          min desired (min (256 - off) (256 * last + lo - (256 * (122 * k + i) + off))) else 0) = 0
      · rw [if_pos hdone]
        congr 2
        split_ifs at hdone <;> omega
      · rw [if_neg hdone]
        have hlt : 122 * k + i < last := by
          by_contra hle
          rw [if_neg hle] at hdone
          exact hdone rfl
        rw [if_pos hlt] at hdone ⊢
        have hn : min desired (min (256 - off) (256 * last + lo - (256 * (122 * k + i) + off))) =
            256 - off := by omega
        have hcur : ((122 * k + i : Nat) : Int) + 1 = ((122 * k + (i + 1) : Nat) : Int) := by omega
        have hnext : 256 * (122 * k + (i + 1)) + 0 = 256 * (122 * k + i) + off + (256 - off) := by
          omega
        rw [hn, nextEntry_of_lt (by omega), hcur,
          ih 0 _ (by omega) (by omega) (by omega) (by omega) (by omega),
          Option.map_some, hnext, fileBytes_append]
        congr 2
        omega

end Read

/-! ## Shrinking -/

section Shrink

variable {v v' v'' : Dos33Volume} {root c e k l : Nat}

/-- What shrinking does to the sectors from byte `start` up to sector `last`: they
read as 0, and those that lie wholly behind `start` are given back. -/
structure ShrinkEffect (root c e : Nat) (v v' : Dos33Volume) (start last : Nat) : Prop where
  step : FileStep root c e v v'
  pool : SamePool root c e v v'
  lists : ∀ j, tsListAt v'.disk c e j = tsListAt v.disk c e j
  bytes : ∀ p, fileByte v'.disk c e p =
    if start ≤ p ∧ p / 256 ≤ last then 0 else fileByte v.disk c e p
  data : ∀ j, dataAt v'.disk c e j =
    if start ≤ 256 * j ∧ j ≤ last then none else dataAt v.disk c e j

theorem ShrinkEffect.trans {start s last : Nat} (h : WellFormed v root)
    (hf : IsFile v.disk root c e) (hs : start / 256 = s) (hlast : s + 1 ≤ last)
    (h1 : ShrinkEffect root c e v v' start s)
    (h2 : ShrinkEffect root c e v' v'' (256 * (s + 1)) last) :
    ShrinkEffect root c e v v'' start last where
  step := h1.step.trans h hf h2.step
  pool := h1.pool.trans h2.pool
  lists j := (h2.lists j).trans (h1.lists j)
  bytes p := by
    rw [h2.bytes, h1.bytes]
    by_cases h2p : 256 * (s + 1) ≤ p ∧ p / 256 ≤ last
    · rw [if_pos h2p, if_pos (by omega)]
    · rw [if_neg h2p]
      by_cases h1p : start ≤ p ∧ p / 256 ≤ s
      · rw [if_pos h1p, if_pos (by omega)]
      · rw [if_neg h1p, if_neg (by omega)]
  data j := by
    rw [h2.data, h1.data]
    by_cases h2j : 256 * (s + 1) ≤ 256 * j ∧ j ≤ last
    · rw [if_pos h2j, if_pos (by omega)]
    · rw [if_neg h2j]
      by_cases h1j : start ≤ 256 * j ∧ j ≤ s
      · rw [if_pos h1j, if_pos (by omega)]
      · rw [if_neg h1j, if_neg (by omega)]

/-- The bytes of one sector are zeroed from `off` on. -/
def zeroFrom (b : Block) (off : Nat) : Block :=
  fun i => if off ≤ i ∧ i < dos33BlockSize then 0 else b i

/-- What is done to a data sector that is there: zeroed, then taken out of the list. -/
theorem shrinkSector_of_some {w : TsWalk} {i off n : Nat} (hw : AtList v.disk w l) (hln : l ≠ n)
    (hentry : tsEntry w.currentBlock i = some n) :
    shrinkSector v w i off =
      if off = 0 then
        (clearTsEntry { v with disk := Function.update v.disk n (zeroFrom (v.disk n) off) } l i n,
          { w with currentBlock := setTsEntry (v.disk l) i 0 0 })
      else ({ v with disk := Function.update v.disk n (zeroFrom (v.disk n) off) }, w) := by
  have hzero : ¬ (tsEntryT w.currentBlock i = 0 ∧ tsEntryS w.currentBlock i = 0) := by
    rw [← tsEntry_eq_none, hentry]
    exact fun h => by cases h
  have hl : Function.update v.disk n (zeroFrom (v.disk n) off) l = v.disk l :=
    Function.update_of_ne hln _ _
  rw [shrinkSector, if_neg hzero, ts_of_tsEntry hentry]
  simp only [clearTsEntry, hl, readBlock_mul, writeBlock_mul, hw.location, hw.block, getT_mul, getS_mul]
  rfl

/-- The bytes of a file after one of its sectors is zeroed. -/
theorem fileByte_update_zeroFrom (h : WellFormed v root) {s off n : Nat} (hoff : off < 256)
    (hn : Refers v.disk root (.data c e s) n) (p : Nat) :
    fileByte (Function.update v.disk n (zeroFrom (v.disk n) off)) c e p =
      if 256 * s + off ≤ p ∧ p / 256 ≤ s then 0 else fileByte v.disk c e p := by
  rw [fileByte_update_data h.account hn]
  by_cases hp : p / 256 = s
  · have hlt : p % 256 < dos33BlockSize := Nat.mod_lt p (by decide)
    rw [if_pos hp, zeroFrom]
    by_cases hq : off ≤ p % 256
    · rw [if_pos ⟨hq, hlt⟩, if_pos (by omega)]
    · rw [if_neg (fun h => hq h.1), if_neg (by omega), fileByte_of_some (n := n) (by rw [hp, hn.2])]
  · rw [if_neg hp, if_neg (by omega)]

/-- One data sector is zeroed, and given back when nothing of it is kept. -/
theorem shrinkSector_spec (h : WellFormed v root) {w : TsWalk} {i off : Nat}
    (hl : Refers v.disk root (.tsList c e k) l) (hw : AtList v.disk w l) (hi : i < 122)
    (hoff : off < 256) :
    AtList (shrinkSector v w i off).1.disk (shrinkSector v w i off).2 l ∧
      ShrinkEffect root c e v (shrinkSector v w i off).1 (256 * (122 * k + i) + off)
        (122 * k + i) := by
  have hentry := tsEntry_atList hw hl.2 hi
  cases hdata : dataAt v.disk c e (122 * k + i) with
  | none =>
      rw [hdata] at hentry
      rw [shrinkSector, if_pos (tsEntry_eq_none.1 hentry)]
      refine ⟨hw, FileStep.refl h hl.1, SamePool.refl _ _ _ _, fun _ => rfl, fun p => ?_, fun j => ?_⟩
      · by_cases hp : 256 * (122 * k + i) + off ≤ p ∧ p / 256 ≤ 122 * k + i
        · have hpk : p / 256 = 122 * k + i := by omega
          rw [if_pos hp, fileByte_of_none (by rw [hpk, hdata])]
        · rw [if_neg hp]
      · by_cases hj : 256 * (122 * k + i) + off ≤ 256 * j ∧ j ≤ 122 * k + i
        · have hjk : j = 122 * k + i := by omega
          rw [if_pos hj, hjk, hdata]
        · rw [if_neg hj]
  | some n =>
      rw [hdata] at hentry
      have hn : Refers v.disk root (.data c e (122 * k + i)) n := ⟨hl.1, hdata⟩
      have hln : l ≠ n := by
        rintro rfl
        cases h.account.exclusive _ _ l hn hl
      have hm := SameMeta.update_data (b := zeroFrom (v.disk n) off) h.account hn
      have hstep := fileStep_update_data h (zeroFrom (v.disk n) off) hn
      have hpool := samePool_update_data h (zeroFrom (v.disk n) off) hn
      have hbytes := fileByte_update_zeroFrom h hoff hn
      rw [shrinkSector_of_some hw hln hentry]
      by_cases hoff0 : off = 0
      · -- nothing of the sector is kept
        have hl1 : Refers (Function.update v.disk n (zeroFrom (v.disk n) off)) root
            (.tsList c e k) l := (hm.refers_iff _ _).2 hl
        have hn1 : dataAt (Function.update v.disk n (zeroFrom (v.disk n) off)) c e (122 * k + i) =
            some n := by rw [hm.dataAt_eq hl.1, hdata]
        have hkeep : Function.update v.disk n (zeroFrom (v.disk n) off) l = v.disk l :=
          Function.update_of_ne hln _ _
        rw [if_pos hoff0]
        refine ⟨⟨hw.location, ?_⟩, hstep.trans h hl.1 (fileStep_clearTsEntry hstep.wf hl1 hi hn1),
          hpool.trans (samePool_clearTsEntry hstep.wf hl1 hi hn1), fun j => ?_, fun p => ?_,
          fun j => ?_⟩
        · show setTsEntry (v.disk l) i 0 0 = (clearTsEntry _ l i n).disk l
          rw [clearTsEntry_disk, Function.update_self]
          exact congrArg (setTsEntry · i 0 0) hkeep.symm
        · rw [clearTsEntry_disk]
          exact (tsListAt_setTsEntry hstep.wf hl1 i 0 0 j).trans (hm.tsListAt_eq hl.1 j)
        · by_cases hp : p / 256 = 122 * k + i
          · rw [if_pos (by omega), fileByte_of_none]
            rw [dataAt_clearTsEntry hstep.wf hl1 hi, if_pos hp]
          · rw [clearTsEntry_disk, fileByte_setTsEntry hstep.wf hl1 (by decide) (by decide) hi hp]
            exact hbytes p
        · rw [dataAt_clearTsEntry hstep.wf hl1 hi]
          by_cases hj : j = 122 * k + i
          · rw [if_pos hj, if_pos (by omega)]
          · rw [if_neg hj, if_neg (by omega)]
            exact hm.dataAt_eq hl.1 j
      · rw [if_neg hoff0]
        refine ⟨⟨hw.location, by rw [hw.block]; exact (Function.update_of_ne hln _ _).symm⟩, hstep,
          hpool, fun j => hm.tsListAt_eq hl.1 j, hbytes, fun j => ?_⟩
        rw [if_neg (by omega)]
        exact hm.dataAt_eq hl.1 j

/-- As long as no list is to be deleted the walk is the one of reading. -/
theorem shrinkAdvanceTs_false (v : Dos33Volume) (n : Nat) (w : TsWalk) :
    shrinkAdvanceTs v false n w = (v, advanceTs v.disk n w) := by
  induction n generalizing w with
  | zero => rfl
  | succ n ih =>
      rw [shrinkAdvanceTs, advanceTs]
      by_cases hend : ts w.nextT w.nextS = 0
      · simp [hend]
      · simp [hend, ih]

theorem shrinkLoop_advance_succ (fuel : Nat) {n which off : Nat} {last current : Int}
    {w w' : TsWalk} (h : advanceTs v.disk n w = some w') :
    shrinkLoop last (fuel + 1) v w n which off current false =
      shrinkLoop last (fuel + 1) v w' 0 which off current false := by
  simp only [shrinkLoop, shrinkAdvanceTs_false, h, advanceTs_zero]

theorem shrinkLoop_advance {n which off : Nat} {last current : Int} {w w' : TsWalk}
    (h : advanceTs v.disk n w = some w') :
    shrinkLoop last shrinkLimit v w n which off current false =
      shrinkLoop last shrinkLimit v w' 0 which off current false :=
  shrinkLoop_advance_succ 245 h

/-- The sectors up to the old last one, all in one list. -/
theorem shrinkLoop_spec (fuel : Nat) (h : WellFormed v root) {w : TsWalk} {i : Nat}
    (off last : Nat) (hl : Refers v.disk root (.tsList c e k) l) (hw : AtList v.disk w l) (hi : 122 * k + i ≤ last)
    (hoff : off < 256) (hlast : last < 122 * k + 122) (hfuel : last - (122 * k + i) < fuel) :
    ∃ v', shrinkLoop last fuel v w 0 i off ((122 * k + i : Nat) : Int) false = .ok (0, v') ∧
      ShrinkEffect root c e v v' (256 * (122 * k + i) + off) last := by
  induction fuel generalizing v w i off with
  | zero => omega
  | succ fuel ih =>
      obtain ⟨hw1, heff⟩ := shrinkSector_spec h hl hw (by omega : i < 122) hoff
      rw [shrinkLoop, shrinkAdvanceTs_false, advanceTs_zero]
      simp only
      by_cases hdone : 122 * k + i = last
      · rw [if_pos (by rw [hdone])]
        refine ⟨_, rfl, ?_⟩
        rw [hdone] at heff ⊢
        exact heff
      · have hcur : ((122 * k + i : Nat) : Int) + 1 = ((122 * k + (i + 1) : Nat) : Int) := by omega
        rw [if_neg (fun heq => hdone (Int.ofNat_inj.1 heq)), if_neg (by omega : ¬ i + 1 ≥ 122),
          nextEntry_of_lt (by omega), hcur]
        have hl1 : Refers (shrinkSector v w i off).1.disk root (.tsList c e k) l :=
          ⟨heff.step.file, by rw [heff.lists, hl.2]⟩
        obtain ⟨v2, hloop, heff2⟩ := ih heff.step.wf (i := i + 1) 0 hl1 hw1 (by omega)
          (by omega) (by omega)
        refine ⟨v2, hloop, ?_⟩
        exact heff.trans h hl.1 (by omega) (by omega) heff2

/-- What is done to one sector changes the disk, marks a sector free and changes the block
in memory; the rest of the walk stays. -/
theorem shrinkSector_cases (v : Dos33Volume) (w : TsWalk) (which off : Nat) :
    shrinkSector v w which off = (v, w) ∨
    (∃ d, shrinkSector v w which off = ({ v with disk := d }, w)) ∨
    ∃ d t s b, shrinkSector v w which off =
      (dos33MarkBlocksFree { v with disk := d } t s, { w with currentBlock := b }) := by
  rw [shrinkSector]
  by_cases hhole : tsEntryT w.currentBlock which = 0 ∧ tsEntryS w.currentBlock which = 0
  · exact Or.inl (if_pos hhole)
  · rw [if_neg hhole]
    by_cases hoff : off = 0
    · exact Or.inr (Or.inr ⟨_, _, _, _, if_pos hoff⟩)
    · exact Or.inr (Or.inl ⟨_, if_neg hoff⟩)

theorem shrinkSector_walk (v : Dos33Volume) (w : TsWalk) (which off : Nat) :
    (shrinkSector v w which off).2.blockLocation = w.blockLocation ∧
      (shrinkSector v w which off).2.nextT = w.nextT ∧
      (shrinkSector v w which off).2.nextS = w.nextS := by
  rcases shrinkSector_cases v w which off with h | ⟨d, h⟩ | ⟨d, t, s, b, h⟩ <;> rw [h] <;>
    exact ⟨rfl, rfl, rfl⟩

/-- The sectors up to the end of a list, and the step past it. -/
theorem shrinkLoop_cross (fuel : Nat) (h : WellFormed v root) {w : TsWalk} {i : Nat}
    (off last : Nat) (hl : Refers v.disk root (.tsList c e k) l) (hw : AtList v.disk w l)
    (hi : i < 122) (hoff : off < 256) (hlast : 122 * k + 122 ≤ last) (hfuel : 122 - i ≤ fuel) :
    ∃ fuel' v' w', ShrinkEffect root c e v v' (256 * (122 * k + i) + off) (122 * k + 121) ∧
      w'.blockLocation = 256 * l ∧ w'.nextT = w.nextT ∧ w'.nextS = w.nextS ∧
      shrinkLoop last fuel v w 0 i off ((122 * k + i : Nat) : Int) false =
        shrinkLoop last fuel'
          { v' with disk := Function.update v'.disk l (setTsNext (v'.disk l) 0 0) } w' 1 0 0
          ((122 * k + 122 : Nat) : Int) true := by
  induction fuel generalizing v w i off with
  | zero => omega
  | succ fuel ih =>
      obtain ⟨hw1, heff⟩ := shrinkSector_spec h hl hw hi hoff
      obtain ⟨-, hnt, hns⟩ := shrinkSector_walk v w i off
      have hcur : ¬ ((122 * k + i : Nat) : Int) = (last : Int) := by omega
      rw [shrinkLoop, shrinkAdvanceTs_false, advanceTs_zero]
      simp only [if_neg hcur]
      by_cases hend : i + 1 ≥ 122
      · have hi121 : i = 121 := by omega
        subst hi121
        refine ⟨fuel, _, ⟨256 * l, (shrinkSector v w 121 off).2.nextT,
          (shrinkSector v w 121 off).2.nextS,
          setTsNext ((shrinkSector v w 121 off).1.disk l) 0 0⟩, heff, rfl, hnt, hns, ?_⟩
        have hnext : nextEntry 121 = (1, 0) := rfl
        have hsum : ((122 * k + 121 : Nat) : Int) + 1 = ((122 * k + 122 : Nat) : Int) := by omega
        rw [if_pos hend, hnext, hsum, hw1.block, hw1.location, writeBlock_mul]
      · have hsum : ((122 * k + i : Nat) : Int) + 1 = ((122 * k + (i + 1) : Nat) : Int) := by omega
        have hl1 : Refers (shrinkSector v w i off).1.disk root (.tsList c e k) l :=
          ⟨heff.step.file, by rw [heff.lists, hl.2]⟩
        obtain ⟨fuel', v', w', heff', hw', hnt', hns', hloop⟩ :=
          ih heff.step.wf (i := i + 1) 0 hl1 hw1 (by omega) (by omega) (by omega)
        refine ⟨fuel', v', w', ?_, hw', hnt'.trans hnt, hns'.trans hns, ?_⟩
        · exact heff.trans h hl.1 (by omega) (by omega) heff'
        · rw [if_neg hend, nextEntry_of_lt (by omega), hsum]
          exact hloop

/-! What is marked free while shrinking stays marked free. -/

theorem freeIn_mono_dos33MarkBlocksFree (v : Dos33Volume) (t s : Nat) {n : Nat} (hn : FreeIn v n) :
    FreeIn (dos33MarkBlocksFree v t s) n := by
  by_cases hs : s < 16
  · rw [FreeIn, isFree_dos33MarkBlocksFree v hs, hn, Bool.or_true]
  · rw [dos33MarkBlocksFree, if_neg hs]
    exact hn

theorem freeIn_mono_shrinkAdvanceTs {n : Nat} (delete : Bool) (m : Nat) (w : TsWalk)
    (hn : FreeIn v n) : FreeIn (shrinkAdvanceTs v delete m w).1 n := by
  induction m generalizing v w with
  | zero => exact hn
  | succ m ih =>
      rw [shrinkAdvanceTs]
      have hmark : FreeIn (if delete = true then
          dos33MarkBlocksFree v (getT w.blockLocation) (getS w.blockLocation) else v) n := by
        cases delete with
        | true => exact freeIn_mono_dos33MarkBlocksFree v _ _ hn
        | false => exact hn
      by_cases hend : ts w.nextT w.nextS = 0
      · simp only [if_pos hend]
        exact hmark
      · simp only [if_neg hend]
        exact ih _ hmark

theorem freeIn_mono_shrinkSector {n : Nat} (w : TsWalk) (which off : Nat) (hn : FreeIn v n) :
    FreeIn (shrinkSector v w which off).1 n := by
  rcases shrinkSector_cases v w which off with h | ⟨d, h⟩ | ⟨d, t, s, b, h⟩
  · rw [h]
    exact hn
  · rw [h]
    exact hn
  · rw [h]
    exact freeIn_mono_dos33MarkBlocksFree _ t s hn

theorem freeIn_mono_shrinkLoop {n : Nat} {last : Int} (fuel : Nat) {w : TsWalk}
    {advance which off : Nat} {current : Int} {delete : Bool} {r : Int} (hn : FreeIn v n)
    (hloop : shrinkLoop last fuel v w advance which off current delete = .ok (r, v')) :
    FreeIn v' n := by
  induction fuel generalizing v w advance which off current delete with
  | zero => cases hloop
  | succ fuel ih =>
      have hadv := freeIn_mono_shrinkAdvanceTs delete advance w hn
      rw [shrinkLoop] at hloop
      split at hloop
      · rename_i v1 heq
        rw [heq] at hadv
        cases hloop
        exact hadv
      · rename_i v1 w1 heq
        rw [heq] at hadv
        have hsec := freeIn_mono_shrinkSector w1 which off hadv
        simp only at hloop
        split_ifs at hloop
        · cases hloop
          exact freeIn_mono_dos33MarkBlocksFree _ _ _ hsec
        · cases hloop
          exact hsec
        · refine ih ?_ hloop
          exact hsec
        · exact ih hsec hloop

/-- Once lists are deleted the block in memory is marked free on leaving it. -/
theorem shrinkLoop_leave_block (fuel which off : Nat) (last current : Int) (v : Dos33Volume)
    (w : TsWalk) :
    shrinkLoop last (fuel + 1) v w 1 which off current true =
      if ts w.nextT w.nextS = 0 then
        .ok (-enoent, dos33MarkBlocksFree v (getT w.blockLocation) (getS w.blockLocation))
      else
        shrinkLoop last (fuel + 1)
          (dos33MarkBlocksFree v (getT w.blockLocation) (getS w.blockLocation))
          ⟨ts w.nextT w.nextS, (w.currentBlock dos33TsNextT).toNat,
            (w.currentBlock dos33TsNextS).toNat, readBlock v.disk (ts w.nextT w.nextS)⟩
          0 which off current true := by
  rw [shrinkLoop, shrinkAdvanceTs, if_pos rfl, shrinkLoop]
  by_cases hend : ts w.nextT w.nextS = 0
  · rw [if_pos hend, if_pos hend]
  · rw [if_neg hend, if_neg hend, shrinkAdvanceTs, shrinkAdvanceTs, dos33MarkBlocksFree_disk]

theorem shrinkLoop_leave {fuel n which off : Nat} {last current : Int} {w : TsWalk}
    (hw : w.blockLocation = 256 * n) :
    shrinkLoop last (fuel + 1) v w 1 which off current true =
      if ts w.nextT w.nextS = 0 then .ok (-enoent, dos33MarkBlocksFree v (n / 16) (n % 16))
      else shrinkLoop last (fuel + 1) (dos33MarkBlocksFree v (n / 16) (n % 16))
        ⟨ts w.nextT w.nextS, (w.currentBlock dos33TsNextT).toNat,
          (w.currentBlock dos33TsNextS).toNat, readBlock v.disk (ts w.nextT w.nextS)⟩
        0 which off current true := by
  rw [shrinkLoop_leave_block, hw, getT_mul, getS_mul]

/-- Once lists are deleted, the block in memory ends up marked free. -/
theorem shrinkLoop_deletes {last : Int} (fuel : Nat) {w : TsWalk} {n : Nat}
    {advance which off : Nat} {current : Int} {r : Int} (hw : w.blockLocation = 256 * n)
    (hloop : shrinkLoop last fuel v w advance which off current true = .ok (r, v')) :
    FreeIn v' n := by
  have hmark (v : Dos33Volume) : FreeIn (dos33MarkBlocksFree v (n / 16) (n % 16)) n :=
    (freeIn_dos33MarkBlocksFree v n n).2 (Or.inl rfl)
  induction fuel generalizing v w advance which off current with
  | zero => cases hloop
  | succ fuel ih =>
      cases advance with
      | zero =>
          rw [shrinkLoop, shrinkAdvanceTs] at hloop
          have hloc := (shrinkSector_walk v w which off).1.trans hw
          simp only [if_true] at hloop
          split_ifs at hloop
          · cases hloop
            rw [hloc, getT_mul, getS_mul]
            exact hmark _
          · refine ih ?_ hloop
            exact hloc
          · exact ih hloc hloop
      | succ m =>
          -- the block is given back on leaving it
          rw [shrinkLoop, shrinkAdvanceTs, hw, getT_mul, getS_mul, if_pos rfl] at hloop
          by_cases hend : ts w.nextT w.nextS = 0
          · simp only [if_pos hend] at hloop
            cases hloop
            exact hmark v
          · simp only [if_neg hend] at hloop
            have hleft := freeIn_mono_shrinkAdvanceTs true m
              { blockLocation := ts w.nextT w.nextS
                nextT := (w.currentBlock dos33TsNextT).toNat
                nextS := (w.currentBlock dos33TsNextS).toNat
                currentBlock := readBlock (dos33MarkBlocksFree v (n / 16) (n % 16)).disk
                  (ts w.nextT w.nextS) } (hmark v)
            split at hloop
            · rename_i v1 heq
              rw [heq] at hleft
              cases hloop
              exact hleft
            · rename_i v1 w1 heq
              rw [heq] at hleft
              have hsec := freeIn_mono_shrinkSector w1 which off hleft
              split_ifs at hloop
              · cases hloop
                exact freeIn_mono_dos33MarkBlocksFree _ _ _ hsec
              · refine freeIn_mono_shrinkLoop _ ?_ hloop
                exact hsec
              · exact freeIn_mono_shrinkLoop _ hsec hloop

end Shrink

/-! ## Growing -/

section Grow

variable {v v' : Dos33Volume} {root c e k l : Nat}

/-- Within one list growing allocates nothing. -/
theorem growLoop_within (n : Nat) (v : Dos33Volume) (w : TsWalk) {off : Nat} (h : off + n < 122) :
    growLoop n v w off = .ok v := by
  induction n generalizing off with
  | zero => rfl
  | succ n ih =>
      have hoff : (off : Int) + 1 = ((off + 1 : Nat) : Int) := by omega
      have hlt : ¬ (off : Int) + 1 ≥ (122 : Nat) := by omega
      rw [growLoop, if_neg hlt, hoff, ih (by omega)]

/-- What appending T/S lists behind list `k` does. -/
structure GrowEffect (root c e k : Nat) (v v' : Dos33Volume) : Prop where
  step : FileStep root c e v v'
  data : ∀ s, s / 122 ≤ k → dataAt v'.disk c e s = dataAt v.disk c e s
  bytes : ∀ p, p / 256 / 122 ≤ k → fileByte v'.disk c e p = fileByte v.disk c e p

theorem setTsNext_of_le {b : Block} {t s i : Nat} (hi : 12 ≤ i) : setTsNext b t s i = b i := by
  show Function.update (Function.update b 1 _) 2 _ i = b i
  rw [Function.update_of_ne (by omega), Function.update_of_ne (by omega)]

theorem sectorPtr_setTsNext {b : Block} {t s : Nat} (ht : t < 256) (hs : s < 256)
    (hne : ¬ (t = 0 ∧ s = 0)) :
    sectorPtr (setTsNext b t s 1) (setTsNext b t s 2) = some (16 * t + s) := by
  have h1 : setTsNext b t s 1 = UInt8.ofNat t := by
    show Function.update (Function.update b 1 (UInt8.ofNat t)) 2 (UInt8.ofNat s) 1 = _
    rw [Function.update_of_ne (by decide), Function.update_self]
  have h2 : setTsNext b t s 2 = UInt8.ofNat s := by
    show Function.update (Function.update b 1 (UInt8.ofNat t)) 2 (UInt8.ofNat s) 2 = _
    rw [Function.update_self]
  rw [h1, h2, sectorPtr_ofNat ht hs, if_neg hne]

/-- A T/S list is appended behind list `k`. -/
theorem growEffect_link (h : WellFormed v root) {t s : Nat}
    (hl : Refers v.disk root (.tsList c e k) l) (hs : s < 16) (ha : Taken v v' (16 * t + s)) :
    let d := linkTsList v'.disk l (16 * t + s) (setTsNext (v'.disk l) t s)
    GrowEffect root c e k v { v' with disk := d } ∧ tsListAt d c e (k + 1) = some (16 * t + s) := by
  intro d
  have hm := ha.sameMeta h
  have hstep := ha.fileStep h hl.1
  have hl' : Refers v'.disk root (.tsList c e k) l := (hm.refers_iff _ _).2 hl
  have hspare := ha.spare h
  have ht : t < 256 := by
    have h1 := ha.lt
    have h2 := h.vtoc.tracks_le
    omega
  have hne : ¬ (t = 0 ∧ s = 0) := by
    have := (h.reserved _ ha.free).1
    omega
  have hb : sectorPtr (setTsNext (v'.disk l) t s 1) (setTsNext (v'.disk l) t s 2) =
      some (16 * t + s) := sectorPtr_setTsNext ht (by omega) hne
  have hdata (s' : Nat) (hs' : s' / 122 ≤ k) : dataAt d c e s' = dataAt v.disk c e s' := by
    rw [dataAt_linkTsList hstep.wf.account hl' hspare.loose.1 hb (fun i hi => setTsNext_of_le hi),
      if_pos hs', hm.dataAt_eq hl.1]
  refine ⟨⟨?_, hdata, ?_⟩, ?_⟩
  · exact hstep.trans h hl.1
      (fileStep_linkTsList hstep.wf hl' hspare hb fun i hi => setTsNext_of_le hi)
  · intro p hp
    apply fileByte_congr (hdata _ hp)
    intro m hm'
    have hm1 : Refers v.disk root (.data c e (p / 256)) m := ⟨hl.1, hm'⟩
    have hm2 : Refers v'.disk root (.data c e (p / 256)) m := (hm.refers_iff _ _).2 hm1
    have hml : m ≠ l := by
      rintro rfl
      cases h.account.exclusive _ _ m hm1 hl
    have hmn : m ≠ 16 * t + s := by
      rintro rfl
      exact hspare.loose.1 _ hm2
    have hm272 : m ≠ 272 := by
      rintro rfl
      exact h.not_refers_vtoc _ hm1
    show linkTsList v'.disk l (16 * t + s) _ m = v.disk m
    rw [linkTsList_of_ne hml hmn, ha.disk, Function.update_of_ne hm272]
  · rw [tsListAt_linkTsList hstep.wf.account hl' hspare.loose.1 hb, if_neg (by omega), if_pos rfl]

/-- Growing over any number of lists, starting in list `k`. -/
theorem growLoop_spec (n : Nat) (h : WellFormed v root) {w : TsWalk} {off : Int}
    (hl : Refers v.disk root (.tsList c e k) l) (hw : AtList v.disk w l)
    (hgrow : growLoop n v w off = .ok v') : GrowEffect root c e k v v' := by
  induction n generalizing v w off k l with
  | zero =>
      obtain rfl := Except.ok.inj hgrow
      exact ⟨FileStep.refl h hl.1, fun _ _ => rfl, fun _ _ => rfl⟩
  | succ n ih =>
      rw [growLoop] at hgrow
      by_cases hoff : off + 1 ≥ dos33MaxTsEntries
      · rw [if_pos hoff] at hgrow
        cases ha : dos33AllocateSector v with
        | error err =>
            rw [ha] at hgrow
            cases hgrow
        | ok r =>
            obtain ⟨t, s, v1⟩ := r
            obtain ⟨hs, htaken⟩ := dos33AllocateSector_taken h.vtoc ha
            obtain ⟨heff, hnext⟩ := growEffect_link h hl hs htaken
            have hln : l ≠ 16 * t + s := by
              rintro rfl
              exact h.account.busy _ _ hl htaken.free
            have hm := htaken.sameMeta h
            have hdisk : writeBlock (dos33ZeroOutSector v1 t s).disk w.blockLocation
                (setTsNext w.currentBlock t s) =
                linkTsList v1.disk l (16 * t + s) (setTsNext (v1.disk l) t s) := by
              rw [hw.location, writeBlock_mul, hw.block, ← hm.tsList c e k l hl.1 hl.2,
                dos33ZeroOutSector, ts_eq, writeBlock_mul]
              rfl
            rw [ha] at hgrow
            simp only [hdisk] at hgrow
            have key := ih heff.step.wf (k := k + 1) (l := 16 * t + s) ⟨heff.step.file, hnext⟩
              ⟨ts_eq t s, by rw [ts_eq, readBlock_mul]⟩ hgrow
            refine ⟨heff.step.trans h hl.1 key.step, fun s' hs' => ?_, fun p hp => ?_⟩
            · rw [key.data s' (by omega), heff.data s' hs']
            · rw [key.bytes p (by omega), heff.bytes p hp]
      · rw [if_neg hoff] at hgrow
        exact ih h hl hw hgrow

end Grow

end Vmwos
