import Vmwos.Fs.Dos33fs.SectorOwnership

/-!
# Which T/S lists the walk visits

Reading, writing and shrinking go through the sectors of a file one round at a time;
in each round they have a T/S list in memory and work on one of its entries. `readRounds`,
`writeRounds` and `shrinkRounds` are the loops with the list and the entry of each round
noted down. A transfer follows the lists of the file when sector `s` is looked up in
entry `s % 122` of list `s / 122` (`FollowsLists`).

The pointer to the list after next is taken from the block in memory before the next
list replaces it, and the block in memory at the start is the catalog sector. So the
walk alternates between the lists of the file and the sectors of the catalog
(`advanceTs_location`), and a transfer follows the lists exactly when it stays in the
first of them: `dos33fsReadFile_follows_iff`, `dos33fsWriteFile_follows_iff`,
`dos33fsShrinkFile_follows_iff`.
-/

set_option autoImplicit false

namespace Vmwos

open Library

/-! ## The rounds of the loops -/

/-- The rounds of `readLoop`: the location of the list in memory and the entry. -/
def readRounds (d : Disk) (lastSector lastSectorOffset : Int) :
    Nat → TsWalk → (advance which sectorOffset : Nat) → (currentSector : Int) →
      (desired : Nat) → List (Nat × Nat)
  | 0, _, _, _, _, _, _ => []
  | fuel + 1, w, advance, which, sectorOffset, currentSector, desired =>
      match advanceTs d advance w with
      | none => []
      | some w =>
          let r := readSector d lastSector lastSectorOffset w which sectorOffset currentSector desired
          (w.blockLocation, which) ::
            if r.2 = 0 then []
            else readRounds d lastSector lastSectorOffset fuel w (nextEntry which).1
              (nextEntry which).2 0 (currentSector + 1) r.2

/-- The rounds of `dos33fsReadFile`. -/
def dos33fsReadFileRounds (d : Disk) (inode : Inode) (count fileOffset : Nat) : List (Nat × Nat) :=
  let c := loadCatalogEntry d inode.number
  let header := headerLength c.type
  let adjustedOffset := uint32 (fileOffset + header)
  let lastSector := int32 ((uint64 (inode.size + header) / dos33BlockSize : Nat) : Int)
  let lastSectorOffset := int32 ((inode.size + header : Nat) - lastSector * dos33BlockSize)
  if fileOffset > inode.size then []
  else
    let sector := adjustedOffset / dos33BlockSize
    readRounds d lastSector lastSectorOffset (count + 1) (c.walk 0)
      (sector / dos33MaxTsEntries + 1) (sector % dos33MaxTsEntries)
      (adjustedOffset % dos33BlockSize) sector count

/-- The rounds of `writeLoop`. -/
def writeRounds : Nat → Dos33Volume → TsWalk → (advance which sectorOffset : Nat) →
    List UInt8 → List (Nat × Nat)
  | 0, _, _, _, _, _, _ => []
  | fuel + 1, v, w, advance, which, sectorOffset, buf =>
      match advanceTs v.disk advance w with
      | none => []
      | some w =>
          (w.blockLocation, which) ::
            match writeSector v w which sectorOffset buf with
            | .error _ => []
            | .ok (v, w, rest) =>
                if rest.length = 0 then []
                else writeRounds fuel v w (nextEntry which).1 (nextEntry which).2 0 rest

/-- The rounds of `dos33fsWriteFile`, for a write that does not make the file grow. -/
def dos33fsWriteFileRounds (v : Dos33Volume) (inode : Inode) (buf : List UInt8) (fileOffset : Nat) :
    List (Nat × Nat) :=
  let c := loadCatalogEntry v.disk inode.number
  let adjustedOffset := uint32 (fileOffset + headerLength c.type)
  let sector := adjustedOffset / dos33BlockSize
  writeRounds (buf.length + 1) v (c.walk 0) (sector / dos33MaxTsEntries + 1)
    (sector % dos33MaxTsEntries) (adjustedOffset % dos33BlockSize) buf

/-- The rounds of `shrinkLoop`. -/
def shrinkRounds (lastSector : Int) : Nat → Dos33Volume → TsWalk →
    (advance which sectorOffset : Nat) → (currentSector : Int) → (delete : Bool) →
      List (Nat × Nat)
  | 0, _, _, _, _, _, _, _ => []
  | fuel + 1, v, w, advance, which, sectorOffset, currentSector, delete =>
      match shrinkAdvanceTs v delete advance w with
      | (_, none) => []
      | (v, some w) =>
          let (v', w') := shrinkSector v w which sectorOffset
          (w.blockLocation, which) ::
            if currentSector = lastSector then []
            else if which + 1 ≥ dos33MaxTsEntries then
              let b := setTsNext w'.currentBlock 0 0
              let v' := { v' with disk := writeBlock v'.disk w'.blockLocation b }
              shrinkRounds lastSector fuel v' { w' with currentBlock := b } (nextEntry which).1
                (nextEntry which).2 0 (currentSector + 1) true
            else shrinkRounds lastSector fuel v' w' (nextEntry which).1 (nextEntry which).2 0
              (currentSector + 1) delete

/-- The rounds of `dos33fsShrinkFile`. -/
def dos33fsShrinkFileRounds (v : Dos33Volume) (inode : Inode) (size : Nat) : List (Nat × Nat) :=
  let c := loadCatalogEntry v.disk inode.number
  let header := headerLength c.type
  let adjustedOffset := uint32 (size + header)
  let lastSector := int32 ((uint64 (inode.size + header) / dos33BlockSize : Nat) : Int)
  if size > inode.size then []
  else
    let sector := adjustedOffset / dos33BlockSize
    shrinkRounds lastSector shrinkLimit v (c.walk 0)
      (sector / dos33MaxTsEntries + 1) (sector % dos33MaxTsEntries)
      (adjustedOffset % dos33BlockSize) sector false

/-! ## Following the lists of a file -/

/-- The round is on the entry of sector `s` of the file. -/
def IsEntryOf (d : Disk) (c e s : Nat) (round : Nat × Nat) : Prop :=
  ∃ l, tsListAt d c e (s / 122) = some l ∧ round = (256 * l, s % 122)

/-- There is one round for each sector from `first` to `last`, on its entry. -/
structure FollowsLists (d : Disk) (c e first last : Nat) (rounds : List (Nat × Nat)) : Prop where
  length : rounds.length = last + 1 - first
  entry : ∀ i round, rounds[i]? = some round → IsEntryOf d c e (first + i) round

/-! ## Where the walk goes -/

section Walk

variable {d : Disk} {root c e : Nat}

theorem advanceTs_crossAt {n x : Nat} {t s : UInt8} {w w' : TsWalk} (hblock : w.currentBlock = d x)
    (ht : w.nextT = t.toNat) (hs : w.nextS = s.toNat) (h : advanceTs d (n + 1) w = some w') :
    ∃ m, crossAt (nextSector d) x (sectorPtr t s) n = some m ∧ w'.blockLocation = 256 * m := by
  induction n generalizing x t s w with
  | zero =>
      simp only [advanceTs, ht, hs] at h
      split_ifs at h with hend
      cases hptr : sectorPtr t s with
      | none => exact absurd (ts_eq_zero_iff.2 hptr) hend
      | some m =>
          cases h
          exact ⟨m, rfl, ts_of_sectorPtr hptr⟩
  | succ n ih =>
      rw [advanceTs] at h
      simp only [ht, hs] at h
      split_ifs at h with hend
      cases hptr : sectorPtr t s with
      | none => exact absurd (ts_eq_zero_iff.2 hptr) hend
      | some y =>
          rw [ts_of_sectorPtr hptr, readBlock_mul, hblock] at h
          obtain ⟨m, hm, hloc⟩ := ih (x := y) rfl rfl rfl h
          exact ⟨m, hm, hloc⟩

/-- After the catalog sector the walk visits the lists of the file and the rest of the
catalog in turn. -/
theorem advanceTs_location {number n location : Nat} {w : TsWalk} (hn : Names number c e)
    (h : advanceTs d (n + 1) ((loadCatalogEntry d number).walk location) = some w) :
    ∃ m, w.blockLocation = 256 * m ∧
      chainAt (nextSector d) (if n % 2 = 0 then headPtr (d c) e else nextSector d c) (n / 2) =
        some m := by
  obtain ⟨hnt, hns⟩ := loadCatalogEntry_next (d := d) hn
  obtain ⟨m, hm, hloc⟩ := advanceTs_crossAt (loadCatalogEntry_currentBlock hn) hnt hns h
  exact ⟨m, hloc, crossAt_eq_some hm⟩

/-- Behind the first list no list is reached when it should be. -/
theorem not_isEntryOf_of_skip {free : Nat → Prop} (hacc : Account (Refers d root) free)
    (hf : IsFile d root c e) {number s location : Nat} {w : TsWalk} (hn : Names number c e)
    (hs : 122 ≤ s)
    (h : advanceTs d (s / 122 + 1) ((loadCatalogEntry d number).walk location) = some w) (i : Nat) :
    ¬ IsEntryOf d c e s (w.blockLocation, i) := by
  rintro ⟨l, hl, hround⟩
  obtain ⟨m, hloc, hm⟩ := advanceTs_location hn h
  have heq : m = l := by
    have := (Prod.mk.inj hround).1
    omega
  subst heq
  have hlist : Refers d root (.tsList c e (s / 122)) m := ⟨hf, hl⟩
  by_cases heven : s / 122 % 2 = 0
  · rw [if_pos heven] at hm
    have hearly : Refers d root (.tsList c e (s / 122 / 2)) m := ⟨hf, hm⟩
    have := SectorUse.tsList.inj (hacc.exclusive _ _ m hlist hearly)
    omega
  · obtain ⟨k, hk⟩ := hf.catalog
    rw [if_neg heven] at hm
    have hcat : Refers d root (.catalog (k + (s / 122 / 2 + 1))) m := by
      rw [Refers, catalogAt, chainAt_add, ← catalogAt, hk, chainAt_succ', Option.bind_some, hm]
    cases hacc.exclusive _ _ m hlist hcat

/-- Leaving the first list, the walk comes to the next sector of the catalog. -/
theorem not_isEntryOf_of_cross {free : Nat → Prop} (hacc : Account (Refers d root) free)
    (hf : IsFile d root c e) {s i : Nat} (hs : s / 122 = 1) :
    ¬ IsEntryOf d c e s (ts (d c 1).toNat (d c 2).toNat, i) := by
  rintro ⟨l, hl, hround⟩
  obtain ⟨k, hk⟩ := hf.catalog
  have hlist : Refers d root (.tsList c e (s / 122)) l := ⟨hf, hl⟩
  have hloc := (Prod.mk.inj hround).1
  cases hnext : nextSector d c with
  | none =>
      -- 0/0 is no list of a file
      obtain ⟨l', hl'⟩ := chainAt_isSome_of_le hl (Nat.zero_le _)
      rw [ts_eq_zero_iff.2 hnext] at hloc
      have hzero : l = 0 := by omega
      subst hzero
      rw [hs, tsListAt, chainAt_succ, chainAt_zero] at hl
      rw [chainAt_zero] at hl'
      rw [hl', Option.bind_some] at hl
      obtain ⟨hne, hsum⟩ := sectorPtr_eq_some.1 hl
      exact hne ⟨toNat_eq_zero.1 (by omega), toNat_eq_zero.1 (by omega)⟩
  | some m =>
      rw [ts_of_sectorPtr hnext] at hloc
      have heq : m = l := by omega
      subst heq
      have hcat : Refers d root (.catalog (k + 1)) m := by
        rw [Refers, catalogAt, chainAt_succ, ← catalogAt, hk, Option.bind_some, hnext]
      cases hacc.exclusive _ _ m hlist hcat

end Walk

/-! ## The rounds within the first list, and the one after -/

section Rounds

variable {c e : Nat}

/-- The rounds from entry `i` of the list in memory on: to the end of the list they are on
its entries, and the next one is wherever the pointer in hand leads. -/
structure RoundsFrom (w : TsWalk) (i : Nat) (rounds : List (Nat × Nat)) : Prop where
  within : ∀ j round, rounds[j]? = some round → i + j < 122 → round = (w.blockLocation, i + j)
  after : ∀ j round, rounds[j]? = some round → i + j = 122 → round.1 = ts w.nextT w.nextS

theorem RoundsFrom.nil (w : TsWalk) (i : Nat) : RoundsFrom w i [] where
  within j round h := by cases h
  after j round h := by cases h

/-- A round, then rounds from the next entry or from the next list. -/
theorem RoundsFrom.cons {w w' : TsWalk} {i : Nat} {rest : List (Nat × Nat)} (hi : i < 122)
    (hloc : w'.blockLocation = w.blockLocation) (hnt : w'.nextT = w.nextT)
    (hns : w'.nextS = w.nextS) (hsame : i + 1 < 122 → RoundsFrom w' (i + 1) rest)
    (hnext : ∀ round, rest[0]? = some round → i + 1 = 122 → round.1 = ts w.nextT w.nextS) :
    RoundsFrom w i ((w.blockLocation, i) :: rest) where
  within j round hj hij := by
    cases j with
    | zero => exact (Option.some.inj hj).symm
    | succ j =>
        have h := (hsame (by omega)).within j round hj (by omega)
        rw [h, hloc, show i + 1 + j = i + (j + 1) by omega]
  after j round hj hij := by
    cases j with
    | zero => omega
    | succ j =>
        by_cases hend : i + 1 < 122
        · have h := (hsame hend).after j round hj (by omega)
          rw [h, hnt, hns]
        · obtain rfl : j = 0 := by omega
          exact hnext round hj (by omega)

/-- One advance leads where the pointer says. -/
theorem advanceTs_one {d : Disk} {w w' : TsWalk} (h : advanceTs d 1 w = some w') :
    w'.blockLocation = ts w.nextT w.nextS := by
  simp only [advanceTs] at h
  split_ifs at h
  cases h
  rfl

theorem shrinkAdvanceTs_one {v v' : Dos33Volume} {delete : Bool} {w w' : TsWalk}
    (h : shrinkAdvanceTs v delete 1 w = (v', some w')) :
    w'.blockLocation = ts w.nextT w.nextS := by
  rw [shrinkAdvanceTs] at h
  by_cases hend : ts w.nextT w.nextS = 0
  · simp only [if_pos hend, Prod.mk.injEq, reduceCtorEq, and_false] at h
  · simp only [if_neg hend, shrinkAdvanceTs, Prod.mk.injEq, Option.some.injEq] at h
    rw [← h.2]

theorem nextEntry_121 : nextEntry 121 = (1, 0) := rfl

theorem readRounds_from {d : Disk} {last lo : Int} (fuel : Nat) {w : TsWalk} {i off desired : Nat}
    {current : Int} (hi : i < 122) :
    RoundsFrom w i (readRounds d last lo fuel w 0 i off current desired) := by
  induction fuel generalizing i off desired current with
  | zero => exact RoundsFrom.nil w i
  | succ fuel ih =>
      rw [readRounds, advanceTs_zero]
      refine RoundsFrom.cons hi rfl rfl rfl (fun hlt => ?_) (fun round hround hend => ?_)
      · rw [nextEntry_of_lt hlt]
        split_ifs
        · exact RoundsFrom.nil w (i + 1)
        · exact ih hlt
      · obtain rfl : i = 121 := by omega
        simp only [nextEntry_121] at hround
        split_ifs at hround
        · cases hround
        · cases fuel with
          | zero => cases hround
          | succ fuel =>
              rw [readRounds] at hround
              cases hadv : advanceTs d 1 w with
              | none =>
                  rw [hadv] at hround
                  cases hround
              | some w' =>
                  rw [hadv] at hround
                  cases hround
                  exact advanceTs_one hadv

/-- The work on one sector keeps the walk, but for the block in memory. -/
theorem writeSector_walk {v v' : Dos33Volume} {w w' : TsWalk} {which off : Nat}
    {buf rest : List UInt8} (h : writeSector v w which off buf = .ok (v', w', rest)) :
    w'.blockLocation = w.blockLocation ∧ w'.nextT = w.nextT ∧ w'.nextS = w.nextS ∧
      rest = buf.drop (min (256 - off) buf.length) := by
  rcases hfill : fillHole v w which with err | ⟨location, data, v₁, w₁⟩
  · rw [writeSector, hfill] at h
    cases h
  · rw [writeSector, hfill] at h
    cases h
    rw [fillHole] at hfill
    simp only at hfill
    split_ifs at hfill
    · split at hfill
      · cases hfill
      · cases hfill
        exact ⟨rfl, rfl, rfl, rfl⟩
    · cases hfill
      exact ⟨rfl, rfl, rfl, rfl⟩

theorem writeRounds_from (fuel : Nat) {v : Dos33Volume} {w : TsWalk} {i off : Nat}
    {buf : List UInt8} (hi : i < 122) : RoundsFrom w i (writeRounds fuel v w 0 i off buf) := by
  induction fuel generalizing v w i off buf with
  | zero => exact RoundsFrom.nil w i
  | succ fuel ih =>
      rw [writeRounds, advanceTs_zero]
      rcases hwrite : writeSector v w i off buf with err | ⟨v', w', rest⟩
      · simp only [hwrite]
        exact RoundsFrom.cons hi rfl rfl rfl (fun _ => RoundsFrom.nil w (i + 1))
          (fun round h => by cases h)
      · obtain ⟨hloc, hnt, hns, -⟩ := writeSector_walk hwrite
        simp only [hwrite]
        refine RoundsFrom.cons hi hloc hnt hns (fun hlt => ?_) (fun round hround hend => ?_)
        · rw [nextEntry_of_lt hlt]
          split_ifs
          · exact RoundsFrom.nil w' (i + 1)
          · exact ih hlt
        · obtain rfl : i = 121 := by omega
          simp only [nextEntry_121] at hround
          split_ifs at hround
          · cases hround
          · cases fuel with
            | zero => cases hround
            | succ fuel =>
                rw [writeRounds] at hround
                cases hadv : advanceTs v'.disk 1 w' with
                | none =>
                    rw [hadv] at hround
                    cases hround
                | some w'' =>
                    rw [hadv] at hround
                    cases hround
                    exact (advanceTs_one hadv).trans (by rw [hnt, hns])

theorem shrinkRounds_from {last : Int} (fuel : Nat) {v : Dos33Volume} {w : TsWalk} {i off : Nat}
    {current : Int} (hi : i < 122) :
    RoundsFrom w i (shrinkRounds last fuel v w 0 i off current false) := by
  induction fuel generalizing v w i off current with
  | zero => exact RoundsFrom.nil w i
  | succ fuel ih =>
      obtain ⟨hloc, hnt, hns⟩ := shrinkSector_walk v w i off
      rw [shrinkRounds, shrinkAdvanceTs]
      simp only
      refine RoundsFrom.cons hi hloc hnt hns (fun hlt => ?_) (fun round hround hend => ?_)
      · rw [nextEntry_of_lt hlt]
        split_ifs with hdone hge
        · exact RoundsFrom.nil _ (i + 1)
        · exact absurd hge (Nat.not_le_of_lt hlt)
        · exact ih hlt
      · obtain rfl : i = 121 := by omega
        split_ifs at hround with hdone hge
        · cases hround
        · cases fuel with
          | zero => cases hround
          | succ fuel =>
              rw [nextEntry_121, shrinkRounds] at hround
              split at hround
              · cases hround
              · rename_i v' w' hadv
                cases hround
                exact (shrinkAdvanceTs_one hadv).trans (by rw [hnt, hns])
        · exact absurd (by decide : 121 + 1 ≥ 122) hge

/-! The first round is wherever the advances lead. -/

theorem readRounds_head {d : Disk} {last lo current : Int} {fuel n which off desired : Nat}
    {w : TsWalk} {round : Nat × Nat}
    (h : (readRounds d last lo (fuel + 1) w n which off current desired)[0]? = some round) :
    ∃ w', advanceTs d n w = some w' ∧ round.1 = w'.blockLocation := by
  rw [readRounds] at h
  cases hadv : advanceTs d n w with
  | none =>
      rw [hadv] at h
      cases h
  | some w' =>
      rw [hadv] at h
      cases h
      exact ⟨w', rfl, rfl⟩

theorem readRounds_advance {d : Disk} {last lo current : Int} {fuel n which off desired : Nat}
    {w w' : TsWalk} (h : advanceTs d n w = some w') :
    readRounds d last lo (fuel + 1) w n which off current desired =
      readRounds d last lo (fuel + 1) w' 0 which off current desired := by
  simp only [readRounds, h, advanceTs_zero]

theorem writeRounds_head {v : Dos33Volume} {fuel n which off : Nat} {buf : List UInt8} {w : TsWalk}
    {round : Nat × Nat} (h : (writeRounds (fuel + 1) v w n which off buf)[0]? = some round) :
    ∃ w', advanceTs v.disk n w = some w' ∧ round.1 = w'.blockLocation := by
  rw [writeRounds] at h
  cases hadv : advanceTs v.disk n w with
  | none =>
      rw [hadv] at h
      cases h
  | some w' =>
      rw [hadv] at h
      cases h
      exact ⟨w', rfl, rfl⟩

theorem writeRounds_advance {v : Dos33Volume} {fuel n which off : Nat} {buf : List UInt8}
    {w w' : TsWalk} (h : advanceTs v.disk n w = some w') :
    writeRounds (fuel + 1) v w n which off buf = writeRounds (fuel + 1) v w' 0 which off buf := by
  simp only [writeRounds, h, advanceTs_zero]

theorem shrinkRounds_head {v : Dos33Volume} {last current : Int} {fuel n which off : Nat}
    {w : TsWalk} {round : Nat × Nat}
    (h : (shrinkRounds last (fuel + 1) v w n which off current false)[0]? = some round) :
    ∃ w', advanceTs v.disk n w = some w' ∧ round.1 = w'.blockLocation := by
  rw [shrinkRounds, shrinkAdvanceTs_false] at h
  cases hadv : advanceTs v.disk n w with
  | none =>
      rw [hadv] at h
      cases h
  | some w' =>
      rw [hadv] at h
      cases h
      exact ⟨w', rfl, rfl⟩

theorem shrinkRounds_advance_succ (fuel : Nat) {v : Dos33Volume} {last current : Int}
    {n which off : Nat} {w w' : TsWalk} (h : advanceTs v.disk n w = some w') :
    shrinkRounds last (fuel + 1) v w n which off current false =
      shrinkRounds last (fuel + 1) v w' 0 which off current false := by
  simp only [shrinkRounds, shrinkAdvanceTs_false, h, advanceTs_zero]

theorem shrinkRounds_advance {v : Dos33Volume} {last current : Int} {n which off : Nat}
    {w w' : TsWalk} (h : advanceTs v.disk n w = some w') :
    shrinkRounds last shrinkLimit v w n which off current false =
      shrinkRounds last shrinkLimit v w' 0 which off current false :=
  shrinkRounds_advance_succ 245 h

/-! How many rounds there are, when they stay in the first list. -/

theorem readRounds_length {d : Disk} {l : Nat} (fuel : Nat) {w : TsWalk} {i off last lo desired : Nat}
    (hw : AtList d w l) (hl : tsListAt d c e 0 = some l) (hoff : off < 256) (hlo : lo < 256)
    (hpos : 0 < desired) (hend : 256 * i + off + desired ≤ 256 * last + lo)
    (hin : 256 * i + off + desired ≤ 31232) (hfuel : desired < fuel) :
    (readRounds d last lo fuel w 0 i off (i : Int) desired).length =
      (256 * i + off + desired - 1) / 256 + 1 - i := by
  induction fuel generalizing i off desired with
  | zero => omega
  | succ fuel ih =>
      have hrest : (readSector d last lo w i off ((122 * 0 + i : Nat) : Int) desired).2 =
          if 122 * 0 + i < last then desired -
            min desired (min (256 - off) (256 * last + lo - (256 * (122 * 0 + i) + off))) else 0 :=
        (readSector_spec desired hw hl (by omega) hlo (by omega) hoff).2
      rw [show 122 * 0 + i = i by omega] at hrest
      have hn : min desired (min (256 - off) (256 * last + lo - (256 * i + off))) =
          min desired (256 - off) := by omega
      rw [hn] at hrest
      rw [readRounds, advanceTs_zero]
      simp only [hrest, List.length_cons]
      by_cases hdone : desired ≤ 256 - off
      · have hzero : (if i < last then desired - min desired (256 - off) else 0) = 0 := by
          split_ifs <;> omega
        rw [if_pos hzero, List.length_nil]
        omega
      · have hmore : (if i < last then desired - min desired (256 - off) else 0) =
            desired - (256 - off) := by
          rw [if_pos (by omega)]
          omega
        rw [hmore, if_neg (by omega), nextEntry_of_lt (by omega), ← Int.natCast_succ,
          ih (by decide) (by omega) (by omega) (by omega) (by omega)]
        omega

theorem writeRounds_length (fuel : Nat) {v : Dos33Volume} {w : TsWalk} {i off : Nat}
    {buf : List UInt8} {q : Int × Dos33Volume} (hok : writeLoop fuel v w 0 i off buf = .ok q)
    (hoff : off < 256) (hpos : 0 < buf.length) (hin : 256 * i + off + buf.length ≤ 31232)
    (hfuel : buf.length < fuel) :
    (writeRounds fuel v w 0 i off buf).length = (256 * i + off + buf.length - 1) / 256 + 1 - i := by
  induction fuel generalizing v w i off buf with
  | zero => omega
  | succ fuel ih =>
      rw [writeLoop, advanceTs_zero] at hok
      rw [writeRounds, advanceTs_zero]
      rcases hwrite : writeSector v w i off buf with err | ⟨v', w', rest⟩
      · simp only [hwrite, reduceCtorEq] at hok
      · obtain ⟨-, -, -, hrest⟩ := writeSector_walk hwrite
        have hlen : rest.length = buf.length - min (256 - off) buf.length := by
          rw [hrest, List.length_drop]
        simp only [hwrite] at hok
        simp only [hwrite, List.length_cons]
        by_cases hdone : rest.length = 0
        · rw [if_pos hdone, List.length_nil]
          omega
        · rw [if_neg hdone, nextEntry_of_lt (by omega)] at hok
          rw [if_neg hdone, nextEntry_of_lt (by omega),
            ih hok (by decide) (by omega) (by omega) (by omega)]
          omega

theorem shrinkRounds_length {last : Nat} (fuel : Nat) {v : Dos33Volume} {w : TsWalk} {i off : Nat}
    (hi : i ≤ last) (hlast : last < 122) (hfuel : last - i < fuel) :
    (shrinkRounds last fuel v w 0 i off (i : Int) false).length = last + 1 - i := by
  induction fuel generalizing v w i off with
  | zero => omega
  | succ fuel ih =>
      rw [shrinkRounds, shrinkAdvanceTs]
      simp only [List.length_cons]
      by_cases hdone : i = last
      · rw [if_pos (by rw [hdone]), List.length_nil]
        omega
      · rw [if_neg (fun h => hdone (Int.ofNat_inj.1 h)), if_neg (by omega : ¬ i + 1 ≥ 122),
          nextEntry_of_lt (by omega), ← Int.natCast_succ, ih (by omega) (by omega)]
        omega

end Rounds

/-! ## Exactly the transfers that stay in the first list -/

section Follows

variable {v : Dos33Volume} {root c e l : Nat} {inode : Inode}

/-- Rounds that skip to their first sector and go on from there. -/
structure SkipThenGo (d : Disk) (c e number l first last : Nat) (rounds : List (Nat × Nat)) :
    Prop where
  skip : ∀ round, rounds[0]? = some round →
    ∃ w, advanceTs d (first / 122 + 1) ((loadCatalogEntry d number).walk 0) = some w ∧
      round.1 = w.blockLocation
  go : first < 122 → RoundsFrom ⟨256 * l, (d c 1).toNat, (d c 2).toNat, d l⟩ first rounds
  length : last < 122 → rounds.length = last + 1 - first

theorem SkipThenGo.follows_iff (h : WellFormed v root) (hf : IsFile v.disk root c e)
    (hn : Names inode.number c e) (hl : tsListAt v.disk c e 0 = some l) {first last : Nat}
    {rounds : List (Nat × Nat)} (hle : first ≤ last)
    (hr : SkipThenGo v.disk c e inode.number l first last rounds) :
    FollowsLists v.disk c e first last rounds ↔ last < 122 := by
  constructor
  · intro hfollows
    by_contra hge
    have hlen := hfollows.length
    rcases Nat.lt_or_ge first 122 with hfirst | hfirst
    · -- the round after the last of the first list
      obtain ⟨round, hround⟩ : ∃ round, rounds[122 - first]? = some round :=
        ⟨rounds[122 - first], List.getElem?_eq_getElem (by omega)⟩
      have hat := (hr.go hfirst).after _ round hround (by omega)
      have hentry := hfollows.entry _ round hround
      rw [show first + (122 - first) = 122 by omega, show round = (round.1, round.2) from rfl,
        hat] at hentry
      exact not_isEntryOf_of_cross h.account hf (by decide) hentry
    · -- the first round already
      obtain ⟨round, hround⟩ : ∃ round, rounds[0]? = some round :=
        ⟨rounds[0], List.getElem?_eq_getElem (by omega)⟩
      obtain ⟨w, hadv, hat⟩ := hr.skip round hround
      have hentry := hfollows.entry _ round hround
      rw [Nat.add_zero, show round = (round.1, round.2) from rfl, hat] at hentry
      exact not_isEntryOf_of_skip h.account hf hn hfirst hadv _ hentry
  · intro hlast
    refine ⟨hr.length hlast, ?_⟩
    intro i round hround
    have hlt : i < last + 1 - first := by
      rw [← hr.length hlast]
      exact (List.getElem?_eq_some_iff.1 hround).1
    have hwithin := (hr.go (by omega)).within i round hround (by omega)
    refine ⟨l, ?_, ?_⟩
    · rw [show (first + i) / 122 = 0 by omega, hl]
    · rw [hwithin, show (first + i) % 122 = first + i by omega]

/-- The lists of a file are fewer than the sectors of the disk. -/
theorem WellFormed.tsList_lt (h : WellFormed v root) (hf : IsFile v.disk root c e) {k : Nat}
    (hk : tsListAt v.disk c e k ≠ none) : k < 800 := by
  have hle := h.vtoc.tracks_le
  by_contra hge
  apply hk
  refine chainAt_eq_none_of_le (j := 800) ?_ (Nat.le_of_not_lt hge)
  apply chainAt_eq_none_of_bounded id
  · intro j x hx
    have := (h.range (.tsList c e j) x ⟨hf, hx⟩).2.1
    exact Nat.lt_of_lt_of_le this (by omega)
  · rintro i j x y hx hy rfl
    have hi : Refers v.disk root (.tsList c e i) x := ⟨hf, hx⟩
    have hj : Refers v.disk root (.tsList c e j) x := ⟨hf, hy⟩
    exact (SectorUse.tsList.inj (h.account.exclusive _ _ x hi hj)).2.2

/-- A file whose lists reach to its end is small. -/
theorem WellFormed.size_lt (h : WellFormed v root) (hf : IsFile v.disk root c e)
    (hlists : tsListAt v.disk c e (endSector v.disk c e inode.size / 122) ≠ none) :
    inode.size + 4 < 2147483648 := by
  have hlt := h.tsList_lt hf hlists
  rw [endSector] at hlt
  omega

/-- The walk with the first list in memory. -/
theorem advanceTs_firstList (h : WellFormed v root) (hf : IsFile v.disk root c e)
    (hn : Names inode.number c e) (hl : tsListAt v.disk c e 0 = some l) :
    advanceTs v.disk 1 ((loadCatalogEntry v.disk inode.number).walk 0) =
      some ⟨256 * l, (v.disk c 1).toNat, (v.disk c 2).toNat, v.disk l⟩ := by
  have hpos : l ≠ 0 := by
    have := (h.range (.tsList c e 0) l ⟨hf, hl⟩).1
    omega
  exact advanceTs_catalog hn hl hpos 0

/-- The sector of byte `p` of a file, its header included. -/
def sectorOf (d : Disk) (c e p : Nat) : Nat := (p + headerLength (fileType d c e)) / 256

/-- Reading follows the lists exactly when it ends in the first. -/
theorem dos33fsReadFile_follows_iff (h : WellFormed v root) (hf : IsFile v.disk root c e)
    (hn : Names inode.number c e)
    (hlists : tsListAt v.disk c e (endSector v.disk c e inode.size / 122) ≠ none) {count off : Nat}
    (hpos : 0 < count) (hin : off + count ≤ inode.size) :
    FollowsLists v.disk c e (sectorOf v.disk c e off) (sectorOf v.disk c e (off + count - 1))
        (dos33fsReadFileRounds v.disk inode count off) ↔
      sectorOf v.disk c e (off + count - 1) < 122 := by
  obtain ⟨l, hl⟩ := h.exists_tsList hf
  have hwalk := advanceTs_firstList h hf hn hl
  have hsize := h.size_lt hf hlists
  have hhdr := headerLength_le (fileType v.disk c e)
  have hlast : int32 ((uint64 (inode.size + headerLength (fileType v.disk c e)) /
      dos33BlockSize : Nat) : Int) = (endSector v.disk c e inode.size : Int) :=
    int32_sector (by omega)
  have hlo := lastSectorOffset_eq v.disk c e inode.size
  have hx32 : uint32 (off + headerLength (fileType v.disk c e)) =
      off + headerLength (fileType v.disk c e) := uint32_of_lt (by omega)
  have hrounds : dos33fsReadFileRounds v.disk inode count off =
      readRounds v.disk (endSector v.disk c e inode.size)
        ((inode.size + headerLength (fileType v.disk c e)) % 256 : Nat) (count + 1)
        ((loadCatalogEntry v.disk inode.number).walk 0) (sectorOf v.disk c e off / 122 + 1)
        (sectorOf v.disk c e off % 122) ((off + headerLength (fileType v.disk c e)) % 256)
        (sectorOf v.disk c e off : Nat) count := by
    simp only [dos33fsReadFileRounds, loadCatalogEntry_type hn, hlast, hlo, hx32,
      if_neg (show ¬ off > inode.size by omega)]
    rfl
  refine SkipThenGo.follows_iff h hf hn hl (Nat.div_le_div_right (by omega)) ?_
  rw [hrounds]
  refine ⟨fun round hround => readRounds_head hround, fun hfirst => ?_, fun hend => ?_⟩
  · rw [show sectorOf v.disk c e off / 122 + 1 = 1 by omega, readRounds_advance hwalk,
      Nat.mod_eq_of_lt hfirst]
    exact readRounds_from _ hfirst
  · have hbytes : 256 * endSector v.disk c e inode.size +
        (inode.size + headerLength (fileType v.disk c e)) % 256 =
          inode.size + headerLength (fileType v.disk c e) := Nat.div_add_mod _ 256
    have hstart : 256 * sectorOf v.disk c e off + (off + headerLength (fileType v.disk c e)) % 256 =
        off + headerLength (fileType v.disk c e) := Nat.div_add_mod _ 256
    have hle : sectorOf v.disk c e off ≤ sectorOf v.disk c e (off + count - 1) :=
      Nat.div_le_div_right (by omega)
    have hend' : (off + count - 1 + headerLength (fileType v.disk c e)) / 256 < 122 := hend
    have hmod : sectorOf v.disk c e off % 122 = sectorOf v.disk c e off :=
      Nat.mod_eq_of_lt (Nat.lt_of_le_of_lt hle hend)
    rw [show sectorOf v.disk c e off / 122 + 1 = 1 by omega, readRounds_advance hwalk, hmod,
      readRounds_length _ ⟨rfl, rfl⟩ hl (Nat.mod_lt _ (by decide))
        (Nat.mod_lt _ (by decide)) hpos (by omega) (by omega) (Nat.lt_succ_self count), hstart]
    rw [show off + headerLength (fileType v.disk c e) + count - 1 =
      off + count - 1 + headerLength (fileType v.disk c e) by omega]
    rfl

/-- The loop behind a write that does not make the file grow. -/
theorem dos33fsWriteFile_loop (hn : Names inode.number c e) {buf : List UInt8} {off : Nat}
    (hsize : inode.size + 4 < 2147483648) (hin : off + buf.length ≤ inode.size)
    {q : Int × Dos33Volume × Inode × Nat} (hok : dos33fsWriteFile v inode buf off = .ok q) :
    ∃ q', writeLoop (buf.length + 1) v ((loadCatalogEntry v.disk inode.number).walk 0)
      (sectorOf v.disk c e off / 122 + 1) (sectorOf v.disk c e off % 122)
      ((off + headerLength (fileType v.disk c e)) % 256) buf = .ok q' := by
  have hhdr := headerLength_le (fileType v.disk c e)
  have hx32 : uint32 (off + headerLength (fileType v.disk c e)) =
      off + headerLength (fileType v.disk c e) := uint32_of_lt (by omega)
  have h64 : ¬ uint64 (off + buf.length) > inode.size := by
    rw [uint64_of_lt (by omega)]
    omega
  simp only [dos33fsWriteFile, if_neg h64, if_neg (by decide : ¬ (0 : Int) < 0),
    loadCatalogEntry_type hn, hx32] at hok
  split at hok
  · cases hok
  · rename_i r v' hloop
    exact ⟨(r, v'), hloop⟩

/-- Writing follows the lists exactly when it ends in the first. -/
theorem dos33fsWriteFile_follows_iff (h : WellFormed v root) (hf : IsFile v.disk root c e)
    (hn : Names inode.number c e) (hsize : inode.size + 4 < 2147483648) {buf : List UInt8} {off : Nat}
    (hpos : 0 < buf.length) (hin : off + buf.length ≤ inode.size)
    {q : Int × Dos33Volume × Inode × Nat} (hok : dos33fsWriteFile v inode buf off = .ok q) :
    FollowsLists v.disk c e (sectorOf v.disk c e off) (sectorOf v.disk c e (off + buf.length - 1))
        (dos33fsWriteFileRounds v inode buf off) ↔
      sectorOf v.disk c e (off + buf.length - 1) < 122 := by
  obtain ⟨l, hl⟩ := h.exists_tsList hf
  obtain ⟨q', hloop⟩ := dos33fsWriteFile_loop hn hsize hin hok
  have hwalk := advanceTs_firstList h hf hn hl
  have hhdr := headerLength_le (fileType v.disk c e)
  have hx32 : uint32 (off + headerLength (fileType v.disk c e)) =
      off + headerLength (fileType v.disk c e) := uint32_of_lt (by omega)
  have hrounds : dos33fsWriteFileRounds v inode buf off =
      writeRounds (buf.length + 1) v ((loadCatalogEntry v.disk inode.number).walk 0)
        (sectorOf v.disk c e off / 122 + 1) (sectorOf v.disk c e off % 122)
        ((off + headerLength (fileType v.disk c e)) % 256) buf := by
    simp only [dos33fsWriteFileRounds, loadCatalogEntry_type hn, hx32]
    rfl
  refine SkipThenGo.follows_iff h hf hn hl (Nat.div_le_div_right (by omega)) ?_
  rw [hrounds]
  refine ⟨fun round hround => writeRounds_head hround, fun hfirst => ?_, fun hend => ?_⟩
  · rw [show sectorOf v.disk c e off / 122 + 1 = 1 by omega, writeRounds_advance hwalk,
      Nat.mod_eq_of_lt hfirst]
    exact writeRounds_from _ hfirst
  · have hstart : 256 * sectorOf v.disk c e off + (off + headerLength (fileType v.disk c e)) % 256 =
        off + headerLength (fileType v.disk c e) := Nat.div_add_mod _ 256
    have hle : sectorOf v.disk c e off ≤ sectorOf v.disk c e (off + buf.length - 1) :=
      Nat.div_le_div_right (by omega)
    have hend' : (off + buf.length - 1 + headerLength (fileType v.disk c e)) / 256 < 122 := hend
    have hmod : sectorOf v.disk c e off % 122 = sectorOf v.disk c e off :=
      Nat.mod_eq_of_lt (Nat.lt_of_le_of_lt hle hend)
    rw [show sectorOf v.disk c e off / 122 + 1 = 1 by omega, writeLoop_advance hwalk, hmod] at hloop
    rw [show sectorOf v.disk c e off / 122 + 1 = 1 by omega, writeRounds_advance hwalk, hmod,
      writeRounds_length _ hloop (Nat.mod_lt _ (by decide)) hpos (by omega)
        (Nat.lt_succ_self buf.length), hstart]
    rw [show off + headerLength (fileType v.disk c e) + buf.length - 1 =
      off + buf.length - 1 + headerLength (fileType v.disk c e) by omega]
    rfl

/-- Shrinking follows the lists exactly when the file ends in the first. -/
theorem dos33fsShrinkFile_follows_iff (h : WellFormed v root) (hf : IsFile v.disk root c e)
    (hn : Names inode.number c e) (hsize : inode.size + 4 < 2147483648) {size : Nat}
    (hle : size ≤ inode.size) :
    FollowsLists v.disk c e (sectorOf v.disk c e size) (endSector v.disk c e inode.size)
        (dos33fsShrinkFileRounds v inode size) ↔
      endSector v.disk c e inode.size < 122 := by
  obtain ⟨l, hl⟩ := h.exists_tsList hf
  have hwalk := advanceTs_firstList h hf hn hl
  have hhdr := headerLength_le (fileType v.disk c e)
  have hlast : int32 ((uint64 (inode.size + headerLength (fileType v.disk c e)) /
      dos33BlockSize : Nat) : Int) = (endSector v.disk c e inode.size : Int) :=
    int32_sector (by omega)
  have hx32 : uint32 (size + headerLength (fileType v.disk c e)) =
      size + headerLength (fileType v.disk c e) := uint32_of_lt (by omega)
  have hrounds : dos33fsShrinkFileRounds v inode size =
      shrinkRounds (endSector v.disk c e inode.size) shrinkLimit v
        ((loadCatalogEntry v.disk inode.number).walk 0) (sectorOf v.disk c e size / 122 + 1)
        (sectorOf v.disk c e size % 122) ((size + headerLength (fileType v.disk c e)) % 256)
        (sectorOf v.disk c e size : Nat) false := by
    simp only [dos33fsShrinkFileRounds, loadCatalogEntry_type hn, hlast, hx32,
      if_neg (Nat.not_lt_of_le hle)]
    rfl
  have hfirst_le : sectorOf v.disk c e size ≤ endSector v.disk c e inode.size :=
    Nat.div_le_div_right (by omega)
  refine SkipThenGo.follows_iff h hf hn hl hfirst_le ?_
  rw [hrounds]
  refine ⟨fun round hround => shrinkRounds_head hround, fun hfirst => ?_, fun hend => ?_⟩
  · rw [show sectorOf v.disk c e size / 122 + 1 = 1 by omega, shrinkRounds_advance hwalk,
      Nat.mod_eq_of_lt hfirst]
    exact shrinkRounds_from _ hfirst
  · have hmod : sectorOf v.disk c e size % 122 = sectorOf v.disk c e size :=
      Nat.mod_eq_of_lt (Nat.lt_of_le_of_lt hfirst_le hend)
    rw [show sectorOf v.disk c e size / 122 + 1 = 1 by omega, shrinkRounds_advance hwalk, hmod,
      shrinkRounds_length _ hfirst_le hend (by rw [shrinkLimit]; omega)]

/-- What is written to the first list is read back, in a file of any size, and nothing but
the file is touched. -/
theorem dos33fsWriteFile_read_back (h : WellFormed v root) (hf : IsFile v.disk root c e)
    (hn : Names inode.number c e) (hsize : inode.size + 4 < 2147483648) {buf : List UInt8} {off : Nat}
    (hpos : 0 < buf.length) (hin : off + buf.length ≤ inode.size)
    (hlt : sectorOf v.disk c e (off + buf.length - 1) < 122)
    {r : Int} {v' : Dos33Volume} {inode' : Inode} {off' : Nat}
    (hok : dos33fsWriteFile v inode buf off = .ok (r, v', inode', off')) :
    r = buf.length ∧ dos33fsReadFile v'.disk inode' buf.length off =
        ((buf.length : Int), buf, off + buf.length) ∧
      TouchesOnly v.disk v'.disk root c e := by
  have hlt' : (off + buf.length - 1 + headerLength (fileType v.disk c e)) / 256 < 122 := hlt
  have hend : off + headerLength (fileType v.disk c e) + max 1 buf.length ≤ 31232 := by omega
  have hgrown : (if uint64 (off + buf.length) > inode.size then
      dos33fsGrowFile v inode (uint64 (off + buf.length)) else .ok (0, v, inode)) =
        .ok (0, v, inode) := by
    rw [uint64_of_lt (by omega), if_neg (by omega)]
  rcases dos33fsWriteFile_transfer h hf hn hgrown hend with ⟨herr, -⟩ | ⟨v₁, hw, heff⟩
  · rw [herr] at hok
    cases hok
  · rw [hw] at hok
    cases hok
    have htype := heff.step.entry.type
    have hbytes : fileBytes v'.disk c e (off + headerLength (fileType v.disk c e)) buf.length =
        buf := by
      apply FileBytes.ext_byteAt (fileBytes_length _ _ _ _ _)
      intro j hj
      rw [fileBytes_length] at hj
      rw [FileBytes.byteAt_of_lt (by rwa [fileBytes_length])]
      simp only [fileBytes, List.getElem_map, List.getElem_range]
      rw [heff.bytes, if_pos (by omega), Nat.add_sub_cancel_left]
    refine ⟨rfl, ?_, heff.step.touches⟩
    rw [dos33fsReadFile_spec heff.step.wf heff.step.file hn hsize _ _ (Or.inr (by rwa [htype])),
      htype, show min buf.length (inode.size - off) = buf.length by omega, hbytes]

/-- Reading, writing and shrinking look the sectors of a file up in the right entries of the
right lists exactly when they stay within its first 122 sectors. There, what is written is
read back and nothing but the file is touched. -/
theorem transfers_followLists_iff (h : WellFormed v root) (hf : IsFile v.disk root c e)
    (hn : Names inode.number c e)
    (hlists : tsListAt v.disk c e (endSector v.disk c e inode.size / 122) ≠ none) :
    (∀ count off, 0 < count → off + count ≤ inode.size →
      (FollowsLists v.disk c e (sectorOf v.disk c e off) (sectorOf v.disk c e (off + count - 1))
          (dos33fsReadFileRounds v.disk inode count off) ↔
        sectorOf v.disk c e (off + count - 1) < 122)) ∧
    (∀ buf off r v' inode' off', 0 < buf.length → off + buf.length ≤ inode.size →
      dos33fsWriteFile v inode buf off = .ok (r, v', inode', off') →
      (FollowsLists v.disk c e (sectorOf v.disk c e off) (sectorOf v.disk c e (off + buf.length - 1))
          (dos33fsWriteFileRounds v inode buf off) ↔
        sectorOf v.disk c e (off + buf.length - 1) < 122) ∧
      (sectorOf v.disk c e (off + buf.length - 1) < 122 →
        r = buf.length ∧ dos33fsReadFile v'.disk inode' buf.length off =
            ((buf.length : Int), buf, off + buf.length) ∧
          TouchesOnly v.disk v'.disk root c e)) ∧
    ∀ size, size ≤ inode.size →
      (FollowsLists v.disk c e (sectorOf v.disk c e size) (endSector v.disk c e inode.size)
          (dos33fsShrinkFileRounds v inode size) ↔
        endSector v.disk c e inode.size < 122) := by
  have hsize := h.size_lt hf hlists
  refine ⟨?_, ?_, ?_⟩
  · intro count off hpos hin
    exact dos33fsReadFile_follows_iff h hf hn hlists hpos hin
  · intro buf off r v' inode' off' hpos hin hok
    exact ⟨dos33fsWriteFile_follows_iff h hf hn hsize hpos hin hok,
      fun hlt => dos33fsWriteFile_read_back h hf hn hsize hpos hin hlt hok⟩
  · intro size hle
    exact dos33fsShrinkFile_follows_iff h hf hn hsize hle

end Follows

/-! ## On a blank volume -/

/-- A file made on a blank volume and grown to two lists. -/
theorem blankStore_twoLists :
    ∃ s inode, Store.run blankDirInode blankStore [.make 0 Inode.zeroed, .truncate 0 40000] =
        .ok ([.result 0, .result 0], s) ∧
      WellFormed s.volume blankRoot ∧ Denotes blankRoot s 0 inode 287 0 ∧ inode.size = 40000 ∧
      fileType s.volume.disk 287 0 = 4 ∧ tsListAt s.volume.disk 287 0 1 = some 290 := by
  have hrun : (Store.run blankDirInode blankStore [.make 0 Inode.zeroed, .truncate 0 40000]).map
      (fun q => (q.1, (q.2.inode 0).map fun i => (inodeToBlock i.number, inodeEntry i.number, i.size),
        decide (EntryUsed (q.2.volume.disk 287) 0 ∧ fileType q.2.volume.disk 287 0 = 4 ∧
          tsListAt q.2.volume.disk 287 0 1 = some 290))) =
      .ok ([.result 0, .result 0], some (256 * 287, 0, 40000), true) := by
    decide
  obtain ⟨⟨rs, s⟩, heq, hobs⟩ := map_eq_ok.1 hrun
  simp only [Prod.mk.injEq, decide_eq_true_eq] at hobs
  obtain ⟨rfl, hinode, hused, htype, hlist⟩ := hobs
  obtain ⟨inode, hi, hfields⟩ := Option.map_eq_some_iff.1 hinode
  simp only [Prod.mk.injEq] at hfields
  obtain ⟨hblock, hentry, hsize⟩ := hfields
  have hwf := Store.run_wellFormed (s := blankStore) blankVolume_wellFormed blankRoot_eq
    (blankStore_grow_stays (by decide)) heq
  have hfile : IsFile s.volume.disk blankRoot 287 0 := ⟨⟨0, rfl⟩, by decide, hused⟩
  exact ⟨s, inode, heq, hwf, ⟨hi, ⟨hblock, hentry⟩, hfile⟩, hsize, htype, hlist⟩

/-- A file of two lists, read, written and shrunk. -/
theorem transfers_followLists_iff_twoLists :
    ∃ (s : Store) (inode : Inode), s.inode 0 = some inode ∧
      (∀ count off, 0 < count → off + count ≤ inode.size →
        (FollowsLists s.volume.disk 287 0 (sectorOf s.volume.disk 287 0 off)
            (sectorOf s.volume.disk 287 0 (off + count - 1))
            (dos33fsReadFileRounds s.volume.disk inode count off) ↔
          sectorOf s.volume.disk 287 0 (off + count - 1) < 122)) ∧
      (∀ buf off r v' inode' off', 0 < buf.length → off + buf.length ≤ inode.size →
        dos33fsWriteFile s.volume inode buf off = .ok (r, v', inode', off') →
        (FollowsLists s.volume.disk 287 0 (sectorOf s.volume.disk 287 0 off)
            (sectorOf s.volume.disk 287 0 (off + buf.length - 1))
            (dos33fsWriteFileRounds s.volume inode buf off) ↔
          sectorOf s.volume.disk 287 0 (off + buf.length - 1) < 122) ∧
        (sectorOf s.volume.disk 287 0 (off + buf.length - 1) < 122 →
          r = buf.length ∧ dos33fsReadFile v'.disk inode' buf.length off =
              ((buf.length : Int), buf, off + buf.length) ∧
            TouchesOnly s.volume.disk v'.disk blankRoot 287 0)) ∧
      ∀ size, size ≤ inode.size →
        (FollowsLists s.volume.disk 287 0 (sectorOf s.volume.disk 287 0 size)
            (endSector s.volume.disk 287 0 inode.size) (dos33fsShrinkFileRounds s.volume inode size) ↔
          endSector s.volume.disk 287 0 inode.size < 122) := by
  obtain ⟨s, inode, -, hwf, hd, hsize, htype, hlist⟩ := blankStore_twoLists
  have hend : endSector s.volume.disk 287 0 inode.size / 122 = 1 := by
    rw [endSector, hsize, htype]
    decide
  have hlists : tsListAt s.volume.disk 287 0 (endSector s.volume.disk 287 0 inode.size / 122) ≠
      none := by
    rw [hend, hlist]
    exact Option.some_ne_none 290
  exact ⟨s, inode, hd.held, transfers_followLists_iff hwf hd.file hd.names hlists⟩

/-- Reading ten bytes of a file of two lists takes a sector of the catalog for the second of
them. -/
theorem dos33fsReadFile_readsCatalog :
    ∃ s inode, Store.run blankDirInode blankStore [.make 0 Inode.zeroed, .truncate 0 40000] =
        .ok ([.result 0, .result 0], s) ∧
      WellFormed s.volume blankRoot ∧ Denotes blankRoot s 0 inode 287 0 ∧ inode.size = 40000 ∧
      sectorOf s.volume.disk 287 0 35000 = 136 ∧ tsListAt s.volume.disk 287 0 (136 / 122) = some 290 ∧
      dos33fsReadFileRounds s.volume.disk inode 10 35000 = [(256 * 286, 136 % 122)] ∧
      Refers s.volume.disk blankRoot (.catalog 1) 286 := by
  obtain ⟨s, inode, hrun, hwf, hd, hsize, htype, hlist⟩ := blankStore_twoLists
  have hobs : (Store.run blankDirInode blankStore [.make 0 Inode.zeroed, .truncate 0 40000]).map
      (fun q => ((q.2.inode 0).map fun i => dos33fsReadFileRounds q.2.volume.disk i 10 35000,
        catalogAt q.2.volume.disk blankRoot 1)) =
      .ok (some [(256 * 286, 136 % 122)], some 286) := by
    decide +kernel
  obtain ⟨⟨rs, s'⟩, hrun', hpair⟩ := map_eq_ok.1 hobs
  rw [hrun] at hrun'
  cases hrun'
  simp only [Prod.mk.injEq, hd.held, Option.map_some, Option.some.injEq] at hpair
  obtain ⟨hrounds, hcat⟩ := hpair
  refine ⟨s, inode, hrun, hwf, hd, hsize, ?_, hlist, hrounds, hcat⟩
  rw [sectorOf, htype]
  decide

end Vmwos
