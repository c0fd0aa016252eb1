import Vmwos.Fs.Dos33fs.Directory
import Vmwos.Fs.Dos33fs.Entries
import Mathlib.Data.List.DropRight

/-!
# File names in the DOS 3.3 catalog

`dos33fs_link_inode` stores a name in 30 bytes, padded with spaces and with the high bits set.
`dos33fs_find_filename` and `dos33fs_getdents` each copy the 30 bytes, look for the end of the
padding from behind and clear the high bits up to the first 0. Their loops are those of
`copiedName`. Both give back a name that does not end in a space.
-/

set_option autoImplicit false

namespace Vmwos

/-! ## The loops of the decoders -/

/-- The loop that goes down over the padding, from the byte before `n` on: one more than the last
`filename_ptr`. -/
def paddingLoop (filename : List UInt8) : Nat → Nat
  | 0 => 0
  | n + 1 => if filename[n]? = some 0xa0 then paddingLoop filename n else n + 1

/-- The loop that clears the high bits, up to a 0: the bytes behind it and `name_length`. -/
def highBitLoop : List UInt8 → List UInt8 × Nat
  | [] => ([], 0)
  | c :: cs =>
      if c ≠ 0 then
        let r := highBitLoop cs
        ((c &&& 0x7f) :: r.1, r.2 + 1)
      else (c :: cs, 0)

/-- The buffer `filename` and `name_length` after the loops of `dos33fs_find_filename` and
`dos33fs_getdents` for the entry at `catOffset`. -/
def copiedName (b : Block) (catOffset : Nat) : List UInt8 × Nat :=
  let filename := (List.range dos33MaxFilenameSize).map fun i =>
    b (catOffset + dos33CatOffsetFileName + i)
  let filename := filename ++ [0]
  let filenamePtr := paddingLoop filename dos33MaxFilenameSize
  highBitLoop (filename.set filenamePtr 0)

/-- The loop ends where the padding begins. -/
theorem paddingLoop_append (raw : List UInt8) : ∀ rest : List UInt8,
    paddingLoop (raw ++ rest) raw.length = (raw.rdropWhile (· = 0xa0)).length := by
  induction raw using List.reverseRecOn with
  | nil => exact fun _ => rfl
  | append_singleton raw c ih =>
      intro rest
      have hlast : (raw ++ [c] ++ rest)[raw.length]? = some c := by
        rw [List.append_assoc, List.getElem?_append_right (Nat.le_refl _), Nat.sub_self]
        rfl
      rw [List.length_append, List.length_singleton, paddingLoop, hlast]
      by_cases hc : c = 0xa0
      · rw [if_pos (congrArg some hc), List.append_assoc, ih,
          List.rdropWhile_concat_pos (fun x => decide (x = 0xa0)) raw c (decide_eq_true hc)]
      · rw [if_neg (fun h => hc (Option.some.inj h)),
          List.rdropWhile_concat_neg (fun x => decide (x = 0xa0)) raw c (by simpa using hc), List.length_append,
          List.length_singleton]

theorem takeWhile_nonzero_cons {c : UInt8} (hc : c ≠ 0) (cs : List UInt8) :
    (c :: cs).takeWhile (· ≠ 0) = c :: cs.takeWhile (· ≠ 0) :=
  List.takeWhile_cons_of_pos (by simpa using hc)

theorem highBitLoop_append (rest cs : List UInt8) : ∃ rest', highBitLoop (cs ++ 0 :: rest) =
    ((cs.takeWhile (· ≠ 0)).map (· &&& 0x7f) ++ 0 :: rest',
      ((cs.takeWhile (· ≠ 0)).map (· &&& 0x7f)).length) := by
  induction cs with
  | nil => exact ⟨rest, rfl⟩
  | cons c cs ih =>
      rw [List.cons_append, highBitLoop]
      by_cases hc : c = 0
      · subst hc
        exact ⟨cs ++ 0 :: rest, rfl⟩
      · obtain ⟨rest', hloop⟩ := ih
        refine ⟨rest', ?_⟩
        rw [if_pos hc, hloop, takeWhile_nonzero_cons hc]
        rfl

/-- The loops leave the bytes of `filenameBytes` in the buffer, followed by a NUL. -/
theorem copiedName_eq (b : Block) (catOffset : Nat) : ∃ rest,
    copiedName b catOffset =
      (filenameBytes b catOffset ++ 0 :: rest, (filenameBytes b catOffset).length) := by
  simp only [copiedName, filenameBytes]
  generalize hraw : (List.range dos33MaxFilenameSize).map
    (fun i => b (catOffset + dos33CatOffsetFileName + i)) = raw
  have hlen : dos33MaxFilenameSize = raw.length := by
    rw [← hraw, List.length_map, List.length_range]
  rw [hlen, paddingLoop_append]
  obtain ⟨pads, hpads⟩ : raw.rdropWhile (· = 0xa0) <+: raw :=
    List.rdropWhile_prefix _ raw
  obtain ⟨x, rest, hcons⟩ : ∃ x rest, pads ++ [(0 : UInt8)] = x :: rest :=
    List.exists_cons_of_ne_nil (List.append_ne_nil_of_right_ne_nil _ (List.cons_ne_nil _ _))
  have hpads' : raw ++ [0] = raw.rdropWhile (· = 0xa0) ++ x :: rest := by
    rw [← hcons, ← List.append_assoc, hpads]
  have hset : (raw ++ [0]).set (raw.rdropWhile (· = 0xa0)).length 0 =
      raw.rdropWhile (· = 0xa0) ++ 0 :: rest := by
    rw [hpads', List.set_append_right _ _ (Nat.le_refl _), Nat.sub_self, List.set_cons_zero]
  rw [hset]
  exact highBitLoop_append _ _

/-- The string `dos33fs_find_filename` compares is the one in the buffer. -/
theorem decodeFilename_eq (b : Block) (entry : Nat) :
    decodeFilename b entry = (copiedName b (catOffset entry 0)).1.takeWhile (· ≠ 0) := by
  obtain ⟨rest, hcopied⟩ := copiedName_eq b (catOffset entry 0)
  have hend : (filenameBytes b (catOffset entry 0) ++ 0 :: rest).takeWhile (· ≠ 0) =
      (filenameBytes b (catOffset entry 0)).takeWhile (· ≠ 0) := by
    generalize filenameBytes b (catOffset entry 0) = cs
    induction cs with
    | nil => rfl
    | cons c cs ih =>
        by_cases hc : c = 0
        · subst hc
          rfl
        · rw [List.cons_append, takeWhile_nonzero_cons hc, takeWhile_nonzero_cons hc, ih]
  rw [hcopied, hend]
  rfl

/-! ## Names that come back -/

/-- A name that is given back as it is: 1 to 30 characters of 7 bits, the last one not a space. -/
structure IsPlainName (name : CString) : Prop where
  nonempty : name ≠ []
  short : name.length ≤ dos33MaxFilenameSize
  chars : ∀ c ∈ name, 1 ≤ c ∧ c ≤ 0x7f
  last : name.getLast? ≠ some 0x20

/-- A character of 7 bits with its high bit set. -/
theorem highBit_spec : ∀ c : UInt8, 1 ≤ c ∧ c ≤ 0x7f →
    (c ||| 0x80) ≠ 0 ∧ (c ||| 0x80) &&& 0x7f = c ∧ ((c ||| 0x80) = 0xa0 → c = 0x20) := by
  have hall : ∀ n : Fin 256, 1 ≤ UInt8.ofNat n ∧ UInt8.ofNat n ≤ 0x7f →
      (UInt8.ofNat n ||| 0x80) ≠ 0 ∧ (UInt8.ofNat n ||| 0x80) &&& 0x7f = UInt8.ofNat n ∧
        ((UInt8.ofNat n ||| 0x80) = 0xa0 → UInt8.ofNat n = 0x20) := by
    decide +kernel
  intro c hc
  have := hall ⟨c.toNat, c.toNat_lt⟩
  rw [UInt8.ofNat_toNat] at this
  exact this hc

/-- What is decoded from the stored bytes of a name. -/
theorem decode_dos33Filename {name : CString} (h : IsPlainName name) :
    (((dos33Filename name).rdropWhile (· = 0xa0)).takeWhile (· ≠ 0)).map (· &&& 0x7f) = name := by
  have hpad (n : Nat) (cs : List UInt8) :
      (cs ++ List.replicate n 0xa0).rdropWhile (· = 0xa0) = cs.rdropWhile (· = 0xa0) := by
    induction n with
    | zero => rw [List.replicate_zero, List.append_nil]
    | succ n ih =>
        rw [List.replicate_succ', ← List.append_assoc, List.rdropWhile_concat_pos _ _ _ rfl, ih]
  -- the last character is no blank, so no more than the padding is dropped
  have hstored : (name.map (· ||| 0x80)).rdropWhile (· = 0xa0) = name.map (· ||| 0x80) := by
    rw [List.rdropWhile_eq_self_iff]
    intro hne hlast
    apply h.last
    rw [List.getLast_map, decide_eq_true_eq] at hlast
    have hspace := (highBit_spec _ (h.chars _ (List.getLast_mem h.nonempty))).2.2 hlast
    rw [List.getLast?_eq_some_getLast h.nonempty, hspace]
  have htake : (name.map (· ||| 0x80)).takeWhile (· ≠ 0) = name.map (· ||| 0x80) := by
    rw [List.takeWhile_eq_self_iff]
    intro x hx
    obtain ⟨c, hc, rfl⟩ := List.mem_map.1 hx
    exact decide_eq_true (highBit_spec c (h.chars c hc)).1
  have hspaces : (List.replicate (dos33MaxFilenameSize - name.length) (0x20 : UInt8)).map
      (· ||| 0x80) = List.replicate (dos33MaxFilenameSize - name.length) 0xa0 := by
    rw [List.map_replicate]
    rfl
  rw [dos33Filename, List.map_append, hspaces, hpad, hstored, htake, List.map_map]
  conv_rhs => rw [← List.map_id name]
  apply List.map_congr_left
  intro c hc
  exact (highBit_spec c (h.chars c hc)).2.1

/-- The bytes of a name after it has been stored. -/
theorem map_setBytes (b : Block) (start : Nat) (cs : List UInt8) :
    ((List.range cs.length).map fun i => setBytes b start cs (start + i)) = cs := by
  apply List.ext_getElem
  · rw [List.length_map, List.length_range]
  · intro i hi hi'
    rw [List.getElem_map, List.getElem_range]
    refine (copyIn_apply b start cs (start + i)).trans ?_
    rw [if_pos ⟨Nat.le_add_right _ _, Nat.add_lt_add_left hi' _⟩, Nat.add_sub_cancel_left]
    exact List.getD_eq_getElem cs 0 hi'

/-- A name is stored in the entry of an inode, and both decoders give it back; no other byte of
the volume changes. -/
theorem linkInode_roundTrip (v : Dos33Volume) (inode : Inode) (name : CString)
    (h : IsPlainName name) (hentry : inodeEntry inode.number < dos33CatMaxEntries) :
    ∃ v', dos33fsLinkInode v inode name =
        (0, v', { inode with hardLinks := inode.hardLinks + 1 }) ∧
      let entry := inodeEntry inode.number
      let b := readBlock v.disk (inodeToBlock inode.number)
      let b' := readBlock v'.disk (inodeToBlock inode.number)
      decodeFilename b' entry = name ∧
      filenameBytes b' (catOffset entry 0) = name ∧
      (∃ rest, copiedName b' (catOffset entry 0) = (name ++ 0 :: rest, name.length)) ∧
      (∀ i, ¬ (catOffset entry dos33CatOffsetFileName ≤ i ∧
        i < catOffset entry dos33CatOffsetFileName + dos33MaxFilenameSize) → b' i = b i) ∧
      catOffset entry dos33CatOffsetFileName + dos33MaxFilenameSize ≤ dos33BlockSize ∧
      v' = { v with disk := writeBlock v.disk (inodeToBlock inode.number) b' } := by
  have hlen : (dos33Filename name).length = dos33MaxFilenameSize := dos33Filename_length h.short
  have hread (d : Disk) (location : Nat) (b : Block) :
      readBlock (writeBlock d location b) location = b := Function.update_self _ _ _
  refine ⟨_, if_neg (Nat.not_lt.2 h.short), ?_⟩
  simp only [hread]
  generalize readBlock v.disk (inodeToBlock inode.number) = b
  generalize hb' : setBytes b (catOffset (inodeEntry inode.number) dos33CatOffsetFileName)
    (dos33Filename name) = b'
  -- all 30 bytes of the name are stored, with the padding
  have hstored : ((List.range dos33MaxFilenameSize).map fun i =>
      b' (catOffset (inodeEntry inode.number) 0 + dos33CatOffsetFileName + i)) =
        dos33Filename name := by
    rw [← hb', ← hlen]
    exact map_setBytes b _ (dos33Filename name)
  have hbytes : filenameBytes b' (catOffset (inodeEntry inode.number) 0) = name := by
    rw [filenameBytes, hstored]
    exact decode_dos33Filename h
  obtain ⟨rest, hcopied⟩ := copiedName_eq b' (catOffset (inodeEntry inode.number) 0)
  rw [hbytes] at hcopied
  refine ⟨?_, hbytes, ⟨rest, hcopied⟩, ?_, ?_, ?_⟩
  · rw [decodeFilename_eq, hcopied]
    have hnul : 0 ∉ name := fun hmem => absurd (h.chars 0 hmem).1 (by decide)
    exact takeWhile_terminated hnul rest
  · intro i hi
    rw [← hb']
    exact setBytes_of_not_mem _ _ _ (by rwa [hlen])
  · rw [catOffset]
    unfold dos33CatMaxEntries at hentry
    show 0xb + inodeEntry inode.number * 0x23 + 3 + 30 ≤ 256
    omega
  · trivial

/-- The name `HELLO` in the last entry of the first catalog sector. -/
theorem linkInode_roundTrip_hello :
    ∃ v', dos33fsLinkInode ⟨fun _ => 0, fun _ _ => 0, 560, 1⟩
        { Inode.zeroed with number := 0x110f06 } [0x48, 0x45, 0x4c, 0x4c, 0x4f] =
          (0, v', { Inode.zeroed with number := 0x110f06, hardLinks := 1 }) ∧
      decodeFilename (readBlock v'.disk (inodeToBlock 0x110f06)) (inodeEntry 0x110f06) =
        [0x48, 0x45, 0x4c, 0x4c, 0x4f] := by
  obtain ⟨v', hlink, hname, -⟩ := linkInode_roundTrip ⟨fun _ => 0, fun _ _ => 0, 560, 1⟩
    { Inode.zeroed with number := 0x110f06 } [0x48, 0x45, 0x4c, 0x4c, 0x4f]
    ⟨by decide, by decide, by decide +kernel, by decide⟩ (by decide)
  exact ⟨v', hlink, hname⟩

end Vmwos
