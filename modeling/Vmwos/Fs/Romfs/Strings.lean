import Vmwos.Fs.Romfs.Tree
import Vmwos.Library.Buffer

/-!
# ROMFS strings and the buffers they are read into

`romfs_read_string` appends the chunks of a string to a buffer with `strncat`, of which each call
looks for the end of what is there and stores a NUL of its own. The number of characters left
goes below zero while the rest of a long string is skipped. However the length of the string and
the bound fall on the chunks, the buffer takes the characters that fit and one NUL.
-/

set_option autoImplicit false

namespace Vmwos

open Library

namespace Romfs

/-! ## Appending to a buffer -/

/-- The loop of `strncat` at cell `pos` of the destination, with `n` characters left. -/
def strncatLoop : List UInt8 → (pos n : Nat) → List UInt8 → Option (List UInt8)
  | dest, pos, 0, _ => Buffer.store dest pos [0]
  | _, _, _ + 1, [] => none
  | dest, pos, n + 1, c :: src => do
      let dest ← Buffer.store dest pos [c]
      if c = 0 then Buffer.store dest pos [0] else strncatLoop dest (pos + 1) n src

/-- `strncat` of a string to the one in a buffer. -/
def strncat (dest src : List UInt8) (n : Nat) : Option (List UInt8) := do
  let destLen ← dest.findIdx? (· = 0)
  strncatLoop dest destLen n src

/-- The part of the loop of `romfs_read_string` that appends a chunk. -/
def appendChunk (maxStringsize : Int) (tempBuffer buffer : List UInt8) : Option (List UInt8) :=
  if maxStringsize > 0 then
    let maxLength : Nat := if maxStringsize > 16 then 16 else maxStringsize.toNat
    strncat buffer tempBuffer maxLength
  else some buffer

/-- The loop of `romfs_read_string` with its stores. -/
def fillStringLoop (image : Image) (offset : Nat) :
    Nat → (length : Nat) → (maxStringsize : Int) → List UInt8 → Except Stuck (List UInt8 × Nat)
  | 0, _, _, _ => .error .endless
  | fuel + 1, length, maxStringsize, buffer =>
      let tempBuffer := readNoinc image (uint32 (offset + length)) 16
      match appendChunk maxStringsize tempBuffer buffer with
      | none => .error .badAccess
      | some buffer =>
          if tempBuffer.getD 15 0 = 0 then .ok (buffer, length + 16)
          else fillStringLoop image offset fuel (length + 16) (maxStringsize - 16) buffer

/-- `romfs_read_string` into a buffer: the buffer and the length of the string on the device. -/
def fillString (image : Image) (offset : Nat) (buffer : List UInt8) (size : Int) :
    Except Stuck (List UInt8 × Nat) :=
  match Buffer.store buffer 0 [0] with
  | none => .error .badAccess
  | some buffer => fillStringLoop image offset romfsRounds 0 size buffer

/-! ## What is appended -/

section Append

variable {text mid src : List UInt8} {n : Nat}

/-- The characters up to a NUL are stored, and a NUL behind them. -/
theorem strncatLoop_eq (src : List UInt8) : ∀ {n : Nat} {text mid : List UInt8} (y : UInt8),
    n ≤ src.length → ((src.take n).takeWhile (· ≠ 0)).length ≤ mid.length →
      strncatLoop (text ++ y :: mid) text.length n src =
        some (text ++ (src.take n).takeWhile (· ≠ 0) ++
          0 :: mid.drop ((src.take n).takeWhile (· ≠ 0)).length) := by
  induction src with
  | nil =>
      intro n text mid y hn _
      obtain rfl := Nat.le_zero.1 hn
      rw [strncatLoop, Buffer.store_cell]
      simp
  | cons c src ih =>
      intro n text mid y hn hroom
      cases n with
      | zero =>
          rw [strncatLoop, Buffer.store_cell]
          simp
      | succ n =>
          rw [List.take_succ_cons] at hroom ⊢
          rw [strncatLoop, Buffer.store_cell]
          by_cases hc : c = 0
          · -- the NUL of the source is stored twice
            subst hc
            have hstop : (0 :: src.take n).takeWhile (· ≠ 0) = [] := rfl
            rw [hstop, List.append_nil]
            exact Buffer.store_cell text 0 0 mid
          · have hgo : (c :: src.take n).takeWhile (· ≠ 0) =
                c :: (src.take n).takeWhile (· ≠ 0) :=
              List.takeWhile_cons_of_pos (by simpa using hc)
            rw [hgo] at hroom ⊢
            obtain ⟨z, mid, rfl⟩ := List.exists_cons_of_length_pos
              (Nat.lt_of_lt_of_le (Nat.succ_pos _) hroom)
            have hloop := @ih n (text ++ [c]) mid z (Nat.le_of_succ_le_succ hn)
              (Nat.le_of_succ_le_succ hroom)
            rw [List.length_append, List.length_singleton, List.append_assoc,
              List.singleton_append] at hloop
            refine (if_neg hc).trans (hloop.trans ?_)
            rw [List.append_assoc text, List.singleton_append, List.length_cons,
              List.drop_succ_cons]

theorem strncat_eq (hnul : 0 ∉ text) (hn : n ≤ src.length)
    (hroom : ((src.take n).takeWhile (· ≠ 0)).length ≤ mid.length) :
    strncat (text ++ 0 :: mid) src n = some (text ++ (src.take n).takeWhile (· ≠ 0) ++
      0 :: mid.drop ((src.take n).takeWhile (· ≠ 0)).length) := by
  have hend : (text ++ 0 :: mid).findIdx? (· = 0) = some text.length := by
    rw [List.findIdx?_append, List.findIdx?_eq_none_iff.2, List.findIdx?_cons]
    · simp
    · intro c hc
      have hne : c ≠ 0 := fun h0 => hnul (h0 ▸ hc)
      exact decide_eq_false hne
  rw [strncat, hend]
  exact strncatLoop_eq src 0 hn hroom

/-- A chunk is appended where the buffer has room for what is left of the bound. -/
theorem appendChunk_eq {maxStringsize : Int} {tempBuffer : List UInt8} (htext : 0 ∉ text)
    (htemp : tempBuffer.length = 16) (hroom : maxStringsize.toNat ≤ mid.length) :
    ∃ added mid', 0 ∉ added ∧ (maxStringsize - 16).toNat ≤ mid'.length ∧
      (if maxStringsize > 0 then
        text ++ (tempBuffer.take (if maxStringsize > 16 then 16 else maxStringsize.toNat)).takeWhile
          (· ≠ 0)
        else text) = text ++ added ∧
      appendChunk maxStringsize tempBuffer (text ++ 0 :: mid) = some (text ++ added ++ 0 :: mid') := by
  rw [appendChunk]
  by_cases hmax : maxStringsize > 0
  · -- what is taken of the chunk and what is left of the bound do not exceed the bound
    have hle : (if maxStringsize > 16 then 16 else maxStringsize.toNat) ≤ 16 ∧
        (if maxStringsize > 16 then 16 else maxStringsize.toNat) +
          (maxStringsize - 16).toNat ≤ maxStringsize.toNat := by
      split <;> omega
    rw [if_pos hmax, if_pos hmax]
    generalize (if maxStringsize > 16 then 16 else maxStringsize.toNat) = n at hle ⊢
    have hlen : ((tempBuffer.take n).takeWhile (· ≠ 0)).length ≤ n :=
      Nat.le_trans (List.takeWhile_prefix _).length_le (List.length_take_le _ _)
    have hfits : ((tempBuffer.take n).takeWhile (· ≠ 0)).length ≤ mid.length := by omega
    refine ⟨_, _, ?_, ?_, rfl, strncat_eq htext (htemp ▸ hle.1) hfits⟩
    · intro hmem
      have hne := List.mem_takeWhile_imp hmem
      exact absurd hne (by decide)
    · rw [List.length_drop]
      omega
  · refine ⟨[], mid, List.not_mem_nil, ?_, ?_, ?_⟩
    · omega
    · rw [if_neg hmax, List.append_nil]
    · rw [if_neg hmax, List.append_nil]

end Append

/-! ## Whole strings -/

section Whole

variable {image : Image} {offset : Nat} {name : CString}

/-- The stores leave in the buffer the string `readStringLoop` gives, and a NUL. -/
theorem fillStringLoop_eq (fuel : Nat) : ∀ {length n : Nat} {maxStringsize : Int}
    {text text' mid : List UInt8}, 0 ∉ text → maxStringsize.toNat ≤ mid.length →
      readStringLoop image offset fuel length maxStringsize text = .ok (text', n) →
        ∃ post, fillStringLoop image offset fuel length maxStringsize (text ++ 0 :: mid) =
          .ok (text' ++ 0 :: post, n) := by
  induction fuel with
  | zero =>
      intro _ _ _ _ _ _ _ _ h
      cases h
  | succ fuel ih =>
      intro length n maxStringsize text text' mid htext hroom h
      have htemp : (readNoinc image (uint32 (offset + length)) 16).length = 16 := by
        rw [readNoinc, List.length_map, List.length_range]
      rw [readStringLoop] at h
      rw [fillStringLoop]
      generalize readNoinc image (uint32 (offset + length)) 16 = tempBuffer at h htemp ⊢
      obtain ⟨added, mid', hnul, hroom', htext', happend⟩ := appendChunk_eq htext htemp hroom
      dsimp only at h ⊢
      rw [htext'] at h
      rw [happend]
      dsimp only
      split at h
      · rename_i hlast
        rw [if_pos hlast]
        cases h
        exact ⟨mid', rfl⟩
      · -- what has been appended has no NUL, so the next chunk goes behind it
        rename_i hmore
        rw [if_neg hmore]
        apply ih _ hroom' h
        rw [List.mem_append, not_or]
        exact ⟨htext, hnul⟩

/-- A buffer of one byte more than the bound takes what `romfs_read_string` reads. -/
theorem fillString_eq {size n : Nat} {text buffer : List UInt8}
    (h : readString image offset size = .ok (text, n)) (hbuffer : buffer.length = size + 1) :
    ∃ post, fillString image offset buffer size = .ok (text ++ 0 :: post, n) := by
  obtain ⟨x, mid, rfl⟩ := List.exists_cons_of_length_eq_add_one hbuffer
  have hstore : Buffer.store (x :: mid) 0 [0] = some ([] ++ 0 :: mid) :=
    Buffer.store_cell [] 0 x mid
  have hroom : (size : Int).toNat ≤ mid.length := Nat.le_of_eq (Nat.succ.inj hbuffer).symm
  rw [fillString, hstore]
  exact fillStringLoop_eq romfsRounds List.not_mem_nil hroom h

/-- Of a name and any bound `romfs_read_string` stores the characters that fit and a NUL, in a
buffer of one byte more than the bound; the three functions agree on where the name ends. -/
theorem stringWalkers_agree (h : NameAt image offset name) (size : Nat) (buffer : List UInt8)
    (hbuffer : buffer.length = size + 1) :
    stringLength image offset = .ok name.length ∧
      stringLengthChunks image offset = .ok (16 * (name.length / 16 + 1)) ∧
      ∃ post, fillString image offset buffer size =
        .ok (name.take size ++ 0 :: post, 16 * (name.length / 16 + 1)) := by
  have hpad : paddedLength name.length = 16 * (name.length / 16 + 1) := Nat.mul_comm _ _
  have hread := h.readString_take size
  rw [hpad] at hread
  exact ⟨h.stringLength, hpad ▸ h.stringLengthChunks, fillString_eq hread hbuffer⟩

end Whole

/-- A name of 17 characters, of which 16 are read. -/
theorem stringWalkers_agree_seventeen :
    stringLength (fun a => if a < 17 then 0x61 else 0) 0 = .ok 17 ∧
      ∃ post, fillString (fun a => if a < 17 then 0x61 else 0) 0 (List.replicate 17 0xff) 16 =
        .ok (List.replicate 16 0x61 ++ 0 :: post, 32) := by
  have hname : NameAt (fun a => if a < 17 then 0x61 else 0) 0 (List.replicate 17 0x61) := by
    refine ⟨by decide, ?_, by decide⟩
    intro i hi
    have hlt : i < 32 := hi
    have hall : ∀ k < 32, (if 0 + k < 17 then (0x61 : UInt8) else 0) =
        FileBytes.byteAt (List.replicate 17 0x61) k := by
      decide
    exact hall i hlt
  obtain ⟨hlength, -, hfill⟩ := stringWalkers_agree hname 16 (List.replicate 17 0xff)
    List.length_replicate
  exact ⟨hlength, hfill⟩

end Romfs

end Vmwos
