import Vmwos.Boot.CommandLine

/-!
# The tags of the boot loader

`atags_detect` and `atags_dump` walk through the list of tags that the boot loader leaves in memory.
Both switch on the tag, and every case moves the pointer on by itself. The default case does not:
behind its message the same tag is looked at again, for ever. `atags_iff` says which lists are walked
through.
-/

set_option autoImplicit false

namespace Vmwos

open Library

/-! ## Tags -/

def atagNone : UInt32 := 0x00000000
def atagCore : UInt32 := 0x54410001
def atagMem : UInt32 := 0x54410002
def atagVideotext : UInt32 := 0x54410003
def atagRamdisk : UInt32 := 0x54410004
def atagInitrd2 : UInt32 := 0x54420005
def atagSerial : UInt32 := 0x54410006
def atagRevision : UInt32 := 0x54410007
def atagVideolfb : UInt32 := 0x54410008
def atagCmdline : UInt32 := 0x54410009

/-- The cases of the two switches. -/
inductive AtagKind where
  | core
  | mem
  | videotext
  | ramdisk
  | initrd2
  | serial
  | revision
  | videolfb
  | cmdline
  | none
  | unknown
  deriving DecidableEq, Repr

/-- The case that a tag gets to. -/
def atagKind (tag : UInt32) : AtagKind :=
  if tag = atagCore then .core
  else if tag = atagMem then .mem
  else if tag = atagVideotext then .videotext
  else if tag = atagRamdisk then .ramdisk
  else if tag = atagInitrd2 then .initrd2
  else if tag = atagSerial then .serial
  else if tag = atagRevision then .revision
  else if tag = atagVideolfb then .videolfb
  else if tag = atagCmdline then .cmdline
  else if tag = atagNone then .none
  else .unknown

/-- `struct atag_info_t` -/
structure AtagInfo where
  revision : UInt32
  ramsize : UInt32
  hardwareType : UInt32
  framebufferX : UInt32
  framebufferY : UInt32
  deriving DecidableEq, Repr

/-- `"fbwidth"` -/
def fbwidthName : CString := [0x66, 0x62, 0x77, 0x69, 0x64, 0x74, 0x68]

/-- `"fbheight"` -/
def fbheightName : CString := [0x66, 0x62, 0x68, 0x65, 0x69, 0x67, 0x68, 0x74]

/-- `"rev"` -/
def revName : CString := [0x72, 0x65, 0x76]

/-- The keys of the kernel image, which are looked for on the command line. -/
structure CmdlineKeys (memory : Memory) where
  fbwidth : UInt32
  fbheight : UInt32
  rev : UInt32
  fbwidth_stands : Terminated memory fbwidth fbwidthName
  fbheight_stands : Terminated memory fbheight fbheightName
  rev_stands : Terminated memory rev revName

/-- What a round of one of the loops does: it goes on with a tag, or returns. -/
inductive AtagRound (σ : Type) where
  | next (tags : UInt32) (s : σ)
  | done (s : σ)

/-- The `while(1)` of both functions. -/
def atagLoop {σ : Type} (round : UInt32 → σ → Except Stuck (AtagRound σ)) :
    (rounds : Nat) → (tags : UInt32) → (s : σ) → Except Stuck σ
  | 0, _, _ => .error .endless
  | rounds + 1, tags, s =>
      match round tags s with
      | .error stuck => .error stuck
      | .ok (.done s) => .ok s
      | .ok (.next tags s) => atagLoop round rounds tags s

section

variable (memory : Memory)

/-- `tags[i]` -/
def tagWord (tags : UInt32) (i : Nat) : UInt32 := memory.loadWord (tags + UInt32.ofNat (4 * i))

/-- The case of the tag at a place. -/
def kindAt (tags : UInt32) : AtagKind := atagKind (tagWord memory tags 1)

/-- `tags += size` -/
def nextTag (tags : UInt32) : UInt32 := tags + 4 * tagWord memory tags 0

/-- `(char *)(&tags[2])` -/
def tagCmdline (tags : UInt32) : UInt32 := tags + 8

/-! ## Detecting -/

/-- What `atags_detect` works on: the info, and what has been printed. -/
structure Detecting where
  info : AtagInfo
  printed : List PrintkCall

variable {memory} in
/-- The case of the command line. -/
def detectCmdline (keys : CmdlineKeys memory) (tags : UInt32) (s : Detecting) :
    Except Stuck (AtagRound Detecting) := do
  let cmdline := tagCmdline tags
  let width ← parseCmdlineInt memory cmdline keys.fbwidth
  let height ← parseCmdlineInt memory cmdline keys.fbheight
  let rev ← parseCmdlineInt memory cmdline keys.rev
  let info := { s.info with
    framebufferX := UInt32.ofInt width.result
    framebufferY := UInt32.ofInt height.result
    revision := UInt32.ofInt rev.result }
  return .next (nextTag memory tags) { s with info := info }

variable {memory} in
/-- A round of `atags_detect`. -/
def detectRound (keys : CmdlineKeys memory) (tags : UInt32) (s : Detecting) :
    Except Stuck (AtagRound Detecting) :=
  match kindAt memory tags with
  | .mem =>
      let totalRam := tagWord memory tags 2
      let printed := if tagWord memory tags 3 ≠ 0 then s.printed ++
        [⟨"Warning!  We do not handle memory not starting at zero!\n", []⟩] else s.printed
      .ok (.next (nextTag memory tags) ⟨{ s.info with ramsize := totalRam }, printed⟩)
  | .cmdline => detectCmdline keys tags s
  | .none => .ok (.done s)
  -- here the pointer stays
  | .unknown => .ok (.next tags { s with printed := s.printed ++ [⟨"ERROR! Unknown atag\n", []⟩] })
  | _ => .ok (.next (nextTag memory tags) s)

variable {memory} in
/-- `atags_detect` -/
def atagsDetect (keys : CmdlineKeys memory) (rounds : Nat) (atags : UInt32) :
    Except Stuck Detecting :=
  atagLoop (detectRound keys) rounds atags ⟨⟨0, 0, 0, 0, 0⟩, []⟩

/-! ## Dumping -/

/-- The pieces in which `atags_dump` prints the command line. -/
def chunkLoop (cmdline : UInt32) : (rounds : Nat) → (length : Int) → (count : UInt32) →
    Except Stuck (List PrintkCall)
  | 0, _, _ => .error .endless
  | rounds + 1, length, count =>
      if 0 < length then do
        let rest ← chunkLoop cmdline rounds (length - 256) (count + 1)
        return ⟨"%s", [cmdline + 256 * count]⟩ :: rest
      else .ok []

/-- A command line of some length. There are fewer rounds than characters. -/
def dumpLine (cmdline : UInt32) (length : Int) : Except Stuck (List PrintkCall) :=
  match chunkLoop cmdline (length.toNat + 1) length 0 with
  | .error stuck => .error stuck
  | .ok chunks =>
      .ok (⟨"  Commandline (%d): ", [UInt32.ofInt length]⟩ :: (chunks ++ [⟨"\n", []⟩]))

/-- The case of the command line. -/
def dumpCmdline (cmdline : UInt32) : Except Stuck (List PrintkCall) :=
  match Kernel.strlen memory cmdline with
  | .error stuck => .error stuck
  | .ok length => dumpLine cmdline (int32 length)

/-- What `atags_dump` prints for a tag. -/
def dumpTag (tags : UInt32) : Except Stuck (List PrintkCall) :=
  let word := tagWord memory tags
  match kindAt memory tags with
  | .core => .ok [⟨"  CORE: flags: %x, pagesize: %x, rootdev: %x\n", [word 2, word 3, word 4]⟩]
  | .mem => .ok [⟨"  MEMORY: size: %x (%dMB), start: %x\n",
      [word 2, word 2 / 1024 / 1024, word 3]⟩]
  | .videotext => .ok [⟨"  VIDEOTEXT x,y,video: %x, mode,cols, ega: %x, lines, vga, points: %x\n",
      [word 2, word 3, word 4]⟩]
  | .ramdisk => .ok [⟨"  RAMDISK flags: %x, size: %x, start: %x\n", [word 2, word 3, word 4]⟩]
  | .initrd2 => .ok [⟨"  INITRD size: %x, start: %x\n", [word 3, word 2]⟩]
  | .serial => .ok [⟨" SERIAL NUMBER: low: %x, high: %x\n", [word 2, word 3]⟩]
  | .revision => .ok [⟨" Board revision: %x\n", [word 2]⟩]
  | .videolfb => .ok [⟨"  VESA framebuffer\n", []⟩]
  | .cmdline => dumpCmdline memory (tagCmdline tags)
  | .none => .ok [⟨"\n", []⟩]
  | .unknown => .ok [⟨"ERROR! Unknown atag\n", []⟩]

/-- A round of `atags_dump`, with what has been printed so far. -/
def dumpRound (tags : UInt32) (printed : List PrintkCall) :
    Except Stuck (AtagRound (List PrintkCall)) := do
  let lines ← dumpTag memory tags
  match kindAt memory tags with
  | .none => return .done (printed ++ lines)
  | .unknown => return .next tags (printed ++ lines)
  | _ => return .next (nextTag memory tags) (printed ++ lines)

/-- `atags_dump` -/
def atagsDump (rounds : Nat) (atags : UInt32) : Except Stuck (List PrintkCall) :=
  atagLoop (dumpRound memory) rounds atags [⟨"Dumping ATAGs provied by bootloader:\n", []⟩]

/-! ## Lists of tags -/

/-- A list of tags in memory, by the places of all that are in front of the tag that ends it. -/
def AtagsStand : (tags : UInt32) → (places : List UInt32) → Prop
  | tags, [] => tagWord memory tags 1 = atagNone
  | tags, place :: places => place = tags ∧ tagWord memory tags 0 ≠ 0 ∧
      tagWord memory tags 1 ≠ atagNone ∧ AtagsStand (nextTag memory tags) places

/-- What is read from the last tag of a kind, if there is one. -/
def lastOf (kind : AtagKind) (read : UInt32 → UInt32) (places : List UInt32) (value : UInt32) :
    UInt32 :=
  ((places.filter fun place => kindAt memory place = kind).getLast?.map read).getD value

/-- The number that a key has on the command line of a tag. -/
def cmdlineInt (key tags : UInt32) : UInt32 :=
  ((parseCmdlineInt memory (tagCmdline tags) key).toOption.map
    fun parsed => UInt32.ofInt parsed.result).getD 0

variable {memory} in
/-- The info with the size of the memory and the numbers of the command lines. -/
def recordedInfo (keys : CmdlineKeys memory) (places : List UInt32) (info : AtagInfo) : AtagInfo :=
  { info with
    ramsize := lastOf memory .mem (tagWord memory · 2) places info.ramsize
    framebufferX := lastOf memory .cmdline (cmdlineInt memory keys.fbwidth) places info.framebufferX
    framebufferY :=
      lastOf memory .cmdline (cmdlineInt memory keys.fbheight) places info.framebufferY
    revision := lastOf memory .cmdline (cmdlineInt memory keys.rev) places info.revision }

variable {memory} in
/-- Both functions return, and the tags have been recorded. -/
def WalksAtags (keys : CmdlineKeys memory) (atags : UInt32) (places : List UInt32) : Prop :=
  (∃ rounds detected, atagsDetect keys rounds atags = .ok detected ∧
    detected.info = recordedInfo keys places ⟨0, 0, 0, 0, 0⟩) ∧
  ∃ rounds printed, atagsDump memory rounds atags = .ok printed

end

/-! ## One loop -/

section Loop

variable {memory : Memory} {σ : Type} {round : UInt32 → σ → Except Stuck (AtagRound σ)}
  {tags : UInt32} {places : List UInt32}

theorem atagKind_eq_none_iff {tag : UInt32} : atagKind tag = .none ↔ tag = atagNone := by
  constructor
  · intro h
    unfold atagKind at h
    grind
  · rintro rfl
    rfl

/-- A loop over tags that are all known. What holds in front of each tag is taken to the next one, and
at the end of the list the loop returns. -/
theorem atagLoop_known {holds : List UInt32 → σ → Prop} {after : σ → Prop}
    (hstand : AtagsStand memory tags places)
    (hknown : ∀ place ∈ places, kindAt memory place ≠ .unknown)
    (hround : ∀ place places s, kindAt memory place ≠ .unknown → kindAt memory place ≠ .none →
      holds (place :: places) s → ∃ s', round place s = .ok (.next (nextTag memory place) s') ∧
        holds places s')
    (hend : ∀ place s, kindAt memory place = .none → holds [] s →
      ∃ s', round place s = .ok (.done s') ∧ after s')
    {s : σ} (h : holds places s) :
    ∃ s', atagLoop round (places.length + 1) tags s = .ok s' ∧ after s' := by
  induction places generalizing tags s with
  | nil =>
      obtain ⟨s', hs', hafter⟩ := hend tags s (atagKind_eq_none_iff.2 hstand) h
      rw [atagLoop, hs']
      exact ⟨s', rfl, hafter⟩
  | cons place places ih =>
      obtain ⟨rfl, -, hne, hrest⟩ := hstand
      obtain ⟨hplace, hplaces⟩ := List.forall_mem_cons.1 hknown
      obtain ⟨s', hs', hnext⟩ := hround place places s hplace (mt atagKind_eq_none_iff.1 hne) h
      rw [atagLoop, hs']
      exact ih hrest hplaces hnext

/-- At a tag that it does not know the loop stays for ever. -/
theorem atagLoop_stays (hround : ∀ s, ∃ s', round tags s = .ok (.next tags s')) (rounds : Nat)
    (s : σ) : atagLoop round rounds tags s = .error .endless := by
  induction rounds generalizing s with
  | zero => rfl
  | succ rounds ih =>
      obtain ⟨s', hs'⟩ := hround s
      rw [atagLoop, hs']
      exact ih s'

/-- A loop that returns has met no unknown tag. -/
theorem known_of_atagLoop (hstand : AtagsStand memory tags places)
    (hnext : ∀ place s s', kindAt memory place ≠ .none → kindAt memory place ≠ .unknown →
      round place s = .ok s' → ∃ s'', s' = .next (nextTag memory place) s'')
    (hstays : ∀ place s, kindAt memory place = .unknown → ∃ s', round place s = .ok (.next place s'))
    {rounds : Nat} {s final : σ} (h : atagLoop round rounds tags s = .ok final) :
    ∀ place ∈ places, kindAt memory place ≠ .unknown := by
  induction places generalizing tags rounds s with
  | nil => exact fun place hplace => absurd hplace List.not_mem_nil
  | cons place places ih =>
      obtain ⟨rfl, -, hne, hrest⟩ := hstand
      have hknown : kindAt memory place ≠ .unknown := by
        intro hunknown
        rw [atagLoop_stays fun s => hstays place s hunknown] at h
        cases h
      refine List.forall_mem_cons.2 ⟨hknown, ?_⟩
      cases rounds with
      | zero => cases h
      | succ rounds =>
          rw [atagLoop] at h
          cases hs : round place s with
          | error stuck =>
              rw [hs] at h
              cases h
          | ok next =>
              rw [hs] at h
              obtain ⟨s', rfl⟩ := hnext place s next (mt atagKind_eq_none_iff.1 hne) hknown hs
              exact ih hrest h

/-- The last tag of the list holds a NUL. -/
theorem AtagsStand.exists_zero (h : AtagsStand memory tags places) : ∃ x, memory x = 0 := by
  induction places generalizing tags with
  | nil =>
      have hend : memory.loadWord (tags + UInt32.ofNat (4 * 1)) = 0 := h
      refine ⟨tags + UInt32.ofNat (4 * 1) + UInt32.ofNat 0, ?_⟩
      have hbyte := @Memory.wordByte_loadWord memory (tags + UInt32.ofNat (4 * 1)) 0 (by decide)
      rw [← hbyte, hend]
      rfl
  | cons place places ih => exact ih h.2.2.2

end Loop

/-! ## Both functions -/

section Both

variable {memory : Memory} {tags : UInt32} {places : List UInt32} {keys : CmdlineKeys memory}
  {kind : AtagKind} {read : UInt32 → UInt32} {value x : UInt32}

theorem lastOf_cons_of_ne (h : kindAt memory tags ≠ kind) :
    lastOf memory kind read (tags :: places) value = lastOf memory kind read places value := by
  rw [lastOf, List.filter_cons_of_neg (by simpa using h), lastOf]

/-- A later tag of the same kind counts. -/
theorem lastOf_cons_of_eq (h : kindAt memory tags = kind) :
    lastOf memory kind read (tags :: places) value =
      lastOf memory kind read places (read tags) := by
  rw [lastOf, List.filter_cons_of_pos (by simpa using h), List.getLast?_cons, lastOf]
  cases (places.filter fun place => kindAt memory place = kind).getLast? <;> rfl

theorem parse_cmdlineInt (hx : memory x = 0) (key tags : UInt32) :
    ∃ parsed, parseCmdlineInt memory (tagCmdline tags) key = .ok parsed ∧
      UInt32.ofInt parsed.result = cmdlineInt memory key tags := by
  obtain ⟨parsed, hparsed⟩ := parseCmdlineInt_ok hx (tagCmdline tags) key
  refine ⟨parsed, hparsed, ?_⟩
  rw [cmdlineInt, hparsed]
  rfl

/-- A round of `atags_detect` at a known tag records what the tag says. -/
theorem detectRound_next (hx : memory x = 0) (hunknown : kindAt memory tags ≠ .unknown)
    (hnone : kindAt memory tags ≠ .none) (s : Detecting) :
    ∃ s', detectRound keys tags s = .ok (.next (nextTag memory tags) s') ∧
      ∀ places, recordedInfo keys places s'.info = recordedInfo keys (tags :: places) s.info := by
  by_cases hmem : kindAt memory tags = .mem
  · refine ⟨_, by rw [detectRound, hmem], fun places => ?_⟩
    have hne : kindAt memory tags ≠ .cmdline := by rw [hmem]; decide
    simp only [recordedInfo, lastOf_cons_of_eq hmem, lastOf_cons_of_ne hne]
  · by_cases hcmdline : kindAt memory tags = .cmdline
    · obtain ⟨width, hwidth, hx'⟩ := parse_cmdlineInt hx keys.fbwidth tags
      obtain ⟨height, hheight, hy'⟩ := parse_cmdlineInt hx keys.fbheight tags
      obtain ⟨rev, hrev, hrev'⟩ := parse_cmdlineInt hx keys.rev tags
      refine ⟨_, by rw [detectRound, hcmdline]; simp only [detectCmdline, hwidth, hheight, hrev]; rfl,
        fun places => ?_⟩
      simp only [recordedInfo, lastOf_cons_of_eq hcmdline, lastOf_cons_of_ne hmem, hx', hy', hrev']
    · -- the other tags are passed over
      refine ⟨s, ?_, fun places => ?_⟩
      · rw [detectRound]
        cases hkind : kindAt memory tags <;> first | rfl | contradiction
      · simp only [recordedInfo, lastOf_cons_of_ne hmem, lastOf_cons_of_ne hcmdline]

/-- The pieces are printed: the length gets smaller by 256 in every round. -/
theorem chunkLoop_ok {cmdline count : UInt32} {length : Int} {chunks rounds : Nat}
    (h : length ≤ 256 * chunks) (hrounds : chunks < rounds) :
    ∃ calls, chunkLoop cmdline rounds length count = .ok calls := by
  induction chunks generalizing rounds length count with
  | zero =>
      obtain ⟨rounds, rfl⟩ := Nat.exists_eq_succ_of_ne_zero (Nat.ne_of_gt hrounds)
      have hdone : ¬ 0 < length := Int.not_lt.2 h
      rw [chunkLoop, if_neg hdone]
      exact ⟨[], rfl⟩
  | succ chunks ih =>
      obtain ⟨rounds, rfl⟩ := Nat.exists_eq_succ_of_ne_zero (Nat.ne_of_gt (Nat.zero_lt_of_lt hrounds))
      have hless : length - 256 ≤ 256 * chunks := by omega
      obtain ⟨calls, hcalls⟩ := @ih (count + 1) (length - 256) rounds hless
        (Nat.lt_of_succ_lt_succ hrounds)
      rw [chunkLoop, hcalls]
      split
      · exact ⟨_, rfl⟩
      · exact ⟨[], rfl⟩

theorem dumpLine_ok (cmdline : UInt32) (length : Int) :
    ∃ lines, dumpLine cmdline length = .ok lines := by
  have hle : length ≤ 256 * (length.toNat : Int) := by omega
  obtain ⟨calls, hcalls⟩ := @chunkLoop_ok cmdline 0 length _ (length.toNat + 1) hle
    (Nat.lt_succ_self _)
  rw [dumpLine, hcalls]
  exact ⟨_, rfl⟩

theorem dumpCmdline_ok (hx : memory x = 0) (cmdline : UInt32) :
    ∃ lines, dumpCmdline memory cmdline = .ok lines := by
  obtain ⟨length, hlength⟩ := Kernel.strlen_ok hx cmdline
  rw [dumpCmdline, hlength]
  exact dumpLine_ok cmdline _

/-- Every tag is printed. -/
theorem dumpTag_ok (hx : memory x = 0) (tags : UInt32) : ∃ lines, dumpTag memory tags = .ok lines := by
  have hcmdline := dumpCmdline_ok hx (tagCmdline tags)
  rw [dumpTag]
  cases kindAt memory tags with
  | cmdline => exact hcmdline
  | _ => exact ⟨_, rfl⟩

theorem dumpRound_next (hx : memory x = 0) (hunknown : kindAt memory tags ≠ .unknown)
    (hnone : kindAt memory tags ≠ .none) (printed : List PrintkCall) :
    ∃ printed', dumpRound memory tags printed = .ok (.next (nextTag memory tags) printed') := by
  obtain ⟨lines, hlines⟩ := dumpTag_ok hx tags
  refine ⟨printed ++ lines, ?_⟩
  rw [dumpRound, hlines]
  cases hkind : kindAt memory tags with
  | none => exact absurd hkind hnone
  | unknown => exact absurd hkind hunknown
  | _ => rfl

/-- The only thing that keeps the two functions from walking through a list is an unknown tag. -/
theorem atags_iff (keys : CmdlineKeys memory) (h : AtagsStand memory tags places) :
    WalksAtags keys tags places ↔ ∀ place ∈ places, kindAt memory place ≠ .unknown := by
  obtain ⟨x, hx⟩ := h.exists_zero
  constructor
  · rintro ⟨⟨rounds, detected, hdetected, -⟩, -⟩
    refine known_of_atagLoop h ?_ ?_ hdetected
    · intro place s s' hnone hunknown hs
      obtain ⟨s'', hnext, -⟩ := @detectRound_next memory place keys x hx hunknown hnone s
      exact ⟨s'', Except.ok.inj (hs.symm.trans hnext)⟩
    · intro place s hunknown
      rw [detectRound, hunknown]
      exact ⟨_, rfl⟩
  · intro hknown
    let final := recordedInfo keys places ⟨0, 0, 0, 0, 0⟩
    have hdetect := @atagLoop_known memory Detecting (detectRound keys) tags places
      (fun places s => recordedInfo keys places s.info = final) (fun s => s.info = final) h hknown
    have hdump := @atagLoop_known memory (List PrintkCall) (dumpRound memory) tags places
      (fun _ _ => True) (fun _ => True) h hknown
    constructor
    · obtain ⟨detected, hdetected, hinfo⟩ := hdetect
        (fun place places s hunknown hnone hs => by
          obtain ⟨s', hs', hsame⟩ := @detectRound_next memory place keys x hx hunknown hnone s
          exact ⟨s', hs', (hsame places).trans hs⟩)
        (fun place s hnone hs => ⟨s, by rw [detectRound, hnone], hs⟩)
        (s := ⟨⟨0, 0, 0, 0, 0⟩, []⟩) rfl
      exact ⟨_, detected, hdetected, hinfo⟩
    · obtain ⟨printed, hprinted, -⟩ := hdump
        (fun place places s hunknown hnone _ => by
          obtain ⟨s', hs'⟩ := dumpRound_next hx hunknown hnone s
          exact ⟨s', hs', trivial⟩)
        (fun place s hnone _ => by
          obtain ⟨lines, hlines⟩ := dumpTag_ok hx place
          exact ⟨s ++ lines, by rw [dumpRound, hlines, hnone]; rfl, trivial⟩)
        (s := [⟨"Dumping ATAGs provied by bootloader:\n", []⟩]) trivial
      exact ⟨_, printed, hprinted⟩

end Both

/-- Tags at the beginning of the memory, and the keys behind them. -/
def tagMemory (words : List UInt32) : Memory := fun a =>
  if a < 64 then wordByte (words.getD (a.toNat / 4) 0) (a.toNat % 4)
  else (fbwidthName ++ 0 :: (fbheightName ++ 0 :: (revName ++ [0]))).getD (a.toNat - 64) 0

/-- The places of the keys. -/
def tagKeys (words : List UInt32) : CmdlineKeys (tagMemory words) where
  fbwidth := 64
  fbheight := 72
  rev := 81
  fbwidth_stands := by simp [Terminated, tagMemory, fbwidthName, fbheightName, revName]
  fbheight_stands := by simp [Terminated, tagMemory, fbwidthName, fbheightName, revName]
  rev_stands := by simp [Terminated, tagMemory, fbwidthName, fbheightName, revName]

/-- A tag for the memory between the first and the last one. -/
def memWords : List UInt32 := [2, atagCore, 4, atagMem, 0x10000000, 0, 0, atagNone]

/-- A tag that the loops do not know. -/
def unknownWords : List UInt32 := [2, 0x54410010, 0, atagNone]

theorem atags_iff_mem : WalksAtags (tagKeys memWords) 0 [0, 8] := by
  have hstand : AtagsStand (tagMemory memWords) 0 [0, 8] := by
    simp only [AtagsStand]
    decide
  refine (atags_iff (tagKeys memWords) hstand).2 (List.forall_mem_cons.2 ⟨?_, ?_⟩)
  · decide
  · refine List.forall_mem_singleton.2 ?_
    decide

/-- A list with an unknown tag is not walked through. -/
theorem not_atags : ¬ ∀ (memory : Memory) (keys : CmdlineKeys memory) (tags : UInt32)
    (places : List UInt32), AtagsStand memory tags places → WalksAtags keys tags places := by
  intro hall
  have hstand : AtagsStand (tagMemory unknownWords) 0 [0] := by
    simp only [AtagsStand]
    decide
  obtain ⟨⟨rounds, detected, hdetected, -⟩, -⟩ := hall _ (tagKeys unknownWords) 0 [0] hstand
  have hunknown : kindAt (tagMemory unknownWords) 0 = .unknown := by decide
  have hstays : ∀ s, ∃ s', detectRound (tagKeys unknownWords) 0 s = .ok (.next 0 s') := by
    intro s
    rw [detectRound, hunknown]
    exact ⟨_, rfl⟩
  rw [atagsDetect, atagLoop_stays hstays] at hdetected
  cases hdetected

end Vmwos
