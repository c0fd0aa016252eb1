import Vmwos.Vlibc.PrintfNumbers

/-!
# Printing an uptime

`time_pretty` takes days, hours and minutes out of a number of seconds, each when the time exceeds
the unit. A time that equals the unit stays whole: 60 seconds are printed as 60 seconds.
`prettyTime_iff` says for which times the text is the one with all numbers in their ranges.
-/

set_option autoImplicit false

namespace Vmwos

open Library Format Printf

/-! ## The function -/

/-- `days`, `hours`, `minutes` and `seconds`. -/
structure TimeUnits where
  days : Int
  hours : Int
  minutes : Int
  seconds : Int
  deriving DecidableEq, Repr

/-- One of the three reductions: how often the unit is taken out of the time, and what is left. -/
def reduceTime (unit time : Int) : Int × Int :=
  if time > unit then (time.tdiv unit, time - time.tdiv unit * unit) else (0, time)

/-- The three reductions of `time_pretty`. -/
def timeUnits (time : Int) : TimeUnits :=
  let (days, time) := reduceTime (24 * 60 * 60) time
  let (hours, time) := reduceTime (60 * 60) time
  let (minutes, time) := reduceTime 60 time
  ⟨days, hours, minutes, time⟩

/-- "%d" -/
def numberItem (n : Int) : Item := .decimal false noWidth (UInt32.ofInt n)

/-- "%dd " -/
def daysItems (n : Int) : List Item := [numberItem n, .literal 100 (by decide), .literal 32 (by decide)]

/-- "%dh " -/
def hoursItems (n : Int) : List Item := [numberItem n, .literal 104 (by decide), .literal 32 (by decide)]

/-- "%dm " -/
def minutesItems (n : Int) : List Item :=
  [numberItem n, .literal 109 (by decide), .literal 32 (by decide)]

/-- "%ds" -/
def secondsItems (n : Int) : List Item := [numberItem n, .literal 115 (by decide)]

/-- The format that is chosen, with its arguments. -/
def timeItems (u : TimeUnits) : List Item :=
  if u.days ≠ 0 then
    daysItems u.days ++ (hoursItems u.hours ++ (minutesItems u.minutes ++ secondsItems u.seconds))
  else if u.hours ≠ 0 then
    hoursItems u.hours ++ (minutesItems u.minutes ++ secondsItems u.seconds)
  else if u.minutes ≠ 0 then minutesItems u.minutes ++ secondsItems u.seconds
  else secondsItems u.seconds

/-- `MAX_PRINT_SIZE` -/
abbrev maxPrintfSize : UInt32 := 256

/-- `time_pretty`: the string in the buffer when it returns. -/
def timePretty (room : Nat) (time : Int) (buffer : Nat → UInt8) : Except Stuck CString :=
  let items := timeItems (timeUnits time)
  let buffer := Function.update buffer 0 0
  match vsnprintfInternal room maxPrintfSize (render items) (args items) buffer with
  | .error e => .error e
  | .ok (result, buffer) =>
      let string := Function.update buffer result.toNat 0
      .ok ((List.range result.toNat).map string)

/-! ## What is to be printed -/

/-- A time in days, hours, minutes and seconds. -/
structure DayTime where
  days : Nat
  hours : Nat
  minutes : Nat
  seconds : Nat
  hours_lt : hours < 24
  minutes_lt : minutes < 60
  seconds_lt : seconds < 60

namespace DayTime

/-- The time in seconds. -/
def total (t : DayTime) : Nat := t.days * 86400 + t.hours * 3600 + t.minutes * 60 + t.seconds

/-- The units with their letters, without the leading ones that are zero. -/
def shown (t : DayTime) : List (Nat × UInt8) :=
  [(t.days, 100), (t.hours, 104), (t.minutes, 109)].dropWhile (fun q => q.1 = 0) ++
    [(t.seconds, 115)]

/-- The text of the units, with blanks between them. -/
def text (t : DayTime) : CString :=
  List.intercalate [32] (t.shown.map fun q => digits 10 q.1 ++ [q.2])

/-- The time that is a number of seconds. -/
def ofSeconds (n : Nat) : DayTime where
  days := n / 86400
  hours := n % 86400 / 3600
  minutes := n % 3600 / 60
  seconds := n % 60
  hours_lt := by omega
  minutes_lt := by omega
  seconds_lt := Nat.mod_lt n (by decide)

theorem total_ofSeconds (n : Nat) : (ofSeconds n).total = n := by
  simp only [total, ofSeconds]
  omega

/-- There is one such time. -/
theorem eq_ofSeconds (t : DayTime) : t = ofSeconds t.total := by
  obtain ⟨d, h, m, s, hh, hm, hs⟩ := t
  simp only [ofSeconds, total, DayTime.mk.injEq]
  refine ⟨?_, ?_, ?_, ?_⟩
  · omega
  · omega
  · omega
  · omega

end DayTime

/-- What is printed stands for the time, with every number in its range. -/
def PrettyTime (room : Nat) (time : Int) (buffer : Nat → UInt8) : Prop :=
  ∃ t : DayTime, (t.total : Int) = time ∧ timePretty room time buffer = .ok t.text

/-! ## The text that is printed -/

section Text

variable {room d h m s n : Nat}

/-- A number with its letter. -/
def unitText (n : Nat) (letter : UInt8) : CString := digits 10 n ++ [letter]

/-- The text for four numbers, by the branches of the code. -/
def unitsText (d h m s : Nat) : CString :=
  if d ≠ 0 then
    unitText d 100 ++ 32 :: (unitText h 104 ++ 32 :: (unitText m 109 ++ 32 :: unitText s 115))
  else if h ≠ 0 then unitText h 104 ++ 32 :: (unitText m 109 ++ 32 :: unitText s 115)
  else if m ≠ 0 then unitText m 109 ++ 32 :: unitText s 115
  else unitText s 115

/-- The leading units are left out one after another. -/
theorem DayTime.text_eq (t : DayTime) : t.text = unitsText t.days t.hours t.minutes t.seconds := by
  unfold unitsText DayTime.text DayTime.shown
  by_cases hd : t.days = 0
  · by_cases hh : t.hours = 0
    · by_cases hm : t.minutes = 0
      · simp [hd, hh, hm, unitText]
      · simp [hd, hh, hm, unitText]
    · simp [hd, hh, unitText]
  · simp [hd, unitText]

theorem libcText_numberItem (hn : n < 2147483648) : (numberItem n).libcText = digits 10 n := by
  have hlt : n < 2 ^ 32 := Nat.lt_trans hn (by decide)
  have hnat : UInt32.ofInt (n : Int) = UInt32.ofNat n := by
    have hmod : ((n : Int) % 2 ^ 32).toNat = n := by omega
    rw [UInt32.ofInt, hmod]
  have htoNat : (UInt32.ofNat n).toNat = n := by
    rw [UInt32.toNat_ofNat']
    exact Nat.mod_eq_of_lt hlt
  have hpositive : isNegative (UInt32.ofNat n) = false := by
    refine decide_eq_false fun hneg => ?_
    have hle := (isNegative32 _).1 hneg
    rw [htoNat] at hle
    exact absurd hle (Nat.not_le.2 hn)
  rw [numberItem, Item.libcText, padding_noWidth, hnat, magnitude, hpositive, htoNat]
  rfl

/-- The text of "%dx " with a letter. -/
theorem libcResult_unit (hn : n < 2147483648) {letter : UInt8} (hletter : letter ≠ 37)
    (hblank : (32 : UInt8) ≠ 37) (items : List Item) :
    libcResult ([numberItem n, .literal letter hletter, .literal 32 hblank] ++ items) =
      unitText n letter ++ 32 :: libcResult items := by
  simp only [libcResult, List.map_append, List.flatten_append, List.map_cons, List.map_nil,
    List.flatten_cons, List.flatten_nil, List.append_nil, libcText_numberItem hn, unitText,
    List.append_assoc]
  rfl

/-- The format with its arguments gives the text. -/
theorem libcResult_timeItems (hd : d < 2147483648) (hh : h < 2147483648) (hm : m < 2147483648)
    (hs : s < 2147483648) : libcResult (timeItems ⟨d, h, m, s⟩) = unitsText d h m s := by
  have hseconds : libcResult (secondsItems s) = unitText s 115 := by
    simp only [libcResult, secondsItems, List.map_cons, List.map_nil, List.flatten_cons,
      List.flatten_nil, List.append_nil, libcText_numberItem hs]
    rfl
  unfold timeItems unitsText daysItems hoursItems minutesItems
  simp only [Ne, Int.natCast_eq_zero]
  split
  · rw [libcResult_unit hd, libcResult_unit hh, libcResult_unit hm, hseconds]
  · split
    · rw [libcResult_unit hh, libcResult_unit hm, hseconds]
    · split
      · rw [libcResult_unit hm, hseconds]
      · rw [hseconds]

theorem length_unitText_le (hn : n < 2147483648) (letter : UInt8) :
    (unitText n letter).length ≤ 11 := by
  have hlength := @length_digits_le 10 n 10 (by decide) (by decide)
    (Nat.lt_trans hn (by decide))
  rw [unitText, List.length_append, List.length_singleton]
  exact Nat.succ_le_succ hlength

theorem length_unitsText_le (hd : d < 2147483648) (hh : h < 2147483648) (hm : m < 2147483648)
    (hs : s < 2147483648) : (unitsText d h m s).length ≤ 47 := by
  have hdays := length_unitText_le hd 100
  have hhours := length_unitText_le hh 104
  have hminutes := length_unitText_le hm 109
  have hseconds := length_unitText_le hs 115
  unfold unitsText
  split
  · simp only [List.length_append, List.length_cons]
    omega
  · split
    · simp only [List.length_append, List.length_cons]
      omega
    · split
      · simp only [List.length_append, List.length_cons]
        omega
      · exact Nat.le_trans hseconds (by decide)

/-- The seconds are printed in any case. -/
theorem secondsItem_mem (u : TimeUnits) : numberItem u.seconds ∈ timeItems u := by
  have hseconds : numberItem u.seconds ∈ secondsItems u.seconds := List.mem_cons_self
  unfold timeItems
  split
  · exact List.mem_append_right _ (List.mem_append_right _ (List.mem_append_right _ hseconds))
  · split
    · exact List.mem_append_right _ (List.mem_append_right _ hseconds)
    · split
      · exact List.mem_append_right _ hseconds
      · exact hseconds

/-- Nothing is printed when there is no room behind `int_buffer`. -/
theorem timePretty_stuck {time : Int} (hd : d < 2147483648) (hh : h < 2147483648)
    (hm : m < 2147483648) (hs : s < 2147483648) (hunits : timeUnits time = ⟨d, h, m, s⟩)
    (buffer : Nat → UInt8) : timePretty intBufferSize time buffer = .error .badAccess := by
  have hlength := length_unitsText_le hd hh hm hs
  rw [← libcResult_timeItems hd hh hm hs, length_libcResult] at hlength
  have hformat := @format_decimal maxPrintfSize (timeItems ⟨d, h, m, s⟩) (by decide)
    (Nat.le_trans (Nat.add_le_add_right hlength 2) (by decide)) _ (secondsItem_mem _) trivial
    (Function.update buffer 0 0)
  unfold timePretty
  simp only [hunits, vsnprintfInternal, hformat]

/-- The string that is left in the buffer. -/
theorem timePretty_eq {time : Int} (hroom : intBufferSize < room) (hd : d < 2147483648)
    (hh : h < 2147483648) (hm : m < 2147483648) (hs : s < 2147483648)
    (hunits : timeUnits time = ⟨d, h, m, s⟩) (buffer : Nat → UInt8) :
    timePretty room time buffer = .ok (unitsText d h m s) := by
  have htext := libcResult_timeItems hd hh hm hs
  have hlength := length_unitsText_le hd hh hm hs
  have hformat := @format_items _ _ maxPrintfSize (timeItems ⟨d, h, m, s⟩) (formatter_stores room)
    (printf_readsItems room) Item.libcText (fun item _ => text_libc (Nat.le_of_lt hroom) item fun _ => hroom) (by decide)
    (by rw [← libcResult, htext]; exact Nat.le_trans (Nat.add_le_add_right hlength 2) (by decide))
    (Function.update buffer 0 0)
  rw [← libcResult, htext] at hformat
  unfold timePretty
  simp only [hunits, vsnprintfInternal, hformat, Int.toNat_natCast]
  refine congrArg Except.ok (Eq.trans (List.map_congr_left fun i hi => ?_)
    (map_withText (Function.update buffer 0 0) (unitsText d h m s)))
  exact Function.update_of_ne (Nat.ne_of_lt (List.mem_range.1 hi)) _ _

end Text

/-! ## The reductions -/

section Reductions

variable {room n unit : Nat}

/-- A time other than the unit is divided by it. -/
theorem reduceTime_of_ne (hne : n ≠ unit) :
    reduceTime unit n = (((n / unit : Nat) : Int), ((n % unit : Nat) : Int)) := by
  unfold reduceTime
  split
  · rename_i hlt
    have hrest : n % unit = n - n / unit * unit := by
      rw [Nat.mul_comm, Nat.mod_eq_sub]
    have hle : n / unit * unit ≤ n := Nat.div_mul_le_self n unit
    rw [hrest, Int.ofNat_sub hle]
    rfl
  · rename_i hle
    have hlt : n < unit := by omega
    rw [Nat.div_eq_of_lt hlt, Nat.mod_eq_of_lt hlt]
    rfl

/-- The unit itself is left whole. -/
theorem reduceTime_self (unit : Int) : reduceTime unit unit = (0, unit) :=
  if_neg (Int.lt_irrefl unit)

theorem timeUnits_eq {time days t₁ hours t₂ minutes t₃ : Int}
    (h₁ : reduceTime (24 * 60 * 60) time = (days, t₁)) (h₂ : reduceTime (60 * 60) t₁ = (hours, t₂))
    (h₃ : reduceTime 60 t₂ = (minutes, t₃)) : timeUnits time = ⟨days, hours, minutes, t₃⟩ := by
  unfold timeUnits
  simp only [h₁, h₂, h₃]

/-- No reduction meets its unit. -/
def NoUnitLeft (n : Nat) : Prop := n ≠ 86400 ∧ n % 86400 ≠ 3600 ∧ n % 3600 ≠ 60

theorem timeUnits_of_noUnitLeft (h : NoUnitLeft n) : timeUnits n =
    ⟨(n / 86400 : Nat), (n % 86400 / 3600 : Nat), (n % 3600 / 60 : Nat), (n % 60 : Nat)⟩ := by
  obtain ⟨hdays, hhours, hminutes⟩ := h
  have h₂ := reduceTime_of_ne hhours
  have h₃ := reduceTime_of_ne hminutes
  rw [Nat.mod_mod_of_dvd n (by decide)] at h₂ h₃
  exact timeUnits_eq (reduceTime_of_ne hdays) h₂ h₃

/-- An hour is left after the days: it is printed as 60 minutes. -/
theorem timeUnits_hour (h : n % 86400 = 3600) (hne : n ≠ 86400) :
    timeUnits n = ⟨(n / 86400 : Nat), (0 : Nat), (60 : Nat), (0 : Nat)⟩ := by
  have h₁ := reduceTime_of_ne hne
  rw [h] at h₁
  exact timeUnits_eq h₁ (reduceTime_self 3600) (reduceTime_of_ne (by decide))

/-- A minute is left after the hours: it is printed as 60 seconds. -/
theorem timeUnits_minute (h : n % 3600 = 60) :
    timeUnits n = ⟨(n / 86400 : Nat), (n % 86400 / 3600 : Nat), (0 : Nat), (60 : Nat)⟩ := by
  have hhours : n % 86400 % 3600 = 60 := (Nat.mod_mod_of_dvd n (by decide)).trans h
  have hne : n % 86400 ≠ 3600 := by
    intro heq
    rw [heq] at hhours
    exact absurd hhours (by decide)
  have hday : n ≠ 86400 := by
    rintro rfl
    exact absurd h (by decide)
  have h₂ := reduceTime_of_ne hne
  rw [hhours] at h₂
  exact timeUnits_eq (reduceTime_of_ne hday) h₂ (reduceTime_self 60)

/-- A day is left whole: it is printed as 24 hours. -/
theorem timeUnits_day :
    timeUnits (86400 : Nat) = ⟨(0 : Nat), (24 : Nat), (0 : Nat), (0 : Nat)⟩ := by decide

/-- 60 minutes are not printed as an hour is. -/
theorem unitsText_hour_ne (d : Nat) : unitsText d 0 60 0 ≠ unitsText d 1 0 0 := by
  unfold unitsText
  by_cases hd : d ≠ 0
  · rw [if_pos hd, if_pos hd]
    intro h
    have hrest := List.append_cancel_left h
    revert hrest
    decide
  · rw [if_neg hd, if_neg hd]
    decide

/-- 60 seconds are not printed as a minute is. -/
theorem unitsText_minute_ne (d h : Nat) : unitsText d h 0 60 ≠ unitsText d h 1 0 := by
  unfold unitsText
  by_cases hd : d ≠ 0
  · rw [if_pos hd, if_pos hd]
    intro heq
    have hrest := List.append_cancel_left (List.cons.inj (List.append_cancel_left heq)).2
    revert hrest
    decide
  · rw [if_neg hd, if_neg hd]
    by_cases hh : h ≠ 0
    · rw [if_pos hh, if_pos hh]
      intro heq
      have hrest := List.append_cancel_left heq
      revert hrest
      decide
    · rw [if_neg hh, if_neg hh]
      decide

/-- The four numbers of any time. -/
theorem exists_timeUnits (hn : n < 2147483648) : ∃ d h m s : Nat, d < 2147483648 ∧
    h < 2147483648 ∧ m < 2147483648 ∧ s < 2147483648 ∧ timeUnits n = ⟨d, h, m, s⟩ := by
  have hd : n / 86400 < 2147483648 := Nat.lt_of_le_of_lt (Nat.div_le_self _ _) hn
  have hh : n % 86400 / 3600 < 2147483648 := by omega
  by_cases hday : n = 86400
  · rw [hday]
    exact ⟨_, _, _, _, by decide, by decide, by decide, by decide, timeUnits_day⟩
  by_cases hhour : n % 86400 = 3600
  · exact ⟨_, _, _, _, hd, by decide, by decide, by decide, timeUnits_hour hhour hday⟩
  by_cases hminute : n % 3600 = 60
  · exact ⟨_, _, _, _, hd, hh, by decide, by decide, timeUnits_minute hminute⟩
  exact ⟨_, _, _, _, hd, hh, by omega, by omega, timeUnits_of_noUnitLeft ⟨hday, hhour, hminute⟩⟩

end Reductions

/-- The text has all numbers in their ranges exactly when no reduction meets its unit: the time is
not a day, what is left of it after the days is not an hour, and after the hours not a minute. The
byte behind `int_buffer` is needed for every number. -/
theorem prettyTime_iff (room : Nat) (time : Int) (buffer : Nat → UInt8)
    (hroom : intBufferSize ≤ room) (htime : 0 ≤ time) (hmax : time < 2147483648) :
    PrettyTime room time buffer ↔
      intBufferSize < room ∧ time ≠ 86400 ∧ time % 86400 ≠ 3600 ∧ time % 3600 ≠ 60 := by
  obtain ⟨n, rfl⟩ := Int.eq_ofNat_of_zero_le htime
  have hn : n < 2147483648 := Int.ofNat_lt.1 hmax
  have hcondition : ((n : Int) ≠ 86400 ∧ (n : Int) % 86400 ≠ 3600 ∧ (n : Int) % 3600 ≠ 60) ↔
      NoUnitLeft n := by
    unfold NoUnitLeft
    omega
  have hd : n / 86400 < 2147483648 := Nat.lt_of_le_of_lt (Nat.div_le_self _ _) hn
  have hh : n % 86400 / 3600 < 2147483648 := by omega
  rw [hcondition]
  constructor
  · rintro ⟨t, htotal, hprinted⟩
    have hroom : intBufferSize < room := by
      refine Nat.lt_of_le_of_ne hroom fun heq => ?_
      obtain ⟨d, h, m, s, hd, hh, hm, hs, hunits⟩ := exists_timeUnits hn
      rw [← heq, timePretty_stuck hd hh hm hs hunits] at hprinted
      cases hprinted
    have ht : t = DayTime.ofSeconds n := Int.ofNat.inj htotal ▸ t.eq_ofSeconds
    rw [ht, DayTime.text_eq] at hprinted
    have hne : n ≠ 86400 := by
      rintro rfl
      -- 24 hours
      rw [timePretty_eq hroom (by decide) (by decide) (by decide) (by decide) timeUnits_day]
        at hprinted
      revert hprinted
      decide
    refine ⟨hroom, hne, fun hhour => ?_, fun hminute => ?_⟩
    · rw [timePretty_eq hroom hd (by decide) (by decide) (by decide) (timeUnits_hour hhour hne)]
        at hprinted
      have hfields : (DayTime.ofSeconds n).hours = 1 ∧ (DayTime.ofSeconds n).minutes = 0 ∧
          (DayTime.ofSeconds n).seconds = 0 := by
        simp only [DayTime.ofSeconds]
        omega
      rw [hfields.1, hfields.2.1, hfields.2.2] at hprinted
      exact unitsText_hour_ne _ (Except.ok.inj hprinted)
    · rw [timePretty_eq hroom hd hh (by decide) (by decide) (timeUnits_minute hminute)] at hprinted
      have hfields : (DayTime.ofSeconds n).minutes = 1 ∧ (DayTime.ofSeconds n).seconds = 0 := by
        simp only [DayTime.ofSeconds]
        omega
      rw [hfields.1, hfields.2] at hprinted
      exact unitsText_minute_ne _ _ (Except.ok.inj hprinted)
  · rintro ⟨hroom, h⟩
    refine ⟨DayTime.ofSeconds n, congrArg Int.ofNat (DayTime.total_ofSeconds n), ?_⟩
    rw [DayTime.text_eq]
    exact timePretty_eq hroom hd hh (by omega) (by omega) (timeUnits_of_noUnitLeft h) buffer

/-- 90 seconds. -/
theorem prettyTime_iff_ninety : PrettyTime 33 90 (fun _ => 0) ↔
    intBufferSize < 33 ∧ (90 : Int) ≠ 86400 ∧ (90 : Int) % 86400 ≠ 3600 ∧ (90 : Int) % 3600 ≠ 60 :=
  prettyTime_iff 33 90 (fun _ => 0) (by decide) (by decide) (by decide)

/-- A minute. -/
theorem not_prettyTime : timePretty 33 60 (fun _ => 0) = .ok [54, 48, 115] ∧
    ¬ PrettyTime 33 60 (fun _ => 0) := by
  have hprinted : timePretty 33 60 (fun _ => 0) = .ok (unitsText 0 0 0 60) :=
    @timePretty_eq 33 0 0 0 60 60 (by decide) (by decide) (by decide) (by decide) (by decide)
      (by decide) _
  rw [hprinted]
  refine ⟨by decide, ?_⟩
  rintro ⟨t, htotal, htext⟩
  have ht : t = DayTime.ofSeconds 60 := Int.ofNat.inj htotal ▸ t.eq_ofSeconds
  rw [hprinted, ht, DayTime.text_eq] at htext
  exact unitsText_minute_ne 0 0 (Except.ok.inj htext)

end Vmwos
