import Mathlib.Order.SuccPred.Basic
import Mathlib.Data.Int.SuccPred
import Mathlib.Tactic.Ring
import Vmwos.Lib.Base

/-!
# The dates of `ls`

`print_date` takes years, months, days, hours and minutes off a number of seconds, one at a time.
`DateTime` is a date of the Gregorian calendar, also before its beginning, with its place on the
line of seconds; `printDate_correct` says that the one printed is the one whose place the number is.
-/

set_option autoImplicit false

namespace Vmwos

/-! ## The function -/

/-- `leap_year` -/
def leapYear (year : Int) : Bool := year % 4 = 0 ∧ (year % 100 ≠ 0 ∨ year % 400 = 0)

/-- `seconds_in_year` -/
def secondsInYear (year : Int) : Int := (365 + if leapYear year then 1 else 0) * 24 * 60 * 60

/-- `month_days` -/
def monthDays : List Int := [31, 28, 31, 30, 31, 30, 31, 31, 30, 31, 30, 31]

/-- `month_names` -/
def monthNames : List String :=
  ["Jan", "Feb", "Mar", "Apr", "May", "Jun", "Jul", "Aug", "Sep", "Oct", "Nov", "Dec"]

/-- `days_in_month`, none when the index is behind the table. -/
def daysInMonth (leap : Bool) (month : Nat) : Option Int :=
  monthDays[month]?.map fun days => if month = 1 ∧ leap then days + 1 else days

/-- The loop of the years. -/
def yearLoop : (fuel : Nat) → (year s : Int) → Except Stuck (Int × Int)
  | 0, _, _ => .error .endless
  | fuel + 1, year, s =>
      if s < secondsInYear year then .ok (year, s)
      else yearLoop fuel (year + 1) (s - secondsInYear year)

/-- The loop of the months. -/
def monthLoop (leap : Bool) : (fuel : Nat) → (month : Nat) → (s : Int) → Except Stuck (Nat × Int)
  | 0, _, _ => .error .endless
  | fuel + 1, month, s =>
      match daysInMonth leap month with
      | none => .error .badAccess
      | some days =>
          if s < days * (24 * 60 * 60) then .ok (month, s)
          else monthLoop leap fuel (month + 1) (s - days * (24 * 60 * 60))

/-- The loop of the days, the hours or the minutes. -/
def unitLoop (unit : Int) : (fuel : Nat) → (count s : Int) → Except Stuck (Int × Int)
  | 0, _, _ => .error .endless
  | fuel + 1, count, s =>
      if s < unit then .ok (count, s) else unitLoop unit fuel (count + 1) (s - unit)

/-- The arguments of the `printf`. -/
structure PrintedDate where
  day : Int
  monthName : String
  year : Int
  hour : Int
  min : Int
  seconds : Int
  deriving DecidableEq, Repr

/-- `print_date`, with at most `fuel` rounds for each loop. -/
def printDate (fuel : Nat) (s : Int) : Except Stuck PrintedDate := do
  let (year, s) ← yearLoop fuel 1970 s
  let (month, s) ← monthLoop (leapYear year) fuel 0 s
  let (day, s) ← unitLoop (24 * 60 * 60) fuel 0 s
  let (hour, s) ← unitLoop (60 * 60) fuel 0 s
  let (min, seconds) ← unitLoop 60 fuel 0 s
  match monthNames[month]? with
  | none => .error .badAccess
  | some monthName => return ⟨day + 1, monthName, year, hour, min, seconds⟩

/-! ## The calendar -/

/-- The days from the first day of the year 1 to the first day of a year. -/
def daysBeforeYear (year : Int) : Int :=
  365 * (year - 1) + (year - 1) / 4 - (year - 1) / 100 + (year - 1) / 400

/-- The days of a month. -/
def monthLength (leap : Bool) (month : Nat) : Nat :=
  if month = 1 ∧ leap then 29 else [31, 28, 31, 30, 31, 30, 31, 31, 30, 31, 30, 31].getD month 0

/-- The days of a year before a month. -/
def daysBeforeMonth (leap : Bool) (month : Nat) : Nat :=
  ((List.range month).map (monthLength leap)).sum

/-- A date with a time. Months count from 0, days from 1. -/
@[ext]
structure DateTime where
  year : Int
  month : Nat
  day : Nat
  hour : Nat
  min : Nat
  sec : Nat
  month_lt : month < 12
  day_pos : 0 < day
  day_le : day ≤ monthLength (leapYear year) month
  hour_lt : hour < 24
  min_lt : min < 60
  sec_lt : sec < 60

namespace DateTime

/-- The days from 1970-01-01. -/
def dayNumber (d : DateTime) : Int :=
  daysBeforeYear d.year - daysBeforeYear 1970 + daysBeforeMonth (leapYear d.year) d.month +
    (d.day - 1)

/-- The seconds from 1970-01-01 00:00:00. -/
def instant (d : DateTime) : Int := d.dayNumber * 86400 + d.hour * 3600 + d.min * 60 + d.sec

/-- The date as it is printed. -/
def printed (d : DateTime) : PrintedDate :=
  ⟨d.day, monthNames.getD d.month "", d.year, d.hour, d.min, d.sec⟩

end DateTime

section Calendar

variable {leap : Bool} {year s t : Int} {month : Nat}

/-- A year is as long as the function says. -/
theorem daysBeforeYear_succ (year : Int) :
    daysBeforeYear (year + 1) = daysBeforeYear year + (365 + if leapYear year then 1 else 0) := by
  have hleap : leapYear year = true ↔ year % 4 = 0 ∧ (year % 100 ≠ 0 ∨ year % 400 = 0) :=
    decide_eq_true_iff
  unfold daysBeforeYear
  by_cases h : leapYear year = true
  · have hcases := hleap.1 h
    rw [if_pos h]
    omega
  · have hcases : ¬ (year % 4 = 0 ∧ (year % 100 ≠ 0 ∨ year % 400 = 0)) :=
      fun hc => h (hleap.2 hc)
    rw [if_neg h]
    omega

theorem secondsInYear_eq (year : Int) :
    secondsInYear year = (daysBeforeYear (year + 1) - daysBeforeYear year) * 86400 := by
  rw [daysBeforeYear_succ, secondsInYear]
  ring

theorem daysBeforeYear_lt {year year' : Int} (h : year < year') :
    daysBeforeYear year < daysBeforeYear year' := by
  have hmono : StrictMono daysBeforeYear := by
    refine strictMono_int_of_lt_succ fun year => ?_
    rw [daysBeforeYear_succ]
    split
    · omega
    · omega
  exact hmono h

theorem daysBeforeYear_le (year year' : Int) (h : year ≤ year') :
    daysBeforeYear year ≤ daysBeforeYear year' := by
  rcases eq_or_lt_of_le h with rfl | hlt
  · exact le_refl _
  · exact le_of_lt (daysBeforeYear_lt hlt)

theorem daysBeforeMonth_succ (leap : Bool) (month : Nat) :
    daysBeforeMonth leap (month + 1) = daysBeforeMonth leap month + monthLength leap month := by
  rw [daysBeforeMonth, List.range_succ, List.map_append, List.sum_append]
  rfl

theorem daysBeforeMonth_mono (leap : Bool) : Monotone (daysBeforeMonth leap) :=
  monotone_nat_of_le_succ fun month => by
    rw [daysBeforeMonth_succ]
    exact Nat.le_add_right _ _

/-- The twelve months make the year. -/
theorem daysBeforeMonth_twelve (year : Int) :
    (daysBeforeMonth (leapYear year) 12 : Int) = daysBeforeYear (year + 1) - daysBeforeYear year := by
  rw [daysBeforeYear_succ]
  cases leapYear year with
  | true =>
      have hyear : daysBeforeMonth true 12 = 366 := by decide
      rw [hyear, if_pos rfl]
      omega
  | false =>
      have hyear : daysBeforeMonth false 12 = 365 := by decide
      rw [hyear, if_neg Bool.false_ne_true]
      omega

/-- The table of the function has the months of the calendar. -/
theorem daysInMonth_eq (leap : Bool) (hmonth : month < 12) :
    daysInMonth leap month = some (monthLength leap month : Int) ∧ 0 < monthLength leap month := by
  have hall : ∀ leap : Bool, ∀ month < 12,
      daysInMonth leap month = some (monthLength leap month : Int) ∧
        0 < monthLength leap month := by decide
  exact hall leap month hmonth

end Calendar

/-! ## The loops -/

section Loops

variable {leap : Bool} {year s unit count : Int} {month fuel : Nat}

/-- The unit is taken off as often as it goes. -/
theorem unitLoop_eq (hunit : 0 < unit) (hs : 0 ≤ s) (hfuel : s.toNat < fuel) :
    unitLoop unit fuel count s = .ok (count + s / unit, s % unit) := by
  induction fuel generalizing count s with
  | zero => exact absurd hfuel (Nat.not_lt_zero _)
  | succ fuel ih =>
      rw [unitLoop]
      by_cases hlt : s < unit
      · rw [if_pos hlt, Int.ediv_eq_zero_of_lt hs hlt, Int.emod_eq_of_lt hs hlt, Int.add_zero]
      · have hquotient : (s - unit) / unit = s / unit - 1 := by
          have hsum := Int.add_mul_ediv_right s (-1) hunit.ne'
          rwa [Int.neg_one_mul] at hsum
        rw [if_neg hlt, ih (by omega) (by omega), hquotient, Int.sub_emod_right]
        congr 2
        omega

/-- The years before the one that is found have been taken off. -/
theorem yearLoop_eq (hs : 0 ≤ s) (hfuel : s.toNat < fuel) :
    ∃ year' rest, yearLoop fuel year s = .ok (year', rest) ∧ 0 ≤ rest ∧ rest ≤ s ∧
      rest < (daysBeforeYear (year' + 1) - daysBeforeYear year') * 86400 ∧
      rest + (daysBeforeYear year' - daysBeforeYear year) * 86400 = s := by
  induction fuel generalizing year s with
  | zero => exact absurd hfuel (Nat.not_lt_zero _)
  | succ fuel ih =>
      have hlength := secondsInYear_eq year
      have hmono := daysBeforeYear_lt (Int.lt_succ year)
      rw [yearLoop]
      by_cases hlt : s < secondsInYear year
      · refine ⟨year, s, if_pos hlt, hs, le_refl s, hlength ▸ hlt, ?_⟩
        omega
      · obtain ⟨year', rest, hloop, hrest, hle, hlt', hsum⟩ :=
          @ih (year + 1) (s - secondsInYear year) (by omega) (by omega)
        refine ⟨year', rest, (if_neg hlt).trans hloop, hrest, by omega, hlt', ?_⟩
        omega

/-- The months before the one that is found have been taken off, and the table is not passed. -/
theorem monthLoop_eq (hs : 0 ≤ s) (hfuel : s.toNat < fuel) (hmonth : month < 12)
    (hlt : s < ((daysBeforeMonth leap 12 : Int) - daysBeforeMonth leap month) * 86400) :
    ∃ month' rest, monthLoop leap fuel month s = .ok (month', rest) ∧ month' < 12 ∧ 0 ≤ rest ∧
      rest ≤ s ∧ rest < (monthLength leap month' : Int) * 86400 ∧
      rest + ((daysBeforeMonth leap month' : Int) - daysBeforeMonth leap month) * 86400 = s := by
  induction fuel generalizing month s with
  | zero => exact absurd hfuel (Nat.not_lt_zero _)
  | succ fuel ih =>
      have hsucc := daysBeforeMonth_succ leap month
      have hsecs : ((24 : Int) * 60 * 60) = 86400 := rfl
      rw [monthLoop, (daysInMonth_eq leap hmonth).1, hsecs]
      dsimp only
      by_cases hround : s < (monthLength leap month : Int) * 86400
      · refine ⟨month, s, if_pos hround, hmonth, hs, le_refl s, hround, ?_⟩
        omega
      · -- the seconds left are those of a later month, so this is not the last one
        have hmonth' : month + 1 < 12 := by
          refine Nat.lt_of_le_of_ne hmonth fun heq => ?_
          rw [← heq, hsucc] at hlt
          push_cast at hlt
          omega
        have hpos := (daysInMonth_eq leap hmonth).2
        obtain ⟨month', rest, hloop, hlt', hrest, hle, hless, hsum⟩ :=
          @ih (s - (monthLength leap month : Int) * 86400) (month + 1) (by omega) (by omega) hmonth'
            (by rw [hsucc]; push_cast; omega)
        refine ⟨month', rest, (if_neg hround).trans hloop, hlt', hrest, by omega, hless, ?_⟩
        rw [hsucc] at hsum
        push_cast at hsum
        omega

end Loops

/-! ## One date for each second -/

/-- In consecutive stretches a place is in one of them. -/
theorem index_unique {α : Type*} [LinearOrder α] [SuccOrder α] {f : α → Int}
    (hf : ∀ i j, i ≤ j → f i ≤ f j) {i j : α} {t : Int} (hi : f i ≤ t)
    (hi' : t < f (Order.succ i)) (hj : f j ≤ t) (hj' : t < f (Order.succ j)) : i = j := by
  refine le_antisymm (not_lt.1 fun hlt => ?_) (not_lt.1 fun hlt => ?_)
  · have hle := hf _ _ (Order.succ_le_of_lt hlt)
    exact absurd (lt_of_lt_of_le hj' (le_trans hle hi)) (lt_irrefl t)
  · have hle := hf _ _ (Order.succ_le_of_lt hlt)
    exact absurd (lt_of_lt_of_le hi' (le_trans hle hj)) (lt_irrefl t)

namespace DateTime

variable {d d' : DateTime}

/-- The day of the year. -/
theorem dayOfYear (d : DateTime) :
    (daysBeforeMonth (leapYear d.year) d.month : Int) + (d.day - 1) <
      daysBeforeYear (d.year + 1) - daysBeforeYear d.year := by
  have hsucc := daysBeforeMonth_succ (leapYear d.year) d.month
  have hle := daysBeforeMonth_mono (leapYear d.year) (Nat.succ_le_of_lt d.month_lt)
  have hpos := d.day_pos
  have hday := d.day_le
  rw [← daysBeforeMonth_twelve]
  have hle' : daysBeforeMonth (leapYear d.year) (d.month + 1) ≤
    daysBeforeMonth (leapYear d.year) 12 := hle
  omega

/-- A date is known by its second. -/
theorem eq_of_instant (h : d.instant = d'.instant) : d = d' := by
  have hhour := d.hour_lt
  have hmin := d.min_lt
  have hsec := d.sec_lt
  have hhour' := d'.hour_lt
  have hmin' := d'.min_lt
  have hsec' := d'.sec_lt
  unfold instant at h
  have hnumber : d.dayNumber = d'.dayNumber := by omega
  have htime : d.hour = d'.hour ∧ d.min = d'.min ∧ d.sec = d'.sec := by
    rw [hnumber] at h
    omega
  obtain ⟨hhours, hmins, hsecs⟩ := htime
  have hday := d.dayOfYear
  have hday' := d'.dayOfYear
  have hpos := d.day_pos
  have hpos' := d'.day_pos
  -- the year, then the month
  have hyear : d.year = d'.year := by
    refine index_unique daysBeforeYear_le
      (t := d.dayNumber + daysBeforeYear 1970) ?_ ?_ ?_ ?_
    · unfold dayNumber
      omega
    · rw [Order.succ_eq_add_one]
      unfold dayNumber
      omega
    · rw [hnumber]
      unfold dayNumber
      omega
    · rw [hnumber, Order.succ_eq_add_one]
      unfold dayNumber
      omega
  unfold dayNumber at hnumber
  rw [hyear] at hnumber
  have hle := d.day_le
  have hle' := d'.day_le
  rw [hyear] at hle
  have hmonth : d.month = d'.month := by
    have hmono (i j : Nat) (hij : i ≤ j) :
        (daysBeforeMonth (leapYear d'.year) i : Int) ≤ daysBeforeMonth (leapYear d'.year) j :=
      Int.ofNat_le.2 (daysBeforeMonth_mono _ hij)
    refine index_unique hmono
      (t := daysBeforeMonth (leapYear d'.year) d.month + ((d.day : Int) - 1)) ?_ ?_ ?_ ?_
    · omega
    · rw [Order.succ_eq_add_one, daysBeforeMonth_succ]
      push_cast
      omega
    · omega
    · rw [Order.succ_eq_add_one, daysBeforeMonth_succ]
      push_cast
      omega
  rw [hmonth] at hnumber
  exact DateTime.ext hyear hmonth (by omega) hhours hmins hsecs

end DateTime

/-- With rounds enough the date is printed whose second it is. -/
theorem printDate_eq {s : Int} {fuel : Nat} (hs : 0 ≤ s) (hfuel : s.toNat < fuel) :
    ∃ d : DateTime, printDate fuel s = .ok d.printed ∧ d.instant = s := by
  obtain ⟨year, s₁, hyears, hs₁, hle₁, hlt₁, hsum₁⟩ := @yearLoop_eq 1970 s fuel hs hfuel
  have hzero : (daysBeforeMonth (leapYear year) 0 : Int) = 0 := rfl
  obtain ⟨month, s₂, hmonths, hmonth, hs₂, hle₂, hlt₂, hsum₂⟩ :=
    @monthLoop_eq (leapYear year) s₁ 0 fuel hs₁ (by omega) (by decide)
      (by rw [daysBeforeMonth_twelve, hzero, Int.sub_zero]; exact hlt₁)
  rw [hzero, Int.sub_zero] at hsum₂
  -- what is left of the month is divided into days, hours, minutes and seconds
  have hdays := @unitLoop_eq s₂ 86400 0 fuel (by decide) hs₂ (by omega)
  have hhours := @unitLoop_eq (s₂ % 86400) 3600 0 fuel (by decide) (by omega) (by omega)
  have hmins := @unitLoop_eq (s₂ % 86400 % 3600) 60 0 fuel (by decide) (by omega) (by omega)
  have hname : monthNames[month]? = some (monthNames.getD month "") := by
    have hall : ∀ month < 12, monthNames[month]? = some (monthNames.getD month "") := by decide
    exact hall month hmonth
  refine ⟨⟨year, month, (s₂ / 86400).toNat + 1, (s₂ % 86400 / 3600).toNat,
    (s₂ % 86400 % 3600 / 60).toNat, (s₂ % 86400 % 3600 % 60).toNat, hmonth, Nat.succ_pos _,
    by omega, by omega, by omega, by omega⟩, ?_, ?_⟩
  · have hprint : printDate fuel s = .ok ⟨0 + s₂ / 86400 + 1, monthNames.getD month "", year,
        0 + s₂ % 86400 / 3600, 0 + s₂ % 86400 % 3600 / 60, s₂ % 86400 % 3600 % 60⟩ := by
      unfold printDate
      simp only [hyears, hmonths, bind, Except.bind]
      have hdays' : unitLoop (24 * 60 * 60) fuel 0 s₂ = _ := hdays
      have hhours' : unitLoop (60 * 60) fuel 0 (s₂ % 86400) = _ := hhours
      simp only [hdays', hhours', hmins, hname]
      rfl
    rw [hprint]
    simp only [DateTime.printed, Except.ok.injEq, PrintedDate.mk.injEq, true_and]
    refine ⟨?_, ?_, ?_, ?_⟩
    · omega
    · omega
    · omega
    · omega
  · unfold DateTime.instant DateTime.dayNumber
    dsimp only
    omega

/-- For every number of seconds the loops end within as many rounds, and what is printed is the
date whose second it is, which no other date has. -/
theorem printDate_correct (s : Int) (hs : 0 ≤ s) : ∃ d : DateTime,
    (∀ fuel, s.toNat < fuel → printDate fuel s = .ok d.printed) ∧ d.instant = s ∧
      ∀ d' : DateTime, d'.instant = s → d' = d := by
  obtain ⟨d, -, hinstant⟩ := printDate_eq hs (Nat.lt_succ_self s.toNat)
  refine ⟨d, fun fuel hfuel => ?_, hinstant, fun d' hd' => ?_⟩
  · obtain ⟨d₁, hprint, hinstant₁⟩ := printDate_eq hs hfuel
    rw [hprint, DateTime.eq_of_instant (hinstant₁.trans hinstant.symm)]
  · exact DateTime.eq_of_instant (hd'.trans hinstant.symm)

/-- A leap day, 2024-02-29 12:30:05. -/
theorem printDate_correct_leap : ∃ d : DateTime,
    (∀ fuel, (1709209805 : Int).toNat < fuel → printDate fuel 1709209805 = .ok d.printed) ∧
      d.instant = 1709209805 ∧ ∀ d' : DateTime, d'.instant = 1709209805 → d' = d :=
  printDate_correct 1709209805 (by decide)

end Vmwos
