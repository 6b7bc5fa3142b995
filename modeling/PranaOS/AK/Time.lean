import PranaOS.AK.Assertions
import PranaOS.ToMathlib.Gregorian

/-!
# `AK/Time`: the calendar

The functions on dates, and what they are in the Gregorian calendar. Years are `int`, and divided with
truncation. For the weekday this matters: `day_of_week` is right for the years from 0 on (that begin in
March), but for years before that only in some cases (`weekdaySum_tmod_eq_iff`).
-/

namespace AK

open Gregorian Int Option

/-- The value of an expression after its conversion to `int`. -/
def int32 (x : ℤ) : ℤ := x.bmod (2 ^ 32)

variable (year : ℤ)

/-- `is_leap_year`. -/
def isLeapYear : Bool :=
  year.tmod 4 == 0 && (year.tmod 100 != 0 || year.tmod 400 == 0)

/-- `days_in_year`. -/
def daysInYear : ℤ := 365 + if isLeapYear year then 1 else 0

/-- The first loop of `years_to_days_since_epoch`, with the number of years that are left. -/
def addYears : ℕ → ℤ → ℤ → ℤ
  | 0, days, _ => days
  | n + 1, days, currentYear => addYears n (int32 (days + daysInYear currentYear)) (currentYear + 1)

/-- The second loop of `years_to_days_since_epoch`, with the number of years that are left. -/
def subtractYears : ℕ → ℤ → ℤ → ℤ
  | 0, days, _ => days
  | n + 1, days, currentYear =>
    subtractYears n (int32 (days - daysInYear currentYear)) (currentYear + 1)

/-- `years_to_days_since_epoch`. -/
def yearsToDaysSinceEpoch : ℤ :=
  let days := addYears (year - 1970).toNat 0 1970
  subtractYears (1970 - year).toNat days year

/-- `day_of_year`. -/
def dayOfYear (year : ℤ) (month : ℕ) (day : ℤ) : Option ℤ := do
  verify (month ≥ 1 ∧ month ≤ 12)
  let seekTable : List ℤ := [0, 31, 59, 90, 120, 151, 181, 212, 243, 273, 304, 334]
  let dayOfYear := seekTable.getD (month - 1) 0 + day - 1
  return if isLeapYear year ∧ month ≥ 3 then dayOfYear + 1 else dayOfYear

/-- `days_in_month`. -/
def daysInMonth (month : ℕ) : Option ℤ := do
  verify (month ≥ 1 ∧ month ≤ 12)
  if month = 2 then return if isLeapYear year then 29 else 28
  else
    let isLongMonth := month = 1 ∨ month = 3 ∨ month = 5 ∨ month = 7 ∨ month = 8 ∨ month = 10 ∨
      month = 12
    return if isLongMonth then 31 else 30

/-- The table of `day_of_week`. -/
def weekdaySeekTable : List ℤ := [0, 3, 2, 5, 0, 3, 5, 1, 4, 6, 2, 4]

/-- The sum of `day_of_week`, for the year that begins in March. -/
def weekdaySum (month : ℕ) (day : ℤ) : ℤ :=
  year + year.tdiv 4 - year.tdiv 100 + year.tdiv 400 + weekdaySeekTable.getD (month - 1) 0 + day

/-- `day_of_week`. The result is `unsigned`. -/
def dayOfWeek (month : ℕ) (day : ℤ) : Option ℤ := do
  verify (month ≥ 1 ∧ month ≤ 12)
  let year := if month < 3 then year - 1 else year
  return (weekdaySum year month day).tmod 7 % 2 ^ 32

/-! ## What they are in the calendar -/

theorem isLeapYear_iff : isLeapYear year = true ↔ IsLeapYear year := by
  simp [isLeapYear, IsLeapYear, dvd_iff_tmod_eq_zero]

theorem daysInYear_eq : daysInYear year = yearLength year := by
  simp only [daysInYear, yearLength, isLeapYear_iff]
  split <;> rfl

theorem daysInMonth_eq {month : ℕ} (h : month ∈ Finset.Icc 1 12) :
    daysInMonth year month = some (monthLength year month) := by
  obtain ⟨hlow, hhigh⟩ := Finset.mem_Icc.mp h
  interval_cases month <;> simp [daysInMonth, verify, monthLength, isLeapYear_iff]

variable (date : Date)

theorem dayOfYear_eq : dayOfYear date.year date.month date.day = some date.dayOfYear := by
  obtain ⟨year, month, day, hmonth, hday⟩ := date
  obtain ⟨hlow, hhigh⟩ := Finset.mem_Icc.mp hmonth
  simp only [dayOfYear, verify, hlow, hhigh, ge_iff_le, and_self, if_true, bind_eq_bind,
    bind_some, pure_def, some.injEq, isLeapYear_iff, Date.dayOfYear]
  by_cases hleap : IsLeapYear year <;>
    interval_cases month <;> simp [daysBeforeMonth, monthLength, hleap] <;> omega

/-- The loop adds the lengths of the years. -/
theorem int32_addYears (n : ℕ) (days currentYear : ℤ) :
    int32 (addYears n days currentYear) =
      int32 (days + (daysBeforeYear (currentYear + n) - daysBeforeYear currentYear)) := by
  induction n generalizing days currentYear with
  | zero => simp [addYears]
  | succ n ih =>
    rw [addYears, ih, daysInYear_eq, Nat.cast_succ,
      show currentYear + ((n : ℤ) + 1) = currentYear + 1 + n by omega]
    unfold int32
    rw [bmod_add_bmod]
    have := daysBeforeYear_succ currentYear
    congr 1
    omega

/-- The loop subtracts the lengths of the years. -/
theorem int32_subtractYears (n : ℕ) (days currentYear : ℤ) :
    int32 (subtractYears n days currentYear) =
      int32 (days - (daysBeforeYear (currentYear + n) - daysBeforeYear currentYear)) := by
  induction n generalizing days currentYear with
  | zero => simp [subtractYears]
  | succ n ih =>
    rw [subtractYears, ih, daysInYear_eq, Nat.cast_succ,
      show currentYear + ((n : ℤ) + 1) = currentYear + 1 + n by omega]
    unfold int32
    rw [bmod_sub_bmod]
    have := daysBeforeYear_succ currentYear
    congr 1
    omega

/-- `years_to_days_since_epoch` counts the days up to the year, modulo the size of `int`. -/
theorem int32_yearsToDaysSinceEpoch :
    int32 (yearsToDaysSinceEpoch year) = int32 (daysBeforeYear year) := by
  have hepoch : daysBeforeYear 1970 = 0 := by decide
  unfold yearsToDaysSinceEpoch
  rcases le_total 1970 year with hle | hle
  · have hzero : (1970 - year).toNat = 0 := by omega
    have hcast : (1970 : ℤ) + ((year - 1970).toNat : ℤ) = year := by omega
    rw [hzero, subtractYears, int32_addYears, hcast, hepoch]
    simp
  · have hzero : (year - 1970).toNat = 0 := by omega
    have hcast : year + ((1970 - year).toNat : ℤ) = 1970 := by omega
    rw [hzero, addYears, int32_subtractYears, hcast, hepoch]
    simp

/-! ## Weekdays -/

/-- The year of a date, if years began in March. -/
def marchYear : ℤ := if date.month < 3 then date.year - 1 else date.year

/-- The formula for the weekday, with years that are divided with rounding down. -/
theorem weekday_eq :
    (marchYear date + leapYears (marchYear date) + weekdaySeekTable.getD (date.month - 1) 0 +
      date.day) % 7 = (4 + date.dayNumber) % 7 := by
  obtain ⟨year, month, day, hmonth, hday⟩ := date
  obtain ⟨hlow, hhigh⟩ := Finset.mem_Icc.mp hmonth
  have hepoch : leapYears 1969 = 477 := by decide
  simp only [Date.dayNumber, Date.dayOfYear, marchYear, daysBeforeYear, hepoch]
  by_cases hleap : IsLeapYear year
  · have := leapYears_of_isLeapYear hleap
    interval_cases month <;>
      simp only [daysBeforeMonth, monthLength, hleap, weekdaySeekTable, if_true, if_false,
        Nat.reduceSub, Nat.reduceLT, List.getD_cons_succ, List.getD_cons_zero] <;> omega
  · have := leapYears_of_not_isLeapYear hleap
    interval_cases month <;>
      simp only [daysBeforeMonth, monthLength, hleap, weekdaySeekTable, if_true, if_false,
        Nat.reduceSub, Nat.reduceLT, List.getD_cons_succ, List.getD_cons_zero] <;> omega

/-- Division with truncation rounds years before 0 up, in three places; in leap years nothing is
rounded, or two of the roundings cancel. -/
theorem tdiv_years {year : ℤ} (h : year < 0) :
    year.tdiv 4 - year.tdiv 100 + year.tdiv 400 =
      leapYears year + if IsLeapYear year then 0 else 1 := by
  have htdiv : ∀ n : ℤ, 0 < n → year.tdiv n = year / n + if n ∣ year then 0 else 1 := by
    intro n hn
    rw [tdiv_eq_ediv, sign_eq_one_of_pos hn]
    simp [show ¬ 0 ≤ year by omega]
  rw [htdiv 4 (by decide), htdiv 100 (by decide), htdiv 400 (by decide), leapYears]
  by_cases h4 : 4 ∣ year <;> by_cases h100 : 100 ∣ year <;> by_cases h400 : 400 ∣ year <;>
    simp only [IsLeapYear, h4, h100, h400, if_true, if_false, not_true, not_false_iff, or_true,
      or_false, and_true, and_false] <;> omega

theorem tdiv_years_of_nonneg {year : ℤ} (h : 0 ≤ year) :
    year.tdiv 4 - year.tdiv 100 + year.tdiv 400 = leapYears year := by
  rw [tdiv_eq_ediv_of_nonneg h, tdiv_eq_ediv_of_nonneg h, tdiv_eq_ediv_of_nonneg h, leapYears]

/-- The dates whose weekday `day_of_week` computes: those since March of year 0, and of the years before
it, those in leap years that are Sundays or for which the sum is not negative. -/
def WeekdayOk : Prop :=
  0 ≤ marchYear date ∨ IsLeapYear (marchYear date) ∧
    (7 ∣ 4 + date.dayNumber ∨ 0 ≤ weekdaySum (marchYear date) date.month date.day)
deriving Decidable

/-- The conversions of a weekday between `int` and `unsigned` cancel. -/
theorem int32_tmod_seven (sum : ℤ) : int32 (sum.tmod 7 % 2 ^ 32) = sum.tmod 7 := by
  have hlow := lt_tmod_of_pos sum (show (0 : ℤ) < 7 by decide)
  have hhigh := tmod_lt_of_pos sum (show (0 : ℤ) < 7 by decide)
  have hmod : int32 (sum.tmod 7 % 2 ^ 32) = (sum.tmod 7).bmod (2 ^ 32) := emod_bmod _ _
  rw [hmod]
  apply bmod_eq_of_le <;> norm_num <;> omega

theorem weekdaySeekTable_nonneg :
    ∀ month ∈ Finset.Icc 1 12, 0 ≤ weekdaySeekTable.getD (month - 1) 0 := by
  decide

/-- What `day_of_week` computes. -/
theorem dayOfWeek_eq : dayOfWeek date.year date.month date.day =
    some ((weekdaySum (marchYear date) date.month date.day).tmod 7 % 2 ^ 32) := by
  simp only [dayOfWeek, verify, ge_iff_le, date.one_le_month, date.month_le, and_self, if_true,
    bind_eq_bind, bind_some, pure_def, marchYear]

/-- When the result of `day_of_week`, as an `int`, is the weekday. -/
theorem weekdaySum_tmod_eq_iff :
    (weekdaySum (marchYear date) date.month date.day).tmod 7 = (4 + date.dayNumber) % 7 ↔
      WeekdayOk date := by
  have heq := weekday_eq date
  rw [WeekdayOk]
  rcases lt_or_ge (marchYear date) 0 with hneg | hpos
  · have htdiv := tdiv_years hneg
    obtain ⟨sum, hsum⟩ : ∃ sum, weekdaySum (marchYear date) date.month date.day = sum := ⟨_, rfl⟩
    simp only [hsum, tmod_eq_emod, show ¬ 0 ≤ marchYear date by omega, false_or]
    rw [weekdaySum] at hsum
    by_cases hleap : IsLeapYear (marchYear date)
    · -- The sum is right, but the remainder of a negative one is not.
      rw [if_pos hleap] at htdiv
      simp only [hleap, true_and]
      by_cases hsumPos : 0 ≤ sum ∨ 7 ∣ sum
      · simp only [hsumPos, if_true]
        omega
      · simp only [hsumPos, if_false]
        omega
    · -- The sum is one too big.
      rw [if_neg hleap] at htdiv
      simp only [hleap, false_and, iff_false]
      by_cases hsumPos : 0 ≤ sum ∨ 7 ∣ sum
      · simp only [hsumPos, if_true]
        omega
      · simp only [hsumPos, if_false]
        omega
  · have htdiv := tdiv_years_of_nonneg hpos
    have hoffset := weekdaySeekTable_nonneg date.month date.month_mem
    have hday := date.day_mem
    have hleapYears : 0 ≤ leapYears (marchYear date) := by
      unfold leapYears
      omega
    have hsum : weekdaySum (marchYear date) date.month date.day = marchYear date +
        leapYears (marchYear date) + weekdaySeekTable.getD (date.month - 1) 0 + date.day := by
      rw [weekdaySum]
      omega
    rw [hsum, tmod_eq_emod_of_nonneg (by omega), heq]
    exact iff_of_true rfl (Or.inl hpos)

end AK
