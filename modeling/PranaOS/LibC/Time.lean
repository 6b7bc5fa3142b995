import PranaOS.AK.Time

/-!
# `LibC/time.cpp`: `gmtime` and `timegm`

The conversion between a time in seconds since the epoch and a broken-down time. `time_to_tm` finds the
year and the month by loops; its weekday comes from `day_of_week`, which is not right for all years
before 0.
-/

namespace LibC

open AK Gregorian Int Option

/-- `struct tm`, without the daylight saving time, which is neither read nor set. -/
structure Tm where
  sec : ℤ
  min : ℤ
  hour : ℤ
  mday : ℤ
  mon : ℤ
  year : ℤ
  wday : ℤ
  yday : ℤ
deriving DecidableEq

/-- `__seconds_per_day`. -/
def secondsPerDay : ℤ := 60 * 60 * 24

theorem daysInYear_mul_pos (year : ℤ) : 0 < daysInYear year * secondsPerDay := by
  rw [daysInYear_eq]
  exact Int.mul_pos (yearLength_pos year) (by decide)

/-- The loop of `time_to_tm` over the years since 1970. -/
def forwardYears (t year : ℤ) : ℤ × ℤ :=
  if t ≥ daysInYear year * secondsPerDay then
    forwardYears (t - daysInYear year * secondsPerDay) (year + 1)
  else (t, year)
termination_by t.toNat
decreasing_by
  have := daysInYear_mul_pos year
  omega

/-- The loop of `time_to_tm` over the years before 1970. -/
def backwardYears (t year : ℤ) : ℤ × ℤ :=
  if t < 0 then backwardYears (t + daysInYear (year - 1) * secondsPerDay) (year - 1) else (t, year)
termination_by (-t).toNat
decreasing_by
  have := daysInYear_mul_pos (year - 1)
  omega

/-- The loop of `time_to_tm` over the months: the month, and the days that are left. -/
def findMonth (year : ℤ) (month : ℕ) (days : ℤ) : Option (ℕ × ℤ) :=
  if month < 12 then do
    let length ← daysInMonth year month
    if days ≥ length then findMonth year (month + 1) (days - length) else return (month, days)
  else return (month, days)
termination_by 12 - month

variable (t : ℤ)

/-- `time_to_tm`. -/
def timeToTm : Option Tm := do
  let (t, year) := forwardYears t 1970
  let (t, year) := backwardYears t year
  verify (t ≥ 0)
  let days := t.tdiv secondsPerDay
  let remaining := t.tmod secondsPerDay
  let (month, daysLeft) ← findMonth year 1 days
  let weekday ← dayOfWeek year month (daysLeft + 1)
  return {
    sec := remaining.tmod 60
    min := (remaining.tdiv 60).tmod 60
    hour := (remaining.tdiv 60).tdiv 60
    mday := daysLeft + 1
    mon := month - 1
    year := year - 1900
    wday := int32 weekday
    yday := days }

/-- `tm_to_time`: the time, and the normalised `tm`. -/
def tmToTime (tm : Tm) (timezoneAdjustSeconds : ℤ) : Option (ℤ × Tm) := do
  let year := tm.year + tm.mon.tdiv 12
  let mon := tm.mon.tmod 12
  let (year, mon) := if mon < 0 then (year - 1, mon + 12) else (year, mon)
  let yday ← dayOfYear (1900 + year) (mon + 1).toNat tm.mday
  let daysSinceEpoch := int32 (yearsToDaysSinceEpoch (1900 + year) + yday)
  let timestamp :=
    ((daysSinceEpoch * 24 + tm.hour) * 60 + tm.min) * 60 + tm.sec + timezoneAdjustSeconds
  let tm ← timeToTm timestamp
  return (timestamp, tm)

/-- `gmtime`. -/
def gmtime : Option Tm := timeToTm t

/-- `timegm`. -/
def timegm (tm : Tm) : Option (ℤ × Tm) := tmToTime tm 0

/-! ## The loops -/

/-- The time since the beginning of the year is always the same time, and at the end less than a year. -/
theorem forwardYears_spec (t year : ℤ) :
    daysBeforeYear (forwardYears t year).2 * secondsPerDay + (forwardYears t year).1 =
      daysBeforeYear year * secondsPerDay + t ∧
    (forwardYears t year).1 < yearLength (forwardYears t year).2 * secondsPerDay := by
  fun_induction forwardYears t year with
  | case1 t year h ih =>
    refine ⟨?_, ih.2⟩
    rw [ih.1, daysBeforeYear_succ, daysInYear_eq, Int.add_mul]
    omega
  | case2 t year h =>
    rw [daysInYear_eq] at h
    exact ⟨rfl, lt_of_not_ge h⟩

theorem backwardYears_spec (t year : ℤ) (hlt : t < yearLength year * secondsPerDay) :
    daysBeforeYear (backwardYears t year).2 * secondsPerDay + (backwardYears t year).1 =
      daysBeforeYear year * secondsPerDay + t ∧
    0 ≤ (backwardYears t year).1 ∧
    (backwardYears t year).1 < yearLength (backwardYears t year).2 * secondsPerDay := by
  fun_induction backwardYears t year with
  | case1 t year h ih =>
    rw [daysInYear_eq] at ih ⊢
    obtain ⟨heq, hrange⟩ := ih (by omega)
    refine ⟨?_, hrange⟩
    have hsucc := daysBeforeYear_succ (year - 1)
    rw [Int.sub_add_cancel] at hsucc
    rw [heq, hsucc, Int.add_mul]
    omega
  | case2 t year h => exact ⟨rfl, by omega, hlt⟩

/-- The loop finds the month of a day. -/
theorem findMonth_spec (year : ℤ) (month : ℕ) (days : ℤ) (hmonth : month ∈ Finset.Icc 1 12)
    (hdays : 0 ≤ days) (hlt : daysBeforeMonth year month + days < yearLength year) :
    ∃ date : Date, date.year = year ∧ findMonth year month days = some (date.month, date.day - 1) ∧
      date.dayOfYear = daysBeforeMonth year month + days := by
  obtain ⟨hlow, hhigh⟩ := Finset.mem_Icc.mp hmonth
  have hsucc := daysBeforeMonth_succ year hlow
  by_cases hlast : month < 12 ∧ monthLength year month ≤ days
  · obtain ⟨date, hyear, hfind, hday⟩ := findMonth_spec year (month + 1)
      (days - monthLength year month) (Finset.mem_Icc.mpr ⟨by omega, hlast.1⟩) (by omega) (by omega)
    refine ⟨date, hyear, ?_, by omega⟩
    rw [findMonth, if_pos hlast.1, daysInMonth_eq year hmonth]
    simp [hlast.2, hfind]
  · -- The day is in this month: in December, because it is in the year.
    have hday : days < monthLength year month := by
      by_contra hge
      have hdec : month = 12 := by omega
      subst hdec
      rw [daysBeforeMonth_thirteen] at hsucc
      omega
    refine ⟨⟨year, month, days + 1, hmonth, by omega, by omega⟩, rfl, ?_, ?_⟩
    · rw [findMonth]
      split
      · rw [daysInMonth_eq year hmonth]
        simp [hday]
      · simp
    · simp [Date.dayOfYear]
termination_by 12 - month

/-! ## The conversion -/

/-- The `tm` of a date and a time of day. -/
def Represents (tm : Tm) (date : Date) (secondOfDay : ℤ) : Prop :=
  tm.sec = secondOfDay % 60 ∧ tm.min = secondOfDay / 60 % 60 ∧ tm.hour = secondOfDay / 3600 ∧
    tm.mday = date.day ∧ tm.mon = date.month - 1 ∧ tm.year = date.year - 1900 ∧
    tm.yday = date.dayOfYear

/-- `gmtime` returns the date and the time of day. -/
theorem gmtime_spec : ∃ tm date, gmtime t = some tm ∧ date.dayNumber = t / secondsPerDay ∧
    Represents tm date (t % secondsPerDay) ∧
    tm.wday = (weekdaySum (marchYear date) date.month date.day).tmod 7 := by
  obtain ⟨t₁, year₁, hforward⟩ : ∃ t₁ year₁, forwardYears t 1970 = (t₁, year₁) := ⟨_, _, rfl⟩
  obtain ⟨t₂, year₂, hbackward⟩ : ∃ t₂ year₂, backwardYears t₁ year₁ = (t₂, year₂) := ⟨_, _, rfl⟩
  have hspec₁ := forwardYears_spec t 1970
  rw [hforward] at hspec₁
  have hspec₂ := backwardYears_spec t₁ year₁ hspec₁.2
  rw [hbackward] at hspec₂
  obtain ⟨heq, hnonneg, hlt⟩ := hspec₂
  simp only at heq hnonneg hlt hspec₁
  have hepoch : daysBeforeYear 1970 = 0 := by decide
  rw [hspec₁.1, hepoch] at heq
  have hspd : secondsPerDay = 86400 := by decide
  rw [hspd] at heq hlt
  obtain ⟨date, hyear, hfind, hday⟩ := findMonth_spec year₂ 1 (t₂ / 86400) (by decide) (by omega)
    (by simp only [daysBeforeMonth]; omega)
  have hdays : date.dayOfYear = t₂ / 86400 := by simpa [daysBeforeMonth] using hday
  have hnumber : date.dayNumber = t / 86400 := by
    rw [Date.dayNumber, hdays, hyear]
    omega
  have hremaining : t₂.tmod 86400 = t % 86400 := by
    rw [tmod_eq_emod_of_nonneg hnonneg]
    omega
  have hrange : 0 ≤ t % 86400 := by omega
  have hweekday := dayOfWeek_eq date
  rw [hyear] at hweekday
  have hgmtime : gmtime t = some {
      sec := t % 86400 % 60
      min := t % 86400 / 60 % 60
      hour := t % 86400 / 60 / 60
      mday := date.day
      mon := date.month - 1
      year := year₂ - 1900
      wday := (weekdaySum (marchYear date) date.month date.day).tmod 7
      yday := t₂ / 86400 } := by
    simp only [gmtime, timeToTm, hforward, hbackward, verify, ge_iff_le, hnonneg, if_true,
      bind_eq_bind, bind_some, tdiv_eq_ediv_of_nonneg hnonneg, hspd, hfind,
      Int.sub_add_cancel, hweekday, int32_tmod_seven, pure_def, hremaining, tmod_eq_emod_of_nonneg hrange,
      tdiv_eq_ediv_of_nonneg hrange, tmod_eq_emod_of_nonneg (show 0 ≤ t % 86400 / 60 by omega),
      tdiv_eq_ediv_of_nonneg (show 0 ≤ t % 86400 / 60 by omega)]
  refine ⟨_, date, hgmtime, by rw [hspd, hnumber], ?_, rfl⟩
  refine ⟨by rw [hspd], by rw [hspd], ?_, rfl, rfl, by rw [hyear], hdays.symm⟩
  change t % 86400 / 60 / 60 = t % 86400 / 3600
  omega

/-- `timegm` returns the time of a date that is not too far away. -/
theorem timegm_spec {tm : Tm} {date : Date} {secondOfDay : ℤ} (h : Represents tm date secondOfDay)
    (hlow : -2 ^ 31 ≤ date.dayNumber) (hhigh : date.dayNumber < 2 ^ 31) :
    ∃ tm', timegm tm = some (date.dayNumber * secondsPerDay + secondOfDay, tm') := by
  obtain ⟨hsec, hmin, hhour, hmday, hmon, hyear, -⟩ := h
  have hone := date.one_le_month
  have hmonth := date.month_le
  have hmonNonneg : 0 ≤ tm.mon := by omega
  have hdiv : tm.mon.tdiv 12 = 0 := by
    rw [tdiv_eq_ediv_of_nonneg hmonNonneg]
    omega
  have hmod : tm.mon.tmod 12 = tm.mon := by
    rw [tmod_eq_emod_of_nonneg hmonNonneg]
    omega
  have hmonth' : (tm.mon + 1).toNat = date.month := by omega
  have hyear' : 1900 + (tm.year + 0) = date.year := by omega
  -- The number of the first day of the year may be too small for an `int`, but that of the day is not.
  have hdays : int32 (yearsToDaysSinceEpoch date.year + date.dayOfYear) = date.dayNumber := by
    have heq := int32_yearsToDaysSinceEpoch date.year
    unfold int32 at heq ⊢
    rw [← bmod_add_bmod, heq, bmod_add_bmod]
    apply bmod_eq_of_le <;> unfold Date.dayNumber at hlow hhigh <;> norm_num at hlow hhigh ⊢ <;>
      assumption
  obtain ⟨tm', -, hgmtime, -⟩ := gmtime_spec (date.dayNumber * secondsPerDay + secondOfDay)
  rw [gmtime] at hgmtime
  refine ⟨tm', ?_⟩
  have htimestamp : ((date.dayNumber * 24 + tm.hour) * 60 + tm.min) * 60 + tm.sec + 0 =
      date.dayNumber * secondsPerDay + secondOfDay := by
    rw [show secondsPerDay = 86400 by decide]
    omega
  simp only [timegm, tmToTime, hdiv, hmod, show ¬ tm.mon < 0 by omega, if_false, hyear', hmonth', hmday,
    dayOfYear_eq, bind_eq_bind, bind_some, hdays, htimestamp, hgmtime, pure_def]

/-- What should hold of a time: `gmtime` yields fields in their ranges from which `timegm` gets the time
back, and the day of the year and the weekday are right. -/
def CalendarOk : Prop :=
  ∃ tm, gmtime t = some tm ∧
    (0 ≤ tm.sec ∧ tm.sec < 60) ∧ (0 ≤ tm.min ∧ tm.min < 60) ∧ (0 ≤ tm.hour ∧ tm.hour < 24) ∧
    (0 ≤ tm.mon ∧ tm.mon < 12) ∧
    (1 ≤ tm.mday ∧ tm.mday ≤ monthLength (1900 + tm.year) (tm.mon + 1).toNat) ∧
    (∃ tm', timegm tm = some (t, tm')) ∧
    tm.yday = t / secondsPerDay - daysBeforeYear (1900 + tm.year) ∧
    (0 ≤ tm.yday ∧ tm.yday < yearLength (1900 + tm.year)) ∧
    tm.wday = (4 + t / secondsPerDay) % 7

/-- **The calendar.** For every time whose number of days fits an `int`: the conversion is right exactly
if the weekday of its date is computed, that is, since March of year 0, and before that on some days of
leap years. -/
theorem calendarOk_iff (t : ℤ) (hlow : -2 ^ 31 ≤ t / secondsPerDay) (hhigh : t / secondsPerDay < 2 ^ 31) :
    CalendarOk t ↔ ∀ date : Date, date.dayNumber = t / secondsPerDay → WeekdayOk date := by
  obtain ⟨tm, date, hgmtime, hnumber, hrepresents, hweekday⟩ := gmtime_spec t
  constructor
  · rintro ⟨tm', hgmtime', -, -, -, -, -, -, -, -, hwday⟩ date' hdate'
    rw [hgmtime, some.injEq] at hgmtime'
    subst hgmtime'
    rw [Date.dayNumber_injective (hdate'.trans hnumber.symm)]
    exact (weekdaySum_tmod_eq_iff date).mp (by rw [← hweekday, hwday, hnumber])
  · intro hok
    obtain ⟨tm', htimegm⟩ := timegm_spec hrepresents (hnumber ▸ hlow) (hnumber ▸ hhigh)
    obtain ⟨hsec, hmin, hhour, hmday, hmon, hyear, hyday⟩ := hrepresents
    have hspd : secondsPerDay = 86400 := by decide
    have hone := date.one_le_month
    have hmonth := date.month_le
    have hyear' : 1900 + tm.year = date.year := by omega
    have hmonth' : (tm.mon + 1).toNat = date.month := by omega
    rw [hspd] at hsec hmin hhour
    refine ⟨tm, hgmtime, by omega, by omega, by omega, by omega, ?_, ⟨tm', ?_⟩, ?_, ?_,
      by rw [hweekday, (weekdaySum_tmod_eq_iff date).mpr (hok date hnumber), hnumber]⟩
    · rw [hmday, hyear', hmonth']
      exact date.day_mem
    · rw [htimegm, hnumber, hspd, Int.mul_comm, mul_ediv_add_emod]
    · rw [← hnumber, Date.dayNumber, hyday, hyear', add_sub_cancel_left]
    · rw [hyday, hyear']
      exact ⟨date.dayOfYear_nonneg, date.dayOfYear_lt⟩

/-- The epoch. -/
theorem calendarOk_iff_epoch : CalendarOk 0 := by
  refine (calendarOk_iff 0 (by decide) (by decide)).mpr fun date hdate => ?_
  have hepoch : date = ⟨1970, 1, 1, by decide, by decide, by decide⟩ :=
    Date.dayNumber_injective (hdate.trans (by decide))
  rw [hepoch]
  decide

/-- The weekday of a date, as `gmtime` computes it. -/
theorem exists_gmtime_wday (date : Date) :
    ∃ tm, gmtime (date.dayNumber * secondsPerDay) = some tm ∧
      tm.wday = (weekdaySum (marchYear date) date.month date.day).tmod 7 := by
  obtain ⟨tm, date', hgmtime, hnumber, -, hwday⟩ := gmtime_spec (date.dayNumber * secondsPerDay)
  rw [mul_ediv_cancel _ (by decide)] at hnumber
  rw [Date.dayNumber_injective hnumber] at hwday
  exact ⟨tm, hgmtime, hwday⟩

/-- 0000-01-01 was a Saturday, but its weekday is computed as Sunday. That of -0100-01-01, a Monday, is
computed as -5. -/
theorem weekday_wrong_before_year_zero :
    (∃ tm, gmtime (-719528 * secondsPerDay) = some tm ∧ tm.wday = 0 ∧
      (4 + -719528 * secondsPerDay / secondsPerDay) % 7 = 6) ∧
    ∃ tm, gmtime (-756052 * secondsPerDay) = some tm ∧ tm.wday = -5 ∧
      (4 + -756052 * secondsPerDay / secondsPerDay) % 7 = 1 := by
  have hyear0 := exists_gmtime_wday ⟨0, 1, 1, by decide, by decide, by decide⟩
  have hyear100 := exists_gmtime_wday ⟨-100, 1, 1, by decide, by decide, by decide⟩
  refine ⟨?_, ?_⟩
  · obtain ⟨tm, hgmtime, hwday⟩ := hyear0
    exact ⟨tm, hgmtime, hwday.trans (by decide), by decide⟩
  · obtain ⟨tm, hgmtime, hwday⟩ := hyear100
    exact ⟨tm, hgmtime, hwday.trans (by decide), by decide⟩

end LibC
