import Mathlib.Algebra.Order.Group.Int
import Mathlib.Order.Interval.Finset.Nat
import Mathlib.Tactic.IntervalCases

/-!
# The proleptic Gregorian calendar

Dates before 1582, and years at or below zero, follow the same rules as those after it. Days are numbered
from 1970-01-01, which is day 0.

* `Gregorian.daysBeforeYear`: the number of the first day of a year, by a closed formula.
* `Gregorian.Date`: a date that exists.
* `Gregorian.Date.dayNumber_injective`: a day has one date.
-/

namespace Gregorian

variable (year : ℤ)

/-- Every fourth year, but of the centuries only every fourth. -/
def IsLeapYear : Prop := 4 ∣ year ∧ (¬ 100 ∣ year ∨ 400 ∣ year)

instance  : Decidable (IsLeapYear year) :=
  inferInstanceAs (Decidable (_ ∧ (¬ _ ∨ _)))

/-- The number of days of a year. -/
def yearLength : ℤ := if IsLeapYear year then 366 else 365

/-- The number of days of a month. -/
def monthLength : ℕ → ℤ
  | 2 => if IsLeapYear year then 29 else 28
  | 4 | 6 | 9 | 11 => 30
  | _ => 31

/-- The days of a year before a month. -/
def daysBeforeMonth (year : ℤ) : ℕ → ℤ
  | 0 => 0
  | 1 => 0
  | month + 1 => daysBeforeMonth year month + monthLength year month

/-- The number of leap years up to a year, counted from year 0. -/
def leapYears : ℤ := year / 4 - year / 100 + year / 400

/-- The number of the first day of a year. -/
def daysBeforeYear : ℤ := 365 * (year - 1970) + leapYears (year - 1) - leapYears 1969

theorem leapYears_of_isLeapYear {year : ℤ} (h : IsLeapYear year) :
    leapYears year = leapYears (year - 1) + 1 := by
  unfold leapYears
  unfold IsLeapYear at h
  omega

theorem leapYears_of_not_isLeapYear {year : ℤ} (h : ¬ IsLeapYear year) :
    leapYears year = leapYears (year - 1) := by
  unfold leapYears
  unfold IsLeapYear at h
  omega

theorem daysBeforeYear_succ :
    daysBeforeYear (year + 1) = daysBeforeYear year + yearLength year := by
  unfold daysBeforeYear yearLength
  rw [Int.add_sub_cancel]
  split
  next h =>
    rw [leapYears_of_isLeapYear h]
    omega
  next h =>
    rw [leapYears_of_not_isLeapYear h]
    omega

theorem yearLength_pos : 0 < yearLength year := by
  unfold yearLength
  split <;> decide

theorem daysBeforeYear_mono {year year' : ℤ} (h : year ≤ year') :
    daysBeforeYear year ≤ daysBeforeYear year' := by
  unfold daysBeforeYear leapYears
  omega

/-- A day is in one year. -/
theorem year_unique {year year' day : ℤ} (hlow : daysBeforeYear year ≤ day)
    (hhigh : day < daysBeforeYear (year + 1)) (hlow' : daysBeforeYear year' ≤ day)
    (hhigh' : day < daysBeforeYear (year' + 1)) : year = year' := by
  rcases lt_trichotomy year year' with hlt | heq | hlt
  · have := daysBeforeYear_mono (show year + 1 ≤ year' by omega)
    omega
  · exact heq
  · have := daysBeforeYear_mono (show year' + 1 ≤ year by omega)
    omega

theorem daysBeforeMonth_succ {month : ℕ} (h : 1 ≤ month) :
    daysBeforeMonth year (month + 1) = daysBeforeMonth year month + monthLength year month := by
  obtain ⟨month, rfl⟩ := Nat.exists_eq_add_of_le' h
  rfl

theorem monthLength_pos (month : ℕ) : 0 < monthLength year month := by
  unfold monthLength
  split <;> try split
  all_goals decide

theorem daysBeforeMonth_mono {month month' : ℕ} (hone : 1 ≤ month) (h : month ≤ month') :
    daysBeforeMonth year month ≤ daysBeforeMonth year month' := by
  induction month', h using Nat.le_induction with
  | base => exact le_rfl
  | succ month' hle ih =>
    rw [daysBeforeMonth_succ year (hone.trans hle)]
    have := monthLength_pos year month'
    omega

theorem daysBeforeMonth_thirteen : daysBeforeMonth year 13 = yearLength year := by
  simp only [daysBeforeMonth, monthLength, yearLength]
  split <;> rfl

theorem daysBeforeMonth_nonneg {month : ℕ} (hone : 1 ≤ month) :
    0 ≤ daysBeforeMonth year month :=
  daysBeforeMonth_mono year le_rfl hone

/-- A date that exists. -/
@[ext]
structure Date where
  year : ℤ
  month : ℕ
  day : ℤ
  month_mem : month ∈ Finset.Icc 1 12
  day_mem : 1 ≤ day ∧ day ≤ monthLength year month

namespace Date

variable (date : Date)

/-- The zero-based index of a day in its year. -/
def dayOfYear : ℤ := daysBeforeMonth date.year date.month + (date.day - 1)

/-- The number of a day. -/
def dayNumber : ℤ := daysBeforeYear date.year + date.dayOfYear

theorem one_le_month : 1 ≤ date.month := (Finset.mem_Icc.mp date.month_mem).1

theorem month_le : date.month ≤ 12 := (Finset.mem_Icc.mp date.month_mem).2

theorem dayOfYear_nonneg : 0 ≤ date.dayOfYear := by
  have := daysBeforeMonth_nonneg date.year date.one_le_month
  have := date.day_mem
  unfold dayOfYear
  omega

/-- A day is before the next month. -/
theorem dayOfYear_lt_daysBeforeMonth :
    date.dayOfYear < daysBeforeMonth date.year (date.month + 1) := by
  rw [daysBeforeMonth_succ _ date.one_le_month]
  have := date.day_mem
  unfold dayOfYear
  omega

theorem dayOfYear_lt : date.dayOfYear < yearLength date.year := by
  rw [← daysBeforeMonth_thirteen]
  refine date.dayOfYear_lt_daysBeforeMonth.trans_le (daysBeforeMonth_mono _ (by omega) ?_)
  have := date.month_le
  omega

/-- A day has one date. -/
theorem dayNumber_injective : Function.Injective dayNumber := by
  intro date date' h
  have hyear : date.year = date'.year := by
    have := date.dayOfYear_nonneg
    have := date.dayOfYear_lt
    have := date'.dayOfYear_nonneg
    have := date'.dayOfYear_lt
    have hsucc := daysBeforeYear_succ date.year
    have hsucc' := daysBeforeYear_succ date'.year
    unfold dayNumber at h
    apply year_unique (show daysBeforeYear date.year ≤ dayNumber date by unfold dayNumber; omega) <;>
      unfold dayNumber <;> omega
  have hday : date.dayOfYear = date'.dayOfYear := by
    unfold dayNumber at h
    rw [hyear] at h
    omega
  have hmonth : date.month = date'.month := by
    have hlt := date.dayOfYear_lt_daysBeforeMonth
    have hlt' := date'.dayOfYear_lt_daysBeforeMonth
    have hmem := date.day_mem
    have hmem' := date'.day_mem
    unfold dayOfYear at hday hlt hlt'
    rw [hyear] at hday hlt hmem
    rcases lt_trichotomy date.month date'.month with hm | hm | hm
    · have := daysBeforeMonth_mono date'.year (by omega) (show date.month + 1 ≤ date'.month from hm)
      omega
    · exact hm
    · have := daysBeforeMonth_mono date'.year (by omega) (show date'.month + 1 ≤ date.month from hm)
      omega
  refine Date.ext hyear hmonth ?_
  unfold dayOfYear at hday
  rw [hyear, hmonth] at hday
  omega

end Date

end Gregorian
