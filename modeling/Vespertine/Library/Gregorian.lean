import Mathlib.Data.Int.ConditionallyCompleteOrder
import Mathlib.Tactic.IntervalCases

/-!
# The proleptic Gregorian calendar

Days and months are counted from 1 March of the year 0, so that the day that a leap year adds is the
last one of its twelve months.  The first days of the months increase, each by the length of a
month; a day is therefore in one month only, and days come in the order of their dates.
-/

namespace Vespertine
namespace Gregorian

/-- The year has a 29 February. -/
def IsLeap (year : ℤ) : Prop := 4 ∣ year ∧ (¬100 ∣ year ∨ 400 ∣ year)

instance (year : ℤ) : Decidable (IsLeap year) := inferInstanceAs (Decidable (_ ∧ _))

def daysInMonth (year : ℤ) (month : ℕ) : ℕ :=
  if month = 2 then
    if IsLeap year then 29 else 28
  else if month = 4 ∨ month = 6 ∨ month = 9 ∨ month = 11 then
    30
  else
    31

/-! ## Years and months that begin in March -/

/-- The first day of a year that begins in March. -/
def yearStart (year : ℤ) : ℤ := 365 * year + year / 4 - year / 100 + year / 400

/-- The first day of a month, counted from March of the year 0. -/
def monthStart (index : ℤ) : ℤ := yearStart (index / 12) + (153 * (index % 12) + 2) / 5

/-- The number of a month. -/
def monthIndex (year : ℤ) (month : ℕ) : ℤ := 12 * year + month - 3

/-- The number of a day. -/
def dayNumber (year : ℤ) (month day : ℕ) : ℤ := monthStart (monthIndex year month) + day - 1

theorem yearStart_succ (year : ℤ) :
    yearStart (year + 1) = yearStart year + if IsLeap (year + 1) then 366 else 365 := by
  simp only [yearStart]
  by_cases leap : IsLeap (year + 1)
  · rw [if_pos leap]
    obtain ⟨four, not_hundred | four_hundred⟩ := leap <;> omega
  · rw [if_neg leap]
    by_cases four : 4 ∣ year + 1
    · have hundred : 100 ∣ year + 1 := by
        by_contra not_hundred
        exact leap ⟨four, .inl not_hundred⟩
      have not_four_hundred : ¬400 ∣ year + 1 := fun divides => leap ⟨four, .inr divides⟩
      omega
    · omega

theorem monthStart_eq (year : ℤ) {month : ℤ} (nonneg : 0 ≤ month) (lt : month < 12) :
    monthStart (12 * year + month) = yearStart year + (153 * month + 2) / 5 := by
  rw [monthStart, show (12 * year + month) / 12 = year by omega,
    show (12 * year + month) % 12 = month by omega]

/-- The first day of a month from March to December. -/
theorem monthStart_march (year : ℤ) {month : ℕ} (ge : 3 ≤ month) (le : month ≤ 12) :
    monthStart (monthIndex year month) = yearStart year + (153 * ((month : ℤ) - 3) + 2) / 5 := by
  rw [monthIndex, show 12 * year + (month : ℤ) - 3 = 12 * year + (month - 3) by omega]
  exact monthStart_eq year (by omega) (by omega)

/-- January and February belong to the year that began in the March before. -/
theorem monthStart_january (year : ℤ) {month : ℕ} (le : month ≤ 2) :
    monthStart (monthIndex year month) =
      yearStart (year - 1) + (153 * ((month : ℤ) + 9) + 2) / 5 := by
  rw [monthIndex, show 12 * year + (month : ℤ) - 3 = 12 * (year - 1) + (month + 9) by omega]
  exact monthStart_eq (year - 1) (by omega) (by omega)

/-- Each month begins when the one before it ends. -/
theorem monthStart_succ (year : ℤ) {month : ℕ} (pos : 1 ≤ month) (le : month ≤ 12) :
    monthStart (monthIndex year month + 1) =
      monthStart (monthIndex year month) + daysInMonth year month := by
  have next (month : ℕ) : monthIndex year month + 1 = monthIndex year (month + 1) := by
    simp only [monthIndex]
    omega
  rcases (by omega : month = 1 ∨ month = 2 ∨ month = 12 ∨ 3 ≤ month ∧ month < 12) with
    rfl | rfl | rfl | ⟨ge, lt⟩
  · rw [next, monthStart_january year (by decide), monthStart_january year (by decide)]
    simp [daysInMonth]
    omega
  · -- The year that begins in March ends here.
    have year_succ := yearStart_succ (year - 1)
    rw [sub_add_cancel] at year_succ
    rw [next, monthStart_march year (show 3 ≤ 2 + 1 by decide) (by decide),
      monthStart_january year le_rfl, year_succ, daysInMonth, if_pos rfl]
    by_cases leap : IsLeap year
    · rw [if_pos leap, if_pos leap]
      omega
    · rw [if_neg leap, if_neg leap]
      omega
  · have january : monthIndex year 12 + 1 = monthIndex (year + 1) 1 := by
      simp only [monthIndex]
      omega
    rw [january, monthStart_january (year + 1) (by decide),
      monthStart_march year (by decide) (by decide), add_sub_cancel_right]
    simp [daysInMonth]
    omega
  · rw [next, monthStart_march year (by omega) (by omega), monthStart_march year ge le]
    interval_cases month <;> simp [daysInMonth] <;> omega

theorem daysInMonth_pos (year : ℤ) (month : ℕ) : 0 < daysInMonth year month := by
  rw [daysInMonth]
  split_ifs <;> decide

theorem exists_month (index : ℤ) :
    ∃ year, ∃ month : ℕ, 1 ≤ month ∧ month ≤ 12 ∧ monthIndex year month = index := by
  refine ⟨(index + 2) / 12, ((index + 2) % 12).toNat + 1, by omega, by omega, ?_⟩
  simp only [monthIndex]
  omega

theorem monthStart_strictMono : StrictMono monthStart := by
  refine strictMono_int_of_lt_succ fun index => ?_
  obtain ⟨year, month, pos, le, rfl⟩ := exists_month index
  rw [monthStart_succ year pos le]
  have days_pos := daysInMonth_pos year month
  omega

/-! ## Days -/

/-- The month has such a day. -/
structure ValidDate (year : ℤ) (month day : ℕ) : Prop where
  month_pos : 1 ≤ month
  month_le : month ≤ 12
  day_pos : 1 ≤ day
  day_le : day ≤ daysInMonth year month

section Days

variable {year year' : ℤ} {month month' day day' : ℕ}

theorem validDate_iff (pos : 1 ≤ month) (le : month ≤ 12) (day_pos : 1 ≤ day) :
    ValidDate year month day ↔
      dayNumber year month day < monthStart (monthIndex year month + 1) := by
  rw [monthStart_succ year pos le, dayNumber]
  constructor
  · intro valid
    have day_le := valid.day_le
    omega
  · exact fun lt => ⟨pos, le, day_pos, by omega⟩

/-- A day lies between the first of March of the year before and that of the year after. -/
theorem dayNumber_bounds (valid : ValidDate year month day) :
    yearStart (year - 1) ≤ dayNumber year month day ∧
      dayNumber year month day < yearStart (year + 1) := by
  have month_pos := valid.month_pos
  have month_le := valid.month_le
  have day_pos := valid.day_pos
  have march (year : ℤ) : monthStart (12 * year) = yearStart year := by
    have first := monthStart_eq year le_rfl (show (0 : ℤ) < 12 by decide)
    rwa [add_zero, show (153 * 0 + 2) / 5 = (0 : ℤ) by decide, add_zero] at first
  constructor
  · have start_le : monthStart (12 * (year - 1)) ≤ monthStart (monthIndex year month) :=
      monthStart_strictMono.monotone (by simp only [monthIndex]; omega)
    rw [march] at start_le
    simp only [dayNumber]
    omega
  · have le_start : monthStart (monthIndex year month + 1) ≤ monthStart (12 * (year + 1)) :=
      monthStart_strictMono.monotone (by simp only [monthIndex]; omega)
    rw [march] at le_start
    exact ((validDate_iff month_pos month_le day_pos).mp valid).trans_le le_start

/-- Days are numbered in the order of their dates. -/
theorem dayNumber_lt (valid : ValidDate year month day) (valid' : ValidDate year' month' day')
    (before : year < year' ∨ year = year' ∧ (month < month' ∨ month = month' ∧ day < day')) :
    dayNumber year month day < dayNumber year' month' day' := by
  by_cases same : year = year' ∧ month = month'
  · obtain ⟨rfl, rfl⟩ := same
    simp only [dayNumber]
    omega
  · have month_le := valid.month_le
    have month_pos' := valid'.month_pos
    have later : monthIndex year month + 1 ≤ monthIndex year' month' := by
      simp only [monthIndex]
      omega
    have in_month := (validDate_iff valid.month_pos month_le valid.day_pos).mp valid
    calc dayNumber year month day < monthStart (monthIndex year month + 1) := in_month
      _ ≤ monthStart (monthIndex year' month') := monthStart_strictMono.monotone later
      _ ≤ dayNumber year' month' day' := by
        have day_pos' := valid'.day_pos
        simp only [dayNumber]
        omega

end Days

end Gregorian
end Vespertine
