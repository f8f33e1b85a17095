import Mathlib.Algebra.Order.Group.Unbundled.Abs
import Mathlib.Algebra.Order.Group.Unbundled.Int
import Mathlib.Data.Option.Basic
import Mathlib.Tactic.Ring
import Vespertine.Library.Gregorian

/-!
# Dates and times

`epoch_to_datetime` takes a number of seconds apart into the fields of a date and a time of day, and
`datetime_to_epoch` puts them together again.  The first computes with `i32`s, which may overflow;
the second with `i64`s, which no values of the fields can make overflow.
-/

namespace Vespertine
namespace Calendar

open Gregorian

/-- A step on `i32`s, `none` if it overflows. -/
def i32 (value : Int) : Option Int :=
  if -2 ^ 31 ≤ value ∧ value < 2 ^ 31 then some value else none

/-- `as i32`. -/
def asI32 (value : Int) : Int := value.bmod (2 ^ 32)

/-- `as u32`. -/
def asU32 (value : Int) : Nat := (value % 2 ^ 32).toNat

/-- The year is an `i32`, the other fields are `u32`s. -/
structure DateTime where
  year : Int
  month : Nat
  day : Nat
  hour : Nat
  minute : Nat
  second : Nat
  deriving DecidableEq, Repr

/-- Whole days, and the remaining seconds. -/
def splitDays (epochSecs : Int) : Option (Int × Int) := do
  let days := asI32 (epochSecs.tdiv 86400)
  let secsOfDay := asI32 (epochSecs.tmod 86400)
  if secsOfDay < 0 then
    let secsOfDay ← i32 (secsOfDay + 86400)
    let days ← i32 (days - 1)
    return (days, secsOfDay)
  else
    return (days, secsOfDay)

/-- The year of an era of 400 years, given the day of the era. -/
def yearOfEra (doe : Int) : Option Int := do
  let days ← i32 (doe - doe.tdiv 1460)
  let days ← i32 (days + doe.tdiv 36524)
  let days ← i32 (days - doe.tdiv 146096)
  return days.tdiv 365

/-- The day of the year, given the day and the year of the era. -/
def dayOfYear (doe yoe : Int) : Option Int := do
  let start ← i32 (365 * yoe)
  let start ← i32 (start + yoe.tdiv 4)
  let start ← i32 (start - yoe.tdiv 100)
  i32 (doe - start)

/-- The date part of `epoch_to_datetime`. -/
def civilFromDays (days : Int) : Option (Int × Nat × Nat) := do
  let daysShifted ← i32 (days + 719468)
  let floor ← (if 0 ≤ daysShifted then pure daysShifted else i32 (daysShifted - 146096))
  let era := floor.tdiv 146097
  let eraStart ← i32 (era * 146097)
  let doe ← i32 (daysShifted - eraStart)
  let yoe ← yearOfEra doe
  let eraYear ← i32 (era * 400)
  let year ← i32 (yoe + eraYear)
  let doy ← dayOfYear doe yoe
  let scaled ← i32 (5 * doy)
  let scaled ← i32 (scaled + 2)
  let mp := scaled.tdiv 153
  let scaled ← i32 (153 * mp)
  let scaled ← i32 (scaled + 2)
  let day ← i32 (doy - scaled.tdiv 5)
  let day ← i32 (day + 1)
  let month ← (if mp < 10 then i32 (mp + 3) else i32 (mp - 9))
  let year ← i32 (year + if asU32 month ≤ 2 then 1 else 0)
  return (year, asU32 month, asU32 day)

/-- `epoch_to_datetime`. -/
def epochToDatetime (epochSecs : Int) : Option DateTime := do
  let (days, secsOfDay) ← splitDays epochSecs
  let hour := asU32 (secsOfDay.tdiv 3600)
  let remSecs := secsOfDay.tmod 3600
  let minute := asU32 (remSecs.tdiv 60)
  let second := asU32 (remSecs.tmod 60)
  let (year, month, day) ← civilFromDays days
  return ⟨year, month, day, hour, minute, second⟩

/-- The date part of `datetime_to_epoch`. -/
def daysFromCivil (year month day : Int) : Int :=
  let y := year - if month ≤ 2 then 1 else 0
  let era := (if 0 ≤ y then y else y - 399).tdiv 400
  let yoe := y - era * 400
  let doy := (153 * (if month > 2 then month - 3 else month + 9) + 2).tdiv 5 + day - 1
  let doe := yoe * 365 + yoe.tdiv 4 - yoe.tdiv 100 + doy
  era * 146097 + doe - 719468

/-- `datetime_to_epoch`; the products of the time of day are `u32`s. -/
def datetimeToEpoch (dt : DateTime) : Int :=
  let ts := daysFromCivil dt.year dt.month dt.day
  ts * 86400 + (dt.hour * 3600 % 2 ^ 32 : Nat) + (dt.minute * 60 % 2 ^ 32 : Nat) + dt.second

/-- A date of the proleptic Gregorian calendar, and a time of day. -/
structure DateTime.Valid (dt : DateTime) : Prop where
  date : ValidDate dt.year dt.month dt.day
  hour_lt : dt.hour < 24
  minute_lt : dt.minute < 60
  second_lt : dt.second < 60

/-- The lexicographic order of the fields. -/
def DateTime.Before (dt other : DateTime) : Prop :=
  dt.year < other.year ∨ dt.year = other.year ∧
    (dt.month < other.month ∨ dt.month = other.month ∧
      (dt.day < other.day ∨ dt.day = other.day ∧
        (dt.hour < other.hour ∨ dt.hour = other.hour ∧
          (dt.minute < other.minute ∨ dt.minute = other.minute ∧ dt.second < other.second))))

/-! ## Integer steps -/

section Steps

theorem i32_of_bounds {value : Int} (ge : -2 ^ 31 ≤ value) (lt : value < 2 ^ 31) :
    i32 value = some value := if_pos ⟨ge, lt⟩

/-- Go on after a step that does not overflow. -/
theorem i32_bind {α : Type} {value : Int} {rest : Int → Option α} (ge : -2 ^ 31 ≤ value)
    (lt : value < 2 ^ 31) : (i32 value >>= rest) = rest value := by
  rw [i32_of_bounds ge lt]
  rfl

theorem asI32_of_bounds {value : Int} (ge : -2 ^ 31 ≤ value) (lt : value < 2 ^ 31) :
    asI32 value = value := Int.bmod_eq_of_le (by omega) (by omega)

theorem asU32_of_bounds {value : Int} (nonneg : 0 ≤ value) (lt : value < 2 ^ 32) :
    (asU32 value : Int) = value := by
  rw [asU32, Int.emod_eq_of_lt nonneg lt]
  exact Int.toNat_of_nonneg nonneg

/-- Division that rounds toward zero rounds down if a negative value is shifted first. -/
theorem tdiv_shift (value : Int) {size : Int} (pos : 0 < size) :
    (if 0 ≤ value then value else value - (size - 1)).tdiv size = value / size := by
  split
  next nonneg => exact Int.tdiv_eq_ediv_of_nonneg nonneg
  next neg =>
    have rest_nonneg := Int.emod_nonneg value pos.ne'
    have rest_lt := Int.emod_lt_of_pos value pos
    have value_eq := Int.mul_ediv_add_emod value size
    have split : size - 1 - value = (size - 1 - value % size) + size * -(value / size) := by
      rw [mul_neg]
      omega
    rw [show value - (size - 1) = -(size - 1 - value) by omega, Int.neg_tdiv,
      Int.tdiv_eq_ediv_of_nonneg (by omega), split, Int.add_mul_ediv_left _ _ pos.ne',
      Int.ediv_eq_zero_of_lt (by omega) (by omega), zero_add, neg_neg]

end Steps

/-! ## The year of an era -/

section Era

/-- The days of an era without most of the leap days, of which `yearOfEra` takes the 365th part. -/
def evened (doe : Nat) : Nat := doe - doe / 1460 + doe / 36524 - doe / 146096

/-- The first day of a year of an era. -/
def eraYearStart (yoe : Nat) : Nat := 365 * yoe + yoe / 4 - yoe / 100 + yoe / 400

theorem evened_mono : Monotone evened := by
  refine monotone_nat_of_le_succ fun doe => ?_
  have fourth (days : Nat) : days / 146096 = days / 36524 / 4 :=
    (Nat.div_div_eq_div_mul days 36524 4).symm
  simp only [evened, fourth]
  omega

/-- The first and the last day of each year. -/
theorem evened_year : ∀ yoe < 400, 365 * yoe ≤ evened (eraYearStart yoe) ∧
    evened (eraYearStart (yoe + 1) - 1) < 365 * (yoe + 1) := by
  decide +kernel

theorem exists_year {doe : Nat} (years : Nat) (lt : doe < eraYearStart years) :
    ∃ yoe < years, eraYearStart yoe ≤ doe ∧ doe < eraYearStart (yoe + 1) := by
  induction years with
  | zero => exact absurd lt (Nat.not_lt_zero doe)
  | succ years ih =>
      by_cases earlier : doe < eraYearStart years
      · obtain ⟨yoe, yoe_lt, inside⟩ := ih earlier
        exact ⟨yoe, Nat.lt_succ_of_lt yoe_lt, inside⟩
      · exact ⟨years, Nat.lt_succ_self years, Nat.not_lt.mp earlier, lt⟩

/-- The quotient is the year that the day is in. -/
theorem evened_div {doe : Nat} (lt : doe < 146097) :
    evened doe / 365 < 400 ∧ eraYearStart (evened doe / 365) ≤ doe ∧
      doe < eraYearStart (evened doe / 365 + 1) := by
  obtain ⟨yoe, yoe_lt, start_le, lt_start⟩ := exists_year 400 lt
  obtain ⟨first, last⟩ := evened_year yoe yoe_lt
  have ge : 365 * yoe ≤ evened doe := first.trans (evened_mono start_le)
  have below : evened doe < 365 * (yoe + 1) :=
    (evened_mono (Nat.le_sub_one_of_lt lt_start)).trans_lt last
  obtain rfl : evened doe / 365 = yoe := by omega
  exact ⟨yoe_lt, start_le, lt_start⟩

theorem yearStart_natCast (yoe : Nat) : yearStart yoe = eraYearStart yoe := by
  simp only [yearStart, eraYearStart]
  omega

/-- The year of the era, without overflow. -/
theorem yearOfEra_spec {doe : Int} (nonneg : 0 ≤ doe) (lt : doe < 146097) :
    ∃ yoe, yearOfEra doe = some yoe ∧ 0 ≤ yoe ∧ yoe < 400 ∧ yearStart yoe ≤ doe ∧
      doe < yearStart (yoe + 1) := by
  obtain ⟨days, rfl⟩ := Int.eq_ofNat_of_zero_le nonneg
  obtain ⟨year_lt, start_le, lt_start⟩ := evened_div (show days < 146097 by omega)
  refine ⟨(evened days / 365 : Nat), ?_, by omega, by omega, ?_, ?_⟩
  · rw [yearOfEra, Int.tdiv_eq_ediv_of_nonneg nonneg, Int.tdiv_eq_ediv_of_nonneg nonneg,
      Int.tdiv_eq_ediv_of_nonneg nonneg, i32_bind (by omega) (by omega),
      i32_bind (by omega) (by omega), i32_bind (by omega) (by omega),
      Int.tdiv_eq_ediv_of_nonneg (by omega)]
    refine congrArg some ?_
    simp only [evened]
    omega
  · rw [yearStart_natCast]
    omega
  · have next_start := yearStart_natCast (evened days / 365 + 1)
    push_cast at next_start
    push_cast
    omega

end Era

/-! ## Days and dates -/

section Dates

/-- An era is a whole number of days. -/
theorem yearStart_era (era : Int) {yoe : Int} (nonneg : 0 ≤ yoe) (lt : yoe < 400) :
    yearStart (era * 400 + yoe) = era * 146097 + (365 * yoe + yoe / 4 - yoe / 100) := by
  simp only [yearStart]
  omega

theorem yearStart_add (era yoe : Int) :
    yearStart (era * 400 + yoe) = era * 146097 + yearStart yoe := by
  simp only [yearStart]
  omega

theorem dayOfYear_eq {doe yoe : Int} (nonneg : 0 ≤ yoe) (lt : yoe < 400)
    (start_le : yearStart yoe ≤ doe) (doe_lt : doe < 146097) :
    dayOfYear doe yoe = some (doe - yearStart yoe) := by
  have start_eq := yearStart_era 0 nonneg lt
  rw [zero_mul, zero_add, zero_mul, zero_add] at start_eq
  rw [start_eq] at start_le ⊢
  rw [dayOfYear, Int.tdiv_eq_ediv_of_nonneg nonneg, Int.tdiv_eq_ediv_of_nonneg nonneg,
    i32_bind (by omega) (by omega), i32_bind (by omega) (by omega),
    i32_bind (by omega) (by omega), i32_of_bounds (by omega) (by omega)]

variable {start days doy mp : Int} {month day : Nat}

/-- The day of a year that begins in March determines month and day. -/
theorem date_of_dayOfYear (start_le : yearStart start ≤ days)
    (lt_start : days < yearStart (start + 1)) (doy_eq : doy = days - yearStart start)
    (mp_eq : mp = (5 * doy + 2) / 153)
    (month_eq : (month : Int) = if mp < 10 then mp + 3 else mp - 9)
    (day_eq : (day : Int) = doy - (153 * mp + 2) / 5 + 1) :
    ValidDate (start + if month ≤ 2 then 1 else 0) month day ∧
      dayNumber (start + if month ≤ 2 then 1 else 0) month day = days := by
  have length_le : yearStart (start + 1) ≤ yearStart start + 366 := by
    rw [yearStart_succ]
    split <;> omega
  have mp_lt : mp < 12 := by omega
  have index_eq : monthIndex (start + if month ≤ 2 then 1 else 0) month = 12 * start + mp := by
    simp only [monthIndex]
    split <;> split at month_eq <;> omega
  have first_eq : monthStart (12 * start + mp) = yearStart start + (153 * mp + 2) / 5 :=
    monthStart_eq start (by omega) mp_lt
  have number_eq : dayNumber (start + if month ≤ 2 then 1 else 0) month day = days := by
    rw [dayNumber, index_eq, first_eq]
    omega
  refine ⟨(validDate_iff (by split at month_eq <;> omega) (by split at month_eq <;> omega)
    (by omega)).mpr ?_, number_eq⟩
  rw [number_eq, index_eq]
  by_cases last : mp = 11
  · have next_eq := monthStart_eq (start + 1) le_rfl (show (0 : Int) < 12 by decide)
    rw [last, show 12 * start + 11 + 1 = 12 * (start + 1) + 0 by ring, next_eq]
    omega
  · have next_eq := monthStart_eq start (show 0 ≤ mp + 1 by omega) (show mp + 1 < 12 by omega)
    rw [Int.add_assoc, next_eq]
    omega

/-- The days that `epoch_to_datetime` converts without overflow. -/
def InRange (days : Int) : Prop := -2 ^ 31 + 1 ≤ days ∧ days ≤ 2 ^ 31 - 1 - 719468

/-- No step of the date part overflows, and it finds the date of the day. -/
theorem civilFromDays_spec (inRange : InRange days) :
    ∃ year month day, civilFromDays days = some (year, month, day) ∧ ValidDate year month day ∧
      dayNumber year month day = days + 719468 := by
  obtain ⟨ge, le⟩ := inRange
  generalize shifted_eq : days + 719468 = shifted at *
  have era_bounds : 146097 * (shifted / 146097) ≤ shifted ∧
    shifted < 146097 * (shifted / 146097) + 146097 := by omega
  generalize era_eq : shifted / 146097 = era at *
  obtain ⟨yoe, yoe_eq, yoe_nonneg, yoe_lt, start_le, lt_start⟩ :=
    yearOfEra_spec (show 0 ≤ shifted - era * 146097 by omega) (by omega)
  have doy_eq := dayOfYear_eq yoe_nonneg yoe_lt start_le (by omega)
  have doy_le : shifted - era * 146097 - yearStart yoe ≤ 365 := by
    rw [yearStart_succ] at lt_start
    split at lt_start <;> omega
  generalize doy_def : shifted - era * 146097 - yearStart yoe = doy at *
  generalize mp_def : (5 * doy + 2) / 153 = mp
  have floor_eq : (if 0 ≤ shifted then pure shifted else i32 (shifted - 146096)) =
      some (if 0 ≤ shifted then shifted else shifted - (146097 - 1)) := by
    split
    next => rfl
    next => exact i32_of_bounds (by omega) (by omega)
  have month_eq : (if mp < 10 then i32 (mp + 3) else i32 (mp - 9)) =
      some (if mp < 10 then mp + 3 else mp - 9) := by
    split <;> exact i32_of_bounds (by omega) (by omega)
  generalize month_def : (if mp < 10 then mp + 3 else mp - 9) = month at *
  have month_cast : (asU32 month : Int) = month :=
    asU32_of_bounds (by split at month_def <;> omega) (by split at month_def <;> omega)
  have day_cast : (asU32 (doy - (153 * mp + 2) / 5 + 1) : Int) = doy - (153 * mp + 2) / 5 + 1 :=
    asU32_of_bounds (by omega) (by omega)
  have whole := yearStart_add era yoe
  have whole_succ := yearStart_add era (yoe + 1)
  rw [← Int.add_assoc] at whole_succ
  have start_le' : yearStart (era * 400 + yoe) ≤ shifted := by omega
  obtain ⟨valid, number_eq⟩ := date_of_dayOfYear start_le' (by omega)
    (show doy = shifted - yearStart (era * 400 + yoe) by omega) mp_def.symm
    (month_cast.trans month_def.symm) day_cast
  refine ⟨_, _, _, ?_, valid, number_eq⟩
  have bind_some {α β : Type} (value : α) (rest : α → Option β) :
      (some value >>= rest) = rest value := rfl
  rw [civilFromDays, shifted_eq, i32_bind (by omega) (by omega), floor_eq, bind_some,
    tdiv_shift shifted (by decide), era_eq, i32_bind (by omega) (by omega),
    i32_bind (by omega) (by omega), yoe_eq, bind_some, i32_bind (by omega) (by omega),
    i32_bind (by omega) (by omega), doy_eq, bind_some, i32_bind (by omega) (by omega),
    i32_bind (by omega) (by omega), Int.tdiv_eq_ediv_of_nonneg (by omega), mp_def,
    i32_bind (by omega) (by omega), i32_bind (by omega) (by omega),
    Int.tdiv_eq_ediv_of_nonneg (by omega), i32_bind (by omega) (by omega),
    i32_bind (by omega) (by omega), month_eq, bind_some,
    i32_bind (by split <;> omega) (by split <;> omega), Int.add_comm yoe]
  rfl

/-- The date part of `datetime_to_epoch` numbers the days from 1 January 1970. -/
theorem daysFromCivil_eq (year : Int) (pos : 1 ≤ month) (le : month ≤ 12) :
    daysFromCivil year month day = dayNumber year month day - 719468 := by
  have start_eq (start : Int) :
      (if 0 ≤ start then start else start - 399).tdiv 400 * 146097 +
        ((start - (if 0 ≤ start then start else start - 399).tdiv 400 * 400) * 365 +
        (start - (if 0 ≤ start then start else start - 399).tdiv 400 * 400).tdiv 4 -
        (start - (if 0 ≤ start then start else start - 399).tdiv 400 * 400).tdiv 100) =
      yearStart start := by
    rw [show (399 : Int) = 400 - 1 from rfl, tdiv_shift start (by decide),
      Int.tdiv_eq_ediv_of_nonneg (by omega), Int.tdiv_eq_ediv_of_nonneg (by omega)]
    simp only [yearStart]
    omega
  have year_start := start_eq (year - if (month : Int) ≤ 2 then 1 else 0)
  simp only [daysFromCivil, dayNumber]
  by_cases winter : month ≤ 2
  · rw [if_pos (show (month : Int) ≤ 2 by omega)] at year_start ⊢
    rw [if_neg (show ¬(month : Int) > 2 by omega), monthStart_january year winter, ← year_start,
      Int.tdiv_eq_ediv_of_nonneg (show 0 ≤ 153 * ((month : Int) + 9) + 2 by omega)]
    omega
  · rw [if_neg (show ¬(month : Int) ≤ 2 by omega)] at year_start ⊢
    rw [sub_zero] at year_start ⊢
    rw [if_pos (show (month : Int) > 2 by omega), monthStart_march year (by omega) le, ← year_start,
      Int.tdiv_eq_ediv_of_nonneg (show 0 ≤ 153 * ((month : Int) - 3) + 2 by omega)]
    omega

end Dates

/-! ## Seconds -/

section Seconds

theorem splitDays_eq {epochSecs : Int} (inRange : InRange (epochSecs / 86400)) :
    splitDays epochSecs = some (epochSecs / 86400, epochSecs % 86400) := by
  obtain ⟨ge, le⟩ := inRange
  rw [splitDays, Int.tdiv_eq_ediv, Int.tmod_eq_emod]
  split
  next whole =>
    simp only [add_zero, Nat.cast_zero, sub_zero]
    rw [asI32_of_bounds (by omega) (by omega), asI32_of_bounds (by omega) (by omega),
      if_neg (by omega)]
    rfl
  next part =>
    rw [show (86400 : Int).sign = 1 from rfl, show ((86400 : Int).natAbs : Int) = 86400 from rfl,
      asI32_of_bounds (by omega) (by omega), asI32_of_bounds (by omega) (by omega)]
    simp only [if_pos (show epochSecs % 86400 - 86400 < 0 by omega)]
    rw [sub_add_cancel, i32_bind (by omega) (by omega), add_sub_cancel_right,
      i32_bind (by omega) (by omega)]
    rfl

variable {dt other : DateTime}

/-- The seconds of a valid time, without the wrapping of its products. -/
theorem datetimeToEpoch_eq (valid : dt.Valid) : datetimeToEpoch dt =
    (dayNumber dt.year dt.month dt.day - 719468) * 86400 +
      (dt.hour * 3600 + dt.minute * 60 + dt.second : Nat) := by
  have hour_lt := valid.hour_lt
  have minute_lt := valid.minute_lt
  simp only [datetimeToEpoch]
  rw [daysFromCivil_eq dt.year valid.date.month_pos valid.date.month_le,
    Nat.mod_eq_of_lt (show dt.hour * 3600 < 2 ^ 32 by omega),
    Nat.mod_eq_of_lt (show dt.minute * 60 < 2 ^ 32 by omega)]
  omega

theorem datetimeToEpoch_div (valid : dt.Valid) :
    datetimeToEpoch dt / 86400 = dayNumber dt.year dt.month dt.day - 719468 := by
  have hour_lt := valid.hour_lt
  have minute_lt := valid.minute_lt
  have second_lt := valid.second_lt
  rw [datetimeToEpoch_eq valid]
  omega

/-- `epoch_to_datetime` does not overflow, and its result is valid and is the same time. -/
theorem epochToDatetime_spec {epochSecs : Int} (inRange : InRange (epochSecs / 86400)) :
    ∃ dt, epochToDatetime epochSecs = some dt ∧ dt.Valid ∧ datetimeToEpoch dt = epochSecs := by
  obtain ⟨year, month, day, civil_eq, date, number_eq⟩ := civilFromDays_spec inRange
  have secs_nonneg := Int.emod_nonneg epochSecs (show (86400 : Int) ≠ 0 by decide)
  have secs_lt := Int.emod_lt_of_pos epochSecs (show (0 : Int) < 86400 by decide)
  generalize secs_eq : epochSecs % 86400 = secs at *
  have hour_cast : (asU32 (secs / 3600) : Int) = secs / 3600 :=
    asU32_of_bounds (by omega) (by omega)
  have minute_cast : (asU32 (secs % 3600 / 60) : Int) = secs % 3600 / 60 :=
    asU32_of_bounds (by omega) (by omega)
  have second_cast : (asU32 (secs % 3600 % 60) : Int) = secs % 3600 % 60 :=
    asU32_of_bounds (by omega) (by omega)
  have valid : DateTime.Valid ⟨year, month, day, asU32 (secs / 3600), asU32 (secs % 3600 / 60),
    asU32 (secs % 3600 % 60)⟩ := ⟨date, show asU32 (secs / 3600) < 24 by omega,
      show asU32 (secs % 3600 / 60) < 60 by omega, show asU32 (secs % 3600 % 60) < 60 by omega⟩
  refine ⟨_, ?_, valid, ?_⟩
  · rw [epochToDatetime, splitDays_eq inRange, secs_eq]
    simp only [Option.bind_eq_bind, Option.bind_some, civil_eq]
    rw [Int.tdiv_eq_ediv_of_nonneg secs_nonneg, Int.tmod_eq_emod_of_nonneg secs_nonneg,
      Int.tdiv_eq_ediv_of_nonneg (by omega), Int.tmod_eq_emod_of_nonneg (by omega)]
    rfl
  · rw [datetimeToEpoch_eq valid]
    simp only [number_eq]
    omega

/-- Later times have greater numbers. -/
theorem datetimeToEpoch_lt (valid : dt.Valid) (valid' : other.Valid) (before : dt.Before other) :
    datetimeToEpoch dt < datetimeToEpoch other := by
  have minute_lt := valid.minute_lt
  have second_lt := valid.second_lt
  have hour_lt := valid.hour_lt
  rw [datetimeToEpoch_eq valid, datetimeToEpoch_eq valid']
  by_cases same : dt.year = other.year ∧ dt.month = other.month ∧ dt.day = other.day
  · obtain ⟨year_eq, month_eq, day_eq⟩ := same
    rw [year_eq, month_eq, day_eq]
    simp only [DateTime.Before] at before
    omega
  · have days_lt := dayNumber_lt valid.date valid'.date (by
      simp only [DateTime.Before] at before
      omega)
    omega

theorem before_trichotomy (dt other : DateTime) :
    dt.Before other ∨ dt = other ∨ other.Before dt := by
  cases dt
  cases other
  simp only [DateTime.Before, DateTime.mk.injEq]
  omega

theorem datetimeToEpoch_inj (valid : dt.Valid) (valid' : other.Valid)
    (eq : datetimeToEpoch dt = datetimeToEpoch other) : dt = other := by
  rcases before_trichotomy dt other with before | same | after
  · exact absurd eq (datetimeToEpoch_lt valid valid' before).ne
  · exact same
  · exact absurd eq (datetimeToEpoch_lt valid' valid after).ne'

/-- The times of ten million years can be converted. -/
theorem inRange_of_year (valid : dt.Valid) (year_le : |dt.year| ≤ 5000000) :
    InRange (datetimeToEpoch dt / 86400) := by
  obtain ⟨year_ge, year_le⟩ := abs_le.mp year_le
  obtain ⟨start_le, lt_start⟩ := dayNumber_bounds valid.date
  rw [datetimeToEpoch_div valid]
  simp only [yearStart] at start_le lt_start
  constructor <;> omega

/-- The two conversions are inverse to each other, on these domains, and keep the order. -/
theorem calendar_bijection :
    (∀ epochSecs, InRange (epochSecs / 86400) → ∃ dt, epochToDatetime epochSecs = some dt ∧
      dt.Valid ∧ datetimeToEpoch dt = epochSecs) ∧
    (∀ dt : DateTime, dt.Valid → |dt.year| ≤ 5000000 →
      epochToDatetime (datetimeToEpoch dt) = some dt) ∧
    (∀ first second dt other, InRange (first / 86400) → InRange (second / 86400) →
      epochToDatetime first = some dt → epochToDatetime second = some other → first < second →
        dt.Before other) ∧
    ∀ dt other : DateTime, dt.Valid → other.Valid → dt.Before other →
      datetimeToEpoch dt < datetimeToEpoch other := by
  refine ⟨fun _ => epochToDatetime_spec, fun dt valid year_le => ?_,
    fun first second dt other inRange inRange' dt_eq other_eq lt => ?_,
    fun _ _ => datetimeToEpoch_lt⟩
  · obtain ⟨back, back_eq, back_valid, same⟩ :=
      epochToDatetime_spec (inRange_of_year valid year_le)
    rw [back_eq, datetimeToEpoch_inj back_valid valid same]
  · obtain ⟨dt', dt_eq', valid, rfl⟩ := epochToDatetime_spec inRange
    obtain ⟨other', other_eq', valid', rfl⟩ := epochToDatetime_spec inRange'
    cases dt_eq.symm.trans dt_eq'
    cases other_eq.symm.trans other_eq'
    rcases before_trichotomy dt other with before | rfl | after
    · exact before
    · exact absurd lt (lt_irrefl _)
    · exact absurd lt (datetimeToEpoch_lt valid' valid after).not_gt

example : epochToDatetime 951782400 = some ⟨2000, 2, 29, 0, 0, 0⟩ := by decide +kernel

end Seconds

end Calendar
end Vespertine
