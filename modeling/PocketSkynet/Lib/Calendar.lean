import Mathlib.Algebra.BigOperators.Group.List.Basic
import Mathlib.Algebra.Order.Ring.Int
import Mathlib.Data.List.Basic
import Mathlib.Tactic.IntervalCases

/-!
# The Proleptic Gregorian Calendar

Dates and the numbers of their days, counted from 1 January 1970. Every fourth year has a leap
day, but for the hundredth ones that are no four hundredth ones, in both directions of time.

A date carries the proof that its day exists. The number of its day is what the years before
it, the months before it and the days before it add up to.

## Main definitions

* `isLeap`, `daysInMonth`: The lengths of years and months.
* `Date`, `Date.number`: A date and the number of its day.
* `weekday`: The day of the week of a day, from Monday on.

## Theorems

* `yearStart_succ`: A year is as long as its days.
* `yearStart_add`: The calendar repeats after four hundred years.
-/

namespace PocketSkynet

namespace Calendar

def isLeap (year : ℤ) : Prop := year % 4 = 0 ∧ (year % 100 ≠ 0 ∨ year % 400 = 0)

instance (year : ℤ) : Decidable (isLeap year) := inferInstanceAs (Decidable (_ ∧ _))

/-- The leap day of a year, if it has one. -/
def leapDays (year : ℤ) : ℕ := if isLeap year then 1 else 0

def daysInMonth (year : ℤ) (month : ℕ) : ℕ :=
  match month with
  | 2 => 28 + leapDays year
  | 4 | 6 | 9 | 11 => 30
  | _ => 31

/-- The days of a year before a month. -/
def daysBefore (year : ℤ) (month : ℕ) : ℕ :=
  ((List.range (month - 1)).map fun m => daysInMonth year (m + 1)).sum

/-- The number of the first day of a year, counted from 1 January 1970. -/
def yearStart (year : ℤ) : ℤ :=
  365 * (year - 1) + (year - 1) / 4 - (year - 1) / 100 + (year - 1) / 400 - 719162

/-- A date whose day exists. -/
structure Date where
  year : ℤ
  month : ℕ
  day : ℕ
  month_pos : 1 ≤ month
  month_le : month ≤ 12
  day_pos : 1 ≤ day
  day_le : day ≤ daysInMonth year month

/-- The number of a date's day, counted from 1 January 1970. -/
def Date.number (d : Date) : ℤ := yearStart d.year + daysBefore d.year d.month + (d.day - 1)

/-- The day of the week, from Monday on: 1 January 1970 was a Thursday. -/
def weekday (number : ℤ) : ℤ := (number + 3) % 7

theorem leapDays_le (year : ℤ) : leapDays year ≤ 1 := by
  unfold leapDays
  split <;> omega

theorem daysBefore_succ (year : ℤ) {month : ℕ} (h : 1 ≤ month) :
    daysBefore year (month + 1) = daysBefore year month + daysInMonth year month := by
  rcases Nat.exists_eq_add_of_le' h with ⟨m, rfl⟩
  rw [daysBefore, daysBefore, Nat.add_sub_cancel, Nat.add_sub_cancel, List.range_succ,
    List.map_append, List.sum_append]
  simp

/-- A year is as long as its twelve months. -/
theorem daysBefore_year (year : ℤ) : daysBefore year 13 = 365 + leapDays year := by
  simp [daysBefore, daysInMonth, List.range_succ]
  omega

/-- A year begins where the one before it ends. -/
theorem yearStart_succ (year : ℤ) :
    yearStart (year + 1) = yearStart year + daysBefore year 13 := by
  rw [daysBefore_year, leapDays, yearStart, yearStart]
  by_cases hleap : isLeap year
  · rw [if_pos hleap]
    unfold isLeap at hleap
    push_cast
    omega
  · rw [if_neg hleap]
    unfold isLeap at hleap
    push_cast
    omega

-- The calendar repeats after four hundred years.
theorem isLeap_add (year era : ℤ) : isLeap (year + era * 400) ↔ isLeap year := by
  unfold isLeap
  omega

theorem yearStart_add (year era : ℤ) :
    yearStart (year + era * 400) = yearStart year + era * 146097 := by
  have hquarter : (year + era * 400 - 1) / 4 = (year - 1) / 4 + era * 100 := by omega
  have hcentury : (year + era * 400 - 1) / 100 = (year - 1) / 100 + era * 4 := by omega
  have hera : (year + era * 400 - 1) / 400 = (year - 1) / 400 + era := by omega
  rw [yearStart, yearStart, hquarter, hcentury, hera]
  omega

theorem daysBefore_mono (year : ℤ) {m n : ℕ} (hm : 1 ≤ m) (h : m ≤ n) :
    daysBefore year m ≤ daysBefore year n := by
  induction n, h using Nat.le_induction with
  | base => exact Nat.le_refl _
  | succ n hn ih =>
      rw [daysBefore_succ year (Nat.le_trans hm hn)]
      omega

-- The day of a date is in its month.
theorem Date.month_bounds (d : Date) :
    daysBefore d.year d.month ≤ daysBefore d.year d.month + (d.day - 1) ∧
      daysBefore d.year d.month + (d.day - 1) < daysBefore d.year (d.month + 1) := by
  have hpos := d.day_pos
  have hle := d.day_le
  rw [daysBefore_succ d.year d.month_pos]
  omega

-- And in its year.
theorem Date.year_bounds (d : Date) :
    yearStart d.year ≤ d.number ∧ d.number < yearStart (d.year + 1) := by
  have hmonth := d.month_bounds
  have hpos := d.day_pos
  have hlast : d.month + 1 ≤ 13 := by
    have hle := d.month_le
    omega
  have hyear := daysBefore_mono d.year (Nat.le_add_left 1 d.month) hlast
  rw [yearStart_succ, Date.number]
  omega

-- The numbers of the months' first days, for what computes with them.
theorem daysBefore_eq (year : ℤ) (month : ℕ) (hpos : 1 ≤ month) (hle : month ≤ 12) :
    daysBefore year month =
      if month ≤ 2 then 31 * (month - 1)
      else (153 * (month - 3) + 2) / 5 + 59 + leapDays year := by
  interval_cases month <;>
    simp [daysBefore, daysInMonth, List.range_succ] <;> omega

end Calendar

end PocketSkynet
