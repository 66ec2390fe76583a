import Mathlib.Tactic.Ring
import PocketSkynet.Lib.Calendar

/-!
# Civil Dates from Days

The two conversions the client and the local backend make by hand: the date of a day and the
day of a date. Both count years from March on, so that the leap day is the last day of a year,
and eras of four hundred years, which are all of one length.

In an era the year is guessed by one division. `eraYear_spec` says that the guess is right:
what is divided never falls while the days go by, and the table of the four hundred years says
where it begins and ends in each of them.

## Main definitions

* `civilFromDays`: The date of a day.
* `daysFromCivil`: The day of a date.

## Theorems

* `number_eq`: The number of a date's day, counted from March on.
* `civilFromDays_spec`: The date of a day is the one with its number.
* `daysFromCivil_eq`: The day of a date is its number.
-/

namespace PocketSkynet

namespace CivilDates

open Calendar

/-- The civil date of a day, as year, month and day: the days are shifted so that an era
    begins on 1 March of the year 0. -/
def civilFromDays (days : ℤ) : ℤ × ℤ × ℤ :=
  let z := days + 719468
  let era := z / 146097
  let doe := z % 146097
  let yoe := (doe - doe / 1460 + doe / 36524 - doe / 146096) / 365
  let y := yoe + era * 400
  let doy := doe - (365 * yoe + yoe / 4 - yoe / 100)
  let mp := (5 * doy + 2) / 153
  let d := doy - (153 * mp + 2) / 5 + 1
  let m := if mp < 10 then mp + 3 else mp - 9
  (if m ≤ 2 then y + 1 else y, m, d)

/-- The inverse. -/
def daysFromCivil (year month day : ℤ) : ℤ :=
  let y := if month ≤ 2 then year - 1 else year
  let era := y / 400
  let yoe := y - era * 400
  let mp := if month > 2 then month - 3 else month + 9
  let doy := (153 * mp + 2) / 5 + day - 1
  let doe := yoe * 365 + yoe / 4 - yoe / 100 + doy
  era * 146097 + doe - 719468

/-- What is divided by 365 to find the year of an era. -/
def dividend (doe : ℕ) : ℕ := doe - doe / 1460 + doe / 36524 - doe / 146096

/-- The first day of a year of an era. -/
def eraStart (year : ℕ) : ℕ := 365 * year + year / 4 - year / 100 + year / 400

theorem dividend_mono {a b : ℕ} (h : a ≤ b) (hb : b < 146097) : dividend a ≤ dividend b := by
  induction b, h using Nat.le_induction with
  | base => exact Nat.le_refl _
  | succ b hab ih =>
      have hstep : dividend b ≤ dividend (b + 1) := by
        unfold dividend
        omega
      exact Nat.le_trans (ih (by omega)) hstep

-- Where the dividend is in each year, on its first day and on its last.
theorem dividend_table : ∀ year : Fin 400, 365 * year.1 ≤ dividend (eraStart year.1) ∧
    dividend (eraStart (year.1 + 1) - 1) < 365 * (year.1 + 1) := by
  decide +kernel

-- The years of an era are those of the calendar from the year 0 on, from March to March.
theorem eraStart_eq (year : ℕ) : (eraStart year : ℤ) = yearStart (year + 1) + 719162 := by
  unfold eraStart yearStart
  omega

theorem eraStart_succ (year : ℕ) :
    eraStart (year + 1) = eraStart year + 365 + leapDays (year + 1) := by
  have hnext := eraStart_eq (year + 1)
  have hsucc := yearStart_succ (year + 1)
  rw [daysBefore_year] at hsucc
  have hthis := eraStart_eq year
  push_cast at hnext hsucc
  omega

theorem eraStart_pos (year : ℕ) : 0 < eraStart (year + 1) := by
  unfold eraStart
  omega

theorem eraStart_mono {a b : ℕ} (h : a ≤ b) : eraStart a ≤ eraStart b := by
  induction b, h using Nat.le_induction with
  | base => exact Nat.le_refl _
  | succ b _ ih =>
      have hstep : eraStart b ≤ eraStart (b + 1) := by
        unfold eraStart
        omega
      exact Nat.le_trans ih hstep

/-- A day of an era lies in the year that the division finds. -/
theorem eraYear_spec {doe : ℕ} (h : doe < 146097) :
    dividend doe / 365 < 400 ∧ eraStart (dividend doe / 365) ≤ doe ∧
      doe < eraStart (dividend doe / 365 + 1) := by
  have hlast : dividend doe ≤ dividend 146096 := dividend_mono (by omega) (by omega)
  have hend : dividend 146096 = 145999 := by decide
  have hyear : dividend doe / 365 < 400 := by omega
  have hwhole : eraStart 400 = 146097 := by decide
  refine ⟨hyear, ?_, ?_⟩
  · -- Before the year begins, the dividend is still that of the year before.
    by_contra hbefore
    cases hprev : dividend doe / 365 with
    | zero =>
        rw [hprev] at hbefore
        exact hbefore (Nat.zero_le _)
    | succ prev =>
        rw [hprev] at hbefore hyear
        have htable := (dividend_table ⟨prev, by omega⟩).2
        have hpos := eraStart_pos prev
        have hinside := eraStart_mono (Nat.le_of_lt hyear)
        have hmono : dividend doe ≤ dividend (eraStart (prev + 1) - 1) :=
          dividend_mono (by omega) (by omega)
        simp only at htable
        omega
  · by_contra hafter
    have hnext : dividend doe / 365 + 1 < 400 := by
      by_contra hfull
      have h400 : dividend doe / 365 + 1 = 400 := by omega
      rw [h400, hwhole] at hafter
      omega
    have htable := (dividend_table ⟨dividend doe / 365 + 1, hnext⟩).1
    have hmono : dividend (eraStart (dividend doe / 365 + 1)) ≤ dividend doe :=
      dividend_mono (by omega) h
    simp only at htable
    omega

/-- The number of a date's day, counted from March on: the days of the years, of the months
    and of the month before it. -/
theorem number_eq (date : Date) :
    date.number = yearStart (if date.month ≤ 2 then date.year else date.year + 1) - 306 +
      (153 * (if date.month ≤ 2 then (date.month : ℤ) + 9 else date.month - 3) + 2) / 5 +
      date.day - 1 := by
  have hpos := date.month_pos
  have hday := date.day_pos
  have hbefore := daysBefore_eq date.year date.month hpos date.month_le
  rw [Date.number, hbefore]
  by_cases hwinter : date.month ≤ 2
  · rw [if_pos hwinter, if_pos hwinter, if_pos hwinter]
    omega
  · rw [if_neg hwinter, if_neg hwinter, if_neg hwinter, yearStart_succ, daysBefore_year]
    omega

/-- The day of a date is its number. -/
theorem daysFromCivil_eq (date : Date) :
    daysFromCivil date.year date.month date.day = date.number := by
  rw [number_eq, daysFromCivil]
  by_cases hwinter : date.month ≤ 2
  · have hint : (date.month : ℤ) ≤ 2 := by omega
    have hnot : ¬(date.month : ℤ) > 2 := by omega
    simp only [if_pos hwinter, if_pos hint, if_neg hnot, yearStart]
    omega
  · have hint : ¬(date.month : ℤ) ≤ 2 := by omega
    have hmore : (date.month : ℤ) > 2 := by omega
    simp only [if_neg hwinter, if_neg hint, if_pos hmore, yearStart]
    omega

-- The months from March on, told by the day of the year.
theorem month_table : ∀ doy : Fin 366, (5 * doy.1 + 2) / 153 ≤ 11 ∧
    (153 * ((5 * doy.1 + 2) / 153) + 2) / 5 ≤ doy.1 ∧
    ((5 * doy.1 + 2) / 153 < 10 →
      doy.1 - (153 * ((5 * doy.1 + 2) / 153) + 2) / 5 + 1 ≤
        daysInMonth 0 ((5 * doy.1 + 2) / 153 + 3)) ∧
    (doy.1 - (153 * ((5 * doy.1 + 2) / 153) + 2) / 5 + 1 ≤ 31) ∧
    ((5 * doy.1 + 2) / 153 = 11 →
      doy.1 = doy.1 - (153 * ((5 * doy.1 + 2) / 153) + 2) / 5 + 337) := by
  decide +kernel

-- Only February knows its year.
theorem daysInMonth_congr (y z : ℤ) {month : ℕ} (h : month ≠ 2) :
    daysInMonth y month = daysInMonth z month := by
  unfold daysInMonth
  split
  · exact absurd rfl h
  all_goals rfl

/-- A day of an era, in the year and the month it lies in, is a date. -/
theorem exists_date (era : ℤ) (year doy : ℕ) (hdoy : doy ≤ 365)
    (hleap : doy = 365 → isLeap (year + era * 400 + 1)) :
    ∃ date : Date,
      date.year = (if (5 * doy + 2) / 153 < 10 then (year : ℤ) + era * 400
        else year + era * 400 + 1) ∧
      date.month = (if (5 * doy + 2) / 153 < 10 then (5 * doy + 2) / 153 + 3
        else (5 * doy + 2) / 153 - 9) ∧
      date.day = doy - (153 * ((5 * doy + 2) / 153) + 2) / 5 + 1 := by
  have htable := month_table ⟨doy, by omega⟩
  simp only at htable
  rcases htable with ⟨hmonth, -, hspring, h31, hfebruary⟩
  by_cases hten : (5 * doy + 2) / 153 < 10
  · refine ⟨⟨year + era * 400, (5 * doy + 2) / 153 + 3, _, by omega, by omega,
      Nat.le_add_left 1 _, ?_⟩, by rw [if_pos hten], by rw [if_pos hten], rfl⟩
    rw [daysInMonth_congr _ 0 (by omega)]
    exact hspring hten
  · refine ⟨⟨year + era * 400 + 1, (5 * doy + 2) / 153 - 9, _, by omega, by omega,
      Nat.le_add_left 1 _, ?_⟩, by rw [if_neg hten], by rw [if_neg hten], rfl⟩
    by_cases heleven : (5 * doy + 2) / 153 = 11
    · have hday := hfebruary heleven
      rw [heleven]
      show doy - (153 * 11 + 2) / 5 + 1 ≤ 28 + leapDays (year + era * 400 + 1)
      rw [heleven] at hday
      by_cases hlast : doy = 365
      · rw [leapDays, if_pos (hleap hlast)]
        omega
      · omega
    · have hjanuary : (5 * doy + 2) / 153 = 10 := by omega
      rw [hjanuary] at h31 ⊢
      exact h31

/-- The date of a day is the one whose number is the day. -/
theorem civilFromDays_spec (days : ℤ) :
    ∃ date : Date, date.number = days ∧
      civilFromDays days = (date.year, (date.month : ℤ), (date.day : ℤ)) := by
  obtain ⟨doe, hdoe⟩ : ∃ doe : ℕ, (days + 719468) % 146097 = doe :=
    Int.eq_ofNat_of_zero_le (Int.emod_nonneg _ (by decide))
  obtain ⟨era, hera⟩ : ∃ era : ℤ, (days + 719468) / 146097 = era := ⟨_, rfl⟩
  have hless : doe < 146097 := by omega
  have hdays : days = 146097 * era + doe - 719468 := by omega
  rcases eraYear_spec hless with ⟨hyear, hstart, hend⟩
  -- The year of the era and the day of that year, as the code finds them.
  obtain ⟨year, hyoe⟩ : ∃ year, dividend doe / 365 = year := ⟨_, rfl⟩
  rw [hyoe] at hyear hstart hend
  obtain ⟨doy, hdoy⟩ : ∃ doy, doe = eraStart year + doy := Nat.exists_eq_add_of_le hstart
  have hcast : (doe : ℤ) = eraStart year + doy := by exact_mod_cast hdoy
  have hyoe' : ((doe : ℤ) - doe / 1460 + doe / 36524 - doe / 146096) / 365 = year := by
    rw [← hyoe]
    unfold dividend
    omega
  have hdoy' : (doe : ℤ) - (365 * year + year / 4 - year / 100) = doy := by
    unfold eraStart at hdoy
    omega
  rw [eraStart_succ] at hend
  have hbound : doy ≤ 365 := by
    have hone := leapDays_le (year + 1)
    omega
  have hleap : doy = 365 → isLeap (year + era * 400 + 1) := by
    intro hlast
    have hsame : (year : ℤ) + era * 400 + 1 = year + 1 + era * 400 := by omega
    rw [hsame, isLeap_add]
    by_contra hnot
    rw [leapDays, if_neg hnot] at hend
    omega
  rcases exists_date era year doy hbound hleap with ⟨date, hdyear, hdmonth, hdday⟩
  have htable := month_table ⟨doy, by omega⟩
  simp only at htable
  -- The month from March on, and the days before it.
  obtain ⟨mp, hmp⟩ : ∃ mp, (5 * doy + 2) / 153 = mp := ⟨_, rfl⟩
  obtain ⟨start, hfirst⟩ : ∃ start, (153 * mp + 2) / 5 = start := ⟨_, rfl⟩
  have hmp' : (5 * (doy : ℤ) + 2) / 153 = mp := by omega
  have hfirst' : (153 * (mp : ℤ) + 2) / 5 = start := by omega
  rw [hmp] at hdyear hdmonth hdday htable
  rw [hfirst] at hdday htable
  have hinside := htable.2.1
  have hlast := htable.1
  have hday : (date.day : ℤ) = doy - start + 1 := by omega
  refine ⟨date, ?_, ?_⟩
  · have hyearStart : yearStart (year + era * 400 + 1) =
        eraStart year - 719162 + era * 146097 := by
      have hsame : (year : ℤ) + era * 400 + 1 = year + 1 + era * 400 := by omega
      rw [hsame, yearStart_add, eraStart_eq]
      omega
    rw [number_eq, hdyear, hday]
    by_cases hten : mp < 10
    · rw [if_pos hten] at hdmonth
      have hmonth : (date.month : ℤ) - 3 = mp := by omega
      rw [if_pos hten, if_neg (by omega), if_neg (by omega), hyearStart, hmonth, hfirst',
        hdays, hcast]
      ring
    · rw [if_neg hten] at hdmonth
      have hmonth : (date.month : ℤ) + 9 = mp := by
        rw [hdmonth]
        exact_mod_cast Nat.sub_add_cancel (Nat.le_of_succ_le (Nat.not_lt.1 hten))
      rw [if_neg hten, if_pos (by omega), if_pos (by omega), hyearStart, hmonth, hfirst',
        hdays, hcast]
      ring
  · simp only [civilFromDays, hdoe, hera, hyoe', hdoy', hmp', hfirst']
    rw [hdyear, hday]
    by_cases hten : mp < 10
    · have hint : (mp : ℤ) < 10 := by omega
      rw [if_pos hten] at hdmonth
      have hmonth : (date.month : ℤ) = mp + 3 := by omega
      rw [if_pos hten, if_pos hint, if_neg (by omega), hmonth]
    · have hint : ¬(mp : ℤ) < 10 := by omega
      rw [if_neg hten] at hdmonth
      have hmonth : (date.month : ℤ) = mp - 9 := by
        rw [hdmonth]
        exact Int.ofNat_sub (Nat.le_of_succ_le (Nat.not_lt.1 hten))
      rw [if_neg hten, if_neg hint, if_pos (by omega), hmonth]

end CivilDates

end PocketSkynet
