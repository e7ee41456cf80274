import Edn.Instant.Calendar
import Mathlib.Tactic.IntervalCases

/-!
# The calendar counts days

`Date.ofDays` and `Date.toDays` are inverse to each other on the dates that
exist: `Date.toDays_ofDays`, `Date.isReal_ofDays` and `Date.ofDays_toDays`.

Years are those of the era here, counted from March on.  `yearStart` is the
day on which one of them starts, and `monthStart` the day of the year on
which one of its months does.
-/

namespace Edn.Date

/-- The day of the era on which a year starts. -/
def yearStart (year : Int) : Int :=
  365 * year + year / 4 - year / 100

/-- The day of the year on which a month starts, counted from March. -/
def monthStart (month : Int) : Int :=
  (153 * month + 2) / 5

/-- The year in which a day of the era lies. -/
def yearOfDay (day : Int) : Int :=
  (day - day / 1460 + day / 36524 - day / 146096) / 365

/-! ## Bounds -/

theorem IsReal.month_bounds {d : Date} (h : d.IsReal) : 1 ≤ d.month ∧ d.month ≤ 12 := by
  obtain ⟨hlow, hhigh⟩ := h
  unfold daysIn at hhigh
  split at hhigh <;> omega

theorem IsReal.day_le {d : Date} (h : d.IsReal) : d.day ≤ 31 := by
  obtain ⟨hlow, hhigh⟩ := h
  unfold daysIn at hhigh
  split at hhigh <;> (try split at hhigh) <;> omega

/-- Every day of the calendar is one of the year 2000. -/
theorem IsReal.of_leapYear {d : Date} (h : d.IsReal) : IsReal ⟨2000, d.month, d.day⟩ := by
  obtain ⟨hlow, hhigh⟩ := h
  refine ⟨hlow, Nat.le_trans hhigh ?_⟩
  dsimp only
  unfold daysIn
  split
  case h_12 => split <;> decide
  all_goals exact Nat.le_refl _

/-! ## Years -/

/-- A day lies between the starts of its year and of the next one.  The last year of the era has a
leap day more than `yearStart` counts. -/
theorem yearOfDay_spec {day : Int} (hlow : 0 ≤ day) (hhigh : day < 146097) :
    0 ≤ yearOfDay day ∧ yearOfDay day ≤ 399 ∧ yearStart (yearOfDay day) ≤ day ∧
      day < yearStart (yearOfDay day + 1) + (yearOfDay day + 1) / 400 := by
  -- Four years with their leap day, and the day within them.
  obtain ⟨cycle, hcycle⟩ : ∃ cycle, cycle = day / 1460 := ⟨_, rfl⟩
  obtain ⟨rest, hrest⟩ : ∃ rest, day = 1460 * cycle + rest := ⟨day - 1460 * cycle, by omega⟩
  obtain ⟨century, hcentury⟩ : ∃ century, century = day / 36524 := ⟨_, rfl⟩
  obtain ⟨last, hlast⟩ : ∃ last, last = day / 146096 := ⟨_, rfl⟩
  obtain ⟨place, hplace⟩ : ∃ place, place = (rest - cycle + century - last) / 365 := ⟨_, rfl⟩
  have hyear : yearOfDay day = 4 * cycle + place := by
    unfold yearOfDay
    omega
  have hcenturies : century = 0 ∨ century = 1 ∨ century = 2 ∨ century = 3 ∨ century = 4 := by
    omega
  have hlasts : last = 0 ∨ last = 1 := by omega
  have hplaces : place = -1 ∨ place = 0 ∨ place = 1 ∨ place = 2 ∨ place = 3 := by omega
  rw [hyear]
  unfold yearStart
  rcases hlasts with rfl | rfl <;>
    rcases hcenturies with rfl | rfl | rfl | rfl | rfl <;>
      rcases hplaces with rfl | rfl | rfl | rfl | rfl <;> omega

theorem yearStart_mono {a b : Int} (h : a ≤ b) : yearStart a ≤ yearStart b := by
  unfold yearStart
  omega

/-- The year of a day is the only one in which it lies. -/
theorem yearOfDay_eq {day year : Int} (hlow : 0 ≤ year) (hhigh : year ≤ 399)
    (hstart : yearStart year ≤ day) (hstop : day < yearStart (year + 1) + (year + 1) / 400) :
    yearOfDay day = year := by
  have hday : 0 ≤ day ∧ day < 146097 := by
    unfold yearStart at hstart hstop
    omega
  obtain ⟨hlow', hhigh', hstart', hstop'⟩ := yearOfDay_spec hday.1 hday.2
  generalize yearOfDay day = other at *
  rcases Int.lt_trichotomy other year with h | h | h
  · have := yearStart_mono (show other + 1 ≤ year from h)
    omega
  · exact h
  · have := yearStart_mono (show year + 1 ≤ other from h)
    omega

/-! ## Months -/

/-- The month of a day of the year. -/
theorem month_spec {day : Int} (hlow : 0 ≤ day) (hhigh : day ≤ 365) :
    0 ≤ (5 * day + 2) / 153 ∧ (5 * day + 2) / 153 ≤ 11 ∧
      monthStart ((5 * day + 2) / 153) ≤ day ∧ day < monthStart ((5 * day + 2) / 153 + 1) := by
  unfold monthStart
  omega

/-- The month of a day is the only one in which it lies. -/
theorem month_eq {day month : Int} (hstart : monthStart month ≤ day)
    (hstop : day < monthStart (month + 1)) : (5 * day + 2) / 153 = month := by
  unfold monthStart at *
  omega

/-- The number of days of a month.  February is the last month of a year, and the next year of the
calendar says whether it has a leap day. -/
def lengthOfMonth (year month : Int) : Int :=
  if month = 11 then (if isLeap (year + 1) then 29 else 28)
  else monthStart (month + 1) - monthStart month

/-- A year of the era ends with its last month. -/
theorem yearStart_add_one {year : Int} (hlow : 0 ≤ year) (hhigh : year ≤ 399) :
    yearStart (year + 1) + (year + 1) / 400 =
      yearStart year + monthStart 11 + lengthOfMonth year 11 := by
  have quarter : (year + 1) / 4 = year / 4 + if (year + 1) % 4 = 0 then 1 else 0 := by
    split <;> omega
  have century : (year + 1) / 100 = year / 100 + if (year + 1) % 100 = 0 then 1 else 0 := by
    split <;> omega
  have era : (year + 1) / 400 = if (year + 1) % 400 = 0 then 1 else 0 := by split <;> omega
  unfold lengthOfMonth yearStart monthStart isLeap
  simp only [decide_eq_true_eq, quarter, century, era, if_true]
  split <;> split <;> split <;> split <;> omega

/-- Leap years come back in every era. -/
theorem lengthOfMonth_add_era (year era month : Int) :
    lengthOfMonth (year + era * 400) month = lengthOfMonth year month := by
  unfold lengthOfMonth isLeap
  simp only [decide_eq_true_eq]
  split
  · split <;> split <;> omega
  · rfl

/-! ## Dates by their parts -/

/-- The date on a day of a month; the year and the month are counted from March. -/
def ofParts (year month day : Int) : Date :=
  if month < 10 then ⟨year, (month + 3).toNat, day.toNat⟩
  else ⟨year + 1, (month - 9).toNat, day.toNat⟩

theorem ofDays_eq {days era day : Int} (hdays : days + 719468 = era * 146097 + day)
    (hlow : 0 ≤ day) (hhigh : day < 146097) :
    ofDays days =
      let year := yearOfDay day
      let month := (5 * (day - yearStart year) + 2) / 153
      ofParts (year + era * 400) month (day - yearStart year - monthStart month + 1) := by
  have hera : (days + 719468).fdiv 146097 = era := by
    rw [Int.fdiv_eq_ediv_of_nonneg _ (by decide)]
    omega
  have hday : (days + 719468).fmod 146097 = day := by
    rw [Int.fmod_eq_emod_of_nonneg _ (by decide)]
    omega
  simp only [ofDays, daysToEpoch, daysOfEra, hera, hday, ofParts, yearOfDay, yearStart, monthStart]
  rfl

/-- The days of a month are dates that exist. -/
theorem isReal_ofParts {year month day : Int} (hmonth : 0 ≤ month) (hmonth' : month ≤ 11)
    (hday : 1 ≤ day) (hday' : day ≤ lengthOfMonth year month) : (ofParts year month day).IsReal := by
  unfold lengthOfMonth monthStart at hday'
  unfold IsReal ofParts
  interval_cases month <;> simp only [daysIn] <;> grind

/-- Every date that exists is a day of a month. -/
theorem exists_ofParts {d : Date} (h : d.IsReal) :
    ∃ year month day, 0 ≤ month ∧ month ≤ 11 ∧ 1 ≤ day ∧ day ≤ lengthOfMonth year month ∧
      d = ofParts year month day := by
  have hmonth := h.month_bounds
  obtain ⟨year, month, day⟩ := d
  obtain ⟨hlow, hhigh⟩ := h
  dsimp only at hlow hhigh hmonth
  -- January and February belong to the year before.
  by_cases hearly : month ≤ 2
  · refine ⟨year - 1, month + 9, day, by omega, by omega, by omega, ?_, ?_⟩
    · unfold lengthOfMonth monthStart
      rw [Int.sub_add_cancel]
      unfold daysIn at hhigh
      split at hhigh <;> grind
    · rw [ofParts, if_neg (by omega)]
      simp only [Date.mk.injEq]
      omega
  · refine ⟨year, month - 3, day, by omega, by omega, by omega, ?_, ?_⟩
    · unfold lengthOfMonth monthStart
      unfold daysIn at hhigh
      split at hhigh <;> grind
    · rw [ofParts, if_pos (by omega)]
      simp only [Date.mk.injEq]
      refine ⟨trivial, ?_, ?_⟩ <;> omega

theorem toDays_ofParts {year month day era : Int} (hyear : 0 ≤ year) (hyear' : year ≤ 399)
    (hmonth : 0 ≤ month) (hmonth' : month ≤ 11) (hday : 0 ≤ day) :
    (ofParts (year + era * 400) month day).toDays + 719468 =
      era * 146097 + (yearStart year + monthStart month + day - 1) := by
  have hdiv : (year + era * 400).fdiv 400 = era := by
    rw [Int.fdiv_eq_ediv_of_nonneg _ (by decide)]
    omega
  have hmod : (year + era * 400).fmod 400 = year := by
    rw [Int.fmod_eq_emod_of_nonneg _ (by decide)]
    omega
  unfold ofParts
  split
  · next h =>
    have hlate : ¬ (month + 3).toNat ≤ 2 := by omega
    simp only [toDays, if_neg hlate, hdiv, hmod, daysOfEra, daysToEpoch, yearStart, monthStart]
    omega
  · next h =>
    have hearly : (month - 9).toNat ≤ 2 := by omega
    simp only [toDays, if_pos hearly, Int.add_sub_cancel, hdiv, hmod, daysOfEra, daysToEpoch,
      yearStart, monthStart]
    omega

/-! ## Counting -/

/-- A day of the era lies in a month of a year, and on a day of it. -/
theorem exists_parts (days : Int) :
    ∃ era year month day, 0 ≤ year ∧ year ≤ 399 ∧ 0 ≤ month ∧ month ≤ 11 ∧ 1 ≤ day ∧
      day ≤ lengthOfMonth year month ∧
      days + 719468 = era * 146097 + (yearStart year + monthStart month + day - 1) ∧
      ofDays days = ofParts (year + era * 400) month day := by
  obtain ⟨era, day, hlow, hhigh, hdays⟩ : ∃ era day, 0 ≤ day ∧ day < 146097 ∧
      days + 719468 = era * 146097 + day :=
    ⟨(days + 719468) / 146097, (days + 719468) % 146097, by omega, by omega, by omega⟩
  have heq := ofDays_eq hdays hlow hhigh
  obtain ⟨hyear, hyear', hstart, hstop⟩ := yearOfDay_spec hlow hhigh
  generalize yearOfDay day = year at *
  rw [yearStart_add_one hyear hyear'] at hstop
  have hlast : lengthOfMonth year 11 ≤ 29 := by
    unfold lengthOfMonth
    split <;> (try split) <;> omega
  have heleven : monthStart 11 = 337 := rfl
  obtain ⟨hmonth, hmonth', hfirst, hnext⟩ :=
    @month_spec (day - yearStart year) (by omega) (by omega)
  dsimp only at heq
  generalize (5 * (day - yearStart year) + 2) / 153 = month at *
  refine ⟨era, year, month, day - yearStart year - monthStart month + 1, hyear, hyear', hmonth,
    hmonth', by omega, ?_, by omega, heq⟩
  by_cases hfebruary : month = 11
  · rw [hfebruary]
    omega
  · rw [lengthOfMonth, if_neg hfebruary]
    omega

/-- The date of a number of days lies that number of days after the first. -/
theorem toDays_ofDays (days : Int) : (ofDays days).toDays = days := by
  obtain ⟨era, year, month, day, hyear, hyear', hmonth, hmonth', hday, -, hdays, heq⟩ :=
    exists_parts days
  have := @toDays_ofParts year month day era hyear hyear' hmonth hmonth' (by omega : 0 ≤ day)
  rw [heq]
  omega

/-- The date of a number of days exists. -/
theorem isReal_ofDays (days : Int) : (ofDays days).IsReal := by
  obtain ⟨era, year, month, day, -, -, hmonth, hmonth', hday, hday', -, heq⟩ := exists_parts days
  rw [heq]
  exact isReal_ofParts hmonth hmonth' hday (by rwa [lengthOfMonth_add_era])

/-- A date that exists is the date of its number of days. -/
theorem ofDays_toDays {d : Date} (h : d.IsReal) : ofDays d.toDays = d := by
  obtain ⟨calendarYear, month, day, hmonth, hmonth', hday, hday', rfl⟩ := exists_ofParts h
  obtain ⟨era, year, hyear, hyear', rfl⟩ : ∃ era year, 0 ≤ year ∧ year ≤ 399 ∧
      calendarYear = year + era * 400 :=
    ⟨calendarYear / 400, calendarYear % 400, by omega, by omega, by omega⟩
  rw [lengthOfMonth_add_era] at hday'
  have hdays := @toDays_ofParts year month day era hyear hyear' hmonth hmonth' (by omega : 0 ≤ day)
  have hstop := yearStart_add_one hyear hyear'
  have hlength : monthStart month + day - 1 < monthStart 11 + lengthOfMonth year 11 := by
    by_cases hfebruary : month = 11
    · rw [hfebruary] at hday' ⊢
      omega
    · rw [lengthOfMonth, if_neg hfebruary] at hday'
      have : 28 ≤ lengthOfMonth year 11 := by
        unfold lengthOfMonth
        split <;> (try split) <;> omega
      unfold monthStart at *
      omega
  have hmonthStart : 0 ≤ monthStart month := by
    unfold monthStart
    omega
  have hera : 0 ≤ yearStart year ∧ yearStart (year + 1) + (year + 1) / 400 ≤ 146097 := by
    unfold yearStart
    omega
  rw [ofDays_eq hdays (by omega) (by omega), yearOfDay_eq hyear hyear' (by omega) (by omega)]
  dsimp only
  have hmonthOf : (5 * (yearStart year + monthStart month + day - 1 - yearStart year) + 2) / 153 =
      month := by
    refine month_eq (by omega) ?_
    by_cases hfebruary : month = 11
    · rw [hfebruary] at hday' ⊢
      unfold lengthOfMonth monthStart at *
      grind
    · rw [lengthOfMonth, if_neg hfebruary] at hday'
      omega
  rw [hmonthOf]
  congr 1
  omega

end Edn.Date
