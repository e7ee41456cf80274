/-!
# The calendar

The proleptic Gregorian calendar: every year has the rules of today's
calendar, and the year before year 1 is year 0.  Days are counted from
1970-01-01.

A year is counted from March on, so that the leap day is its last day.  Four
hundred years always have the same number of days, an era.
-/

namespace Edn

/-- A day of the calendar.  `IsReal` tells whether there is such a day. -/
structure Date where
  year : Int
  month : Nat
  day : Nat
deriving DecidableEq, Repr

namespace Date

/-- Tells whether a year has a 29th of February. -/
def isLeap (year : Int) : Bool :=
  decide (year % 4 = 0 ∧ (year % 100 ≠ 0 ∨ year % 400 = 0))

/-- The number of days of a month; a number that is no month has none. -/
def daysIn (year : Int) (month : Nat) : Nat :=
  match month with
  | 1 | 3 | 5 | 7 | 8 | 10 | 12 => 31
  | 4 | 6 | 9 | 11 => 30
  | 2 => if isLeap year then 29 else 28
  | _ => 0

/-- The date exists in the calendar. -/
def IsReal (d : Date) : Prop :=
  1 ≤ d.day ∧ d.day ≤ daysIn d.year d.month

instance (d : Date) : Decidable d.IsReal :=
  inferInstanceAs (Decidable (_ ∧ _))

/-- The number of days of an era of four hundred years. -/
def daysOfEra : Int :=
  146097

/-- The number of days from the first of March of year 0 to 1970-01-01. -/
def daysToEpoch : Int :=
  719468

/-- The number of days from 1970-01-01 to a date. -/
def toDays (d : Date) : Int :=
  let year := if d.month ≤ 2 then d.year - 1 else d.year
  let era := year.fdiv 400
  let yearOfEra := year.fmod 400
  let month : Int := if d.month ≤ 2 then d.month + 9 else d.month - 3
  let dayOfYear := (153 * month + 2) / 5 + d.day - 1
  let dayOfEra := yearOfEra * 365 + yearOfEra / 4 - yearOfEra / 100 + dayOfYear
  era * daysOfEra + dayOfEra - daysToEpoch

/-- The date that lies a number of days after 1970-01-01. -/
def ofDays (days : Int) : Date :=
  let shifted := days + daysToEpoch
  let era := shifted.fdiv daysOfEra
  let dayOfEra := shifted.fmod daysOfEra
  let yearOfEra := (dayOfEra - dayOfEra / 1460 + dayOfEra / 36524 - dayOfEra / 146096) / 365
  let dayOfYear := dayOfEra - (365 * yearOfEra + yearOfEra / 4 - yearOfEra / 100)
  let month := (5 * dayOfYear + 2) / 153
  let day := dayOfYear - (153 * month + 2) / 5 + 1
  let year := yearOfEra + era * 400
  if month < 10 then ⟨year, (month + 3).toNat, day.toNat⟩
  else ⟨year + 1, (month - 9).toNat, day.toNat⟩

end Date

end Edn
