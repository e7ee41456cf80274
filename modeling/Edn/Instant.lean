import Edn.Instant.Calendar

/-!
# Instants

An instant is a moment in time with the offset from UTC at which it was
noted.  The moment alone decides whether two instants are equal.

A leap second is noted as the second before it with a billion nanoseconds
more.  A clock shows one at the end of a minute only, but an instant can note
one at any second.

The calendar ends with the years that an instant can have.  The moment of an
instant lies in them; at an offset, its local date may lie just outside.
-/

namespace Edn

/-- A moment, in seconds since 1970-01-01T00:00:00 UTC and nanoseconds, with an offset in seconds
east of UTC.  In a leap second the nanoseconds start at a billion. -/
structure Instant where
  seconds : Int
  nanos : Nat
  offset : Int
deriving DecidableEq, Repr

/-- The number of seconds of a day. -/
def secondsOfDay : Int :=
  86400

/-- The number of nanoseconds of a second. -/
def nanosOfSecond : Nat :=
  1000000000

/-- A time of day.  A leap second has a billion nanoseconds or more. -/
structure TimeOfDay where
  hour : Nat
  minute : Nat
  second : Nat
  nanos : Nat
deriving DecidableEq, Repr

namespace TimeOfDay

/-- The number of seconds since midnight. -/
def toSeconds (t : TimeOfDay) : Int :=
  t.hour * 3600 + t.minute * 60 + t.second

/-- The time that lies a number of seconds after midnight. -/
def ofSeconds (seconds : Nat) (nanos : Nat) : TimeOfDay :=
  ⟨seconds / 3600, seconds / 60 % 60, seconds % 60, nanos⟩

end TimeOfDay

namespace Instant

/-- The first year that an instant can have. -/
def firstYear : Int :=
  -262143

/-- The last year that an instant can have. -/
def lastYear : Int :=
  262142

/-- The local date and time, which is the moment moved by the offset. -/
def toLocal (t : Instant) : Date × TimeOfDay :=
  let seconds := t.seconds + t.offset
  (Date.ofDays (seconds.fdiv secondsOfDay),
    TimeOfDay.ofSeconds (seconds.fmod secondsOfDay).toNat t.nanos)

/-- The instant of a local date and time at an offset. -/
def ofLocal (date : Date) (time : TimeOfDay) (offset : Int) : Instant :=
  ⟨date.toDays * secondsOfDay + time.toSeconds - offset, time.nanos, offset⟩

/-- The moment lies between the first and the last nanosecond of the years that an instant can
have.  A leap second at the end of the last year is beyond them. -/
def InRange (t : Instant) : Prop :=
  Date.toDays ⟨firstYear, 1, 1⟩ * secondsOfDay ≤ t.seconds ∧
    (t.seconds < Date.toDays ⟨lastYear, 12, 31⟩ * secondsOfDay + secondsOfDay - 1 ∨
      t.seconds = Date.toDays ⟨lastYear, 12, 31⟩ * secondsOfDay + secondsOfDay - 1 ∧
        t.nanos < nanosOfSecond)

instance (t : Instant) : Decidable t.InRange :=
  inferInstanceAs (Decidable (_ ∧ _))

/-- The local date lies in the years that an instant can have.  The program cannot take the local date
and time of any other instant, and stops if it has to. -/
def HasLocalDate (t : Instant) : Prop :=
  firstYear ≤ t.toLocal.1.year ∧ t.toLocal.1.year ≤ lastYear

instance (t : Instant) : Decidable t.HasLocalDate :=
  inferInstanceAs (Decidable (_ ∧ _))

/-- Two instants are equal when their moments are. -/
def sameMoment (a b : Instant) : Bool :=
  a.seconds == b.seconds && a.nanos == b.nanos

/-- The same moment noted at the offset zero. -/
def toUtc (t : Instant) : Instant :=
  { t with offset := 0 }

end Instant

end Edn
