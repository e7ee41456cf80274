import Edn.Error
import Edn.Instant
import Edn.Text.Numeral

/-!
# Timestamps

The text of an instant is an RFC 3339 timestamp: `1985-04-12T23:20:50.520Z`.

* `Instant.timestamp` writes one.  The fraction has no, three, six or nine
  digits, the fewest that lose nothing.  A leap second at the end of a minute
  is written as second 60.  The offset zero is written as `Z`.  An instant
  whose local date lies outside the calendar has no timestamp: the program
  stops instead of writing one.
* `Timestamp.read?` reads a timestamp whose year has four digits.
* `Instant.read` reads years outside 0000 to 9999 too, with a sign and at
  least four digits.
-/

namespace Edn

/-! ## Writing -/

/-- A year: four digits from 0 to 9999, otherwise a sign and at least four digits. -/
def Date.yearText (year : Int) : List Char :=
  if 0 ≤ year ∧ year ≤ 9999 then Text.padded 4 year.toNat
  else (if year < 0 then '-' else '+') :: Text.padded 4 year.natAbs

/-- A date with hyphens between its parts. -/
def Date.text (d : Date) : List Char :=
  Date.yearText d.year ++ '-' :: Text.padded 2 d.month ++ '-' :: Text.padded 2 d.day

/-- A fraction of a second with its point, in groups of three digits. -/
def TimeOfDay.fractionText (nanos : Nat) : List Char :=
  if nanos = 0 then []
  else if nanos % 1000000 = 0 then '.' :: Text.padded 3 (nanos / 1000000)
  else if nanos % 1000 = 0 then '.' :: Text.padded 6 (nanos / 1000)
  else '.' :: Text.padded 9 nanos

/-- A time of day with colons between its parts. -/
def TimeOfDay.text (t : TimeOfDay) : List Char :=
  let leap := decide (nanosOfSecond ≤ t.nanos)
  let second := if leap then t.second + 1 else t.second
  let nanos := if leap then t.nanos - nanosOfSecond else t.nanos
  Text.padded 2 t.hour ++ ':' :: Text.padded 2 t.minute ++ ':' :: Text.padded 2 second ++
    fractionText nanos

namespace Instant

/-- The sign of an offset. -/
def offsetSign (offset : Int) : Char :=
  if offset < 0 then '-' else '+'

/-- An offset in hours and minutes, the nearest ones if it has seconds. -/
def offsetText (offset : Int) : List Char :=
  if offset = 0 then ['Z']
  else
    let minutes := (offset.natAbs + 30) / 60
    offsetSign offset :: Text.padded 2 (minutes / 60) ++ ':' :: Text.padded 2 (minutes % 60)

/-- The local date and time with a `T` between them. -/
def localText (t : Instant) : List Char :=
  t.toLocal.1.text ++ 'T' :: t.toLocal.2.text

/-- The local date and time, followed by the offset. -/
def written (t : Instant) : List Char :=
  t.localText ++ offsetText t.offset

/-- The timestamp of an instant; none if the program stops instead. -/
def timestamp (t : Instant) : Option (List Char) :=
  if t.HasLocalDate then some t.written else none

/-- The form that error messages quote: the offset is always written in digits, with its seconds
if it has any.  The local date is written wherever it lies. -/
def exactText (t : Instant) : List Char :=
  let offset := t.offset.natAbs
  let seconds := if offset % 60 = 0 then [] else ':' :: Text.padded 2 (offset % 60)
  t.localText ++ offsetSign t.offset ::
    Text.padded 2 (offset / 3600) ++ ':' :: Text.padded 2 (offset / 60 % 60) ++ seconds

end Instant

/-! ## Reading -/

namespace Timestamp

/-- A number of exactly two digits at the start of a text. -/
def twoDigits? : List Char → Option (Nat × List Char)
  | a :: b :: rest => (Text.digits? [a, b]).map (·, rest)
  | _ => none

/-- A number of exactly four digits at the start of a text. -/
def fourDigits? : List Char → Option (Nat × List Char)
  | a :: b :: c :: d :: rest => (Text.digits? [a, b, c, d]).map (·, rest)
  | _ => none

/-- The text after a given character. -/
def after? (c : Char) : List Char → Option (List Char)
  | [] => none
  | head :: rest => if head = c then some rest else none

/-- The nanoseconds given by the digits after a point: the first nine count. -/
def nanosOf? (digits : List Char) : Option Nat :=
  let kept := digits.take 9
  (Text.digits? kept).map fun n => n * Nat.pow 10 (9 - kept.length)

/-- An optional fraction at the start of a text: a point and at least one digit. -/
def fraction? : List Char → Option (Nat × List Char)
  | '.' :: rest => (nanosOf? (rest.takeWhile Text.isDigit)).map (·, rest.dropWhile Text.isDigit)
  | rest => some (0, rest)

/-- A month and a day with a hyphen before each. -/
def monthAndDay? (text : List Char) : Option (Nat × Nat × List Char) := do
  let (month, text) ← twoDigits? (← after? '-' text)
  let (day, text) ← twoDigits? (← after? '-' text)
  return (month, day, text)

/-- A time of day.  Second 60 of any minute is a leap second. -/
def time? (text : List Char) : Option (TimeOfDay × List Char) := do
  let (hour, text) ← twoDigits? text
  let (minute, text) ← twoDigits? (← after? ':' text)
  let (second, text) ← twoDigits? (← after? ':' text)
  let (nanos, text) ← fraction? text
  if 24 ≤ hour ∨ 60 ≤ minute ∨ 61 ≤ second then none
  else if second = 60 then some (⟨hour, minute, 59, nanos + nanosOfSecond⟩, text)
  else some (⟨hour, minute, second, nanos⟩, text)

/-- Tells whether a character separates the date from the time. -/
def isSeparator (c : Char) : Bool :=
  c == 'T' || c == 't' || c == ' '

/-- Hours and minutes of an offset, in seconds; less than a day. -/
def offsetSize? (text : List Char) : Option Int := do
  let (hours, text) ← twoDigits? text
  let (minutes, text) ← twoDigits? (← after? ':' text)
  if 24 ≤ hours ∨ 60 ≤ minutes ∨ text ≠ [] then none
  else some (hours * 3600 + minutes * 60)

/-- An offset that ends the text: `Z`, or a sign with hours and minutes.  U+2212 is a minus sign
too. -/
def offset? : List Char → Option Int
  | ['Z'] | ['z'] => some 0
  | '+' :: rest => offsetSize? rest
  | '-' :: rest => (offsetSize? rest).map (- ·)
  | '\u2212' :: rest => (offsetSize? rest).map (- ·)
  | _ => none

/-- A timestamp after its year: the local date and time, and the offset. -/
def afterYear? (year : Int) (text : List Char) : Option (Date × TimeOfDay × Int) := do
  let (month, day, text) ← monthAndDay? text
  match text with
  | [] => none
  | separator :: text =>
    if isSeparator separator then
      let (time, text) ← time? text
      let offset ← offset? text
      if Date.IsReal ⟨year, month, day⟩ then some (⟨year, month, day⟩, time, offset) else none
    else none

/-- A timestamp whose year has four digits. -/
def read? (text : List Char) : Option Instant := do
  let (year, text) ← fourDigits? text
  let (date, time, offset) ← afterYear? year text
  return Instant.ofLocal date time offset

end Timestamp

/-- The reasons why a text is not an instant.  `malformed` has the text that is no timestamp.
`yearOutOfRange` quotes the year as it is written, `yearUnusable` as a number. -/
inductive InstantFault where
  | malformed (text : List Char)
  | malformedYear (year : List Char)
  | yearOutOfRange (year : List Char)
  | yearUnusable (year : Int)
deriving DecidableEq, Repr

/-- What is told of a fault. -/
def InstantFault.details : InstantFault → Details
  | .malformed text => ⟨"", some (.timestamp text)⟩
  | .malformedYear year => "malformed year '" ++ String.ofList year ++ "'"
  | .yearOutOfRange year => "year " ++ String.ofList year ++ " is out of range"
  | .yearUnusable year => "year " ++ String.ofList (Text.signedDecimal year) ++ " is out of range"

namespace Instant

/-- Two to the thirty-first: a signed number of 32 bits is below it, and not below its negative. -/
def yearBound : Nat :=
  2147483648

/-- A signed year that 32 bits hold. -/
def readYear (negative : Bool) (digits : List Char) : Except InstantFault Int :=
  let sign := if negative then '-' else '+'
  match Text.digits? digits with
  | none => .error (.malformedYear (sign :: digits))
  | some n =>
    if digits.length < 4 then .error (.malformedYear (sign :: digits))
    else if negative then
      if n ≤ yearBound then .ok (-n) else .error (.yearOutOfRange (sign :: digits))
    else if n < yearBound then .ok n else .error (.yearOutOfRange (sign :: digits))

/-- Reads a timestamp with a signed year.  Month, day and time are read as in year 2000, which has
every day of the calendar, and then moved to the year. -/
def readSigned (negative : Bool) (text : List Char) : Except InstantFault Instant := do
  let year ← readYear negative (text.takeWhile (· != '-'))
  let rest := text.dropWhile (· != '-')
  match Timestamp.afterYear? 2000 rest with
  | none => .error (.malformed ("2000".toList ++ rest))
  | some (date, time, offset) =>
    let moved := { date with year }
    let instant := ofLocal moved time offset
    if firstYear ≤ year ∧ year ≤ lastYear ∧ moved.IsReal ∧ instant.InRange then .ok instant
    else .error (.yearUnusable year)

/-- Reads the timestamp of an instant. -/
def read : List Char → Except InstantFault Instant
  | '+' :: text => readSigned false text
  | '-' :: text => readSigned true text
  | text =>
    match Timestamp.read? text with
    | some instant => .ok instant
    | none => .error (.malformed text)

end Instant

end Edn
