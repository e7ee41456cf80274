import Edn.Decimal.Layout
import Edn.Instant.Timestamp
import Edn.Text.Character
import Edn.Text.Quoted
import Edn.Uuid
import Edn.ValueType

/-!
# Scalars

A scalar is a value without parts.  `Scalar.same` is the equality of scalars:
floats are equal when all their bits are, and instants when their moments
are.  `Scalar.text` is the text of a scalar without a tag, and
`Scalar.display` what the program writes of it: nothing, where it stops at an
instant without a local date.
-/

namespace Edn

/-- A value without parts. -/
inductive Scalar where
  | nil
  | boolean (value : Bool)
  | string (value : String)
  | character (value : Char)
  | integer (value : Int64)
  | float (value : Decimal.Double)
  | instant (value : Instant)
  | uuid (value : Uuid)
deriving DecidableEq

namespace Scalar

/-- The type of a scalar. -/
def type : Scalar → ValueType
  | nil => .nil
  | boolean _ => .boolean
  | string _ => .string
  | character _ => .character
  | integer _ => .integer
  | float _ => .float
  | instant _ => .instant
  | uuid _ => .uuid

/-- Two scalars are the same value.  The offset of an instant is not part of its value. -/
def same : Scalar → Scalar → Bool
  | instant a, instant b => a.sameMoment b
  | a, b => decide (a = b)

/-- The text of nil. -/
def nilText : String :=
  "nil"

/-- The text of a boolean. -/
def booleanText (value : Bool) : String :=
  if value then "true" else "false"

/-- The text of a scalar.  Instants and UUIDs are quoted.  An instant without a local date has the
text that it would have if the calendar went on. -/
def text : Scalar → List Char
  | nil => nilText.toList
  | boolean value => (booleanText value).toList
  | string value => Text.quote value.toList
  | character value => Text.character value
  | integer value => Text.signedDecimal value.toInt
  | float value => value.scientific
  | instant value => Text.quote value.written
  | uuid value => '"' :: value.text ++ ['"']

/-- The text that the program writes; none if it stops instead. -/
def display : Scalar → Option (List Char)
  | instant value => value.timestamp.map Text.quote
  | value => some value.text

/-- Tells whether the program can write a scalar. -/
def isWritable : Scalar → Bool
  | instant value => decide value.HasLocalDate
  | _ => true

/-- What is written is the text. -/
theorem display_eq (value : Scalar) :
    value.display = if value.isWritable then some value.text else none := by
  cases value with
  | instant value =>
    by_cases h : value.HasLocalDate <;> simp [display, Instant.timestamp, isWritable, text, h]
  | _ => rfl

end Scalar

end Edn
