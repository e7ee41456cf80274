import Edn.Pair

/-!
# Native values

The values of a host program that can be turned into elements.  A native
value is classified first, by `Native.stereotype`: the string `nil` counts as
nil, and a string that starts with a colon as a keyword.  The factory that is
registered for the type then builds the element (`Edn.Native.Registry`).

`Host` is the wider family of values that a host program may hand over
without saying what they are.
-/

namespace Edn

/-- A value of a host program.  Integers and floats of every width are widened, and an absent value
is nil. -/
inductive Native where
  | element (value : Element)
  | nil
  | boolean (value : Bool)
  | integer (value : Int64)
  | float (value : Decimal.Double)
  | character (value : Char)
  | string (value : String)
  | instant (value : Instant)
  | uuid (value : Uuid)

/-- A value that a host program may hand over.  A word is an integer that 64 bits may not hold with
its sign; `other` is a value that has no native form. -/
inductive Host where
  | native (value : Native)
  | word (value : Int)
  | other

namespace Native

/-- The native form of a host value. -/
def ofHost : Host → Except Error Native
  | .native value => .ok value
  | .word value =>
    if -(Text.int64Bound : Int) ≤ value ∧ value < (Text.int64Bound : Int) then
      .ok (.integer (Int64.ofInt value))
    else
      let digits := String.ofList (Text.signedDecimal value)
      .error (.invalidInput (digits ++ " does not fit in 64 bits"))
  | .other => .error (.unknownMimeType "unsupported native type")

/-- Classifies a native value.  An element is no native value of any type. -/
def stereotype (value : Native) : Except Error (Native × ValueType) :=
  match value with
  | .element e => .error (.unknownMimeType (e.type.name ++ " element is not a native value"))
  | .nil => .ok (value, .nil)
  | .boolean _ => .ok (value, .boolean)
  | .integer _ => .ok (value, .integer)
  | .float _ => .ok (value, .float)
  | .character _ => .ok (value, .character)
  | .string text =>
    if text = Scalar.nilText then .ok (.nil, .nil)
    else if text.toList.head? = some ':' then .ok (value, .keyword)
    else .ok (value, .string)
  | .instant _ => .ok (value, .instant)
  | .uuid _ => .ok (value, .uuid)

/-- Tells whether a host value can be classified. -/
def isNative (value : Host) : Bool :=
  ((ofHost value).bind stereotype).toBool

end Native

end Edn
