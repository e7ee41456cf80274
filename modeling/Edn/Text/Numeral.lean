import Edn.Text.CharClass

/-!
# Numerals

Digits in base ten and base sixteen, read and written over lists of
characters.

* `decimal` and `padded` write a natural number in base ten.
* `digits?` reads a text that is made of decimal digits only.
* `hex` writes a fixed number of lower-case hexadecimal digits, and `ofHex?`
  reads hexadecimal digits of either case.
* `readInt64` reads a signed 64-bit integer and says why it cannot.
-/

namespace Edn.Text

/-! ## Base ten -/

/-- The decimal digit of a number below ten. -/
def digitChar (n : Nat) : Char :=
  Char.ofNat ('0'.toNat + n)

/-- The number that a decimal digit stands for. -/
def digitValue? (c : Char) : Option Nat :=
  if isDigit c then some (c.toNat - '0'.toNat) else none

/-- The decimal digits of a number, without leading zeros; zero is `0`. -/
def decimal (n : Nat) : List Char :=
  if n < 10 then [digitChar n] else decimal (n / 10) ++ [digitChar (n % 10)]

/-- The decimal digits of a number, with zeros in front up to `width` digits. -/
def padded (width n : Nat) : List Char :=
  let digits := decimal n
  List.replicate (width - digits.length) '0' ++ digits

/-- The decimal digits of an integer after a minus sign where it is negative. -/
def signedDecimal (n : Int) : List Char :=
  if n < 0 then '-' :: decimal n.natAbs else decimal n.natAbs

/-- One more digit at the end of a numeral. -/
def pushDigit (value digit : Nat) : Nat :=
  value * 10 + digit

/-- The number that a text of decimal digits stands for, with `value` in front of it. -/
def digitsFrom? (value : Nat) : List Char → Option Nat
  | [] => some value
  | c :: rest => do digitsFrom? (pushDigit value (← digitValue? c)) rest

/-- The number that a non-empty text of decimal digits stands for. -/
def digits? : List Char → Option Nat
  | [] => none
  | text => digitsFrom? 0 text

/-! ## Base sixteen -/

/-- The lower-case hexadecimal digit of a number below sixteen. -/
def hexDigit (n : Nat) : Char :=
  if n < 10 then digitChar n else Char.ofNat ('a'.toNat + (n - 10))

/-- The number that a hexadecimal digit of either case stands for. -/
def hexValue? (c : Char) : Option Nat :=
  if isDigit c then some (c.toNat - '0'.toNat)
  else if 'a' ≤ c ∧ c ≤ 'f' then some (c.toNat - 'a'.toNat + 10)
  else if 'A' ≤ c ∧ c ≤ 'F' then some (c.toNat - 'A'.toNat + 10)
  else none

/-- The last `width` hexadecimal digits of a number. -/
def hex : (width n : Nat) → List Char
  | 0, _ => []
  | width + 1, n => hex width (n / 16) ++ [hexDigit (n % 16)]

/-- The number that a text of hexadecimal digits stands for, with `value` in front of it. -/
def ofHexFrom? (value : Nat) : List Char → Option Nat
  | [] => some value
  | c :: rest => do ofHexFrom? (value * 16 + (← hexValue? c)) rest

/-- The number that a text of hexadecimal digits stands for. -/
def ofHex? (text : List Char) : Option Nat :=
  ofHexFrom? 0 text

/-! ## Signed 64-bit integers -/

/-- The reasons why a text is not a 64-bit integer. -/
inductive IntegerFault where
  | empty
  | invalidDigit
  | tooLarge
  | tooSmall
deriving DecidableEq, Repr

/-- The wording of a fault. -/
def IntegerFault.message : IntegerFault → String
  | .empty => "cannot parse integer from empty string"
  | .invalidDigit => "invalid digit found in string"
  | .tooLarge => "number too large to fit in target type"
  | .tooSmall => "number too small to fit in target type"

/-- Two to the sixty-third: a 64-bit integer is below it, and not below its negative. -/
def int64Bound : Nat :=
  9223372036854775808

/-- The integer given by a sign and a magnitude, if 64 bits hold it. -/
def int64OfMagnitude (negative : Bool) (magnitude : Nat) : Except IntegerFault Int64 :=
  if negative then
    if magnitude ≤ int64Bound then .ok (Int64.ofInt (-magnitude)) else .error .tooSmall
  else
    if magnitude < int64Bound then .ok (Int64.ofInt magnitude) else .error .tooLarge

/-- Reads digits from left to right.  The first digit at which the number leaves 64 bits, or the
first character that is no digit, decides the fault. -/
def readMagnitude (negative : Bool) (magnitude : Nat) : List Char → Except IntegerFault Int64
  | [] => int64OfMagnitude negative magnitude
  | c :: rest =>
    match digitValue? c with
    | none => .error .invalidDigit
    | some d =>
      match int64OfMagnitude negative (pushDigit magnitude d) with
      | .error fault => .error fault
      | .ok _ => readMagnitude negative (pushDigit magnitude d) rest

/-- Reads a 64-bit integer: an optional sign and at least one digit. -/
def readInt64 : List Char → Except IntegerFault Int64
  | [] => .error .empty
  | ['+'] => .error .invalidDigit
  | ['-'] => .error .invalidDigit
  | '+' :: rest => readMagnitude false 0 rest
  | '-' :: rest => readMagnitude true 0 rest
  | text => readMagnitude false 0 text

end Edn.Text
