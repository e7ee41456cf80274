import Edn.Decimal.Binary
import Edn.Text.Numeral

/-!
# Reading floating-point numbers

A numeral is an optional sign, digits with an optional point, and an optional
exponent; the words for infinity and for no number are read too, in any mix
of case.  The number is the one of the format that is nearest to the
numeral's exact value.

Exponents far outside the format are decided without computing the power.
-/

namespace Edn.Decimal

/-- The reasons why a text is not a numeral. -/
inductive NumeralFault where
  | empty
  | malformed
deriving DecidableEq, Repr

/-- The wording of a fault. -/
def NumeralFault.message : NumeralFault → String
  | .empty => "cannot parse float from empty string"
  | .malformed => "invalid float literal"

/-- An unsigned numeral: all its digits as one number, their count without leading zeros, and the
power of ten of the last of them. -/
structure Numeral where
  digits : Nat
  count : Nat
  exponent : Int
deriving DecidableEq, Repr

/-- The sign of a text, and what follows it. -/
def splitSign : List Char → Bool × List Char
  | '-' :: rest => (true, rest)
  | '+' :: rest => (false, rest)
  | text => (false, text)

/-- Reads an exponent: an optional sign and at least one digit. -/
def readExponent? (text : List Char) : Option Int :=
  let (negative, digits) := splitSign text
  (Text.digits? digits).map fun n => if negative then -(n : Int) else n

/-- Reads what follows the digits of a numeral: nothing, or an exponent after `e` or `E`. -/
def readScale? : List Char → Option Int
  | [] => some 0
  | c :: rest => if c = 'e' ∨ c = 'E' then readExponent? rest else none

/-- Reads an unsigned numeral.  There is at least one digit before the point or after it. -/
def readNumeral? (text : List Char) : Option Numeral :=
  let whole := text.takeWhile Text.isDigit
  let afterWhole := text.dropWhile Text.isDigit
  let (places, rest) := match afterWhole with
    | '.' :: rest => (rest.takeWhile Text.isDigit, rest.dropWhile Text.isDigit)
    | rest => ([], rest)
  let all := whole ++ places
  match Text.digits? all with
  | none => none
  | some digits =>
    (readScale? rest).map fun scale =>
      ⟨digits, (all.dropWhile (· == '0')).length, scale - places.length⟩

/-- The word nearest to a numeral.  With `n` digits its value is below `10 ^ (exponent + n)`, so
that it is infinite or zero when that power is far from the format's. -/
def BinaryFormat.ofNumeral (f : BinaryFormat) (numeral : Numeral) : Nat :=
  if numeral.digits = 0 then 0
  else
    let top := numeral.exponent + numeral.count
    if 400 < top then f.infinity
    else if top < -400 then 0
    else
      f.ofRatio (numeral.digits * Nat.pow 10 numeral.exponent.toNat)
        (Nat.pow 10 (-numeral.exponent).toNat)

/-- The word of a spelled-out magnitude. -/
def BinaryFormat.ofName? (f : BinaryFormat) (text : List Char) : Option Nat :=
  let name := String.ofList (text.map Text.lowerLetter)
  if name = "inf" ∨ name = "infinity" then some f.infinity
  else if name = "nan" then some (f.infinity + f.binade / 2)
  else none

/-- Reads a number of a format: its sign and the word of its magnitude. -/
def BinaryFormat.read (f : BinaryFormat) (text : List Char) : Except NumeralFault (Bool × Nat) :=
  if text.isEmpty then .error .empty
  else
    let (negative, magnitude) := splitSign text
    match readNumeral? magnitude with
    | some numeral => .ok (negative, f.ofNumeral numeral)
    | none =>
      match f.ofName? magnitude with
      | some word => .ok (negative, word)
      | none => .error .malformed

/-- Reads a double. -/
def readDouble (text : List Char) : Except NumeralFault Double :=
  (double.read text).map fun (negative, magnitude) => Double.ofParts negative magnitude

/-- Reads a number of the 32-bit format and widens it to a double. -/
def readSingle (text : List Char) : Except NumeralFault Double :=
  (single.read text).map fun (negative, magnitude) =>
    Double.ofSingle (if negative then single.signBit + magnitude else magnitude)

end Edn.Decimal
