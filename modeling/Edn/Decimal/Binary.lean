/-!
# Binary floating-point numbers

A finite number of a binary format is a natural number of units in the last
place, with a sign.  This module holds the format, the decoding of the words
of the double format, and the rounding of a ratio of natural numbers to the
nearest number of a format, a tie going to the even one.

All of it is exact arithmetic on natural numbers.  A number is kept as its
word, so that two numbers are the same only if every bit is.
-/

namespace Edn.Decimal

/-- A binary format: the number of digits of a significand, the exponent of the smallest positive
number, and the exponent field that stands for infinity. -/
structure BinaryFormat where
  precision : Nat
  minExponent : Int
  infinityField : Nat
deriving DecidableEq, Repr

/-- The 64-bit format. -/
def double : BinaryFormat :=
  ⟨53, -1074, 2047⟩

/-- The 32-bit format. -/
def single : BinaryFormat :=
  ⟨24, -149, 255⟩

namespace BinaryFormat

/-- The number of words between two powers of two. -/
def binade (f : BinaryFormat) : Nat :=
  Nat.pow 2 (f.precision - 1)

/-- The word of positive infinity. -/
def infinity (f : BinaryFormat) : Nat :=
  f.infinityField * f.binade

/-- The word of the sign. -/
def signBit (f : BinaryFormat) : Nat :=
  (f.infinityField + 1) * f.binade

/-- The significand and the exponent of a positive finite word: it stands for
`significand * 2 ^ exponent`. -/
def parts (f : BinaryFormat) (word : Nat) : Nat × Int :=
  let field := word / f.binade
  let fraction := word % f.binade
  if field = 0 then (fraction, f.minExponent)
  else (f.binade + fraction, f.minExponent + (field - 1 : Int))

/-- The natural number nearest to a ratio; a tie goes to the even one. -/
def roundRatio (num den : Nat) : Nat :=
  let quotient := num / den
  let rest := num % den
  if 2 * rest < den then quotient
  else if den < 2 * rest then quotient + 1
  else if quotient % 2 = 0 then quotient else quotient + 1

/-- The ratio `num / den` measured in units of `2 ^ exponent`. -/
def scaleBy (exponent : Int) (num den : Nat) : Nat × Nat :=
  let power := Nat.pow 2 exponent.natAbs
  if exponent < 0 then (num * power, den) else (num, den * power)

/-- The exponent of the unit in the last place of `num / den`, where both are positive. -/
def unitExponent (f : BinaryFormat) (num den : Nat) : Int :=
  let guess : Int := (num.log2 : Int) - den.log2 - f.precision
  let (scaledNum, scaledDen) := scaleBy guess num den
  let exponent := if scaledNum < scaledDen * Nat.pow 2 f.precision then guess else guess + 1
  max f.minExponent exponent

/-- The word of the number nearest to `num / den`.  A ratio beyond the largest number rounds to
infinity. -/
def ofRatio (f : BinaryFormat) (num den : Nat) : Nat :=
  if num = 0 then 0
  else
    let exponent := f.unitExponent num den
    let (scaledNum, scaledDen) := scaleBy exponent num den
    let units := roundRatio scaledNum scaledDen
    min f.infinity ((exponent - f.minExponent).toNat * f.binade + units)

end BinaryFormat

/-- A number of the 64-bit format, kept as its word. -/
structure Double where
  bits : UInt64
deriving DecidableEq, Repr

namespace Double

/-- The number with a given sign and magnitude word. -/
def ofParts (negative : Bool) (magnitude : Nat) : Double :=
  ⟨UInt64.ofNat (if negative then double.signBit + magnitude else magnitude)⟩

/-- Tells whether the sign bit is set. -/
def isNegative (x : Double) : Bool :=
  decide (double.signBit ≤ x.bits.toNat)

/-- The word without its sign. -/
def magnitude (x : Double) : Nat :=
  x.bits.toNat % double.signBit

/-- Tells whether the word stands for no number. -/
def isNaN (x : Double) : Bool :=
  decide (double.infinity < x.magnitude)

/-- Tells whether the word stands for an infinity. -/
def isInfinite (x : Double) : Bool :=
  decide (x.magnitude = double.infinity)

/-- A significand of the 32-bit format has 29 digits less than one of the 64-bit format. -/
def widening : Nat :=
  536870912

/-- The double with the value of a word of the 32-bit format. -/
def ofSingle (word : Nat) : Double :=
  let negative := decide (single.signBit ≤ word)
  let magnitude := word % single.signBit
  if magnitude = single.infinity then ofParts negative double.infinity
  else if single.infinity < magnitude then
    ofParts negative (double.infinity + (magnitude - single.infinity) * widening)
  else
    let (significand, exponent) := single.parts magnitude
    let (num, den) := BinaryFormat.scaleBy (-exponent) significand 1
    ofParts negative (double.ofRatio num den)

end Double

end Edn.Decimal
