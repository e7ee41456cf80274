import Edn.Decimal.Shortest

/-!
# The text of a floating-point number

`scientific` is the form of the notation: the shortest decimal, one digit
before the point, an exponent with a sign and at least two digits.
`positional` is the form that error messages quote: digits around a point,
except for very large and very small numbers.
-/

namespace Edn.Decimal

/-- The text without its final zeros. -/
def dropZeros (digits : List Char) : List Char :=
  (digits.reverse.dropWhile (· == '0')).reverse

/-- The significant digits of a number and the power of ten of the first of them. -/
structure Significant where
  digits : List Char
  exponent : Int
deriving DecidableEq, Repr

/-- The significant digits of a scaled decimal. -/
def Scaled.significant (s : Scaled) : Significant :=
  let digits := Text.decimal s.digits
  ⟨dropZeros digits, s.exponent + digits.length - 1⟩

/-- The significant digits of a finite magnitude word; those of zero are a lone `0`. -/
def significantOf (word : Nat) : Significant :=
  if word = 0 then ⟨['0'], 0⟩ else (shortestDouble word).significant

/-- The digits with a point after the first one, if there are more. -/
def mantissa : List Char → List Char
  | [] => []
  | [d] => [d]
  | d :: rest => d :: '.' :: rest

/-- A minus sign for negative numbers. -/
def signText (negative : Bool) : List Char :=
  if negative then ['-'] else []

namespace Double

/-- The form of the notation: `1.234567E+04`, `NaN`, `+Inf` and `-Inf`. -/
def scientific (x : Double) : List Char :=
  if x.isNaN then ['N', 'a', 'N']
  else if x.isInfinite then (if x.isNegative then '-' else '+') :: ['I', 'n', 'f']
  else
    let s := significantOf x.magnitude
    signText x.isNegative ++ mantissa s.digits ++
      'E' :: (if s.exponent < 0 then '-' else '+') :: Text.padded 2 s.exponent.natAbs

/-- Digits around a point: at least one before it and one after it. -/
def pointed (s : Significant) : List Char :=
  if s.exponent < 0 then
    '0' :: '.' :: List.replicate (s.exponent.natAbs - 1) '0' ++ s.digits
  else
    let whole := s.exponent.toNat + 1
    let before := s.digits.take whole
    let after := s.digits.drop whole
    before ++ List.replicate (whole - before.length) '0' ++
      '.' :: (if after.isEmpty then ['0'] else after)

/-- The form of error messages: `1.5`, `100.0`, `1e16`, `NaN`, `inf`.  From ten to the sixteenth
on and below ten to the minus fourth, an exponent is written. -/
def positional (x : Double) : List Char :=
  if x.isNaN then ['N', 'a', 'N']
  else if x.isInfinite then signText x.isNegative ++ ['i', 'n', 'f']
  else
    let s := significantOf x.magnitude
    signText x.isNegative ++
      if s.exponent < -4 ∨ 16 ≤ s.exponent then
        mantissa s.digits ++ 'e' :: Text.signedDecimal s.exponent
      else pointed s

end Double

end Edn.Decimal
