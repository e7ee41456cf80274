import Edn.Decimal.Binary
import Edn.Text.Numeral

/-!
# Shortest decimals

The decimal with the fewest digits that reads back as a given number of a
binary format.  Every real number of an interval around the number rounds to
it; the ends belong to the interval if the significand is even.  On the grid
of the decimals with `k` digits, only the two neighbours of the number can be
the nearest ones of the interval.  The first `k` that has a neighbour in the
interval wins; of two the nearer wins, and of two equally near ones the
greater.

All numbers are measured in quarters of the unit in the last place.
-/

namespace Edn.Decimal

/-- The decimal `digits * 10 ^ exponent`. -/
structure Scaled where
  digits : Nat
  exponent : Int
deriving DecidableEq, Repr

/-- A positive number `middle * num / den` and the ends `low` and `high` of the interval that
rounds to it, in the same unit. -/
structure Interval where
  low : Nat
  middle : Nat
  high : Nat
  num : Nat
  den : Nat
  closed : Bool
deriving DecidableEq, Repr

/-- The interval around the number with a given significand and exponent.  Below a power of two
the numbers lie twice as close. -/
def BinaryFormat.interval (f : BinaryFormat) (significand : Nat) (exponent : Int) : Interval :=
  let (num, den) := BinaryFormat.scaleBy (2 - exponent) 1 1
  let closer := decide (significand = f.binade ∧ f.minExponent < exponent)
  { low := 4 * significand - (if closer then 1 else 2)
    middle := 4 * significand
    high := 4 * significand + 2
    num, den
    closed := significand % 2 == 0 }

namespace Interval

/-- Tells whether the decimal `digits * 10 ^ exponent` lies in the interval. -/
def contains (i : Interval) (digits : Nat) (exponent : Int) : Bool :=
  let up := Nat.pow 10 exponent.toNat
  let down := Nat.pow 10 (-exponent).toNat
  let point := digits * up * i.den
  let low := i.low * i.num * down
  let high := i.high * i.num * down
  if i.closed then decide (low ≤ point ∧ point ≤ high) else decide (low < point ∧ point < high)

/-- The greatest number of units `10 ^ exponent` that is not above the middle. -/
def floorAt (i : Interval) (exponent : Int) : Nat :=
  (i.middle * i.num * Nat.pow 10 (-exponent).toNat) / (i.den * Nat.pow 10 exponent.toNat)

/-- Tells whether the neighbour above the middle is at least as near as the one below. -/
def upperIsNear (i : Interval) (below : Nat) (exponent : Int) : Bool :=
  decide ((2 * below + 1) * Nat.pow 10 exponent.toNat * i.den
    ≤ 2 * i.middle * i.num * Nat.pow 10 (-exponent).toNat)

/-- The neighbour of the middle on the grid of `10 ^ exponent` that lies in the interval, the
nearer one if both do. -/
def neighbour? (i : Interval) (exponent : Int) : Option Scaled :=
  let below := i.floorAt exponent
  let hasBelow := i.contains below exponent
  let hasAbove := i.contains (below + 1) exponent
  if hasAbove && (!hasBelow || i.upperIsNear below exponent) then some ⟨below + 1, exponent⟩
  else if hasBelow then some ⟨below, exponent⟩
  else none

/-- The number of decimal places before a ratio below one reaches one. -/
def leadingPlaces (num den : Nat) : Nat :=
  if num = 0 ∨ den ≤ num then 0 else leadingPlaces (num * 10) den + 1
termination_by den - num
decreasing_by omega

/-- The position of the first digit of the middle: `10 ^ (place - 1) ≤ middle < 10 ^ place`. -/
def place (i : Interval) : Int :=
  let num := i.middle * i.num
  if i.den ≤ num then (Text.decimal (num / i.den)).length
  else 1 - (leadingPlaces num i.den : Int)

/-- Tries the grids from `digits` digits on, at most `steps` of them.  The last grid is fine enough
for every number of the format, so its lower neighbour closes the search. -/
def search (i : Interval) (digits : Nat) : (steps : Nat) → Scaled
  | 0 => ⟨i.floorAt (i.place - digits), i.place - digits⟩
  | steps + 1 => (i.neighbour? (i.place - digits)).getD (i.search (digits + 1) steps)

/-- The shortest decimal of the interval. -/
def shortest (i : Interval) : Scaled :=
  i.search 1 17

end Interval

/-- The shortest decimal that reads back as the double with a given positive finite word. -/
def shortestDouble (word : Nat) : Scaled :=
  let (significand, exponent) := double.parts word
  (double.interval significand exponent).shortest

end Edn.Decimal
