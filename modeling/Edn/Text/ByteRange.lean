/-!
# Ranges of bytes

The bytes that write a range of code points in UTF-8.  The code points with
encodings of one length are counted in base 64: the first byte holds the
leading digit, and each tail byte from `80` to `BF` holds one more.

`codeWays` splits a range of code points into ways.  A way is one range of
bytes for each place, and it stands for all sequences with a byte of each
range.  The ways of a range are in ascending order, and no two of them have a
sequence in common.
-/

namespace Edn.Text

/-- A closed range of bytes. -/
abbrev ByteRange : Type :=
  Nat × Nat

/-- The ways of the numbers from `first` to `last` with a number of tail bytes.  The byte `base`
holds the leading digit zero.  A leading digit that is not taken with all tails has a way of its
own. -/
def digitWays (base : Nat) : (tails first last : Nat) → List (List ByteRange)
  | 0, first, last => [[(base + first, base + last)]]
  | tails + 1, first, last =>
    let unit := Nat.pow 64 (tails + 1)
    let low := first / unit
    let high := last / unit
    let behind (digit first last : Nat) :=
      (digitWays 0x80 tails first last).map ((base + digit, base + digit) :: ·)
    if low = high then behind low (first % unit) (last % unit)
    else
      let fromStart := decide (first % unit = 0)
      let toEnd := decide (last % unit = unit - 1)
      let whole := (if fromStart then low else low + 1, if toEnd then high else high - 1)
      (if fromStart then [] else behind low (first % unit) (unit - 1)) ++
        (if whole.1 ≤ whole.2 then
          [(base + whole.1, base + whole.2) :: List.replicate (tails + 1) (0x80, 0xbf)]
        else []) ++
        (if toEnd then [] else behind high 0 (last % unit))

/-- The code points of characters by the form of their encodings: the byte that holds the leading
digit zero, the number of tail bytes, and the first and the last code point. -/
def encodedForms : List (Nat × Nat × Nat × Nat) :=
  [(0x00, 0, 0x0, 0x7f), (0xc0, 1, 0x80, 0x7ff), (0xe0, 2, 0x800, 0xd7ff),
   (0xe0, 2, 0xe000, 0xffff), (0xf0, 3, 0x10000, 0x10ffff)]

/-- The ways of the code points from `first` to `last`, surrogates left out. -/
def codeWays (first last : Nat) : List (List ByteRange) :=
  encodedForms.flatMap fun (base, tails, low, high) =>
    if max first low ≤ min last high then digitWays base tails (max first low) (min last high)
    else []

end Edn.Text
