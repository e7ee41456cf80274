import Edn.Text.CodeTable

/-!
# Classes of characters

The classes that the notation tests characters against.  White space and
control characters are the Unicode classes; letters, digits and graphic
characters are ASCII only.
-/

namespace Edn.Text

/-- The Unicode property `White_Space`. -/
def whiteSpace : CodeTable :=
  [(0x9, 0xd), (0x20, 0x20), (0x85, 0x85), (0xa0, 0xa0), (0x1680, 0x1680), (0x2000, 0x200a),
   (0x2028, 0x2029), (0x202f, 0x202f), (0x205f, 0x205f), (0x3000, 0x3000)]

/-- Tells whether a character has the Unicode property `White_Space`. -/
def isWhiteSpace (c : Char) : Bool :=
  whiteSpace.holds c.toNat

/-- The Unicode category `Cc`. -/
def control : CodeTable :=
  [(0x0, 0x1f), (0x7f, 0x9f)]

/-- Tells whether a character is a control character. -/
def isControl (c : Char) : Bool :=
  control.holds c.toNat

/-- The visible ASCII characters: all but the space and the control characters. -/
def isGraphic (c : Char) : Bool :=
  decide ('!' ≤ c) && decide (c ≤ '~')

/-- Tells whether a character is an ASCII letter. -/
def isLetter (c : Char) : Bool :=
  (decide ('a' ≤ c) && decide (c ≤ 'z')) || (decide ('A' ≤ c) && decide (c ≤ 'Z'))

/-- Tells whether a character is an ASCII digit. -/
def isDigit (c : Char) : Bool :=
  decide ('0' ≤ c) && decide (c ≤ '9')

/-- The lower-case form of an ASCII letter; every other character is left as it is. -/
def lowerLetter (c : Char) : Char :=
  if 'A' ≤ c ∧ c ≤ 'Z' then Char.ofNat (c.toNat + 32) else c

end Edn.Text
