import Edn.Text.Numeral

/-!
# Code points in hexadecimal

Strings and characters may write a character as `u` and four hexadecimal
digits.  Code points above `FFFF` cannot be written in this way, and the
surrogates `D800` to `DFFF` are no characters.
-/

namespace Edn.Text

/-- The reasons why a text is not the code point of a character. -/
inductive CodePointFault where
  | malformed (digits : List Char)
  | noCharacter (digits : List Char)
deriving DecidableEq, Repr

/-- The wording of a fault. -/
def CodePointFault.message : CodePointFault → String
  | .malformed digits => "invalid unicode escape: \\u" ++ String.ofList digits
  | .noCharacter digits => "invalid unicode code point: \\u" ++ String.ofList digits

/-- The character with a given code point, unless it is a surrogate or beyond the last one. -/
def charOfCode? (code : Nat) : Option Char :=
  if code.isValidChar then some (Char.ofNat code) else none

/-- Reads a code point from exactly four hexadecimal digits. -/
def readCodePoint (digits : List Char) : Except CodePointFault Char :=
  if digits.length = 4 then
    match ofHex? digits with
    | none => .error (.malformed digits)
    | some code =>
      match charOfCode? code with
      | none => .error (.noCharacter digits)
      | some c => .ok c
  else .error (.malformed digits)

/-- Writes the code point of a character as `u` and four hexadecimal digits. -/
def codePoint (c : Char) : List Char :=
  'u' :: hex 4 c.toNat

end Edn.Text
