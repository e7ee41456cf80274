import Edn.Pattern
import Edn.Text.CodePoint

/-!
# Escapes

What a backslash and the text after it stand for in a written pattern.

* A mark, and any other ASCII character but a letter, a digit, `<` or `>`,
  stands for itself.
* Some letters stand for a control character, a set of characters or an
  assertion.
* `x`, `u` and `U` are followed by the code point of a character: by two,
  four or eight hexadecimal digits, or by any number of them in braces.
* `b` may be followed by the name of a border in braces.
-/

namespace Edn.Pattern

/-- What an escape stands for. -/
inductive Escape where
  | character (c : Char)
  | set (set : CharSet)
  | assertion (condition : Assertion)
deriving DecidableEq, Repr

/-! ## Sets -/

/-- The set of white space. -/
def whiteSpaceSet : CharSet :=
  ⟨Text.whiteSpace⟩

/-- The set of decimal digits. -/
def digitSet : CharSet :=
  ⟨Text.decimalDigit⟩

/-- The set of the characters of words. -/
def wordSet : CharSet :=
  ⟨Text.word⟩

/-! ## Escapes of one character -/

/-- Tells whether a character stands for itself after a backslash. -/
def isPlainEscape (c : Char) : Bool :=
  decide (c.toNat < 0x80) && !Text.isLetter c && !Text.isDigit c && c != '<' && c != '>'

/-- What one character stands for after a backslash. -/
def shortEscape? (c : Char) : Option Escape :=
  match c with
  | 'a' => some (.character '\x07')
  | 'f' => some (.character '\x0c')
  | 'n' => some (.character '\n')
  | 'r' => some (.character '\r')
  | 't' => some (.character '\t')
  | 'v' => some (.character '\x0b')
  | 'd' => some (.set digitSet)
  | 'D' => some (.set digitSet.complement)
  | 's' => some (.set whiteSpaceSet)
  | 'S' => some (.set whiteSpaceSet.complement)
  | 'w' => some (.set wordSet)
  | 'W' => some (.set wordSet.complement)
  | 'A' => some (.assertion .textStart)
  | 'z' => some (.assertion .textEnd)
  | 'b' => some (.assertion .wordBorder)
  | 'B' => some (.assertion .noWordBorder)
  | '<' => some (.assertion .wordStart)
  | '>' => some (.assertion .wordEnd)
  | c => if isPlainEscape c then some (.character c) else none

/-! ## Longer escapes -/

/-- The character whose code point is written by some digits. -/
def codeEscape? (digits : List Char) : Option Escape := do
  let c ← Text.charOfCode? (← Text.ofHex? digits)
  return .character c

/-- A code point of a number of digits, or of digits in braces, and the text after it. -/
def hexEscape? (width : Nat) (text : List Char) : Option (Escape × List Char) :=
  match text with
  | '\x7b' :: rest =>
    let digits := rest.takeWhile (· != '\x7d')
    match rest.dropWhile (· != '\x7d') with
    | '\x7d' :: rest => if digits.isEmpty then none else (codeEscape? digits).map (·, rest)
    | _ => none
  | _ =>
    if width ≤ text.length then (codeEscape? (text.take width)).map (·, text.drop width) else none

/-- The border that a name in braces stands for. -/
def border? (name : List Char) : Option Assertion :=
  match String.ofList name with
  | "start" => some .wordStart
  | "end" => some .wordEnd
  | "start-half" => some .noWordBefore
  | "end-half" => some .noWordAfter
  | _ => none

/-- Tells whether a character can be part of the name of a border. -/
def isBorderChar (c : Char) : Bool :=
  Text.isLetter c || c == '-'

/-- A border after `b`, and the text after it.  A brace that starts no name is left to be read as
a count. -/
def borderEscape? (text : List Char) : Option (Escape × List Char) :=
  match text with
  | ['\x7b'] => none
  | '\x7b' :: first :: rest =>
    if isBorderChar first then
      let name := first :: rest.takeWhile isBorderChar
      match rest.dropWhile isBorderChar with
      | '\x7d' :: rest => (border? name).map (.assertion ·, rest)
      | _ => none
    else some (.assertion .wordBorder, text)
  | _ => some (.assertion .wordBorder, text)

/-- What the text after a backslash starts with, and the text after that. -/
def escape? : List Char → Option (Escape × List Char)
  | [] => none
  | 'x' :: rest => hexEscape? 2 rest
  | 'u' :: rest => hexEscape? 4 rest
  | 'U' :: rest => hexEscape? 8 rest
  | 'b' :: rest => borderEscape? rest
  | c :: rest => (shortEscape? c).map (·, rest)

end Edn.Pattern
