import Edn.Text.CodePoint

/-!
# Quoted text

A string is written between double quotes.  `quote` writes a quote, a
backslash and every control character as an escape, and every other
character as it is.  `unescape` reads the text between the quotes.  It knows
one escape more than `quote` writes, the single quote.
-/

namespace Edn.Text

/-- The way in which one character is written between quotes. -/
def escape (c : Char) : List Char :=
  match c with
  | '"' => ['\\', '"']
  | '\\' => ['\\', '\\']
  | '\n' => ['\\', 'n']
  | '\r' => ['\\', 'r']
  | '\t' => ['\\', 't']
  | '\x08' => ['\\', 'b']
  | '\x0c' => ['\\', 'f']
  | c => if isControl c then '\\' :: codePoint c else [c]

/-- The text between the quotes. -/
def escapeAll (text : List Char) : List Char :=
  text.flatMap escape

/-- A text between double quotes. -/
def quote (text : List Char) : List Char :=
  '"' :: escapeAll text ++ ['"']

/-- The reasons why a text cannot stand between quotes. -/
inductive EscapeFault where
  | unknown (letter : Char)
  | codePoint (fault : CodePointFault)
  | unfinished
deriving DecidableEq, Repr

/-- The wording of a fault. -/
def EscapeFault.message : EscapeFault → String
  | .unknown letter => "invalid escape sequence: \\" ++ String.singleton letter
  | .codePoint fault => fault.message
  | .unfinished => "escape character at end of string"

/-- The character that a letter stands for after a backslash. -/
def escaped? (letter : Char) : Option Char :=
  match letter with
  | 't' => some '\t'
  | 'b' => some '\x08'
  | 'n' => some '\n'
  | 'r' => some '\r'
  | 'f' => some '\x0c'
  | '\\' => some '\\'
  | '\'' => some '\''
  | '"' => some '"'
  | _ => none

/-- Reads the text between quotes after the characters `read`, of which the last comes first.
After `\u` the next four characters are taken, whatever they are. -/
def unescapeOnto (read : List Char) : List Char → Except EscapeFault (List Char)
  | [] => .ok read.reverse
  | ['\\'] => .error .unfinished
  | '\\' :: 'u' :: a :: b :: c :: d :: rest =>
    match readCodePoint [a, b, c, d] with
    | .error fault => .error (.codePoint fault)
    | .ok char => unescapeOnto (char :: read) rest
  | '\\' :: 'u' :: digits => .error (.codePoint (.malformed digits))
  | '\\' :: letter :: rest =>
    match escaped? letter with
    | none => .error (.unknown letter)
    | some char => unescapeOnto (char :: read) rest
  | char :: rest => unescapeOnto (char :: read) rest

/-- Reads the text between quotes. -/
def unescape (text : List Char) : Except EscapeFault (List Char) :=
  unescapeOnto [] text

end Edn.Text
