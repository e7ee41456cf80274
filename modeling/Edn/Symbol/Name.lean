import Edn.Text.CharClass

/-!
# Names

The parts of a symbol are names.  A name is a lone `.`, `+` or `-`, or an
optional one of these, then a character that may start a name, then any
characters that may stand in one.
-/

namespace Edn.Name

/-- The characters that may stand in front of the first character of a name. -/
def isModifier (c : Char) : Bool :=
  c == '.' || c == '+' || c == '-'

/-- The marks that may start a name. -/
def isLeadingMark (c : Char) : Bool :=
  c ∈ ['*', '!', '_', '?', '$', '%', '&', '=', '<', '>']

/-- Tells whether a character may start a name. -/
def isFirst (c : Char) : Bool :=
  Text.isLetter c || isLeadingMark c

/-- Tells whether a character may stand in a name after its first character. -/
def isLater (c : Char) : Bool :=
  isFirst c || isModifier c || Text.isDigit c || c == ':' || c == '#'

/-- Tells whether a text is a name without a modifier. -/
def isPlain : List Char → Bool
  | [] => false
  | c :: rest => isFirst c && rest.all isLater

/-- Tells whether a text is a name. -/
def isName : List Char → Bool
  | [] => false
  | c :: rest => if isModifier c then rest.isEmpty || isPlain rest else isPlain (c :: rest)

end Edn.Name
