import Edn.Pattern.Class

/-!
# Marks

The pieces of a written pattern.  A text is cut into marks from left to
right: one for each character, escape, class, count, bar or parenthesis.

A parenthesis may be followed by `?` and

* `:` for a group without a number,
* `P<name>` or `<name>` for a group with a name,
* `s` or `-s` and `:` or `)`, which say whether `.` takes the end of a line
  too, in the group that opens or in the rest of the one that is open.
-/

namespace Edn.Pattern

/-- A piece of a written pattern. -/
inductive Mark where
  | oneOf (listed : Listed)
  | dot
  | assertion (condition : Assertion)
  | bar
  | opening (dotTakesAll : Option Bool)
  | numbered (name : Option (List Char))
  | closing
  | dotTakesAll (value : Bool)
  | repeated (least : Nat) (most : Option Nat) (eager : Bool)
deriving DecidableEq, Repr

namespace Mark

/-- The mark of a set that is not nested. -/
def ofSet (set : CharSet) : Mark :=
  oneOf ⟨set, 0⟩

/-- The mark of an escape. -/
def ofEscape : Escape → Mark
  | .character c => ofSet (.single c)
  | .set set => ofSet set
  | .assertion condition => .assertion condition

end Mark

/-! ## Counts -/

/-- No repetition counts further than this. -/
def maxCount : Nat :=
  4294967295

/-- A number at the start of a text, and the text after it.  White space around the number is left
out. -/
def number? (text : List Char) : Option (Nat × List Char) := do
  let text := text.dropWhile Text.isWhiteSpace
  let value ← Text.digits? (text.takeWhile Text.isDigit)
  if value ≤ maxCount then
    return (value, (text.dropWhile Text.isDigit).dropWhile Text.isWhiteSpace)
  else none

/-- The bounds of a repetition after its opening brace, and the text after its closing brace. -/
def bounds? (text : List Char) : Option (Nat × Option Nat × List Char) := do
  let (least, rest) ← number? text
  match rest with
  | '\x7d' :: rest => return (least, some least, rest)
  | ',' :: '\x7d' :: rest => return (least, none, rest)
  | ',' :: rest =>
    let (most, rest) ← number? rest
    match rest with
    | '\x7d' :: rest => if least ≤ most then return (least, some most, rest) else none
    | _ => none
  | _ => none

/-- The mark of a repetition.  A question mark after the count makes it reluctant. -/
def countMark (least : Nat) (most : Option Nat) : List Char → Mark × List Char
  | '?' :: rest => (.repeated least most false, rest)
  | rest => (.repeated least most true, rest)

/-! ## Groups -/

/-- Tells whether a character can stand in the name of a group. -/
def isGroupNameChar (c : Char) : Bool :=
  Text.isWord c || c == '.' || c == '[' || c == ']'

/-- Tells whether a character can start the name of a group. -/
def isGroupNameStart (c : Char) : Bool :=
  Text.isWord c && !Text.decimalDigit.holds c.toNat

/-- A group after the bracket that opens its name, and the text after the closing one. -/
def namedGroup? (text : List Char) : Option (Mark × List Char) :=
  let name := text.takeWhile (· != '>')
  match name, text.dropWhile (· != '>') with
  | first :: more, _ :: rest =>
    if isGroupNameStart first && more.all isGroupNameChar then some (.numbered (some name), rest)
    else none
  | _, _ => none

/-- A parenthesis after its opening one, and the text after it. -/
def openingMark? : List Char → Option (Mark × List Char)
  | '?' :: ':' :: rest => some (.opening none, rest)
  | '?' :: 's' :: ':' :: rest => some (.opening (some true), rest)
  | '?' :: '-' :: 's' :: ':' :: rest => some (.opening (some false), rest)
  | '?' :: 's' :: ')' :: rest => some (.dotTakesAll true, rest)
  | '?' :: '-' :: 's' :: ')' :: rest => some (.dotTakesAll false, rest)
  | '?' :: 'P' :: '<' :: rest => namedGroup? rest
  | '?' :: '<' :: rest => namedGroup? rest
  | '?' :: _ => none
  | rest => some (.numbered none, rest)

/-! ## Marks -/

/-- The mark at the start of a text, and the text after it. -/
def mark? : List Char → Option (Mark × List Char)
  | [] => none
  | '.' :: rest => some (.dot, rest)
  | '^' :: rest => some (.assertion .textStart, rest)
  | '$' :: rest => some (.assertion .textEnd, rest)
  | '|' :: rest => some (.bar, rest)
  | '(' :: rest => openingMark? rest
  | ')' :: rest => some (.closing, rest)
  | '*' :: rest => some (countMark 0 none rest)
  | '+' :: rest => some (countMark 1 none rest)
  | '?' :: rest => some (countMark 0 (some 1) rest)
  | '\x7b' :: rest => (bounds? rest).map fun (least, most, rest) => countMark least most rest
  | '[' :: rest => (class? rest).map fun (listed, rest) => (.oneOf listed, rest)
  | '\\' :: rest => (escape? rest).map fun (escape, rest) => (.ofEscape escape, rest)
  | c :: rest => some (.ofSet (.single c), rest)

/-- The marks of a text; none if a piece of it is ill-formed.  `steps` bounds their number. -/
def marksWithin? : (steps : Nat) → List Char → Option (List Mark)
  | _, [] => some []
  | 0, _ => none
  | steps + 1, text => do
    let (mark, rest) ← mark? text
    return mark :: (← marksWithin? steps rest)

/-- The marks of a text.  Each of them takes at least one character. -/
def marks? (text : List Char) : Option (List Mark) :=
  marksWithin? text.length text

end Edn.Pattern
