import Edn.Pattern.Escape

/-!
# Classes of characters

Sets of characters as a pattern writes them in brackets.

* A class lists characters, ranges, escapes for sets, named sets such as
  `[:digit:]`, and other classes.
* `^` at the start takes the characters that are not listed.
* Hyphens at the start stand for themselves, and so does a hyphen before the
  closing bracket.  A closing bracket that comes first stands for itself.
* `&&`, `--` and `~~` stand between two lists.  They take the characters of
  both, those of the first list only, and those of exactly one.  They are
  applied from left to right.
-/

namespace Edn.Pattern

/-- A set as it is written, and how deep it is nested. -/
structure Listed where
  set : CharSet
  depth : Nat
deriving DecidableEq, Repr

/-! ## Lists of items -/

/-- A list of items: the characters of all of them, their number, and the greatest depth. -/
structure Items where
  set : CharSet
  count : Nat
  depth : Nat
deriving DecidableEq, Repr

namespace Items

/-- The list without items. -/
def empty : Items :=
  ⟨.empty, 0, 0⟩

/-- The list with one more item. -/
def push (items : Items) (item : Listed) : Items :=
  ⟨items.set.union item.set, items.count + 1, max items.depth item.depth⟩

/-- The list with one more item that is not nested. -/
def pushSet (items : Items) (set : CharSet) : Items :=
  items.push ⟨set, 0⟩

/-- The characters of a list.  A list of several items is one level deeper than they are. -/
def listed (items : Items) : Listed :=
  ⟨items.set, if items.count < 2 then items.depth else items.depth + 1⟩

end Items

/-! ## Operators -/

/-- The operators between two lists of a class. -/
inductive SetOperator where
  | inter
  | diff
  | symmDiff
deriving DecidableEq, Repr

/-- Applies an operator. -/
def SetOperator.apply : SetOperator → CharSet → CharSet → CharSet
  | inter, a, b => a.inter b
  | diff, a, b => a.diff b
  | symmDiff, a, b => a.symmDiff b

/-- Applies the operator in front of a list, if there is one, to what stands before it. -/
def applyPending (pending : Option (Listed × SetOperator)) (right : Listed) : Listed :=
  match pending with
  | none => right
  | some (left, operator) =>
    ⟨operator.apply left.set right.set, max left.depth right.depth + 1⟩

/-! ## Named sets -/

/-- The set of the characters of some ranges. -/
def setOfRanges (ranges : List (Char × Char)) : CharSet :=
  .unionAll (ranges.map fun (first, last) => .range first last)

/-- The set of a name. -/
def namedSet? (name : List Char) : Option CharSet :=
  match String.ofList name with
  | "alnum" => some (setOfRanges [('0', '9'), ('A', 'Z'), ('a', 'z')])
  | "alpha" => some (setOfRanges [('A', 'Z'), ('a', 'z')])
  | "ascii" => some (setOfRanges [('\x00', '\x7f')])
  | "blank" => some (setOfRanges [('\t', '\t'), (' ', ' ')])
  | "cntrl" => some (setOfRanges [('\x00', '\x1f'), ('\x7f', '\x7f')])
  | "digit" => some (setOfRanges [('0', '9')])
  | "graph" => some (setOfRanges [('!', '~')])
  | "lower" => some (setOfRanges [('a', 'z')])
  | "print" => some (setOfRanges [(' ', '~')])
  | "punct" => some (setOfRanges [('!', '/'), (':', '@'), ('[', '\x60'), ('\x7b', '~')])
  | "space" => some (setOfRanges [('\t', '\r'), (' ', ' ')])
  | "upper" => some (setOfRanges [('A', 'Z')])
  | "word" => some (setOfRanges [('0', '9'), ('A', 'Z'), ('_', '_'), ('a', 'z')])
  | "xdigit" => some (setOfRanges [('0', '9'), ('A', 'F'), ('a', 'f')])
  | _ => none

/-- A named set after its opening bracket and colon, and the text after it. -/
def namedSetFrom? (text : List Char) : Option (CharSet × List Char) :=
  match text.dropWhile (· != ':') with
  | ':' :: ']' :: rest => (namedSet? (text.takeWhile (· != ':'))).map (·, rest)
  | _ => none

/-- A named set or its complement after its opening bracket, and the text after it. -/
def named? : List Char → Option (CharSet × List Char)
  | ':' :: '^' :: rest => (namedSetFrom? rest).map fun (set, rest) => (set.complement, rest)
  | ':' :: rest => namedSetFrom? rest
  | _ => none

/-! ## Reading -/

/-- A character or an escape of a class, and the text after it. -/
def item? : List Char → Option (Escape × List Char)
  | [] => none
  | '\\' :: rest => escape? rest
  | c :: rest => some (.character c, rest)

/-- The set of an item.  An assertion takes no character and cannot be listed. -/
def itemSet? : Escape → Option CharSet
  | .character c => some (.single c)
  | .set set => some set
  | .assertion _ => none

/-- The set of the range between two items, which have to be characters in their order. -/
def rangeSet? : (first last : Escape) → Option CharSet
  | .character first, .character last => if first ≤ last then some (.range first last) else none
  | _, _ => none

/-- An item or a range, and the text after it.  There is no range before `]` or before another
hyphen. -/
def itemOrRange? (text : List Char) : Option (CharSet × List Char) := do
  let (first, rest) ← item? text
  match rest with
  | [] => none
  | '-' :: ']' :: _ => return (← itemSet? first, rest)
  | '-' :: '-' :: _ => return (← itemSet? first, rest)
  | '-' :: upper =>
    let (last, rest) ← item? upper
    return (← rangeSet? first last, rest)
  | _ => return (← itemSet? first, rest)

/-- How a class starts: whether its complement is meant, the items that stand for themselves because
they come first, and the text after them. -/
def classStart (text : List Char) : Bool × Items × List Char :=
  let (negated, text) :=
    match text with
    | '^' :: rest => (true, rest)
    | _ => (false, text)
  match text with
  | ']' :: rest => (negated, Items.empty.pushSet (.single ']'), rest)
  | _ =>
    let hyphens := text.takeWhile (· == '-')
    let items := hyphens.foldl (fun items hyphen => items.pushSet (.single hyphen)) .empty
    (negated, items, text.dropWhile (· == '-'))

/-- The class of some listed characters. -/
def classOf (negated : Bool) (listed : Listed) : Listed :=
  ⟨if negated then listed.set.complement else listed.set, listed.depth + 1⟩

/-- Reads a class up to its closing bracket, after some items.  The result is the set that is listed
and the text after the bracket.  `steps` bounds the number of items. -/
def listedFrom? : (steps : Nat) → (pending : Option (Listed × SetOperator)) → Items → List Char →
    Option (Listed × List Char)
  | 0, _, _, _ => none
  | steps + 1, pending, items, text =>
    match text with
    | [] => none
    | ']' :: rest => some (applyPending pending items.listed, rest)
    | '&' :: '&' :: rest =>
      listedFrom? steps (some (applyPending pending items.listed, .inter)) .empty rest
    | '-' :: '-' :: rest =>
      listedFrom? steps (some (applyPending pending items.listed, .diff)) .empty rest
    | '~' :: '~' :: rest =>
      listedFrom? steps (some (applyPending pending items.listed, .symmDiff)) .empty rest
    | '[' :: inner =>
      match named? inner with
      | some (set, rest) => listedFrom? steps pending (items.pushSet set) rest
      | none => do
        let (negated, start, rest) := classStart inner
        let (listed, rest) ← listedFrom? steps none start rest
        listedFrom? steps pending (items.push (classOf negated listed)) rest
    | _ => do
      let (set, rest) ← itemOrRange? text
      listedFrom? steps pending (items.pushSet set) rest

/-- Reads a class after its opening bracket.  The result is its set, how deep it is nested, and the
text after its closing bracket. -/
def class? (text : List Char) : Option (Listed × List Char) := do
  let (negated, start, rest) := classStart text
  let (listed, rest) ← listedFrom? (text.length + 1) none start rest
  return (classOf negated listed, rest)

end Edn.Pattern
