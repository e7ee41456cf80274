import Edn.Pattern.Mark
import Edn.Pattern.NormalForm
import Edn.Pattern.Weight

/-!
# The text of patterns

The written form of patterns: characters, `.`, escapes, classes in brackets,
alternatives with `|`, groups, and the repetitions `*`, `+`, `?`, `{n}`,
`{n,}` and `{n,m}`, each of which may be followed by `?` to make it
reluctant.  `^` and `$` assert the start and the end of the text, and `(?s)`
lets `.` take the end of a line.  The other flags (`i`, `m`, `R`, `U`, `u` and
`x`) and the classes of Unicode (`\p` and `\P`) are refused.

A text is cut into marks first (`marks?`).  The marks are then put together
one after the other, with one level for each open group (`Assembly`).  A
pattern that is nested too deeply is refused, and so is one that is too heavy
to be followed.
-/

namespace Edn.Pattern

/-! ## Levels -/

/-- A part of a written pattern: what it means, how deep it is nested, and whether it can be
repeated. -/
structure Part where
  pattern : Pattern
  depth : Nat
  repeatable : Bool
deriving DecidableEq, Repr

/-- The depth of a list of parts.  One part is as deep as it is alone. -/
def depthOf (parts : List Part) : Nat :=
  let deepest := parts.foldl (fun depth part => max depth part.depth) 0
  if parts.length < 2 then deepest else deepest + 1

/-- An open group: its number if it has one, the alternatives that are complete, the parts of the
current one, both with the last first, and whether `.` takes the end of a line. -/
structure Level where
  number : Option Nat
  alternatives : List Part
  parts : List Part
  dotTakesAll : Bool
deriving DecidableEq, Repr

namespace Level

/-- A group without parts. -/
def start (number : Option Nat) (dotTakesAll : Bool) : Level :=
  ⟨number, [], [], dotTakesAll⟩

/-- The group with one more part. -/
def push (level : Level) (part : Part) : Level :=
  { level with parts := part :: level.parts }

/-- The parts of the current alternative in a row. -/
def current (level : Level) : Part :=
  ⟨inRow (level.parts.reverse.map (·.pattern)), depthOf level.parts, true⟩

/-- The group with its current alternative completed. -/
def nextAlternative (level : Level) : Level :=
  { level with alternatives := level.current :: level.alternatives, parts := [] }

/-- All alternatives of the group, without the group around them. -/
def body (level : Level) : Part :=
  let alternatives := (level.current :: level.alternatives).reverse
  ⟨anyOf (alternatives.map (·.pattern)), depthOf alternatives, true⟩

/-- The group as a part of the one around it. -/
def close (level : Level) : Part :=
  let body := level.body
  let pattern :=
    match level.number with
    | some number => group number body.pattern
    | none => body.pattern
  ⟨pattern, body.depth + 1, true⟩

end Level

/-! ## Assembly -/

/-- Marks that have been put together: the innermost open group and those around it, the number of
the next group, and the names of groups. -/
structure Assembly where
  level : Level
  outer : List Level
  nextGroup : Nat
  names : List (List Char)
deriving DecidableEq, Repr

namespace Assembly

/-- No marks. -/
def start : Assembly :=
  ⟨.start none false, [], 1, []⟩

/-- One more part of the innermost group. -/
def pushPart (a : Assembly) (part : Part) : Assembly :=
  { a with level := a.level.push part }

/-- One more part that is not nested and can be repeated. -/
def pushPattern (a : Assembly) (pattern : Pattern) : Assembly :=
  a.pushPart ⟨pattern, 0, true⟩

/-- A group opens inside the innermost one. -/
def openGroup (a : Assembly) (number : Option Nat) (dotTakesAll : Bool) : Assembly :=
  { a with level := .start number dotTakesAll, outer := a.level :: a.outer }

/-- A group with a number opens.  Two groups cannot have the same name. -/
def openNumbered? (a : Assembly) (name : Option (List Char)) : Option Assembly :=
  if name.any fun name => a.names.contains name then none
  else
    some
      { a.openGroup (some a.nextGroup) a.level.dotTakesAll with
        nextGroup := a.nextGroup + 1, names := name.toList ++ a.names }

/-- The innermost group closes. -/
def close? (a : Assembly) : Option Assembly :=
  match a.outer with
  | [] => none
  | around :: outer => some { a with level := around.push a.level.close, outer := outer }

/-- The last part is repeated. -/
def repeat? (a : Assembly) (least : Nat) (most : Option Nat) (eager : Bool) : Option Assembly :=
  match a.level.parts with
  | [] => none
  | last :: before =>
    if last.repeatable then
      let part := ⟨rounds least most eager last.pattern, last.depth + 1, true⟩
      some { a with level := { a.level with parts := part :: before } }
    else none

/-- The group sets whether `.` takes the end of a line. -/
def setDot (a : Assembly) (dotTakesAll : Bool) : Assembly :=
  { a with level := { a.level.push ⟨empty, 0, false⟩ with dotTakesAll } }

/-- Adds a mark; none if the mark cannot follow. -/
def push? (a : Assembly) : Mark → Option Assembly
  | .oneOf listed => some (a.pushPart ⟨one listed.set, listed.depth, true⟩)
  | .dot => some (a.pushPattern (one (if a.level.dotTakesAll then .all else .allInLine)))
  | .assertion condition => some (a.pushPattern (assertion condition))
  | .bar => some { a with level := a.level.nextAlternative }
  | .opening dotTakesAll => some (a.openGroup none (dotTakesAll.getD a.level.dotTakesAll))
  | .numbered name => a.openNumbered? name
  | .closing => a.close?
  | .dotTakesAll value => some (a.setDot value)
  | .repeated least most eager => a.repeat? least most eager

/-- The part that all marks make; none if a group is open. -/
def finish? (a : Assembly) : Option Part :=
  if a.outer.isEmpty then some a.level.body else none

end Assembly

/-! ## Reading -/

/-- No written pattern is nested deeper than this. -/
def maxNesting : Nat :=
  250

/-- Reads a pattern; none if it is ill-formed, nested too deeply, or too heavy. -/
def read? (text : String) : Option Pattern := do
  let assembly ← (← marks? text.toList).foldlM Assembly.push? .start
  let part ← assembly.finish?
  if part.depth ≤ maxNesting ∧ part.pattern.isLight then some part.pattern else none

end Edn.Pattern
