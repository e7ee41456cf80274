import Edn.Pattern.CharSet
import Edn.Text.Word

/-!
# Patterns

A pattern describes texts.  It is built from sets of characters and from
assertions, which take no character and look at the characters on both sides
of a place.  The order of alternatives matters: where a text can be taken in
several ways, the first way is preferred.  An eager repetition prefers more
rounds, a reluctant one fewer.

`Edn.Pattern.Automaton` follows a pattern through a text, and
`Edn.Pattern.Reading` reads the written form of patterns.
-/

namespace Edn

/-- A condition on a place in a text. -/
inductive Assertion where
  | textStart
  | textEnd
  | wordBorder
  | noWordBorder
  | wordStart
  | wordEnd
  | noWordBefore
  | noWordAfter
deriving DecidableEq, Repr

/-- Tells whether the character at one side of a place is one of words.  There is none at the ends
of a text. -/
def isWordAt (c : Option Char) : Bool :=
  c.any Text.isWord

/-- Tells whether an assertion holds between two characters. -/
def Assertion.holds (before after : Option Char) : Assertion → Bool
  | textStart => before.isNone
  | textEnd => after.isNone
  | wordBorder => isWordAt before != isWordAt after
  | noWordBorder => isWordAt before == isWordAt after
  | wordStart => !isWordAt before && isWordAt after
  | wordEnd => isWordAt before && !isWordAt after
  | noWordBefore => !isWordAt before
  | noWordAfter => !isWordAt after

/-- A pattern.  `choice` prefers its first part.  `repeated` takes its body at least `least` times,
and at most `most` times if there is a bound.  A `group` is its body with a number of its own. -/
inductive Pattern where
  | empty
  | one (set : CharSet)
  | assertion (condition : Assertion)
  | sequence (first second : Pattern)
  | choice (first second : Pattern)
  | repeated (least : Nat) (most : Option Nat) (eager : Bool) (body : Pattern)
  | group (number : Nat) (body : Pattern)
deriving DecidableEq, Repr

namespace Pattern

/-! ## Lengths -/

/-- Tells whether a pattern can take the empty text only. -/
def takesNothing : Pattern → Bool
  | empty => true
  | one _ => false
  | assertion _ => true
  | sequence first second => first.takesNothing && second.takesNothing
  | choice first second => first.takesNothing && second.takesNothing
  | repeated _ _ _ body => body.takesNothing
  | group _ body => body.takesNothing

/-- The sum of two lengths, where both are known. -/
def addLengths (a b : Option Nat) : Option Nat :=
  match a, b with
  | some a, some b => some (a + b)
  | _, _ => none

/-- The smaller of two lengths, where both are known. -/
def minLengths (a b : Option Nat) : Option Nat :=
  match a, b with
  | some a, some b => some (min a b)
  | _, _ => none

/-- A length that no text of a pattern goes below.  None is known if a part of the pattern is the
empty set. -/
def minLength? : Pattern → Option Nat
  | empty => some 0
  | one set => if set = .empty then none else some 1
  | assertion _ => some 0
  | sequence first second => addLengths first.minLength? second.minLength?
  | choice first second => minLengths first.minLength? second.minLength?
  | repeated least _ _ body => body.minLength?.map (least * ·)
  | group _ body => body.minLength?

/-- Tells whether a pattern is known to take at least one character. -/
def takesSome (p : Pattern) : Bool :=
  p.minLength?.any fun length => decide (0 < length)

/-- Tells whether a pattern starts by asserting the start of the text. -/
def isAnchored : Pattern → Bool
  | empty => false
  | one _ => false
  | assertion condition => decide (condition = .textStart)
  | sequence first _ => first.isAnchored
  | choice first second => first.isAnchored && second.isAnchored
  | repeated least _ _ body => decide (0 < least) && body.isAnchored
  | group _ body => body.isAnchored

end Pattern

end Edn
