import Edn.Pattern

/-!
# Normal forms

Patterns are put together by the operations of this file, which keep them
simple.  A sequence is nested to the right, and no part of it is a sequence
or empty; a choice is nested to the right, and no branch of it is a choice.

* `inRow` takes patterns one after the other.
* `anyOf` takes one of some branches.  Branches that are all single
  characters become one set, and so do branches that are all wider sets; a
  mixture is left as it is.  What all branches start with is taken once, in
  front of the choice; characters that follow each other are shared as a
  whole or not at all.
* `rounds` repeats a pattern.  A body that takes nothing is not taken twice.

The form decides which match is preferred where a branch can take nothing:
behind a common start, all ways through the start come before the choice.
-/

namespace Edn.Pattern

/-! ## Sequences -/

/-- The parts that a pattern takes one after the other. -/
def parts : Pattern → List Pattern
  | empty => []
  | sequence first second => first.parts ++ second.parts
  | p => [p]

/-- The pattern that takes some parts one after the other. -/
def ofParts : List Pattern → Pattern
  | [] => empty
  | [part] => part
  | part :: rest => sequence part (ofParts rest)

/-- Takes patterns one after the other. -/
def inRow (patterns : List Pattern) : Pattern :=
  ofParts (patterns.flatMap parts)

/-- Tells whether a pattern takes one given character. -/
def isCharacter : Pattern → Bool
  | one set => set.isSingle
  | _ => false

/-- Tells whether a pattern takes one character of a set that has not exactly one. -/
def isWiderSet : Pattern → Bool
  | one set => !set.isSingle
  | _ => false

/-- The parts of a pattern, with the characters that follow each other in one piece. -/
def pieces (p : Pattern) : List (List Pattern) :=
  p.parts.splitBy fun part next => part.isCharacter && next.isCharacter

/-! ## Choices -/

/-- The alternatives of a pattern, the preferred one first. -/
def branches : Pattern → List Pattern
  | choice first second => first.branches ++ second.branches
  | p => [p]

/-- The pattern that takes one of some branches and prefers the first.  Without branches it takes no
text. -/
def ofBranches : List Pattern → Pattern
  | [] => one .empty
  | [branch] => branch
  | branch :: rest => choice branch (ofBranches rest)

/-- The set of a pattern that takes one character of a set. -/
def set? : Pattern → Option CharSet
  | one set => some set
  | _ => none

/-- Takes one of some branches.  Branches of one kind of set are joined to a set. -/
def joinBranches (patterns : List Pattern) : Pattern :=
  let all := patterns.flatMap branches
  if all.all isCharacter || all.all isWiderSet then one (.unionAll (all.filterMap set?))
  else ofBranches all

/-- The pieces that two lists of pieces start with. -/
def commonStart : List (List Pattern) → List (List Pattern) → List (List Pattern)
  | a :: first, b :: second => if a = b then a :: commonStart first second else []
  | _, _ => []

/-- The pieces that all of some lists start with.  A list of less than two pieces shares none. -/
def sharedStart (lists : List (List (List Pattern))) : List (List Pattern) :=
  match lists with
  | [] => []
  | first :: rest =>
    if lists.all fun list => decide (2 ≤ list.length) then rest.foldl commonStart first else []

/-- Takes one of some patterns, the first one for choice. -/
def anyOf (patterns : List Pattern) : Pattern :=
  let all := patterns.flatMap branches
  match sharedStart (all.map pieces) with
  | [] => joinBranches all
  | start =>
    let rests := all.map fun branch => ofParts (branch.pieces.drop start.length).flatten
    inRow [ofParts start.flatten, joinBranches rests]

/-! ## Repetitions -/

/-- Repeats a pattern between two bounds. -/
def between (least : Nat) (most : Option Nat) (eager : Bool) (body : Pattern) : Pattern :=
  if most = some 0 then empty
  else if least = 1 ∧ most = some 1 then body
  else repeated least most eager body

/-- Repeats a pattern.  What takes nothing is taken once at most. -/
def rounds (least : Nat) (most : Option Nat) (eager : Bool) (body : Pattern) : Pattern :=
  if body.takesNothing then between (min least 1) (some (min (most.getD 1) 1)) eager body
  else between least most eager body

end Edn.Pattern
