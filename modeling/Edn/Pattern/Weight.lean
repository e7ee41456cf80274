import Edn.Pattern.NormalForm
import Edn.Text.ByteRange

/-!
# The weight of patterns

How much memory it takes to follow a pattern, without building an automaton.
A pattern can be followed over the bytes of a text, from its start or from
its end, and it must not be too heavy for either.

* A state weighs 32, and 8 more for each range of bytes if it has several to
  choose from.  A fork weighs 4 more for each state that follows it.
* A set has a state for each byte of its ways.  From the start, equal rests
  of ways share their states; from the end, equal starts do.
* A choice between words follows a tree of their bytes.
* A repetition weighs as much as its body in all rounds, so a short text can
  write a very heavy pattern.
-/

namespace Edn

/-- The direction in which a pattern is followed. -/
inductive Direction where
  | forward
  | backward
deriving DecidableEq, Repr

/-- The weight of one state. -/
def stateWeight : Nat :=
  32

/-- The weight of a state that chooses between a number of byte ranges. -/
def rangesWeight (count : Nat) : Nat :=
  stateWeight + 8 * count

/-- The weight of a fork into a number of states. -/
def forkWeight (count : Nat) : Nat :=
  stateWeight + 4 * count

/-! ## Sets -/

namespace CharSet

/-- The ways of a set over bytes, in ascending order. -/
def ways (s : CharSet) : List (List Text.ByteRange) :=
  s.table.flatMap fun (first, last) => Text.codeWays first last

/-- The ranges that some ways start with. -/
def heads (ways : List (List Text.ByteRange)) : List Text.ByteRange :=
  (ways.filterMap List.head?).eraseDups

/-- The rests of the ways that start with a range. -/
def restsAfter (head : Text.ByteRange) (ways : List (List Text.ByteRange)) :
    List (List Text.ByteRange) :=
  (ways.filter fun way => way.head? == some head).map List.tail

/-- The ways that are left at each place of some ways.  `depth` bounds their length. -/
def rests : (depth : Nat) → List (List Text.ByteRange) → List (List (List Text.ByteRange))
  | 0, _ => []
  | depth + 1, ways =>
    match heads ways with
    | [] => []
    | all => ways :: all.flatMap fun head => rests depth (restsAfter head ways)

/-- The number of ranges that two ways start with in common. -/
def sharedLength : List Text.ByteRange → List Text.ByteRange → Nat
  | a :: first, b :: second => if a = b then sharedLength first second + 1 else 0
  | _, _ => 0

/-- The number of different starts of some ways, after another way. -/
def countStarts (before : List Text.ByteRange) : List (List Text.ByteRange) → Nat
  | [] => 0
  | way :: more => way.length - sharedLength before way + countStarts way more

/-- The weight of ways in a direction. -/
def waysWeight (direction : Direction) (ways : List (List Text.ByteRange)) : Nat :=
  match direction with
  | .forward =>
    (rests 4 ways).eraseDups.foldl (fun weight rest => weight + rangesWeight (heads rest).length)
      stateWeight
  | .backward => forkWeight ways.length + stateWeight + stateWeight * countStarts [] ways

/-- Tells whether all characters of a set are ASCII. -/
def isAscii (s : CharSet) : Bool :=
  s.table.all fun range => decide (range.2 < 0x80)

/-- The character of a set that has exactly one. -/
def single? (s : CharSet) : Option Char :=
  match s.table with
  | [(first, last)] => if first = last then some (Char.ofNat first) else none
  | _ => none

/-- The weight of a set. -/
def weight (direction : Direction) (s : CharSet) : Nat :=
  match s.single? with
  | some c => stateWeight * c.utf8Size
  | none =>
    if s.isAscii then rangesWeight s.table.length + stateWeight else waysWeight direction s.ways

end CharSet

/-! ## Words -/

/-- The weight of the tree of some words, which are tried in their order.  A word that ends divides
those before it from those behind it.  `depth` bounds the length of the words. -/
def treeWeight : (depth : Nat) → List (List UInt8) → Nat
  | 0, _ => 0
  | depth + 1, words =>
    let words := if words.head? = some [] then [] :: words.dropWhile List.isEmpty else words
    let runs := words.splitBy fun word next => !word.isEmpty && !next.isEmpty
    runs.foldl (fun weight run =>
      let heads := (run.filterMap List.head?).eraseDups
      let own :=
        match heads.length with
        | 0 => 0
        | 1 => stateWeight
        | count => rangesWeight count
      heads.foldl (fun weight head =>
        let rests := (run.filter fun word => word.head? == some head).map List.tail
        if rests.all List.isEmpty then weight else weight + treeWeight depth rests)
        (weight + own)) (forkWeight runs.length)

namespace Pattern

/-- The bytes of a pattern that takes one given character. -/
def characterBytes : Pattern → List UInt8
  | one set => (set.single?.map String.utf8EncodeChar).getD []
  | _ => []

/-- The bytes of a pattern that is a word of one character at least. -/
def word? (p : Pattern) : Option (List UInt8) :=
  match p.parts with
  | [] => none
  | parts => if parts.all isCharacter then some (parts.flatMap characterBytes) else none

/-- The words that a choice is made between, if all its branches are words. -/
def words? (p : Pattern) : Option (List (List UInt8)) :=
  p.branches.mapM word?

/-- The weight of a choice between words. -/
def wordsWeight (direction : Direction) (words : List (List UInt8)) : Nat :=
  let directed :=
    match direction with
    | .forward => words
    | .backward => words.map List.reverse
  let depth := words.foldl (fun depth word => max depth word.length) 0
  stateWeight + treeWeight (depth + 1) directed

/-! ## Patterns -/

/-- The weight of a repetition by the weight of one round. -/
def roundsWeight (least : Nat) (most : Option Nat) (takesSome : Bool) (round : Nat) : Nat :=
  match least, most with
  | 0, some 1 => forkWeight 2 + round + stateWeight
  | 0, some most => 2 * stateWeight + most * (forkWeight 2 + round)
  | 0, none => if takesSome then forkWeight 2 + round else 2 * forkWeight 2 + round + stateWeight
  | least, none => least * round + forkWeight 2
  | least, some most =>
    if least = most then least * round
    else least * round + stateWeight + (most - least) * (forkWeight 2 + round)

/-- Adds what a branch of a choice costs the fork of the choice. -/
def inFork (isBranch : Bool) (weight : Nat) : Nat :=
  if isBranch then weight + 4 else weight

/-- The weight of a pattern.  Nested choices have one fork for all their branches. -/
def weight (direction : Direction) : (isBranch : Bool) → Pattern → Nat
  | isBranch, empty => inFork isBranch stateWeight
  | isBranch, one set => inFork isBranch (set.weight direction)
  | isBranch, assertion _ => inFork isBranch stateWeight
  | isBranch, sequence first second =>
    inFork isBranch (weight direction false first + weight direction false second)
  | true, choice first second => weight direction true first + weight direction true second
  | false, choice first second =>
    match (choice first second).words? with
    | some words => wordsWeight direction words
    | none =>
      forkWeight 0 + weight direction true first + weight direction true second + stateWeight
  | isBranch, repeated least most _ body =>
    inFork isBranch (roundsWeight least most body.takesSome (weight direction false body))
  | isBranch, group _ body =>
    let marks := if direction = .forward then 2 * stateWeight else 0
    inFork isBranch (marks + weight direction false body)

/-- The weight of what stands around a pattern: its end, and the states that mark a match or look
for one. -/
def frameWeight : Direction → Nat
  | .forward => 4 * stateWeight
  | .backward => forkWeight 2 + rangesWeight 1 + 2 * stateWeight

/-- The weight above which a pattern is refused. -/
def maxWeight : Nat :=
  10485760

/-- Tells whether a pattern can be followed in both directions. -/
def isLight (p : Pattern) : Bool :=
  [Direction.forward, Direction.backward].all fun direction =>
    decide (frameWeight direction + p.weight direction false ≤ maxWeight)

end Pattern

end Edn
