import Edn.Text.CodeTable

/-!
# Sets of characters

The sets that patterns are made of.  A set is a table of code points, so two
sets with the same characters are equal.  Union, complement and the sets
built from them keep the table in its form: ascending ranges with gaps.
-/

namespace Edn

/-- A set of characters. -/
structure CharSet where
  table : Text.CodeTable
deriving DecidableEq, Repr

namespace CharSet

/-- Tells whether a set holds a character. -/
def contains (s : CharSet) (c : Char) : Bool :=
  s.table.holds c.toNat

/-! ## Building sets -/

/-- Adds a range to a table, and joins the ranges that it touches. -/
def insertRange (first last : Nat) : Text.CodeTable → Text.CodeTable
  | [] => [(first, last)]
  | (low, high) :: rest =>
    if last + 1 < low then (first, last) :: (low, high) :: rest
    else if high + 1 < first then (low, high) :: insertRange first last rest
    else insertRange (min first low) (max last high) rest

/-- The set without characters. -/
def empty : CharSet :=
  ⟨[]⟩

/-- The set of the characters from `first` to `last`. -/
def range (first last : Char) : CharSet :=
  ⟨[(first.toNat, last.toNat)]⟩

/-- The set of one character. -/
def single (c : Char) : CharSet :=
  range c c

/-- Tells whether a set has exactly one character. -/
def isSingle (s : CharSet) : Bool :=
  match s.table with
  | [(first, last)] => first == last
  | _ => false

/-- The characters of either set. -/
def union (a b : CharSet) : CharSet :=
  ⟨a.table.foldr (fun (first, last) table => insertRange first last table) b.table⟩

/-- The characters of any set of a list. -/
def unionAll (sets : List CharSet) : CharSet :=
  sets.foldl union empty

/-! ## Complements -/

/-- The greatest code point. -/
def lastCode : Nat :=
  0x10ffff

/-- The code point of the character before another one; surrogates are no characters. -/
def codeBefore (code : Nat) : Nat :=
  if code = 0xe000 then 0xd7ff else code - 1

/-- The code point of the character after another one. -/
def codeAfter (code : Nat) : Nat :=
  if code = 0xd7ff then 0xe000 else code + 1

/-- The gaps of a table, from a code point on. -/
def gapsFrom (start : Nat) : Text.CodeTable → Text.CodeTable
  | [] => if start ≤ lastCode then [(start, lastCode)] else []
  | (low, high) :: rest =>
    let gaps := gapsFrom (codeAfter high) rest
    if start < low then (start, codeBefore low) :: gaps else gaps

/-- The characters that are not in a set. -/
def complement (s : CharSet) : CharSet :=
  ⟨gapsFrom 0 s.table⟩

/-- The characters of both sets. -/
def inter (a b : CharSet) : CharSet :=
  (a.complement.union b.complement).complement

/-- The characters of the first set that are not in the second. -/
def diff (a b : CharSet) : CharSet :=
  a.inter b.complement

/-- The characters of exactly one of two sets. -/
def symmDiff (a b : CharSet) : CharSet :=
  (a.diff b).union (b.diff a)

/-- The set of all characters. -/
def all : CharSet :=
  empty.complement

/-- The set of all characters but the end of a line. -/
def allInLine : CharSet :=
  (single '\n').complement

end CharSet

end Edn
