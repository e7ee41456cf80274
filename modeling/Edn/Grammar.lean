import Edn.Element
import Edn.Pattern.Engine

/-!
# Grammars

A grammar says which texts are values.

* A literal rule has a pattern.  Of all rules the one with the longest match
  reads a literal; of equally long matches the rule that stands first wins.
  Rules stand in the order of their priorities, and within a priority in the
  order in which they were added.
* A delimiter rule has an opening and a closing delimiter, neither of which
  is empty.  Rules with longer opening delimiters stand first, and the first
  rule whose delimiter starts a text wins.

Adding a rule that is there already changes nothing.  The patterns of rules
are read by an engine, which may be any.
-/

namespace Edn

/-- The classes of literal rules, from the strongest to the weakest. -/
inductive Priority where
  | literal
  | integer
  | float
  | character
  | symbol
  | string
deriving DecidableEq, Repr

namespace Priority

/-- The place of a priority among all; a smaller number is stronger. -/
def rank : Priority → Nat
  | literal => 0
  | integer => 1
  | float => 2
  | character => 3
  | symbol => 4
  | string => 5

end Priority

/-- Reads a literal by a pattern.  `process` gets the tag in front of the literal, empty if there is
none, and the text of the literal. -/
structure LiteralRule where
  priority : Priority
  written : String
  matcher : Matcher
  process : (tag token : String) → Except Error Element

/-- Reads a collection between two delimiters.  `process` gets the tag in front of the collection,
empty if there is none, and the children. -/
structure DelimiterRule where
  opener : List Char
  closer : List Char
  opener_ne_nil : opener ≠ []
  closer_ne_nil : closer ≠ []
  process : (tag : String) → (children : List Element) → Except Error Element

/-- The rules of a reader, in the order in which they are tried. -/
structure Grammar where
  literals : List LiteralRule
  delimiters : List DelimiterRule

namespace Grammar

/-- The grammar without rules. -/
def empty : Grammar :=
  ⟨[], []⟩

/-! ## Adding rules -/

/-- The pattern of a rule in a group of its own, at the start of the text. -/
def atStart (written : String) : String :=
  "^(?:" ++ written ++ ")"

/-- Reads the pattern of a rule. -/
def readPattern (engine : Engine) (written : String) : Except Error Matcher :=
  match engine.read (atStart written) with
  | .ok matcher => .ok matcher
  | .error reason => .error (.invalidPattern (written ++ ": " ++ reason))

/-- Puts a rule in front of the first one of a weaker priority. -/
def insertLiteral (new : LiteralRule) : List LiteralRule → List LiteralRule
  | [] => [new]
  | rule :: rest =>
    if new.priority.rank < rule.priority.rank then new :: rule :: rest
    else rule :: insertLiteral new rest

/-- Adds a literal rule.  A rule with the same priority and pattern is kept instead. -/
def addPattern (g : Grammar) (engine : Engine) (priority : Priority) (written : String)
    (process : (tag token : String) → Except Error Element) : Except Error Grammar :=
  if g.literals.any fun rule => rule.priority == priority && rule.written == written then .ok g
  else
    (readPattern engine written).map fun matcher =>
      { g with literals := insertLiteral ⟨priority, written, matcher, process⟩ g.literals }

/-- The length of a text in bytes. -/
def byteLength (text : List Char) : Nat :=
  text.foldl (fun length c => length + c.utf8Size) 0

/-- Puts a rule in front of the first one with a shorter opening delimiter. -/
def insertDelimiter (new : DelimiterRule) : List DelimiterRule → List DelimiterRule
  | [] => [new]
  | rule :: rest =>
    if byteLength rule.opener < byteLength new.opener then new :: rule :: rest
    else rule :: insertDelimiter new rest

/-- Adds a delimiter rule.  A rule with the same opening delimiter is kept instead. -/
def addDelimiters (g : Grammar) (opener closer : String)
    (process : (tag : String) → (children : List Element) → Except Error Element) :
    Except Error Grammar :=
  if h : opener.toList ≠ [] ∧ closer.toList ≠ [] then
    if g.delimiters.any fun rule => rule.opener == opener.toList then .ok g
    else
      let rule := ⟨opener.toList, closer.toList, h.1, h.2, process⟩
      .ok { g with delimiters := insertDelimiter rule g.delimiters }
  else
    .error (.invalidPattern
      ("collection delimiters must be non-empty: '" ++ opener ++ "' '" ++ closer ++ "'"))

/-! ## Trying rules -/

/-- Takes a rule in place of the best one so far if its match is longer and not empty.  What a match
takes is what lies in front of its end. -/
def longer (input : List Char) (best : Option (LiteralRule × Nat)) (rule : LiteralRule) :
    Option (LiteralRule × Nat) :=
  match rule.matcher.matchEnd? input with
  | none => best
  | some length =>
    match best with
    | none => if 0 < length then some (rule, length) else none
    | some (_, bestLength) => if bestLength < length then some (rule, length) else best

/-- The rule with the longest match at the start of a text, and the number of characters that it
takes. -/
def longestMatch? (g : Grammar) (input : List Char) : Option (LiteralRule × Nat) :=
  g.literals.foldl (longer input) none

/-- The rule whose opening delimiter starts a text. -/
def opening? (g : Grammar) (input : List Char) : Option DelimiterRule :=
  g.delimiters.find? fun rule => rule.opener.isPrefixOf input

/-- The rule whose closing delimiter starts a text. -/
def closing? (g : Grammar) (input : List Char) : Option DelimiterRule :=
  g.delimiters.find? fun rule => rule.closer.isPrefixOf input

/-! ## What the rules take -/

/-- The better of two rules takes at least one character. -/
theorem longer_pos {input : List Char} {best : Option (LiteralRule × Nat)} {rule : LiteralRule}
    (h : ∀ found ∈ best, 0 < found.2) : ∀ found ∈ longer input best rule, 0 < found.2 := by
  intro found hfound
  unfold longer at hfound
  grind

/-- A match that is found takes at least one character. -/
theorem longestMatch?_pos {g : Grammar} {input : List Char} {rule : LiteralRule} {length : Nat}
    (h : g.longestMatch? input = some (rule, length)) : 0 < length := by
  have all : ∀ (rules : List LiteralRule) (best : Option (LiteralRule × Nat)),
      (∀ found ∈ best, 0 < found.2) →
      ∀ found ∈ rules.foldl (longer input) best, 0 < found.2 := by
    intro rules
    induction rules with
    | nil => intro best hbest; simpa using hbest
    | cons first rest ih => intro best hbest; exact ih _ (longer_pos hbest)
  exact all g.literals none (by simp) (rule, length) h

/-- Nothing is found at the end of a text. -/
theorem longestMatch?_nil (g : Grammar) : g.longestMatch? [] = none := by
  have all : ∀ rules : List LiteralRule, rules.foldl (longer []) none = none := by
    intro rules
    induction rules with
    | nil => rfl
    | cons first rest ih =>
      have step : longer [] none first = none := by
        unfold longer
        cases h : first.matcher.matchEnd? [] with
        | none => rfl
        | some length => simp [first.matcher.eq_zero_of_matchEnd?_nil length h]
      rw [List.foldl_cons, step, ih]
  exact all g.literals

end Grammar

end Edn
