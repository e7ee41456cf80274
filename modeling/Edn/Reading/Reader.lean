import Edn.Grammar.Standard
import Edn.Reading.Lexer

/-!
# Reading a text

A reader has a grammar and limits.  It reads a text that holds exactly one
value, next to comments.  A text that is too long is refused before it is
read.

The program has one reader of the notation, `Reader.standard`, which it makes
when it is first asked for.  What it logs while it reads is left out.
-/

namespace Edn

/-- A grammar and the limits under which texts are read. -/
structure Reader where
  grammar : Grammar
  limits : Limits

namespace Reader

/-- The reader of the notation. -/
def standard : Reader :=
  ⟨.standard, .standard⟩

/-- Reads the values of a text from a cursor on, after those that have been read, the last one
first.  The result has the place where the text ends.  A closing delimiter is refused. -/
def valuesFrom (r : Reader) (read : List (Element × Span)) (k : Cursor) :
    Except Misread (List (Element × Span) × Span) :=
  match _h : nextToken r.grammar r.limits k with
  | ⟨.error m, _⟩ => .error m
  | ⟨.ok token, next⟩ =>
    match _hkind : token.kind with
    | .endOfInput => .ok (read.reverse, token.span)
    | .close closer => .error (.fault token.span ("unexpected end token: " ++ quoted closer))
    | .comment _ => valuesFrom r read next
    | .value value => valuesFrom r ((value, token.span) :: read) next
termination_by k.rest.length
decreasing_by
  all_goals exact nextToken_shortens _h (by rw [_hkind]; rfl)

/-- Picks the only value of a text.  Otherwise the second value is at fault, or the end of a text
without values. -/
def onlyValue (values : List (Element × Span)) (stop : Span) : Except Misread (Element × Span) :=
  let count := values.length
  let details := s!"expected one result, got: {count}"
  match values with
  | [only] => .ok only
  | _ :: (_, second) :: _ => .error (.fault second details)
  | [] => .error (.fault stop details)

/-- Reads the only value of a text and its place. -/
def readOne (r : Reader) (source : String) : Except Misread (Element × Span) := do
  let (values, stop) ← r.valuesFrom [] (.start source.toList)
  onlyValue values stop

/-- The error of a text that is too long. -/
def lengthError? (r : Reader) (source : String) : Option Error :=
  match r.limits.maxLength with
  | some limit =>
    if limit < source.utf8ByteSize then some (.limitExceeded (.length limit source.utf8ByteSize))
    else none
  | none => none

/-- Reads the only value of a text within the limits. -/
def readWithin (r : Reader) (source : String) : Except Error (Element × Span) :=
  match r.lengthError? source with
  | some error => .error error
  | none => (r.readOne source).mapError (·.located source.toList)

/-- Reads a text that holds exactly one value. -/
def parse (r : Reader) (source : String) : Except Error Element :=
  (r.readWithin source).map Prod.fst

/-- Reads a text that holds exactly one collection. -/
def parseCollection (r : Reader) (source : String) : Except Error Element := do
  let (value, span) ← r.readWithin source
  if value.isCollection then .ok value
  else
    .error ((Misread.fault span ("expected a collection, got " ++ value.type.name)).located
      source.toList)

end Reader

/-- Reads a text of the notation. -/
def parse (source : String) : Except Error Element :=
  Reader.standard.parse source

end Edn
