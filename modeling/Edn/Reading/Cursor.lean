import Edn.Reading.Span
import Edn.Text.CharClass

/-!
# Cursors

A cursor is a place in a text that is being read: the rest of the text, and
how much of it lies before.  It moves only by `Cursor.advance`, over a number
of characters.  The lemmas at the end say how the rest shrinks.
-/

namespace Edn

/-- A place in a text: the rest of the text, the number of bytes before it, and its line and column,
both counted from one. -/
structure Cursor where
  rest : List Char
  position : Nat
  line : Nat
  column : Nat
deriving DecidableEq, Repr

namespace Cursor

/-- The start of a text. -/
def start (text : List Char) : Cursor :=
  ⟨text, 0, 1, 1⟩

/-- The place after the next character. -/
def next (k : Cursor) : Cursor :=
  match k.rest with
  | [] => k
  | c :: rest =>
    if c = '\n' then ⟨rest, k.position + c.utf8Size, k.line + 1, 1⟩
    else ⟨rest, k.position + c.utf8Size, k.line, k.column + 1⟩

/-- The place after a number of characters. -/
def advance (k : Cursor) : Nat → Cursor
  | 0 => k
  | n + 1 => k.next.advance n

/-- The place after all characters at the cursor that satisfy `p`. -/
def skipWhile (p : Char → Bool) (k : Cursor) : Cursor :=
  k.advance (k.rest.takeWhile p).length

/-- The empty span at a cursor. -/
def mark (k : Cursor) : Span :=
  .point k.position k.line k.column

/-- The span from an earlier one to a cursor. -/
def spanFrom (k : Cursor) (start : Span) : Span :=
  start.through k.mark

/-! ## Separators -/

/-- Tells whether a character separates values: white space and commas do. -/
def isBlank (c : Char) : Bool :=
  Text.isWhiteSpace c || c == ','

/-- The number of blanks and comments at the start of a text, in characters.  A comment runs from a
semicolon to the end of its line. -/
def triviaLength (inComment : Bool) (taken : Nat) : List Char → Nat
  | [] => taken
  | c :: rest =>
    if inComment then triviaLength (Span.inLine c) (taken + 1) rest
    else if isBlank c then triviaLength false (taken + 1) rest
    else if c = ';' then triviaLength true (taken + 1) rest
    else taken

/-- The place after blanks. -/
def skipBlanks (k : Cursor) : Cursor :=
  k.skipWhile isBlank

/-- The place after blanks and comments. -/
def skipTrivia (k : Cursor) : Cursor :=
  k.advance (triviaLength false 0 k.rest)

/-! ## The rest -/

/-- The next place has one character less before the end. -/
@[simp] theorem rest_next (k : Cursor) : k.next.rest = k.rest.tail := by
  unfold next
  split <;> grind

/-- Advancing drops characters from the rest. -/
@[simp] theorem rest_advance (k : Cursor) (n : Nat) : (k.advance n).rest = k.rest.drop n := by
  induction n generalizing k with
  | zero => rfl
  | succ n ih => simp [advance, ih]

/-- The rest never grows. -/
theorem length_rest_advance_le (k : Cursor) (n : Nat) :
    (k.advance n).rest.length ≤ k.rest.length := by
  simp

/-- The rest shrinks when the cursor moves, unless the text is at its end. -/
theorem length_rest_advance_lt {k : Cursor} {n : Nat} (hn : 0 < n) (hk : k.rest ≠ []) :
    (k.advance n).rest.length < k.rest.length := by
  have := List.length_pos_iff.2 hk
  simp only [rest_advance, List.length_drop]
  omega

end Cursor

end Edn
