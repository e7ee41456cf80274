/-!
# Spans

A span is a stretch of a text: the byte offsets of its start and its end, and
the line and the column of its start, both counted from one.
-/

namespace Edn

/-- A stretch of a text. -/
structure Span where
  start : Nat
  stop : Nat
  line : Nat
  column : Nat
deriving DecidableEq, Repr

namespace Span

/-- Splits a text at a byte offset.  The part before it comes reversed, after `before`.  An offset
inside a character counts as the start of that character. -/
def splitAtByte (offset : Nat) (before : List Char) : List Char → List Char × List Char
  | [] => (before, [])
  | c :: rest =>
    if c.utf8Size ≤ offset then splitAtByte (offset - c.utf8Size) (c :: before) rest
    else (before, c :: rest)

/-- The empty span at a place. -/
def point (offset line column : Nat) : Span :=
  ⟨offset, offset, line, column⟩

/-- The span from the start of one span to the end of another. -/
def through (span other : Span) : Span :=
  { span with stop := other.stop }

/-- The length of a span in bytes. -/
def length (span : Span) : Nat :=
  span.stop - span.start

/-- Tells whether a span covers nothing. -/
def isEmpty (span : Span) : Bool :=
  span.start == span.stop

/-- The text that a span covers. -/
def text (span : Span) (source : List Char) : List Char :=
  (splitAtByte span.length [] (splitAtByte span.start [] source).2).1.reverse

/-- Tells whether a character does not end a line. -/
def inLine (c : Char) : Bool :=
  c != '\n'

/-- The line of a text on which a span starts, without its end. -/
def sourceLine (span : Span) (source : List Char) : List Char :=
  let (before, after) := splitAtByte span.start [] source
  (before.takeWhile inLine).reverse ++ after.takeWhile inLine

end Span

end Edn
