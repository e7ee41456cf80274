import Edn.Grammar
import Edn.Reading.Cursor
import Edn.Reading.Limits

/-!
# Scanning values

A value is an optional tag, then a literal or a collection.  Collections may
nest to any depth, so the open ones are kept in a list of frames, the
innermost first.  `turn` takes one step at a cursor: it closes the innermost
collection, opens a new one, or reads a literal.  `scanFrom` takes steps until
the outermost value is complete or the text cannot be read.

Every step that goes on shortens the rest of the text (`turn_shortens`), so
scanning ends.

Errors are kept with the span at which they arose, and get the line of the
text only when they leave the reader (`Misread.located`).
-/

namespace Edn

/-- An error and the span at which a text cannot be read. -/
structure Misread where
  span : Span
  error : Error

namespace Misread

/-- A fault of the text itself. -/
def fault (span : Span) (details : String) : Misread :=
  ⟨span, .unplaced details⟩

/-- The error with its place in a text. -/
def located (m : Misread) (source : List Char) : Error :=
  m.error.located m.span.line m.span.column (String.ofList (m.span.sourceLine source))

end Misread

/-- The result of reading, and the cursor where reading stopped. -/
structure Outcome (α : Type) where
  result : Except Misread α
  next : Cursor

namespace Outcome

/-- Reading succeeded. -/
def ok {α : Type} (value : α) (next : Cursor) : Outcome α :=
  ⟨.ok value, next⟩

/-- Reading failed. -/
def error {α : Type} (m : Misread) (next : Cursor) : Outcome α :=
  ⟨.error m, next⟩

end Outcome

/-! ## Tags -/

/-- Tells whether a character may stand in a tag after its first letter. -/
def isTagChar (c : Char) : Bool :=
  Text.isLetter c || Text.isDigit c || c == '-' || c == '_' || c == '/' || c == '.'

/-- The length of the tag at the start of a text with its number sign, if there is one. -/
def tagLength? : List Char → Option Nat
  | '#' :: c :: rest =>
    if Text.isLetter c then some ((rest.takeWhile isTagChar).length + 2) else none
  | _ => none

/-- What follows a tag is no value: the text ends, or a comment or a closing delimiter follows. -/
def endsValue (g : Grammar) (rest : List Char) : Bool :=
  rest.isEmpty || rest.head? == some ';' || (g.closing? rest).isSome

/-- The place after a tag and the white space behind it. -/
def afterTag (k : Cursor) (length : Nat) : Cursor :=
  (k.advance length).skipWhile Text.isWhiteSpace

/-- What is wrong with a tag, given the place where it starts, its length, and its text without the
number sign. -/
def tagFault? (g : Grammar) (k : Cursor) (length : Nat) (tag : String) : Option Misread :=
  let value := afterTag k length
  if endsValue g value.rest then
    some (.fault k.mark ("tag '#" ++ tag ++ "' is not followed by a value"))
  else if (tagLength? value.rest).isSome then
    some (.fault value.mark ("tag '#" ++ tag ++ "' is followed by another tag"))
  else if value.position = (k.advance length).position ∧ (g.opening? value.rest).isNone then
    some (.fault k.mark ("tag '#" ++ tag ++ "' must be followed by whitespace"))
  else none

/-- Reads an optional tag and the white space after it; no tag counts as the empty one.  A value has
to follow.  Only an opening delimiter may follow without white space. -/
def readTag (g : Grammar) (k : Cursor) : Outcome String :=
  match tagLength? k.rest with
  | none => .ok "" k
  | some length =>
    let tag := String.ofList ((k.rest.take length).drop 1)
    match tagFault? g k length tag with
    | some m => .error m (afterTag k length)
    | none => .ok tag (afterTag k length)

/-! ## Turns -/

/-- A collection whose closing delimiter has not been read: its rule, its tag, the place where it
starts, and its children so far, the last one first. -/
structure Frame where
  rule : DelimiterRule
  tag : String
  start : Span
  children : List Element

/-- The frame with one more child. -/
def Frame.push (f : Frame) (child : Element) : Frame :=
  { f with children := child :: f.children }

/-- What a step leads to: the end of scanning, or more frames and a new place. -/
inductive Turn where
  | finished (outcome : Outcome Element)
  | going (frames : List Frame) (next : Cursor)

/-- Hands a complete value to the innermost open collection.  Without one, scanning ends. -/
def settle (frames : List Frame) (value : Element) (next : Cursor) : Turn :=
  match frames with
  | [] => .finished (.ok value next)
  | frame :: outer => .going (frame.push value :: outer) next

/-- The fault of a text that no rule takes. -/
def unexpected (rest : List Char) : String :=
  match rest with
  | [] => "unexpected end of input"
  | '"' :: _ => "unterminated string literal"
  | c :: _ => "unexpected character: " ++ String.singleton c

/-- Reads a literal after its tag. -/
def literalTurn (g : Grammar) (frames : List Frame) (tag : String) (k : Cursor) : Turn :=
  match g.longestMatch? k.rest with
  | none => .finished (.error (.fault k.mark (unexpected k.rest)) k)
  | some (rule, length) =>
    match rule.process tag (String.ofList (k.rest.take length)) with
    | .error error => .finished (.error ⟨k.mark, error⟩ (k.advance length))
    | .ok value => settle frames value (k.advance length)

/-- Opens a collection after its tag, unless too many are open. -/
def openTurn (maxDepth : Nat) (frames : List Frame) (rule : DelimiterRule) (tag : String)
    (start : Span) (next : Cursor) : Turn :=
  if maxDepth ≤ frames.length then
    .finished (.error ⟨start, .limitExceeded (.depth maxDepth)⟩ next)
  else .going (⟨rule, tag, start, []⟩ :: frames) next

/-- Reads a tag, and then a literal or an opening delimiter. -/
def valueTurn (g : Grammar) (maxDepth : Nat) (frames : List Frame) (k : Cursor) : Turn :=
  match readTag g k with
  | ⟨.error m, next⟩ => .finished (.error m next)
  | ⟨.ok tag, next⟩ =>
    match g.opening? next.rest with
    | some rule => openTurn maxDepth frames rule tag k.mark (next.advance rule.opener.length)
    | none => literalTurn g frames tag next

/-- Closes a collection and hands it to the one around it. -/
def closeTurn (frame : Frame) (outer : List Frame) (next : Cursor) : Turn :=
  match frame.rule.process frame.tag frame.children.reverse with
  | .error error => .finished (.error ⟨frame.start, error⟩ next)
  | .ok value => settle outer value next

/-- A delimiter as error messages quote it. -/
def quoted (delimiter : List Char) : String :=
  "'" ++ String.ofList delimiter ++ "'"

/-- One step of scanning. -/
def turn (g : Grammar) (maxDepth : Nat) (frames : List Frame) (k : Cursor) : Turn :=
  match frames with
  | [] => valueTurn g maxDepth [] k
  | frame :: outer =>
    let k := k.skipTrivia
    if k.rest.isEmpty then
      .finished (.error
        (.fault frame.start ("unterminated collection, expected " ++ quoted frame.rule.closer)) k)
    else
      match g.closing? k.rest with
      | some rule =>
        if rule.closer = frame.rule.closer then
          closeTurn frame outer (k.advance rule.closer.length)
        else
          .finished (.error (.fault k.mark ("unexpected end token: " ++ quoted rule.closer ++
            " instead of " ++ quoted frame.rule.closer)) k)
      | none => valueTurn g maxDepth (frame :: outer) k

/-! ## Progress -/

/-- The rest does not grow over a tag. -/
theorem next_readTag_le (g : Grammar) (k : Cursor) :
    (readTag g k).next.rest.length ≤ k.rest.length := by
  unfold readTag
  split
  · exact Nat.le_refl _
  · next length _ =>
    have h : (afterTag k length).rest.length ≤ k.rest.length :=
      Nat.le_trans (Cursor.length_rest_advance_le _ _) (Cursor.length_rest_advance_le _ _)
    dsimp only
    split <;> exact h

/-- Handing a value on does not move the cursor. -/
theorem settle_next {frames rest : List Frame} {value : Element} {next k : Cursor}
    (h : settle frames value next = .going rest k) : k = next := by
  unfold settle at h
  split at h <;> simp_all

/-- An opening delimiter starts no empty text. -/
theorem opening_rest_ne_nil {g : Grammar} {input : List Char} {rule : DelimiterRule}
    (h : g.opening? input = some rule) : input ≠ [] := by
  intro hnil
  have hrule := List.find?_some h
  subst hnil
  have := rule.opener_ne_nil
  cases ho : rule.opener <;> simp_all

/-- A closing delimiter starts no empty text. -/
theorem closing_rest_ne_nil {g : Grammar} {input : List Char} {rule : DelimiterRule}
    (h : g.closing? input = some rule) : input ≠ [] := by
  intro hnil
  have hrule := List.find?_some h
  subst hnil
  have := rule.closer_ne_nil
  cases ho : rule.closer <;> simp_all

/-- A literal that does not end scanning shortens the rest of the text. -/
theorem literalTurn_shortens {g : Grammar} {frames rest : List Frame} {tag : String}
    {k next : Cursor} (h : literalTurn g frames tag k = .going rest next) :
    next.rest.length < k.rest.length := by
  unfold literalTurn at h
  split at h
  · cases h
  · next rule length hmatch =>
    split at h
    · cases h
    · rw [settle_next h]
      refine Cursor.length_rest_advance_lt (Grammar.longestMatch?_pos hmatch) fun hnil => ?_
      rw [hnil, Grammar.longestMatch?_nil] at hmatch
      cases hmatch

/-- A value or an opening delimiter that does not end scanning shortens the rest of the text. -/
theorem valueTurn_shortens {g : Grammar} {maxDepth : Nat} {frames rest : List Frame}
    {k next : Cursor} (h : valueTurn g maxDepth frames k = .going rest next) :
    next.rest.length < k.rest.length := by
  have hle := next_readTag_le g k
  unfold valueTurn at h
  split at h
  · cases h
  · next tag after heq =>
    rw [heq] at hle
    split at h
    · next rule hopen =>
      unfold openTurn at h
      split at h
      · cases h
      · cases h
        exact Nat.lt_of_lt_of_le (Cursor.length_rest_advance_lt
          (List.length_pos_iff.2 rule.opener_ne_nil) (opening_rest_ne_nil hopen)) hle
    · exact Nat.lt_of_lt_of_le (literalTurn_shortens h) hle

/-- A step that goes on shortens the rest of the text. -/
theorem turn_shortens {g : Grammar} {maxDepth : Nat} {frames rest : List Frame} {k next : Cursor}
    (h : turn g maxDepth frames k = .going rest next) : next.rest.length < k.rest.length := by
  unfold turn at h
  split at h
  · exact valueTurn_shortens h
  · next frame outer =>
    have hle : k.skipTrivia.rest.length ≤ k.rest.length := Cursor.length_rest_advance_le _ _
    dsimp only at h
    split at h
    · cases h
    · split at h
      · next rule hclose =>
        split at h
        · unfold closeTurn at h
          split at h
          · cases h
          · rw [settle_next h]
            exact Nat.lt_of_lt_of_le (Cursor.length_rest_advance_lt
              (List.length_pos_iff.2 rule.closer_ne_nil) (closing_rest_ne_nil hclose)) hle
        · cases h
      · exact Nat.lt_of_lt_of_le (valueTurn_shortens h) hle

/-! ## Scanning -/

/-- Takes steps until the outermost value is complete or the text cannot be read. -/
def scanFrom (g : Grammar) (maxDepth : Nat) (frames : List Frame) (k : Cursor) : Outcome Element :=
  match _h : turn g maxDepth frames k with
  | .finished outcome => outcome
  | .going frames next => scanFrom g maxDepth frames next
termination_by k.rest.length
decreasing_by exact turn_shortens _h

/-- Reads one value. -/
def scanValue (g : Grammar) (maxDepth : Nat) (k : Cursor) : Outcome Element :=
  scanFrom g maxDepth [] k

end Edn
