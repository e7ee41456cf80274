import Edn.Proofs.Reading.Tiling

/-!
# Reading further down

What is read does not depend on where a text stands.  A cursor that is moved
by some bytes and lines, with the same text ahead, reads the same values, the
same tokens and the same errors, moved by as much.

* `Displacement` is a number of bytes and of lines, and `moveBy` moves a
  cursor, a span, a token or an outcome by it.
* `turn_moveBy` is the step of the scanner: it commutes with moving.
  `scanFrom_moveBy` carries this through a run, for every grammar.
* `tokensFrom_moveBy` is the result for all tokens of a text.
-/

namespace Edn

/-- A number of bytes and of lines. -/
structure Displacement where
  bytes : Nat
  lines : Nat

variable (d : Displacement)

/-! ## Moving -/

/-- The cursor further down, with the same text ahead. -/
def Cursor.moveBy (k : Cursor) : Cursor :=
  { k with position := k.position + d.bytes, line := k.line + d.lines }

/-- The span further down. -/
def Span.moveBy (span : Span) : Span :=
  ⟨span.start + d.bytes, span.stop + d.bytes, span.line + d.lines, span.column⟩

/-- The token further down. -/
def Token.moveBy (token : Token) : Token :=
  { token with span := token.span.moveBy d }

/-- The error further down. -/
def Misread.moveBy (m : Misread) : Misread :=
  { m with span := m.span.moveBy d }

/-- The frame of a collection that starts further down. -/
def Frame.moveBy (f : Frame) : Frame :=
  { f with start := f.start.moveBy d }

/-- The outcome further down.  What is read moves by `move`. -/
def Outcome.moveBy {α : Type} (move : α → α) (o : Outcome α) : Outcome α :=
  ⟨(o.result.map move).mapError (Misread.moveBy d), o.next.moveBy d⟩

/-- The step further down. -/
def Turn.moveBy : Turn → Turn
  | .finished outcome => .finished (outcome.moveBy d id)
  | .going frames next => .going (frames.map (Frame.moveBy d)) (next.moveBy d)

/-! ## Cursors -/

namespace Cursor

variable (k : Cursor)

@[simp] theorem rest_moveBy : (k.moveBy d).rest = k.rest :=
  rfl

@[simp] theorem mark_moveBy : (k.moveBy d).mark = k.mark.moveBy d :=
  rfl

theorem next_moveBy : (k.moveBy d).next = k.next.moveBy d := by
  unfold next
  rw [rest_moveBy]
  split
  · rfl
  · split
    · simp only [moveBy, Nat.add_right_comm]
    · simp only [moveBy, Nat.add_right_comm]

@[simp] theorem advance_moveBy (n : Nat) : (k.moveBy d).advance n = (k.advance n).moveBy d := by
  induction n generalizing k with
  | zero => rfl
  | succ n ih => rw [advance, advance, next_moveBy, ih]

@[simp] theorem skipWhile_moveBy (p : Char → Bool) :
    (k.moveBy d).skipWhile p = (k.skipWhile p).moveBy d := by
  simp [skipWhile]

@[simp] theorem skipTrivia_moveBy : (k.moveBy d).skipTrivia = k.skipTrivia.moveBy d := by
  simp [skipTrivia]

end Cursor

/-! ## Values -/

section Scanner

variable (g : Grammar) (maxDepth : Nat) (k : Cursor)

@[simp] theorem afterTag_moveBy (length : Nat) :
    afterTag (k.moveBy d) length = (afterTag k length).moveBy d := by
  simp [afterTag]

/-- A fault of a tag moves with the tag. -/
theorem tagFault?_moveBy (length : Nat) (tag : String) :
    tagFault? g (k.moveBy d) length tag = (tagFault? g k length tag).map (Misread.moveBy d) := by
  have hposition : ∀ value : Cursor,
      (value.moveBy d).position = ((k.advance length).moveBy d).position ↔
        value.position = (k.advance length).position := fun value => Nat.add_right_cancel_iff
  unfold tagFault?
  simp only [afterTag_moveBy, Cursor.advance_moveBy, Cursor.rest_moveBy, Cursor.mark_moveBy,
    hposition]
  split
  · rfl
  · split
    · rfl
    · split <;> rfl

theorem readTag_moveBy : readTag g (k.moveBy d) = (readTag g k).moveBy d id := by
  unfold readTag
  simp only [Cursor.rest_moveBy, tagFault?_moveBy, afterTag_moveBy]
  split
  · rfl
  · next length _ =>
    cases tagFault? g k length (String.ofList ((k.rest.take length).drop 1)) <;> rfl

theorem settle_moveBy (frames : List Frame) (value : Element) (next : Cursor) :
    settle (frames.map (Frame.moveBy d)) value (next.moveBy d) =
      (settle frames value next).moveBy d := by
  cases frames <;> rfl

theorem literalTurn_moveBy (frames : List Frame) (tag : String) :
    literalTurn g (frames.map (Frame.moveBy d)) tag (k.moveBy d) =
      (literalTurn g frames tag k).moveBy d := by
  unfold literalTurn
  rw [Cursor.rest_moveBy]
  cases g.longestMatch? k.rest with
  | none => rfl
  | some found =>
    dsimp only
    rw [Cursor.advance_moveBy]
    cases found.1.process tag (String.ofList (k.rest.take found.2)) with
    | error error => rfl
    | ok value => exact settle_moveBy d frames value _

theorem openTurn_moveBy (frames : List Frame) (rule : DelimiterRule) (tag : String) (start : Span)
    (next : Cursor) :
    openTurn maxDepth (frames.map (Frame.moveBy d)) rule tag (start.moveBy d) (next.moveBy d) =
      (openTurn maxDepth frames rule tag start next).moveBy d := by
  unfold openTurn
  rw [List.length_map]
  split <;> rfl

theorem valueTurn_moveBy (frames : List Frame) :
    valueTurn g maxDepth (frames.map (Frame.moveBy d)) (k.moveBy d) =
      (valueTurn g maxDepth frames k).moveBy d := by
  unfold valueTurn
  rw [readTag_moveBy]
  obtain ⟨m | tag, next⟩ := readTag g k
  · rfl
  · dsimp only [Outcome.moveBy, Except.map, Except.mapError, id]
    rw [Cursor.rest_moveBy, Cursor.mark_moveBy]
    cases g.opening? next.rest with
    | none => exact literalTurn_moveBy d g next frames tag
    | some rule =>
      dsimp only
      rw [Cursor.advance_moveBy]
      exact openTurn_moveBy d maxDepth frames rule tag k.mark _

theorem closeTurn_moveBy (frame : Frame) (outer : List Frame) (next : Cursor) :
    closeTurn (frame.moveBy d) (outer.map (Frame.moveBy d)) (next.moveBy d) =
      (closeTurn frame outer next).moveBy d := by
  unfold closeTurn
  dsimp only [Frame.moveBy]
  cases frame.rule.process frame.tag frame.children.reverse with
  | error error => rfl
  | ok value => exact settle_moveBy d outer value next

/-- A step of the scanner commutes with moving. -/
theorem turn_moveBy (frames : List Frame) :
    turn g maxDepth (frames.map (Frame.moveBy d)) (k.moveBy d) =
      (turn g maxDepth frames k).moveBy d := by
  cases frames with
  | nil => exact valueTurn_moveBy d g maxDepth k []
  | cons frame outer =>
    have hvalue := valueTurn_moveBy d g maxDepth k.skipTrivia (frame :: outer)
    simp only [List.map_cons] at hvalue ⊢
    unfold turn
    simp only [Cursor.skipTrivia_moveBy, Cursor.rest_moveBy, Cursor.mark_moveBy,
      Cursor.advance_moveBy]
    split
    · rfl
    · cases g.closing? k.skipTrivia.rest with
      | none => exact hvalue
      | some rule =>
        have hframe : (frame.moveBy d).rule = frame.rule := rfl
        by_cases hcloser : rule.closer = frame.rule.closer
        · simp only [hframe, if_pos hcloser]
          exact closeTurn_moveBy d frame outer _
        · simp only [hframe, if_neg hcloser]
          rfl

/-- So does a run. -/
theorem scanFrom_moveBy (frames : List Frame) :
    scanFrom g maxDepth (frames.map (Frame.moveBy d)) (k.moveBy d) =
      (scanFrom g maxDepth frames k).moveBy d id := by
  fun_induction scanFrom g maxDepth frames k with
  | case1 frames k outcome hturn =>
    have hstep := turn_moveBy d g maxDepth k frames
    rw [hturn] at hstep
    rw [scanFrom_eq_finish, hstep]
    rfl
  | case2 frames k inner next hturn ih =>
    have hstep := turn_moveBy d g maxDepth k frames
    rw [hturn] at hstep
    rw [scanFrom_eq_finish, hstep]
    exact ih

end Scanner

/-! ## Tokens -/

section Tokens

variable (g : Grammar) (limits : Limits) (k : Cursor)

theorem valueToken_moveBy :
    valueToken g limits (k.moveBy d) = (valueToken g limits k).moveBy d (Token.moveBy d) := by
  have hscan := scanFrom_moveBy d g limits.maxDepth k []
  unfold valueToken scanValue
  rw [List.map_nil] at hscan
  rw [hscan]
  obtain ⟨m | value, next⟩ := scanFrom g limits.maxDepth [] k <;> rfl

theorem tokenAt_moveBy :
    tokenAt g limits (k.moveBy d) = (tokenAt g limits k).moveBy d (Token.moveBy d) := by
  have hvalue := valueToken_moveBy d g limits k
  unfold tokenAt
  rw [Cursor.rest_moveBy, Cursor.skipWhile_moveBy]
  split
  · rfl
  · rfl
  · cases g.closing? k.rest with
    | none => exact hvalue
    | some rule =>
      dsimp only
      rw [Cursor.advance_moveBy]
      rfl

/-- A token that is read further down is the token further down. -/
theorem nextToken_moveBy :
    nextToken g limits (k.moveBy d) = (nextToken g limits k).moveBy d (Token.moveBy d) := by
  unfold nextToken Cursor.skipBlanks
  rw [Cursor.skipWhile_moveBy, tokenAt_moveBy]

/-- All tokens that are read further down, or the first error, are those further down. -/
theorem tokensFrom_moveBy :
    (tokensFrom g limits 0 (k.moveBy d)).mapM id =
      (((tokensFrom g limits 0 k).mapM id).map (List.map (Token.moveBy d))).mapError
        (Misread.moveBy d) := by
  induction hn : k.rest.length using Nat.strongRecOn generalizing k with
  | ind n ih =>
    subst hn
    rw [mapM_tokensFrom, mapM_tokensFrom g limits k, nextToken_moveBy]
    cases htoken : nextToken g limits k with
    | mk result next =>
      cases result with
      | error m => rfl
      | ok token =>
        have hkind : (token.moveBy d).kind = token.kind := rfl
        dsimp only [Outcome.moveBy, Except.map, Except.mapError]
        rw [hkind]
        split
        · rfl
        · next hend =>
          have hlt := nextToken_shortens htoken (by simpa using hend)
          rw [ih _ hlt next rfl]
          cases (tokensFrom g limits 0 next).mapM id <;> rfl

end Tokens

end Edn
