import Edn.Proofs.Grammar.Selection
import Edn.Proofs.Reading.Cursor
import Edn.Reading.Lexer

/-!
# Places of tokens

A cursor counts bytes, lines and columns while it moves, and the span of a
token holds what was counted.  This module says what these numbers mean.

* `Cursor.Behind` is the invariant of a cursor: it stands in a text behind
  some characters, and its numbers are those of these characters.
  `Cursor.Behind.advance` keeps it.
* `turn_reaches` is the step of the scanner: whatever a step does, also where
  it fails, it moves the cursor forward.  `nextToken_reaches` carries this to
  tokens.
* `nextToken_place` says where a token stands and which text it covers.
* `place_after_calls` puts both together for a reader that is asked for
  tokens again and again, after errors too.
-/

namespace Edn

/-! ## Lengths in bytes -/

namespace Grammar

theorem foldl_utf8Size (text : List Char) (n : Nat) :
    text.foldl (fun length c => length + c.utf8Size) n = n + byteLength text := by
  induction text generalizing n with
  | nil => rfl
  | cons c rest ih =>
    rw [byteLength, List.foldl_cons, List.foldl_cons, ih, ih (0 + c.utf8Size)]
    omega

theorem byteLength_cons (c : Char) (rest : List Char) :
    byteLength (c :: rest) = c.utf8Size + byteLength rest := by
  rw [byteLength, List.foldl_cons, foldl_utf8Size, Nat.zero_add]

theorem byteLength_append (first second : List Char) :
    byteLength (first ++ second) = byteLength first + byteLength second := by
  rw [byteLength, List.foldl_append, foldl_utf8Size]
  rfl

/-- A character has at least one byte. -/
theorem length_le_byteLength (text : List Char) : text.length ≤ byteLength text := by
  induction text with
  | nil => exact Nat.le_refl _
  | cons c rest ih =>
    have := c.utf8Size_pos
    rw [byteLength_cons, List.length_cons]
    omega

theorem utf8ByteSize_ofList (text : List Char) :
    (String.ofList text).utf8ByteSize = byteLength text := by
  induction text with
  | nil => rfl
  | cons c rest ih =>
    rw [show c :: rest = [c] ++ rest from rfl, String.ofList_append, String.utf8ByteSize_append, ih,
      byteLength_append, ← String.singleton_eq_ofList, String.utf8ByteSize_singleton, byteLength_cons]
    rfl

theorem utf8ByteSize_eq (source : String) : source.utf8ByteSize = byteLength source.toList := by
  rw [← utf8ByteSize_ofList, String.ofList_toList]

end Grammar

open Grammar (byteLength byteLength_append byteLength_cons)

/-! ## Where a cursor stands -/

/-- The line on which a text ends, counted from one. -/
def lineBehind (before : List Char) : Nat :=
  before.count '\n' + 1

/-- The column behind a text, counted from one in each line. -/
def columnBehind (before : List Char) : Nat :=
  (before.reverse.takeWhile Span.inLine).length + 1

theorem lineBehind_le (before : List Char) : lineBehind before ≤ before.length + 1 :=
  Nat.succ_le_succ List.count_le_length

theorem columnBehind_le (before : List Char) : columnBehind before ≤ before.length + 1 := by
  have := (List.takeWhile_prefix (l := before.reverse) Span.inLine).length_le
  rw [List.length_reverse] at this
  exact Nat.succ_le_succ this

namespace Cursor

/-- The cursor stands in a text behind the characters `before`. -/
structure Behind (source before : List Char) (k : Cursor) : Prop where
  source_eq : source = before ++ k.rest
  position : k.position = byteLength before
  line : k.line = lineBehind before
  column : k.column = columnBehind before

variable {source before : List Char} {k : Cursor}

theorem behind_start (source : List Char) : (start source).Behind source [] :=
  ⟨rfl, rfl, rfl, rfl⟩

/-- One step puts one character behind the cursor. -/
theorem Behind.next (h : k.Behind source before) {c : Char} {rest : List Char}
    (hk : k.rest = c :: rest) : k.next.Behind source (before ++ [c]) := by
  obtain ⟨hsource, hposition, hline, hcolumn⟩ := h
  have hbytes : byteLength (before ++ [c]) = k.position + c.utf8Size := by
    rw [byteLength_append, byteLength_cons, hposition]
    rfl
  unfold Cursor.next
  rw [hk]
  dsimp only
  split
  · next hc =>
    subst hc
    refine ⟨by rw [hsource, hk, List.append_assoc]; rfl, hbytes.symm, ?_, ?_⟩
    · simp [lineBehind, hline]
    · simp [columnBehind, Span.inLine]
  · next hc =>
    have hinLine : Span.inLine c = true := by simp [Span.inLine, hc]
    refine ⟨by rw [hsource, hk, List.append_assoc]; rfl, hbytes.symm, ?_, ?_⟩
    · simp [lineBehind, hline, hc]
    · simp [columnBehind, hcolumn, hinLine]

/-- What a cursor moves over is put behind it. -/
theorem Behind.advance (h : k.Behind source before) {text after : List Char}
    (hk : k.rest = text ++ after) : (k.advance text.length).Behind source (before ++ text) := by
  induction text generalizing k before with
  | nil =>
    rw [List.append_nil]
    exact h
  | cons c text ih =>
    have hnext := h.next hk
    have hrest : k.next.rest = text ++ after := by
      rw [rest_next, hk]
      rfl
    have hadvance := ih hnext hrest
    rw [List.append_assoc] at hadvance
    exact hadvance

/-- A cursor that is reached stands behind what was taken. -/
theorem Behind.reaches {next : Cursor} (h : k.Behind source before) (hreach : k.Reaches next) :
    ∃ text, k.rest = text ++ next.rest ∧ next.Behind source (before ++ text) := by
  obtain ⟨text, hk, hnext⟩ := hreach.exists_taken
  refine ⟨text, hk, ?_⟩
  have hadvance := h.advance hk
  rw [← hnext] at hadvance
  exact hadvance

end Cursor

/-! ## What a span covers -/

/-- A span covers the characters `text` behind `before`. -/
structure Span.Covers (before text : List Char) (span : Span) : Prop where
  start : span.start = byteLength before
  stop : span.stop = byteLength (before ++ text)
  line : span.line = lineBehind before
  column : span.column = columnBehind before

theorem Cursor.Behind.covers {source before text : List Char} {k next : Cursor}
    (h : k.Behind source before) (hnext : next.Behind source (before ++ text)) :
    (next.spanFrom k.mark).Covers before text :=
  ⟨h.position, hnext.position, h.line, h.column⟩

/-- A text is split behind a part of it. -/
theorem Span.splitAtByte_append (before after taken : List Char) :
    splitAtByte (byteLength before) taken (before ++ after) = (before.reverse ++ taken, after) := by
  induction before generalizing taken with
  | nil =>
    cases after with
    | nil => rfl
    | cons c after =>
      have hc : ¬c.utf8Size ≤ byteLength [] := Nat.not_le.2 c.utf8Size_pos
      rw [List.nil_append, splitAtByte, if_neg hc]
      rfl
  | cons c before ih =>
    have hc : c.utf8Size ≤ byteLength (c :: before) := by
      rw [byteLength_cons]
      exact Nat.le_add_right _ _
    have hsize : byteLength (c :: before) - c.utf8Size = byteLength before := by
      rw [byteLength_cons, Nat.add_sub_cancel_left]
    rw [List.cons_append, splitAtByte, if_pos hc, hsize, ih, List.reverse_cons, List.append_assoc]
    rfl

/-- The text of a span is what it covers. -/
theorem Span.Covers.text_eq {span : Span} {before text : List Char} (h : span.Covers before text)
    (after : List Char) : span.text (before ++ text ++ after) = text := by
  have hlength : span.length = byteLength text := by
    rw [length, h.start, h.stop, byteLength_append, Nat.add_sub_cancel_left]
  rw [Span.text, h.start, hlength, List.append_assoc, splitAtByte_append, splitAtByte_append,
    List.append_nil, List.reverse_reverse]

/-! ## The scanner moves forward -/

/-- The cursor at which a step stops or goes on. -/
def Turn.next : Turn → Cursor
  | .finished outcome => outcome.next
  | .going _ next => next

section Scanner

variable {g : Grammar} {maxDepth : Nat} {frames : List Frame} {k : Cursor}

theorem readTag_reaches (g : Grammar) (k : Cursor) : k.Reaches (readTag g k).next := by
  unfold readTag
  split
  · exact .refl k
  · next length _ =>
    have hafter : k.Reaches (afterTag k length) :=
      (k.reaches_advance length).trans (Cursor.reaches_skipWhile _ _)
    dsimp only
    split <;> exact hafter

theorem next_settle (frames : List Frame) (value : Element) (next : Cursor) :
    (settle frames value next).next = next := by
  cases frames <;> rfl

theorem literalTurn_reaches (tag : String) : k.Reaches (literalTurn g frames tag k).next := by
  unfold literalTurn
  split
  · exact .refl k
  · next rule length _ =>
    split
    · exact k.reaches_advance length
    · rw [next_settle]
      exact k.reaches_advance length

theorem valueTurn_reaches : k.Reaches (valueTurn g maxDepth frames k).next := by
  have htag := readTag_reaches g k
  unfold valueTurn
  split
  · next heq =>
    rw [heq] at htag
    exact htag
  · next tag next heq =>
    rw [heq] at htag
    split
    · next rule _ =>
      have hopener := htag.trans (next.reaches_advance rule.opener.length)
      unfold openTurn
      split <;> exact hopener
    · exact htag.trans (literalTurn_reaches tag)

theorem closeTurn_next (frame : Frame) (outer : List Frame) (next : Cursor) :
    (closeTurn frame outer next).next = next := by
  unfold closeTurn
  split
  · rfl
  · rw [next_settle]

/-- A step moves the cursor forward, whether it goes on, completes a value or fails. -/
theorem turn_reaches (g : Grammar) (maxDepth : Nat) (frames : List Frame) (k : Cursor) :
    k.Reaches (turn g maxDepth frames k).next := by
  unfold turn
  split
  · exact valueTurn_reaches
  · next frame outer =>
    have hskip := k.reaches_skipTrivia
    dsimp only
    split
    · exact hskip
    · split
      · next rule _ =>
        split
        · rw [closeTurn_next]
          exact hskip.trans (k.skipTrivia.reaches_advance _)
        · exact hskip
      · exact hskip.trans valueTurn_reaches

/-- A run of the scanner moves the cursor forward. -/
theorem scanFrom_reaches (g : Grammar) (maxDepth : Nat) (frames : List Frame) (k : Cursor) :
    k.Reaches (scanFrom g maxDepth frames k).next := by
  fun_induction scanFrom g maxDepth frames k with
  | case1 frames k outcome hturn =>
    have hstep := turn_reaches g maxDepth frames k
    rw [hturn] at hstep
    exact hstep
  | case2 frames k inner next hturn ih =>
    have hstep := turn_reaches g maxDepth frames k
    rw [hturn] at hstep
    exact hstep.trans ih

end Scanner

/-! ## Tokens -/

section Tokens

variable {g : Grammar} {limits : Limits} {k next : Cursor} {token : Token}

theorem tokenAt_reaches (g : Grammar) (limits : Limits) (k : Cursor) :
    k.Reaches (tokenAt g limits k).next := by
  unfold tokenAt
  split
  · exact .refl k
  · exact Cursor.reaches_skipWhile _ _
  · split
    · exact k.reaches_advance _
    · have hscan := scanFrom_reaches g limits.maxDepth [] k
      unfold valueToken
      split <;> (next heq => rw [scanValue] at heq; rw [heq] at hscan; exact hscan)

/-- Asking for a token moves the cursor forward, whether there is one or not. -/
theorem nextToken_reaches (g : Grammar) (limits : Limits) (k : Cursor) :
    k.Reaches (nextToken g limits k).next :=
  (Cursor.reaches_skipWhile _ _).trans (tokenAt_reaches g limits k.skipBlanks)

/-- What the kind of a token says about its text and about the text behind it. -/
def TokenKind.Tells (text after : List Char) : TokenKind → Prop
  | .value _ => text ≠ []
  | .close closer => text = closer ∧ text ≠ []
  | .comment written => text = written ∧ text ≠ []
  | .endOfInput => text = [] ∧ after = []

/-- A token has the span from where it was asked for, and its kind tells its text. -/
theorem tokenAt_spec (h : tokenAt g limits k = .ok token next) :
    token.span = next.spanFrom k.mark ∧
      ∃ text, k.rest = text ++ next.rest ∧ token.kind.Tells text next.rest := by
  have htakes := @tokenAt_takes g limits k next token h
  obtain ⟨text, hk, -⟩ : ∃ text, k.rest = text ++ next.rest ∧ next = k.advance text.length := by
    have hreach := tokenAt_reaches g limits k
    rw [h] at hreach
    exact hreach.exists_taken
  have hne : token.kind.isEnd = false → text ≠ [] := by
    rintro hend rfl
    have hlt := htakes hend
    rw [hk] at hlt
    exact Nat.lt_irrefl _ hlt
  unfold tokenAt at h
  split at h
  · next hnil =>
    cases h
    exact ⟨rfl, [], by rw [List.nil_append], rfl, hnil⟩
  · next rest hrest =>
    cases h
    refine ⟨rfl, text, hk, ?_, hne rfl⟩
    have hskip := Cursor.rest_skipWhile Span.inLine k
    rw [hskip] at hk
    have hsplit : k.rest.takeWhile Span.inLine ++ k.rest.dropWhile Span.inLine = k.rest :=
      List.takeWhile_append_dropWhile
    exact (List.append_cancel_right (hsplit.trans hk)).symm
  · split at h
    · next rule hclose =>
      cases h
      refine ⟨rfl, text, hk, ?_, hne rfl⟩
      obtain ⟨after, hafter⟩ := Grammar.closer_prefix_of_closing? hclose
      have hrest := Cursor.rest_advance_of_eq hafter.symm
      rw [hrest, ← hafter] at hk
      exact (List.append_cancel_right hk).symm
    · unfold valueToken at h
      split at h
      · cases h
      · cases h
        exact ⟨rfl, text, hk, hne rfl⟩

/-- A token stands behind blanks, and the cursor behind it. -/
theorem nextToken_place {source before : List Char} (hk : k.Behind source before)
    (h : nextToken g limits k = .ok token next) :
    ∃ gap text, k.rest = gap ++ text ++ next.rest ∧ k.skipBlanks.rest = text ++ next.rest ∧
      (∀ c ∈ gap, Cursor.isBlank c = true) ∧ token.span.Covers (before ++ gap) text ∧
        token.kind.Tells text next.rest ∧ next.Behind source (before ++ gap ++ text) := by
  obtain ⟨hspan, text, htext, htells⟩ := tokenAt_spec h
  have hreach := tokenAt_reaches g limits k.skipBlanks
  rw [show tokenAt g limits k.skipBlanks = .ok token next from h] at hreach
  have hgap : k.rest = k.rest.takeWhile Cursor.isBlank ++ k.skipBlanks.rest := by
    rw [Cursor.skipBlanks, Cursor.rest_skipWhile, List.takeWhile_append_dropWhile]
  have hskip : k.skipBlanks.Behind source (before ++ k.rest.takeWhile Cursor.isBlank) :=
    hk.advance hgap
  have hnext : next.Behind source (before ++ k.rest.takeWhile Cursor.isBlank ++ text) := by
    have hadvance := hskip.advance htext
    rw [← hreach.eq_advance htext] at hadvance
    exact hadvance
  refine ⟨_, text, ?_, htext, ?_, ?_, htells, hnext⟩
  · rw [List.append_assoc, ← htext]
    exact hgap
  · exact List.all_eq_true.1 List.all_takeWhile
  · rw [hspan]
    exact hskip.covers hnext

end Tokens

/-! ## Asking again and again -/

/-- The cursor after a number of calls for a token, whether they returned one or failed. -/
def cursorAfter (g : Grammar) (limits : Limits) (k : Cursor) : (calls : Nat) → Cursor
  | 0 => k
  | calls + 1 => (nextToken g limits (cursorAfter g limits k calls)).next

/-- However often tokens are asked for, the cursor stands behind a part of the text. -/
theorem exists_behind_cursorAfter (g : Grammar) (limits : Limits) (source : List Char)
    (calls : Nat) :
    ∃ before, (cursorAfter g limits (.start source) calls).Behind source before := by
  induction calls with
  | zero => exact ⟨[], Cursor.behind_start source⟩
  | succ calls ih =>
    obtain ⟨before, hbefore⟩ := ih
    obtain ⟨text, -, hnext⟩ := hbefore.reaches (nextToken_reaches g limits _)
    exact ⟨before ++ text, hnext⟩

/-- However often tokens are asked for, and whatever failed on the way, the cursor stands between two
characters of the text, its numbers are those of the text before it, and the next call does not
move it back.  Lines and columns are at most one more than the number of characters, so that 32 bits
hold them for every shorter text.  A token covers a part of the text that lies ahead, with the line and
the column of its start, and a closing delimiter or a comment is the text that it covers. -/
theorem place_after_calls (g : Grammar) (limits : Limits) (source : String) (calls : Nat) :
    let k := cursorAfter g limits (.start source.toList) calls
    ∃ before : List Char,
      k.Behind source.toList before ∧ String.Pos.Raw.IsValid source ⟨k.position⟩ ∧
      k.line ≤ source.length + 1 ∧ k.column ≤ source.length + 1 ∧
      k.position ≤ (nextToken g limits k).next.position ∧
      ∀ token next, nextToken g limits k = .ok token next →
        ∃ gap text after, source.toList = before ++ gap ++ text ++ after ∧
          token.span.Covers (before ++ gap) text ∧
          token.span.start ≤ token.span.stop ∧ token.span.stop ≤ source.utf8ByteSize ∧
          token.text source.toList = text ∧
          (∀ closer, token.kind = .close closer → token.text source.toList = closer) ∧
          (∀ written, token.kind = .comment written → token.text source.toList = written) := by
  intro k
  obtain ⟨before, hbefore⟩ := exists_behind_cursorAfter g limits source.toList calls
  have hlength : before.length ≤ source.length := by
    rw [← String.length_toList, hbefore.source_eq, List.length_append]
    exact Nat.le_add_right _ _
  refine ⟨before, hbefore, ?_, ?_, ?_, (nextToken_reaches g limits k).position_le, ?_⟩
  · refine String.Pos.Raw.isValid_iff_exists_append.2
      ⟨String.ofList before, String.ofList k.rest, ?_, ?_⟩
    · rw [← String.ofList_append, ← hbefore.source_eq, String.ofList_toList]
    · rw [hbefore.position, ← Grammar.utf8ByteSize_ofList]
      rfl
  · rw [hbefore.line]
    exact Nat.le_trans (lineBehind_le before) (Nat.succ_le_succ hlength)
  · rw [hbefore.column]
    exact Nat.le_trans (columnBehind_le before) (Nat.succ_le_succ hlength)
  · intro token next h
    obtain ⟨gap, text, -, -, -, hcovers, htells, hnext⟩ := nextToken_place hbefore h
    have htext : token.text source.toList = text := by
      rw [Token.text, hnext.source_eq]
      exact hcovers.text_eq next.rest
    refine ⟨gap, text, next.rest, hnext.source_eq, hcovers, ?_, ?_, htext, ?_, ?_⟩
    · rw [hcovers.start, hcovers.stop, byteLength_append (before ++ gap)]
      exact Nat.le_add_right _ _
    · rw [hcovers.stop, Grammar.utf8ByteSize_eq, hnext.source_eq, byteLength_append _ next.rest]
      exact Nat.le_add_right _ _
    · intro closer hkind
      rw [hkind] at htells
      exact htext.trans htells.1
    · intro written hkind
      rw [hkind] at htells
      exact htext.trans htells.1

end Edn
