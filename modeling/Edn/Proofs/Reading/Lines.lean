import Edn.Proofs.Reading.Blame
import Edn.Proofs.Reading.Translation

/-!
# Texts one below the other

The end of a line ends every token, and blanks and comments too.  So a text
is read to its end in the same way if another text stands below it, and the
text below is read as if it stood alone, further down.

* `nextToken_extend` is the step: more text behind the end of a line changes
  no token in front of it.
* `nextToken_below`: at the end of the first text, reading goes on at the
  start of the second.
* `ReadsTokens.append_line` carries both through a run.
* `Misread.located_below`: an error below has the same source line.
* `tokenize_append_line` is the result.
-/

namespace Edn

open Grammar (standard byteLength byteLength_append)

/-- The tokens of a text, or the first error, with its place. -/
def tokenize (g : Grammar) (limits : Limits) (source : String) : Except Error (List Token) :=
  (tokens g limits source).mapError (·.located source.toList)

/-! ## More text ahead -/

/-- The cursor with more text behind its own. -/
def Cursor.extend (more : List Char) (k : Cursor) : Cursor :=
  { k with rest := k.rest ++ more }

namespace Cursor

variable {k : Cursor} {more : List Char}

@[simp] theorem rest_extend : (k.extend more).rest = k.rest ++ more :=
  rfl

theorem shares_extend : Shares [] more k (k.extend more) :=
  ⟨k.rest, (List.append_nil _).symm, rfl⟩

theorem next_extend (hk : k.rest ≠ []) : (k.extend more).next = k.next.extend more := by
  obtain ⟨c, rest, hrest⟩ := List.exists_cons_of_ne_nil hk
  unfold next
  rw [rest_extend, hrest, List.cons_append]
  dsimp only
  split <;> rfl

/-- Over its own text, a cursor moves as before. -/
theorem advance_extend {n : Nat} (hn : n ≤ k.rest.length) :
    (k.extend more).advance n = (k.advance n).extend more := by
  induction n generalizing k with
  | zero => rfl
  | succ n ih =>
    have hk : k.rest ≠ [] := by
      rintro hnil
      rw [hnil] at hn
      exact absurd hn (Nat.not_succ_le_zero n)
    have hlength : n ≤ k.next.rest.length := by
      rw [rest_next, List.length_tail]
      omega
    rw [advance, advance, next_extend hk, ih hlength]

/-- A cursor that stops before the end of its own text stops there with more text, too. -/
theorem skipWhile_extend {p : Char → Bool} (h : (k.skipWhile p).rest ≠ []) :
    (k.extend more).skipWhile p = (k.skipWhile p).extend more := by
  have htake : (k.extend more).rest.takeWhile p = k.rest.takeWhile p :=
    shares_extend.takeWhile_eq (List.length_pos_iff.2 h)
  have hlength : (k.rest.takeWhile p).length ≤ k.rest.length :=
    (List.takeWhile_prefix p).length_le
  rw [skipWhile, htake, advance_extend hlength, skipWhile]

/-- A cursor that is reached over its own text is reached with more text, too. -/
theorem Reaches.eq_extend {next next' : Cursor} (h : k.Reaches next)
    (h' : (k.extend more).Reaches next') (hrest : next'.rest = next.rest ++ more) :
    next' = next.extend more := by
  obtain ⟨taken, hk, rfl⟩ := h.exists_taken
  have hextended : (k.extend more).rest = taken ++ next'.rest := by
    rw [rest_extend, hk, hrest, List.append_assoc]
  have hlength : taken.length ≤ k.rest.length := by
    rw [hk, List.length_append]
    exact Nat.le_add_right _ _
  rw [h'.eq_advance hextended, advance_extend hlength]

end Cursor

/-! ## Tokens in front of the end of a line -/

/-- A line ends at its end. -/
theorem takeWhile_inLine_append (text more : List Char) :
    (text ++ '\n' :: more).takeWhile Span.inLine = text.takeWhile Span.inLine := by
  induction text with
  | nil => rfl
  | cons c text ih =>
    rw [List.cons_append, List.takeWhile_cons, List.takeWhile_cons, ih]

section Tokens

variable {limits : Limits} {k next : Cursor} {token : Token}

/-- A value that is read up to the end of a line is read in front of more lines. -/
theorem ReadsValue.extend {maxDepth depth : Nat} {value : Element}
    (h : ReadsValue standard maxDepth depth k (.ok value next)) (more : List Char) :
    ReadsValue standard maxDepth depth (k.extend ('\n' :: more))
      (.ok value (next.extend ('\n' :: more))) := by
  obtain ⟨next', hread, text, hnext, hnext'⟩ :=
    h.shares (@endsToken_of_blank '\n' rfl more) k.shares_extend (Nat.zero_le _)
  rw [List.append_nil] at hnext
  rw [← hnext] at hnext'
  have hsame : next' = next.extend ('\n' :: more) := h.reaches.eq_extend hread.reaches hnext'
  rwa [← hsame]

theorem tokenAt_of_comment {g : Grammar} {rest : List Char} (hk : k.rest = ';' :: rest) :
    tokenAt g limits k =
      .ok ⟨.comment (k.rest.takeWhile Span.inLine), (k.skipWhile Span.inLine).spanFrom k.mark⟩
        (k.skipWhile Span.inLine) := by
  unfold tokenAt
  split
  · next hnil => simp [hk] at hnil
  · rfl
  · next hcomment => exact absurd hk (hcomment rest)

theorem tokenAt_of_ne {g : Grammar} {c : Char} {rest : List Char} (hk : k.rest = c :: rest)
    (hc : c ≠ ';') :
    tokenAt g limits k =
      match g.closing? k.rest with
      | some rule =>
        let next := k.advance rule.closer.length
        .ok ⟨.close rule.closer, next.spanFrom k.mark⟩ next
      | none => valueToken g limits k := by
  unfold tokenAt
  split
  · next hnil => simp [hk] at hnil
  · next rest' hcomment =>
    rw [hk] at hcomment
    exact absurd (List.head_eq_of_cons_eq hcomment) hc
  · rfl

theorem valueToken_extend (h : valueToken standard limits k = .ok token next) (more : List Char) :
    valueToken standard limits (k.extend ('\n' :: more)) =
      .ok token (next.extend ('\n' :: more)) := by
  unfold valueToken at h ⊢
  split at h
  · cases h
  · next value next' hscan =>
    cases h
    have hread := ((scanValue_eq_iff_readsValue _ _ _ _).1 hscan).extend more
    rw [hread.scanValue_eq]
    rfl

theorem tokenAt_extend (h : tokenAt standard limits k = .ok token next)
    (hend : token.kind.isEnd = false) (more : List Char) :
    tokenAt standard limits (k.extend ('\n' :: more)) = .ok token (next.extend ('\n' :: more)) := by
  cases hrest : k.rest with
  | nil =>
    rw [tokenAt, hrest] at h
    cases h
    cases hend
  | cons c rest =>
    have hrest' : (k.extend ('\n' :: more)).rest = c :: (rest ++ '\n' :: more) := by
      rw [Cursor.rest_extend, hrest, List.cons_append]
    by_cases hc : c = ';'
    · subst hc
      rw [tokenAt_of_comment hrest] at h
      cases h
      have htake := takeWhile_inLine_append k.rest more
      have hlength : (k.rest.takeWhile Span.inLine).length ≤ k.rest.length :=
        (List.takeWhile_prefix _).length_le
      rw [tokenAt_of_comment hrest', Cursor.skipWhile, Cursor.rest_extend, htake,
        Cursor.advance_extend hlength]
      rfl
    · have hclosing : standard.closing? (k.extend ('\n' :: more)).rest =
          standard.closing? k.rest := by
        rw [hrest', hrest]
        exact closing?_cons c _ _
      rw [tokenAt_of_ne hrest hc] at h
      rw [tokenAt_of_ne hrest' hc, hclosing]
      cases hclose : standard.closing? k.rest with
      | none =>
        rw [hclose] at h
        exact valueToken_extend h more
      | some rule =>
        rw [hclose] at h
        cases h
        have hlength := (Grammar.closer_prefix_of_closing? hclose).length_le
        dsimp only
        rw [Cursor.advance_extend hlength]
        rfl

/-- A token that is read in front of the end of a line is read in front of more lines. -/
theorem nextToken_extend (h : nextToken standard limits k = .ok token next)
    (hend : token.kind.isEnd = false) (more : List Char) :
    nextToken standard limits (k.extend ('\n' :: more)) =
      .ok token (next.extend ('\n' :: more)) := by
  have hskip : k.skipBlanks.rest ≠ [] := by
    intro hnil
    unfold nextToken tokenAt at h
    rw [hnil] at h
    cases h
    cases hend
  rw [nextToken, Cursor.skipBlanks, Cursor.skipWhile_extend hskip]
  exact tokenAt_extend h hend more

/-- Blanks make no difference to the token behind them. -/
theorem nextToken_advance {g : Grammar} {gap rest : List Char} (hk : k.rest = gap ++ rest)
    (hgap : ∀ c ∈ gap, Cursor.isBlank c = true) :
    nextToken g limits (k.advance gap.length) = nextToken g limits k := by
  have hskip : (k.advance gap.length).skipBlanks = k.skipBlanks := by
    rw [Cursor.skipBlanks, Cursor.skipBlanks, Cursor.skipWhile, Cursor.skipWhile,
      Cursor.rest_advance_of_eq hk, Cursor.advance_advance, hk,
      List.takeWhile_append_of_pos hgap, List.length_append]
  rw [nextToken, nextToken, hskip]

/-- Where a text ends, reading goes on at the start of the text below. -/
theorem nextToken_below {first before : List Char} (hk : k.Behind first before)
    (h : nextToken standard limits k = .ok token next) (hend : token.kind.isEnd = true)
    (second : List Char) :
    nextToken standard limits (k.extend ('\n' :: second)) =
      nextToken standard limits ((Cursor.start second).moveBy
        ⟨byteLength first + 1, first.count '\n' + 1⟩) := by
  obtain ⟨gap, text, hrest, -, hgap, -, htells, -⟩ := nextToken_place hk h
  rw [TokenKind.eq_endOfInput hend] at htells
  obtain ⟨rfl, hnext⟩ : text = [] ∧ next.rest = [] := htells
  rw [hnext, List.append_nil, List.append_nil] at hrest
  have hfirst : first = before ++ gap := by rw [hk.source_eq, hrest]
  have hbehind : (k.extend ('\n' :: second)).Behind (first ++ '\n' :: second) before :=
    ⟨by rw [hk.source_eq, List.append_assoc]; rfl, hk.position, hk.line, hk.column⟩
  have hextended : (k.extend ('\n' :: second)).rest = (gap ++ ['\n']) ++ second := by
    rw [Cursor.rest_extend, hrest, List.append_assoc]
    rfl
  have hblank : ∀ c ∈ gap ++ ['\n'], Cursor.isBlank c = true := by
    intro c hc
    rcases List.mem_append.1 hc with hc | hc
    · exact hgap c hc
    · rw [List.mem_singleton.1 hc]
      rfl
  have hplace := hbehind.advance hextended
  rw [← List.append_assoc, ← hfirst] at hplace
  have hsame : (k.extend ('\n' :: second)).advance (gap ++ ['\n']).length =
      (Cursor.start second).moveBy ⟨byteLength first + 1, first.count '\n' + 1⟩ := by
    have hrest := Cursor.rest_advance_of_eq hextended
    obtain ⟨-, hposition, hline, hcolumn⟩ := hplace
    rw [byteLength_append] at hposition
    simp only [lineBehind, List.count_append] at hline
    simp only [columnBehind, List.reverse_append] at hcolumn
    generalize (k.extend ('\n' :: second)).advance (gap ++ ['\n']).length = j at *
    obtain ⟨rest, position, line, column⟩ := j
    simp only at hrest hposition hline hcolumn
    subst hrest hposition hline hcolumn
    simp [Cursor.moveBy, Cursor.start, Span.inLine]
    exact ⟨rfl, Nat.add_comm _ _⟩
  rw [← hsame, nextToken_advance hextended hblank]

end Tokens

/-! ## Runs -/

section Runs

variable {limits : Limits} {k : Cursor}

/-- The tokens of a text, and then those of the text below as they are read further down. -/
theorem ReadsTokens.append_line {first before : List Char} {ts : List Token}
    (h : ReadsTokens standard limits k ts) (hk : k.Behind first before) (second : List Char) :
    ∃ init last, ts = init ++ [last] ∧ last.kind = .endOfInput ∧
      (tokensFrom standard limits 0 (k.extend ('\n' :: second))).mapM id =
        ((tokensFrom standard limits 0 ((Cursor.start second).moveBy
          ⟨byteLength first + 1, first.count '\n' + 1⟩)).mapM id).map (init ++ ·) := by
  induction h generalizing before with
  | @last k next token htoken hend =>
    refine ⟨[], token, rfl, TokenKind.eq_endOfInput hend, ?_⟩
    have hsame : (tokensFrom standard limits 0 (k.extend ('\n' :: second))).mapM id =
        (tokensFrom standard limits 0 ((Cursor.start second).moveBy
          ⟨byteLength first + 1, first.count '\n' + 1⟩)).mapM id := by
      rw [mapM_tokensFrom, nextToken_below hk htoken hend second, ← mapM_tokensFrom]
    rw [hsame]
    cases (tokensFrom standard limits 0 ((Cursor.start second).moveBy _)).mapM id <;> rfl
  | @cons k next token rest htoken hend hrest ih =>
    obtain ⟨gap, text, -, -, -, -, -, hnext⟩ := nextToken_place hk htoken
    obtain ⟨init, last, rfl, hlast, hrun⟩ := ih hnext
    refine ⟨token :: init, last, rfl, hlast, ?_⟩
    rw [mapM_tokensFrom, nextToken_extend htoken hend second]
    dsimp only [Outcome.ok]
    rw [if_neg (by rw [hend]; exact Bool.false_ne_true), hrun]
    cases (tokensFrom standard limits 0 ((Cursor.start second).moveBy _)).mapM id <;> rfl

/-! ## Errors -/

/-- The tokens of a text fail where one of them does. -/
theorem exists_nextToken_of_tokensFrom {g : Grammar} {m : Misread}
    (h : (tokensFrom g limits 0 k).mapM id = .error m) :
    ∃ j next, k.Reaches j ∧ nextToken g limits j = .error m next := by
  induction hn : k.rest.length using Nat.strongRecOn generalizing k with
  | ind n ih =>
    subst hn
    rw [mapM_tokensFrom] at h
    split at h
    · next next htoken =>
      cases h
      exact ⟨k, next, .refl k, htoken⟩
    · next token next htoken =>
      split at h
      · cases h
      · next hend =>
        have hlt := nextToken_shortens htoken (by simpa using hend)
        have hreach := nextToken_reaches g limits k
        rw [htoken] at hreach
        cases hrest : (tokensFrom g limits 0 next).mapM id with
        | ok rest =>
          rw [hrest] at h
          cases h
        | error m' =>
          rw [hrest] at h
          cases h
          obtain ⟨j, last, hj, herror⟩ := ih _ hlt hrest rfl
          exact ⟨j, last, hreach.trans hj, herror⟩

/-- A line of a text has the same text if another text stands above. -/
theorem Span.sourceLine_below {span : Span} {first before after : List Char}
    (h : span.start = byteLength before) :
    (span.moveBy ⟨byteLength first + 1, first.count '\n' + 1⟩).sourceLine
        (first ++ '\n' :: (before ++ after)) = span.sourceLine (before ++ after) := by
  have hstart : (span.moveBy ⟨byteLength first + 1, first.count '\n' + 1⟩).start =
      byteLength (first ++ '\n' :: before) := by
    rw [byteLength_append, Grammar.byteLength_cons, moveBy, h]
    simp only [show '\n'.utf8Size = 1 from rfl]
    omega
  have hsource : first ++ '\n' :: (before ++ after) = first ++ '\n' :: before ++ after := by
    rw [List.append_assoc, List.cons_append]
  rw [hsource, sourceLine_append after hstart, sourceLine_append after h, List.reverse_append,
    List.reverse_cons, List.append_assoc, List.singleton_append, takeWhile_inLine_append]

/-- The error of a text is the same below another text, but for its line. -/
theorem located_below {first second : List Char} {m : Misread}
    (h : (tokensFrom standard limits 0 (.start second)).mapM id = .error m) :
    (m.moveBy ⟨byteLength first + 1, first.count '\n' + 1⟩).located (first ++ '\n' :: second) =
      (m.located second).moveLines (first.count '\n' + 1) := by
  obtain ⟨j, next, hreach, htoken⟩ := exists_nextToken_of_tokensFrom h
  obtain ⟨-, place, hspan, hfaulty⟩ := faulty_of_nextToken htoken
  have hplace := (hreach.trans (Cursor.reaches_skipWhile _ j)).trans hfaulty.reaches
  obtain ⟨before, -, hbehind⟩ := (Cursor.behind_start second).reaches hplace
  rw [List.nil_append] at hbehind
  have hstart : m.span.start = byteLength before := by
    rw [hspan]
    exact hbehind.position
  have hline := @Span.sourceLine_below m.span first before place.rest hstart
  rw [← hbehind.source_eq] at hline
  rw [Misread.located, Misread.located, ← Error.located_add hfaulty.isUnplaced]
  exact congrArg (fun line => m.error.located _ _ (String.ofList line)) hline

end Runs

/-! ## Texts -/

section Texts

variable {limits : Limits} {first second source : String} {ts : List Token}

theorem toList_append_line :
    (first ++ "\n" ++ second).toList = first.toList ++ '\n' :: second.toList := by
  rw [String.toList_append, String.toList_append, List.append_assoc]
  rfl

theorem tokenize_eq_ok_iff {g : Grammar} :
    tokenize g limits source = .ok ts ↔ tokens g limits source = .ok ts := by
  unfold tokenize
  cases tokens g limits source <;> simp [Except.mapError]

theorem tokenize_eq_error_iff {g : Grammar} {error : Error} :
    tokenize g limits source = .error error ↔
      ∃ m, tokens g limits source = .error m ∧ m.located source.toList = error := by
  unfold tokenize
  cases tokens g limits source <;> simp [Except.mapError]

/-- The tokens of two texts, one below the other, without the places of errors. -/
theorem tokens_append_line (h : tokens standard limits first = .ok ts) :
    let d : Displacement := ⟨first.utf8ByteSize + 1, first.toList.count '\n' + 1⟩
    ∃ init last, ts = init ++ [last] ∧ last.kind = .endOfInput ∧
      tokens standard limits (first ++ "\n" ++ second) =
        ((tokens standard limits second).map fun others =>
          init ++ others.map (Token.moveBy d)).mapError (Misread.moveBy d) := by
  intro d
  obtain ⟨init, last, hts, hlast, hrun⟩ :=
    (tokensFrom_eq_ok_iff.1 h).append_line (Cursor.behind_start first.toList) second.toList
  refine ⟨init, last, hts, hlast, ?_⟩
  rw [← Grammar.utf8ByteSize_eq, tokensFrom_moveBy] at hrun
  rw [tokens, tokens, toList_append_line]
  refine Eq.trans hrun ?_
  cases (tokensFrom standard limits 0 (.start second.toList)).mapM id <;> rfl

/-- A text that can be read, and another text below: the tokens of the first without its end, and then
those of the second, further down by the bytes and lines of the first and the end of its last line.
If the second text cannot be read, its error is the error of both, with only the line further down. -/
theorem tokenize_append_line (h : tokenize standard limits first = .ok ts) :
    let d : Displacement := ⟨first.utf8ByteSize + 1, first.toList.count '\n' + 1⟩
    ∃ init last, ts = init ++ [last] ∧ last.kind = .endOfInput ∧
      (∀ others, tokenize standard limits second = .ok others →
        tokenize standard limits (first ++ "\n" ++ second) =
          .ok (init ++ others.map (Token.moveBy d))) ∧
      ∀ error, tokenize standard limits second = .error error →
        tokenize standard limits (first ++ "\n" ++ second) = .error (error.moveLines d.lines) := by
  intro d
  obtain ⟨init, last, hts, hlast, hboth⟩ :=
    @tokens_append_line limits first second ts (tokenize_eq_ok_iff.1 h)
  refine ⟨init, last, hts, hlast, fun others hothers => ?_, fun error herror => ?_⟩
  · rw [tokenize_eq_ok_iff] at hothers ⊢
    rw [hboth, hothers]
    rfl
  · rw [tokenize_eq_error_iff] at herror ⊢
    obtain ⟨m, hsecond, rfl⟩ := herror
    refine ⟨m.moveBy d, by rw [hboth, hsecond]; rfl, ?_⟩
    rw [toList_append_line]
    have hbelow := @located_below limits first.toList second.toList m hsecond
    rwa [← Grammar.utf8ByteSize_eq] at hbelow

theorem tokenize_unterminated : tokenize standard ⟨1, none⟩ "(" = .error
    (.ofCause (.syntaxFault "unterminated collection, expected ')'" 1 1 "(")) := by
  have hopens : Opens standard (.start "(".toList) "" _ ⟨[], 1, 1, 2⟩ :=
    ⟨_, rfl, Grammar.opening?_opener (.ordered .list) [], rfl⟩
  obtain ⟨next, hread⟩ := (@Faulty.unterminated standard 1 0 _ _ _ _ _ [] hopens
    Nat.zero_lt_one .nil rfl).readsValue
  have htoken : nextToken standard ⟨1, none⟩ (.start "(".toList) = .error
      (unterminated (.point 0 1 1) ")".toList) next := by
    rw [nextToken_eq_valueToken ⟨'(', _, rfl, by decide⟩, valueToken, hread.scanValue_eq]
    rfl
  refine tokenize_eq_error_iff.2 ⟨unterminated (.point 0 1 1) ")".toList, ?_, rfl⟩
  rw [tokens, mapM_tokensFrom, htoken]
  rfl

/-- The text `[true] ,` above itself, and above a list that is not closed. -/
theorem tokenize_append_line_single :
    ∃ value last, tokenize standard ⟨1, none⟩ "[true] ," = .ok [value, last] ∧
      tokenize standard ⟨1, none⟩ ("[true] ," ++ "\n" ++ "[true] ,") =
        .ok [value, value.moveBy ⟨9, 1⟩, last.moveBy ⟨9, 1⟩] ∧
      tokenize standard ⟨1, none⟩ ("[true] ," ++ "\n" ++ "(") = .error
        (.ofCause (.syntaxFault "unterminated collection, expected ')'" 2 1 "(")) := by
  have hread := @readsBack 1 single isPrintable_single 0 (by decide) (.start "[true] ,".toList)
    [' ', ','] rfl (endsToken_of_blank rfl _)
  have hvalue := @nextToken_of_readsValue ⟨1, none⟩ _ _ _ ⟨'[', _, rfl, by decide⟩ hread
  have hlast := @nextToken_of_blanks standard ⟨1, none⟩
    ((Cursor.start "[true] ,".toList).advance single.chars.length) (List.all_eq_true.1 rfl)
  have hfirst := tokenize_eq_ok_iff.2 (tokens_of_run (.cons hvalue rfl (.last hlast rfl)))
  obtain ⟨init, last, hts, -, hok, -⟩ :=
    @tokenize_append_line ⟨1, none⟩ "[true] ," "[true] ," _ hfirst
  obtain ⟨-, -, -, -, -, herror⟩ := @tokenize_append_line ⟨1, none⟩ "[true] ," "(" _ hfirst
  refine ⟨_, _, hfirst, ?_, herror _ tokenize_unterminated⟩
  obtain ⟨rfl, -⟩ := List.append_inj' (@Eq.trans _ ([_] ++ [_]) _ _ rfl hts) rfl
  exact hok _ hfirst

end Texts

end Edn
