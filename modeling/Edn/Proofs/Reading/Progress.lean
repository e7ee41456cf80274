import Edn.Proofs.Grammar.Additions
import Edn.Proofs.Reading.Stream

/-!
# Progress

Reading is three loops.  The scanner builds a value in passes, and tokens are
asked for one after the other, to list them or to find the value of a text.

* `Cursor.Consumes` says that a cursor moves over at least one character.
* `pass` is one round of the scanner.  `pass_consumes` and
  `nextToken_consumes` are the steps: what goes on consumes.
* `runWithin` runs a loop for a number of rounds at most.  `runWithin_eq`: a loop in
  which every round takes something away ends before nothing is left.
* `reading_ends` is the result for the three loops, under every grammar.
-/

namespace Edn

open Grammar (byteLength byteLength_append length_le_byteLength)

/-! ## Consuming -/

/-- The cursor moves over some characters to another one, and counts their bytes. -/
def Cursor.Consumes (k next : Cursor) : Prop :=
  ∃ taken, taken ≠ [] ∧ k.rest = taken ++ next.rest ∧
    next.position = k.position + byteLength taken

section Consuming

variable {k next : Cursor}

theorem Cursor.position_advance {taken after : List Char} (hk : k.rest = taken ++ after) :
    (k.advance taken.length).position = k.position + byteLength taken := by
  induction taken generalizing k with
  | nil => rfl
  | cons c taken ih =>
    have hposition : k.next.position = k.position + c.utf8Size := by
      unfold Cursor.next
      rw [hk, List.cons_append]
      dsimp only
      split <;> rfl
    have hrest : k.next.rest = taken ++ after := by
      rw [Cursor.rest_next, hk]
      rfl
    rw [List.length_cons, Cursor.advance, ih hrest, hposition, Grammar.byteLength_cons,
      Nat.add_assoc]

/-- A cursor that is reached and has less ahead has consumed what is missing. -/
theorem Cursor.Reaches.consumes (h : k.Reaches next) (hlt : next.rest.length < k.rest.length) :
    k.Consumes next := by
  obtain ⟨taken, hrest, rfl⟩ := h.exists_taken
  refine ⟨taken, ?_, hrest, Cursor.position_advance hrest⟩
  rintro rfl
  exact Nat.lt_irrefl _ (hrest ▸ hlt)

/-- What is ahead has fewer bytes afterwards. -/
theorem Cursor.Consumes.byteLength_lt (h : k.Consumes next) :
    byteLength next.rest < byteLength k.rest := by
  obtain ⟨taken, htaken, hrest, -⟩ := h
  have hpos : 0 < byteLength taken :=
    Nat.lt_of_lt_of_le (List.length_pos_iff.2 htaken) (length_le_byteLength taken)
  rw [hrest, byteLength_append]
  omega

end Consuming

/-! ## Comments -/

namespace Cursor

/-- What has been taken before is only counted. -/
theorem triviaLength_eq_add (inComment : Bool) (taken : Nat) (text : List Char) :
    triviaLength inComment taken text = taken + triviaLength inComment 0 text := by
  induction text generalizing inComment taken with
  | nil => rfl
  | cons c rest ih =>
    rw [triviaLength, triviaLength, ih (Span.inLine c), ih (Span.inLine c) (0 + 1), ih false,
      ih false (0 + 1), ih true, ih true (0 + 1)]
    split_ifs <;> omega

/-- Blanks are skipped first. -/
theorem triviaLength_blanks (text : List Char) :
    triviaLength false 0 text =
      (text.takeWhile isBlank).length + triviaLength false 0 (text.dropWhile isBlank) := by
  induction text with
  | nil => rfl
  | cons c rest ih =>
    by_cases hblank : isBlank c = true
    · rw [triviaLength, if_neg Bool.false_ne_true, if_pos hblank, triviaLength_eq_add, ih,
        List.takeWhile_cons_of_pos hblank, List.dropWhile_cons_of_pos hblank, List.length_cons]
      omega
    · rw [List.takeWhile_cons_of_neg hblank, List.dropWhile_cons_of_neg hblank, List.length_nil,
        Nat.zero_add]

/-- Inside a comment, its line is skipped first. -/
theorem triviaLength_line (text : List Char) :
    triviaLength true 0 text =
      (text.takeWhile Span.inLine).length + triviaLength false 0 (text.dropWhile Span.inLine) := by
  induction text with
  | nil => rfl
  | cons c rest ih =>
    by_cases hline : Span.inLine c = true
    · rw [triviaLength, if_pos rfl, hline, triviaLength_eq_add, ih,
        List.takeWhile_cons_of_pos hline, List.dropWhile_cons_of_pos hline, List.length_cons]
      omega
    · -- the end of the line is a blank, whether it counts as part of the comment or not
      have hc : c = '\n' := by simpa [Span.inLine] using hline
      subst hc
      rw [List.takeWhile_cons_of_neg hline, List.dropWhile_cons_of_neg hline, List.length_nil,
        Nat.zero_add]
      rfl

/-- A comment is skipped, and then what is behind it. -/
theorem skipTrivia_of_comment {k : Cursor} {rest : List Char}
    (hk : k.skipBlanks.rest = ';' :: rest) :
    k.skipTrivia = (k.skipBlanks.skipWhile Span.inLine).skipTrivia := by
  have hsemicolon : triviaLength false 0 (';' :: rest) = 1 + triviaLength true 0 rest := by
    rw [triviaLength, if_neg Bool.false_ne_true, if_neg (by decide), if_pos rfl,
      triviaLength_eq_add]
  have hdrop : k.rest.dropWhile isBlank = ';' :: rest := by
    rw [← hk, skipBlanks, rest_skipWhile]
  have hline : k.skipBlanks.rest.takeWhile Span.inLine = ';' :: rest.takeWhile Span.inLine := by
    rw [hk, List.takeWhile_cons_of_pos (by decide)]
  have hbehind : (k.skipBlanks.skipWhile Span.inLine).rest = rest.dropWhile Span.inLine := by
    rw [rest_skipWhile, hk, List.dropWhile_cons_of_pos (by decide)]
  rw [skipTrivia, skipTrivia, hbehind, triviaLength_blanks, hdrop, hsemicolon, triviaLength_line,
    skipWhile, hline, skipBlanks, skipWhile, advance_advance, advance_advance, List.length_cons]
  congr 1
  omega

end Cursor

/-! ## Passes -/

/-- One pass of the scanner's loop.  Where a collection is open, a comment is a pass of its own;
everything else is a turn. -/
def pass (g : Grammar) (maxDepth : Nat) (frames : List Frame) (k : Cursor) : Turn :=
  match frames, k.skipBlanks.rest with
  | frame :: outer, ';' :: _ => .going (frame :: outer) (k.skipBlanks.skipWhile Span.inLine)
  | frames, _ => turn g maxDepth frames k

section Passes

variable {g : Grammar} {maxDepth : Nat} {frames inner : List Frame} {k next : Cursor}

/-- A pass that goes on consumes some of the text. -/
theorem pass_consumes (h : pass g maxDepth frames k = .going inner next) : k.Consumes next := by
  unfold pass at h
  split at h
  · next frame outer rest hcomment =>
    cases h
    have hreach : k.Reaches (k.skipBlanks.skipWhile Span.inLine) :=
      (Cursor.reaches_skipWhile _ k).trans (Cursor.reaches_skipWhile _ _)
    refine hreach.consumes ?_
    have hblanks : k.skipBlanks.rest.length ≤ k.rest.length := Cursor.length_rest_advance_le _ _
    have hline : (rest.dropWhile Span.inLine).length ≤ rest.length :=
      (List.dropWhile_suffix _).length_le
    rw [Cursor.rest_skipWhile, hcomment, List.dropWhile_cons_of_pos (by decide)]
    rw [hcomment, List.length_cons] at hblanks
    omega
  · next frames _ _ _ =>
    have hreach := turn_reaches g maxDepth frames k
    rw [h] at hreach
    exact hreach.consumes (turn_shortens h)

/-- Scanning takes one pass and goes on. -/
theorem scanFrom_eq_pass (g : Grammar) (maxDepth : Nat) (frames : List Frame) (k : Cursor) :
    scanFrom g maxDepth frames k = (pass g maxDepth frames k).finish g maxDepth := by
  unfold pass
  split
  · next frame outer rest hcomment =>
    rw [Turn.finish, scanFrom_eq_finish, scanFrom_eq_finish, turn, turn,
      Cursor.skipTrivia_of_comment hcomment]
  · exact scanFrom_eq_finish _ k

/-- A token that is not the end of the text consumes some of it. -/
theorem nextToken_consumes {limits : Limits} {token : Token}
    (h : nextToken g limits k = .ok token next) (hend : token.kind.isEnd = false) :
    k.Consumes next := by
  have hreach := nextToken_reaches g limits k
  rw [h] at hreach
  exact hreach.consumes (nextToken_shortens h hend)

end Passes

/-! ## Loops -/

/-- Runs a loop for a number of rounds at most; none if it has not ended by then.  A round ends the
loop with a result, or goes on with a state. -/
def runWithin {State Result : Type} (round : State → Result ⊕ State) :
    (rounds : Nat) → State → Option Result
  | 0, _ => none
  | rounds + 1, state =>
    match round state with
    | .inl result => some result
    | .inr next => runWithin round rounds next

/-- A loop in which every round that goes on takes something away ends before nothing is left. -/
theorem runWithin_eq {State Result : Type} {round : State → Result ⊕ State}
    (run : State → Result) (size : State → Nat)
    (hrun : ∀ state, run state = (round state).elim id run)
    (hsize : ∀ state next, round state = .inr next → size next < size state)
    {rounds : Nat} {state : State} (h : size state < rounds) :
    runWithin round rounds state = some (run state) := by
  induction rounds generalizing state with
  | zero => exact absurd h (Nat.not_lt_zero _)
  | succ rounds ih =>
    rw [runWithin, hrun]
    cases hround : round state with
    | inl result => rfl
    | inr next =>
      have := hsize state next hround
      exact ih (by omega)

/-- The scanner's loop: the open collections and the cursor, pass by pass. -/
def scanRound (g : Grammar) (maxDepth : Nat) (state : List Frame × Cursor) :
    Outcome Element ⊕ (List Frame × Cursor) :=
  match pass g maxDepth state.1 state.2 with
  | .finished outcome => .inl outcome
  | .going inner next => .inr (inner, next)

/-- The loop that lists the tokens of a text.  Those that have been read come last first. -/
def tokensRound (g : Grammar) (limits : Limits) (state : List Token × Cursor) :
    Except Misread (List Token) ⊕ (List Token × Cursor) :=
  match nextToken g limits state.2 with
  | ⟨.error m, _⟩ => .inl (.error m)
  | ⟨.ok token, next⟩ =>
    if token.kind.isEnd then .inl (.ok (token :: state.1).reverse)
    else .inr (token :: state.1, next)

/-- The loop that looks for the values of a text.  Those that have been found come last first. -/
def Reader.valuesRound (r : Reader) (state : List (Element × Span) × Cursor) :
    Except Misread (List (Element × Span) × Span) ⊕ (List (Element × Span) × Cursor) :=
  match nextToken r.grammar r.limits state.2 with
  | ⟨.error m, _⟩ => .inl (.error m)
  | ⟨.ok token, next⟩ =>
    match token.kind with
    | .endOfInput => .inl (.ok (state.1.reverse, token.span))
    | .close closer =>
      .inl (.error (.fault token.span ("unexpected end token: " ++ quoted closer)))
    | .comment _ => .inr (state.1, next)
    | .value value => .inr ((value, token.span) :: state.1, next)

/-- Reads a text that holds exactly one value, but asks for a number of tokens at most; none if that
is not enough. -/
def Reader.parseWithin (r : Reader) (tokens : Nat) (source : String) :
    Option (Except Error Element) :=
  match r.lengthError? source with
  | some error => some (.error error)
  | none =>
    (runWithin r.valuesRound tokens ([], .start source.toList)).map fun found =>
      ((found >>= fun values => onlyValue values.1 values.2).mapError
        (·.located source.toList)).map Prod.fst

section Loops

/-- Scanning ends within as many passes as there are bytes ahead, and one more. -/
theorem runWithin_scanRound (g : Grammar) (maxDepth : Nat) (frames : List Frame) (k : Cursor) :
    runWithin (scanRound g maxDepth) (byteLength k.rest + 1) (frames, k) =
      some (scanFrom g maxDepth frames k) := by
  refine runWithin_eq (fun state : List Frame × Cursor => scanFrom g maxDepth state.1 state.2)
    (fun state => byteLength state.2.rest) ?_ ?_ (Nat.lt_succ_self _)
  · intro state
    rw [scanFrom_eq_pass, scanRound]
    cases pass g maxDepth state.1 state.2 <;> rfl
  · intro state next hround
    unfold scanRound at hround
    split at hround
    · cases hround
    · next hpass =>
      cases hround
      exact (pass_consumes hpass).byteLength_lt

/-- As many tokens are asked for as there are bytes ahead at most, and one more. -/
theorem runWithin_tokensRound (g : Grammar) (limits : Limits) (read : List Token) (k : Cursor) :
    runWithin (tokensRound g limits) (byteLength k.rest + 1) (read, k) =
      some (((tokensFrom g limits 0 k).mapM id).map (read.reverse ++ ·)) := by
  refine runWithin_eq
    (fun state : List Token × Cursor =>
      ((tokensFrom g limits 0 state.2).mapM id).map (state.1.reverse ++ ·))
    (fun state => byteLength state.2.rest) ?_ ?_ (Nat.lt_succ_self _)
  · intro state
    rw [mapM_tokensFrom, tokensRound]
    obtain ⟨result, next⟩ := nextToken g limits state.2
    cases result with
    | error m => rfl
    | ok token =>
      dsimp only
      split
      · simp [Except.map]
      · rw [Sum.elim_inr]
        cases (tokensFrom g limits 0 next).mapM id <;> simp [Except.map]
  · intro state next hround
    unfold tokensRound at hround
    split at hround
    · cases hround
    · next htoken =>
      split at hround
      · cases hround
      · next hend =>
        cases hround
        exact (nextToken_consumes htoken (by simpa using hend)).byteLength_lt

/-- So it is where the values of a text are looked for. -/
theorem runWithin_valuesRound (r : Reader) (read : List (Element × Span)) (k : Cursor) :
    runWithin r.valuesRound (byteLength k.rest + 1) (read, k) = some (r.valuesFrom read k) := by
  refine runWithin_eq (fun state : List (Element × Span) × Cursor => r.valuesFrom state.1 state.2)
    (fun state => byteLength state.2.rest) ?_ ?_ (Nat.lt_succ_self _)
  · intro state
    rw [Reader.valuesFrom_eq, Reader.valuesRound]
    obtain ⟨result, next⟩ := nextToken r.grammar r.limits state.2
    cases result with
    | error m => rfl
    | ok token =>
      dsimp only
      cases token.kind <;> rfl
  · intro state next hround
    unfold Reader.valuesRound at hround
    split at hround
    · cases hround
    · next htoken =>
      split at hround
      · cases hround
      · cases hround
      · next hkind =>
        cases hround
        exact (nextToken_consumes htoken (by rw [hkind]; rfl)).byteLength_lt
      · next hkind =>
        cases hround
        exact (nextToken_consumes htoken (by rw [hkind]; rfl)).byteLength_lt

/-- As many tokens are asked for at most where a text is read. -/
theorem Reader.parseWithin_eq (r : Reader) (source : String) :
    r.parseWithin (source.utf8ByteSize + 1) source = some (r.parse source) := by
  unfold Reader.parseWithin Reader.parse Reader.readWithin
  cases r.lengthError? source with
  | some error => rfl
  | none =>
    have hvalues := runWithin_valuesRound r [] (.start source.toList)
    rw [Cursor.start, ← Grammar.utf8ByteSize_eq] at hvalues
    dsimp only
    rw [Cursor.start, hvalues]
    rfl

end Loops

/-! ## The result -/

/-- Collections with an empty delimiter are refused. -/
theorem Grammar.afterAdd_of_empty (g : Grammar) (engine : Engine) {opener closer : String}
    (h : opener = "" ∨ closer = "")
    (process : (tag : String) → (children : List Element) → Except Error Element) :
    g.afterAdd engine (.delimiters opener closer process) = g := by
  have hempty : ¬ (opener.toList ≠ [] ∧ closer.toList ≠ []) := by
    rcases h with rfl | rfl <;> simp
  rw [afterAdd, add, addDelimiters, dif_neg hempty]

/-- Reading ends under every grammar, whatever its patterns match, and whatever the limits are.
A grammar takes no empty delimiters, a pass of the scanner that goes on consumes some of the text,
and so does a token that is not its end.  A value takes as many passes as there are bytes ahead at
most, and one more; to list the tokens of a text, or to read it, takes as many tokens. -/
theorem reading_ends (g : Grammar) (limits : Limits) :
    (∀ engine opener closer process, opener = "" ∨ closer = "" →
        g.afterAdd engine (.delimiters opener closer process) = g) ∧
      (∀ frames inner k next, pass g limits.maxDepth frames k = .going inner next →
        k.Consumes next) ∧
      (∀ k token next, nextToken g limits k = .ok token next → token.kind.isEnd = false →
        k.Consumes next) ∧
      (∀ k : Cursor, runWithin (scanRound g limits.maxDepth) (byteLength k.rest + 1) ([], k) =
        some (scanValue g limits.maxDepth k)) ∧
      ∀ source : String,
        runWithin (tokensRound g limits) (source.utf8ByteSize + 1) ([], .start source.toList) =
            some (tokens g limits source) ∧
          Reader.parseWithin ⟨g, limits⟩ (source.utf8ByteSize + 1) source =
            some (Reader.parse ⟨g, limits⟩ source) := by
  refine ⟨fun engine _ _ process h => g.afterAdd_of_empty engine h process,
    fun _ _ _ _ h => pass_consumes h, fun _ _ _ h hend => nextToken_consumes h hend,
    runWithin_scanRound g limits.maxDepth [],
    fun source => ⟨?_, Reader.parseWithin_eq _ source⟩⟩
  have htokens := runWithin_tokensRound g limits [] (.start source.toList)
  rw [Cursor.start, ← Grammar.utf8ByteSize_eq] at htokens
  rw [Cursor.start, htokens, tokens, Cursor.start]
  cases (tokensFrom g limits 0 _).mapM id <;> rfl

/-- A grammar with one rule, whose pattern takes the empty text as well. -/
def starGrammar : Grammar :=
  Grammar.empty.addAll .automata [.literal .symbol "x*" fun _ _ => .error (.invalidElement "no value")]

/-- A list that has just been opened. -/
def openFrame : Frame :=
  ⟨Grammar.collectionRule (.ordered .list), "", .point 0 1 1, []⟩

/-- With a pattern that takes nothing from a text, a comment is consumed in a collection and outside
of one. -/
theorem reading_ends_star :
    starGrammar.literals.map (·.matcher.matchEnd? ['y']) = [some 0] ∧
      starGrammar.afterAdd .automata (.delimiters "<" "" openFrame.rule.process) = starGrammar ∧
      (pass starGrammar Limits.standard.maxDepth [openFrame] (.start [';', '\n']) =
          .going [openFrame] ((Cursor.start [';', '\n']).advance 1) ∧
        (Cursor.start [';', '\n']).Consumes ((Cursor.start [';', '\n']).advance 1)) ∧
      (nextToken starGrammar .standard (.start [';', '\n']) =
          .ok ⟨.comment [';'], ⟨0, 1, 1, 1⟩⟩ ((Cursor.start [';', '\n']).advance 1) ∧
        (Cursor.start [';', '\n']).Consumes ((Cursor.start [';', '\n']).advance 1)) ∧
      Reader.parseWithin ⟨starGrammar, .standard⟩ ("y".utf8ByteSize + 1) "y" =
        some (Reader.parse ⟨starGrammar, .standard⟩ "y") := by
  obtain ⟨hrefused, hpass, htoken, -, hread⟩ := reading_ends starGrammar .standard
  refine ⟨by decide +kernel, hrefused .automata "<" "" openFrame.rule.process (.inr rfl), ⟨rfl, ?_⟩,
    ⟨rfl, ?_⟩, (hread "y").2⟩
  · exact hpass [openFrame] [openFrame] _ _ rfl
  · exact htoken _ _ _ rfl rfl

end Edn
