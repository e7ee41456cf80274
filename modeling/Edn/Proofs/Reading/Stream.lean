import Edn.Proofs.Reading.Lines
import Edn.Proofs.Reading.Tiling

/-!
# Reading a text by its tokens

A reader asks for one token after the other.  What it makes of a text is told
by the tokens alone, up to the end of the text or the first error.

* `Reader.seen` are the tokens that are returned until then, and `tokenize` says
  how it ends.
* `Reader.Verdict` are the three ways in which the values of a text are read:
  a delimiter closes nothing, a token cannot be read, or the end is reached.
  `Reader.verdict_valuesFrom` is the induction along the tokens.
* `Reader.parse_told_by_tokens` is the result.
-/

namespace Edn

/-! ## Tokens -/

/-- Tells whether a token is a closing delimiter. -/
def Token.isClose (t : Token) : Bool :=
  match t.kind with
  | .close _ => true
  | _ => false

/-- The value of a token and its place, if the token is a value. -/
def Token.value? (t : Token) : Option (Element × Span) :=
  match t.kind with
  | .value value => some (value, t.span)
  | _ => none

/-- The last token stands at the end of the text. -/
theorem Tiles.covers_end {source before : List Char} {ts : List Token} (h : Tiles source before ts)
    {last : Token} (hlast : ts.getLast? = some last) : last.span.Covers source [] := by
  induction h with
  | last _ _ _ hspan =>
    cases hlast
    exact hspan
  | @cons _ _ _ _ token rest _ _ _ _ _ hrest ih =>
    cases rest with
    | nil => cases hrest
    | cons next others => exact ih (by rwa [List.getLast?_cons_cons] at hlast)

namespace Reader

/-- The tokens that are returned from a cursor on, up to the end of the text or the first error. -/
def seen (r : Reader) (k : Cursor) : List Token :=
  (tokensFrom r.grammar r.limits 0 k).filterMap Except.toOption

section Seen

variable {r : Reader} {k next : Cursor} {token : Token} {m : Misread}

theorem seen_of_error (h : nextToken r.grammar r.limits k = .error m next) : r.seen k = [] := by
  rw [seen, tokensFrom_eq, h]
  rfl

theorem seen_of_end (h : nextToken r.grammar r.limits k = .ok token next)
    (hend : token.kind.isEnd = true) : r.seen k = [token] := by
  rw [seen, tokensFrom_eq, h]
  dsimp only [Outcome.ok]
  rw [if_pos hend]
  rfl

theorem seen_of_token (h : nextToken r.grammar r.limits k = .ok token next)
    (hend : token.kind.isEnd = false) : r.seen k = token :: r.seen next := by
  rw [seen, tokensFrom_eq, h]
  dsimp only [Outcome.ok]
  rw [if_neg (by simp [hend])]
  rfl

end Seen

/-! ## Values -/

/-- How the values of a text are read from a cursor on, after those that have been read. -/
inductive Verdict (r : Reader) (read : List (Element × Span)) (k : Cursor) :
    Except Misread (List (Element × Span) × Span) → Prop where
  /-- The first closing delimiter is refused, if it comes before any error. -/
  | closes {closer : List Char} {span : Span}
      (hclose : (r.seen k).find? Token.isClose = some ⟨.close closer, span⟩) :
      Verdict r read k (.error (.fault span ("unexpected end token: " ++ quoted closer)))
  /-- Without a closing delimiter, the first error is that of the tokens. -/
  | fails {m : Misread} (hopen : (r.seen k).find? Token.isClose = none)
      (hfails : (tokensFrom r.grammar r.limits 0 k).mapM id = .error m) :
      Verdict r read k (.error m)
  /-- Without either, the values are those of the tokens. -/
  | ends {stop : Span} (hopen : (r.seen k).find? Token.isClose = none)
      (hends : (tokensFrom r.grammar r.limits 0 k).mapM id = .ok (r.seen k))
      (hlast : (r.seen k).getLast? = some ⟨.endOfInput, stop⟩) :
      Verdict r read k (.ok (read.reverse ++ (r.seen k).filterMap Token.value?, stop))

section Verdicts

variable {r : Reader} {read : List (Element × Span)} {k next : Cursor} {token : Token}
  {result : Except Misread (List (Element × Span) × Span)}

/-- A token that is neither a closing delimiter nor the end of the text passes the verdict on. -/
theorem Verdict.pass (htoken : nextToken r.grammar r.limits k = .ok token next)
    (hend : token.kind.isEnd = false) (hclose : token.isClose = false)
    (h : Verdict r (token.value?.toList ++ read) next result) : Verdict r read k result := by
  have hseen := seen_of_token htoken hend
  have hfind : (r.seen k).find? Token.isClose = (r.seen next).find? Token.isClose := by
    rw [hseen, List.find?_cons_of_neg (by simp [hclose])]
  have htokens : (tokensFrom r.grammar r.limits 0 k).mapM id =
      ((tokensFrom r.grammar r.limits 0 next).mapM id).map (token :: ·) := by
    rw [mapM_tokensFrom, htoken]
    dsimp only [Outcome.ok]
    rw [if_neg (by simp [hend])]
  cases h with
  | closes h => exact .closes (hfind.trans h)
  | fails hopen hfails => exact .fails (hfind.trans hopen) (by rw [htokens, hfails]; rfl)
  | ends hopen hends hlast =>
    have hvalues : read.reverse ++ (r.seen k).filterMap Token.value? =
        (token.value?.toList ++ read).reverse ++ (r.seen next).filterMap Token.value? := by
      rw [hseen, List.filterMap_cons]
      cases token.value? <;> simp
    rw [← hvalues]
    refine .ends (hfind.trans hopen) (by rw [htokens, hends, hseen]; rfl) ?_
    rw [hseen, List.getLast?_cons, hlast]
    rfl

/-- The values of a text are read in one of the three ways. -/
theorem verdict_valuesFrom (r : Reader) (read : List (Element × Span)) (k : Cursor) :
    Verdict r read k (r.valuesFrom read k) := by
  fun_induction valuesFrom r read k with
  | case1 read k m next htoken =>
    refine .fails (by rw [seen_of_error htoken]; rfl) ?_
    rw [mapM_tokensFrom, htoken]
  | case2 read k token next htoken hkind =>
    obtain ⟨kind, span⟩ := token
    obtain rfl : kind = .endOfInput := hkind
    have hseen := seen_of_end htoken rfl
    have hverdict : Verdict r read k
        (.ok (read.reverse ++ (r.seen k).filterMap Token.value?, span)) := by
      refine .ends (by rw [hseen]; rfl) ?_ (by rw [hseen]; rfl)
      rw [mapM_tokensFrom, htoken, hseen]
      rfl
    rwa [hseen, show [Token.mk .endOfInput span].filterMap Token.value? = [] from rfl,
      List.append_nil] at hverdict
  | case3 read k token next htoken closer hkind =>
    obtain ⟨kind, span⟩ := token
    obtain rfl : kind = .close closer := hkind
    refine .closes ?_
    rw [seen_of_token htoken rfl]
    exact List.find?_cons_of_pos rfl
  | case4 read k token next htoken text hkind ih =>
    obtain ⟨kind, span⟩ := token
    obtain rfl : kind = .comment text := hkind
    exact .pass htoken rfl rfl ih
  | case5 read k token next htoken value hkind ih =>
    obtain ⟨kind, span⟩ := token
    obtain rfl : kind = .value value := hkind
    exact .pass htoken rfl rfl ih

end Verdicts

/-! ## The value of a text -/

section Source

variable {r : Reader} {source : String}

/-- The values of a text among its tokens, with their places. -/
def valuesSeen (r : Reader) (source : String) : List (Element × Span) :=
  (r.seen (.start source.toList)).filterMap Token.value?

/-- A text with a closing delimiter that closes nothing is refused there. -/
theorem readOne_of_closes {closer : List Char} {span : Span}
    (hclose : (r.seen (.start source.toList)).find? Token.isClose = some ⟨.close closer, span⟩) :
    r.readOne source = .error (.fault span ("unexpected end token: " ++ quoted closer)) := by
  have hverdict := verdict_valuesFrom r [] (.start source.toList)
  rw [readOne]
  generalize r.valuesFrom [] (.start source.toList) = result at hverdict
  cases hverdict with
  | closes h =>
    cases hclose.symm.trans h
    rfl
  | fails hopen => cases hclose.symm.trans hopen
  | ends hopen => cases hclose.symm.trans hopen

/-- A text without such a delimiter whose tokens cannot be read has their error. -/
theorem readOne_of_fails {m : Misread}
    (hopen : (r.seen (.start source.toList)).find? Token.isClose = none)
    (hfails : tokens r.grammar r.limits source = .error m) : r.readOne source = .error m := by
  have hverdict := verdict_valuesFrom r [] (.start source.toList)
  rw [readOne]
  generalize r.valuesFrom [] (.start source.toList) = result at hverdict
  cases hverdict with
  | closes h => cases hopen.symm.trans h
  | fails _ h =>
    cases hfails.symm.trans h
    rfl
  | ends _ h => cases hfails.symm.trans h

/-- Every other text has the values that are among its tokens, and ends at the last of them. -/
theorem readOne_of_ends {all : List Token}
    (hopen : (r.seen (.start source.toList)).find? Token.isClose = none)
    (hends : tokens r.grammar r.limits source = .ok all) :
    ∃ stop : Span, stop.Covers source.toList [] ∧
      r.readOne source = onlyValue (r.valuesSeen source) stop := by
  have hverdict := verdict_valuesFrom r [] (.start source.toList)
  rw [readOne]
  generalize r.valuesFrom [] (.start source.toList) = result at hverdict
  cases hverdict with
  | closes h => cases hopen.symm.trans h
  | fails _ h => cases hends.symm.trans h
  | @ends stop _ h hlast =>
    have htiles := (tokensFrom_eq_ok_iff.1 h).tiles (Cursor.behind_start source.toList)
    exact ⟨stop, htiles.covers_end hlast, rfl⟩

/-- A value that is read is the only one among the tokens. -/
theorem valuesSeen_of_readOne {found : Element × Span} (h : r.readOne source = .ok found) :
    r.valuesSeen source = [found] := by
  have hverdict := verdict_valuesFrom r [] (.start source.toList)
  obtain ⟨⟨values, stop⟩, hvalues, honly⟩ := exists_of_bind h
  rw [hvalues] at hverdict
  cases hverdict
  exact eq_of_onlyValue honly

/-- The value of a text was read with its place. -/
theorem exists_readWithin_of_parse {e : Element} (h : r.parse source = .ok e) :
    ∃ span, r.readWithin source = .ok (e, span) ∧ r.valuesSeen source = [(e, span)] := by
  obtain ⟨⟨value, span⟩, hread, rfl⟩ := exists_of_map h
  exact ⟨span, hread, valuesSeen_of_readOne (readOne_of_readWithin hread)⟩

/-- A collection is read where a value is read, and a value that is none is refused at its place. -/
theorem parseCollection_of_readWithin {e : Element} {span : Span}
    (h : r.readWithin source = .ok (e, span)) : r.parseCollection source =
      if e.isCollection then .ok e
      else .error ((Misread.fault span ("expected a collection, got " ++ e.type.name)).located
        source.toList) := by
  rw [parseCollection, h]
  rfl

theorem parseCollection_of_parse_error {error : Error} (h : r.parse source = .error error) :
    r.parseCollection source = .error error := by
  rw [parse] at h
  rw [parseCollection]
  cases hread : r.readWithin source with
  | error other =>
    rw [hread] at h
    exact h
  | ok found =>
    rw [hread] at h
    cases h

theorem parseCollection_eq_ok_iff {e : Element} :
    r.parseCollection source = .ok e ↔ r.parse source = .ok e ∧ e.isCollection = true := by
  cases hparse : r.parse source with
  | error error =>
    rw [parseCollection_of_parse_error hparse]
    simp
  | ok value =>
    obtain ⟨span, hread, -⟩ := exists_readWithin_of_parse hparse
    rw [parseCollection_of_readWithin hread, Except.ok.injEq]
    cases hvalue : value.isCollection with
    | true => exact ⟨fun h => ⟨Except.ok.inj h, Except.ok.inj h ▸ hvalue⟩, fun h => congrArg _ h.1⟩
    | false => exact iff_of_false nofun fun h => absurd h.2 (h.1 ▸ by simp [hvalue])

/-- What is made of a text that is not too long is told by its tokens, up to its end or the first
error.  The first closing delimiter among them is refused.  If there is none, the error of the tokens
is the error of the text.  If there is no error either, the text has the value of the only token that
is a value; otherwise the second value is at fault, or the end of the text.  A collection is read
where the value of the text is one, and where it is not, the token of the value is at fault. -/
theorem parse_told_by_tokens
    (hlength : ∀ limit ∈ r.limits.maxLength, source.utf8ByteSize ≤ limit) :
    let seen := r.seen (.start source.toList)
    let values := r.valuesSeen source
    let refused : Span → String → Except Error Element :=
      fun span details => .error ((Misread.fault span details).located source.toList)
    (∀ closer span, seen.find? Token.isClose = some ⟨.close closer, span⟩ →
      r.parse source = refused span ("unexpected end token: " ++ quoted closer)) ∧
    (seen.find? Token.isClose = none →
      (∀ error, tokenize r.grammar r.limits source = .error error →
        r.parse source = .error error) ∧
      ∀ all, tokenize r.grammar r.limits source = .ok all →
        (∀ e, r.parse source = .ok e ↔ ∃ span, values = [(e, span)]) ∧
        (∀ first second rest, values = first :: second :: rest →
          r.parse source = refused second.2 s!"expected one result, got: {values.length}") ∧
        (values = [] → ∃ stop : Span, stop.Covers source.toList [] ∧
          r.parse source = refused stop "expected one result, got: 0")) ∧
    (∀ e, r.parseCollection source = .ok e ↔ r.parse source = .ok e ∧ e.isCollection = true) ∧
    (∀ error, r.parse source = .error error → r.parseCollection source = .error error) ∧
    ∀ e, r.parse source = .ok e → e.isCollection = false →
      ∃ span, values = [(e, span)] ∧
        r.parseCollection source = refused span ("expected a collection, got " ++ e.type.name) := by
  intro seen values refused
  have hread := parse_eq (lengthError?_eq_none_iff.2 hlength)
  refine ⟨fun closer span hclose => ?_, fun hopen => ⟨fun error herror => ?_, fun all hends => ?_⟩, ?_⟩
  · rw [hread, readOne_of_closes hclose]
    rfl
  · obtain ⟨m, hfails, rfl⟩ := tokenize_eq_error_iff.1 herror
    rw [hread, readOne_of_fails hopen hfails]
    rfl
  · obtain ⟨stop, hstop, hone⟩ := readOne_of_ends hopen (tokenize_eq_ok_iff.1 hends)
    refine ⟨fun e => ⟨fun h => ?_, ?_⟩, ?_, ?_⟩
    · obtain ⟨span, -, hvalues⟩ := exists_readWithin_of_parse h
      exact ⟨span, hvalues⟩
    · rintro ⟨span, hvalues⟩
      rw [hread, hone, show r.valuesSeen source = _ from hvalues]
      rfl
    · intro first second rest hvalues
      rw [hread, hone, show r.valuesSeen source = _ from hvalues, hvalues]
      rfl
    · intro hvalues
      rw [hread, hone, show r.valuesSeen source = _ from hvalues]
      exact ⟨stop, hstop, rfl⟩
  · refine ⟨fun e => parseCollection_eq_ok_iff, fun error => parseCollection_of_parse_error, ?_⟩
    intro e h hscalar
    obtain ⟨span, hspan, hvalues⟩ := exists_readWithin_of_parse h
    refine ⟨span, hvalues, ?_⟩
    rw [parseCollection_of_readWithin hspan, if_neg (by simp [hscalar])]

/-- A comment, and on the next line a delimiter that closes nothing. -/
theorem parse_told_by_tokens_closer :
    (∀ limit ∈ Limits.strict.maxLength, ";\n)".utf8ByteSize ≤ limit) ∧
      (within .strict).parse ";\n)" =
        .error (.ofCause (.syntaxFault "unexpected end token: ')'" 2 1 ")")) := by
  have hlength : ∀ limit ∈ Limits.strict.maxLength, ";\n)".utf8ByteSize ≤ limit := by
    rintro _ ⟨⟩
    decide
  obtain ⟨hclose, -⟩ := @parse_told_by_tokens (within .strict) ";\n)" hlength
  have hcomment : nextToken .standard .strict (.start [';', '\n', ')']) =
      .ok ⟨.comment [';'], ⟨0, 1, 1, 1⟩⟩ ⟨['\n', ')'], 1, 1, 2⟩ := rfl
  have hcloser : nextToken .standard .strict ⟨['\n', ')'], 1, 1, 2⟩ =
      .ok ⟨.close [')'], ⟨2, 3, 2, 1⟩⟩ ⟨[], 3, 2, 2⟩ := rfl
  have hseen := seen_of_token (r := within .strict) hcomment rfl
  have hseen' := seen_of_token (r := within .strict) hcloser rfl
  refine ⟨hlength, hclose [')'] ⟨2, 3, 2, 1⟩ ?_⟩
  show ((within .strict).seen (.start [';', '\n', ')'])).find? Token.isClose = _
  rw [hseen, hseen']
  rfl

end Source

end Reader

end Edn
