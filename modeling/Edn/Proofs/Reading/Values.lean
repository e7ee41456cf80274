import Edn.Proofs.Reading.Accepted
import Edn.Reading.Reader

/-!
# Texts that hold one value

A reader takes the tokens of a text one after the other, and wants exactly one
value among them.

* `Reader.parse_eq_ok_iff` says so of the values, and
  `Reader.exists_readsValue_of_parse` of what the recursion reads.
* `Reader.parse_token`: a text that is one token.
* `Reader.forall_of_parse`: what holds of every value that the scanner reads
  holds of the value of a text.
* `Reader.isPrintable_of_parse` and `Reader.parse_text` are the two halves of
  every round trip: what is read is printable, and the text of what is
  printable is read.
-/

namespace Edn

/-! ## Tokens -/

theorem tokenAt_eq_valueToken {limits : Limits} {k : Cursor} (h : StartsValue k.rest) :
    tokenAt Grammar.standard limits k = valueToken Grammar.standard limits k := by
  have hclose := closing?_eq_none_of_startsValue h
  obtain ⟨c, rest, hrest, hc⟩ := h
  have hcomment := (not_trivia_of_valueSet hc).2.2
  unfold tokenAt
  split
  · next hnil => simp [hrest] at hnil
  · next hsemicolon =>
    rw [hrest] at hsemicolon
    cases hsemicolon
    exact absurd rfl hcomment
  · rw [hclose]

/-- Where a value starts, the next token is that value. -/
theorem nextToken_eq_valueToken {limits : Limits} {k : Cursor} (hstart : StartsValue k.rest) :
    nextToken Grammar.standard limits k = valueToken Grammar.standard limits k := by
  have hskip : k.skipBlanks = k := by
    refine @Cursor.skipWhile_eq _ k [] k.rest rfl (List.forall_mem_nil _) ?_
    obtain ⟨c, more, heq, hc⟩ := hstart
    rw [heq]
    rintro d ⟨⟩
    exact (not_trivia_of_valueSet hc).2.1
  rw [nextToken, hskip, tokenAt_eq_valueToken hstart]

/-- A value that is read where a cursor stands is one token. -/
theorem nextToken_of_readsValue {limits : Limits} {k next : Cursor} {value : Element}
    (hstart : StartsValue k.rest)
    (h : ReadsValue Grammar.standard limits.maxDepth 0 k (.ok value next)) :
    nextToken Grammar.standard limits k = .ok ⟨.value value, next.spanFrom k.mark⟩ next := by
  rw [nextToken_eq_valueToken hstart, valueToken, h.scanValue_eq]
  rfl

/-- A literal without a tag is the value where it stands, if a rule is selected for it and makes a
value of it. -/
theorem readsValue_literal {maxDepth depth : Nat} {k : Cursor} {text rest : List Char}
    {rule : LiteralRule} {value : Element} (hk : k.rest = text ++ rest)
    (hmatch : Grammar.standard.longestMatch? (text ++ rest) = some (rule, text.length))
    (hprocess : rule.process "" (String.ofList text) = .ok value) :
    StartsValue k.rest ∧
      ReadsValue Grammar.standard maxDepth depth k (.ok value (k.advance text.length)) := by
  have hstart : StartsLiteral k.rest := hk ▸ startsLiteral_of_longestMatch? hmatch
  -- there is no tag to detach in front of a literal
  have htag : readTag Grammar.standard k = .ok "" k :=
    @readTag_tagText "" rfl k k.rest (.inl hstart) rfl
  refine ⟨StartsPayload.startsValue (.inl hstart), ?_⟩
  exact readLiteral_eq hk hmatch hprocess ▸ .literal htag hstart.opening?_eq_none

/-- A value that is a token was read by the scanner behind the blanks. -/
theorem scanValue_of_nextToken {g : Grammar} {limits : Limits} {k next : Cursor} {token : Token}
    {value : Element} (h : nextToken g limits k = .ok token next)
    (hkind : token.kind = .value value) :
    scanValue g limits.maxDepth k.skipBlanks = .ok value next := by
  unfold nextToken tokenAt at h
  split at h
  · cases h
    cases hkind
  · cases h
    cases hkind
  · split at h
    · cases h
      cases hkind
    · unfold valueToken at h
      split at h
      · cases h
      · next hscan =>
        cases h
        cases hkind
        exact hscan

/-- Behind the last blank is the end of the text. -/
theorem nextToken_of_blanks {g : Grammar} {limits : Limits} {k : Cursor}
    (h : ∀ c ∈ k.rest, Cursor.isBlank c = true) :
    nextToken g limits k = .ok ⟨.endOfInput, (k.skipBlanks).mark⟩ k.skipBlanks := by
  have hskip : k.skipBlanks = k.advance k.rest.length :=
    @Cursor.skipWhile_eq _ k k.rest [] (List.append_nil _).symm h (by simp)
  have hrest : k.skipBlanks.rest = [] := by
    rw [hskip, Cursor.rest_advance, List.drop_length]
  rw [nextToken, tokenAt, hrest]

namespace Reader

variable {r : Reader} {read : List (Element × Span)} {k next : Cursor} {token : Token}

/-! ## Values -/

/-- Reading the values of a text looks at the first token, and goes on. -/
theorem valuesFrom_eq (r : Reader) (read : List (Element × Span)) (k : Cursor) :
    r.valuesFrom read k =
      match nextToken r.grammar r.limits k with
      | ⟨.error m, _⟩ => .error m
      | ⟨.ok token, next⟩ =>
        match token.kind with
        | .endOfInput => .ok (read.reverse, token.span)
        | .close closer => .error (.fault token.span ("unexpected end token: " ++ quoted closer))
        | .comment _ => r.valuesFrom read next
        | .value value => r.valuesFrom ((value, token.span) :: read) next := by
  rw [valuesFrom]
  split
  · next heq => rw [heq]
  · next heq =>
    rw [heq]
    dsimp only
    split <;> (next hkind => rw [hkind])

theorem valuesFrom_of_end (h : nextToken r.grammar r.limits k = .ok token next)
    (hkind : token.kind = .endOfInput) :
    r.valuesFrom read k = .ok (read.reverse, token.span) := by
  rw [valuesFrom_eq, h, Outcome.ok]
  dsimp only
  rw [hkind]

theorem valuesFrom_of_value {value : Element} (h : nextToken r.grammar r.limits k = .ok token next)
    (hkind : token.kind = .value value) :
    r.valuesFrom read k = r.valuesFrom ((value, token.span) :: read) next := by
  rw [valuesFrom_eq, h, Outcome.ok]
  dsimp only
  rw [hkind]

theorem valuesFrom_of_error {m : Misread} (h : nextToken r.grammar r.limits k = .error m next) :
    r.valuesFrom read k = .error m := by
  rw [valuesFrom_eq, h, Outcome.error]

/-- What has been read stands in front of the other values of the text. -/
theorem reverse_prefix_of_valuesFrom {values : List (Element × Span)} {stop : Span}
    (h : r.valuesFrom read k = .ok (values, stop)) : read.reverse <+: values := by
  fun_induction valuesFrom r read k with
  | case1 => cases h
  | case2 =>
    cases h
    exact List.prefix_rfl
  | case3 => cases h
  | case4 read k token next htoken text hkind ih => exact ih h
  | case5 read k token next htoken value hkind ih =>
    have hread := ih h
    rw [List.reverse_cons] at hread
    exact (List.prefix_append _ _).trans hread

/-- What holds of every value that the scanner reads holds of the values of a text. -/
theorem forall_of_valuesFrom {p : Element → Prop}
    (hscan : ∀ (k next : Cursor) (value : Element),
      scanValue r.grammar r.limits.maxDepth k = .ok value next → p value)
    {values : List (Element × Span)} {stop : Span} (hread : ∀ item ∈ read, p item.1)
    (h : r.valuesFrom read k = .ok (values, stop)) : ∀ item ∈ values, p item.1 := by
  fun_induction valuesFrom r read k with
  | case1 => cases h
  | case2 =>
    cases h
    simpa using hread
  | case3 => cases h
  | case4 read k token next htoken text hkind ih => exact ih hread h
  | case5 read k token next htoken value hkind ih =>
    have hvalue := hscan _ next value (scanValue_of_nextToken htoken hkind)
    exact ih (List.forall_mem_cons.2 ⟨hvalue, hread⟩) h

/-- Where a value starts, it is read, and stands among the values of the text. -/
theorem exists_readsValue_of_valuesFrom {values : List (Element × Span)} {stop : Span}
    (hgrammar : r.grammar = .standard) (hk : StartsValue k.rest)
    (h : r.valuesFrom read k = .ok (values, stop)) :
    ∃ value next span, ReadsValue .standard r.limits.maxDepth 0 k (.ok value next) ∧
      r.valuesFrom ((value, span) :: read) next = .ok (values, stop) := by
  have htoken := @nextToken_eq_valueToken r.limits k hk
  have hread := @readsValue_scanValue .standard r.limits.maxDepth k
  rw [valueToken] at htoken
  cases hscan : scanValue .standard r.limits.maxDepth k with
  | mk result next =>
    rw [hscan, ← hgrammar] at htoken
    cases result with
    | error m =>
      rw [valuesFrom_of_error htoken] at h
      cases h
    | ok value =>
      rw [valuesFrom_of_value htoken rfl] at h
      rw [hscan] at hread
      exact ⟨value, next, _, hread, h⟩

/-! ## The value of a text -/

theorem lengthError?_eq_none_iff {source : String} :
    r.lengthError? source = none ↔ ∀ limit ∈ r.limits.maxLength, source.utf8ByteSize ≤ limit := by
  unfold lengthError?
  cases r.limits.maxLength with
  | none => simp
  | some limit => simp

/-- A text that is not too long has the value that is found in it. -/
theorem parse_eq {source : String} (hlength : r.lengthError? source = none) :
    r.parse source =
      ((r.readOne source).mapError fun m => m.located source.toList).map Prod.fst := by
  rw [parse, readWithin, hlength]

/-- A text that is read is not too long. -/
theorem lengthError?_of_parse {source : String} {e : Element} (h : r.parse source = .ok e) :
    r.lengthError? source = none := by
  rw [parse, readWithin] at h
  split at h
  · cases h
  · assumption

/-- The only value of a text is all its values. -/
theorem eq_of_onlyValue {values : List (Element × Span)} {stop : Span} {found : Element × Span}
    (h : onlyValue values stop = .ok found) : values = [found] := by
  unfold onlyValue at h
  split at h
  · cases h
    rfl
  · cases h
  · cases h

/-- The grammar of the reader of the notation.  Unfolding the reader alone keeps the rules folded. -/
theorem standard_grammar : standard.grammar = .standard := by
  rw [standard]

/-- The value of a text that is not too long is the only one among its tokens. -/
theorem parse_eq_ok_iff {source : String} {e : Element} :
    r.parse source = .ok e ↔ r.lengthError? source = none ∧
      ∃ span stop, r.valuesFrom [] (.start source.toList) = .ok ([(e, span)], stop) := by
  constructor
  · intro h
    have hlength := lengthError?_of_parse h
    refine ⟨hlength, ?_⟩
    rw [parse_eq hlength] at h
    obtain ⟨found, hone, rfl⟩ := exists_of_map h
    obtain ⟨⟨values, stop⟩, hvalues, honly⟩ := exists_of_bind (eq_ok_of_mapError hone)
    exact ⟨found.2, stop, by rw [hvalues, eq_of_onlyValue honly]⟩
  · rintro ⟨hlength, span, stop, hvalues⟩
    rw [parse_eq hlength, readOne, hvalues]
    rfl

/-- What holds of every value that the scanner reads holds of the value of a text. -/
theorem forall_of_parse {p : Element → Prop}
    (hscan : ∀ (k next : Cursor) (value : Element),
      scanValue r.grammar r.limits.maxDepth k = .ok value next → p value)
    {source : String} {e : Element} (h : r.parse source = .ok e) : p e := by
  obtain ⟨-, span, stop, hvalues⟩ := parse_eq_ok_iff.1 h
  exact forall_of_valuesFrom hscan (List.forall_mem_nil _) hvalues _ List.mem_cons_self

/-- A value that is read up to the blanks at the end of a text is the value of the text. -/
theorem parse_of_readsValue {source : String} {value : Element}
    (hgrammar : r.grammar = .standard) (hstart : StartsValue source.toList)
    (h : ReadsValue .standard r.limits.maxDepth 0 (.start source.toList) (.ok value next))
    (hnext : ∀ c ∈ next.rest, Cursor.isBlank c = true) (hlength : r.lengthError? source = none) :
    r.parse source = .ok value := by
  have hfirst := nextToken_of_readsValue (k := .start source.toList) hstart h
  rw [← hgrammar] at hfirst
  have hsecond := @nextToken_of_blanks r.grammar r.limits _ hnext
  have hvalues :=
    (@valuesFrom_of_value r [] _ _ _ _ hfirst rfl).trans (valuesFrom_of_end hsecond rfl)
  exact parse_eq_ok_iff.2 ⟨hlength, _, _, hvalues⟩

/-- The value of a text that starts like a value is read there, and no other one starts behind it. -/
theorem exists_readsValue_of_parse {source : String} {e : Element} (hgrammar : r.grammar = .standard)
    (hstart : StartsValue source.toList) (h : r.parse source = .ok e) :
    ∃ next : Cursor, ReadsValue .standard r.limits.maxDepth 0 (.start source.toList) (.ok e next) ∧
      ¬StartsValue next.rest := by
  obtain ⟨-, span, stop, hvalues⟩ := parse_eq_ok_iff.1 h
  obtain ⟨value, next, first, hread, hrest⟩ :=
    @exists_readsValue_of_valuesFrom r [] (.start source.toList) _ _ hgrammar hstart hvalues
  obtain ⟨rfl, -⟩ := Prod.mk.inj (List.cons.inj (List.prefix_iff_eq_take.1
    (reverse_prefix_of_valuesFrom hrest))).1
  refine ⟨next, hread, fun hnext => ?_⟩
  obtain ⟨value, last, second, -, hlast⟩ := exists_readsValue_of_valuesFrom hgrammar hnext hrest
  have hlength := (reverse_prefix_of_valuesFrom hlast).length_le
  simp at hlength

/-- A value that cannot be read is the error of the text that starts with it. -/
theorem parse_of_readsValue_error {source : String} {m : Misread} (hgrammar : r.grammar = .standard)
    (hstart : StartsValue source.toList)
    (h : ReadsValue .standard r.limits.maxDepth 0 (.start source.toList) (.error m next))
    (hlength : r.lengthError? source = none) :
    r.parse source = .error (m.located source.toList) := by
  have htoken : nextToken r.grammar r.limits (.start source.toList) = .error m next := by
    rw [hgrammar, nextToken_eq_valueToken hstart, valueToken, h.scanValue_eq]
    rfl
  rw [parse, readWithin, hlength, readOne, valuesFrom_of_error htoken]
  rfl

/-- A text that is one token is read by the rule of the token. -/
theorem parse_token {text : String} {rule : LiteralRule} {value : Element}
    (hgrammar : r.grammar = .standard)
    (hmatch : Grammar.standard.longestMatch? text.toList = some (rule, text.toList.length))
    (hprocess : rule.process "" text = .ok value) (hlength : r.lengthError? text = none) :
    r.parse text = .ok value := by
  have hk : (Cursor.start text.toList).rest = text.toList ++ [] := (List.append_nil _).symm
  obtain ⟨hstart, hread⟩ := @readsValue_literal r.limits.maxDepth 0 _ text.toList [] rule value hk
    ((congrArg _ (List.append_nil _)).trans hmatch) (by rwa [String.ofList_toList])
  refine parse_of_readsValue hgrammar hstart hread ?_ hlength
  rw [Cursor.rest_advance_of_eq hk]
  exact List.forall_mem_nil _

/-! ## Printable elements -/

/-- The value of a text is printable, and no deeper than the limit allows. -/
theorem isPrintable_of_parse (hgrammar : r.grammar = .standard) {source : String} {e : Element}
    (h : r.parse source = .ok e) :
    e.Everywhere Element.IsPrintable ∧ e.depth ≤ r.limits.maxDepth := by
  refine @forall_of_parse r
    (fun e => e.Everywhere Element.IsPrintable ∧ e.depth ≤ r.limits.maxDepth)
    (fun k next value hscan => ?_) source e h
  have hread := @readsValue_scanValue r.grammar r.limits.maxDepth k
  rw [hscan, hgrammar] at hread
  have hvalue := hread.isPrintable (Nat.zero_le _)
  rwa [Nat.zero_add] at hvalue

/-- A printable element is the value of its text as its text tells it, with any blanks behind it. -/
theorem parse_text {e : Element} (hgrammar : r.grammar = .standard)
    (h : e.Everywhere Element.IsPrintable) (hdepth : e.depth ≤ r.limits.maxDepth) {source : String}
    {blanks : List Char} (hsource : source.toList = e.chars ++ blanks)
    (hblanks : ∀ c ∈ blanks, Cursor.isBlank c = true) (hlength : r.lengthError? source = none) :
    r.parse source = .ok e.reread := by
  have hends : Grammar.EndsToken blanks := by
    cases blanks with
    | nil => exact Grammar.endsToken_nil
    | cons c blanks => exact endsToken_of_blank (hblanks c List.mem_cons_self) blanks
  have hk : (Cursor.start source.toList).rest = e.chars ++ blanks := hsource
  have hread := @readsBack r.limits.maxDepth e h 0 (by rwa [Nat.zero_add])
    (.start source.toList) blanks hk hends
  refine parse_of_readsValue hgrammar ?_ hread ?_ hlength
  · rw [hsource]
    exact startsValue_append h.here.startsValue blanks
  · rwa [Cursor.rest_advance_of_eq hk]

end Reader

end Edn
