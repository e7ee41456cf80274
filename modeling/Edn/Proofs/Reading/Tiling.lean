import Edn.Proofs.Reading.Locality
import Edn.Proofs.Reading.Values

/-!
# Tokens tile a text

The tokens of a text stand one behind the other, with nothing but blanks
between them, and each is a token on its own.

* `ReadsTokens` are the runs of the reader of tokens.  Each step is one token,
  and `tokensFrom_eq_ok_iff` says that there are no other runs that succeed.
* `Tiles` says how tokens cover a text.  `ReadsTokens.tiles` derives it by
  induction on the run, from the place of each token.
* `readsAs_of_nextToken`: the text of a token that is a value is read as this
  value wherever it stands.
* `tokens_tile` is the result.
-/

namespace Edn

open Grammar (standard)

/-! ## Runs -/

/-- Tokens are read one after the other, up to the end of the text. -/
inductive ReadsTokens (g : Grammar) (limits : Limits) : Cursor → List Token → Prop where
  | last {k next : Cursor} {token : Token} (htoken : nextToken g limits k = .ok token next)
      (hend : token.kind.isEnd = true) : ReadsTokens g limits k [token]
  | cons {k next : Cursor} {token : Token} {rest : List Token}
      (htoken : nextToken g limits k = .ok token next) (hend : token.kind.isEnd = false)
      (hrest : ReadsTokens g limits next rest) : ReadsTokens g limits k (token :: rest)

section Runs

variable {g : Grammar} {limits : Limits} {k next : Cursor} {token : Token} {ts : List Token}

/-- Reading tokens up to the first error takes one token and goes on. -/
theorem tokensFrom_eq (g : Grammar) (limits : Limits) (k : Cursor) :
    tokensFrom g limits 0 k =
      match nextToken g limits k with
      | ⟨.error m, _⟩ => [.error m]
      | ⟨.ok token, next⟩ =>
        if token.kind.isEnd then [.ok token] else .ok token :: tokensFrom g limits 0 next := by
  rw [tokensFrom]
  split
  · next heq => rw [heq, dite_eq_ite]
  · next heq => rw [heq]

/-- Reading tokens until one fails takes one token and goes on. -/
theorem mapM_tokensFrom (g : Grammar) (limits : Limits) (k : Cursor) :
    (tokensFrom g limits 0 k).mapM id =
      match nextToken g limits k with
      | ⟨.error m, _⟩ => .error m
      | ⟨.ok token, next⟩ =>
        if token.kind.isEnd then .ok [token]
        else ((tokensFrom g limits 0 next).mapM id).map (token :: ·) := by
  rw [tokensFrom_eq]
  obtain ⟨result, next⟩ := nextToken g limits k
  cases result with
  | error m => rfl
  | ok token =>
    dsimp only
    split
    · rfl
    · rw [List.mapM_cons]
      cases (tokensFrom g limits 0 next).mapM id <;> rfl

/-- Reading all tokens succeeds exactly by a run. -/
theorem tokensFrom_eq_ok_iff :
    (tokensFrom g limits 0 k).mapM id = .ok ts ↔ ReadsTokens g limits k ts := by
  constructor
  · induction hn : k.rest.length using Nat.strongRecOn generalizing k ts with
    | ind n ih =>
      subst hn
      intro h
      rw [mapM_tokensFrom] at h
      split at h
      · cases h
      · next token next htoken =>
        split at h
        · next hend =>
          cases h
          exact .last htoken hend
        · next hend =>
          have hend : token.kind.isEnd = false := by simpa using hend
          obtain ⟨rest, hrest, rfl⟩ := exists_of_map h
          exact .cons htoken hend (ih _ (nextToken_shortens htoken hend) rfl hrest)
  · intro h
    induction h with
    | last htoken hend =>
      rw [mapM_tokensFrom, htoken, Outcome.ok]
      dsimp only
      rw [if_pos hend]
    | cons htoken hend _ ih =>
      rw [mapM_tokensFrom, htoken, Outcome.ok]
      dsimp only
      rw [if_neg (by simp [hend]), ih]
      rfl

/-- A run from the start of a text reads its tokens. -/
theorem tokens_of_run {text : List Char} (h : ReadsTokens g limits (.start text) ts) :
    tokens g limits (String.ofList text) = .ok ts := by
  rw [tokens, String.toList_ofList]
  exact tokensFrom_eq_ok_iff.2 h

end Runs

/-! ## Tilings -/

/-- Behind a part of the text, tokens cover the rest of it one behind the other.  Blanks stand between
them, only the token that ends the text is empty, and it stands at the end. -/
inductive Tiles (source : List Char) : (before : List Char) → List Token → Prop where
  | last {before gap : List Char} {token : Token} (hsource : source = before ++ gap)
      (hgap : ∀ c ∈ gap, Cursor.isBlank c = true) (hkind : token.kind = .endOfInput)
      (hspan : token.span.Covers source []) : Tiles source before [token]
  | cons {before gap text after : List Char} {token : Token} {rest : List Token}
      (hsource : source = before ++ gap ++ text ++ after)
      (hgap : ∀ c ∈ gap, Cursor.isBlank c = true) (htext : text ≠ [])
      (hkind : token.kind.isEnd = false) (hspan : token.span.Covers (before ++ gap) text)
      (hrest : Tiles source (before ++ gap ++ text) rest) : Tiles source before (token :: rest)

theorem TokenKind.eq_endOfInput {kind : TokenKind} (h : kind.isEnd = true) :
    kind = .endOfInput := by
  cases kind <;> first | rfl | cases h

/-- Only the token that ends the text may be empty. -/
theorem TokenKind.Tells.ne_nil {text after : List Char} {kind : TokenKind}
    (h : kind.Tells text after) (hend : kind.isEnd = false) : text ≠ [] := by
  cases kind with
  | value => exact h
  | close => exact h.2
  | comment => exact h.2
  | endOfInput => cases hend

/-- A run tiles the text behind its start. -/
theorem ReadsTokens.tiles {g : Grammar} {limits : Limits} {source before : List Char} {k : Cursor}
    {ts : List Token} (h : ReadsTokens g limits k ts) (hk : k.Behind source before) :
    Tiles source before ts := by
  induction h generalizing before with
  | last htoken hend =>
    obtain ⟨gap, text, -, -, hgap, hspan, htells, hnext⟩ := nextToken_place hk htoken
    have hkind := TokenKind.eq_endOfInput hend
    rw [hkind] at htells
    obtain ⟨rfl, hrest⟩ := htells
    have hsource := hnext.source_eq
    rw [hrest, List.append_nil, List.append_nil] at hsource
    rw [← hsource] at hspan
    exact .last hsource hgap hkind hspan
  | cons htoken hend _ ih =>
    obtain ⟨gap, text, -, -, hgap, hspan, htells, hnext⟩ := nextToken_place hk htoken
    exact .cons hnext.source_eq hgap (htells.ne_nil hend) hend hspan (ih hnext)

/-- The text between a place and the end is the tokens, each behind a gap. -/
theorem Tiles.exists_gaps {source before : List Char} {ts : List Token}
    (h : Tiles source before ts) :
    ∃ gaps : List (List Char), gaps.length = ts.length ∧
      (∀ gap ∈ gaps, ∀ c ∈ gap, Cursor.isBlank c = true) ∧
        source = before ++ (List.zipWith (fun gap token => gap ++ token.text source) gaps ts).flatten := by
  induction h with
  | @last before gap token hsource hgap hkind hspan =>
    have htext : token.text source = [] := by
      have htext := hspan.text_eq []
      rwa [List.append_nil, List.append_nil] at htext
    refine ⟨[gap], rfl, List.forall_mem_singleton.2 hgap, ?_⟩
    rw [List.zipWith_cons_cons, htext, hsource]
    simp
  | @cons before gap text after token rest hsource hgap htext hkind hspan hrest ih =>
    obtain ⟨gaps, hlength, hgaps, hall⟩ := ih
    have htext' : token.text source = text := by
      rw [hsource]
      exact hspan.text_eq after
    refine ⟨gap :: gaps, congrArg Nat.succ hlength, List.forall_mem_cons.2 ⟨hgap, hgaps⟩, ?_⟩
    rw [List.zipWith_cons_cons, List.flatten_cons, htext', ← List.append_assoc, ← List.append_assoc]
    exact hall

/-! ## Values on their own -/

section Values

variable {limits : Limits} {k next : Cursor} {token : Token} {e : Element} {text : List Char}

/-- A value that is read starts like a value. -/
theorem ReadsValue.startsValue {maxDepth depth : Nat}
    (h : ReadsValue standard maxDepth depth k (.ok e next)) : StartsValue k.rest := by
  have htagged : ∀ {tag : String} {payload : Cursor}, readTag standard k = ⟨.ok tag, payload⟩ →
      StartsPayload payload.rest → StartsValue k.rest := by
    intro tag payload htag hpayload
    unfold readTag at htag
    split at htag
    · cases htag
      exact hpayload.startsValue
    · next length hlength =>
      obtain ⟨c, rest, hk, -, -⟩ := exists_of_tagLength? hlength
      exact ⟨'#', c :: rest, hk, by decide⟩
  generalize ho : Outcome.ok e next = o at h
  cases h with
  | badTag | tooDeep => cases ho
  | @literal _ _ payload tag htag hopen =>
    refine htagged htag (.inl ?_)
    cases hrest : payload.rest with
    | nil =>
      have hlt := readLiteral_takes ho.symm
      rw [hrest] at hlt
      cases hlt
    | cons c rest => exact ⟨c, rest, rfl, contains_literalSet_of_readLiteral ho.symm hrest⟩
  | @collection _ _ payload tag rule items htag hopen hdepth hitems =>
    obtain ⟨kind, rfl⟩ := exists_kind_of_opening? hopen
    obtain ⟨rest, hrest⟩ := Grammar.opener_prefix_of_opening? hopen
    exact htagged htag (.inr ⟨kind, rest, hrest.symm⟩)

/-- The text of a token that is a value is read as this value wherever it stands. -/
theorem readsAs_of_nextToken (h : nextToken standard limits k = .ok token next)
    (hkind : token.kind = .value e) (htext : k.skipBlanks.rest = text ++ next.rest) :
    StartsValue text ∧ ReadsAs limits.maxDepth 0 text e := by
  have hread := @readsValue_scanValue standard limits.maxDepth k.skipBlanks
  rw [scanValue_of_nextToken h hkind] at hread
  have hreads := hread.readsAs htext
  exact ⟨hreads.readsValue_start.startsValue, hreads⟩

/-- A text that is read as a value is one token. -/
theorem tokens_of_readsAs (hstart : StartsValue text) (h : ReadsAs limits.maxDepth 0 text e) :
    ∃ value last, tokens standard limits (String.ofList text) = .ok [value, last] ∧
      value.kind = .value e ∧ value.span.Covers [] text ∧ last.kind = .endOfInput := by
  have hread := h.readsValue_start
  have hrest : ((Cursor.start text).advance text.length).rest = [] :=
    Cursor.rest_advance_of_eq (List.append_nil _).symm
  have hvalue := @nextToken_of_readsValue limits (.start text) _ e hstart hread
  have hlast := @nextToken_of_blanks standard limits ((Cursor.start text).advance text.length)
    (by rw [hrest]; exact List.forall_mem_nil _)
  have hrun := ReadsTokens.cons hvalue rfl (.last hlast rfl)
  have hplace : ((Cursor.start text).advance text.length).Behind text ([] ++ text) :=
    (Cursor.behind_start text).advance (List.append_nil _).symm
  have hcovers : (((Cursor.start text).advance text.length).spanFrom (Cursor.start text).mark).Covers
      [] text := (Cursor.behind_start text).covers hplace
  exact ⟨_, _, tokens_of_run hrun, rfl, hcovers, rfl⟩

/-- Every token of a run that is a value is the only one of its text. -/
theorem ReadsTokens.tokens_text {source before : List Char} {ts : List Token}
    (h : ReadsTokens standard limits k ts) (hk : k.Behind source before) :
    ∀ token ∈ ts, ∀ e, token.kind = .value e → ∃ value last,
      tokens standard limits (String.ofList (token.text source)) = .ok [value, last] ∧
        value.kind = .value e ∧ value.span.Covers [] (token.text source) ∧
          last.kind = .endOfInput := by
  induction h generalizing before with
  | last htoken hend =>
    intro token htoken e hkind
    rw [List.mem_singleton.1 htoken] at hkind
    rw [TokenKind.eq_endOfInput hend] at hkind
    cases hkind
  | cons htoken hend _ ih =>
    obtain ⟨gap, text, -, htext, -, hspan, -, hnext⟩ := nextToken_place hk htoken
    refine List.forall_mem_cons.2 ⟨fun e hkind => ?_, ih hnext⟩
    obtain ⟨hstart, hreads⟩ := readsAs_of_nextToken htoken hkind htext
    rw [Token.text, hnext.source_eq, hspan.text_eq]
    exact tokens_of_readsAs hstart hreads

/-- The tokens of a text tile it: the text is gap, token, gap, token, up to the token at its end, every
gap consists of blanks, and only that last token is empty.  Each value among them is told by its own
text, which has this value as its only token. -/
theorem tokens_tile {source : String} {ts : List Token}
    (h : tokens standard limits source = .ok ts) :
    Tiles source.toList [] ts ∧
    (∃ gaps : List (List Char), gaps.length = ts.length ∧
      (∀ gap ∈ gaps, ∀ c ∈ gap, Cursor.isBlank c = true) ∧
        source.toList =
          (List.zipWith (fun gap token => gap ++ token.text source.toList) gaps ts).flatten) ∧
    ∀ token ∈ ts, ∀ e, token.kind = .value e → ∃ value last,
      tokens standard limits (String.ofList (token.text source.toList)) = .ok [value, last] ∧
        value.kind = .value e ∧ value.span.Covers [] (token.text source.toList) ∧
          last.kind = .endOfInput := by
  have hrun := tokensFrom_eq_ok_iff.1 h
  have hstart := Cursor.behind_start source.toList
  have htiles := hrun.tiles hstart
  exact ⟨htiles, htiles.exists_gaps, hrun.tokens_text hstart⟩

/-- The element of `[true]`. -/
def single : Element :=
  .vector [.boolean true]

theorem isPrintable_single : single.Everywhere Element.IsPrintable := by
  simp [single, Element.vector, Element.boolean, Collection.vector, Element.ofCollection,
    Element.everywhere_ordered, Element.everywhere_scalar, Element.IsPrintable,
    Element.IsRegular, Element.IsLegible, Collection.IsFiled, Scalar.IsRegular, Scalar.IsLegible]
  decide

theorem tokens_tile_single : ∃ ts gaps, tokens standard ⟨1, none⟩ "[true] ," = .ok ts ∧
    Tiles "[true] ,".toList [] ts ∧ gaps.length = ts.length ∧
      "[true] ,".toList = (List.zipWith
        (fun gap token => gap ++ Token.text token "[true] ,".toList) gaps ts).flatten ∧
      ∃ value last, tokens standard ⟨1, none⟩ "[true]" = .ok [value, last] ∧
        value.kind = .value single ∧ last.kind = .endOfInput := by
  have hread := @readsBack 1 single isPrintable_single 0 (by decide) (.start "[true] ,".toList)
    [' ', ','] rfl (endsToken_of_blank rfl _)
  have hvalue := @nextToken_of_readsValue ⟨1, none⟩ _ _ _ ⟨'[', _, rfl, by decide⟩ hread
  have hlast := @nextToken_of_blanks standard ⟨1, none⟩
    ((Cursor.start "[true] ,".toList).advance single.chars.length) (List.all_eq_true.1 rfl)
  have htokens := tokens_of_run (.cons hvalue rfl (.last hlast rfl))
  obtain ⟨htiles, ⟨gaps, hlength, -, hall⟩, hvalues⟩ := tokens_tile htokens
  obtain ⟨value, last, hown, hkind, -, hend⟩ := hvalues _ List.mem_cons_self single rfl
  exact ⟨_, gaps, htokens, htiles, hlength, hall, value, last, hown, hkind, hend⟩

end Values

end Edn
