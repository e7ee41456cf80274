import Edn.Proofs.Grammar.LongestMatch
import Edn.Proofs.Reading.Accepted
import Edn.Proofs.Reading.Places

/-!
# A value depends on its own text

What stands behind a value does not matter for the value, as long as it does
not lengthen its last token.

* `Cursor.Shares` relates two cursors that see the same text up to a point.
  Skipping keeps it while it stops before that point.
* `Shares.readTag` and `Shares.readLiteral` say that both read the same tag
  and the same literal.
* `ReadsValue.shares` and `ReadsItems.shares` carry this to values and to the
  items of a collection, by induction on the recursion of the reader.
* `ReadsValue.readsAs` is the result: the text of a value that is read is
  read as this value wherever it stands.
-/

namespace Edn

open Grammar (EndsToken standard literalSet symbolSet)

/-! ## Reading moves forward -/

section Reaches

variable {g : Grammar} {maxDepth depth : Nat} {k : Cursor}

theorem readLiteral_reaches (g : Grammar) (tag : String) (k : Cursor) :
    k.Reaches (readLiteral g tag k).next := by
  unfold readLiteral
  split
  · exact .refl k
  · split <;> exact k.reaches_advance _

theorem next_buildCollection (rule : DelimiterRule) (tag : String) (start : Span)
    (items : Outcome (List Element)) :
    (buildCollection rule tag start items).next = items.next := by
  unfold buildCollection
  split
  · rfl
  · split <;> rfl

theorem next_afterItems (read : List Element) (items : Outcome (List Element)) :
    (afterItems read items).next = items.next := by
  unfold afterItems
  split <;> rfl

theorem reaches_opener {tag : String} {next : Cursor} {rule : DelimiterRule}
    (htag : readTag g k = ⟨.ok tag, next⟩) : k.Reaches (next.advance rule.opener.length) := by
  have hreach := readTag_reaches g k
  rw [htag] at hreach
  exact hreach.trans (next.reaches_advance _)

mutual

/-- Reading a value moves the cursor forward, also where it fails. -/
theorem ReadsValue.reaches : ∀ {depth : Nat} {k : Cursor} {o : Outcome Element},
    ReadsValue g maxDepth depth k o → k.Reaches o.next
  | _, k, _, .badTag htag => by
    have hreach := readTag_reaches g k
    rwa [htag] at hreach
  | _, k, _, .literal htag _ => by
    have hreach := readTag_reaches g k
    rw [htag] at hreach
    exact hreach.trans (readLiteral_reaches g _ _)
  | _, _, _, .tooDeep htag _ _ => reaches_opener htag
  | _, _, _, .collection htag _ _ hitems => by
    have hreach := hitems.reaches
    rw [next_buildCollection]
    exact (reaches_opener htag).trans hreach

/-- So does reading items. -/
theorem ReadsItems.reaches : ∀ {depth : Nat} {closer : List Char} {start : Span} {k : Cursor}
    {o : Outcome (List Element)}, ReadsItems g maxDepth depth closer start k o → k.Reaches o.next
  | _, _, _, k, _, .unterminated _ | _, _, _, k, _, .mismatched _ _ => k.reaches_skipTrivia
  | _, _, _, k, _, .close _ _ => k.reaches_skipTrivia.trans (k.skipTrivia.reaches_advance _)
  | _, _, _, k, _, .badItem _ _ hvalue => k.reaches_skipTrivia.trans hvalue.reaches
  | _, _, _, k, _, .item _ _ hvalue hitems => by
    have hmiddle := k.reaches_skipTrivia.trans hvalue.reaches
    have hreach := hitems.reaches
    rw [next_afterItems]
    exact hmiddle.trans hreach

end

theorem Cursor.Reaches.length_le {next : Cursor} (h : k.Reaches next) :
    next.rest.length ≤ k.rest.length := by
  obtain ⟨n, rfl⟩ := h
  exact k.length_rest_advance_le n

end Reaches

/-! ## Cursors that share a text -/

theorem takeWhile_append_congr {p : Char → Bool} {text more : List Char} (more' : List Char)
    (h : ((text ++ more).takeWhile p).length < text.length) :
    (text ++ more').takeWhile p = (text ++ more).takeWhile p := by
  rw [List.takeWhile_append] at h ⊢
  rw [List.takeWhile_append]
  split at h
  · rw [List.length_append] at h
    omega
  · next hne => rw [if_neg hne, if_neg hne]

namespace Cursor

theorem le_triviaLength (inComment : Bool) (taken : Nat) (text : List Char) :
    taken ≤ triviaLength inComment taken text := by
  induction text generalizing inComment taken with
  | nil => exact Nat.le_refl _
  | cons c text ih =>
    have hle : taken ≤ taken + 1 := Nat.le_succ taken
    rw [triviaLength]
    split
    · exact Nat.le_trans hle (ih _ _)
    · split
      · exact Nat.le_trans hle (ih _ _)
      · split
        · exact Nat.le_trans hle (ih _ _)
        · exact Nat.le_refl _

/-- Trivia that end inside a text end there whatever follows the text. -/
theorem triviaLength_append_congr {inComment : Bool} {taken : Nat} {text more : List Char}
    (more' : List Char) (h : triviaLength inComment taken (text ++ more) < taken + text.length) :
    triviaLength inComment taken (text ++ more') = triviaLength inComment taken (text ++ more) := by
  induction text generalizing inComment taken with
  | nil =>
    have := le_triviaLength inComment taken ([] ++ more)
    rw [List.length_nil] at h
    omega
  | cons c text ih =>
    have hlength : taken + (c :: text).length = taken + 1 + text.length := by
      rw [List.length_cons]
      omega
    rw [hlength] at h
    rw [List.cons_append, triviaLength] at h ⊢
    rw [List.cons_append, triviaLength]
    split at h
    · next hcomment => rw [if_pos hcomment, if_pos hcomment, ih h]
    · next hcomment =>
      rw [if_neg hcomment, if_neg hcomment]
      split at h
      · next hblank => rw [if_pos hblank, if_pos hblank, ih h]
      · next hblank =>
        rw [if_neg hblank, if_neg hblank]
        split at h
        · next hc => rw [if_pos hc, if_pos hc, ih h]
        · next hc => rw [if_neg hc, if_neg hc]

/-- Two cursors see the same text, behind which there is `more` for one and `more'` for the other. -/
def Shares (more more' : List Char) (k k' : Cursor) : Prop :=
  ∃ text, k.rest = text ++ more ∧ k'.rest = text ++ more'

namespace Shares

variable {more more' : List Char} {k k' : Cursor}

/-- Before the end of the shared text, both cursors see the same character. -/
theorem exists_cons (h : Shares more more' k k') (hlt : more.length < k.rest.length) :
    ∃ c text, k.rest = c :: (text ++ more) ∧ k'.rest = c :: (text ++ more') := by
  obtain ⟨text, hk, hk'⟩ := h
  cases text with
  | nil =>
    rw [hk] at hlt
    exact absurd hlt (Nat.lt_irrefl _)
  | cons c text => exact ⟨c, text, hk, hk'⟩

/-- A text that starts before the end of the shared text, and ends there, starts for both. -/
theorem exists_append (h : Shares more more' k k') {first rest : List Char}
    (hfirst : k.rest = first ++ rest) (hle : first.length + more.length ≤ k.rest.length) :
    ∃ text, k.rest = first ++ (text ++ more) ∧ k'.rest = first ++ (text ++ more') := by
  obtain ⟨text, hk, hk'⟩ := h
  have hlength : first.length ≤ text.length := by
    rw [hk, List.length_append] at hle
    omega
  have htext : text = first ++ text.drop first.length := by
    have htake : text.take first.length = first := by
      have htake := @List.take_append_of_le_length _ text more _ hlength
      rw [← htake, ← hk, hfirst, List.take_left]
    rw [← htake, List.length_take, Nat.min_eq_left hlength, List.take_append_drop]
  refine ⟨text.drop first.length, ?_, ?_⟩
  · rw [← List.append_assoc, ← htext]
    exact hk
  · rw [← List.append_assoc, ← htext]
    exact hk'

theorem advance (h : Shares more more' k k') {n : Nat} (hn : n + more.length ≤ k.rest.length) :
    Shares more more' (k.advance n) (k'.advance n) := by
  obtain ⟨text, hk, hk'⟩ := h
  have hlength : n ≤ text.length := by
    rw [hk, List.length_append] at hn
    omega
  refine ⟨text.drop n, ?_, ?_⟩
  · rw [rest_advance, hk, List.drop_append_of_le_length hlength]
  · rw [rest_advance, hk', List.drop_append_of_le_length hlength]

/-- What is skipped before the end of the shared text is the same for both. -/
theorem takeWhile_eq (h : Shares more more' k k') {p : Char → Bool}
    (hlt : more.length < (k.skipWhile p).rest.length) :
    k'.rest.takeWhile p = k.rest.takeWhile p := by
  obtain ⟨text, hk, hk'⟩ := h
  rw [skipWhile, rest_advance, List.length_drop, hk, List.length_append] at hlt
  rw [hk, hk']
  apply takeWhile_append_congr
  omega

theorem skipWhile (h : Shares more more' k k') {p : Char → Bool}
    (hlt : more.length < (k.skipWhile p).rest.length) :
    Shares more more' (k.skipWhile p) (k'.skipWhile p) := by
  rw [Cursor.skipWhile, Cursor.skipWhile, h.takeWhile_eq hlt]
  apply h.advance
  rw [Cursor.skipWhile, rest_advance, List.length_drop] at hlt
  omega

theorem skipTrivia (h : Shares more more' k k') (hlt : more.length < k.skipTrivia.rest.length) :
    Shares more more' k.skipTrivia k'.skipTrivia := by
  have hlength : triviaLength false 0 k'.rest = triviaLength false 0 k.rest := by
    obtain ⟨text, hk, hk'⟩ := h
    rw [Cursor.skipTrivia, rest_advance, List.length_drop, hk, List.length_append] at hlt
    rw [hk, hk']
    apply triviaLength_append_congr
    omega
  rw [Cursor.skipTrivia, Cursor.skipTrivia, hlength]
  apply h.advance
  rw [Cursor.skipTrivia, rest_advance, List.length_drop] at hlt
  omega

end Shares

/-- Skipping keeps the place exactly if there is nothing to skip. -/
theorem position_skipWhile_eq_iff (k : Cursor) (p : Char → Bool) :
    (k.skipWhile p).position = k.position ↔ k.rest.takeWhile p = [] := by
  rw [Cursor.skipWhile]
  cases htake : k.rest.takeWhile p with
  | nil => exact iff_of_true rfl rfl
  | cons c taken =>
    refine iff_of_false (Nat.ne_of_gt ?_) (List.cons_ne_nil _ _)
    have hne : k.rest ≠ [] := by
      intro hnil
      rw [hnil] at htake
      cases htake
    exact Nat.lt_of_lt_of_le (position_next_lt hne) (k.next.reaches_advance taken.length).position_le

end Cursor

/-! ## Tags and literals -/

section Parts

variable {more more' : List Char} {k k' : Cursor} {tag : String}

theorem contains_symbolSet_of_isLetter {c : Char} (hc : Text.isLetter c = true) :
    symbolSet.contains c = true := by
  simp [Grammar.contains_symbolSet, Name.isLater, Name.isFirst, hc]

/-- A closing delimiter is told by its character. -/
theorem closing?_cons (c : Char) (rest rest' : List Char) :
    standard.closing? (c :: rest) = standard.closing? (c :: rest') := by
  rw [Grammar.standard_eq]
  rfl

theorem endsValue_cons (c : Char) (rest rest' : List Char) :
    endsValue standard (c :: rest) = endsValue standard (c :: rest') := by
  rw [endsValue, closing?_cons c rest rest']
  rfl

/-- A number sign at the end of the shared text starts no tag, as no letter follows it. -/
theorem Cursor.Shares.tagLength?_eq_none (h : Shares more more' k k') (hends : EndsToken more')
    (hlt : more.length < k.rest.length) (hnone : tagLength? k.rest = none) :
    tagLength? k'.rest = none := by
  obtain ⟨c, text, hk, hk'⟩ := h.exists_cons hlt
  rw [Option.eq_none_iff_forall_not_mem]
  intro length hlength
  obtain ⟨d, rest, hrest, hd, -⟩ := exists_of_tagLength? hlength
  rw [hk'] at hrest
  obtain ⟨rfl, htail⟩ := List.cons.inj hrest
  cases text with
  | nil =>
    have hsymbol := contains_symbolSet_of_isLetter hd
    rw [List.nil_append] at htail
    rw [hends d (htail ▸ rfl)] at hsymbol
    cases hsymbol
  | cons e text =>
    obtain ⟨rfl, -⟩ := List.cons.inj htail
    rw [hk, List.cons_append, tagLength?, if_pos hd] at hnone
    cases hnone

/-- A literal that is read starts with a character of literals. -/
theorem contains_literalSet_of_readLiteral {k next : Cursor} {value : Element}
    (h : readLiteral standard tag k = .ok value next) {c : Char} {rest : List Char}
    (hk : k.rest = c :: rest) : literalSet.contains c = true := by
  obtain ⟨rule, length, hmatch, -, -⟩ := readLiteral_eq_ok_iff.1 h
  rw [hk] at hmatch
  exact Grammar.contains_literalSet hmatch

/-- A tag that ends before the end of the shared text has the same length for both. -/
theorem Cursor.Shares.tagLength?_eq_some (h : Shares more more' k k') {length : Nat}
    (hlength : tagLength? k.rest = some length) (hlt : length + more.length < k.rest.length) :
    tagLength? k'.rest = some length := by
  obtain ⟨c, rest, hk, hc, rfl⟩ := exists_of_tagLength? hlength
  have hlt' : ['#', c].length + more.length ≤ k.rest.length := by
    rw [List.length_cons, List.length_singleton]
    omega
  obtain ⟨text, htext, htext'⟩ := @Cursor.Shares.exists_append _ _ _ _ h ['#', c] rest hk hlt'
  obtain rfl : rest = text ++ more :=
    @List.append_cancel_left _ ['#', c] _ _ (hk.symm.trans htext)
  have htake : (text ++ more').takeWhile isTagChar = (text ++ more).takeWhile isTagChar := by
    apply takeWhile_append_congr
    rw [hk, List.length_cons, List.length_cons, List.length_append] at hlt
    omega
  rw [htext']
  show tagLength? ('#' :: c :: (text ++ more')) = _
  rw [tagLength?, if_pos hc, htake]

theorem tagFault?_eq_none_iff {g : Grammar} {k : Cursor} {length : Nat} {tag : String} :
    tagFault? g k length tag = none ↔
      endsValue g (afterTag k length).rest = false ∧
        tagLength? (afterTag k length).rest = none ∧
          ((k.advance length).rest.takeWhile Text.isWhiteSpace = [] →
            (g.opening? (afterTag k length).rest).isSome = true) := by
  rw [← Cursor.position_skipWhile_eq_iff]
  unfold tagFault? afterTag
  generalize (k.advance length).skipWhile Text.isWhiteSpace = value
  dsimp only
  cases endsValue g value.rest <;> cases tagLength? value.rest <;>
    simp [Option.isSome_iff_ne_none]

/-- Both cursors read the same tag, if the same collection, or none, stands behind it. -/
theorem Cursor.Shares.readTag (h : Shares more more' k k') (hends : EndsToken more') {next : Cursor}
    (htag : Edn.readTag standard k = ⟨.ok tag, next⟩) (hlt : more.length < next.rest.length)
    (hopen : ∀ next', Shares more more' next next' →
      standard.opening? next'.rest = standard.opening? next.rest) :
    ∃ next', Edn.readTag standard k' = ⟨.ok tag, next'⟩ ∧ Shares more more' next next' := by
  unfold Edn.readTag at htag
  split at htag
  · next hnone =>
    cases htag
    refine ⟨k', ?_, h⟩
    rw [Edn.readTag, h.tagLength?_eq_none hends hlt hnone]
    rfl
  · next length hlength =>
    dsimp only at htag
    split at htag
    · cases htag
    · next hfault =>
      cases htag
      obtain ⟨hvalue, hsecond, hspace⟩ := tagFault?_eq_none_iff.1 hfault
      have hafter : (afterTag k length).rest.length ≤ k.rest.length - length := by
        rw [← List.length_drop, ← Cursor.rest_advance]
        exact (Cursor.reaches_skipWhile _ _).length_le
      have htag := h.advance (n := length) (by omega)
      have hnext := htag.skipWhile hlt
      have hlength' := h.tagLength?_eq_some hlength (by omega)
      have htake : k'.rest.take length = k.rest.take length := by
        obtain ⟨text, hk, hk'⟩ := h
        rw [hk, List.length_append] at hafter
        rw [hk, hk', List.take_append_of_le_length (by omega),
          List.take_append_of_le_length (by omega)]
      have hfault' : ∀ tag, tagFault? standard k' length tag = none := by
        intro tag
        rw [tagFault?_eq_none_iff]
        refine ⟨?_, hnext.tagLength?_eq_none hends hlt hsecond, ?_⟩
        · obtain ⟨c, text, hc, hc'⟩ := hnext.exists_cons hlt
          rw [afterTag, hc', ← hvalue, afterTag, hc]
          exact endsValue_cons c _ _
        · intro hnil
          rw [htag.takeWhile_eq hlt] at hnil
          rw [afterTag, hopen _ hnext]
          exact hspace hnil
      refine ⟨afterTag k' length, ?_, hnext⟩
      rw [Edn.readTag, hlength']
      dsimp only
      rw [hfault', htake]
      rfl

/-- Both cursors read the same literal. -/
theorem Cursor.Shares.readLiteral (h : Shares more more' k k') (hends : EndsToken more')
    {value : Element} {next : Cursor} (hread : Edn.readLiteral standard tag k = .ok value next)
    (hle : more.length ≤ next.rest.length) :
    ∃ next', Edn.readLiteral standard tag k' = .ok value next' ∧ Shares more more' next next' := by
  obtain ⟨rule, length, hmatch, hprocess, rfl⟩ := readLiteral_eq_ok_iff.1 hread
  rw [Cursor.rest_advance, List.length_drop] at hle
  have hlength : length ≤ k.rest.length := Grammar.length_le_of_longestMatch? hmatch
  have hnext := h.advance (n := length) (by omega)
  obtain ⟨text, hk, hk'⟩ := h
  have htext : length ≤ text.length := by
    rw [hk, List.length_append] at hle hlength
    omega
  have hmatch' : standard.longestMatch? k'.rest = some (rule, length) := by
    rw [hk] at hmatch
    rw [hk']
    exact Grammar.longestMatch?_append (Grammar.longestMatch?_of_append hmatch htext) hends
  have htake : k'.rest.take length = k.rest.take length := by
    rw [hk, hk', List.take_append_of_le_length htext, List.take_append_of_le_length htext]
  rw [← htake] at hprocess
  exact ⟨k'.advance length, readLiteral_eq_ok_iff.2 ⟨rule, length, hmatch', hprocess, rfl⟩, hnext⟩

end Parts

/-! ## Values -/

section Values

variable {maxDepth depth : Nat} {more more' : List Char} {k : Cursor}

/-- An opening delimiter that ends before the end of the shared text is seen by both cursors. -/
theorem Cursor.Shares.opening?_eq {k' : Cursor} (h : Shares more more' k k') {kind : CollectionKind}
    (hopen : standard.opening? k.rest = some (Grammar.collectionRule kind))
    (hle : kind.opener.length + more.length ≤ k.rest.length) :
    standard.opening? k'.rest = some (Grammar.collectionRule kind) := by
  obtain ⟨rest, hrest⟩ := Grammar.opener_prefix_of_opening? hopen
  obtain ⟨text, -, hk'⟩ := h.exists_append hrest.symm hle
  rw [hk']
  exact Grammar.opening?_opener kind _

/-- A closing delimiter that starts before the end of the shared text is seen by both. -/
theorem Cursor.Shares.closing?_eq {k' : Cursor} (h : Shares more more' k k')
    (hlt : more.length < k.rest.length) :
    standard.closing? k'.rest = standard.closing? k.rest := by
  obtain ⟨c, text, hk, hk'⟩ := h.exists_cons hlt
  rw [hk, hk']
  exact closing?_cons c _ _

/-- A closing delimiter inside the shared text ends the items for both. -/
theorem Cursor.Shares.readsItems_close {k' : Cursor} (h : Shares more more' k k')
    {rule : DelimiterRule} {start' : Span} (hclose : standard.closing? k.skipTrivia.rest = some rule)
    (hle : more.length ≤ (k.skipTrivia.advance rule.closer.length).rest.length) :
    ∃ next', ReadsItems standard maxDepth depth rule.closer start' k' (.ok [] next') ∧
      Shares more more' (k.skipTrivia.advance rule.closer.length) next' := by
  have hcloser : rule.closer.length ≤ k.skipTrivia.rest.length :=
    (Grammar.closer_prefix_of_closing? hclose).length_le
  have hpos : 0 < rule.closer.length := List.length_pos_iff.2 rule.closer_ne_nil
  rw [Cursor.rest_advance, List.length_drop] at hle
  have hlt : more.length < k.skipTrivia.rest.length := by omega
  have hskip := h.skipTrivia hlt
  exact ⟨_, .close ((hskip.closing?_eq hlt).trans hclose) rfl, hskip.advance (by omega)⟩

/-- An item that starts inside the shared text, and those behind it, are items for both. -/
theorem Cursor.Shares.readsItems_item {k' middle' next' : Cursor} (h : Shares more more' k k')
    (hlt : more.length < k.skipTrivia.rest.length) {closer : List Char} {start' : Span}
    {value : Element} {items : List Element} (hclose : standard.closing? k.skipTrivia.rest = none)
    (hvalue : ReadsValue standard maxDepth depth k'.skipTrivia (.ok value middle'))
    (hitems : ReadsItems standard maxDepth depth closer start' middle' (.ok items next')) :
    ReadsItems standard maxDepth depth closer start' k' (.ok (value :: items) next') := by
  have hskip := h.skipTrivia hlt
  have hrest : k'.skipTrivia.rest ≠ [] := by
    obtain ⟨c, text, -, hc⟩ := hskip.exists_cons hlt
    rw [hc]
    exact List.cons_ne_nil _ _
  exact .item hrest ((hskip.closing?_eq hlt).trans hclose) hvalue hitems

/-- A value that ends inside the shared text is the same for both cursors. -/
theorem ReadsValue.shares (hends : EndsToken more') {value : Element} {next k' : Cursor}
    (h : ReadsValue standard maxDepth depth k (.ok value next))
    (hshares : Cursor.Shares more more' k k') (hle : more.length ≤ next.rest.length) :
    ∃ next', ReadsValue standard maxDepth depth k' (.ok value next') ∧
      Cursor.Shares more more' next next' := by
  refine ReadsValue.induction_ok
    (p := fun depth k value next => ∀ {k' : Cursor}, Cursor.Shares more more' k k' →
      more.length ≤ next.rest.length → ∃ next',
        ReadsValue standard maxDepth depth k' (.ok value next') ∧
          Cursor.Shares more more' next next')
    (q := fun depth closer k items next => ∀ {k' : Cursor}, Cursor.Shares more more' k k' →
      more.length ≤ next.rest.length → ∀ start', ∃ next',
        ReadsItems standard maxDepth depth closer start' k' (.ok items next') ∧
          Cursor.Shares more more' next next')
    ?literal ?collection ?close ?item h hshares hle
  case literal =>
    intro depth k payload tag value next htag hopen hread k' hshares hle
    have hlt := Nat.lt_of_le_of_lt hle (readLiteral_takes hread)
    have hnone : ∀ payload', Cursor.Shares more more' payload payload' →
        standard.opening? payload'.rest = none := by
      intro payload' hpayload
      obtain ⟨c, text, hc, hc'⟩ := hpayload.exists_cons hlt
      rw [hc']
      exact Grammar.opening?_eq_none (contains_literalSet_of_readLiteral hread hc)
    obtain ⟨payload', htag', hpayload⟩ := hshares.readTag hends htag hlt fun payload' hpayload =>
      (hnone payload' hpayload).trans hopen.symm
    obtain ⟨next', hread', hnext⟩ := hpayload.readLiteral hends hread hle
    refine ⟨next', ?_, hnext⟩
    rw [← hread']
    exact .literal htag' (hnone payload' hpayload)
  case collection =>
    intro depth k payload tag rule items value next htag hopen hdepth hitems hprocess ih k' hshares
      hle
    obtain ⟨kind, rfl⟩ := exists_kind_of_opening? hopen
    have hopener : kind.opener.length ≤ payload.rest.length :=
      (Grammar.opener_prefix_of_opening? hopen).length_le
    have hpos : 0 < kind.opener.length := List.length_pos_iff.2 (Grammar.opener_ne_nil kind)
    have hinside : kind.opener.length + more.length ≤ payload.rest.length := by
      have hitems := hitems.reaches.length_le
      rw [Cursor.rest_advance, List.length_drop] at hitems
      have hitems : next.rest.length ≤ payload.rest.length - kind.opener.length := hitems
      omega
    obtain ⟨payload', htag', hpayload⟩ := hshares.readTag hends htag (by omega)
      fun payload' hpayload => (hpayload.opening?_eq hopen hinside).trans hopen.symm
    obtain ⟨next', hread, hnext⟩ := ih (hpayload.advance hinside) hle k'.mark
    refine ⟨next', ?_, hnext⟩
    rw [← buildCollection_ok hprocess]
    exact .collection htag' (hpayload.opening?_eq hopen hinside) hdepth hread
  case close =>
    intro depth k rule hclose k' hshares hle start'
    exact hshares.readsItems_close hclose hle
  case item =>
    intro depth closer start k middle value items next hrest hclose hvalue hitems ihv ihi k' hshares
      hle start'
    have hmiddle := Nat.le_trans hle hitems.reaches.length_le
    have hlt := Nat.lt_of_le_of_lt hmiddle hvalue.shortens
    obtain ⟨middle', hvalue', hmiddle'⟩ := ihv (hshares.skipTrivia hlt) hmiddle
    obtain ⟨next', hitems', hnext⟩ := ihi hmiddle' hle start'
    exact ⟨next', hshares.readsItems_item hlt hclose hvalue' hitems', hnext⟩

/-- So are items that end inside the shared text, whatever collection they are read for. -/
theorem ReadsItems.shares (hends : EndsToken more') {closer : List Char} {start : Span}
    {items : List Element} {next k' : Cursor}
    (h : ReadsItems standard maxDepth depth closer start k (.ok items next))
    (hshares : Cursor.Shares more more' k k') (hle : more.length ≤ next.rest.length) (start' : Span) :
    ∃ next', ReadsItems standard maxDepth depth closer start' k' (.ok items next') ∧
      Cursor.Shares more more' next next' := by
  refine ReadsItems.induction_ok
    (q := fun k items next => ∀ {k' : Cursor}, Cursor.Shares more more' k k' →
      more.length ≤ next.rest.length → ∃ next',
        ReadsItems standard maxDepth depth closer start' k' (.ok items next') ∧
          Cursor.Shares more more' next next')
    ?close ?item h hshares hle
  case close =>
    rintro k rule hclose rfl k' hshares hle
    exact hshares.readsItems_close hclose hle
  case item =>
    intro k middle value items next hrest hclose hvalue hitems ih k' hshares hle
    have hmiddle := Nat.le_trans hle hitems.reaches.length_le
    have hlt := Nat.lt_of_le_of_lt hmiddle hvalue.shortens
    obtain ⟨middle', hvalue', hmiddle'⟩ := hvalue.shares hends (hshares.skipTrivia hlt) hmiddle
    obtain ⟨next', hitems', hnext⟩ := ih hmiddle' hle
    exact ⟨next', hshares.readsItems_item hlt hclose hvalue' hitems', hnext⟩

/-- The text of a value that is read is read as this value wherever it stands. -/
theorem ReadsValue.readsAs {text : List Char} {value : Element} {next : Cursor}
    (h : ReadsValue standard maxDepth depth k (.ok value next)) (hk : k.rest = text ++ next.rest) :
    ReadsAs maxDepth depth text value := by
  intro k' rest hk' hends
  obtain ⟨next', hread, beyond, hnext, hnext'⟩ :=
    h.shares hends (Exists.intro text ⟨hk, hk'⟩) (Nat.le_refl _)
  have hbeyond : beyond = [] := List.append_cancel_right (hnext.symm.trans (List.nil_append _).symm)
  rw [hbeyond, List.nil_append] at hnext'
  rw [← hnext'] at hk'
  have heq := hread.reaches.eq_advance hk'
  rw [← heq]
  exact hread

end Values

end Edn
