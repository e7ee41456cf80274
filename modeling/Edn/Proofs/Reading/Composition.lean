import Edn.Proofs.Reading.Limits
import Edn.Proofs.Reading.Tiling

/-!
# Reading is compositional

The value of a collection's text is made of the values of the texts in it.
These may be any texts that are one value on their own, and any blanks and
comments may stand between them.

* `IsValueText.readsAs`: a text that is one value on its own is read as this
  value inside a collection.
* `readsValue_collectionText`: so the collection is read as what its rule
  makes of the values, or the error of the rule.
* `parse_collectionText` is the result for whole texts.
-/

namespace Edn

open Grammar (standard build byteLength)

/-! ## Texts of values -/

/-- The text is one token on its own, under some limits, and this token is the value. -/
def IsValueText (text : List Char) (e : Element) : Prop :=
  ∃ limits value last, tokens standard limits (String.ofList text) = .ok [value, last] ∧
    value.kind = .value e ∧ value.span.start = 0 ∧ value.span.stop = byteLength text

theorem eq_nil_of_byteLength {text : List Char} (h : byteLength text = 0) : text = [] := by
  have hlength := Grammar.length_le_byteLength text
  exact List.eq_nil_of_length_eq_zero (by omega)

/-- A text that is one value on its own is read as this value wherever it stands, and at any depth that
leaves room for its own. -/
theorem IsValueText.readsAs {text : List Char} {e : Element} (h : IsValueText text e)
    {maxDepth depth : Nat} (hdepth : depth + e.depth ≤ maxDepth) :
    StartsValue text ∧ ReadsAs maxDepth depth text e := by
  obtain ⟨limits, value, last, htokens, hkind, hstart, hstop⟩ := h
  rw [tokens, String.toList_ofList] at htokens
  have hrun := tokensFrom_eq_ok_iff.1 htokens
  cases hrun with
  | @cons _ next _ _ htoken hend hrest =>
    obtain ⟨gap, token, hsource, htext, -, hspan, -, -⟩ :=
      nextToken_place (Cursor.behind_start text) htoken
    replace hsource : text = gap ++ token ++ next.rest := hsource
    -- the token covers the whole text
    have hgap : gap = [] := by
      rw [hspan.start, List.nil_append] at hstart
      exact eq_nil_of_byteLength hstart
    have hnext : next.rest = [] := by
      rw [hspan.stop, List.nil_append] at hstop
      have hlength := congrArg byteLength hsource
      rw [Grammar.byteLength_append _ next.rest] at hlength
      exact eq_nil_of_byteLength (by omega)
    obtain rfl : token = text := by
      rw [hsource, hgap, hnext, List.nil_append, List.append_nil]
    obtain ⟨hstarts, hreads⟩ := readsAs_of_nextToken htoken hkind htext
    exact ⟨hstarts, fun k rest hk hends => (hreads k rest hk hends).of_depth_le hdepth⟩

/-- The text of a printable element is one value on its own: the element that the text tells. -/
theorem isValueText_chars {e : Element} (h : e.Everywhere Element.IsPrintable) :
    IsValueText e.chars e.reread := by
  have hreads : ReadsAs e.depth 0 e.chars e.reread := readsBack h 0 (by rw [Nat.zero_add])
  obtain ⟨value, last, htokens, hkind, hspan, -⟩ :=
    @tokens_of_readsAs ⟨e.depth, none⟩ e.reread e.chars h.here.startsValue hreads
  exact ⟨_, value, last, htokens, hkind, hspan.start, hspan.stop⟩

/-! ## Texts of collections -/

/-- The text of a collection behind its tag, with any separators. -/
def collectionText (tag : String) (kind : CollectionKind) (pieces : List Piece)
    (last : List Char) : List Char :=
  tagText tag ++ (kind.opener ++ (piecesText pieces ++ (last ++ kind.closer)))

section Collections

variable {maxDepth : Nat} {kind : CollectionKind} {tag : String} {pieces : List Piece}
  {last : List Char}

/-- The text of a collection is read as what its rule makes of the values in it. -/
theorem readsValue_collectionText (hdepth : 1 ≤ maxDepth) (hplain : isPlainTag tag = true)
    (hpieces : SetApart pieces) (hlast : IsTrivia last)
    (hvalues : ∀ piece ∈ pieces, IsValueText piece.text piece.value ∧
      piece.value.depth < maxDepth) {k : Cursor} (hk : k.rest = collectionText tag kind pieces last) :
    ∃ next : Cursor, next.rest = [] ∧
      ReadsValue standard maxDepth 0 k
        (buildCollection (Grammar.collectionRule kind) tag k.mark
          (.ok (pieces.map Piece.value) next)) := by
  have hreads : ∀ piece ∈ pieces, StartsValue piece.text ∧
      ReadsAs maxDepth 1 piece.text piece.value := by
    intro piece hpiece
    obtain ⟨hvalue, hlt⟩ := hvalues piece hpiece
    exact hvalue.readsAs (by omega)
  have htag := readTag_tagText hplain (.inr ⟨kind, _, rfl⟩) hk
  have hpayload := Cursor.rest_advance_of_eq hk
  have hopen := Grammar.opening?_opener kind (piecesText pieces ++ (last ++ kind.closer))
  rw [← hpayload] at hopen
  have hinside := Cursor.rest_advance_of_eq hpayload
  rw [← List.append_nil kind.closer] at hinside
  have hitems := @readsItems_pieces maxDepth 1 kind k.mark pieces last hpieces hlast
    (fun piece hpiece => (hreads piece hpiece).1) (fun piece hpiece => (hreads piece hpiece).2) _ []
    hinside
  refine ⟨_, ?_, .collection htag hopen hdepth hitems⟩
  rw [Cursor.rest_advance, hinside]
  simp [Nat.add_assoc]

/-- What the rule of a collection refuses is an odd number of children or a repeated key. -/
theorem exists_cause_of_build {children : List Element} {error : Error}
    (h : build kind children = .error error) : ∃ cause, error = .ofCause cause ∧
      ((∃ details, cause = .invalidPair details) ∨ ∃ key, cause = .duplicateKey key) := by
  have refused : ∀ {kind : KeyedKind} {children : List Element} {news : List Entry},
      entriesOf kind children = .ok news →
        (Collection.ofElements (.keyed kind) children).map Element.ofCollection = .error error →
          ∃ cause, error = .ofCause cause ∧
            ((∃ details, cause = .invalidPair details) ∨ ∃ key, cause = .duplicateKey key) := by
    intro kind children news hnews h
    cases hmake : Collection.ofElements (.keyed kind) children with
    | error found =>
      rw [hmake] at h
      cases h
      obtain ⟨key, rfl⟩ := Collection.exists_duplicateKey_of_ofElements hnews hmake
      exact ⟨_, rfl, .inr ⟨key, rfl⟩⟩
    | ok c =>
      rw [hmake] at h
      cases h
  cases kind with
  | ordered kind => cases kind <;> cases h
  | keyed kind =>
    cases kind with
    | set => exact refused rfl h
    | map =>
      cases hpairs : Pair.ofFlat children with
      | error found =>
        rw [build, hpairs] at h
        cases h
        rw [Pair.ofFlat] at hpairs
        split at hpairs
        · cases hpairs
        · cases hpairs
          exact ⟨_, rfl, .inl ⟨_, rfl⟩⟩
      | ok pairs =>
        rw [build, hpairs] at h
        obtain ⟨news, hnews⟩ : ∃ news, entriesOf .map (Pair.flatten pairs) = .ok news := by
          rw [entriesOf, Pair.flatten, pairUp?_flatMap]
          exact ⟨_, rfl⟩
        exact refused hnews h

/-- Reading is compositional: in a collection, texts that are one value each on their own are read as
these values, whatever separates them.  The text is read as what is built of the values, or refused
with the error of building it. -/
theorem parse_collectionText {limits : Limits} (hdepth : 1 ≤ limits.maxDepth)
    (hlength : limits.maxLength = none) (kind : CollectionKind) (hplain : isPlainTag tag = true)
    (htag : IsTag tag) (hpieces : SetApart pieces) (hlast : IsTrivia last)
    (hvalues : ∀ piece ∈ pieces, IsValueText piece.text piece.value ∧
      piece.value.depth < limits.maxDepth) :
    let result := (Reader.within limits).parse (String.ofList (collectionText tag kind pieces last))
    (∀ e, build kind (pieces.map Piece.value) = .ok e → result = .ok (e.retag tag)) ∧
      ∀ error, build kind (pieces.map Piece.value) = .error error →
        ∃ cause place, error = .ofCause cause ∧
          ((∃ details, cause = .invalidPair details) ∨ ∃ key, cause = .duplicateKey key) ∧
            result = .error (.one ⟨cause, some place⟩) := by
  intro result
  have hsource : (String.ofList (collectionText tag kind pieces last)).toList =
      collectionText tag kind pieces last := String.toList_ofList
  have hstart : StartsValue (String.ofList (collectionText tag kind pieces last)).toList := by
    rw [hsource]
    exact StartsPayload.startsValue_tagText (.inr ⟨kind, _, rfl⟩) tag
  have hnone : (Reader.within limits).lengthError?
      (String.ofList (collectionText tag kind pieces last)) = none := by
    rw [Reader.lengthError?_eq_none_iff, Reader.within, hlength]
    rintro limit ⟨⟩
  obtain ⟨next, hnext, hread⟩ := @readsValue_collectionText limits.maxDepth kind tag pieces last hdepth
    hplain hpieces hlast hvalues
    (.start (String.ofList (collectionText tag kind pieces last)).toList) hsource
  refine ⟨fun e h => ?_, fun error h => ?_⟩
  · obtain ⟨c, rfl, -, -⟩ := build_spec h
    rw [buildCollection_ok (process_of_build h rfl htag hplain)] at hread
    exact Reader.parse_of_readsValue rfl hstart hread (by rw [hnext]; exact List.forall_mem_nil _) hnone
  · obtain ⟨cause, rfl, hcause⟩ := exists_cause_of_build h
    rw [buildCollection_error (process_of_build_error h tag)] at hread
    have hparse := Reader.parse_of_readsValue_error rfl hstart hread hnone
    -- neither is a fault of syntax, so that only the place is added
    rcases hcause with ⟨details, rfl⟩ | ⟨key, rfl⟩
    · exact ⟨_, _, rfl, .inl ⟨details, rfl⟩, hparse⟩
    · exact ⟨_, _, rfl, .inr ⟨key, rfl⟩, hparse⟩

/-- The text `true`, then a comment and the text `[true]`. -/
def truePieces : List Piece :=
  [⟨[], "true".toList, .boolean true⟩, ⟨";x\n ".toList, "[true]".toList, single⟩]

theorem setApart_truePieces : SetApart truePieces := by
  refine ⟨?_, by decide⟩
  simp only [truePieces, List.forall_mem_cons]
  exact ⟨.nil, @IsTrivia.comment ['x'] [' '] (List.all_eq_true.1 rfl) (.blank rfl .nil),
    List.forall_mem_nil _⟩

theorem isValueText_true : IsValueText "true".toList (.boolean true) := by
  have hprintable : (Element.boolean true).Everywhere Element.IsPrintable := by
    simp [Element.boolean, Element.everywhere_scalar, Element.IsPrintable, Element.IsRegular,
      Element.IsLegible, Scalar.IsRegular, Scalar.IsLegible]
    decide
  have hvalue := isValueText_chars hprintable
  rwa [show (Element.boolean true).chars = "true".toList from rfl,
    show (Element.boolean true).reread = .boolean true from rfl] at hvalue

theorem isValueText_single : IsValueText "[true]".toList single := by
  have hvalue := isValueText_chars isPrintable_single
  rwa [show single.chars = "[true]".toList from rfl,
    show single.reread = single from rfl] at hvalue

theorem isValueText_truePieces (piece : Piece) (h : piece ∈ truePieces) :
    IsValueText piece.text piece.value ∧ piece.value.depth < 2 := by
  rcases List.mem_cons.1 h with rfl | h
  · exact ⟨isValueText_true, by decide⟩
  · rw [List.mem_singleton.1 h]
    exact ⟨isValueText_single, by decide⟩

theorem parse_collectionText_true :
    (Reader.within ⟨2, none⟩).parse "#a (true;x\n [true] ,)" =
        .ok ((Element.list [.boolean true, single]).retag "a") ∧
      ∃ place, (Reader.within ⟨2, none⟩).parse "\x7btrue\x7d" =
        .error (.one ⟨.invalidPair "1 elements cannot be paired up", some place⟩) := by
  have hlast : IsTrivia [' ', ','] := .of_blank (List.all_eq_true.1 rfl)
  obtain ⟨hlist, -⟩ := @parse_collectionText "a" truePieces [' ', ','] ⟨2, none⟩ (by decide) rfl
    (.ordered .list) (by decide) (.inr (by decide)) setApart_truePieces hlast isValueText_truePieces
  have hmap : ∀ piece ∈ [Piece.mk [] "true".toList (.boolean true)],
      IsValueText piece.text piece.value ∧ piece.value.depth < 2 := by
    intro piece h
    rw [List.mem_singleton.1 h]
    exact ⟨isValueText_true, by decide⟩
  obtain ⟨-, hrefused⟩ := @parse_collectionText "" [⟨[], "true".toList, .boolean true⟩] [] ⟨2, none⟩
    (by decide) rfl (.keyed .map) (by decide) (.inl rfl) ⟨by simp [IsTrivia.nil], by decide⟩ .nil hmap
  obtain ⟨cause, place, hcause, -, hparse⟩ :=
    hrefused (.invalidPair "1 elements cannot be paired up") rfl
  cases hcause
  exact ⟨hlist _ rfl, place, hparse⟩

end Collections

end Edn
