import Edn.Proofs.Reading.Lines
import Edn.Proofs.RoundTrip

/-!
# Elements with another tag

The text of an element is its tag and its payload.  This module asks which
tags may be put in front of a payload that is read back.

* `ReadsValue.retag` and `parse_retag`: the payload of a collection is read in
  the same way behind every tag that the reader detaches.
* `Element.ReadsBack` says that the text of an element is read as an element
  that is the same, and `Element.KeepsType` which tags leave it to the payload
  what type it is: instants and UUIDs have a tag of their own, and strings do
  not have these two.
* `readsBack_withTag` is the result.
-/

namespace Edn

open Grammar (standard)

/-! ## Collections behind another tag -/

section Collections

variable {maxDepth depth : Nat} {k k' next : Cursor} {kind : CollectionKind} {inside : List Char}
  {tag tag' : String} {value : Element}

/-- A collection is read behind another tag as the same collection with this tag. -/
theorem ReadsValue.retag (hk : k.rest = tagText tag ++ (kind.opener ++ inside))
    (hplain : isPlainTag tag = true) (hk' : k'.rest = tagText tag' ++ (kind.opener ++ inside))
    (hplain' : isPlainTag tag' = true) (htag' : IsTag tag')
    (h : ReadsValue standard maxDepth depth k (.ok value next)) :
    ∃ next', ReadsValue standard maxDepth depth k' (.ok (value.retag tag') next') ∧
      next'.rest = next.rest := by
  have hpayload : StartsPayload (kind.opener ++ inside) := .inr ⟨kind, inside, rfl⟩
  have hrest := Cursor.rest_advance_of_eq hk
  have hrest' := Cursor.rest_advance_of_eq hk'
  have hopen := Grammar.opening?_opener kind inside
  have hopen' := hopen
  rw [← hrest] at hopen
  rw [← hrest'] at hopen'
  obtain ⟨hdepth, children, hitems, hprocess⟩ :=
    h.exists_items (readTag_tagText hplain hpayload hk) hopen
  obtain ⟨built, hbuild, htagged⟩ := exists_of_bind hprocess
  obtain ⟨c, rfl, -, -⟩ := build_spec hbuild
  obtain ⟨rfl, -⟩ := eq_retag_of_tagged rfl hplain htagged
  -- both cursors see the same items
  have hshares : Cursor.Shares [] [] ((k.advance (tagText tag).length).advance kind.opener.length)
      ((k'.advance (tagText tag').length).advance kind.opener.length) :=
    ⟨inside, by rw [List.append_nil]; exact Cursor.rest_advance_of_eq hrest,
      by rw [List.append_nil]; exact Cursor.rest_advance_of_eq hrest'⟩
  obtain ⟨next', hitems', ahead, hnext, hnext'⟩ :=
    hitems.shares Grammar.endsToken_nil hshares (Nat.zero_le _) k'.mark
  have hread := ReadsValue.collection (readTag_tagText hplain' hpayload hk') hopen' hdepth hitems'
  rw [buildCollection_ok (process_of_build hbuild rfl htag' hplain')] at hread
  exact ⟨next', hread, hnext'.trans hnext.symm⟩

/-- Where no further value is read, none is read from the same text at another place. -/
theorem Reader.valuesFrom_of_rest_eq {r : Reader} {read read' : List (Element × Span)} {stop : Span}
    (hrest : k'.rest = k.rest) (h : r.valuesFrom read k = .ok (read.reverse, stop)) :
    ∃ stop', r.valuesFrom read' k' = .ok (read'.reverse, stop') := by
  induction hn : k.rest.length using Nat.strongRecOn generalizing k k' with
  | ind n ih =>
    have hblanks : k'.skipBlanks.rest = k.skipBlanks.rest := by
      rw [Cursor.skipBlanks, Cursor.skipBlanks, Cursor.rest_skipWhile, Cursor.rest_skipWhile, hrest]
    cases hahead : k.skipBlanks.rest with
    | nil =>
      rw [hahead] at hblanks
      exact ⟨_, valuesFrom_of_end (by rw [nextToken, tokenAt, hblanks]) rfl⟩
    | cons c rest =>
      by_cases hc : c = ';'
      · subst hc
        have htoken : nextToken r.grammar r.limits k = _ := tokenAt_of_comment hahead
        have hshorter := nextToken_shortens htoken rfl
        rw [valuesFrom_eq, htoken] at h
        rw [valuesFrom_eq, nextToken, tokenAt_of_comment (hblanks.trans hahead)]
        refine ih _ (by omega) ?_ h rfl
        rw [Cursor.rest_skipWhile, Cursor.rest_skipWhile, hblanks]
      · -- anything else is an error, or one value more
        exfalso
        rw [valuesFrom_eq, nextToken, tokenAt_of_ne hahead hc] at h
        split at h
        · cases h
        · rename_i token next htoken
          split at htoken
          · cases htoken
            cases h
          · unfold valueToken at htoken
            split at htoken
            · cases htoken
            · cases htoken
              have hlength := (reverse_prefix_of_valuesFrom h).length_le
              simp at hlength

/-- The text of a collection is read behind another tag as the same collection with this tag. -/
theorem parse_retag {source source' : String}
    (hsource : source.toList = tagText tag ++ (kind.opener ++ inside))
    (hplain : isPlainTag tag = true)
    (hsource' : source'.toList = tagText tag' ++ (kind.opener ++ inside))
    (hplain' : isPlainTag tag' = true) (htag' : IsTag tag') (h : parse source = .ok value) :
    parse source' = .ok (value.retag tag') := by
  have hpayload : StartsPayload (kind.opener ++ inside) := .inr ⟨kind, inside, rfl⟩
  obtain ⟨-, span, stop, hvalues⟩ := Reader.parse_eq_ok_iff.1 h
  have hstart : StartsValue source.toList := by
    rw [hsource]
    exact hpayload.startsValue_tagText tag
  have hstart' : StartsValue source'.toList := by
    rw [hsource']
    exact hpayload.startsValue_tagText tag'
  obtain ⟨found, next, place, hread, hlast⟩ :=
    @Reader.exists_readsValue_of_valuesFrom .standard [] (.start source.toList) _ _
      Reader.standard_grammar hstart hvalues
  obtain ⟨hfound, -⟩ := List.cons.inj (List.prefix_iff_eq_take.1
    (Reader.reverse_prefix_of_valuesFrom hlast))
  cases hfound
  obtain ⟨next', hread', hnext⟩ := @ReadsValue.retag _ _ (.start source.toList) (.start source'.toList)
    _ _ _ _ _ _ hsource hplain hsource' hplain' htag' hread
  have htoken := @nextToken_of_readsValue .standard (.start source'.toList) _ _ hstart' hread'
  rw [← Reader.standard_grammar] at htoken
  obtain ⟨stop', hlast'⟩ := @Reader.valuesFrom_of_rest_eq _ _ .standard _
    [(value.retag tag', next'.spanFrom (Cursor.start source'.toList).mark)] _ hnext hlast
  exact Reader.parse_eq_ok_iff.2 ⟨rfl, _, stop',
    (@Reader.valuesFrom_of_value .standard [] _ _ _ _ htoken rfl).trans hlast'⟩

end Collections

/-! ## Elements with another tag -/

/-- The text of the element is read as an element that is the same. -/
def Element.ReadsBack (e : Element) : Prop :=
  ∃ read, parse e.text = .ok read ∧ read.same e = true

/-- Behind the tag, the payload tells its type: instants and UUIDs have their own tags, and strings do
not have these. -/
def Element.KeepsType (tag : String) : Element → Prop
  | .scalar _ (.string _) => tag ≠ instantTag ∧ tag ≠ uuidTag
  | .scalar _ (.instant _) => tag = instantTag
  | .scalar _ (.uuid _) => tag = uuidTag
  | _ => True

section Tags

variable {e read : Element} {tag : String}

/-- A tag that the reader detaches may be put in front of the payload of an element that reads back, if
the tag keeps the type. -/
theorem Element.ReadsBack.retag (h : e.ReadsBack) (htag : IsTag tag) (hplain : isPlainTag tag = true)
    (hkeeps : e.KeepsType tag) : (e.retag tag).ReadsBack := by
  obtain ⟨read, hparse, hsame⟩ := h
  obtain ⟨hprintable, -⟩ := Reader.isPrintable_of_parse Reader.standard_grammar hparse
  obtain ⟨hregular, hlegible⟩ := hprintable.here
  cases read with
  | scalar own value =>
    obtain ⟨other, rfl, hvalue⟩ := exists_of_same_scalar hsame
    by_cases htype : value.type = .instant
    · -- an instant keeps the tag that it has
      obtain rfl : tag = own := by
        cases value <;> cases htype
        cases other <;> first | cases hvalue | exact hkeeps.trans hlegible.2.1.symm
      exact ⟨_, hparse, hsame⟩
    · obtain rfl := Scalar.eq_of_same hvalue htype
      have hfinite : other.isFinite = true := by
        rw [parse_text_eq hprintable (Nat.zero_le _)] at hparse
        exact (Scalar.reread_eq_iff own other).1 (Except.ok.inj hparse)
      have htold : other.IsLegible tag := by
        cases other with
        | string | uuid => exact hkeeps
        | instant => exact absurd rfl htype
        | _ => trivial
      refine ⟨_, parse_text_eq (everywhere_scalar.2 ⟨⟨htag, hregular.2⟩, hplain, htold⟩)
        (Nat.zero_le _), ?_⟩
      rw [Element.retag, Element.reread, Scalar.same_reread, hfinite]
  | symbol own value =>
    obtain rfl := eq_of_same_symbol hsame
    refine ⟨_, parse_text_eq (everywhere_symbol.2 ⟨⟨htag, hregular.2⟩, hplain, hlegible.2⟩)
      (Nat.zero_le _), ?_⟩
    simp [Element.retag, Element.reread, Element.same]
  | collection own c =>
    obtain ⟨d, rfl, hcontents⟩ := exists_of_same_collection hsame
    have hsource : ∀ tag, (Element.collection tag d).text.toList =
        tagText tag ++ (d.kind.opener ++ (layoutText d.layout ++ d.kind.closer)) := by
      intro tag
      rw [text, String.toList_ofList, Element.chars, d.chars_eq, List.append_assoc]
    refine ⟨.collection tag c, parse_retag (hsource own) hlegible (hsource tag) hplain htag hparse, ?_⟩
    show (tag == tag && c.same d) = true
    rw [beq_self_eq_true, hcontents, Bool.and_self]

/-- What reads back has a tag that the reader detaches and that keeps the type. -/
theorem Element.ReadsBack.keepsType (h : e.ReadsBack) :
    isPlainTag e.tag = true ∧ e.KeepsType e.tag := by
  obtain ⟨read, hparse, hsame⟩ := h
  obtain ⟨hprintable, -⟩ := Reader.isPrintable_of_parse Reader.standard_grammar hparse
  obtain ⟨-, hlegible⟩ := hprintable.here
  have hplain := hlegible.plainTag
  cases read with
  | scalar own value =>
    obtain ⟨other, rfl, hvalue⟩ := exists_of_same_scalar hsame
    refine ⟨hplain, ?_⟩
    by_cases htype : value.type = .instant
    · cases value <;> cases htype
      cases other <;> first | cases hvalue | exact hlegible.2.1
    · obtain rfl := Scalar.eq_of_same hvalue htype
      cases other with
      | string | uuid => exact hlegible.2
      | instant => exact absurd rfl htype
      | _ => trivial
  | symbol own value =>
    obtain rfl := eq_of_same_symbol hsame
    exact ⟨hplain, trivial⟩
  | collection own c =>
    obtain ⟨d, rfl, -⟩ := exists_of_same_collection hsame
    exact ⟨hplain, trivial⟩

/-- An element that reads back does so behind every tag that can be attached to it, if the reader
detaches the tag and the tag keeps the type.  A string does not read back behind the tags of instants and
UUIDs. -/
theorem readsBack_withTag {retagged : Element} (hback : e.ReadsBack)
    (hwith : e.withTag tag = .ok retagged) :
    (isPlainTag retagged.tag = true → e.KeepsType retagged.tag → retagged.ReadsBack) ∧
      ∀ text, e.string? = some text →
        retagged.tag = Element.instantTag ∨ retagged.tag = Element.uuidTag →
          ¬retagged.ReadsBack := by
  obtain ⟨attached, rfl, htag, -⟩ := Element.withTag_spec hwith
  have hattached : (e.retag attached).tag = attached := by cases e <;> rfl
  rw [hattached]
  refine ⟨fun hplain hkeeps => hback.retag htag hplain hkeeps, fun text hstring hown hagain => ?_⟩
  obtain ⟨-, hkeeps⟩ := hagain.keepsType
  cases e with
  | scalar own value =>
    cases value <;> cases hstring
    rcases hown with h | h
    · exact hkeeps.1 h
    · exact hkeeps.2 h
  | symbol | collection => cases hstring

/-- A scalar that tells its type without a tag reads back. -/
theorem readsBack_scalar {value : Scalar} (hregular : value.IsRegular) (htold : value.IsLegible "")
    (hfinite : value.isFinite = true) : (Element.scalar "" value).ReadsBack := by
  refine ⟨_, parse_text_eq (Element.everywhere_scalar.2 ⟨⟨.inl rfl, hregular⟩, rfl, htold⟩)
    (Nat.zero_le _), ?_⟩
  rw [Element.reread, Scalar.same_reread, hfinite]

theorem readsBack_withTag_unit :
    (Element.integer 7).ReadsBack ∧
      (Element.integer 7).withTag "#my/unit" = .ok (.scalar "my/unit" (.integer 7)) ∧
        (Element.scalar "my/unit" (.integer 7)).ReadsBack := by
  have hback : (Element.integer 7).ReadsBack := @readsBack_scalar (.integer 7) trivial trivial rfl
  have hwith : (Element.integer 7).withTag "#my/unit" = .ok (.scalar "my/unit" (.integer 7)) := rfl
  exact ⟨hback, hwith, (readsBack_withTag hback hwith).1 (by decide) trivial⟩

/-- The text of a string behind the tag of instants is that of an instant, and the text of an instant
without its tag is that of a string.  A symbol that does not start with a letter can be a tag, but is none
to the reader. -/
theorem not_readsBack_withTag :
    let text := Element.string "2020-01-01T00:00:00Z"
    let moment := Element.instant ⟨1577836800, 0, 0⟩
    let one := Element.integer 1
    (text.ReadsBack ∧ text.withTag "inst" = .ok (text.retag "inst") ∧
      parse (text.retag "inst").text = .ok moment ∧ moment.same (text.retag "inst") = false) ∧
    (moment.ReadsBack ∧ moment.withTag "" = .ok (moment.retag "") ∧ ¬(moment.retag "").ReadsBack) ∧
      one.ReadsBack ∧ one.withTag "*" = .ok (one.retag "*") ∧ ¬(one.retag "*").ReadsBack := by
  intro text moment one
  have hvalid : Instant.IsValid ⟨1577836800, 0, 0⟩ := ⟨by decide, by decide, by decide⟩
  have hprintable : moment.Everywhere Element.IsPrintable :=
    Element.everywhere_scalar.2 ⟨⟨.inr (by decide), hvalid⟩, by decide, rfl, by decide⟩
  have hparse : parse moment.text = .ok moment := parse_text_eq hprintable (Nat.zero_le _)
  have htext : moment.text = (text.retag "inst").text := by decide +kernel
  refine ⟨⟨readsBack_scalar trivial ⟨by decide, by decide⟩ rfl, rfl, htext ▸ hparse, rfl⟩,
    ⟨⟨moment, hparse, rfl⟩, rfl, fun h => ?_⟩,
    readsBack_scalar trivial trivial rfl, rfl, fun h => ?_⟩
  · exact absurd h.keepsType.2 (show "" ≠ "inst" by decide)
  · exact absurd h.keepsType.1 (by decide)

end Tags

end Edn
