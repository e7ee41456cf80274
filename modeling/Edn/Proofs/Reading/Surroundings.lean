import Edn.Proofs.Element.Layout
import Edn.Proofs.Element.Reread
import Edn.Proofs.Grammar.Delimiters
import Edn.Proofs.Reading.Cursor
import Edn.Proofs.Reading.Descent

/-!
# What stands around values

A value stands between blanks and comments, behind its tag, and inside
delimiters.

* `readTag_tagText`: a tag that is written in front of a value is read.
* `readsItems_pieces`: the children of a collection are read one after the
  other, if each is read on its own and blanks or comments stand between them.
  `readsItems_layout` is the case of written elements.
-/

namespace Edn

open Grammar (EndsToken symbolSet literalSet valueSet)

/-! ## First characters -/

/-- The text starts like a value. -/
def StartsValue (text : List Char) : Prop :=
  ∃ c rest, text = c :: rest ∧ valueSet.contains c = true

theorem startsValue_append {text : List Char} (h : StartsValue text) (rest : List Char) :
    StartsValue (text ++ rest) := by
  obtain ⟨c, more, rfl, hc⟩ := h
  exact ⟨c, more ++ rest, rfl, hc⟩

/-- Characters that start values are no blanks and start no comment. -/
theorem not_trivia_of_valueSet {c : Char} (hc : valueSet.contains c = true) :
    Text.isWhiteSpace c = false ∧ Cursor.isBlank c = false ∧ c ≠ ';' := by
  have hvisible := CharSet.contains_of_within
    (show valueSet.within Grammar.visibleSet = true by decide) (by decide) hc
  have hspace : Text.isWhiteSpace c = false := by
    rwa [Grammar.contains_visibleSet, Bool.not_eq_true'] at hvisible
  have hne : ∀ {d : Char}, valueSet.contains d = false → c ≠ d := by
    rintro d hd rfl
    rw [hc] at hd
    cases hd
  refine ⟨hspace, ?_, hne rfl⟩
  rw [Cursor.isBlank, hspace, Bool.false_or, beq_eq_false_iff_ne]
  exact hne rfl

/-- A blank ends a token. -/
theorem endsToken_of_blank {c : Char} (hc : Cursor.isBlank c = true) (rest : List Char) :
    EndsToken (c :: rest) := by
  rintro d ⟨⟩
  cases hd : symbolSet.contains c with
  | false => rfl
  | true =>
    have hvalue := CharSet.contains_of_within
      (show symbolSet.within valueSet = true by decide) (by decide) hd
    rw [(not_trivia_of_valueSet hvalue).2.1] at hc
    cases hc

/-- Trivia end a token, as what follows them does where there are none. -/
theorem endsToken_trivia {trivia rest : List Char} (h : IsTrivia trivia)
    (hrest : EndsToken rest) : EndsToken (trivia ++ rest) := by
  cases h with
  | nil => exact hrest
  | blank hc _ => exact endsToken_of_blank hc _
  | comment _ _ =>
    rintro d ⟨⟩
    rfl

theorem endsToken_closer (kind : CollectionKind) (rest : List Char) :
    EndsToken (kind.closer ++ rest) := by
  cases kind <;> rename_i k <;> cases k <;> (rintro d ⟨⟩; rfl)

/-! ## Tags -/

/-- A tag that the reader detaches: a letter and any characters of tags, or none at all. -/
def isPlainTag (tag : String) : Bool :=
  match tag.toList with
  | [] => true
  | c :: rest => Text.isLetter c && rest.all isTagChar

/-- The text starts like a literal. -/
def StartsLiteral (text : List Char) : Prop :=
  ∃ c rest, text = c :: rest ∧ literalSet.contains c = true

theorem StartsLiteral.opening?_eq_none {text : List Char} (h : StartsLiteral text) :
    Grammar.standard.opening? text = none := by
  obtain ⟨c, rest, rfl, hc⟩ := h
  exact Grammar.opening?_eq_none hc

/-- What stands behind a tag: a literal or a collection. -/
def StartsPayload (text : List Char) : Prop :=
  StartsLiteral text ∨ ∃ (kind : CollectionKind) (rest : List Char), text = kind.opener ++ rest

theorem startsPayload_append {text : List Char} (h : StartsPayload text) (rest : List Char) :
    StartsPayload (text ++ rest) := by
  rcases h with ⟨c, more, rfl, hc⟩ | ⟨kind, more, rfl⟩
  · exact .inl ⟨c, more ++ rest, rfl, hc⟩
  · exact .inr ⟨kind, more ++ rest, List.append_assoc _ _ _⟩

theorem StartsPayload.startsValue {text : List Char} (h : StartsPayload text) :
    StartsValue text := by
  rcases h with ⟨c, more, rfl, hc⟩ | ⟨kind, more, rfl⟩
  · exact ⟨c, more, rfl, Grammar.contains_valueSet hc⟩
  · cases kind <;> rename_i k <;> cases k <;> exact ⟨_, _, rfl, rfl⟩

theorem StartsPayload.startsValue_tagText {payload : List Char} (h : StartsPayload payload)
    (tag : String) : StartsValue (tagText tag ++ payload) := by
  rw [tagText]
  split
  · exact h.startsValue
  · exact ⟨'#', _, rfl, rfl⟩

theorem StartsPayload.tagLength?_eq_none {text : List Char} (h : StartsPayload text) :
    tagLength? text = none := by
  rcases h with ⟨c, more, rfl, hc⟩ | ⟨kind, more, rfl⟩
  · unfold tagLength?
    split
    · next heq =>
      cases heq
      exact absurd hc (by decide)
    · rfl
  · cases kind <;> rename_i k <;> cases k <;> rfl

theorem closing?_eq_none_of_startsValue {text : List Char} (h : StartsValue text) :
    Grammar.standard.closing? text = none := by
  obtain ⟨c, rest, rfl, hc⟩ := h
  exact Grammar.closing?_eq_none hc

theorem endsValue_eq_false {text : List Char} (h : StartsValue text) :
    endsValue Grammar.standard text = false := by
  rw [endsValue, closing?_eq_none_of_startsValue h]
  obtain ⟨c, rest, rfl, hc⟩ := h
  simp [(not_trivia_of_valueSet hc).2.2]

/-- A tag is a number sign, a letter, and what may follow it. -/
theorem exists_of_tagLength? {text : List Char} {length : Nat} (h : tagLength? text = some length) :
    ∃ c rest, text = '#' :: c :: rest ∧ Text.isLetter c = true ∧
      length = (rest.takeWhile isTagChar).length + 2 := by
  unfold tagLength? at h
  split at h
  · next c rest =>
    split at h
    · next hc =>
      cases h
      exact ⟨c, rest, rfl, hc, rfl⟩
    · cases h
  · cases h

theorem tagLength?_append {c : Char} {more : List Char} (hc : Text.isLetter c = true)
    (hmore : more.all isTagChar = true) (payload : List Char) :
    tagLength? ('#' :: c :: more ++ ' ' :: payload) = some (more.length + 2) := by
  rw [List.cons_append, List.cons_append, tagLength?, if_pos hc,
    List.takeWhile_append_of_pos (List.all_eq_true.1 hmore)]
  simp [isTagChar, Text.isLetter, Text.isDigit]

/-- Behind a tag and a space, a payload is where the value starts. -/
theorem afterTag_eq {k : Cursor} {length : Nat} {payload : List Char}
    (hrest : (k.advance length).rest = ' ' :: payload) (hpayload : StartsPayload payload) :
    afterTag k length = (k.advance length).advance 1 := by
  refine @Cursor.skipWhile_eq _ _ [' '] _ hrest (List.all_eq_true.1 rfl) ?_
  obtain ⟨d, rest, rfl, hd⟩ := hpayload.startsValue
  rintro _ ⟨⟩
  exact (not_trivia_of_valueSet hd).1

/-- A tag in front of a space and a payload is no fault. -/
theorem tagFault?_eq_none {k : Cursor} {length : Nat} {tag : String} {payload : List Char}
    (hrest : (k.advance length).rest = ' ' :: payload) (hpayload : StartsPayload payload) :
    tagFault? Grammar.standard k length tag = none := by
  have hafter := afterTag_eq hrest hpayload
  have hvalue : (afterTag k length).rest = payload := by
    rw [hafter]
    exact @Cursor.rest_advance_of_eq _ [' '] _ hrest
  have hposition : (afterTag k length).position ≠ (k.advance length).position := by
    rw [hafter]
    exact (Cursor.position_next_lt (hrest ▸ List.cons_ne_nil _ _)).ne'
  rw [tagFault?, hvalue, endsValue_eq_false hpayload.startsValue, hpayload.tagLength?_eq_none]
  simp [hposition]

/-- A tag is read as it was written in front of a payload. -/
theorem readTag_tagText {tag : String} (htag : isPlainTag tag = true) {k : Cursor}
    {payload : List Char} (hpayload : StartsPayload payload) (hk : k.rest = tagText tag ++ payload) :
    readTag Grammar.standard k = .ok tag (k.advance (tagText tag).length) := by
  unfold isPlainTag at htag
  split at htag
  · next hnil =>
    obtain rfl : tag = "" := String.toList_inj.1 hnil
    rw [readTag, hk, show tagText "" = [] from rfl, List.nil_append, hpayload.tagLength?_eq_none]
    rfl
  · next c more hcons =>
    obtain ⟨hc, hmore⟩ := Bool.and_eq_true_iff.1 htag
    have htext : tagText tag = '#' :: c :: more ++ [' '] := by
      have hne : tag.isEmpty = false := by
        rw [String.isEmpty_eq_false_iff]
        rintro rfl
        cases hcons
      rw [tagText, hne, hcons, if_neg Bool.false_ne_true]
    have hsplit : k.rest = '#' :: c :: more ++ ' ' :: payload := by
      rw [hk, htext, List.append_assoc, List.singleton_append]
    have hlength : tagLength? k.rest = some (more.length + 2) := by
      rw [hsplit]
      exact tagLength?_append hc hmore payload
    have hname : String.ofList ((k.rest.take (more.length + 2)).drop 1) = tag := by
      rw [hsplit, List.take_left' (by simp), List.drop_one, List.tail_cons, ← hcons,
        String.ofList_toList]
    have hrest : (k.advance (more.length + 2)).rest = ' ' :: payload :=
      @Cursor.rest_advance_of_eq k ('#' :: c :: more) _ hsplit
    rw [readTag, hlength]
    dsimp only
    rw [hname, tagFault?_eq_none hrest hpayload, afterTag_eq hrest hpayload,
      Cursor.advance_advance, htext]
    simp

/-! ## Reading children -/

/-- A text that stands for a value inside a collection, and the separator in front of it. -/
structure Piece where
  separator : List Char
  text : List Char
  value : Element

/-- The text of a collection from its opening delimiter to its last child. -/
def piecesText (pieces : List Piece) : List Char :=
  pieces.flatMap fun piece => piece.separator ++ piece.text

theorem piecesText_nil : piecesText [] = [] :=
  rfl

theorem piecesText_cons (piece : Piece) (pieces : List Piece) :
    piecesText (piece :: pieces) = piece.separator ++ (piece.text ++ piecesText pieces) := by
  rw [piecesText, List.flatMap_cons, List.append_assoc]
  rfl

/-- Blanks and comments separate the pieces; there may be none in front of the first. -/
structure SetApart (pieces : List Piece) : Prop where
  trivia : ∀ piece ∈ pieces, IsTrivia piece.separator
  apart : ∀ piece ∈ pieces.tail, piece.separator ≠ []

theorem SetApart.tail {pieces : List Piece} (h : SetApart pieces) : SetApart pieces.tail where
  trivia piece hpiece := h.trivia piece (List.mem_of_mem_tail hpiece)
  apart piece hpiece := h.apart piece (List.mem_of_mem_tail hpiece)

/-- The text is read as the value wherever it stands, if what follows does not lengthen it. -/
def ReadsAs (maxDepth depth : Nat) (text : List Char) (value : Element) : Prop :=
  ∀ (k : Cursor) (rest : List Char), k.rest = text ++ rest → EndsToken rest →
    ReadsValue Grammar.standard maxDepth depth k (.ok value (k.advance text.length))

theorem ReadsAs.readsValue_start {maxDepth depth : Nat} {text : List Char} {value : Element}
    (h : ReadsAs maxDepth depth text value) :
    ReadsValue Grammar.standard maxDepth depth (.start text)
      (.ok value ((Cursor.start text).advance text.length)) :=
  h (.start text) [] (List.append_nil _).symm Grammar.endsToken_nil

/-- Reading the text of an element has the element that the text tells as its outcome. -/
def ReadsBack (maxDepth depth : Nat) (e : Element) : Prop :=
  ∀ (k : Cursor) (rest : List Char), k.rest = e.chars ++ rest → EndsToken rest →
    ReadsValue Grammar.standard maxDepth depth k (.ok e.reread (k.advance e.chars.length))

/-- Behind a child there is a separator or the closing delimiter. -/
theorem endsToken_piecesText {piece : Piece} {pieces : List Piece} {last : List Char}
    (h : SetApart (piece :: pieces)) (hlast : IsTrivia last) (kind : CollectionKind)
    (rest : List Char) : EndsToken (piecesText pieces ++ (last ++ (kind.closer ++ rest))) := by
  cases pieces with
  | nil =>
    rw [piecesText_nil, List.nil_append]
    exact endsToken_trivia hlast (endsToken_closer kind rest)
  | cons next pieces =>
    have htrivia := h.trivia next (List.mem_cons_of_mem _ List.mem_cons_self)
    have hne : next.separator ≠ [] := h.apart next List.mem_cons_self
    rw [piecesText_cons, List.append_assoc]
    cases htrivia' : next.separator with
    | nil => exact absurd htrivia' hne
    | cons c more =>
      have hends := endsToken_trivia htrivia Grammar.endsToken_nil
      rw [htrivia'] at hends
      exact hends

/-- No blank and no comment starts with a closing delimiter. -/
theorem not_trivia_closer (kind : CollectionKind) (rest : List Char) :
    ∀ c ∈ (kind.closer ++ rest).head?, Cursor.isBlank c = false ∧ c ≠ ';' := by
  cases kind <;> rename_i kind <;> cases kind <;> (rintro c ⟨⟩; decide)

/-- Texts that are read on their own are read as the items of a collection. -/
theorem readsItems_pieces {maxDepth depth : Nat} {kind : CollectionKind} {start : Span}
    {pieces : List Piece} {last : List Char} (hpieces : SetApart pieces) (hlast : IsTrivia last)
    (hstarts : ∀ piece ∈ pieces, StartsValue piece.text)
    (hreads : ∀ piece ∈ pieces, ReadsAs maxDepth depth piece.text piece.value) {k : Cursor}
    {rest : List Char} (hk : k.rest = piecesText pieces ++ (last ++ (kind.closer ++ rest))) :
    ReadsItems Grammar.standard maxDepth depth kind.closer start k
      (.ok (pieces.map Piece.value)
        (k.advance ((piecesText pieces ++ last).length + kind.closer.length))) := by
  induction pieces generalizing k with
  | nil =>
    rw [piecesText_nil, List.nil_append] at hk
    have hskip : k.skipTrivia = k.advance last.length :=
      Cursor.skipTrivia_eq hk hlast (not_trivia_closer kind rest)
    have hrest := Cursor.rest_advance_of_eq hk
    rw [← hskip] at hrest
    obtain ⟨rule, hclose, hcloser⟩ := Grammar.closing?_closer kind rest
    have hread := @ReadsItems.close Grammar.standard maxDepth depth kind.closer start k rule
      (by rw [hrest]; exact hclose) hcloser
    rw [hskip, Cursor.advance_advance] at hread
    exact hread
  | cons piece pieces ih =>
    obtain ⟨hstart, hlaterStart⟩ := List.forall_mem_cons.1 hstarts
    obtain ⟨hread, hlaterRead⟩ := List.forall_mem_cons.1 hreads
    have hends := endsToken_piecesText hpieces hlast kind rest
    rw [piecesText_cons, List.append_assoc, List.append_assoc] at hk
    have hchild := startsValue_append hstart (piecesText pieces ++ (last ++ (kind.closer ++ rest)))
    have hskip : k.skipTrivia = k.advance piece.separator.length := by
      refine Cursor.skipTrivia_eq hk (hpieces.trivia _ List.mem_cons_self) ?_
      obtain ⟨c, more, heq, hc⟩ := hchild
      rw [heq]
      rintro d ⟨⟩
      exact (not_trivia_of_valueSet hc).2
    have hrest := Cursor.rest_advance_of_eq hk
    have hvalue := hread _ _ hrest hends
    have hitems := ih hpieces.tail hlaterStart hlaterRead (Cursor.rest_advance_of_eq hrest)
    rw [← hskip] at hvalue hitems hrest
    have hne : k.skipTrivia.rest ≠ [] := by
      obtain ⟨c, more, heq, -⟩ := hchild
      rw [hrest, heq]
      exact List.cons_ne_nil _ _
    have hclose : Grammar.standard.closing? k.skipTrivia.rest = none := by
      rw [hrest]
      exact closing?_eq_none_of_startsValue hchild
    have hall := ReadsItems.item hne hclose hvalue hitems
    rw [hskip, Cursor.advance_advance, Cursor.advance_advance] at hall
    rw [piecesText_cons]
    simpa [afterItems, Outcome.ok, Nat.add_assoc] using hall

/-- Elements that are read back one by one are read back as the items of a collection. -/
theorem readsItems_layout {maxDepth depth : Nat} {kind : CollectionKind} {start : Span}
    {layout : List (List Char × Element)} (hlayout : Separated layout)
    (hstarts : ∀ piece ∈ layout, StartsValue piece.2.chars)
    (hreads : ∀ piece ∈ layout, ReadsBack maxDepth depth piece.2) {k : Cursor} {rest : List Char}
    (hk : k.rest = layoutText layout ++ (kind.closer ++ rest)) :
    ReadsItems Grammar.standard maxDepth depth kind.closer start k
      (.ok (layout.map fun piece => piece.2.reread)
        (k.advance ((layoutText layout).length + kind.closer.length))) := by
  have htext : piecesText (layout.map fun piece => ⟨piece.1, piece.2.chars, piece.2.reread⟩) =
      layoutText layout := by
    rw [piecesText, List.flatMap_map, layoutText]
  have hapart : SetApart (layout.map fun piece => ⟨piece.1, piece.2.chars, piece.2.reread⟩) := by
    refine ⟨List.forall_mem_map.2 fun piece hpiece => .of_blank (hlayout.blank piece hpiece), ?_⟩
    rw [← List.map_tail]
    exact List.forall_mem_map.2 hlayout.apart
  have hitems := @readsItems_pieces maxDepth depth kind start _ [] hapart .nil
    (List.forall_mem_map.2 hstarts) (List.forall_mem_map.2 hreads) k rest
    (by rw [htext, List.nil_append]; exact hk)
  rw [htext, List.append_nil, List.map_map] at hitems
  exact hitems

end Edn
