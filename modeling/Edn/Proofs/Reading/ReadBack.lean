import Edn.Proofs.Reading.Payloads

/-!
# Elements read back

`readsBack` is the round trip: the text of a legible, well-formed element is
read as the element that it tells, wherever it stands, if collections may
nest as deep as it does.  The induction is on the parts of the element; the
children of a collection are read back one by one, and the collection is
built again from them.
-/

namespace Edn

open Grammar (EndsToken standard collectionRule build)

/-! ## Collections built again -/

theorem flatten_ofFlat {children : List Element} {pairs : List (Element × Element)}
    (h : pairUp? children = some pairs) :
    Pair.flatten (pairs.map fun (key, value) => ⟨key, value⟩) = children := by
  fun_induction pairUp? children generalizing pairs with
  | case1 =>
    cases h
    rfl
  | case2 => cases h
  | case3 key value rest ih =>
    obtain ⟨others, hothers, rfl⟩ := Option.map_eq_some_iff.1 h
    have ih := ih hothers
    rw [Pair.flatten] at ih ⊢
    rw [List.map_cons, List.flatMap_cons, ih]
    rfl

/-- The children of a filed collection are built into it. -/
theorem build_written {c : Collection} (h : c.IsFiled) :
    build c.kind c.written = .ok (.ofCollection c) := by
  have hmade := Collection.ofElements_written h
  cases c with
  | ordered kind items => cases kind <;> rfl
  | keyed kind entries =>
    cases kind with
    | set =>
      show Element.set (Collection.keyed .set entries).written = _
      rw [Element.set, show CollectionKind.keyed .set = (Collection.keyed .set entries).kind from rfl,
        hmade]
      rfl
    | map =>
      have hpairs := pairUp?_flatMap Entry.key Entry.value entries
      have hflatten := flatten_ofFlat hpairs
      show (Pair.ofFlat (Collection.keyed .map entries).written >>= Element.map) = _
      rw [Pair.ofFlat, Collection.written, hpairs]
      show Element.map _ = _
      rw [Element.map, Collection.ofPairs, hflatten]
      show (Collection.ofElements (Collection.keyed .map entries).kind
        (Collection.keyed .map entries).written).map Element.ofCollection = _
      rw [hmade]
      rfl

/-! ## Payloads -/

/-- The text of an element behind its tag. -/
def Element.payload : Element → List Char
  | .scalar _ value => value.text
  | .symbol _ value => value.text.toList
  | .collection _ value => value.chars

theorem Element.chars_eq (e : Element) : e.chars = tagText e.tag ++ e.payload := by
  cases e <;> rfl

/-- The element is well formed, and its text tells what it is, whatever the parts are. -/
def Element.IsPrintable (e : Element) : Prop :=
  e.IsRegular ∧ e.IsLegible

/-- The program can write a printable element. -/
theorem Element.isWritable_of_isPrintable {e : Element} (h : e.Everywhere IsPrintable) :
    e.isWritable = true := by
  refine (h.imp fun part hpart => ?_).isWritable
  cases part with
  | scalar tag value => simpa [scalar?] using hpart.2.2.isWritable
  | symbol tag value => simp [scalar?]
  | collection tag value => simp [scalar?]

theorem Element.IsPrintable.startsPayload {e : Element} (h : e.IsPrintable) :
    StartsPayload e.payload := by
  obtain ⟨hregular, hlegible⟩ := h
  cases e with
  | scalar tag value =>
    exact .inl (@readLiteral_scalar tag (.start value.text) [] value hregular hlegible
      (List.append_nil _).symm Grammar.endsToken_nil).2
  | symbol tag s =>
    exact .inl (@readLiteral_symbol tag (.start s.text.toList) [] s hregular hlegible
      (List.append_nil _).symm Grammar.endsToken_nil).2
  | collection tag c =>
    refine .inr ⟨c.kind, layoutText c.layout ++ c.kind.closer, ?_⟩
    rw [payload, c.chars_eq, List.append_assoc]

theorem Element.IsPrintable.startsValue {e : Element} (h : e.IsPrintable) :
    StartsValue e.chars := by
  rw [e.chars_eq]
  exact h.startsPayload.startsValue_tagText e.tag

/-! ## The round trip -/

/-- The layout of a collection is read back as the children of the collection read back. -/
theorem map_reread_layout (c : Collection) :
    (c.layout.map fun piece => piece.2.reread) = c.reread.written := by
  rw [c.written_reread, c.written_eq, List.map_map]
  rfl

/-- The rule of a collection attaches the tag to what is built of the children. -/
theorem process_of_build {kind : CollectionKind} {tag : String} {children : List Element}
    {e : Element} (hbuild : build kind children = .ok e) (he : e.tag = "") (htag : IsTag tag)
    (hplain : isPlainTag tag = true) :
    (collectionRule kind).process tag children = .ok (e.retag tag) := by
  show (build kind children >>= fun value => Grammar.tagged value tag) = _
  rw [hbuild]
  exact tagged_eq he htag hplain

/-- It refuses children of which nothing can be built. -/
theorem process_of_build_error {kind : CollectionKind} {children : List Element} {error : Error}
    (hbuild : build kind children = .error error) (tag : String) :
    (collectionRule kind).process tag children = .error error := by
  show (build kind children >>= fun value => Grammar.tagged value tag) = _
  rw [hbuild]
  rfl

/-- The rule of a collection builds it again from its children. -/
theorem process_written {tag : String} {c : Collection}
    (hregular : (Element.collection tag c).IsRegular) (hplain : isPlainTag tag = true) :
    (collectionRule c.kind).process tag c.written = .ok (.collection tag c) :=
  process_of_build (build_written hregular.2) rfl hregular.1 hplain

theorem buildCollection_ok {rule : DelimiterRule} {tag : String} {start : Span} {next : Cursor}
    {items : List Element} {value : Element} (h : rule.process tag items = .ok value) :
    buildCollection rule tag start (.ok items next) = .ok value next := by
  simp only [buildCollection, Outcome.ok, h]

theorem buildCollection_error {rule : DelimiterRule} {tag : String} {start : Span} {next : Cursor}
    {items : List Element} {error : Error} (h : rule.process tag items = .error error) :
    buildCollection rule tag start (.ok items next) = .error ⟨start, error⟩ next := by
  simp only [buildCollection, Outcome.ok, h]

/-- A collection behind its tag is read back, if its parts are one level deeper. -/
theorem readsValue_collection {maxDepth depth : Nat} {tag : String} {c : Collection}
    (hregular : (Element.collection tag c).IsRegular) (hplain : isPlainTag tag = true)
    (hdepth : depth < maxDepth) (hstarts : ∀ part ∈ c.parts, StartsValue part.chars)
    (hreads : ∀ part ∈ c.parts, ReadsBack maxDepth (depth + 1) part) {k next : Cursor}
    {rest : List Char} (htag : readTag standard k = .ok tag next)
    (hnext : next.rest = c.chars ++ rest) :
    ReadsValue standard maxDepth depth k
      (.ok (.collection tag c.reread) (next.advance c.chars.length)) := by
  rw [c.chars_eq, List.append_assoc, List.append_assoc] at hnext
  have hopen : standard.opening? next.rest = some (collectionRule c.kind) := by
    rw [hnext]
    exact Grammar.opening?_opener c.kind _
  have hitems := @readsItems_layout maxDepth (depth + 1) c.kind k.mark c.layout c.separated_layout
    (fun piece hpiece => hstarts piece.2 (c.mem_parts_of_mem_layout hpiece))
    (fun piece hpiece => hreads piece.2 (c.mem_parts_of_mem_layout hpiece)) _ rest
    (Cursor.rest_advance_of_eq hnext)
  have hread := ReadsValue.collection htag hopen hdepth hitems
  have hregular' : (Element.collection tag c.reread).IsRegular := ⟨hregular.1, hregular.2.reread⟩
  have hprocess := process_written hregular' hplain
  rw [c.kind_reread] at hprocess
  rw [map_reread_layout, buildCollection_ok hprocess] at hread
  have hlength : c.chars.length =
      c.kind.opener.length + ((layoutText c.layout).length + c.kind.closer.length) := by
    rw [c.chars_eq, List.length_append, List.length_append, Nat.add_assoc]
  rw [hlength, ← Cursor.advance_advance]
  exact hread

/-- The text of an element is read back, if collections may nest as deep as it does. -/
theorem readsBack {maxDepth : Nat} {e : Element} (h : e.Everywhere Element.IsPrintable) :
    ∀ depth, depth + e.depth ≤ maxDepth → ReadsBack maxDepth depth e := by
  induction h with
  | @intro e here parts ih =>
    intro depth hdepth k rest hk hrest
    have hplain := here.2.plainTag
    rw [e.chars_eq, List.append_assoc] at hk
    have htag := readTag_tagText hplain (startsPayload_append here.startsPayload rest) hk
    have hnext := Cursor.rest_advance_of_eq hk
    rw [e.chars_eq, List.length_append, ← Cursor.advance_advance]
    generalize k.advance (tagText e.tag).length = next at *
    cases e with
    | scalar tag value =>
      obtain ⟨hliteral, hstart⟩ := readLiteral_scalar here.1 here.2 hnext hrest
      exact hliteral ▸ ReadsValue.literal htag hstart.opening?_eq_none
    | symbol tag s =>
      obtain ⟨hliteral, hstart⟩ := readLiteral_symbol here.1 here.2 hnext hrest
      exact hliteral ▸ ReadsValue.literal htag hstart.opening?_eq_none
    | collection tag c =>
      have hpos : 0 < c.depth := c.depth_pos
      replace hdepth : depth + c.depth ≤ maxDepth := hdepth
      have hparts := Collection.depth_le_iff.1 (show c.depth ≤ (c.depth - 1) + 1 by omega)
      refine readsValue_collection here.1 hplain (by omega)
        (fun part hpart => (parts part hpart).here.startsValue) (fun part hpart => ?_) htag hnext
      have := hparts part hpart
      exact ih part hpart (depth + 1) (by omega)

end Edn
