import Edn.Proofs.Element.Sameness
import Edn.Proofs.Reading.Values

/-!
# Round trips

The text of an element is read as the element, and what is read is written
as a text that reads the same.

* `exists_parse_text` starts from an element.  It has to be readable: its
  text tells everything about it, and collections nest no deeper than the
  reader allows.
* `parse_text_of_parse` starts from a text.  Whatever is read is readable,
  except for one thing: a numeral beyond the greatest float is read as an
  infinite one, whose text is a symbol.
-/

namespace Edn

/-- A printable element is read from its text as its text tells it. -/
theorem parse_text_eq {e : Element} (h : e.Everywhere Element.IsPrintable) (hdepth : e.depth ≤ 512) :
    parse e.text = .ok e.reread :=
  @Reader.parse_text .standard e Reader.standard_grammar h hdepth e.text [] (by simp [Element.text])
    (List.forall_mem_nil _) rfl

/-! ## From elements -/

/-- The text of the element tells it, whatever the parts are. -/
def Element.IsReadable (e : Element) : Prop :=
  e.IsLegible ∧ e.isFinite = true

/-- A readable element is read from its text: the same element with the same text.  Whatever the
operations make is well formed (`Element.IsMade.isWellFormed`). -/
theorem exists_parse_text {e : Element} (h : e.IsWellFormed)
    (hreadable : e.Everywhere Element.IsReadable) (hdepth : e.depth ≤ 512) :
    ∃ e', parse e.text = .ok e' ∧ e'.same e = true ∧ e'.text = e.text := by
  have hprintable : e.Everywhere Element.IsPrintable :=
    h.and (hreadable.imp fun _ h => h.1)
  have hfinite : e.Everywhere (·.isFinite = true) := hreadable.imp fun _ h => h.2
  exact ⟨e.reread, parse_text_eq hprintable hdepth,
    (Element.same_reread_iff h).2 hfinite.amongValues, e.text_reread⟩

/-- The entries of `shape`. -/
def shapeEntries : List Entry :=
  [⟨":at", .symbol "" ⟨"", "at", true⟩, .scalar "inst" (.instant ⟨0, 0, 0⟩)⟩,
    ⟨"corners", .symbol "" ⟨"", "corners", false⟩, .collection "" (.ordered .vector
      [.scalar "" (.integer (-7)), .scalar "" (.character '\n'), .scalar "" (.string "x y")])⟩]

/-- The element of `#app/shape {:at #inst "1970-01-01T00:00:00Z", corners [-7 \newline "x y"]}`. -/
def shape : Element :=
  .collection "app/shape" (.keyed .map shapeEntries)

theorem isWellFormed_shape : shape.IsWellFormed := by
  have hfiled : (Collection.keyed .map shapeEntries).IsFiled := by
    refine ⟨by decide, ?_⟩
    simp only [shapeEntries, List.forall_mem_cons]
    exact ⟨⟨by decide +kernel, by simp⟩, ⟨by decide +kernel, by simp⟩, List.forall_mem_nil _⟩
  have hinstant : Instant.IsValid ⟨0, 0, 0⟩ := ⟨by decide, by decide, by decide⟩
  simp only [shape, Element.IsWellFormed, Element.everywhere_keyed]
  refine ⟨⟨.inr (by decide), hfiled⟩, ?_⟩
  simp [shapeEntries, Element.everywhere_ordered, Element.everywhere_scalar,
    Element.everywhere_symbol, Entry.key, Entry.value, Element.IsRegular, Scalar.IsRegular,
    Collection.IsFiled, hinstant]
  decide

theorem isReadable_shape : shape.Everywhere Element.IsReadable := by
  have hinstant : Instant.IsLegible ⟨0, 0, 0⟩ := by decide
  simp [shape, shapeEntries, Element.everywhere_keyed, Element.everywhere_ordered,
    Element.everywhere_scalar, Element.everywhere_symbol, Entry.key, Entry.value,
    Element.IsReadable, Element.IsLegible, Scalar.IsLegible, Element.isFinite, Scalar.isFinite,
    hinstant]
  decide

theorem exists_parse_text_shape :
    ∃ e, parse shape.text = .ok e ∧ e.same shape = true ∧ e.text = shape.text :=
  exists_parse_text isWellFormed_shape isReadable_shape (by decide)

/-! ## From texts -/

/-- What is read from a text is written as a text that is read again.  The second element counts as
the same if every float among the values of the first is finite, and is the same through and through
if every float in it is. -/
theorem parse_text_of_parse {source : String} {e : Element} (h : parse source = .ok e) :
    ∃ e', parse e.text = .ok e' ∧ e'.text = e.text ∧
      (e'.same e = true ↔ e.AmongValues (·.isFinite = true)) ∧
        (e' = e ↔ e.Everywhere (·.isFinite = true)) := by
  obtain ⟨hprintable, hdepth⟩ := Reader.isPrintable_of_parse rfl h
  have hwellFormed : e.IsWellFormed := hprintable.imp fun _ h => h.1
  exact ⟨e.reread, parse_text_eq hprintable hdepth, e.text_reread,
    Element.same_reread_iff hwellFormed, e.reread_eq_self_iff⟩

/-- A text that is the token of a float is read as the float. -/
theorem parse_floatToken {text : String} {x : Decimal.Double} {last : Grammar.FloatState}
    (hafter : Grammar.floatMachine.after? .start text.toList = some last)
    (haccepts : Grammar.floatMachine.accepts last = true)
    (hlong : ∃ c ∈ text.toList, Grammar.integerSet.contains c = false)
    (hread : Grammar.readFloat text = .ok x) : parse text = .ok (.scalar "" (.float x)) := by
  have hmatch := Grammar.longestMatch?_floatToken hafter haccepts
    (Grammar.longest?_integer_lt hlong []) Grammar.endsToken_nil
  rw [List.append_nil] at hmatch
  refine Reader.parse_token Reader.standard_grammar hmatch ?_ rfl
  show (Grammar.readFloat text >>= fun value => Grammar.tagged (.float value) "") = _
  rw [hread]
  rfl

/-- The float two and a half. -/
def twoAndHalf : Decimal.Double :=
  ⟨0x4004000000000000⟩

theorem parse_twoAndHalf : parse "2.50M" = .ok (.scalar "" (.float twoAndHalf)) :=
  parse_floatToken rfl rfl ⟨'.', by decide, by decide⟩ (by decide +kernel)

theorem parse_text_of_parse_twoAndHalf :
    parse (Element.scalar "" (.float twoAndHalf)).text = .ok (.scalar "" (.float twoAndHalf)) := by
  obtain ⟨e, hparse, -, -, heq⟩ := parse_text_of_parse parse_twoAndHalf
  rw [hparse, heq.2 (Element.everywhere_scalar.2 (by decide))]

/-- The infinite float. -/
def infinite : Decimal.Double :=
  .ofParts false Decimal.double.infinity

theorem text_infinite : (Element.scalar "" (.float infinite)).text = "+Inf" := by decide +kernel

/-- A numeral beyond the greatest float is read as an infinite one. -/
theorem parse_infinite : parse "1e999" = .ok (.scalar "" (.float infinite)) :=
  parse_floatToken rfl rfl ⟨'e', by decide, by decide⟩ (by decide +kernel)

/-- An infinite float is written as a symbol, which is another element. -/
theorem not_same_parse_text_infinite :
    parse "1e999" = .ok (.scalar "" (.float infinite)) ∧
      (Element.scalar "" (.float infinite)).text = "+Inf" ∧
        parse "+Inf" = .ok (.symbol "" ⟨"", "+Inf", false⟩) ∧
          (Element.symbol "" ⟨"", "+Inf", false⟩).same (.scalar "" (.float infinite)) = false := by
  have hprintable : (Element.scalar "" (.float infinite)).Everywhere Element.IsPrintable :=
    Element.everywhere_scalar.2 ⟨⟨.inl rfl, trivial⟩, rfl, trivial⟩
  have hparse := parse_text_eq hprintable (Nat.zero_le _)
  rw [text_infinite] at hparse
  exact ⟨parse_infinite, text_infinite, hparse, rfl⟩

end Edn
