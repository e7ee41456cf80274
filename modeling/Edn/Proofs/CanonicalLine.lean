import Edn.Proofs.CommandLine
import Edn.Proofs.Representation

/-!
# Canonical texts are lines

The text of an element has no control characters.  So it has no line break
either, and what `fmt` prints is one line.

* `Text.IsClean` says that a text has no control characters.  Quoted texts
  and characters are clean whatever they are made from; all other texts of
  payloads consist of characters that may stand in tokens.
* `Element.IsWellFormed.isClean_chars` carries this through an element.  The
  text of a collection is taken apart by its layout (`Collection.chars_eq`).
* `Options.exists_line` says what the formatter prints, under any limits and
  in any format.
* `canonical_line` puts both together.
-/

namespace Edn

/-! ## Clean texts -/

namespace Text

/-- A text has no control characters. -/
def IsClean (text : List Char) : Prop :=
  ∀ c ∈ text, isControl c = false

instance (text : List Char) : Decidable (IsClean text) :=
  decidable_of_iff (text.all (fun c => !isControl c) = true) (by simp [IsClean])

variable {text more : List Char} {c : Char}

theorem isClean_cons : IsClean (c :: text) ↔ isControl c = false ∧ IsClean text :=
  List.forall_mem_cons

theorem isClean_append : IsClean (text ++ more) ↔ IsClean text ∧ IsClean more :=
  List.forall_mem_append

/-- Characters of a set that lies apart from the control characters make up a clean text. -/
theorem isClean_of_contains {set : CharSet} (hset : set.apart ⟨control⟩ = true)
    (h : ∀ c ∈ text, set.contains c = true) : IsClean text :=
  fun c hc => CharSet.contains_of_apart hset (h c hc)

/-- Tokens are clean. -/
theorem isClean_of_symbolSet (h : ∀ c ∈ text, Grammar.symbolSet.contains c = true) : IsClean text :=
  isClean_of_contains (by decide) h

theorem isClean_codePoint (c : Char) : IsClean (codePoint c) := by
  rw [codePoint, isClean_cons]
  exact ⟨by decide, forall_mem_hex (by decide) 4 c.toNat⟩

/-- A control character between quotes is written by a letter or by its code point. -/
theorem isClean_escape (c : Char) : IsClean (escape c) := by
  unfold escape
  split
  case h_8 =>
    by_cases hcontrol : isControl c = true
    · rw [if_pos hcontrol, isClean_cons]
      exact ⟨by decide, isClean_codePoint c⟩
    · rw [if_neg hcontrol]
      exact List.forall_mem_singleton.2 (Bool.not_eq_true _ ▸ hcontrol)
  all_goals decide

/-- A text between quotes is clean, whatever it is. -/
theorem isClean_quote (text : List Char) : IsClean (quote text) := by
  have hbody : IsClean (escapeAll text) := by
    intro c hc
    obtain ⟨source, -, hc⟩ := List.mem_flatMap.1 hc
    exact isClean_escape source c hc
  rw [quote, List.cons_append, isClean_cons, isClean_append]
  exact ⟨by decide, hbody, by decide⟩

/-- The control characters are neither visible nor beyond `FFFF`. -/
theorem isControl_of_plain (h : (isGraphic c || decide (0xffff < c.toNat)) = true) :
    isControl c = false := by
  rcases Bool.or_eq_true_iff.1 h with hgraphic | hbeyond
  · exact isControl_of_isGraphic hgraphic
  · rw [← Bool.not_eq_true]
    intro hcontrol
    have hlow := toNat_le_of_isControl hcontrol
    have hhigh := of_decide_eq_true hbeyond
    omega

/-- A character after its backslash is clean, whatever it is. -/
theorem isClean_character (c : Char) : IsClean (character c) := by
  have hbody : IsClean (characterBody c) := by
    unfold characterBody
    split
    · next name hname =>
      have hnames : ∀ named ∈ namedCharacters, IsClean named.2.toList := by decide
      obtain ⟨before, after, hsplit, -⟩ := List.lookup_eq_some_iff.1 hname
      exact hnames (c, name) (by simp [hsplit])
    · by_cases hplain : (isGraphic c || decide (0xffff < c.toNat)) = true
      · rw [if_pos hplain]
        exact List.forall_mem_singleton.2 (isControl_of_plain hplain)
      · rw [if_neg hplain]
        exact isClean_codePoint c
  exact isClean_cons.2 ⟨by decide, hbody⟩

end Text

/-! ## Payloads -/

theorem Decimal.Double.isClean_scientific (x : Double) : Text.IsClean x.scientific := by
  by_cases hnan : x.isNaN = true
  · rw [scientific, if_pos hnan]
    decide
  · by_cases hinf : x.isInfinite = true
    · rw [scientific, if_neg hnan, if_pos hinf]
      cases x.isNegative <;> decide
    · have hafter := Grammar.after?_scientific (Bool.not_eq_true _ ▸ hnan) (Bool.not_eq_true _ ▸ hinf)
      exact Text.isClean_of_symbolSet (Machine.forall_of_after? Grammar.reads_float hafter)

/-- The text of a scalar is clean, be it regular or not. -/
theorem Scalar.isClean_text (value : Scalar) : Text.IsClean value.text := by
  cases value with
  | nil => decide
  | boolean value => cases value <;> decide
  | string value => exact Text.isClean_quote _
  | character value => exact Text.isClean_character value
  | integer value =>
    obtain ⟨last, hafter, -⟩ := Grammar.after?_signedDecimal value.toInt
    exact Text.isClean_of_symbolSet (Machine.forall_of_after? Grammar.reads_integer hafter)
  | float value => exact value.isClean_scientific
  | instant value => exact Text.isClean_quote _
  | uuid value =>
    have hbare : Text.escapeAll value.text = value.text :=
      Text.escapeAll_of_isBare value.isBare_of_mem_text
    have hquote : Scalar.text (.uuid value) = Text.quote value.text := by
      rw [Text.quote, hbare, Scalar.text]
    rw [hquote]
    exact Text.isClean_quote _

/-- A valid symbol is made of the characters of tokens. -/
theorem Symbol.IsValid.isClean_text {s : Symbol} (h : s.IsValid) : Text.IsClean s.text.toList := by
  have hmarker : Text.IsClean s.marker.toList := by
    unfold marker
    split <;> decide
  rw [text, String.toList_append, Text.isClean_append]
  exact ⟨hmarker, Text.isClean_of_symbolSet (Grammar.contains_symbolSet_joinParts h)⟩

/-- A tag is missing, or the text of a valid symbol. -/
theorem IsTag.isClean_tagText {tag : String} (h : IsTag tag) : Text.IsClean (tagText tag) := by
  by_cases hempty : tag.isEmpty = true
  · rw [tagText, if_pos hempty]
    exact List.forall_mem_nil _
  · have hread : (Symbol.read tag).toBool = true :=
      h.resolve_left fun hnone => hempty (by rw [hnone]; rfl)
    obtain ⟨s, -, hvalid, htext⟩ := Symbol.exists_of_toBool_read hread
    rw [tagText, if_neg hempty, List.cons_append, Text.isClean_cons, Text.isClean_append, ← htext]
    exact ⟨by decide, hvalid.isClean_text, by decide⟩

/-! ## Elements -/

theorem CollectionKind.isClean_delimiters (kind : CollectionKind) :
    Text.IsClean kind.opener ∧ Text.IsClean kind.closer := by
  cases kind <;> rename_i kind <;> cases kind <;> decide

theorem CollectionKind.isClean_separators (kind : CollectionKind) :
    Text.IsClean kind.separator ∧ ∀ text ∈ kind.keySeparator?, Text.IsClean text := by
  cases kind <;> rename_i kind <;> cases kind <;> decide

/-- The separators of a layout are clean. -/
theorem Collection.isClean_of_mem_layout {c : Collection} {piece : List Char × Element}
    (h : piece ∈ c.layout) : Text.IsClean piece.1 := by
  obtain ⟨hseparator, hkeySeparator⟩ := c.kind.isClean_separators
  rcases of_mem_layout h with heq | heq | heq
  · rw [heq]
    exact List.forall_mem_nil _
  · rw [heq]
    exact hseparator
  · exact hkeySeparator piece.1 heq

/-- The text of a collection is clean if those of its parts are. -/
theorem Collection.isClean_chars {c : Collection} (h : ∀ part ∈ c.parts, Text.IsClean part.chars) :
    Text.IsClean c.chars := by
  obtain ⟨hopener, hcloser⟩ := c.kind.isClean_delimiters
  have hlayout : Text.IsClean (layoutText c.layout) := by
    intro d hd
    obtain ⟨piece, hpiece, hd⟩ := List.mem_flatMap.1 hd
    rcases List.mem_append.1 hd with hblank | htext
    · exact isClean_of_mem_layout hpiece d hblank
    · exact h piece.2 (mem_parts_of_mem_layout hpiece) d htext
  rw [c.chars_eq, Text.isClean_append, Text.isClean_append]
  exact ⟨⟨hopener, hlayout⟩, hcloser⟩

/-- The text of a well-formed element is clean.  The induction is on its parts. -/
theorem Element.IsWellFormed.isClean_chars {e : Element} (h : e.IsWellFormed) :
    Text.IsClean e.chars := by
  induction h with
  | @intro e here parts ih =>
    have htag := here.tag.isClean_tagText
    cases e with
    | scalar tag value =>
      rw [Element.chars, Text.isClean_append]
      exact ⟨htag, value.isClean_text⟩
    | symbol tag value =>
      rw [Element.chars, Text.isClean_append]
      exact ⟨htag, here.2.isClean_text⟩
    | collection tag value =>
      rw [Element.chars, Text.isClean_append]
      exact ⟨htag, Collection.isClean_chars ih⟩

/-! ## Formatted texts -/

namespace CommandLine

variable {words : Wordings} {o : Options} {text : String} {input : Input}

/-- A run of the formatter that succeeds has read a reachable element and prints its text. -/
theorem Options.exists_line (hcommand : o.command = .fmt)
    (hcode : (o.report words input).code = 0) :
    ∃ e : Element, e.IsReachable ∧ o.report words input = .success (e.text ++ "\n") := by
  cases input with
  | error reason =>
    rw [report] at hcode
    cases hfile : o.file <;> rw [hfile] at hcode <;> cases hcode
  | ok text =>
    rw [report, reportText] at hcode ⊢
    cases hread : (o.reader.parse text).mapError Failure.error >>= o.written with
    | error failure =>
      rw [hread] at hcode
      cases failure <;> cases hcode
    | ok output =>
      obtain ⟨e, hok, hwritten⟩ := exists_of_bind hread
      have hparse : o.reader.parse text = .ok e := by
        cases hparse : o.reader.parse text <;> rw [hparse] at hok <;> cases hok
        rfl
      rw [written, hcommand] at hwritten
      obtain ⟨line, hserialize, hline⟩ := exists_of_map hwritten
      rw [(Element.serialize_eq_ok_iff.1 hserialize).2.2] at hline
      have hleaves : Leaves [] e :=
        .parse (show (Reader.within o.reader.limits).parse text = .ok e from hparse)
      exact ⟨e, hleaves.isReachable (List.forall_mem_nil _), by rw [hline]⟩

/-- A clean text with a line break behind it has one line break. -/
theorem count_line {line : String} (h : Text.IsClean line.toList) :
    (line ++ "\n").toList.count '\n' = 1 := by
  have hnone : '\n' ∉ line.toList := by
    intro hmem
    have hclean := h '\n' hmem
    revert hclean
    decide
  rw [String.toList_append, List.count_append, List.count_eq_zero.2 hnone]
  rfl

/-- **Canonical texts are clean lines.**  The text of a reachable element has no control characters,
whatever its type, its tag and its parts are.  A run of the formatter that succeeds, under any limits,
in any format and on any input, prints one such line with the only line break behind it.  It is the
text of a reachable element, unless the version was asked for.  A run that is asked for help formats
nothing. -/
theorem canonical_line :
    (∀ e : Element, e.IsReachable → Text.IsClean e.text.toList) ∧
      ∀ (words : Wordings) (arguments : List String) (o : Options) (input : Option String → Input),
        readArguments arguments = .ok o → o.command = .fmt → o.help = false →
          (run (m := Id) words arguments input).code = 0 →
            ∃ line : String, Text.IsClean line.toList ∧
              run (m := Id) words arguments input = .success (line ++ "\n") ∧
              (line ++ "\n").toList.count '\n' = 1 ∧
              (o.version = false → ∃ e : Element, e.IsReachable ∧ line = e.text) := by
  have hclean : ∀ e : Element, e.IsReachable → Text.IsClean e.text.toList := by
    intro e h
    rw [Element.text, String.toList_ofList]
    exact (Element.isReachable_iff.1 h).isClean_chars
  refine ⟨hclean, fun words arguments o input hread hcommand hhelp hcode => ?_⟩
  cases hversion : o.version with
  | true =>
    have hrun : run (m := Id) words arguments input = .success ("evaedn 0.1.0" ++ "\n") := by
      rw [run_eq hread hhelp, hversion]
      rfl
    have hline : Text.IsClean "evaedn 0.1.0".toList := by decide
    exact ⟨_, hline, hrun, count_line hline, fun h => by cases h⟩
  | false =>
    have hrun : run (m := Id) words arguments input = o.report words (input o.file) := by
      rw [run_eq hread hhelp, hversion]
      rfl
    rw [hrun] at hcode ⊢
    obtain ⟨e, he, hreport⟩ := Options.exists_line hcommand hcode
    exact ⟨e.text, hclean e he, hreport, count_line (hclean e he), fun _ => ⟨e, he, rfl⟩⟩

/-- Line breaks, `DEL` and a control character of the second range, in a string and in the input of a
run. -/
theorem canonical_line_controls :
    let e := Element.string "\n\x7f\u0085"
    let arguments := ["--strict", "--format", "application/vnd.eva+edn;a", "-"]
    let input : Option String → Input := fun _ => .ok "[\"\n\x7f\u0085\"\n]\n"
    Text.IsClean e.text.toList ∧
      ∃ line, Text.IsClean line.toList ∧
        run (m := Id) wordings arguments input = .success (line ++ "\n") ∧
        (line ++ "\n").toList.count '\n' = 1 := by
  intro e arguments input
  have hleaves : Leaves [] e := @Leaves.scalar [] (.string "\n\x7f\u0085") trivial
  have hread : readArguments arguments =
      .ok ⟨.fmt, none, true, some "application/vnd.eva+edn;a", false, false⟩ := by decide
  have hcode : (run (m := Id) wordings arguments input).code = 0 := by decide +kernel
  obtain ⟨hclean, hfmt⟩ := canonical_line
  obtain ⟨line, hline, hrun, hcount, -⟩ := hfmt wordings arguments _ input hread rfl rfl hcode
  exact ⟨hclean e (hleaves.isReachable (List.forall_mem_nil _)), line, hline, hrun, hcount⟩

end CommandLine

end Edn
