import Edn.Proofs.Element.Validity
import Edn.Proofs.Reading.Surroundings
import Edn.Proofs.Uuid

/-!
# Literals read back

The text of a scalar or a symbol is one token, and the rule of that token
makes the same scalar or symbol of it.

* `Element.IsLegible` says when the text of an element tells what it is,
  apart from floats that are not finite: the reader can detach its tag, an
  instant and a UUID have their own tags, a string does not have these, and
  a symbol is not written like `nil`, `true` or `false`.
* `readLiteral_scalar` and `readLiteral_symbol` are the results.
-/

namespace Edn

open Grammar (EndsToken standard tagged literalSet)

/-! ## Legible elements -/

/-- The text of a scalar behind a tag tells the scalar. -/
def Scalar.IsLegible (tag : String) : Scalar → Prop
  | .string _ => tag ≠ Element.instantTag ∧ tag ≠ Element.uuidTag
  | .instant value => tag = Element.instantTag ∧ value.IsLegible
  | .uuid _ => tag = Element.uuidTag
  | _ => True

/-- The words that are read as other values than symbols. -/
def reservedWords : List String :=
  ["nil", "true", "false"]

/-- The tag can be detached, and the payload behind it is told by its text, whatever the parts are. -/
def Element.IsLegible : Element → Prop
  | .scalar tag value => isPlainTag tag = true ∧ value.IsLegible tag
  | .symbol tag value => isPlainTag tag = true ∧ value.text ∉ reservedWords
  | .collection tag _ => isPlainTag tag = true

theorem Element.IsLegible.plainTag {e : Element} (h : e.IsLegible) : isPlainTag e.tag = true := by
  cases e with
  | scalar tag value => exact h.1
  | symbol tag value => exact h.1
  | collection tag value => exact h

/-- The program can write what a text tells. -/
theorem Scalar.IsLegible.isWritable {value : Scalar} {tag : String} (h : value.IsLegible tag) :
    value.isWritable = true := by
  cases value with
  | instant value => exact decide_eq_true h.2.localDate
  | _ => rfl

/-! ## Tags -/

theorem head_ne_of_isPlainTag {tag : String} (h : isPlainTag tag = true) :
    tag.toList.head? ≠ some '#' := by
  unfold isPlainTag at h
  split at h
  · next hnil => simp [hnil]
  · next c rest hcons =>
    rw [hcons]
    rintro ⟨⟩
    cases h

/-- A tag that the reader detaches is attached to the value behind it. -/
theorem tagged_eq {e : Element} {tag : String} (he : e.tag = "") (htag : IsTag tag)
    (hplain : isPlainTag tag = true) : tagged e tag = .ok (e.retag tag) := by
  rw [tagged]
  split
  · next hempty =>
    rw [String.isEmpty_iff.1 hempty]
    cases e <;> cases he <;> rfl
  · exact Element.withTag_eq htag (head_ne_of_isPlainTag hplain)

/-! ## Reading a literal -/

section Literals

variable {tag : String} {k : Cursor} {rest : List Char}

/-- A literal is read by the rule that is selected for it. -/
theorem readLiteral_eq {text : List Char} {rule : LiteralRule} {value : Element}
    (hk : k.rest = text ++ rest)
    (hmatch : standard.longestMatch? (text ++ rest) = some (rule, text.length))
    (hprocess : rule.process tag (String.ofList text) = .ok value) :
    readLiteral standard tag k = .ok value (k.advance text.length) := by
  refine readLiteral_eq_ok_iff.2 ⟨rule, text.length, by rw [hk, hmatch], ?_, rfl⟩
  rw [hk, List.take_left, hprocess]

/-- What a rule is selected for starts like a literal. -/
theorem startsLiteral_of_longestMatch? {text : List Char} {rule : LiteralRule} {length : Nat}
    (hmatch : standard.longestMatch? text = some (rule, length)) : StartsLiteral text := by
  cases text with
  | nil =>
    rw [Grammar.longestMatch?_nil] at hmatch
    cases hmatch
  | cons c text => exact ⟨c, text, rfl, Grammar.contains_literalSet hmatch⟩

/-! ## Numbers -/

theorem dropLastIf_of_ne {c : Char} {text : List Char} (h : text.getLast? ≠ some c) :
    Grammar.dropLastIf c text = text := by
  rw [Grammar.dropLastIf, if_neg h]

theorem getLast?_ne_of_isDigit {text digits : List Char} {c : Char} (hne : digits ≠ [])
    (hdigits : ∀ d ∈ digits, Text.isDigit d = true) (hc : Text.isDigit c = false) :
    (text ++ digits).getLast? ≠ some c := by
  rw [List.getLast?_append_of_ne_nil _ hne]
  intro h
  rw [hdigits c (List.mem_of_getLast? h)] at hc
  cases hc

theorem readInteger_signedDecimal (value : Int64) :
    Grammar.readInteger (String.ofList (Text.signedDecimal value.toInt)) = .ok value := by
  have hlast : (Text.signedDecimal value.toInt).getLast? ≠ some 'N' := by
    have hdigits := Text.isDigit_of_mem_decimal (n := value.toInt.natAbs)
    unfold Text.signedDecimal
    split
    · exact @getLast?_ne_of_isDigit ['-'] _ _ (Text.decimal_ne_nil _) hdigits rfl
    · exact @getLast?_ne_of_isDigit [] _ _ (Text.decimal_ne_nil _) hdigits rfl
  rw [Grammar.readInteger, String.toList_ofList, dropLastIf_of_ne hlast,
    Text.readInt64_signedDecimal]

theorem readFloat_scientific {x : Decimal.Double} (hnan : x.isNaN = false)
    (hinf : x.isInfinite = false) : Grammar.readFloat (String.ofList x.scientific) = .ok x := by
  have hlast : x.scientific.getLast? ≠ some 'M' := by
    rw [Decimal.Double.scientific_of_finite hnan hinf, List.append_cons, List.append_cons]
    exact getLast?_ne_of_isDigit (Text.padded_ne_nil (by decide)) Text.isDigit_of_mem_padded rfl
  rw [Grammar.readFloat, String.toList_ofList, dropLastIf_of_ne hlast,
    Decimal.readDouble_scientific hnan hinf]

/-! ## Characters and quoted texts -/

theorem readCharacter_character (c : Char) : Grammar.readCharacter
    (Grammar.afterBackslash (String.ofList (Text.character c)).toList) = .ok c := by
  rw [String.toList_ofList, Grammar.readCharacter,
    show Grammar.afterBackslash (Text.character c) = Text.characterBody c from rfl,
    Text.readCharacter_characterBody]

/-- A text that is written between quotes is selected by the rule of strings. -/
theorem longestMatch?_quote (text : List Char) :
    standard.longestMatch? (Text.quote text ++ rest) =
      some (Grammar.stringRule, (Text.quote text).length) :=
  Grammar.longestMatch?_quoted (Grammar.after?_escapeAll text)

/-- The quotes around a text can be taken off. -/
theorem unquoted?_quoted (body : List Char) :
    Grammar.unquoted? ('"' :: body ++ ['"']) = some body := by
  simp [Grammar.unquoted?]

/-- What stands between quotes is read as its tag says. -/
theorem readQuoted_quoted (body : List Char) :
    Grammar.readQuoted tag (String.ofList ('"' :: body ++ ['"'])) =
      if tag = Element.instantTag then (Grammar.readInstant body).map Element.instant
      else if tag = Element.uuidTag then (Grammar.readUuid body).map Element.uuid
      else Grammar.readText body >>= fun value => tagged (.string value) tag := by
  rw [Grammar.readQuoted, String.toList_ofList, unquoted?_quoted]

theorem readQuoted_quote (text : List Char) :
    Grammar.readQuoted tag (String.ofList (Text.quote text)) =
      if tag = Element.instantTag then (Grammar.readInstant (Text.escapeAll text)).map Element.instant
      else if tag = Element.uuidTag then (Grammar.readUuid (Text.escapeAll text)).map Element.uuid
      else Grammar.readText (Text.escapeAll text) >>= fun value => tagged (.string value) tag :=
  readQuoted_quoted (Text.escapeAll text)

theorem stringRule_process (tag token : String) :
    Grammar.stringRule.process tag token = Grammar.readQuoted tag token :=
  rfl

theorem readText_escapeAll (text : String) :
    Grammar.readText (Text.escapeAll text.toList) = .ok text := by
  rw [Grammar.readText, Text.unescape_escapeAll]
  exact congrArg Except.ok String.ofList_toList

theorem readInstant_written {t : Instant} (h : t.IsValid) (hlegible : t.IsLegible) :
    Grammar.readInstant (Text.escapeAll t.written) = .ok t := by
  rw [Text.escapeAll_of_isBare t.isBare_of_mem_written, Grammar.readInstant,
    Instant.read_written h hlegible]

theorem readUuid_text (u : Uuid) : Grammar.readUuid (Text.escapeAll u.text) = .ok u := by
  rw [Text.escapeAll_of_isBare u.isBare_of_mem_text, Grammar.readUuid, Uuid.read?_text]

/-! ## Selected rules -/

theorem isFinite_float {x : Decimal.Double} (h : (Scalar.float x).isFinite = true) :
    x.isNaN = false ∧ x.isInfinite = false := by
  simpa [Scalar.isFinite] using h

/-- The text of a finite scalar is selected by a rule that makes the scalar of it. -/
theorem longestMatch?_scalar {value : Scalar} (hregular : value.IsRegular)
    (hlegible : value.IsLegible tag) (hfinite : value.isFinite = true) (htag : IsTag tag)
    (hplain : isPlainTag tag = true) (hrest : EndsToken rest) :
    ∃ rule, standard.longestMatch? (value.text ++ rest) = some (rule, value.text.length) ∧
      rule.process tag (String.ofList value.text) = .ok (.scalar tag value) := by
  have htagged : ∀ value, tagged (.scalar "" value) tag = .ok (.scalar tag value) :=
    fun value => tagged_eq rfl htag hplain
  cases value with
  | nil => exact ⟨_, Grammar.longestMatch?_wordNil hrest, htagged .nil⟩
  | boolean value =>
    cases value with
    | true => exact ⟨_, Grammar.longestMatch?_wordTrue hrest, htagged (.boolean true)⟩
    | false => exact ⟨_, Grammar.longestMatch?_wordFalse hrest, htagged (.boolean false)⟩
  | integer value =>
    refine ⟨_, Grammar.longestMatch?_integer value.toInt hrest, ?_⟩
    show (Grammar.readInteger (String.ofList (Text.signedDecimal value.toInt)) >>=
      fun value => tagged (.integer value) tag) = _
    rw [readInteger_signedDecimal]
    exact htagged (.integer value)
  | float x =>
    obtain ⟨hnan, hinf⟩ := isFinite_float hfinite
    refine ⟨_, Grammar.longestMatch?_float hnan hinf hrest, ?_⟩
    show (Grammar.readFloat (String.ofList x.scientific) >>=
      fun value => tagged (.float value) tag) = _
    rw [readFloat_scientific hnan hinf]
    exact htagged (.float x)
  | character c =>
    refine ⟨_, Grammar.longestMatch?_character c hrest, ?_⟩
    show (Grammar.readCharacter (Grammar.afterBackslash (String.ofList (Text.character c)).toList)
      >>= fun value => tagged (.character value) tag) = _
    rw [readCharacter_character]
    exact htagged (.character c)
  | string value =>
    refine ⟨_, longestMatch?_quote value.toList, ?_⟩
    rw [stringRule_process, Scalar.text, readQuoted_quote, if_neg hlegible.1, if_neg hlegible.2,
      readText_escapeAll]
    exact htagged (.string value)
  | instant value =>
    obtain ⟨rfl, hvalue⟩ := hlegible
    refine ⟨_, longestMatch?_quote value.written, ?_⟩
    rw [stringRule_process, Scalar.text, readQuoted_quote, if_pos rfl,
      readInstant_written hregular hvalue]
    rfl
  | uuid value =>
    obtain rfl := hlegible
    have htext : (Scalar.uuid value).text = Text.quote value.text := by
      rw [Text.quote, Text.escapeAll_of_isBare value.isBare_of_mem_text]
      rfl
    rw [htext]
    refine ⟨_, longestMatch?_quote value.text, ?_⟩
    rw [stringRule_process, readQuoted_quote, if_neg (by decide), if_pos rfl, readUuid_text]
    rfl

/-- The text of a symbol is selected by a rule that makes the symbol of it. -/
theorem longestMatch?_ofSymbol {s : Symbol} (hvalid : s.IsValid) (hword : s.text ∉ reservedWords)
    (htag : IsTag tag) (hplain : isPlainTag tag = true) (hrest : EndsToken rest) :
    ∃ rule, standard.longestMatch? (s.text.toList ++ rest) = some (rule, s.text.toList.length) ∧
      rule.process tag (String.ofList s.text.toList) = .ok (.symbol tag s) := by
  have htagged : tagged (.symbol "" s) tag = .ok (.symbol tag s) := tagged_eq rfl htag hplain
  simp only [reservedWords, List.mem_cons, List.not_mem_nil, or_false, not_or] at hword
  rw [String.ofList_toList]
  cases hkeyword : s.isKeyword with
  | false =>
    refine ⟨_, Grammar.longestMatch?_symbol hvalid hkeyword hword.1 hword.2.1 hword.2.2 hrest, ?_⟩
    show (Element.readSymbol s.text >>= fun value => tagged value tag) = _
    rw [Element.readSymbol, Symbol.read_text hvalid hkeyword]
    exact htagged
  | true =>
    refine ⟨_, Grammar.longestMatch?_keyword hvalid hkeyword hrest, ?_⟩
    show (Element.readKeyword s.text >>= fun value => tagged value tag) = _
    rw [Element.readKeyword, Symbol.readKeyword_text hvalid hkeyword]
    exact htagged

/-- Floats that are not finite are written like symbols. -/
theorem symbol_of_not_isFinite {value : Scalar} (h : value.isFinite = false) :
    Symbol.IsValid ⟨"", String.ofList value.text, false⟩ ∧
      Symbol.text ⟨"", String.ofList value.text, false⟩ = String.ofList value.text ∧
        String.ofList value.text ∉ reservedWords := by
  cases value with
  | float x =>
    have hcases : x.scientific = "NaN".toList ∨ x.scientific = "+Inf".toList ∨
        x.scientific = "-Inf".toList := by
      unfold Decimal.Double.scientific
      cases hnan : x.isNaN with
      | true => exact .inl rfl
      | false =>
        have hinf : x.isInfinite = true := by simpa [Scalar.isFinite, hnan] using h
        rw [if_neg Bool.false_ne_true, if_pos hinf]
        cases x.isNegative
        · exact .inr (.inl rfl)
        · exact .inr (.inr rfl)
    rw [Scalar.text]
    rcases hcases with heq | heq | heq <;> rw [heq] <;> decide
  | _ => cases h

/-! ## Payloads -/

/-- A scalar behind its tag is read as what its text tells. -/
theorem readLiteral_scalar {value : Scalar} (hregular : (Element.scalar tag value).IsRegular)
    (hlegible : (Element.scalar tag value).IsLegible) (hk : k.rest = value.text ++ rest)
    (hrest : EndsToken rest) :
    readLiteral standard tag k = .ok (value.reread tag) (k.advance value.text.length) ∧
      StartsLiteral k.rest := by
  obtain ⟨htag, hregular⟩ := hregular
  obtain ⟨hplain, hlegible⟩ := hlegible
  rw [Scalar.reread]
  cases hfinite : value.isFinite with
  | true =>
    obtain ⟨rule, hmatch, hprocess⟩ :=
      longestMatch?_scalar hregular hlegible hfinite htag hplain hrest
    exact ⟨readLiteral_eq hk hmatch hprocess, hk ▸ startsLiteral_of_longestMatch? hmatch⟩
  | false =>
    obtain ⟨hvalid, htext, hword⟩ := symbol_of_not_isFinite hfinite
    obtain ⟨rule, hmatch, hprocess⟩ :=
      longestMatch?_ofSymbol hvalid (htext ▸ hword) htag hplain hrest
    rw [htext, String.toList_ofList] at hmatch hprocess
    exact ⟨readLiteral_eq hk hmatch hprocess, hk ▸ startsLiteral_of_longestMatch? hmatch⟩

/-- A symbol behind its tag is read as the symbol. -/
theorem readLiteral_symbol {s : Symbol} (hregular : (Element.symbol tag s).IsRegular)
    (hlegible : (Element.symbol tag s).IsLegible) (hk : k.rest = s.text.toList ++ rest)
    (hrest : EndsToken rest) :
    readLiteral standard tag k = .ok (.symbol tag s) (k.advance s.text.toList.length) ∧
      StartsLiteral k.rest := by
  obtain ⟨rule, hmatch, hprocess⟩ :=
    longestMatch?_ofSymbol hregular.2 hlegible.2 hregular.1 hlegible.1 hrest
  exact ⟨readLiteral_eq hk hmatch hprocess, hk ▸ startsLiteral_of_longestMatch? hmatch⟩

end Literals

end Edn
