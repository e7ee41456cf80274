import Edn.Proofs.Grammar.Tokens

/-!
# The rules of characters, symbols, keywords and strings

The tokens that do not start like a word or a number are selected by their own
rules.

* `longestMatch?_symbol` is where the order of the rules matters: a symbol may
  start with a word or a sign, so that the rules before it have to stop early.
* `longestMatch?_character` is where the rule has to choose: a name or a code
  point is taken to its end, and a single character ends behind its first.
* `longestMatch?_quoted` needs nothing about the text behind the quote.
-/

namespace Edn.Grammar

open Text (isDigit)

/-! ## Failing at the first character -/

theorem longest?_of_next?_eq_none {S : Type} {m : Machine S} {state : S} {c : Char}
    {input : List Char} (haccepts : m.accepts state = false) (hnext : m.next? state c = none) :
    m.longest? state (c :: input) = none := by
  have hstops : m.Stops state (c :: input) := by
    rintro d ⟨⟩
    exact hnext
  rw [Machine.longest?_of_stops hstops, if_neg (by simp [haccepts])]

theorem contains_leadingDigitSet_of_not {c : Char} (hc : isDigit c = false) :
    leadingDigitSet.contains c = false := by
  rw [contains_leadingDigitSet, hc, Bool.false_and]

theorem ne_zero_of_not {c : Char} (hc : isDigit c = false) : c ≠ '0' := by
  rintro rfl
  revert hc
  decide

/-- Numbers start with a digit, or with a sign and a digit. -/
theorem numbers_fail {c : Char} {input : List Char} (hc : isDigit c = false)
    (hsign : signSet.contains c = true → ∀ d ∈ input.head?, isDigit d = false) :
    integerRule.matcher.matchEnd? (c :: input) = none ∧
      floatRule.matcher.matchEnd? (c :: input) = none := by
  have hleading := contains_leadingDigitSet_of_not hc
  have hzero := ne_zero_of_not hc
  rw [matchEnd?_integer, matchEnd?_float]
  cases hc' : signSet.contains c with
  | false =>
    exact ⟨longest?_of_next?_eq_none rfl (by
        simp [Machine.next?, integerMachine, hc', hleading, CharSet.contains_single, hzero]),
      longest?_of_next?_eq_none rfl (by
        simp [Machine.next?, floatMachine, hc', hleading, CharSet.contains_single, hzero])⟩
  | true =>
    have hinteger : integerMachine.Stops .signed input := by
      intro d hd
      have hd := hsign hc' d hd
      simp [Machine.next?, integerMachine, contains_leadingDigitSet_of_not hd,
        CharSet.contains_single, ne_zero_of_not hd]
    have hfloat : floatMachine.Stops .signed input := by
      intro d hd
      have hd := hsign hc' d hd
      simp [Machine.next?, floatMachine, contains_leadingDigitSet_of_not hd,
        CharSet.contains_single, ne_zero_of_not hd]
    have hinteger' : integerMachine.next? .start c = some .signed := by
      simp [Machine.next?, integerMachine, hc']
    have hfloat' : floatMachine.next? .start c = some .signed := by
      simp [Machine.next?, floatMachine, hc']
    rw [Machine.longest?, hinteger', Option.bind_some, Machine.longest?_of_stops hinteger,
      Machine.longest?, hfloat', Option.bind_some, Machine.longest?_of_stops hfloat]
    exact ⟨rfl, rfl⟩

theorem character_fails {c : Char} {input : List Char} (hc : c ≠ '\\') :
    characterRule.matcher.matchEnd? (c :: input) = none := by
  rw [matchEnd?_character, characterLength?_eq_none hc]

theorem symbol_fails {c : Char} {input : List Char} (hc : symbolStartSet.contains c = false) :
    symbolRule.matcher.matchEnd? (c :: input) = none := by
  rw [matchEnd?_symbol]
  exact longest?_of_next?_eq_none rfl (by simp [Machine.next?, symbolMachine, hc])

theorem keyword_fails {c : Char} {input : List Char} (hc : c ≠ ':') :
    keywordRule.matcher.matchEnd? (c :: input) = none := by
  rw [matchEnd?_keyword]
  exact longest?_of_next?_eq_none rfl (by
    simp [Machine.next?, symbolMachine, CharSet.contains_single, hc])

theorem string_fails {c : Char} {input : List Char} (hc : c ≠ '"') :
    stringRule.matcher.matchEnd? (c :: input) = none := by
  rw [matchEnd?_string, longest?_string_eq_none hc]

section Literals

variable {rest : List Char}

/-! ## Symbols and keywords -/

theorem contains_symbolSet_joinParts {s : Symbol} (h : s.IsValid) :
    ∀ c ∈ (Symbol.joinParts s.qualifier s.name).toList, symbolSet.contains c = true := by
  intro c hc
  rw [contains_symbolSet]
  rcases Symbol.isLater_of_mem_joinParts h c hc with hlater | rfl
  · rw [hlater, Bool.true_or]
  · rw [decide_eq_true rfl, Bool.or_true]

theorem contains_symbolStartSet_of_head {c : Char}
    (hc : Name.isFirst c = true ∨ Name.isModifier c = true ∨ c = separator) :
    symbolStartSet.contains c = true := by
  rw [contains_symbolStartSet]
  rcases hc with hc | hc | rfl
  · rw [hc, Bool.true_or, Bool.true_or]
  · rw [hc, Bool.or_true, Bool.true_or]
  · rfl

theorem isDigit_of_symbolStartSet {c : Char} (hc : symbolStartSet.contains c = true) :
    isDigit c = false := by
  rw [← contains_digitSet]
  exact CharSet.contains_of_apart (show symbolStartSet.apart digitSet = true by decide) hc

theorem isModifier_of_signSet {c : Char} (hc : signSet.contains c = true) :
    Name.isModifier c = true := by
  revert hc
  simp only [CharSet.contains, signSet, Text.CodeTable.holds, Name.isModifier, beq_eq_decide,
    ← Char.toNat_inj, Char.reduceToNat]
  grind

theorem isDigit_of_endsToken (hrest : EndsToken rest) : ∀ d ∈ rest.head?, isDigit d = false := by
  intro d hd
  cases hdigit : isDigit d with
  | false => rfl
  | true =>
    have := contains_symbolSet_of_isDigit hdigit
    rw [hrest d hd] at this
    cases this

theorem after?_symbol_inside {first : CharSet} {text : List Char}
    (htext : ∀ c ∈ text, symbolSet.contains c = true) :
    (symbolMachine first).after? .inside text = some .inside :=
  Machine.after?_of_loop fun c hc => by simp [Machine.next?, symbolMachine, htext c hc]

/-- A first character of the set and characters of symbols are read to their end. -/
theorem after?_symbol {first : CharSet} {c : Char} {text : List Char}
    (hc : first.contains c = true) (htext : ∀ d ∈ text, symbolSet.contains d = true) :
    (symbolMachine first).after? .start (c :: text) = some .inside := by
  rw [Machine.after?, show (symbolMachine first).next? .start c = some .inside by
    simp [Machine.next?, symbolMachine, hc], Option.bind_some, after?_symbol_inside htext]

/-- A valid symbol that is not a word is selected by the rule of symbols. -/
theorem longestMatch?_symbol {s : Symbol} (h : s.IsValid) (hkeyword : s.isKeyword = false)
    (hnil : s.text ≠ "nil") (htrue : s.text ≠ "true") (hfalse : s.text ≠ "false")
    (hrest : EndsToken rest) :
    standard.longestMatch? (s.text.toList ++ rest) = some (symbolRule, s.text.toList.length) := by
  have htext : s.text.toList = (Symbol.joinParts s.qualifier s.name).toList := by
    simp [Symbol.text, Symbol.marker, hkeyword]
  have hsymbol : ∀ c ∈ s.text.toList, symbolSet.contains c = true := by
    rw [htext]
    exact contains_symbolSet_joinParts h
  obtain ⟨c, more, hcons, hc, hmodifier⟩ := Symbol.exists_head_joinParts h
  rw [← htext] at hcons
  -- Behind a sign there is no digit, so that no number starts here.
  have hstart := contains_symbolStartSet_of_head hc
  have hdigits : signSet.contains c = true → ∀ d ∈ (more ++ rest).head?, isDigit d = false := by
    intro hsign
    cases more with
    | nil => exact isDigit_of_endsToken hrest
    | cons d more =>
      rintro _ ⟨⟩
      exact isDigit_of_symbolStartSet (contains_symbolStartSet_of_head
        ((hmodifier (isModifier_of_signSet hsign) d rfl).imp_right .inr))
  obtain ⟨hinteger, hfloat⟩ := numbers_fail (isDigit_of_symbolStartSet hstart) hdigits
  have hword : ∀ {word : String}, (∀ c ∈ word.toList, symbolSet.contains c = true) →
      s.text ≠ word → ∀ n ∈ wordLength? word.toList (s.text.toList ++ rest),
        n < s.text.toList.length := by
    intro word hword hne n hn
    obtain ⟨hle, heq⟩ := wordLength?_le_token hword hsymbol hrest n hn
    exact Nat.lt_of_le_of_ne hle fun hlength => hne (String.toList_injective (heq hlength).symm)
  refine longestMatch?_token (wordRules ++ [integerRule, floatRule, characterRule]) rfl hsymbol
    (by simp [hcons]) hrest ?_ (List.forall_mem_append.2 ⟨?_, ?_⟩)
  · rw [matchEnd?_symbol]
    have hafter : (symbolMachine symbolStartSet).after? .start s.text.toList = some .inside := by
      rw [hcons]
      exact after?_symbol hstart fun d hd => hsymbol d (by simp [hcons, hd])
    exact Machine.longest?_append hafter rfl (stops_of_endsToken reads_symbol hrest _)
  · simp only [wordRules, List.mem_cons, List.not_mem_nil, or_false, forall_eq_or_imp, forall_eq,
      matchEnd?_nil, matchEnd?_true, matchEnd?_false]
    exact ⟨hword (List.all_eq_true.1 rfl) hnil, hword (List.all_eq_true.1 rfl) htrue,
      hword (List.all_eq_true.1 rfl) hfalse⟩
  · have hcharacter : c ≠ '\\' := by
      rintro rfl
      revert hstart
      decide
    simp [hcons, hinteger, hfloat, character_fails hcharacter]

/-- A valid keyword is selected by the rule of keywords. -/
theorem longestMatch?_keyword {s : Symbol} (h : s.IsValid) (hkeyword : s.isKeyword = true)
    (hrest : EndsToken rest) :
    standard.longestMatch? (s.text.toList ++ rest) = some (keywordRule, s.text.toList.length) := by
  have htext : s.text.toList = ':' :: (Symbol.joinParts s.qualifier s.name).toList := by
    simp [Symbol.text, Symbol.marker, hkeyword]
  have hjoin := contains_symbolSet_joinParts h
  have hsymbol : ∀ c ∈ s.text.toList, symbolSet.contains c = true := by
    rw [htext]
    intro c hc
    rcases List.mem_cons.1 hc with rfl | hc
    · decide
    · exact hjoin c hc
  refine longestMatch?_token (wordRules ++ [integerRule, floatRule, characterRule, symbolRule]) rfl
    hsymbol (by simp [htext]) hrest ?_ (List.forall_mem_append.2 ⟨fun other hother => ?_, ?_⟩)
  · rw [matchEnd?_keyword]
    have hafter : (symbolMachine (.single ':')).after? .start s.text.toList = some .inside := by
      rw [htext]
      exact after?_symbol rfl hjoin
    exact Machine.longest?_append hafter rfl (stops_of_endsToken reads_keyword hrest _)
  · rw [htext, List.cons_append, words_fail (by decide) (by decide) (by decide) other hother]
    simp
  · rw [htext, List.cons_append]
    obtain ⟨hinteger, hfloat⟩ := @numbers_fail ':'
      ((Symbol.joinParts s.qualifier s.name).toList ++ rest) rfl
      (fun h => absurd h (by decide))
    simp [hinteger, hfloat, character_fails, symbol_fails (c := ':') (by decide)]

/-! ## Characters -/

theorem startsIn_replicate {set : CharSet} {text rest : List Char}
    (h : ∀ c ∈ text, set.contains c = true) :
    startsIn (List.replicate text.length set) (text ++ rest) = true := by
  induction text with
  | nil => rfl
  | cons c text ih =>
    rw [List.length_cons, List.replicate_succ, List.cons_append, startsIn,
      h c List.mem_cons_self, ih fun d hd => h d (List.mem_cons_of_mem _ hd)]
    rfl

theorem contains_hexDigitSet_of_mem (width n : Nat) :
    ∀ c ∈ Text.hex width n, hexDigitSet.contains c = true :=
  Text.forall_mem_hex (by decide) width n

/-- No name and no code point goes on behind a token. -/
theorem characterTail_of_endsToken (c : Char) (hrest : EndsToken rest) :
    characterTail c = [] ∨ startsIn (characterTail c) rest = false := by
  have hstart : characterTail c = [] ∨ ∃ set sets, characterTail c = set :: sets ∧
      set.within symbolSet = true := by
    unfold characterTail
    split
    case h_6 => exact .inl rfl
    all_goals exact .inr ⟨_, _, rfl, by decide⟩
  refine hstart.imp_right ?_
  rintro ⟨set, sets, htail, hset⟩
  rw [htail]
  cases rest with
  | nil => rfl
  | cons d rest =>
    rw [startsIn, Bool.and_eq_false_iff]
    left
    cases hd : set.contains d with
    | false => rfl
    | true =>
      have := CharSet.contains_of_within hset (by decide) hd
      rw [hrest d rfl] at this
      cases this

theorem characterLength?_single {c : Char} (hc : Text.isWhiteSpace c = false)
    (hrest : EndsToken rest) : characterLength? ('\\' :: c :: rest) = some 2 := by
  rw [characterLength?, if_neg (by simp [hc])]
  rcases characterTail_of_endsToken c hrest with htail | htail
  · rw [htail]
    rfl
  · rw [if_neg (by simp [htail])]

theorem characterLength?_tail {c : Char} {text : List Char} (hc : Text.isWhiteSpace c = false)
    (hlength : (characterTail c).length = text.length)
    (htext : startsIn (characterTail c) (text ++ rest) = true) :
    characterLength? ('\\' :: c :: text ++ rest) = some ('\\' :: c :: text).length := by
  rw [List.cons_append, List.cons_append, characterLength?, if_neg (by simp [hc]), if_pos htext,
    hlength]
  rfl

/-- Visible characters and those beyond `FFFF` are no white space. -/
theorem isWhiteSpace_of_plain {c : Char} (hc : Text.isGraphic c = true ∨ 0xffff < c.toNat) :
    Text.isWhiteSpace c = false := by
  revert hc
  simp only [Text.isGraphic, Text.isWhiteSpace, Text.whiteSpace, Text.CodeTable.holds,
    le_iff_toNat_le, Char.reduceToNat, Bool.and_eq_true, decide_eq_true_eq]
  generalize c.toNat = code
  grind

/-- A character with its backslash is taken to its end. -/
theorem characterLength?_character (c : Char) (hrest : EndsToken rest) :
    characterLength? (Text.character c ++ rest) = some (Text.character c).length := by
  unfold Text.character Text.characterBody
  split
  · next name hname =>
    have hmem : (c, name) ∈ Text.namedCharacters := by
      obtain ⟨before, after, heq, -⟩ := List.lookup_eq_some_iff.1 hname
      simp [heq]
    have hword : ∀ word, startsIn (wordSets word) (word ++ rest) = true := fun word => by
      rw [startsIn_wordSets, List.isPrefixOf_iff_prefix]
      exact List.prefix_append _ _
    simp only [Text.namedCharacters, List.mem_cons, List.not_mem_nil, or_false] at hmem
    rcases hmem with h | h | h | h <;> cases h
    · exact characterLength?_tail rfl rfl (hword "eturn".toList)
    · exact characterLength?_tail rfl rfl (hword "ewline".toList)
    · exact characterLength?_tail rfl rfl (hword "pace".toList)
    · exact characterLength?_tail rfl rfl (hword "ab".toList)
  · split
    · next hplain =>
      rw [Bool.or_eq_true, decide_eq_true_eq] at hplain
      exact characterLength?_single (isWhiteSpace_of_plain hplain) hrest
    · have hlength := Text.length_hex 4 c.toNat
      have hhex := @startsIn_replicate _ _ rest (contains_hexDigitSet_of_mem 4 c.toNat)
      exact characterLength?_tail rfl hlength.symm (hlength ▸ hhex)

/-- A character is selected by the rule of characters. -/
theorem longestMatch?_character (c : Char) (hrest : EndsToken rest) :
    standard.longestMatch? (Text.character c ++ rest) =
      some (characterRule, (Text.character c).length) := by
  obtain ⟨hinteger, hfloat⟩ := @numbers_fail '\\' (Text.characterBody c ++ rest) rfl
    (fun h => absurd h (by decide))
  rw [standard_eq]
  refine longestMatch?_of_split (wordRules ++ [integerRule, floatRule]) rfl (Nat.succ_pos _) ?_
    (List.forall_mem_append.2 ⟨fun other hother => ?_, ?_⟩) ?_
  · rw [matchEnd?_character, characterLength?_character c hrest]
  · rw [Text.character, List.cons_append,
      words_fail (by decide) (by decide) (by decide) other hother]
    simp
  · rw [Text.character, List.cons_append]
    simp [hinteger, hfloat]
  · rw [Text.character, List.cons_append]
    simp [symbol_fails (c := '\\') (by decide), keyword_fails, string_fails]

/-! ## Strings -/

/-- A text between quotes is selected by the rule of strings, if it can be read up to the quote that
ends it. -/
theorem longestMatch?_quoted {body : List Char}
    (hbody : stringMachine.after? .inside body = some .inside) :
    standard.longestMatch? ('"' :: body ++ ['"'] ++ rest) =
      some (stringRule, ('"' :: body ++ ['"']).length) := by
  obtain ⟨hinteger, hfloat⟩ := @numbers_fail '"' (body ++ '"' :: rest) rfl
    (fun h => absurd h (by decide))
  have hafter : stringMachine.after? .start ('"' :: body ++ ['"']) = some .stop := by
    rw [List.cons_append, Machine.after?, show stringMachine.next? .start '"' = some .inside from rfl,
      Option.bind_some, Machine.after?_append hbody]
    rfl
  rw [standard_eq]
  refine longestMatch?_of_split (wordRules ++ [integerRule, floatRule, characterRule, symbolRule,
    keywordRule]) rfl (Nat.succ_pos _) ?_ (List.forall_mem_append.2 ⟨fun other hother => ?_, ?_⟩)
    (by simp)
  · rw [matchEnd?_string]
    exact Machine.longest?_append hafter rfl fun c _ => rfl
  · rw [List.cons_append, List.cons_append,
      words_fail (by decide) (by decide) (by decide) other hother]
    simp
  · rw [List.cons_append, List.cons_append]
    simp [hinteger, hfloat, character_fails, symbol_fails (c := '"') (by decide), keyword_fails]

theorem contains_plainSet (c : Char) :
    plainSet.contains c = (decide (c ≠ '"') && decide (c ≠ '\\')) := by
  have hvalid : c.toNat.isValidChar := c.valid
  have hlast : c.toNat ≤ 0x10ffff := by
    unfold Nat.isValidChar at hvalid
    omega
  simp only [CharSet.contains, plainSet, Text.CodeTable.holds, ne_eq, ← Char.toNat_inj,
    Char.reduceToNat]
  generalize c.toNat = code at *
  grind

theorem next?_plain {c : Char} (hc : plainSet.contains c = true) :
    stringMachine.next? .inside c = some .inside := by
  simp [Machine.next?, stringMachine, hc]

/-- The way in which a character is written between quotes is read to its end. -/
theorem after?_escape (c : Char) : stringMachine.after? .inside (Text.escape c) = some .inside := by
  unfold Text.escape
  split
  case h_8 hquote hslash _ _ _ _ _ =>
    split
    · have hplain : ∀ d ∈ Text.hex 4 c.toNat, stringMachine.next? .inside d = some .inside :=
        fun d hd => next?_plain (CharSet.contains_of_within
          (show hexDigitSet.within plainSet = true by decide) (by decide)
          (contains_hexDigitSet_of_mem 4 c.toNat d hd))
      rw [Text.codePoint, Machine.after?, show stringMachine.next? .inside '\\' = some .escape
        from rfl, Option.bind_some, Machine.after?, show stringMachine.next? .escape 'u' =
        some .inside from rfl, Option.bind_some, Machine.after?_of_loop hplain]
    · have hplain : plainSet.contains c = true := by
        rw [contains_plainSet, Bool.and_eq_true, decide_eq_true_eq, decide_eq_true_eq]
        exact ⟨hquote, hslash⟩
      rw [Machine.after?, next?_plain hplain]
      rfl
  all_goals rfl

theorem after?_escapeAll (text : List Char) :
    stringMachine.after? .inside (Text.escapeAll text) = some .inside := by
  induction text with
  | nil => rfl
  | cons c text ih =>
    rw [Text.escapeAll, List.flatMap_cons, Machine.after?_append (after?_escape c)]
    exact ih

end Literals

end Edn.Grammar
