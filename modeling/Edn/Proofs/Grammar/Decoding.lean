import Edn.Proofs.Grammar.Numerals
import Edn.Proofs.Reading.Payloads
import Edn.Proofs.Text.Escapes

/-!
# Tokens and their decoders

A rule takes a token by its pattern, and its decoder reads the same token once
more, by rules of its own.

* `exists_integerNumeral` and its neighbours say what the tokens of a rule look
  like, in whichever text they are found.
* `readInteger_numeral`, `exists_readFloat`, `fails_readCharacter_iff` and
  `fails_readText_iff` say what the decoders make of such tokens.
* `process_integer` and its neighbours put both together for the rules, where no
  tag stands in front of the token.
-/

namespace Edn

open Decimal (IsIntegerNumeral IsFloatNumeral)
open Text (HasBadEscape HasEscape IsHexCode IsSurrogate)

/-- The result is an error. -/
def Fails {α : Type} (result : Except Error α) : Prop :=
  ∃ error, result = .error error

section Results

variable {α β : Type} {result : Except Error α}

theorem not_fails_ok (value : α) : ¬Fails (.ok value : Except Error α) := by
  rintro ⟨error, ⟨⟩⟩

theorem fails_iff_forall : Fails result ↔ ∀ value, result ≠ .ok value := by
  cases result with
  | error error => simp [Fails]
  | ok value => simp [Fails]

theorem fails_map_iff (f : α → β) : Fails (result.map f) ↔ Fails result := by
  cases result with
  | error error => exact ⟨fun _ => ⟨error, rfl⟩, fun _ => ⟨error, rfl⟩⟩
  | ok value => exact ⟨fun h => absurd h (not_fails_ok _), fun h => absurd h (not_fails_ok _)⟩

end Results

/-- A way through two texts leads through a state between them. -/
theorem Machine.exists_after?_of_append {S : Type} {m : Machine S} {state last : S}
    {first second : List Char} (h : m.after? state (first ++ second) = some last) :
    ∃ middle, m.after? state first = some middle ∧ m.after? middle second = some last := by
  induction first generalizing state with
  | nil => exact ⟨state, rfl, h⟩
  | cons c first ih =>
    obtain ⟨next, hnext, hrest⟩ := Option.bind_eq_some_iff.1 h
    obtain ⟨middle, hfirst, hsecond⟩ := ih hrest
    refine ⟨middle, ?_, hsecond⟩
    rw [after?, hnext]
    exact hfirst

namespace Grammar

/-! ## What the tokens look like -/

section Tokens

variable {input token body : List Char} {length : Nat}

/-- The token of an integer is the numeral of one. -/
theorem exists_integerNumeral (h : integerRule.matcher.matchEnd? input = some length) :
    ∃ value, IsIntegerNumeral (input.take length) value := by
  rw [matchEnd?_integer] at h
  exact acceptsFrom_integer_iff.1 ((integerMachine.takesLongest .start).found h).2.1

/-- The token of a float is the numeral of one. -/
theorem exists_floatNumeral (h : floatRule.matcher.matchEnd? input = some length) :
    ∃ body, IsFloatNumeral (input.take length) body := by
  rw [matchEnd?_float] at h
  exact acceptsFrom_float_iff.1 ((floatMachine.takesLongest .start).found h).2.1

theorem isCharacterToken_take (h : characterRule.matcher.matchEnd? input = some length) :
    IsCharacterToken (input.take length) := by
  rw [matchEnd?_character] at h
  exact (takesLongest_characterLength?.found h).2.1

/-- A string ends with the quote at which its machine stops. -/
theorem exists_body_of_after? {text : List Char}
    (h : stringMachine.after? .inside text = some .stop) :
    ∃ body, text = body ++ ['"'] ∧ stringMachine.after? .inside body = some .inside := by
  rcases List.eq_nil_or_concat' text with rfl | ⟨body, c, rfl⟩
  · cases h
  · obtain ⟨middle, hbody, hlast⟩ := Machine.exists_after?_of_append h
    obtain ⟨next, hnext, heq⟩ := Option.bind_eq_some_iff.1 hlast
    cases heq
    obtain ⟨exit, hmem, hc, hstop⟩ := Machine.exists_exit hnext
    cases middle <;> simp [stringMachine] at hmem
    · rw [hmem] at hstop
      cases hstop
    · rcases hmem with rfl | rfl | rfl
      · cases hstop
      · cases hstop
      · rw [CharSet.contains_single, decide_eq_true_eq] at hc
        exact ⟨body, by rw [hc], hbody⟩
    · rw [hmem] at hstop
      cases hstop

/-- The token of a string is a body between quotes, and its machine reads the body to its end. -/
theorem exists_stringBody (h : stringRule.matcher.matchEnd? input = some length) :
    ∃ body, input.take length = '"' :: body ++ ['"'] ∧
      stringMachine.after? .inside body = some .inside := by
  rw [matchEnd?_string] at h
  obtain ⟨last, hafter, haccepts⟩ := ((stringMachine.takesLongest .start).found h).2.1
  cases last <;> try cases haccepts
  cases htoken : input.take length with
  | nil =>
    rw [htoken] at hafter
    cases hafter
  | cons c rest =>
    rw [htoken] at hafter
    obtain ⟨next, hnext, hrest⟩ := Option.bind_eq_some_iff.1 hafter
    obtain ⟨exit, hmem, hc, rfl⟩ := Machine.exists_exit hnext
    cases List.mem_singleton.1 hmem
    rw [CharSet.contains_single, decide_eq_true_eq] at hc
    obtain ⟨body, rfl, hbody⟩ := exists_body_of_after? hrest
    exact ⟨body, by rw [hc]; rfl, hbody⟩

/-- In a body that is read to its end, every backslash takes a character along. -/
theorem not_hasEscape_nil (hbody : stringMachine.after? .inside body = some .inside) :
    ¬HasEscape body [] := by
  intro h
  generalize hnil : ([] : List Char) = behind at h
  induction h with
  | here =>
    rw [← hnil] at hbody
    cases hbody
  | @plain c rest behind hc hescape ih =>
    obtain ⟨next, hnext, hrest⟩ := Option.bind_eq_some_iff.1 hbody
    obtain ⟨exit, hmem, hcontains, rfl⟩ := Machine.exists_exit hnext
    simp [stringMachine] at hmem
    rcases hmem with rfl | rfl | rfl
    · exact ih hrest hnil
    · rw [CharSet.contains_single, decide_eq_true_eq] at hcontains
      exact hc hcontains
    · -- the machine has stopped, so that nothing leads back inside
      cases rest with
      | nil => cases hrest
      | cons d rest => cases hrest
  | @skip c rest behind hescape ih =>
    refine ih ?_ hnil
    -- whatever stands behind the backslash leads back inside
    obtain ⟨next, hnext, hrest⟩ := Option.bind_eq_some_iff.1
      (show (stringMachine.next? .escape c).bind (stringMachine.after? · rest) = _ from hbody)
    obtain ⟨exit, hmem, -, rfl⟩ := Machine.exists_exit hnext
    rwa [List.mem_singleton.1 hmem] at hrest

end Tokens

/-! ## What the decoders make of them -/

/-- The integers that 64 bits hold. -/
def FitsInt64 (value : Int) : Prop :=
  -(Text.int64Bound : Int) ≤ value ∧ value < Text.int64Bound

section Decoders

variable {token : List Char} {value : Int} {body : List Char}

theorem exists_toInt_iff : (∃ x : Int64, x.toInt = value) ↔ FitsInt64 value := by
  unfold FitsInt64 Text.int64Bound
  constructor
  · rintro ⟨x, rfl⟩
    exact ⟨x.le_toInt, x.toInt_lt⟩
  · rintro ⟨hle, hlt⟩
    exact ⟨Int64.ofInt value, Int64.toInt_ofInt_of_le hle hlt⟩

/-- The numeral of an integer is read as its value, or refused if 64 bits do not hold it. -/
theorem readInteger_numeral (h : IsIntegerNumeral token value) :
    (FitsInt64 value → ∃ x : Int64, x.toInt = value ∧ readInteger (String.ofList token) = .ok x) ∧
      (Fails (readInteger (String.ofList token)) ↔ ¬FitsInt64 value) := by
  have hread : ∀ x, readInteger (String.ofList token) = .ok x ↔ x.toInt = value := by
    intro x
    apply readInteger_eq_ok_iff
    rwa [String.toList_ofList]
  constructor
  · intro hfits
    obtain ⟨x, hx⟩ := exists_toInt_iff.2 hfits
    exact ⟨x, hx, (hread x).2 hx⟩
  · simp only [fails_iff_forall, ne_eq, hread, ← exists_toInt_iff, not_exists]

/-- The numeral of a float is always read. -/
theorem exists_readFloat (h : IsFloatNumeral token body) :
    ∃ x, readFloat (String.ofList token) = .ok x := by
  obtain ⟨x, hx⟩ := Decimal.exists_readDouble h
  refine ⟨x, (readFloat_eq_ok_iff ?_).2 hx⟩
  rwa [String.toList_ofList]

/-- Behind the first letter of a name, the rest of it is read as the character of that name. -/
theorem exists_readCharacter_of_word {word tail : List Char} {first : Char} (named : Char)
    (hread : Text.readCharacter (first :: word) = .ok named)
    (hlength : tail.length = (wordSets word).length)
    (h : startsIn (wordSets word) tail = true) :
    ∃ c, Text.readCharacter (first :: tail) = .ok c := by
  rw [wordSets, List.length_map] at hlength
  rw [startsIn_wordSets] at h
  have hprefix : word <+: tail := List.isPrefixOf_iff_prefix.1 h
  exact ⟨named, hprefix.eq_of_length hlength.symm ▸ hread⟩

theorem exists_hexValue?_of_contains {c : Char} (hc : hexDigitSet.contains c = true) :
    ∃ digit, Text.hexValue? c = some digit := by
  simp only [CharSet.contains, hexDigitSet, Text.CodeTable.holds] at hc
  unfold Text.hexValue?
  split
  · exact ⟨_, rfl⟩
  · split
    · exact ⟨_, rfl⟩
    · split
      · exact ⟨_, rfl⟩
      · simp only [Text.isDigit, le_iff_toNat_le, Char.reduceToNat] at *
        grind

/-- Four hexadecimal digits are a code point. -/
theorem exists_isHexCode {digits : List Char} (hlength : digits.length = 4)
    (h : startsIn (List.replicate 4 hexDigitSet) digits = true) : ∃ code, IsHexCode digits code := by
  have hdigits : ∀ c ∈ digits, ∃ digit, Text.hexValue? c = some digit := by
    obtain ⟨a, b, c, d, rfl⟩ := List.length_eq_four.1 hlength
    simp only [List.replicate, startsIn, Bool.and_true, Bool.and_eq_true] at h
    obtain ⟨ha, hb, hc, hd⟩ := h
    simp only [List.forall_mem_cons, exists_hexValue?_of_contains, ha, hb, hc, hd, true_and]
    exact List.forall_mem_nil _
  obtain ⟨code, hcode⟩ := Text.exists_ofHexFrom? hdigits 0
  exact ⟨code, hlength, hcode⟩

/-- The token of a character is read, or it is the code point of a surrogate. -/
theorem readCharacter_token (h : IsCharacterToken token) :
    (∃ c, Text.readCharacter (afterBackslash token) = .ok c) ∨
      ∃ digits code, token = '\\' :: 'u' :: digits ∧ IsHexCode digits code ∧ IsSurrogate code := by
  unfold IsCharacterToken at h
  split at h
  · next c tail =>
    have single : ∃ char, Text.readCharacter [c] = .ok char := by
      simp [Text.readCharacter, Text.namedCharacter?_singleton]
    obtain ⟨-, rfl | ⟨hlength, hstarts⟩⟩ := h
    · exact .inl single
    · unfold characterTail at hlength hstarts
      split at hlength
      · exact .inl (exists_readCharacter_of_word '\n' rfl hlength hstarts)
      · exact .inl (exists_readCharacter_of_word '\r' rfl hlength hstarts)
      · exact .inl (exists_readCharacter_of_word ' ' rfl hlength hstarts)
      · exact .inl (exists_readCharacter_of_word '\t' rfl hlength hstarts)
      · obtain ⟨code, hcode⟩ := exists_isHexCode hlength hstarts
        by_cases hsurrogate : IsSurrogate code
        · exact .inr ⟨tail, code, rfl, hcode, hsurrogate⟩
        · obtain ⟨char, hchar⟩ := hcode.exists_readCodePoint_iff.2 hsurrogate
          refine .inl ⟨char, ?_⟩
          rw [afterBackslash, hcode.readCharacter_eq, hchar]
          rfl
      · rw [List.eq_nil_of_length_eq_zero hlength]
        exact .inl single
  · exact h.elim

/-- The token of a character is refused exactly if it is the code point of a surrogate. -/
theorem fails_readCharacter_iff (h : IsCharacterToken token) :
    Fails (readCharacter (afterBackslash token)) ↔
      ∃ digits code, token = '\\' :: 'u' :: digits ∧ IsHexCode digits code ∧ IsSurrogate code := by
  constructor
  · intro hfails
    rcases readCharacter_token h with ⟨c, hread⟩ | hsurrogate
    · rw [readCharacter, hread] at hfails
      exact absurd hfails (not_fails_ok c)
    · exact hsurrogate
  · rintro ⟨digits, code, rfl, hcode, hsurrogate⟩
    rw [afterBackslash, readCharacter, hcode.readCharacter_eq,
      hcode.readCodePoint_of_surrogate hsurrogate]
    exact ⟨_, rfl⟩

/-- A body is refused exactly if one of its backslashes starts no escape. -/
theorem fails_readText_iff : Fails (readText body) ↔ HasBadEscape body := by
  rw [← Text.exists_unescape_eq_error_iff, readText]
  cases Text.unescape body with
  | error fault => exact ⟨fun _ => ⟨fault, rfl⟩, fun _ => ⟨_, rfl⟩⟩
  | ok text => simp [Fails]

end Decoders

/-! ## What the rules make of them -/

section Rules

variable {α : Type} {input body : List Char} {length : Nat} {rule : LiteralRule}

/-- Without a tag in front, a value is taken as it is. -/
theorem bind_tagged_empty (result : Except Error α) (f : α → Element) :
    (result >>= fun value => tagged (f value) "") = result.map f := by
  cases result <;> rfl

/-- Four of the rules are told by their priorities. -/
theorem eq_of_priority (h : rule ∈ literalRules) :
    (rule.priority = .integer → rule = integerRule) ∧ (rule.priority = .float → rule = floatRule) ∧
      (rule.priority = .character → rule = characterRule) ∧
        (rule.priority = .string → rule = stringRule) := by
  rcases mem_literalRules_iff.1 h with rfl | rfl | rfl | rfl | rfl | rfl | rfl | rfl | rfl <;>
    refine ⟨?_, ?_, ?_, ?_⟩ <;> intro hpriority <;> first | rfl | cases hpriority

/-- An integer is read as its value, or refused if 64 bits do not hold it. -/
theorem process_integer (h : integerRule.matcher.matchEnd? input = some length) :
    ∃ value, IsIntegerNumeral (input.take length) value ∧
      (FitsInt64 value → ∃ x : Int64, x.toInt = value ∧
        integerRule.process "" (String.ofList (input.take length)) = .ok (.integer x)) ∧
      (Fails (integerRule.process "" (String.ofList (input.take length))) ↔ ¬FitsInt64 value) := by
  obtain ⟨value, hvalue⟩ := exists_integerNumeral h
  obtain ⟨hfits, hfails⟩ := readInteger_numeral hvalue
  have hprocess : integerRule.process "" (String.ofList (input.take length)) =
      (readInteger (String.ofList (input.take length))).map Element.integer :=
    bind_tagged_empty _ _
  rw [hprocess, fails_map_iff]
  refine ⟨value, hvalue, fun hvalue => ?_, hfails⟩
  obtain ⟨x, hx, hread⟩ := hfits hvalue
  exact ⟨x, hx, by rw [hread]; rfl⟩

/-- A float is never refused. -/
theorem process_float (h : floatRule.matcher.matchEnd? input = some length) :
    ∃ x, floatRule.process "" (String.ofList (input.take length)) = .ok (.float x) := by
  obtain ⟨body, hbody⟩ := exists_floatNumeral h
  obtain ⟨x, hread⟩ := exists_readFloat hbody
  have hprocess : floatRule.process "" (String.ofList (input.take length)) =
      (readFloat (String.ofList (input.take length))).map Element.float :=
    bind_tagged_empty _ _
  exact ⟨x, by rw [hprocess, hread]; rfl⟩

/-- A character is refused exactly if it is written as a surrogate. -/
theorem process_character (h : characterRule.matcher.matchEnd? input = some length) :
    Fails (characterRule.process "" (String.ofList (input.take length))) ↔
      ∃ digits code, input.take length = '\\' :: 'u' :: digits ∧ IsHexCode digits code ∧
        IsSurrogate code := by
  have hprocess : characterRule.process "" (String.ofList (input.take length)) =
      (readCharacter (afterBackslash (String.ofList (input.take length)).toList)).map
        Element.character :=
    bind_tagged_empty _ _
  rw [hprocess, fails_map_iff, String.toList_ofList]
  exact fails_readCharacter_iff (isCharacterToken_take h)

/-- A string is refused exactly if a backslash between its quotes starts no escape. -/
theorem process_string (h : stringRule.matcher.matchEnd? input = some length) :
    ∃ body, input.take length = '"' :: body ++ ['"'] ∧
      (Fails (stringRule.process "" (String.ofList (input.take length))) ↔ HasBadEscape body) := by
  obtain ⟨body, hbody, -⟩ := exists_stringBody h
  refine ⟨body, hbody, ?_⟩
  rw [hbody, stringRule_process, readQuoted_quoted, if_neg (by decide), if_neg (by decide),
    bind_tagged_empty, fails_map_iff, fails_readText_iff]

end Rules

end Grammar

end Edn
