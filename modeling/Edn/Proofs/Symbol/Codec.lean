import Edn.Proofs.Symbol.Expression

/-!
# Symbols and their texts

A symbol and its text determine each other, whichever way the symbol was made.

* `Name.IsSpelled` says which texts are names, character by character.
* `Symbol.IsMade` are the symbols that can be made: read, or put together from
  two parts, as symbols or as keywords.
* `Symbol.checkParts_iff_splitParts`: two parts are checked as their text is.
* `Symbol.codec` is the result.
-/

namespace Edn

/-! ## Names -/

namespace Name

/-- An ASCII letter, or a mark that may start a name. -/
def StartsName (c : Char) : Prop :=
  ('a' ≤ c ∧ c ≤ 'z') ∨ ('A' ≤ c ∧ c ≤ 'Z') ∨
    c ∈ ['*', '!', '_', '?', '$', '%', '&', '=', '<', '>']

/-- One of `.`, `+` and `-`; or an optional one of these, then a letter or a mark, and then letters,
digits and marks. -/
def IsSpelled (text : List Char) : Prop :=
  (∃ c ∈ ['.', '+', '-'], text = [c]) ∨
    ∃ modifier first later, text = modifier ++ first :: later ∧
      (modifier = [] ∨ ∃ c ∈ ['.', '+', '-'], modifier = [c]) ∧ StartsName first ∧
        ∀ c ∈ later, StartsName c ∨ ('0' ≤ c ∧ c ≤ '9') ∨ c ∈ ['.', '+', '-', ':', '#']

theorem isModifier_iff {c : Char} : isModifier c = true ↔ c ∈ ['.', '+', '-'] := by
  simp [isModifier, or_assoc]

theorem isFirst_iff {c : Char} : isFirst c = true ↔ StartsName c := by
  simp [isFirst, isLeadingMark, Text.isLetter, StartsName, or_assoc]

theorem isLater_iff {c : Char} : isLater c = true ↔
    StartsName c ∨ ('0' ≤ c ∧ c ≤ '9') ∨ c ∈ ['.', '+', '-', ':', '#'] := by
  simp only [isLater, Bool.or_eq_true, isFirst_iff, isModifier_iff, Text.isDigit, Bool.and_eq_true,
    decide_eq_true_eq, beq_iff_eq, List.mem_cons, List.not_mem_nil, or_false]
  tauto

theorem isPlain_iff {text : List Char} : isPlain text = true ↔
    ∃ first later, text = first :: later ∧ isFirst first = true ∧
      ∀ c ∈ later, isLater c = true := by
  cases text with
  | nil => simp [isPlain]
  | cons c text => simp [isPlain]

/-- A first character is no modifier. -/
theorem isModifier_of_isFirst {c : Char} (h : isFirst c = true) : isModifier c = false := by
  rw [← Bool.not_eq_true, isModifier_iff]
  intro hmodifier
  simp only [List.mem_cons, List.not_mem_nil, or_false] at hmodifier
  rcases hmodifier with rfl | rfl | rfl <;> cases h

theorem isName_iff {text : List Char} : isName text = true ↔ IsSpelled text := by
  simp only [IsSpelled, ← isLater_iff]
  simp only [← isModifier_iff, ← isFirst_iff]
  constructor
  · intro h
    cases text with
    | nil => cases h
    | cons c rest =>
      rw [isName] at h
      split at h
      · next hmodifier =>
        rcases Bool.or_eq_true_iff.1 h with hempty | hplain
        · exact .inl ⟨c, hmodifier, by rw [List.isEmpty_iff.1 hempty]⟩
        · obtain ⟨first, later, rfl, hfirst, hlater⟩ := isPlain_iff.1 hplain
          exact .inr ⟨[c], first, later, rfl, .inr ⟨c, hmodifier, rfl⟩, hfirst, hlater⟩
      · obtain ⟨first, later, htext, hfirst, hlater⟩ := isPlain_iff.1 h
        exact .inr ⟨[], first, later, htext, .inl rfl, hfirst, hlater⟩
  · rintro (⟨c, hmodifier, rfl⟩ | ⟨modifier, first, later, rfl, hmodifier, hfirst, hlater⟩)
    · rw [isName, if_pos hmodifier]
      rfl
    · have hplain : isPlain (first :: later) = true :=
        isPlain_iff.2 ⟨first, later, rfl, hfirst, hlater⟩
      rcases hmodifier with rfl | ⟨c, hmodifier, rfl⟩
      · rw [List.nil_append, isName, isModifier_of_isFirst hfirst]
        exact hplain
      · rw [List.singleton_append, isName, if_pos hmodifier, hplain, Bool.or_true]

end Name

namespace Symbol

/-! ## Symbols that are made -/

/-- The symbols that can be made. -/
inductive IsMade (s : Symbol) : Prop where
  | read {text : String} (h : Symbol.read text = .ok s)
  | qualified {qualifier name : String} (h : Symbol.qualified qualifier name = .ok s)
  | readKeyword {text : String} (h : Symbol.readKeyword text = .ok s)
  | qualifiedKeyword {qualifier name : String}
      (h : Symbol.qualifiedKeyword qualifier name = .ok s)

/-- Reads a symbol, or a keyword. -/
def readAs (isKeyword : Bool) (text : String) : Except Error Symbol :=
  if isKeyword then readKeyword text else read text

variable {s t : Symbol} {p n q m : String}

theorem IsMade.isValid (h : s.IsMade) : s.IsValid := by
  cases h with
  | read h => exact (isValid_of_read h).1
  | qualified h => exact (isValid_of_qualified h).1
  | readKeyword h => exact (isValid_of_readKeyword h).1
  | qualifiedKeyword h => exact (isValid_of_qualifiedKeyword h).1

/-- A valid symbol reads back. -/
theorem readAs_text (h : s.IsValid) : readAs s.isKeyword s.text = .ok s := by
  cases hkeyword : s.isKeyword with
  | false => exact read_text h hkeyword
  | true => exact readKeyword_text h hkeyword

/-- The text of a symbol tells whether it is a keyword. -/
theorem head_text (h : s.IsValid) : s.isKeyword = decide (s.text.toList.head? = some ':') := by
  obtain ⟨c, rest, hjoin, hc, -⟩ := exists_head_joinParts h
  cases hkeyword : s.isKeyword with
  | true => simp [text, marker, hkeyword]
  | false =>
    have hcolon : c ≠ ':' := by
      rintro rfl
      revert hc
      decide
    simp [text, marker, hkeyword, hjoin, hcolon]

/-- Valid symbols with one text are equal. -/
theorem eq_of_text_eq (hs : s.IsValid) (ht : t.IsValid) (h : s.text = t.text) : s = t := by
  have hkeyword : s.isKeyword = t.isKeyword := by
    rw [head_text hs, head_text ht, h]
  have hread := readAs_text hs
  rw [hkeyword, h, readAs_text ht] at hread
  exact (Except.ok.inj hread).symm

/-! ## Two parts and their text -/

/-- A text with one separator is put together in one way. -/
theorem eq_of_joined_eq (hq : separator ∉ q.toList) (hm : separator ∉ m.toList)
    (h : p ++ "/" ++ n = q ++ "/" ++ m) : p = q ∧ n = m := by
  have hlists : p.toList ++ separator :: n.toList = q.toList ++ separator :: m.toList := by
    simpa [separator] using congrArg String.toList h
  have hp : separator ∉ p.toList := by
    have hcount := congrArg (List.count separator) hlists
    simp only [List.count_append, List.count_cons_self, List.count_eq_zero_of_not_mem hq,
      List.count_eq_zero_of_not_mem hm] at hcount
    rw [← List.count_eq_zero]
    omega
  obtain ⟨htake, hdrop⟩ := cut_append (n := n.toList) hp
  obtain ⟨htake', hdrop'⟩ := cut_append (n := m.toList) hq
  rw [hlists] at htake hdrop
  refine ⟨String.toList_injective (htake.symm.trans htake'), String.toList_injective ?_⟩
  exact (List.cons.inj (hdrop.symm.trans hdrop')).2

/-- Two parts are checked as the text that they make is split. -/
theorem checkParts_iff_splitParts (h : ¬ (p = "" ∧ n = "")) :
    checkParts p n = .ok (q, m) ↔ splitParts (p ++ "/" ++ n) = .ok (q, m) := by
  rw [checkParts_eq_ok_iff, splitParts_eq_ok_iff]
  constructor
  · rintro ⟨rfl, rfl, hq, hm⟩
    exact .inr (.inr ⟨rfl, hq, hm⟩)
  · rintro (⟨hslash, -, -⟩ | ⟨-, -, hname⟩ | ⟨hjoined, hq, hm⟩)
    · refine absurd ?_ h
      have hlength := congrArg String.length hslash
      simp only [String.length_append] at hlength
      have hone : "/".length = 1 := rfl
      exact ⟨String.length_eq_zero_iff.1 (by omega), String.length_eq_zero_iff.1 (by omega)⟩
    · exact absurd (by simp [separator]) (Name.separator_not_mem hname)
    · obtain ⟨rfl, rfl⟩ :=
        eq_of_joined_eq (Name.separator_not_mem hq) (Name.separator_not_mem hm) hjoined
      exact ⟨rfl, rfl, hq, hm⟩

/-- The colon of a keyword stands in front of its qualifier. -/
theorem dropColon_joined (p n : String) :
    dropColon (p ++ "/" ++ n) = dropColon p ++ "/" ++ n := by
  unfold dropColon
  cases hp : p.toList with
  | nil =>
    obtain rfl : p = "" := String.toList_injective hp
    simp
  | cons c rest =>
    by_cases hc : c = ':'
    · subst hc
      have htext : (p ++ "/" ++ n).toList = ':' :: (rest ++ '/' :: n.toList) := by simp [hp]
      rw [htext]
      exact String.toList_injective (by simp)
    · have htext : (p ++ "/" ++ n).toList = c :: (rest ++ '/' :: n.toList) := by simp [hp]
      rw [htext]
      split
      · next heq => exact absurd (List.cons.inj heq).1 hc
      · split
        · next heq => exact absurd (List.cons.inj heq).1 hc
        · rfl

theorem qualified_iff_read (h : ¬ (p = "" ∧ n = "")) :
    qualified p n = .ok s ↔ read (p ++ "/" ++ n) = .ok s := by
  rw [qualified, read, ofParts_eq_ok_iff, ofParts_eq_ok_iff, checkParts_iff_splitParts h]

theorem qualifiedKeyword_iff_readKeyword :
    qualifiedKeyword p n = .ok s ↔ readKeyword (p ++ "/" ++ n) = .ok s := by
  simp only [qualifiedKeyword, readKeyword, dropColon_joined]
  generalize dropColon p = body
  by_cases hempty : body = ""
  · -- without a qualifier both are refused
    subst hempty
    have hstart : startsWithSeparator ("" ++ "/" ++ n) = true := by
      simp [startsWithSeparator, separator]
    have hempty : startsWithSeparator "" = false := rfl
    rw [hstart, hempty, if_pos rfl, if_neg Bool.false_ne_true, ofParts_eq_ok_iff,
      checkParts_eq_ok_iff]
    constructor
    · rintro ⟨⟨hqualifier, -, hname, -⟩, -⟩
      rw [hqualifier] at hname
      cases hname
    · intro h
      cases h
  · have hstart : startsWithSeparator (body ++ "/" ++ n) = startsWithSeparator body := by
      cases hbody : body.toList with
      | nil => exact absurd (String.toList_injective hbody) hempty
      | cons c rest => simp [startsWithSeparator, hbody]
    rw [hstart]
    split
    · constructor <;> (intro h; cases h)
    · rw [ofParts_eq_ok_iff, ofParts_eq_ok_iff, checkParts_iff_splitParts fun h => hempty h.1]

/-! ## The result -/

/-- The texts of symbols are the lone separator, the names, and two names with a separator between
them, where the names are those that their expression matches.  A symbol has the text from which it
was read, every symbol or keyword that can be made is read from its text, and different ones have
different texts.  Two parts make the symbol, or the keyword, that is read from their text. -/
theorem codec :
    (∀ t, (∃ s, read t = .ok s) ↔ t = "/" ∨ Name.IsSpelled t.toList ∨
        ∃ p n, t = p ++ "/" ++ n ∧ Name.IsSpelled p.toList ∧ Name.IsSpelled n.toList) ∧
      (∃ pattern, Pattern.read? Name.expression = some pattern ∧ ∀ t : List Char,
        ((Matcher.ofPattern pattern).matchEnd? t).isSome = true ↔ Name.IsSpelled t) ∧
      (∀ t s, read t = .ok s → s.text = t) ∧
      (∀ s : Symbol, s.IsMade → readAs s.isKeyword s.text = .ok s) ∧
      (∀ s t : Symbol, s.IsMade → t.IsMade → s.text = t.text → s = t) ∧
      (∀ p n s, ¬ (p = "" ∧ n = "") → (qualified p n = .ok s ↔ read (p ++ "/" ++ n) = .ok s)) ∧
      ∀ p n s, qualifiedKeyword p n = .ok s ↔ readKeyword (p ++ "/" ++ n) = .ok s := by
  refine ⟨fun t => ?_, ?_, fun t s h => (isValid_of_read h).2.2, fun s h => readAs_text h.isValid,
    fun s t hs ht h => eq_of_text_eq hs.isValid ht.isValid h, fun p n s h => qualified_iff_read h,
    fun p n s => qualifiedKeyword_iff_readKeyword⟩
  · simp only [← Name.isName_iff]
    constructor
    · rintro ⟨s, h⟩
      rcases splitParts_eq_ok_iff.1 (ofParts_eq_ok_iff.1 h).1 with
        ⟨rfl, -, -⟩ | ⟨-, -, hname⟩ | ⟨htext, hq, hn⟩
      · exact .inl rfl
      · exact .inr (.inl hname)
      · exact .inr (.inr ⟨_, _, htext, hq, hn⟩)
    · have hread : ∀ {q n}, splitParts t = .ok (q, n) → ∃ s, read t = .ok s := fun hparts =>
        ⟨⟨_, _, false⟩, ofParts_eq_ok_iff.2 ⟨hparts, rfl⟩⟩
      rintro (hslash | hname | ⟨q, n, htext, hq, hn⟩)
      · exact hread (splitParts_eq_ok_iff.2 (.inl ⟨hslash, rfl, rfl⟩))
      · exact hread (splitParts_eq_ok_iff.2 (.inr (.inl ⟨rfl, rfl, hname⟩)))
      · exact hread (splitParts_eq_ok_iff.2 (.inr (.inr ⟨htext, hq, hn⟩)))
  · obtain ⟨pattern, hpattern, hmatch⟩ := Name.matchEnd?_expression
    refine ⟨pattern, hpattern, fun t => ?_⟩
    rw [hmatch, ← Name.isName_iff]
    split <;> simp_all

/-- A keyword and a symbol of the same parts, made in the four ways. -/
theorem codec_goodName :
    (qualified "-good" "name" = .ok ⟨"-good", "name", false⟩ ∧
        read ("-good" ++ "/" ++ "name") = .ok ⟨"-good", "name", false⟩) ∧
      (qualifiedKeyword ":-good" "name" = .ok ⟨"-good", "name", true⟩ ∧
        readKeyword (":-good" ++ "/" ++ "name") = .ok ⟨"-good", "name", true⟩) ∧
      (read "-good/name" = .ok ⟨"-good", "name", false⟩ ∧
        (⟨"-good", "name", false⟩ : Symbol).text = "-good/name") ∧
      readAs true (⟨"-good", "name", true⟩ : Symbol).text = .ok ⟨"-good", "name", true⟩ := by
  obtain ⟨-, -, htext, hreads, -, hqualified, hkeyword⟩ := codec
  have hmade : qualified "-good" "name" = .ok ⟨"-good", "name", false⟩ := by decide +kernel
  have hmadeKeyword : qualifiedKeyword ":-good" "name" = .ok ⟨"-good", "name", true⟩ := by
    decide +kernel
  have hread : read "-good/name" = .ok ⟨"-good", "name", false⟩ := by decide +kernel
  exact ⟨⟨hmade, (hqualified _ _ _ (by decide)).1 hmade⟩,
    ⟨hmadeKeyword, (hkeyword _ _ _).1 hmadeKeyword⟩, ⟨hread, htext _ _ hread⟩,
    hreads ⟨"-good", "name", true⟩ (.qualifiedKeyword hmadeKeyword)⟩

end Symbol

end Edn
