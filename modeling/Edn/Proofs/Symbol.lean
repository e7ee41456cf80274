import Edn.Symbol
import Mathlib.Data.List.TakeWhile

/-!
# Symbols read back

* `Symbol.splitParts_eq_ok_iff` says which texts are symbols, and what their
  parts are: the lone separator, a name, or two names with a separator
  between them.
* `Symbol.IsValid` says the same of a symbol's parts.  Every reading makes a
  valid symbol (`Symbol.isValid_of_read` and its neighbours).
* `Symbol.read_text` and `Symbol.readKeyword_text`: a valid symbol reads back.
-/

namespace Edn

/-! ## Names -/

namespace Name

/-- The characters of a name may all stand after its first. -/
theorem isLater_of_mem {text : List Char} (h : isName text = true) :
    ∀ c ∈ text, isLater c = true := by
  cases text with
  | nil => intro c hc; cases hc
  | cons first rest =>
    have later : ∀ {chars : List Char}, isPlain chars = true → ∀ c ∈ chars, isLater c = true := by
      intro chars hchars c hc
      cases chars with
      | nil => cases hc
      | cons d others =>
        simp only [isPlain, Bool.and_eq_true, List.all_eq_true] at hchars
        rcases List.mem_cons.1 hc with rfl | hc
        · simp [isLater, hchars.1]
        · exact hchars.2 c hc
    intro c hc
    simp only [isName] at h
    split at h
    · next hmodifier =>
      rcases List.mem_cons.1 hc with rfl | hc
      · simp [isLater, hmodifier]
      · rcases Bool.or_eq_true_iff.1 h with h | h
        · rw [List.isEmpty_iff.1 h] at hc
          cases hc
        · exact later h c hc
    · exact later h c hc

theorem ne_nil_of_isName {text : List Char} (h : isName text = true) : text ≠ [] := by
  rintro rfl
  cases h

/-- A name does not hold the separator. -/
theorem separator_not_mem {text : List Char} (h : isName text = true) : separator ∉ text :=
  fun hmem => absurd (isLater_of_mem h _ hmem) (by decide)

/-- A name starts with a modifier or a first character, and no digit follows a modifier. -/
theorem exists_head {text : List Char} (h : isName text = true) :
    ∃ c rest, text = c :: rest ∧ (isFirst c = true ∨ isModifier c = true) ∧
      (isModifier c = true → ∀ d ∈ rest.head?, isFirst d = true) := by
  cases text with
  | nil => cases h
  | cons c rest =>
    refine ⟨c, rest, rfl, ?_⟩
    simp only [isName] at h
    split at h
    · next hmodifier =>
      refine ⟨.inr hmodifier, fun _ d hd => ?_⟩
      cases rest with
      | nil => cases hd
      | cons first later =>
        cases hd
        simp only [List.isEmpty_cons, Bool.false_or, isPlain, Bool.and_eq_true] at h
        exact h.1
    · next hmodifier =>
      simp only [isPlain, Bool.and_eq_true] at h
      exact ⟨.inl h.1, fun hc => absurd hc hmodifier⟩

end Name

namespace Symbol

/-! ## Parts -/

theorem checkParts_eq_ok_iff {qualifier name q n : String} :
    checkParts qualifier name = .ok (q, n) ↔
      q = qualifier ∧ n = name ∧ Name.isName q.toList = true ∧ Name.isName n.toList = true := by
  unfold checkParts
  constructor
  · intro h
    grind
  · rintro ⟨rfl, rfl, hq, hn⟩
    have hne : q.isEmpty = false := by
      rw [← Bool.not_eq_true, String.isEmpty_iff]
      rintro rfl
      cases hq
    simp [hne, hq, hn]

/-- A list with a separator is cut in two at the first one. -/
theorem cut_append {q n : List Char} (hq : separator ∉ q) :
    (q ++ separator :: n).takeWhile (· != separator) = q ∧
      (q ++ separator :: n).dropWhile (· != separator) = separator :: n := by
  have h : ∀ c ∈ q, (c != separator) = true := fun c hc => by
    simpa using fun heq : c = separator => hq (heq ▸ hc)
  rw [List.takeWhile_append_of_pos h, List.dropWhile_append_of_pos h]
  simp

/-- What stands at the first separator of a list, and what before it. -/
theorem cut_of_dropWhile {chars rest : List Char} {c : Char}
    (h : chars.dropWhile (· != separator) = c :: rest) :
    chars = chars.takeWhile (· != separator) ++ separator :: rest := by
  have hne : chars.dropWhile (· != separator) ≠ [] := by simp [h]
  have hc : c = separator := by
    have := List.head_dropWhile_not (· != separator) hne
    simpa [h] using this
  calc chars = chars.takeWhile (· != separator) ++ chars.dropWhile (· != separator) :=
        List.takeWhile_append_dropWhile.symm
    _ = chars.takeWhile (· != separator) ++ separator :: rest := by rw [h, hc]

/-- The texts that are symbols, with their parts. -/
theorem splitParts_eq_ok_iff {text q n : String} :
    splitParts text = .ok (q, n) ↔
      (text = "/" ∧ q = "" ∧ n = "/") ∨
      (q = "" ∧ n = text ∧ Name.isName text.toList = true) ∨
      (text = q ++ "/" ++ n ∧ Name.isName q.toList = true ∧ Name.isName n.toList = true) := by
  constructor
  · intro h
    simp only [splitParts] at h
    split at h
    · next hslash =>
      have htext : text = "/" := String.toList_injective hslash
      cases h
      exact .inl ⟨htext, rfl, htext⟩
    · split at h
      · split at h
        · next hname =>
          cases h
          exact .inr (.inl ⟨rfl, rfl, hname⟩)
        · cases h
      · next c name hcut =>
        split at h
        · cases h
        · obtain ⟨rfl, rfl, hq, hn⟩ := checkParts_eq_ok_iff.1 h
          refine .inr (.inr ⟨String.toList_injective ?_, hq, hn⟩)
          simp only [String.toList_append, String.toList_ofList]
          exact (cut_of_dropWhile hcut).trans (by simp [separator])
  · rintro (⟨rfl, rfl, rfl⟩ | ⟨rfl, rfl, hname⟩ | ⟨rfl, hq, hn⟩)
    · rfl
    · have hsep := Name.separator_not_mem hname
      have hslash : n.toList ≠ [separator] := fun h => hsep (by simp [h])
      have hcut : n.toList.dropWhile (· != separator) = [] := by
        rw [List.dropWhile_eq_nil_iff]
        exact fun c hc => by simpa using fun heq : c = separator => hsep (heq ▸ hc)
      simp only [splitParts, if_neg hslash, hcut, hname, if_true]
    · have hlist : (q ++ "/" ++ n).toList = q.toList ++ separator :: n.toList := by
        simp [separator]
      have hslash : q.toList ++ separator :: n.toList ≠ [separator] := by
        have hne := Name.ne_nil_of_isName hq
        intro h
        have := congrArg List.length h
        have := List.length_pos_iff.2 hne
        simp only [List.length_append, List.length_cons, List.length_nil] at *
        omega
      obtain ⟨htake, hdrop⟩ := cut_append (n := n.toList) (Name.separator_not_mem hq)
      have hsep : n.toList.contains separator = false := by
        simpa using Name.separator_not_mem hn
      simp only [splitParts, hlist, if_neg hslash, hdrop, htake, hsep, String.ofList_toList]
      exact checkParts_eq_ok_iff.2 ⟨rfl, rfl, hq, hn⟩

/-! ## Valid symbols -/

/-- The parts of a symbol are names, and the qualifier may be missing; or the symbol is the lone
separator, which is no keyword. -/
def IsValid (s : Symbol) : Prop :=
  (Name.isName s.name.toList = true ∧
    (s.qualifier = "" ∨ Name.isName s.qualifier.toList = true)) ∨
  (s.qualifier = "" ∧ s.name = "/" ∧ s.isKeyword = false)

instance (s : Symbol) : Decidable s.IsValid :=
  inferInstanceAs (Decidable (_ ∨ _))

theorem ofParts_eq_ok_iff {kind : String → Cause} {isKeyword : Bool}
    {parts : Except String (String × String)} {s : Symbol} :
    ofParts kind isKeyword parts = .ok s ↔
      parts = .ok (s.qualifier, s.name) ∧ s.isKeyword = isKeyword := by
  cases parts with
  | error details => simp [ofParts]
  | ok parts =>
    obtain ⟨q, n⟩ := parts
    simp only [ofParts, Except.ok.injEq, Prod.mk.injEq]
    constructor
    · rintro rfl
      exact ⟨⟨rfl, rfl⟩, rfl⟩
    · rintro ⟨⟨rfl, rfl⟩, rfl⟩
      rfl

theorem joinParts_of_ne {qualifier name : String} (h : qualifier ≠ "") :
    joinParts qualifier name = qualifier ++ "/" ++ name := by
  simp only [joinParts, String.isEmpty_iff, if_neg h]
  rfl

theorem ne_empty_of_isName {name : String} (h : Name.isName name.toList = true) : name ≠ "" := by
  rintro rfl
  cases h

/-- What is split is put together again, and its parts are those of a valid symbol. -/
theorem joinParts_of_splitParts {text q n : String} (h : splitParts text = .ok (q, n)) :
    joinParts q n = text ∧ IsValid ⟨q, n, false⟩ ∧ (text ≠ "/" → IsValid ⟨q, n, true⟩) := by
  rcases splitParts_eq_ok_iff.1 h with ⟨rfl, rfl, rfl⟩ | ⟨rfl, rfl, hn⟩ | ⟨rfl, hq, hn⟩
  · exact ⟨rfl, .inr ⟨rfl, rfl, rfl⟩, fun hne => absurd rfl hne⟩
  · exact ⟨rfl, .inl ⟨hn, .inl rfl⟩, fun _ => .inl ⟨hn, .inl rfl⟩⟩
  · exact ⟨joinParts_of_ne (ne_empty_of_isName hq), .inl ⟨hn, .inr hq⟩, fun _ => .inl ⟨hn, .inr hq⟩⟩

/-- A valid symbol is split into its parts. -/
theorem splitParts_joinParts {s : Symbol} (h : s.IsValid) :
    splitParts (joinParts s.qualifier s.name) = .ok (s.qualifier, s.name) := by
  rw [splitParts_eq_ok_iff]
  rcases h with ⟨hn, hq | hq⟩ | ⟨hq, hn, -⟩
  · rw [hq]
    exact .inr (.inl ⟨rfl, rfl, hn⟩)
  · rw [joinParts_of_ne (ne_empty_of_isName hq)]
    exact .inr (.inr ⟨rfl, hq, hn⟩)
  · rw [hq, hn]
    exact .inl ⟨rfl, rfl, rfl⟩

/-! ## Characters -/

/-- The characters of a valid symbol are those of names, and the separator. -/
theorem isLater_of_mem_joinParts {s : Symbol} (h : s.IsValid) :
    ∀ c ∈ (joinParts s.qualifier s.name).toList, Name.isLater c = true ∨ c = separator := by
  intro c hc
  rcases h with ⟨hn, hq | hq⟩ | ⟨hq, hn, -⟩
  · rw [hq] at hc
    exact .inl (Name.isLater_of_mem hn c hc)
  · rw [joinParts_of_ne (ne_empty_of_isName hq)] at hc
    simp only [String.toList_append, List.mem_append] at hc
    rcases hc with (hc | hc) | hc
    · exact .inl (Name.isLater_of_mem hq c hc)
    · exact .inr (by simpa [separator] using hc)
    · exact .inl (Name.isLater_of_mem hn c hc)
  · rw [hq, hn] at hc
    exact .inr (by simpa [joinParts, separator] using hc)

/-- A valid symbol starts with a modifier, a first character or the separator.  What follows a
modifier is a first character or the separator. -/
theorem exists_head_joinParts {s : Symbol} (h : s.IsValid) :
    ∃ c rest, (joinParts s.qualifier s.name).toList = c :: rest ∧
      (Name.isFirst c = true ∨ Name.isModifier c = true ∨ c = separator) ∧
        (Name.isModifier c = true → ∀ d ∈ rest.head?, Name.isFirst d = true ∨ d = separator) := by
  rcases h with ⟨hn, hq | hq⟩ | ⟨hq, hn, -⟩
  · obtain ⟨c, rest, heq, hc, hrest⟩ := Name.exists_head hn
    rw [hq]
    exact ⟨c, rest, heq, hc.imp_right .inl, fun hmodifier d hd => .inl (hrest hmodifier d hd)⟩
  · obtain ⟨c, rest, heq, hc, hrest⟩ := Name.exists_head hq
    refine ⟨c, rest ++ separator :: s.name.toList, ?_, hc.imp_right .inl, fun hmodifier d hd => ?_⟩
    · rw [joinParts_of_ne (ne_empty_of_isName hq)]
      simp [heq, separator]
    · cases rest with
      | nil =>
        cases hd
        exact .inr rfl
      | cons first later => exact .inl (hrest hmodifier d hd)
  · rw [hq, hn]
    exact ⟨separator, [], rfl, .inr (.inr rfl), fun hmodifier => absurd hmodifier (by decide)⟩

/-! ## Symbols -/

/-- A symbol that is read is valid, is no keyword, and has the text from which it was read. -/
theorem isValid_of_read {source : String} {s : Symbol} (h : read source = .ok s) :
    s.IsValid ∧ s.isKeyword = false ∧ s.text = source := by
  obtain ⟨hparts, hkeyword⟩ := ofParts_eq_ok_iff.1 h
  obtain ⟨q, n, isKeyword⟩ := s
  cases hkeyword
  obtain ⟨hjoin, hvalid, -⟩ := joinParts_of_splitParts hparts
  exact ⟨hvalid, rfl, by simpa [text, marker] using hjoin⟩

/-- A text that is read as a symbol is the text of a valid one. -/
theorem exists_of_toBool_read {source : String} (h : (read source).toBool = true) :
    ∃ s, read source = .ok s ∧ s.IsValid ∧ s.text = source := by
  cases hread : read source with
  | error error =>
    rw [hread] at h
    cases h
  | ok s =>
    obtain ⟨hvalid, -, htext⟩ := isValid_of_read hread
    exact ⟨s, rfl, hvalid, htext⟩

/-- A valid symbol that is no keyword reads back. -/
theorem read_text {s : Symbol} (h : s.IsValid) (hkeyword : s.isKeyword = false) :
    read s.text = .ok s := by
  refine ofParts_eq_ok_iff.2 ⟨?_, hkeyword⟩
  simpa [text, marker, hkeyword] using splitParts_joinParts h

/-- The symbol of two parts is valid. -/
theorem isValid_of_qualified {qualifier name : String} {s : Symbol}
    (h : qualified qualifier name = .ok s) : s.IsValid ∧ s.isKeyword = false := by
  obtain ⟨hparts, hkeyword⟩ := ofParts_eq_ok_iff.1 h
  obtain ⟨-, -, hq, hn⟩ := checkParts_eq_ok_iff.1 hparts
  exact ⟨.inl ⟨hn, .inr hq⟩, hkeyword⟩

/-! ## Keywords -/

/-- A keyword that is read is valid. -/
theorem isValid_of_readKeyword {source : String} {s : Symbol} (h : readKeyword source = .ok s) :
    s.IsValid ∧ s.isKeyword = true := by
  simp only [readKeyword] at h
  split at h
  · cases h
  · next hstart =>
    obtain ⟨hparts, hkeyword⟩ := ofParts_eq_ok_iff.1 h
    obtain ⟨q, n, isKeyword⟩ := s
    cases hkeyword
    refine ⟨(joinParts_of_splitParts hparts).2.2 fun hslash => hstart ?_, rfl⟩
    rw [hslash]
    rfl

/-- The keyword of two parts is valid. -/
theorem isValid_of_qualifiedKeyword {qualifier name : String} {s : Symbol}
    (h : qualifiedKeyword qualifier name = .ok s) : s.IsValid ∧ s.isKeyword = true := by
  simp only [qualifiedKeyword] at h
  split at h
  · cases h
  · obtain ⟨hparts, hkeyword⟩ := ofParts_eq_ok_iff.1 h
    obtain ⟨-, -, hq, hn⟩ := checkParts_eq_ok_iff.1 hparts
    exact ⟨.inl ⟨hn, .inr hq⟩, hkeyword⟩

/-- The text of a valid keyword without its colon does not start with the separator. -/
theorem startsWithSeparator_joinParts {s : Symbol} (h : s.IsValid) (hkeyword : s.isKeyword = true) :
    startsWithSeparator (joinParts s.qualifier s.name) = false := by
  have start : ∀ {chars : List Char} (others : List Char), Name.isName chars = true →
      (chars ++ others).head? ≠ some separator := by
    intro chars others hname hhead
    cases chars with
    | nil => cases hname
    | cons c rest =>
      cases hhead
      exact Name.separator_not_mem hname List.mem_cons_self
  rw [startsWithSeparator, beq_eq_false_iff_ne]
  rcases h with ⟨hn, hq | hq⟩ | ⟨-, -, hfalse⟩
  · simpa [joinParts, hq] using start [] hn
  · rw [joinParts_of_ne (ne_empty_of_isName hq), String.append_assoc, String.toList_append]
    exact start _ hq
  · rw [hkeyword] at hfalse
    cases hfalse

/-- A valid keyword reads back. -/
theorem readKeyword_text {s : Symbol} (h : s.IsValid) (hkeyword : s.isKeyword = true) :
    readKeyword s.text = .ok s := by
  have hdrop : dropColon s.text = joinParts s.qualifier s.name := by
    simp [dropColon, text, marker, hkeyword]
  simp only [readKeyword, hdrop, startsWithSeparator_joinParts h hkeyword, Bool.false_eq_true,
    if_false]
  exact ofParts_eq_ok_iff.2 ⟨splitParts_joinParts h, hkeyword⟩

end Symbol

end Edn
