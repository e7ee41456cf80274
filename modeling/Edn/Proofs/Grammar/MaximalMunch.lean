import Edn.Proofs.Grammar.Shapes

/-!
# Maximal munch

Each literal of the notation is the longest prefix of a text that belongs to
the language of one of the rules.

A pattern prefers its first alternatives, and the preferred match need not be
the longest one.  In the notation it is: `LiteralRule.IsMaximal` says this of
one rule, and `exists_isMaximal` that it holds of all nine.

* `isLongestPrefix_longestMatch?`: where the rules of a grammar take longest
  prefixes, the selected match is the longest prefix that belongs to any of
  their languages.
-/

namespace Edn

/-- The texts of the pattern of a rule. -/
def LiteralRule.language (rule : LiteralRule) : Language Char :=
  ((Pattern.read? rule.written).map Pattern.language).getD 0

/-- A pattern at the start of the text. -/
def Pattern.atStart (shape : Pattern) : Pattern :=
  .sequence (.assertion .textStart) shape

/-- A rule takes the leftmost match of its pattern at the start of the text, which is the longest
prefix of a text that belongs to the language of the pattern. -/
structure LiteralRule.IsMaximal (rule : LiteralRule) (shape : Pattern) : Prop where
  read : Pattern.read? rule.written = some shape
  anchored : rule.matcher = .ofPattern shape.atStart
  leftmost : ∀ text, rule.matcher.matchEnd? text = shape.atStart.leftmostEnd? none 0 text
  longest : TakesLongest rule.matcher.matchEnd? (· ∈ shape.language)

theorem LiteralRule.IsMaximal.language_eq {rule : LiteralRule} {shape : Pattern}
    (h : rule.IsMaximal shape) : rule.language = shape.language := by
  rw [LiteralRule.language, h.read]
  rfl

namespace Grammar

/-! ## The rules -/

section Rules

variable {priority : Priority} {written : String} {shape : Pattern}
  {process : (tag token : String) → Except Error Element}

/-- A rule is maximal if its matcher finds what its pattern prefers, and its pattern prefers what is
longest. -/
theorem isMaximal_of_isShape (hshape : IsShape written shape)
    (hmatch : ∀ text, (matcherOf written).matchEnd? text = shape.preferredLength? ⟨none, text⟩)
    (hlongest : TakesLongest (fun text => shape.preferredLength? ⟨none, text⟩)
      (· ∈ shape.language)) :
    (literalRule priority written process).IsMaximal shape := by
  refine ⟨hshape.1, matcherOf_of_read? hshape.2, fun text => ?_, fun text => ?_⟩
  · show (matcherOf written).matchEnd? text = shape.atStart.leftmostEnd? none 0 text
    rw [Pattern.atStart, Pattern.leftmostEnd?_textStart, hmatch]
  · show IsLongestPrefix _ text ((matcherOf written).matchEnd? text)
    rw [hmatch]
    exact hlongest text

/-- A rule whose automaton follows a machine is maximal, if the machine spells the pattern. -/
theorem isMaximal_of_spells {S : Type} {m : Machine S} {pattern : S → Pattern}
    (hspells : m.Spells pattern) (hshape : IsShape written (pattern m.start))
    (hmatch : ∀ text, (matcherOf written).matchEnd? text = m.longest? m.start text) :
    (literalRule priority written process).IsMaximal (pattern m.start) := by
  apply isMaximal_of_isShape hshape
  · intro text
    rw [hmatch, hspells.preferredLength?_eq]
  · exact hspells.takesLongest m.start

theorem isMaximal_word {word : String} {value : Element} (hshape : IsShape word (wordShape word))
    (hmatch : ∀ text, (matcherOf word).matchEnd? text = wordLength? word.toList text) :
    (wordRule word value).IsMaximal (wordShape word) := by
  apply isMaximal_of_isShape hshape
  · intro text
    rw [hmatch, preferredLength?_word]
  · exact takesLongest_word word

/-- The rules of the notation are maximal. -/
theorem exists_isMaximal {rule : LiteralRule} (h : rule ∈ literalRules) :
    ∃ shape, rule.IsMaximal shape := by
  obtain ⟨hnil, htrue, hfalse, hinteger, hfloat, hcharacter, hsymbol, hkeyword, hstring⟩ :=
    isShape_standard
  rcases mem_literalRules_iff.1 h with rfl | rfl | rfl | rfl | rfl | rfl | rfl | rfl | rfl
  · exact ⟨_, isMaximal_word hnil (matchEnd?_nil .nil)⟩
  · exact ⟨_, isMaximal_word htrue (matchEnd?_true .nil)⟩
  · exact ⟨_, isMaximal_word hfalse (matchEnd?_false .nil)⟩
  · exact ⟨_, isMaximal_of_spells spells_integer hinteger matchEnd?_integer⟩
  · exact ⟨_, isMaximal_of_spells spells_float hfloat matchEnd?_float⟩
  · refine ⟨_, isMaximal_of_isShape hcharacter ?_ takesLongest_character⟩
    intro text
    rw [preferredLength?_character]
    exact matchEnd?_character text
  · exact ⟨_, isMaximal_of_spells (spells_symbol _) hsymbol matchEnd?_symbol⟩
  · exact ⟨_, isMaximal_of_spells (spells_symbol _) hkeyword matchEnd?_keyword⟩
  · exact ⟨_, isMaximal_of_spells spells_string hstring matchEnd?_string⟩

end Rules

/-! ## The grammar -/

/-- In a grammar whose rules take longest prefixes, none of which is empty, the selected match is the
longest prefix that belongs to the language of any rule. -/
theorem isLongestPrefix_longestMatch? {g : Grammar} {language : LiteralRule → List Char → Prop}
    (h : ∀ rule ∈ g.literals, TakesLongest rule.matcher.matchEnd? (language rule))
    (hnil : ∀ rule ∈ g.literals, ¬language rule []) (text : List Char) :
    IsLongestPrefix (fun token => ∃ rule ∈ g.literals, language rule token) text
      ((g.longestMatch? text).map Prod.snd) := by
  -- what belongs to the language of a rule, the rule takes, or more
  have hmore : ∀ rule ∈ g.literals, ∀ n ≤ text.length, language rule (text.take n) →
      ∃ most ∈ rule.matcher.matchEnd? text, n ≤ most := by
    intro rule hrule n hn hmem
    obtain ⟨most, hmost, hend⟩ := (h rule hrule).exists_of_mem hmem (text.drop n)
    rw [List.take_append_drop] at hend
    rw [List.length_take, Nat.min_eq_left hn] at hmost
    exact ⟨most, hend, hmost⟩
  cases hmatch : g.longestMatch? text with
  | none =>
    have hbest := isBest_longestMatch? g text
    rw [hmatch] at hbest
    rintro n hn ⟨rule, hrule, hmem⟩
    obtain ⟨most, hend, hle⟩ := hmore rule hrule n hn hmem
    have hzero : n = 0 := Nat.le_zero.1 (hbest rule hrule most hend ▸ hle)
    rw [hzero] at hmem
    exact hnil rule hrule hmem
  | some found =>
    obtain ⟨rule, length⟩ := found
    have hrule := mem_of_longestMatch? hmatch
    obtain ⟨hle, hmem, -⟩ := (h rule hrule).found (matchEnd?_of_longestMatch? hmatch)
    refine ⟨hle, ⟨rule, hrule, hmem⟩, ?_⟩
    rintro n hn ⟨other, hother, hmem⟩
    obtain ⟨most, hend, hmost⟩ := hmore other hother n hn hmem
    exact Nat.le_trans hmost (le_of_longestMatch? hmatch other hother most hend)

/-- A rule of the notation takes the longest prefix that belongs to its language. -/
theorem takesLongest_language {rule : LiteralRule} (h : rule ∈ literalRules) :
    TakesLongest rule.matcher.matchEnd? (· ∈ rule.language) := by
  obtain ⟨shape, hshape⟩ := exists_isMaximal h
  rw [hshape.language_eq]
  exact hshape.longest

theorem matchEnd?_empty {rule : LiteralRule} (h : rule ∈ literalRules) :
    rule.matcher.matchEnd? [] = none := by
  rcases mem_literalRules_iff.1 h with rfl | rfl | rfl | rfl | rfl | rfl | rfl | rfl | rfl
  · exact matchEnd?_nil .nil []
  · exact matchEnd?_true (.boolean true) []
  · exact matchEnd?_false (.boolean false) []
  · exact matchEnd?_integer []
  · exact matchEnd?_float []
  · exact matchEnd?_character []
  · exact matchEnd?_symbol []
  · exact matchEnd?_keyword []
  · exact matchEnd?_string []

/-- No literal of the notation is empty. -/
theorem nil_notMem_language {rule : LiteralRule} (h : rule ∈ literalRules) : [] ∉ rule.language :=
  (takesLongest_language h).missing (matchEnd?_empty h) 0 (Nat.le_refl 0)

/-- The notation has a rule for every pattern of its literals.  The preferred match of each is the
longest one, and the selected match is the longest prefix that belongs to the language of any. -/
theorem standard_maximalMunch :
    standard.literals.map LiteralRule.written = standardLiterals.map (fun entry => entry.2.1) ∧
      (∀ rule ∈ standard.literals, ∃ shape, rule.IsMaximal shape) ∧
      ∀ text, IsLongestPrefix (fun token => ∃ rule ∈ standard.literals, token ∈ rule.language) text
          ((standard.longestMatch? text).map Prod.snd) ∧
        ∀ rule length, standard.longestMatch? text = some (rule, length) →
          text.take length ∈ rule.language := by
  rw [standard_eq]
  refine ⟨rfl, fun rule hrule => exists_isMaximal hrule,
    fun text => ⟨?_, fun rule length hmatch => ?_⟩⟩
  · apply isLongestPrefix_longestMatch?
    · intro rule hrule
      exact takesLongest_language hrule
    · intro rule hrule
      exact nil_notMem_language hrule
  · have hrule := mem_of_longestMatch? hmatch
    obtain ⟨-, hmem, -⟩ := (takesLongest_language hrule).found (matchEnd?_of_longestMatch? hmatch)
    exact hmem

/-- Where no digits follow, the letter and the sign of an exponent are given back. -/
theorem standard_maximalMunch_exponent :
    (floatRule ∈ standard.literals ∧ ∃ shape, floatRule.IsMaximal shape ∧
      floatRule.matcher.matchEnd? "12e+".toList = some 2 ∧ "12".toList ∈ shape.language) ∧
      standard.longestMatch? "nil".toList = some (wordRule "nil" .nil, 3) ∧
        "nil".toList ∈ (wordRule "nil" .nil).language := by
  have hfloat : floatRule ∈ standard.literals := by
    rw [standard_eq]
    exact mem_literalRules_iff.2 (.inr (.inr (.inr (.inr (.inl rfl)))))
  have hend : floatRule.matcher.matchEnd? "12e+".toList = some 2 := by
    rw [matchEnd?_float]
    decide
  have hnil : standard.longestMatch? "nil".toList = some (wordRule "nil" .nil, 3) := by
    rw [← List.append_nil "nil".toList]
    exact longestMatch?_wordNil endsToken_nil
  obtain ⟨shape, hshape⟩ := standard_maximalMunch.2.1 floatRule hfloat
  obtain ⟨-, hmem, -⟩ := hshape.longest.found hend
  exact ⟨⟨hfloat, shape, hshape, hend, hmem⟩, hnil,
    (standard_maximalMunch.2.2 "nil".toList).2 _ _ hnil⟩

end Grammar

end Edn
