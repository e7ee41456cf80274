import Edn.Grammar.Standard

/-!
# The rules of the notation

The grammar of the notation is made by adding rules to the empty one, and the
patterns of its literals are read from their written forms.  This module
evaluates both once:

* `isWritten_integer` and its neighbours say which automata the nine patterns
  have, and `IsWritten.matchEnd?_eq` that the matchers follow them.
* `standard_eq`: the rules in the order in which they are tried.
-/

namespace Edn.Grammar

/-! ## Sets of characters -/

/-- The signs of numbers. -/
def signSet : CharSet :=
  ⟨[(43, 43), (45, 45)]⟩

/-- The decimal digits. -/
def digitSet : CharSet :=
  .range '0' '9'

/-- The digits that start a number of several digits. -/
def leadingDigitSet : CharSet :=
  .range '1' '9'

/-- The hexadecimal digits. -/
def hexDigitSet : CharSet :=
  ⟨[(48, 57), (65, 70), (97, 102)]⟩

/-- The letters in front of an exponent. -/
def exponentSet : CharSet :=
  ⟨[(69, 69), (101, 101)]⟩

/-- All characters but white space. -/
def visibleSet : CharSet :=
  ⟨[(0, 8), (14, 31), (33, 132), (134, 159), (161, 5759), (5761, 8191), (8203, 8231),
    (8234, 8238), (8240, 8286), (8288, 12287), (12289, 1114111)]⟩

/-- The characters that start a symbol. -/
def symbolStartSet : CharSet :=
  ⟨[(33, 33), (36, 38), (42, 43), (45, 47), (60, 63), (65, 90), (95, 95), (97, 122)]⟩

/-- The characters of symbols and keywords. -/
def symbolSet : CharSet :=
  ⟨[(33, 33), (35, 38), (42, 43), (45, 58), (60, 63), (65, 90), (95, 95), (97, 122)]⟩

/-- The characters of a string that stand for themselves. -/
def plainSet : CharSet :=
  ⟨[(0, 33), (35, 91), (93, 1114111)]⟩

/-! ## Automata -/

/-- The automaton of `nil`. -/
def nilAutomaton : Automaton :=
  ⟨#[.accept, .step (.single 'l') 0, .step (.single 'i') 1, .step (.single 'n') 2,
    .check .textStart 3], 4⟩

/-- The automaton of `true`. -/
def trueAutomaton : Automaton :=
  ⟨#[.accept, .step (.single 'e') 0, .step (.single 'u') 1, .step (.single 'r') 2,
    .step (.single 't') 3, .check .textStart 4], 5⟩

/-- The automaton of `false`. -/
def falseAutomaton : Automaton :=
  ⟨#[.accept, .step (.single 'e') 0, .step (.single 's') 1, .step (.single 'l') 2,
    .step (.single 'a') 3, .step (.single 'f') 4, .check .textStart 5], 6⟩

/-- The automaton of integers. -/
def integerAutomaton : Automaton :=
  ⟨#[.accept, .step (.single 'N') 0, .fork 1 0, .fork 4 2, .step digitSet 3,
    .step leadingDigitSet 3, .step (.single '0') 2, .fork 6 5, .step signSet 7, .fork 8 7,
    .check .textStart 9], 10⟩

/-- The automaton of floats. -/
def floatAutomaton : Automaton :=
  ⟨#[.accept, .step (.single 'M') 0, .fork 1 0, .fork 4 2, .step digitSet 3, .step signSet 4,
    .fork 5 4, .step exponentSet 6, .fork 7 2, .fork 10 8, .step digitSet 9, .step (.single '.') 9,
    .fork 11 8, .fork 14 12, .step digitSet 13, .step leadingDigitSet 13, .step (.single '0') 12,
    .fork 16 15, .step signSet 17, .fork 18 17, .check .textStart 19], 20⟩

/-- The automaton of characters. -/
def characterAutomaton : Automaton :=
  ⟨#[.accept, .step visibleSet 0,
    .step hexDigitSet 0, .step hexDigitSet 2, .step hexDigitSet 3, .step hexDigitSet 4,
    .step (.single 'u') 5, .fork 6 1,
    .step (.single 'b') 0, .step (.single 'a') 8, .step (.single 't') 9, .fork 10 7,
    .step (.single 'e') 0, .step (.single 'c') 12, .step (.single 'a') 13, .step (.single 'p') 14,
    .step (.single 's') 15, .fork 16 11,
    .step (.single 'n') 0, .step (.single 'r') 18, .step (.single 'u') 19, .step (.single 't') 20,
    .step (.single 'e') 21, .step (.single 'r') 22, .fork 23 17,
    .step (.single 'e') 0, .step (.single 'n') 25, .step (.single 'i') 26, .step (.single 'l') 27,
    .step (.single 'w') 28, .step (.single 'e') 29, .step (.single 'n') 30, .fork 31 24,
    .step (.single '\\') 32, .check .textStart 33], 34⟩

/-- The automaton of a first character and any number of characters of symbols. -/
def symbolAutomaton (first : CharSet) : Automaton :=
  ⟨#[.accept, .fork 2 0, .step symbolSet 1, .step first 1, .check .textStart 3], 4⟩

/-- The automaton of strings. -/
def stringAutomaton : Automaton :=
  ⟨#[.accept, .step (.single '"') 0, .fork 6 1, .step .all 2, .step (.single '\\') 3,
    .step plainSet 2, .fork 5 4, .step (.single '"') 2, .check .textStart 7], 8⟩

/-! ## Matchers -/

/-- The matcher of a written pattern. -/
@[irreducible]
def matcherOf (written : String) : Matcher :=
  (readPattern .automata written).toOption.getD (.ofPattern .empty)

/-- A written pattern is read, asserts the start of the text, and has the given automaton. -/
def IsWritten (written : String) (a : Automaton) : Prop :=
  (Pattern.read? (atStart written)).map (fun p => (p.automaton, p.isAnchored)) =
    some (a, true)

instance (written : String) (a : Automaton) : Decidable (IsWritten written a) :=
  inferInstanceAs (Decidable (_ = _))

section Matchers

variable {written : String} {a : Automaton}

theorem IsWritten.exists_pattern (h : IsWritten written a) :
    ∃ p : Pattern, Pattern.read? (atStart written) = some p ∧ p.automaton = a ∧
      p.isAnchored = true := by
  obtain ⟨p, hp, heq⟩ := Option.map_eq_some_iff.1 h
  rw [Prod.mk.injEq] at heq
  exact ⟨p, hp, heq.1, heq.2⟩

/-- The engine reads a written pattern as the pattern that it stands for. -/
theorem readPattern_of_read? {p : Pattern} (h : Pattern.read? (atStart written) = some p) :
    readPattern .automata written = .ok (.ofPattern p) := by
  simp only [readPattern, Engine.automata, h]

theorem matcherOf_of_read? {p : Pattern} (h : Pattern.read? (atStart written) = some p) :
    matcherOf written = .ofPattern p := by
  rw [matcherOf, readPattern_of_read? h]
  rfl

theorem IsWritten.readPattern_eq (h : IsWritten written a) :
    readPattern .automata written = .ok (matcherOf written) := by
  obtain ⟨p, hp, -⟩ := h.exists_pattern
  rw [matcherOf_of_read? hp, readPattern_of_read? hp]

/-- A matcher follows its automaton from the start of a text. -/
theorem IsWritten.matchEnd?_eq (h : IsWritten written a) (text : List Char) :
    (matcherOf written).matchEnd? text = a.matchLength? none text := by
  obtain ⟨p, hp, rfl, hanchored⟩ := h.exists_pattern
  rw [matcherOf_of_read? hp, Matcher.matchEnd?_ofPattern hanchored]

end Matchers

/-- The automata of the nine patterns. -/
theorem isWritten_standard :
    IsWritten "nil" nilAutomaton ∧ IsWritten "true" trueAutomaton ∧
      IsWritten "false" falseAutomaton ∧ IsWritten integerPattern integerAutomaton ∧
        IsWritten floatPattern floatAutomaton ∧ IsWritten characterPattern characterAutomaton ∧
          IsWritten symbolPattern (symbolAutomaton symbolStartSet) ∧
            IsWritten keywordPattern (symbolAutomaton (.single ':')) ∧
              IsWritten stringPattern stringAutomaton := by
  decide +kernel

theorem isWritten_nil : IsWritten "nil" nilAutomaton :=
  isWritten_standard.1

theorem isWritten_true : IsWritten "true" trueAutomaton :=
  isWritten_standard.2.1

theorem isWritten_false : IsWritten "false" falseAutomaton :=
  isWritten_standard.2.2.1

theorem isWritten_integer : IsWritten integerPattern integerAutomaton :=
  isWritten_standard.2.2.2.1

theorem isWritten_float : IsWritten floatPattern floatAutomaton :=
  isWritten_standard.2.2.2.2.1

theorem isWritten_character : IsWritten characterPattern characterAutomaton :=
  isWritten_standard.2.2.2.2.2.1

theorem isWritten_symbol : IsWritten symbolPattern (symbolAutomaton symbolStartSet) :=
  isWritten_standard.2.2.2.2.2.2.1

theorem isWritten_keyword : IsWritten keywordPattern (symbolAutomaton (.single ':')) :=
  isWritten_standard.2.2.2.2.2.2.2.1

theorem isWritten_string : IsWritten stringPattern stringAutomaton :=
  isWritten_standard.2.2.2.2.2.2.2.2

/-! ## Rules -/

/-- The literal rule of a written pattern. -/
def literalRule (priority : Priority) (written : String)
    (process : (tag token : String) → Except Error Element) : LiteralRule :=
  ⟨priority, written, matcherOf written, process⟩

/-- The rule of a word that stands for one value. -/
def wordRule (word : String) (value : Element) : LiteralRule :=
  literalRule .literal word fun tag _ => tagged value tag

/-- The rule of integers. -/
def integerRule : LiteralRule :=
  literalRule .integer integerPattern fun tag token => do
    tagged (.integer (← readInteger token)) tag

/-- The rule of floats. -/
def floatRule : LiteralRule :=
  literalRule .float floatPattern fun tag token => do tagged (.float (← readFloat token)) tag

/-- The rule of characters. -/
def characterRule : LiteralRule :=
  literalRule .character characterPattern fun tag token => do
    tagged (.character (← readCharacter (afterBackslash token.toList))) tag

/-- The rule of symbols. -/
def symbolRule : LiteralRule :=
  literalRule .symbol symbolPattern fun tag token => do tagged (← Element.readSymbol token) tag

/-- The rule of keywords. -/
def keywordRule : LiteralRule :=
  literalRule .symbol keywordPattern fun tag token => do tagged (← Element.readKeyword token) tag

/-- The rule of strings, instants and UUIDs. -/
def stringRule : LiteralRule :=
  literalRule .string stringPattern readQuoted

/-- The rules of `nil`, `true` and `false`. -/
def wordRules : List LiteralRule :=
  [wordRule "nil" .nil, wordRule "true" (.boolean true), wordRule "false" (.boolean false)]

/-- The literal rules of the notation, in the order in which they are tried. -/
def literalRules : List LiteralRule :=
  wordRules ++ [integerRule, floatRule, characterRule, symbolRule, keywordRule, stringRule]

theorem mem_literalRules_iff {rule : LiteralRule} :
    rule ∈ literalRules ↔ rule = wordRule "nil" .nil ∨ rule = wordRule "true" (.boolean true) ∨
      rule = wordRule "false" (.boolean false) ∨ rule = integerRule ∨ rule = floatRule ∨
      rule = characterRule ∨ rule = symbolRule ∨ rule = keywordRule ∨ rule = stringRule := by
  simp only [literalRules, wordRules, List.cons_append, List.nil_append, List.mem_cons,
    List.not_mem_nil, or_false]

/-- The collection of a kind that has the given children. -/
def build (kind : CollectionKind) (children : List Element) : Except Error Element :=
  match kind with
  | .ordered .list => .ok (.list children)
  | .ordered .vector => .ok (.vector children)
  | .keyed .map => do Element.map (← Pair.ofFlat children)
  | .keyed .set => Element.set children

theorem opener_ne_nil (kind : CollectionKind) : kind.opener ≠ [] := by
  cases kind <;> rename_i k <;> cases k <;> decide

theorem closer_ne_nil (kind : CollectionKind) : kind.closer ≠ [] := by
  cases kind <;> rename_i k <;> cases k <;> decide

/-- The delimiter rule of a kind of collections. -/
def delimiterRule (kind : CollectionKind)
    (process : (tag : String) → (children : List Element) → Except Error Element) :
    DelimiterRule :=
  ⟨kind.opener, kind.closer, opener_ne_nil kind, closer_ne_nil kind, process⟩

/-- The rule of a kind of collections. -/
def collectionRule (kind : CollectionKind) : DelimiterRule :=
  delimiterRule kind fun tag children => do tagged (← build kind children) tag

/-- The delimiter rules of the notation, in the order in which they are tried. -/
def delimiterRules : List DelimiterRule :=
  [collectionRule (.keyed .set), collectionRule (.ordered .list),
   collectionRule (.ordered .vector), collectionRule (.keyed .map)]

/-! ## Adding the rules -/

/-- A new literal rule is put in its place. -/
theorem addPattern_eq {g : Grammar} {priority : Priority} {written : String} {a : Automaton}
    {process : (tag token : String) → Except Error Element} (hwritten : IsWritten written a)
    (hnew : (g.literals.any fun rule => rule.priority == priority && rule.written == written) =
      false) :
    g.addPattern .automata priority written process =
      .ok { g with literals := insertLiteral (literalRule priority written process) g.literals } := by
  unfold addPattern
  rw [hnew, hwritten.readPattern_eq]
  rfl

/-- A new delimiter rule is put in its place. -/
theorem addDelimiters_eq {g : Grammar} {kind : CollectionKind}
    {process : (tag : String) → (children : List Element) → Except Error Element}
    (hnew : (g.delimiters.any fun rule => rule.opener == kind.opener) = false) :
    g.addDelimiters (String.ofList kind.opener) (String.ofList kind.closer) process =
      .ok { g with delimiters := insertDelimiter (delimiterRule kind process) g.delimiters } := by
  unfold addDelimiters
  simp only [String.toList_ofList, hnew]
  rw [dif_pos (by cases kind <;> rename_i k <;> cases k <;> decide)]
  rfl

theorem ok_bind {ε α β : Type} (value : α) (f : α → Except ε β) :
    (Except.ok value >>= f) = f value :=
  rfl

theorem foldlM_addPattern {g next : Grammar} {priority : Priority} {written : String}
    {process : (tag token : String) → Except Error Element}
    {rest : List (Priority × String × (String → String → Except Error Element))}
    (h : g.addPattern .automata priority written process = .ok next) :
    ((priority, written, process) :: rest).foldlM (fun g (priority, written, process) =>
        g.addPattern .automata priority written process) g =
      rest.foldlM (fun g (priority, written, process) =>
        g.addPattern .automata priority written process) next := by
  rw [List.foldlM_cons]
  dsimp only
  rw [h]
  rfl

theorem foldlM_addDelimiters {g next : Grammar} {kind : CollectionKind}
    {process : String → List Element → Except Error Element}
    {rest : List (CollectionKind × (String → List Element → Except Error Element))}
    (h : g.addDelimiters (String.ofList kind.opener) (String.ofList kind.closer) process =
      .ok next) :
    ((kind, process) :: rest).foldlM (fun g (kind, process) =>
        g.addDelimiters (String.ofList kind.opener) (String.ofList kind.closer) process) g =
      rest.foldlM (fun g (kind, process) =>
        g.addDelimiters (String.ofList kind.opener) (String.ofList kind.closer) process) next := by
  rw [List.foldlM_cons]
  dsimp only
  rw [h]
  rfl

theorem addStandardLiterals_eq : empty.addStandardLiterals .automata = .ok ⟨literalRules, []⟩ := by
  unfold addStandardLiterals standardLiterals
  rw [foldlM_addPattern (addPattern_eq isWritten_nil rfl),
    foldlM_addPattern (addPattern_eq isWritten_true rfl),
    foldlM_addPattern (addPattern_eq isWritten_false rfl),
    foldlM_addPattern (addPattern_eq isWritten_integer rfl),
    foldlM_addPattern (addPattern_eq isWritten_float rfl),
    foldlM_addPattern (addPattern_eq isWritten_character rfl),
    foldlM_addPattern (addPattern_eq isWritten_symbol rfl),
    foldlM_addPattern (addPattern_eq isWritten_keyword rfl),
    foldlM_addPattern (addPattern_eq isWritten_string rfl)]
  rfl

theorem collectionRule_map :
    collectionRule (.keyed .map) = delimiterRule (.keyed .map) (fun tag children => do
      tagged (← Element.map (← Pair.ofFlat children)) tag) := by
  unfold collectionRule
  congr 1
  funext tag children
  simp only [build]
  cases Pair.ofFlat children <;> rfl

theorem addStandardDelimiters_eq (literals : List LiteralRule) :
    addStandardDelimiters ⟨literals, []⟩ = .ok ⟨literals, delimiterRules⟩ := by
  unfold addStandardDelimiters standardDelimiters delimiterRules
  rw [collectionRule_map, foldlM_addDelimiters (addDelimiters_eq rfl),
    foldlM_addDelimiters (addDelimiters_eq rfl), foldlM_addDelimiters (addDelimiters_eq rfl),
    foldlM_addDelimiters (addDelimiters_eq rfl)]
  rfl

theorem addStandard_eq : addStandard .automata = .ok ⟨literalRules, delimiterRules⟩ := by
  unfold addStandard
  rw [addStandardLiterals_eq, ok_bind, addStandardDelimiters_eq]

/-- The rules of the notation. -/
theorem standard_eq : standard = ⟨literalRules, delimiterRules⟩ := by
  unfold standard
  rw [addStandard_eq]

/-! ## The order of the rules -/

/-- The rule of floats stands behind those of words and integers. -/
theorem takeWhile_floatRule : standard.literals.takeWhile (·.written != floatRule.written) =
    wordRules ++ [integerRule] := by
  rw [standard_eq]
  rfl

/-- The rule of symbols stands behind those of words, numbers and characters. -/
theorem takeWhile_symbolRule : standard.literals.takeWhile (·.written != symbolRule.written) =
    wordRules ++ [integerRule, floatRule, characterRule] := by
  rw [standard_eq]
  rfl

end Edn.Grammar
