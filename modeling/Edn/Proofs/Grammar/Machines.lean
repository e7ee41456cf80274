import Edn.Proofs.Grammar.Rules
import Edn.Proofs.Pattern.Machine
import Edn.Text.CharClass

/-!
# The machines of the literals

The automata of integers, floats, symbols, keywords and strings are machines
with few states.  Those of `nil`, `true` and `false` are single ways, and a
character is a single way after its first letter.

* `integerMachine` and its neighbours are the machines, and `follows_integer`
  and its neighbours say that the automata follow them.
* `wordLength?` and `characterLength?` are what the automata of words and of
  characters take.
-/

namespace Edn.Grammar

/-! ## Integers and floats -/

/-- The places inside an integer. -/
inductive IntegerState where
  | start
  | signed
  | zero
  | digits
  | marked
deriving DecidableEq

/-- An optional sign, digits without leading zeros, and an optional `N`. -/
def integerMachine : Machine IntegerState where
  start := .start
  accepts
    | .start | .signed => false
    | .zero | .digits | .marked => true
  exits
    | .start => [(signSet, .signed), (.single '0', .zero), (leadingDigitSet, .digits)]
    | .signed => [(.single '0', .zero), (leadingDigitSet, .digits)]
    | .zero => [(.single 'N', .marked)]
    | .digits => [(digitSet, .digits), (.single 'N', .marked)]
    | .marked => []

/-- The states of the automaton of integers. -/
def integerNumber : IntegerState → Nat
  | .start => 10
  | .signed => 7
  | .zero => 2
  | .digits => 3
  | .marked => 0

theorem follows_integer : integerMachine.Follows integerAutomaton integerNumber where
  start := rfl
  agrees_start after := ⟨rfl, rfl⟩
  agrees state hstate before after := by
    cases state with
    | start => exact absurd rfl hstate
    | _ => exact ⟨rfl, rfl⟩
  exits_ne_start state := by cases state <;> decide
  apart state := by cases state <;> decide

/-- The places inside a float. -/
inductive FloatState where
  | start
  | signed
  | zero
  | digits
  | places
  | exponent
  | exponentSigned
  | exponentDigits
  | marked
deriving DecidableEq

/-- An integer without its mark, an optional fraction, an optional exponent, and an optional `M`. -/
def floatMachine : Machine FloatState where
  start := .start
  accepts
    | .start | .signed | .exponent | .exponentSigned => false
    | .zero | .digits | .places | .exponentDigits | .marked => true
  exits
    | .start => [(signSet, .signed), (.single '0', .zero), (leadingDigitSet, .digits)]
    | .signed => [(.single '0', .zero), (leadingDigitSet, .digits)]
    | .zero => [(.single '.', .places), (exponentSet, .exponent), (.single 'M', .marked)]
    | .digits => [(digitSet, .digits), (.single '.', .places), (exponentSet, .exponent),
        (.single 'M', .marked)]
    | .places => [(digitSet, .places), (exponentSet, .exponent), (.single 'M', .marked)]
    | .exponent => [(signSet, .exponentSigned), (digitSet, .exponentDigits)]
    | .exponentSigned => [(digitSet, .exponentDigits)]
    | .exponentDigits => [(digitSet, .exponentDigits), (.single 'M', .marked)]
    | .marked => []

/-- The states of the automaton of floats. -/
def floatNumber : FloatState → Nat
  | .start => 20
  | .signed => 17
  | .zero => 12
  | .digits => 13
  | .places => 9
  | .exponent => 6
  | .exponentSigned => 4
  | .exponentDigits => 3
  | .marked => 0

theorem follows_float : floatMachine.Follows floatAutomaton floatNumber where
  start := rfl
  agrees_start after := ⟨rfl, rfl⟩
  agrees state hstate before after := by
    cases state with
    | start => exact absurd rfl hstate
    | _ => exact ⟨rfl, rfl⟩
  exits_ne_start state := by cases state <;> decide
  apart state := by cases state <;> decide

/-! ## Symbols and keywords -/

/-- The places inside a symbol. -/
inductive SymbolState where
  | start
  | inside
deriving DecidableEq

/-- A first character of a set, and any characters of symbols. -/
def symbolMachine (first : CharSet) : Machine SymbolState where
  start := .start
  accepts
    | .start => false
    | .inside => true
  exits
    | .start => [(first, .inside)]
    | .inside => [(symbolSet, .inside)]

/-- The states of the automaton of symbols. -/
def symbolNumber : SymbolState → Nat
  | .start => 4
  | .inside => 1

theorem follows_symbol (first : CharSet) :
    (symbolMachine first).Follows (symbolAutomaton first) symbolNumber where
  start := rfl
  agrees_start after := ⟨rfl, rfl⟩
  agrees state hstate before after := by
    cases state with
    | start => exact absurd rfl hstate
    | inside => exact ⟨rfl, rfl⟩
  exits_ne_start state := by cases state <;> simp [symbolMachine]
  apart state := by cases state <;> simp [symbolMachine]

/-! ## Strings -/

/-- The places inside a string. -/
inductive StringState where
  | start
  | inside
  | escape
  | stop
deriving DecidableEq

/-- Characters between quotes, in which a backslash takes the next character along. -/
def stringMachine : Machine StringState where
  start := .start
  accepts
    | .start | .inside | .escape => false
    | .stop => true
  exits
    | .start => [(.single '"', .inside)]
    | .inside => [(plainSet, .inside), (.single '\\', .escape), (.single '"', .stop)]
    | .escape => [(.all, .inside)]
    | .stop => []

/-- The states of the automaton of strings. -/
def stringNumber : StringState → Nat
  | .start => 8
  | .inside => 2
  | .escape => 3
  | .stop => 0

theorem follows_string : stringMachine.Follows stringAutomaton stringNumber where
  start := rfl
  agrees_start after := ⟨rfl, rfl⟩
  agrees state hstate before after := by
    cases state with
    | start => exact absurd rfl hstate
    | _ => exact ⟨rfl, rfl⟩
  exits_ne_start state := by cases state <;> decide
  apart state := by cases state <;> decide

/-! ## Words -/

/-- The sets of the characters of a word. -/
def wordSets (word : List Char) : List CharSet :=
  word.map .single

/-- A text starts with the characters of a word if the word is its beginning. -/
theorem startsIn_wordSets (word text : List Char) :
    startsIn (wordSets word) text = word.isPrefixOf text := by
  induction word generalizing text with
  | nil => cases text <;> rfl
  | cons d word ih =>
    cases text with
    | nil => rfl
    | cons c text =>
      have := ih text
      simp only [wordSets] at this
      simp only [wordSets, List.map_cons, startsIn, CharSet.contains_single, this, List.isPrefixOf]
      congr 1
      grind

/-- Finds a word at the start of a text. -/
def wordLength? (word text : List Char) : Option Nat :=
  if word.isPrefixOf text then some word.length else none

theorem matchLength?_nil (text : List Char) :
    nilAutomaton.matchLength? none text = wordLength? "nil".toList text := by
  have hchain : nilAutomaton.Chain 2 (wordSets ['i', 'l']) := .step rfl (.step rfl (.accept rfl))
  rw [Automaton.matchLength?_of_chain rfl rfl hchain, wordLength?, ← startsIn_wordSets]
  rfl

theorem matchLength?_true (text : List Char) :
    trueAutomaton.matchLength? none text = wordLength? "true".toList text := by
  have hchain : trueAutomaton.Chain 3 (wordSets ['r', 'u', 'e']) :=
    .step rfl (.step rfl (.step rfl (.accept rfl)))
  rw [Automaton.matchLength?_of_chain rfl rfl hchain, wordLength?, ← startsIn_wordSets]
  rfl

theorem matchLength?_false (text : List Char) :
    falseAutomaton.matchLength? none text = wordLength? "false".toList text := by
  have hchain : falseAutomaton.Chain 4 (wordSets ['a', 'l', 's', 'e']) :=
    .step rfl (.step rfl (.step rfl (.step rfl (.accept rfl))))
  rw [Automaton.matchLength?_of_chain rfl rfl hchain, wordLength?, ← startsIn_wordSets]
  rfl

/-! ## Characters -/

/-- What may follow the first character behind the backslash: the rest of a name, or four
hexadecimal digits. -/
def characterTail (c : Char) : List CharSet :=
  match c with
  | 'n' => wordSets "ewline".toList
  | 'r' => wordSets "eturn".toList
  | 's' => wordSets "pace".toList
  | 't' => wordSets "ab".toList
  | 'u' => List.replicate 4 hexDigitSet
  | _ => []

/-- The length of a character at the start of a text. -/
def characterLength? : List Char → Option Nat
  | '\\' :: c :: rest =>
    if Text.isWhiteSpace c then none
    else if startsIn (characterTail c) rest then some ((characterTail c).length + 2)
    else some 2
  | _ => none

theorem contains_visibleSet (c : Char) : visibleSet.contains c = !Text.isWhiteSpace c := by
  have hvalid : c.toNat.isValidChar := c.valid
  have hlast : c.toNat ≤ 0x10ffff := by
    unfold Nat.isValidChar at hvalid
    omega
  simp only [CharSet.contains, visibleSet, Text.isWhiteSpace, Text.whiteSpace,
    Text.CodeTable.holds]
  generalize c.toNat = code at *
  rw [Bool.eq_iff_iff]
  simp only [Bool.if_false_left, Bool.and_eq_true, Bool.or_eq_true, decide_eq_true_eq,
    Bool.not_eq_true', Bool.and_eq_false_iff, Bool.or_eq_false_iff, decide_eq_false_iff_not,
    Bool.not_eq_false', Bool.false_eq_true, or_false, and_true]
  omega

/-- The state in which a name or a code point goes on behind its first letter. -/
def tailState? (c : Char) : Option Nat :=
  match c with
  | 'n' => some 30
  | 'r' => some 22
  | 's' => some 15
  | 't' => some 9
  | 'u' => some 5
  | _ => none

/-- Behind its first letter, a name or a code point is a single way. -/
theorem chain_of_tailState? {c : Char} {state : Nat} (h : tailState? c = some state) :
    ∃ set next sets, characterTail c = set :: sets ∧
      characterAutomaton.states[state]? = some (.step set next) ∧
        characterAutomaton.Chain next sets := by
  have four : characterAutomaton.Chain 4 (List.replicate 3 hexDigitSet) :=
    .step rfl (.step rfl (.step rfl (.accept rfl)))
  have newline : characterAutomaton.Chain 29 (wordSets "wline".toList) :=
    .step rfl (.step rfl (.step rfl (.step rfl (.step rfl (.accept rfl)))))
  have return_ : characterAutomaton.Chain 21 (wordSets "turn".toList) :=
    .step rfl (.step rfl (.step rfl (.step rfl (.accept rfl))))
  have space : characterAutomaton.Chain 14 (wordSets "ace".toList) :=
    .step rfl (.step rfl (.step rfl (.accept rfl)))
  have tab : characterAutomaton.Chain 8 (wordSets "b".toList) := .step rfl (.accept rfl)
  unfold tailState? at h
  split at h <;> cases h
  · exact ⟨_, _, _, rfl, rfl, newline⟩
  · exact ⟨_, _, _, rfl, rfl, return_⟩
  · exact ⟨_, _, _, rfl, rfl, space⟩
  · exact ⟨_, _, _, rfl, rfl, tab⟩
  · exact ⟨_, _, _, rfl, rfl, four⟩

theorem characterTail_of_tailState? {c : Char} (h : tailState? c = none) : characterTail c = [] := by
  unfold tailState? at h
  unfold characterTail
  split at h <;> simp_all

/-- Behind a backslash, any visible character accepts, and some may go on. -/
theorem after_backslash (c : Char) :
    characterAutomaton.after c [32, 31, 24, 23, 17, 16, 11, 10, 7, 6, 1] =
      (tailState? c).toList ++ if Text.isWhiteSpace c then [] else [0] := by
  have hexits : characterAutomaton.exits [32, 31, 24, 23, 17, 16, 11, 10, 7, 6, 1] =
      [(.single 'n', 30), (.single 'r', 22), (.single 's', 15), (.single 't', 9),
        (.single 'u', 5), (visibleSet, 0)] := rfl
  rw [Automaton.after_eq_exits, hexits]
  unfold tailState?
  split
  case h_6 => simp_all [CharSet.contains_single, contains_visibleSet, List.filter_cons]; grind
  all_goals decide

theorem isWhiteSpace_of_tailState? {c : Char} {state : Nat} (h : tailState? c = some state) :
    Text.isWhiteSpace c = false := by
  unfold tailState? at h
  split at h <;> first | rfl | cases h

/-- Behind a backslash and a letter, a name or a code point is longer than the letter alone. -/
theorem run_after_letter (c : Char) (rest : List Char) :
    characterAutomaton.run (some c) ((tailState? c).toList ++ [0]) 2 none rest =
      if startsIn (characterTail c) rest then some ((characterTail c).length + 2) else some 2 := by
  cases hstate : tailState? c with
  | none =>
    have haccept : characterAutomaton.Chain 0 [] := .accept rfl
    rw [Option.toList_none, List.nil_append, Automaton.run_of_chain haccept,
      characterTail_of_tailState? hstate]
    rfl
  | some state =>
    obtain ⟨set, next, sets, htail, hset, hchain⟩ := chain_of_tailState? hstate
    rw [Option.toList_some, List.singleton_append,
      Automaton.run_of_chain_or_accept hset hchain rfl, htail, List.length_cons]
    split <;> simp; omega

/-- The matcher of characters takes a backslash and a visible character, and a name or a code point
to its end. -/
theorem matchLength?_character (text : List Char) :
    characterAutomaton.matchLength? none text = characterLength? text := by
  have hstart : ∀ after, characterAutomaton.closure none after [34] = [34, 33] := fun _ => rfl
  have hslash : ∀ before after, characterAutomaton.closure (some before) after [32] =
      [32, 31, 24, 23, 17, 16, 11, 10, 7, 6, 1] := fun _ _ => rfl
  have hbackslash : ∀ c, characterAutomaton.after c [34, 33] = if c = '\\' then [32] else [] := by
    intro c
    rw [Automaton.after_eq_exits, show characterAutomaton.exits [34, 33] =
      [(.single '\\', 32)] from rfl]
    by_cases hc : c = '\\' <;> simp [CharSet.contains_single, hc]
  have hnone : characterAutomaton.accepts [34, 33] = false := rfl
  have hnone' : characterAutomaton.accepts [32, 31, 24, 23, 17, 16, 11, 10, 7, 6, 1] = false := rfl
  rw [Automaton.matchLength?, show characterAutomaton.start = 34 from rfl]
  unfold characterLength?
  split
  · next c rest =>
    simp only [Automaton.run, hstart, hbackslash, hnone, hslash, after_backslash, hnone', if_true,
      Bool.false_eq_true, if_false]
    by_cases hc : Text.isWhiteSpace c = true
    · have htail : tailState? c = none := by
        cases hstate : tailState? c with
        | none => rfl
        | some state =>
          rw [isWhiteSpace_of_tailState? hstate] at hc
          cases hc
      simp [hc, htail]
    · rw [Bool.not_eq_true] at hc
      have hrun := run_after_letter c rest
      simp only [hc, Bool.false_eq_true, if_false]
      cases hstate : tailState? c <;> simpa [hstate] using hrun
  · next hother =>
    cases text with
    | nil => simp [Automaton.run, hstart, hnone]
    | cons c rest =>
      by_cases hc : c = '\\'
      · subst hc
        cases rest with
        | nil => simp [Automaton.run, hstart, hbackslash, hnone, hslash, hnone']
        | cons d rest => exact absurd rfl (hother d rest)
      · simp [Automaton.run, hstart, hbackslash, hnone, hc]

end Edn.Grammar
