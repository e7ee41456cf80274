import Edn.Proofs.Grammar.LongestMatch
import Edn.Proofs.Pattern.Moves

/-!
# The shapes of the literals

The patterns of the nine literals, and what they prefer.

* `integerShape` and its neighbours are the patterns, and `IsShape` says that
  a written form stands for one.
* `Machine.Spells` says that the states of a machine stand for patterns.  It
  is checked by evaluation.  `Machine.Spells.preferredLength?_eq` says that
  such a pattern prefers what the machine finds, and
  `Machine.Spells.mem_language_iff` that its language is what the machine
  accepts.
* The words and the characters have no machines: `rests_word` and
  `rests_character` list what their ways leave of a text.
-/

namespace Edn

/-! ## Patterns of machines -/

/-- The states of a machine stand for patterns.  A pattern moves along the sets of its state, and
stops last of all. -/
structure Machine.Spells {S : Type} (m : Machine S) (pattern : S → Pattern) : Prop where
  plain : ∀ state, (pattern state).isPlain = true
  moves : ∀ state, (pattern state).moves =
    (m.exits state).map (fun exit => .step exit.1 (pattern exit.2)) ++
      if m.accepts state then [.stop] else []
  apart : ∀ state, (m.exits state).Pairwise fun exit other => exit.1.apart other.1 = true

namespace Machine.Spells

variable {S : Type} {m : Machine S} {pattern : S → Pattern} {state : S} {before : Option Char}
  {c : Char} {text rest : List Char}

theorem ways_nil (h : m.Spells pattern) : (pattern state).ways ⟨before, []⟩ =
    if m.accepts state then [⟨before, []⟩] else [] := by
  have hexits : ((m.exits state).map fun exit =>
      Pattern.Move.step exit.1 (pattern exit.2)).flatMap (Pattern.Move.ways ⟨before, []⟩) = [] := by
    apply List.flatMap_eq_nil_iff.2
    intro move hmove
    obtain ⟨exit, -, rfl⟩ := List.mem_map.1 hmove
    rfl
  rw [Pattern.ways_eq_moves (h.plain state), h.moves, List.flatMap_append, hexits]
  cases m.accepts state <;> simp [Pattern.Move.ways]

/-- The ways of a state go on behind the next character, and stop in front of it after that. -/
theorem ways_cons (h : m.Spells pattern) : (pattern state).ways ⟨before, c :: rest⟩ =
    (m.next? state c).toList.flatMap (fun next => (pattern next).ways ⟨some c, rest⟩) ++
      if m.accepts state then [⟨before, c :: rest⟩] else [] := by
  have hexits : ∀ exits : List (CharSet × S),
      (exits.map fun exit => Pattern.Move.step exit.1 (pattern exit.2)).flatMap
          (Pattern.Move.ways ⟨before, c :: rest⟩) =
        (exits.filter fun exit => exit.1.contains c).flatMap fun exit =>
          (pattern exit.2).ways ⟨some c, rest⟩ := by
    intro exits
    induction exits with
    | nil => rfl
    | cons exit exits ih =>
      rw [List.map_cons, List.flatMap_cons, ih, List.filter_cons]
      by_cases hc : exit.1.contains c = true
      · simp [Pattern.Move.ways, Point.past, hc]
      · simp [Pattern.Move.ways, Point.past, hc]
  rw [Pattern.ways_eq_moves (h.plain state), h.moves, List.flatMap_append, hexits,
    Follows.filter_exits c (h.apart state), next?]
  congr 1
  · cases (m.exits state).find? fun exit => exit.1.contains c <;> simp
  · cases m.accepts state <;> simp [Pattern.Move.ways]

/-- The pattern of a state prefers the longest prefix that the machine accepts. -/
theorem preferredLength?_eq (h : m.Spells pattern) :
    (pattern state).preferredLength? ⟨before, text⟩ = m.longest? state text := by
  induction text generalizing state before with
  | nil =>
    rw [Pattern.preferredLength?, h.ways_nil, longest?]
    cases m.accepts state <;> simp
  | cons c rest ih =>
    rw [Pattern.preferredLength?, h.ways_cons, longest?]
    cases m.next? state c with
    | none => cases m.accepts state <;> simp
    | some next =>
      have hnext := @ih next (some c)
      rw [Pattern.preferredLength?] at hnext
      rw [Option.bind_some, ← hnext, Option.toList_some, List.flatMap_singleton, List.head?_append]
      cases hhead : ((pattern next).ways ⟨some c, rest⟩).head? with
      | none => cases m.accepts state <;> simp
      | some y =>
        have hle := Pattern.length_le_of_mem_ways (h.plain next) (List.mem_of_head? hhead)
        simp only [Option.some_or, Option.map_some, List.length_cons]
        rw [Nat.succ_sub hle]

/-- The language of the pattern of a state is what the machine accepts. -/
theorem mem_language_iff (h : m.Spells pattern) :
    text ∈ (pattern state).language ↔ m.AcceptsFrom state text := by
  induction text generalizing state with
  | nil =>
    rw [Pattern.mem_language_iff (h.plain state) none, Pattern.rests, h.ways_nil, acceptsFrom_nil]
    cases m.accepts state <;> simp
  | cons c rest ih =>
    rw [Pattern.mem_language_iff (h.plain state) none, Pattern.rests, h.ways_cons, acceptsFrom_cons]
    simp only [← ih, Pattern.mem_language_iff (h.plain _) (some c), Pattern.rests]
    cases m.next? state c <;> cases m.accepts state <;> simp

/-- The pattern of a machine prefers the longest prefix that belongs to its language. -/
theorem takesLongest (h : m.Spells pattern) (state : S) :
    TakesLongest (fun text => (pattern state).preferredLength? ⟨none, text⟩)
      (· ∈ (pattern state).language) := by
  intro text
  have hlanguage : (· ∈ (pattern state).language) = m.AcceptsFrom state :=
    funext fun _ => propext h.mem_language_iff
  dsimp only
  rw [h.preferredLength?_eq, hlanguage]
  exact m.takesLongest state text

end Machine.Spells

namespace Grammar

open Pattern (one sequence choice repeated ofParts)

/-! ## Shapes -/

/-- A pattern that may be left out. -/
def optional (p : Pattern) : Pattern :=
  repeated 0 (some 1) true p

/-- A pattern any number of times. -/
def anyTimes (p : Pattern) : Pattern :=
  repeated 0 none true p

/-- The pattern of a whole number without leading zeros. -/
def wholeShape : Pattern :=
  choice (one (.single '0')) (sequence (one leadingDigitSet) (anyTimes (one digitSet)))

/-- The pattern of integers. -/
def integerShape : Pattern :=
  ofParts [optional (one signSet), wholeShape, optional (one (.single 'N'))]

/-- The pattern of a point and the digits behind it. -/
def fractionShape : Pattern :=
  sequence (one (.single '.')) (anyTimes (one digitSet))

/-- The pattern of an exponent. -/
def exponentShape : Pattern :=
  ofParts [one exponentSet, optional (one signSet), repeated 1 none true (one digitSet)]

/-- The pattern of floats. -/
def floatShape : Pattern :=
  ofParts [optional (one signSet), wholeShape, optional fractionShape, optional exponentShape,
    optional (one (.single 'M'))]

/-- The pattern of symbols and keywords. -/
def symbolShape (first : CharSet) : Pattern :=
  sequence (one first) (anyTimes (one symbolSet))

/-- The pattern of strings. -/
def stringShape : Pattern :=
  ofParts [one (.single '"'),
    anyTimes (choice (one plainSet) (sequence (one (.single '\\')) (one .all))), one (.single '"')]

/-- The pattern of a word. -/
def wordShape (word : String) : Pattern :=
  ofParts ((wordSets word.toList).map one)

/-- The pattern of a code point behind the backslash. -/
def codePointShape : Pattern :=
  ofParts [one (.single 'u'), repeated 4 (some 4) true (one hexDigitSet)]

/-- The pattern of characters. -/
def characterShape : Pattern :=
  ofParts [one (.single '\\'),
    choice (wordShape "newline") (choice (wordShape "return") (choice (wordShape "space")
      (choice (wordShape "tab") (choice codePointShape (one visibleSet)))))]

/-- A written form stands for a pattern, and behind an assertion of the start of the text for the same
one. -/
def IsShape (written : String) (shape : Pattern) : Prop :=
  Pattern.read? written = some shape ∧
    Pattern.read? (atStart written) = some (sequence (.assertion .textStart) shape)

instance (written : String) (shape : Pattern) : Decidable (IsShape written shape) :=
  inferInstanceAs (Decidable (_ ∧ _))

/-- The shapes of the nine patterns. -/
theorem isShape_standard :
    IsShape "nil" (wordShape "nil") ∧ IsShape "true" (wordShape "true") ∧
      IsShape "false" (wordShape "false") ∧ IsShape integerPattern integerShape ∧
        IsShape floatPattern floatShape ∧ IsShape characterPattern characterShape ∧
          IsShape symbolPattern (symbolShape symbolStartSet) ∧
            IsShape keywordPattern (symbolShape (.single ':')) ∧
              IsShape stringPattern stringShape := by
  decide +kernel

/-! ## Shapes of machines -/

/-- A text that leads to a state of the machine of integers. -/
def integerSample : IntegerState → String
  | .start => ""
  | .signed => "+"
  | .zero => "0"
  | .digits => "1"
  | .marked => "0N"

theorem spells_integer :
    integerMachine.Spells fun state => integerShape.along (integerSample state).toList where
  plain state := by cases state <;> rfl
  moves state := by cases state <;> rfl
  apart := follows_integer.apart

/-- A text that leads to a state of the machine of floats. -/
def floatSample : FloatState → String
  | .start => ""
  | .signed => "+"
  | .zero => "0"
  | .digits => "1"
  | .places => "0."
  | .exponent => "0e"
  | .exponentSigned => "0e+"
  | .exponentDigits => "0e0"
  | .marked => "0M"

theorem spells_float :
    floatMachine.Spells fun state => floatShape.along (floatSample state).toList where
  plain state := by cases state <;> rfl
  moves state := by cases state <;> rfl
  apart := follows_float.apart

/-- The patterns of the states of a machine of symbols. -/
def symbolPatterns (first : CharSet) : SymbolState → Pattern
  | .start => symbolShape first
  | .inside => anyTimes (one symbolSet)

theorem spells_symbol (first : CharSet) : (symbolMachine first).Spells (symbolPatterns first) where
  plain state := by cases state <;> rfl
  moves state := by cases state <;> rfl
  apart := (follows_symbol first).apart

/-- A text that leads to a state of the machine of strings. -/
def stringSample : StringState → String
  | .start => ""
  | .inside => "\""
  | .escape => "\"\\"
  | .stop => "\"\""

theorem spells_string :
    stringMachine.Spells fun state => stringShape.along (stringSample state).toList where
  plain state := by cases state <;> rfl
  moves state := by cases state <;> rfl
  apart := follows_string.apart

/-! ## Words -/

section Words

variable {set : CharSet} {others : List Pattern} {before : Option Char} {c : Char}
  {rest text : List Char}

theorem rests_choice (first second : Pattern) (x : Point) :
    (choice first second).rests x = first.rests x ++ second.rests x :=
  List.map_append

theorem rests_ofParts_nil : (ofParts (one set :: others)).rests ⟨before, []⟩ = [] := by
  cases others <;> rfl

/-- What is left behind a character of a set is left to the others. -/
theorem rests_ofParts_cons : (ofParts (one set :: others)).rests ⟨before, c :: rest⟩ =
    if set.contains c then (ofParts others).rests ⟨some c, rest⟩ else [] := by
  have hways : (ofParts (one set :: others)).ways ⟨before, c :: rest⟩ =
      (Point.past set ⟨before, c :: rest⟩).flatMap (ofParts others).ways := by
    cases others with
    | nil => exact (List.flatMap_singleton' _).symm
    | cons second others => rfl
  rw [Pattern.rests, hways, Point.past]
  by_cases hc : set.contains c = true
  · rw [if_pos hc, if_pos hc, List.flatMap_singleton]
    rfl
  · rw [if_neg hc, if_neg hc]
    rfl

/-- One character of each set is taken, or none. -/
theorem rests_ofParts_one (sets : List CharSet) (x : Point) :
    (ofParts (sets.map one)).rests x =
      if startsIn sets x.rest then [x.rest.drop sets.length] else [] := by
  induction sets generalizing x with
  | nil => rfl
  | cons set sets ih =>
    obtain ⟨before, rest⟩ := x
    rw [List.map_cons]
    cases rest with
    | nil => exact rests_ofParts_nil
    | cons c rest =>
      rw [rests_ofParts_cons, ih]
      cases hc : set.contains c <;> simp [startsIn, hc]

theorem rests_repeated_one (n : Nat) (eager : Bool) (x : Point) :
    (repeated n (some n) eager (one set)).rests x =
      if startsIn (List.replicate n set) x.rest then [x.rest.drop n] else [] := by
  induction n generalizing x with
  | zero => cases eager <;> simp [Pattern.rests, Pattern.ways, Pattern.waysInRounds, startsIn]
  | succ n ih =>
    have hways : (repeated (n + 1) (some (n + 1)) eager (one set)).ways x =
        (x.past set).flatMap (repeated n (some n) eager (one set)).ways := by
      rw [Pattern.ways, Pattern.waysInRounds]
      rfl
    rw [Pattern.rests, hways]
    obtain ⟨before, rest⟩ := x
    cases rest with
    | nil => rfl
    | cons c rest =>
      rw [Point.past]
      cases hc : set.contains c with
      | false => simp [startsIn, hc, List.replicate_succ]
      | true => simpa [startsIn, hc, List.replicate_succ, Pattern.rests] using ih ⟨some c, rest⟩

/-- Behind the backslash, a name or a code point is preferred to its first letter. -/
theorem rests_character : characterShape.rests ⟨before, '\\' :: c :: rest⟩ =
    (if characterTail c ≠ [] ∧ startsIn (characterTail c) rest = true then
      [rest.drop (characterTail c).length] else []) ++
      if Text.isWhiteSpace c then [] else [rest] := by
  have hvisible : (one visibleSet).rests ⟨some '\\', c :: rest⟩ =
      if Text.isWhiteSpace c then [] else [rest] := by
    rw [show one visibleSet = ofParts [one visibleSet] from rfl, rests_ofParts_cons,
      contains_visibleSet]
    cases Text.isWhiteSpace c <;> rfl
  have hcode : codePointShape.rests ⟨some '\\', c :: rest⟩ =
      if startsIn (.single 'u' :: List.replicate 4 hexDigitSet) (c :: rest) then [rest.drop 4]
      else [] := by
    rw [codePointShape, rests_ofParts_cons, startsIn]
    cases (CharSet.single 'u').contains c with
    | false => rfl
    | true => exact rests_repeated_one 4 true ⟨some c, rest⟩
  have hslash : (CharSet.single '\\').contains '\\' = true := by decide
  rw [characterShape, rests_ofParts_cons, if_pos hslash]
  simp only [show ∀ p, ofParts [p] = p from fun _ => rfl, rests_choice, hvisible, hcode, wordShape,
    rests_ofParts_one]
  obtain ⟨tail, htail⟩ : ∃ tail, characterTail c = tail := ⟨_, rfl⟩
  rw [htail]
  unfold characterTail at htail
  split at htail <;> subst htail
  · simp [wordSets, startsIn, CharSet.contains_single]
  · simp [wordSets, startsIn, CharSet.contains_single]
  · simp [wordSets, startsIn, CharSet.contains_single]
  · simp [wordSets, startsIn, CharSet.contains_single]
  · simp [wordSets, startsIn, CharSet.contains_single]
  · simp_all [wordSets, startsIn, CharSet.contains_single]

theorem isPlain_ofParts_one (sets : List CharSet) : (ofParts (sets.map one)).isPlain = true := by
  induction sets with
  | nil => rfl
  | cons set sets ih =>
    cases sets with
    | nil => rfl
    | cons next sets => exact ih

theorem rests_word (word : String) : (wordShape word).rests ⟨before, text⟩ =
    if word.toList.isPrefixOf text then [text.drop word.toList.length] else [] := by
  rw [wordShape, rests_ofParts_one, startsIn_wordSets, wordSets, List.length_map]

/-- The pattern of a word finds the word. -/
theorem preferredLength?_word (word : String) :
    (wordShape word).preferredLength? ⟨before, text⟩ = wordLength? word.toList text := by
  rw [Pattern.preferredLength?_eq_rests, rests_word, wordLength?]
  split
  · next hprefix =>
    have hle := (List.isPrefixOf_iff_prefix.1 hprefix).length_le
    simp only [List.head?_cons, Option.map_some, List.length_drop, Option.some.injEq]
    omega
  · rfl

theorem mem_language_word (word : String) : text ∈ (wordShape word).language ↔ text = word.toList := by
  have hplain : (wordShape word).isPlain = true := isPlain_ofParts_one _
  rw [Pattern.mem_language_iff hplain none, rests_word]
  constructor
  · intro hmem
    split at hmem
    · next hprefix =>
      obtain ⟨others, rfl⟩ := List.isPrefixOf_iff_prefix.1 hprefix
      rw [List.drop_left, List.mem_singleton] at hmem
      rw [← hmem, List.append_nil]
    · cases hmem
  · rintro rfl
    simp

/-- The pattern of a word prefers the longest prefix that belongs to its language. -/
theorem takesLongest_word (word : String) :
    TakesLongest (fun text => (wordShape word).preferredLength? ⟨none, text⟩)
      (· ∈ (wordShape word).language) := by
  intro text
  simp only [preferredLength?_word, mem_language_word]
  exact takesLongest_wordLength? word.toList text

/-! ## Characters -/

theorem characterTail_of_isWhiteSpace (h : Text.isWhiteSpace c = true) : characterTail c = [] := by
  cases hstate : tailState? c with
  | none => exact characterTail_of_tailState? hstate
  | some state =>
    rw [isWhiteSpace_of_tailState? hstate] at h
    cases h

/-- Without a backslash and a character behind it, nothing is taken. -/
theorem rests_character_of_ne (h : ∀ c rest, text ≠ '\\' :: c :: rest) :
    characterShape.rests ⟨before, text⟩ = [] := by
  cases text with
  | nil => rfl
  | cons c rest =>
    rw [characterShape, rests_ofParts_cons, CharSet.contains_single]
    by_cases hc : c = '\\'
    · cases rest with
      | nil => rw [if_pos (decide_eq_true hc)]; rfl
      | cons d rest => exact absurd (by rw [hc]) (h d rest)
    · rw [decide_eq_false hc]
      rfl

/-- The pattern of characters finds the rest of a name, a code point or a single character. -/
theorem preferredLength?_character :
    characterShape.preferredLength? ⟨before, text⟩ = characterLength? text := by
  rw [Pattern.preferredLength?_eq_rests]
  unfold characterLength?
  split
  · next c rest =>
    rw [rests_character]
    by_cases hc : Text.isWhiteSpace c = true
    · simp [hc, characterTail_of_isWhiteSpace hc]
    · by_cases hstarts : startsIn (characterTail c) rest = true
      · have hle := (startsIn_take hstarts).1
        have hlength : rest.length + 2 - (rest.length - (characterTail c).length) =
            (characterTail c).length + 2 := by omega
        by_cases htail : characterTail c = []
        · simp [hc, htail, startsIn, Nat.add_assoc]
        · simp [hc, htail, hstarts, hlength]
      · simp [hc, hstarts, Nat.add_assoc]
  · next hother =>
    rw [rests_character_of_ne hother]
    rfl

/-- The language of the pattern of characters consists of their tokens. -/
theorem mem_language_character : text ∈ characterShape.language ↔ IsCharacterToken text := by
  have hplain : characterShape.isPlain = true := rfl
  rw [Pattern.mem_language_iff hplain none]
  unfold IsCharacterToken
  split
  · next c tail =>
    rw [rests_character]
    by_cases hc : Text.isWhiteSpace c = true
    · simp [hc, characterTail_of_isWhiteSpace hc]
    · have hlength : startsIn (characterTail c) tail = true →
          (tail.length = (characterTail c).length ↔ tail.drop (characterTail c).length = []) := by
        intro hstarts
        have hle := (startsIn_take hstarts).1
        rw [List.drop_eq_nil_iff]
        omega
      by_cases htail : characterTail c = []
      · simp [hc, htail, startsIn]
      · by_cases hstarts : startsIn (characterTail c) tail = true
        · simp [hc, htail, hstarts, hlength, or_comm]
        · simp [hc, hstarts]
  · next hother =>
    rw [rests_character_of_ne hother]
    simp

/-- The pattern of characters prefers the longest prefix that belongs to its language. -/
theorem takesLongest_character :
    TakesLongest (fun text => characterShape.preferredLength? ⟨none, text⟩)
      (· ∈ characterShape.language) := by
  intro text
  simp only [preferredLength?_character, mem_language_character]
  exact takesLongest_characterLength? text

end Words

end Grammar

end Edn
