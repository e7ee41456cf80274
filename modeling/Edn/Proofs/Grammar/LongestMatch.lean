import Edn.Proofs.Grammar.Delimiters

/-!
# The longest match

The matcher of a literal takes the longest prefix of a text that is a token of
its rule.  So a match depends on the token alone, and not on what stands
behind it.

* `TakesLongest` says this of one matcher, and `exists_takesLongest` that it
  holds of every rule of the notation.
* `longestMatch?_of_append`: a text that is cut off behind a token has the
  same token at its start.
* `longestMatch?_append`: so has a text that goes on behind its end with a
  character that cannot stand in a symbol.  Not every text may be lengthened
  in this way: a backslash takes any visible character along, and a quote
  waits for another one.  But neither is a token on its own.
-/

namespace Edn

/-! ## Longest prefixes -/

/-- The greatest length of a prefix of a text that belongs to a language; none if no prefix does. -/
def IsLongestPrefix (language : List Char → Prop) (text : List Char) : Option Nat → Prop
  | some length => length ≤ text.length ∧ language (text.take length) ∧
      ∀ n ≤ text.length, language (text.take n) → n ≤ length
  | none => ∀ n ≤ text.length, ¬language (text.take n)

/-- A function finds the greatest length of a prefix that belongs to a language. -/
def TakesLongest (matchEnd? : List Char → Option Nat) (language : List Char → Prop) : Prop :=
  ∀ text, IsLongestPrefix language text (matchEnd? text)

namespace TakesLongest

variable {matchEnd? : List Char → Option Nat} {language : List Char → Prop}
  {text rest : List Char} {length : Nat}

theorem found (h : TakesLongest matchEnd? language) (hmatch : matchEnd? text = some length) :
    IsLongestPrefix language text (some length) :=
  hmatch ▸ h text

theorem missing (h : TakesLongest matchEnd? language) (hmatch : matchEnd? text = none) :
    IsLongestPrefix language text none :=
  hmatch ▸ h text

theorem congr (h : TakesLongest matchEnd? language) {other : List Char → Option Nat}
    (heq : ∀ text, other text = matchEnd? text) : TakesLongest other language := by
  intro text
  rw [heq]
  exact h text

/-- A match is a match of the text cut off behind it. -/
theorem of_append (h : TakesLongest matchEnd? language)
    (hmatch : matchEnd? (text ++ rest) = some length) (hlength : length ≤ text.length) :
    matchEnd? text = some length := by
  obtain ⟨-, hmem, hlongest⟩ := h.found hmatch
  rw [List.take_append_of_le_length hlength] at hmem
  cases hend : matchEnd? text with
  | none => exact absurd hmem (h.missing hend length hlength)
  | some most =>
    obtain ⟨hle, hmost, hall⟩ := h.found hend
    have hlower : length ≤ most := hall length hlength hmem
    have hupper : most ≤ length := by
      apply hlongest most
      · rw [List.length_append]
        omega
      · rw [List.take_append_of_le_length hle]
        exact hmost
    rw [Nat.le_antisymm hlower hupper]

/-- What belongs to the language and starts the text has a match that is no shorter. -/
theorem exists_of_mem (h : TakesLongest matchEnd? language) (hmem : language text)
    (rest : List Char) : ∃ most, text.length ≤ most ∧ matchEnd? (text ++ rest) = some most := by
  have hle : text.length ≤ (text ++ rest).length := by
    rw [List.length_append]
    exact Nat.le_add_right _ _
  have htake : language ((text ++ rest).take text.length) := by rwa [List.take_left]
  cases hend : matchEnd? (text ++ rest) with
  | none => exact absurd htake (h.missing hend _ hle)
  | some most => exact ⟨most, (h.found hend).2.2 _ hle htake, rfl⟩

/-- A text that goes on has no shorter match. -/
theorem exists_of_append (h : TakesLongest matchEnd? language)
    (hmatch : matchEnd? text = some length) (rest : List Char) :
    ∃ most, length ≤ most ∧ matchEnd? (text ++ rest) = some most := by
  obtain ⟨hle, hmem, -⟩ := h.found hmatch
  obtain ⟨most, hmost, hend⟩ := h.exists_of_mem hmem (text.drop length ++ rest)
  rw [List.length_take, Nat.min_eq_left hle] at hmost
  rw [← List.append_assoc, List.take_append_drop] at hend
  exact ⟨most, hmost, hend⟩

/-- If no match goes beyond a part of the text, this part has the same match. -/
theorem append_eq (h : TakesLongest matchEnd? language)
    (hle : ∀ length ∈ matchEnd? (text ++ rest), length ≤ text.length) :
    matchEnd? (text ++ rest) = matchEnd? text := by
  cases hend : matchEnd? (text ++ rest) with
  | some length => exact (h.of_append hend (hle length hend)).symm
  | none =>
    cases hmatch : matchEnd? text with
    | none => rfl
    | some length =>
      obtain ⟨most, -, hmost⟩ := h.exists_of_append hmatch rest
      rw [hend] at hmost
      cases hmost

end TakesLongest

/-! ## Machines -/

namespace Machine

variable {S : Type} {m : Machine S} {state : S} {c : Char} {rest : List Char}

/-- The text leads from a state to one that accepts. -/
def AcceptsFrom (m : Machine S) (state : S) (text : List Char) : Prop :=
  ∃ last, m.after? state text = some last ∧ m.accepts last = true

theorem acceptsFrom_nil : m.AcceptsFrom state [] ↔ m.accepts state = true := by
  simp [AcceptsFrom, after?]

theorem acceptsFrom_cons :
    m.AcceptsFrom state (c :: rest) ↔
      ∃ next, m.next? state c = some next ∧ m.AcceptsFrom next rest := by
  simp only [AcceptsFrom, after?, Option.bind_eq_some_iff]
  constructor
  · rintro ⟨last, ⟨next, hnext, hafter⟩, hlast⟩
    exact ⟨next, hnext, last, hafter, hlast⟩
  · rintro ⟨next, hnext, last, hafter, hlast⟩
    exact ⟨last, ⟨next, hnext, hafter⟩, hlast⟩

/-- Where no prefix behind the first character is accepted, the empty one is the only candidate. -/
theorem isLongestPrefix_of_stops
    (hstops : ∀ n ≤ rest.length, ¬m.AcceptsFrom state (c :: rest.take n)) :
    IsLongestPrefix (m.AcceptsFrom state) (c :: rest) (if m.accepts state then some 0 else none) := by
  split
  · next haccepts =>
    refine ⟨Nat.zero_le _, acceptsFrom_nil.2 haccepts, fun n hn hmem => ?_⟩
    cases n with
    | zero => exact Nat.le_refl _
    | succ n => exact absurd hmem (hstops n (Nat.le_of_succ_le_succ hn))
  · next haccepts =>
    intro n hn hmem
    cases n with
    | zero => exact haccepts (acceptsFrom_nil.1 hmem)
    | succ n => exact hstops n (Nat.le_of_succ_le_succ hn) hmem

/-- A machine finds the longest prefix that it accepts. -/
theorem takesLongest (m : Machine S) (state : S) :
    TakesLongest (m.longest? state) (m.AcceptsFrom state) := by
  intro text
  induction text generalizing state with
  | nil =>
    rw [longest?]
    split
    · next haccepts => exact ⟨Nat.le_refl _, acceptsFrom_nil.2 haccepts, fun n hn _ => hn⟩
    · next haccepts =>
      intro n _ hmem
      rw [List.take_nil] at hmem
      exact haccepts (acceptsFrom_nil.1 hmem)
  | cons c rest ih =>
    rw [longest?]
    cases hnext : m.next? state c with
    | none =>
      apply isLongestPrefix_of_stops
      intro n _ hmem
      obtain ⟨next, hnext', -⟩ := acceptsFrom_cons.1 hmem
      rw [hnext] at hnext'
      cases hnext'
    | some next =>
      have hnext' : ∀ text, m.AcceptsFrom state (c :: text) ↔ m.AcceptsFrom next text := by
        intro text
        rw [acceptsFrom_cons]
        simp [hnext]
      have hrest := ih next
      rw [Option.bind_some]
      cases hlongest : m.longest? next rest with
      | none =>
        rw [hlongest] at hrest
        apply isLongestPrefix_of_stops
        intro n hn hmem
        exact hrest n hn ((hnext' _).1 hmem)
      | some length =>
        rw [hlongest] at hrest
        obtain ⟨hle, hmem, hmost⟩ := hrest
        refine ⟨Nat.succ_le_succ hle, (hnext' _).2 hmem, fun n hn hn' => ?_⟩
        cases n with
        | zero => exact Nat.zero_le _
        | succ n =>
          have hle := hmost n (Nat.le_of_succ_le_succ hn) ((hnext' _).1 hn')
          exact Nat.succ_le_succ hle

/-- The longest match is the whole text if the machine accepts it, and only then. -/
theorem longest?_eq_length_iff {text : List Char} :
    m.longest? state text = some text.length ↔ m.AcceptsFrom state text := by
  constructor
  · intro h
    obtain ⟨-, haccepts, -⟩ := (m.takesLongest state).found h
    rwa [List.take_length] at haccepts
  · rintro ⟨last, hafter, haccepts⟩
    have hstops : m.Stops last [] := by rintro c ⟨⟩
    have hlongest := longest?_append hafter haccepts hstops
    rwa [List.append_nil] at hlongest

/-- A text that goes on with a character that the machine never reads has no longer match. -/
theorem longest?_append_of_stops (hstops : ∀ state, m.Stops state rest) (state : S)
    (text : List Char) : m.longest? state (text ++ rest) = m.longest? state text := by
  induction text generalizing state with
  | nil =>
    rw [List.nil_append, longest?_of_stops (hstops state)]
    rfl
  | cons c text ih =>
    rw [List.cons_append, longest?, longest?]
    cases m.next? state c with
    | none => rfl
    | some next =>
      rw [Option.bind_some, Option.bind_some, ih next]

/-- A match that ends where the machine cannot go on is the match of every longer text. -/
theorem longest?_append_of_final (hfinal : ∀ state, m.accepts state = true → m.exits state = [])
    {text : List Char} {length : Nat} (h : m.longest? state text = some length)
    (rest : List Char) : m.longest? state (text ++ rest) = some length := by
  induction text generalizing state length with
  | nil =>
    rw [longest?] at h
    split at h
    · next haccepts =>
      cases h
      have hstops : m.Stops state rest := by
        intro c _
        rw [next?, hfinal state haccepts]
        rfl
      rw [List.nil_append, longest?_of_stops hstops, if_pos haccepts]
    · cases h
  | cons c text ih =>
    rw [longest?] at h
    split at h
    · next found hfound =>
      cases h
      obtain ⟨next, hnext, hrest⟩ := Option.bind_eq_some_iff.1 hfound
      rw [List.cons_append, longest?, hnext, Option.bind_some, ih hrest]
    · next hnone =>
      split at h
      · next haccepts =>
        cases h
        have hnext : m.next? state c = none := by
          rw [next?, hfinal state haccepts]
          rfl
        rw [List.cons_append, longest?, hnext, Option.bind_none, if_pos haccepts]
      · cases h

end Machine

namespace Grammar

/-! ## Words and characters -/

theorem takesLongest_wordLength? (word : List Char) :
    TakesLongest (wordLength? word) fun text => text = word := by
  intro text
  unfold wordLength?
  have hlength : ∀ n ≤ text.length, text.take n = word → n = word.length := by
    rintro n hn rfl
    rw [List.length_take, Nat.min_eq_left hn]
  split
  · next hprefix =>
    have hword := List.isPrefixOf_iff_prefix.1 hprefix
    exact ⟨hword.length_le, (List.prefix_iff_eq_take.1 hword).symm,
      fun n hn heq => (hlength n hn heq).le⟩
  · next hprefix =>
    rintro n - rfl
    exact hprefix (List.isPrefixOf_iff_prefix.2 (List.take_prefix n text))

/-- A backslash and a visible character, or a name or a code point to its end. -/
def IsCharacterToken : List Char → Prop
  | '\\' :: c :: tail => Text.isWhiteSpace c = false ∧
      (tail = [] ∨ tail.length = (characterTail c).length ∧ startsIn (characterTail c) tail = true)
  | _ => False

theorem startsIn_append {sets : List CharSet} {text : List Char} (h : startsIn sets text = true)
    (rest : List Char) : startsIn sets (text ++ rest) = true := by
  induction sets generalizing text with
  | nil => rfl
  | cons set sets ih =>
    cases text with
    | nil => cases h
    | cons c text =>
      obtain ⟨hc, htext⟩ := Bool.and_eq_true_iff.1 h
      rw [List.cons_append, startsIn, hc, ih htext]
      rfl

theorem startsIn_take {sets : List CharSet} {text : List Char} (h : startsIn sets text = true) :
    sets.length ≤ text.length ∧ startsIn sets (text.take sets.length) = true := by
  induction sets generalizing text with
  | nil => exact ⟨Nat.zero_le _, rfl⟩
  | cons set sets ih =>
    cases text with
    | nil => cases h
    | cons c text =>
      obtain ⟨hc, htext⟩ := Bool.and_eq_true_iff.1 h
      obtain ⟨hle, hstarts⟩ := ih htext
      refine ⟨Nat.succ_le_succ hle, ?_⟩
      rw [List.length_cons, List.take_succ_cons, startsIn, hc, hstarts]
      rfl

theorem takesLongest_characterLength? : TakesLongest characterLength? IsCharacterToken := by
  intro text
  unfold characterLength?
  split
  · next c rest =>
    -- a token that is a prefix consists of the backslash, the character and a part of the rest
    have htoken : ∀ n ≤ ('\\' :: c :: rest).length,
        IsCharacterToken (('\\' :: c :: rest).take n) → Text.isWhiteSpace c = false ∧
          (n = 2 ∨ n = (characterTail c).length + 2 ∧ startsIn (characterTail c) rest = true) := by
      intro n hn hmem
      match n, hn, hmem with
      | n + 2, hn, hmem =>
        have hn : n ≤ rest.length := Nat.le_of_succ_le_succ (Nat.le_of_succ_le_succ hn)
        obtain ⟨hc, htail⟩ := hmem
        have hlength : (rest.take n).length = n := by rw [List.length_take, Nat.min_eq_left hn]
        refine ⟨hc, htail.imp (fun hnil => ?_) fun ⟨hsize, hstarts⟩ => ⟨by omega, ?_⟩⟩
        · rw [hnil] at hlength
          rw [← hlength]
          rfl
        · rw [← List.take_append_drop n rest]
          exact startsIn_append hstarts _
    split
    · next hc =>
      intro n hn hmem
      rw [(htoken n hn hmem).1] at hc
      cases hc
    · next hc =>
      have hc : Text.isWhiteSpace c = false := by simpa using hc
      split
      · next hstarts =>
        obtain ⟨hle, htake⟩ := startsIn_take hstarts
        refine ⟨Nat.succ_le_succ (Nat.succ_le_succ hle), ⟨hc, .inr ⟨?_, htake⟩⟩, ?_⟩
        · rw [List.length_take, Nat.min_eq_left hle]
        · intro n hn hmem
          rcases (htoken n hn hmem).2 with hn | ⟨hn, -⟩ <;> omega
      · next hstarts =>
        refine ⟨Nat.succ_le_succ (Nat.succ_le_succ (Nat.zero_le _)), ⟨hc, .inl rfl⟩, ?_⟩
        intro n hn hmem
        rcases (htoken n hn hmem).2 with hn | ⟨-, hmem⟩
        · exact hn.le
        · exact absurd hmem hstarts
  · next hother =>
    intro n _ hmem
    unfold IsCharacterToken at hmem
    split at hmem
    · next c tail htake =>
      have htext := List.take_append_drop n text
      rw [htake] at htext
      exact hother c _ htext.symm
    · exact hmem

/-! ## Cutting off -/

/-- Every rule of the notation takes the longest prefix of a text that is one of its tokens. -/
theorem exists_takesLongest {rule : LiteralRule} (h : rule ∈ literalRules) :
    ∃ language, TakesLongest rule.matcher.matchEnd? language := by
  rcases mem_literalRules_iff.1 h with rfl | rfl | rfl | rfl | rfl | rfl | rfl | rfl | rfl
  · exact ⟨_, (takesLongest_wordLength? _).congr (matchEnd?_nil _)⟩
  · exact ⟨_, (takesLongest_wordLength? _).congr (matchEnd?_true _)⟩
  · exact ⟨_, (takesLongest_wordLength? _).congr (matchEnd?_false _)⟩
  · exact ⟨_, (Machine.takesLongest _ _).congr matchEnd?_integer⟩
  · exact ⟨_, (Machine.takesLongest _ _).congr matchEnd?_float⟩
  · exact ⟨_, takesLongest_characterLength?.congr matchEnd?_character⟩
  · exact ⟨_, (Machine.takesLongest _ _).congr matchEnd?_symbol⟩
  · exact ⟨_, (Machine.takesLongest _ _).congr matchEnd?_keyword⟩
  · exact ⟨_, (Machine.takesLongest _ _).congr matchEnd?_string⟩

section Contexts

variable {text rest : List Char} {rule : LiteralRule} {length : Nat}

/-- In a grammar whose rules take longest prefixes, a token at the start of a text is the token of the
text cut off behind it. -/
theorem longestMatch?_of_takesLongest {g : Grammar}
    (hrules : ∀ rule ∈ g.literals, ∃ language, TakesLongest rule.matcher.matchEnd? language)
    (h : g.longestMatch? (text ++ rest) = some (rule, length)) (hlength : length ≤ text.length) :
    g.longestMatch? text = some (rule, length) := by
  have hbest := isBest_longestMatch? g (text ++ rest)
  rw [h] at hbest
  obtain ⟨hle, before, after, hsplit, hrule, hbefore⟩ := hbest
  -- what a rule takes of the shorter text, it takes of the longer one, or more
  have hmore : ∀ other ∈ g.literals, ∀ n ∈ other.matcher.matchEnd? text,
      ∃ most ∈ other.matcher.matchEnd? (text ++ rest), n ≤ most := by
    intro other hother n hn
    obtain ⟨language, hlanguage⟩ := hrules other hother
    obtain ⟨most, hmost, hend⟩ := hlanguage.exists_of_append hn rest
    exact ⟨most, hend, hmost⟩
  refine longestMatch?_of_split before hsplit (longestMatch?_pos h) ?_ ?_ ?_
  · obtain ⟨language, hlanguage⟩ := hrules rule (mem_of_longestMatch? h)
    exact hlanguage.of_append hrule hlength
  · intro other hother n hn
    have hmem : other ∈ g.literals := by
      rw [hsplit]
      exact List.mem_append_left _ hother
    obtain ⟨most, hmost, hn⟩ := hmore other hmem n hn
    exact Nat.lt_of_le_of_lt hn (hbefore other hother most hmost)
  · intro other hother n hn
    have hmem : other ∈ g.literals := by
      rw [hsplit]
      exact List.mem_append_right _ (List.mem_cons_of_mem _ hother)
    obtain ⟨most, hmost, hn⟩ := hmore other hmem n hn
    exact Nat.le_trans hn (hle other hmem most hmost)

/-- A token at the start of a text is the token of the text cut off behind it. -/
theorem longestMatch?_of_append (h : standard.longestMatch? (text ++ rest) = some (rule, length))
    (hlength : length ≤ text.length) : standard.longestMatch? text = some (rule, length) := by
  refine longestMatch?_of_takesLongest (fun other hother => exists_takesLongest ?_) h hlength
  rwa [standard_eq] at hother

/-- A token ends inside the text. -/
theorem length_le_of_longestMatch? (h : standard.longestMatch? text = some (rule, length)) :
    length ≤ text.length := by
  obtain ⟨hrule, hend⟩ := literal_of_longestMatch? h
  obtain ⟨language, hlanguage⟩ := exists_takesLongest hrule
  exact (hlanguage.found hend).1

/-! ## Going on -/

theorem wordLength?_append_of_endsToken {word : List Char}
    (hword : ∀ c ∈ word, symbolSet.contains c = true) (hrest : EndsToken rest) :
    wordLength? word (text ++ rest) = wordLength? word text := by
  induction word generalizing text with
  | nil => rfl
  | cons d word ih =>
    obtain ⟨hd, hword⟩ := List.forall_mem_cons.1 hword
    cases text with
    | nil =>
      cases rest with
      | nil => rfl
      | cons c rest =>
        have hne : c ≠ d := by
          rintro rfl
          rw [hrest c rfl] at hd
          cases hd
        rw [List.nil_append, wordLength?_eq_none hne]
        rfl
    | cons c text =>
      have ih := @ih text hword
      unfold wordLength? at ih ⊢
      rw [List.cons_append, List.isPrefixOf, List.isPrefixOf]
      grind

theorem startsIn_append_of_endsToken {sets : List CharSet}
    (hsets : ∀ set ∈ sets, set.within symbolSet = true) (hrest : EndsToken rest) :
    startsIn sets (text ++ rest) = startsIn sets text := by
  induction sets generalizing text with
  | nil => rfl
  | cons set sets ih =>
    obtain ⟨hset, hsets⟩ := List.forall_mem_cons.1 hsets
    cases text with
    | nil =>
      cases rest with
      | nil => rfl
      | cons c rest =>
        have hc : set.contains c = false := by
          by_contra hc
          have hsymbol := CharSet.contains_of_within hset (by decide) (Bool.not_eq_false _ ▸ hc)
          rw [hrest c rfl] at hsymbol
          cases hsymbol
        simp [startsIn, hc]
    | cons c text => rw [List.cons_append, startsIn, startsIn, ih hsets]

/-- Names and code points consist of characters of symbols. -/
theorem within_characterTail (c : Char) :
    ∀ set ∈ characterTail c, set.within symbolSet = true := by
  unfold characterTail
  split <;> decide

/-- Behind a backslash there has to be a character. -/
theorem characterLength?_append (htext : text ≠ []) (hslash : text ≠ ['\\'])
    (hrest : EndsToken rest) : characterLength? (text ++ rest) = characterLength? text := by
  match text with
  | [c] =>
    have hc : c ≠ '\\' := by
      rintro rfl
      exact hslash rfl
    rw [List.singleton_append, characterLength?_eq_none hc, characterLength?_eq_none hc]
  | c :: d :: text =>
    by_cases hc : c = '\\'
    · subst hc
      rw [List.cons_append, List.cons_append, characterLength?, characterLength?,
        startsIn_append_of_endsToken (within_characterTail d) hrest]
    · rw [List.cons_append, characterLength?_eq_none hc, characterLength?_eq_none hc]

/-- At a quote, no rule but that of strings takes anything. -/
theorem eq_stringRule_of_quote (h : standard.longestMatch? ('"' :: text) = some (rule, length)) :
    rule = stringRule := by
  obtain ⟨hrule, hend⟩ := literal_of_longestMatch? h
  obtain ⟨hinteger, hfloat⟩ := @numbers_fail '"' text rfl fun h => absurd h (by decide)
  have hfails : ∀ other ∈ wordRules ++ [integerRule, floatRule, characterRule, symbolRule,
      keywordRule], other.matcher.matchEnd? ('"' :: text) = none := by
    refine List.forall_mem_append.2 ⟨words_fail (by decide) (by decide) (by decide), ?_⟩
    simp [hinteger, hfloat, character_fails, symbol_fails (c := '"') (by decide), keyword_fails]
  have hsplit : literalRules = (wordRules ++ [integerRule, floatRule, characterRule, symbolRule,
      keywordRule]) ++ [stringRule] := by
    rw [List.append_assoc]
    rfl
  rw [hsplit] at hrule
  rcases List.mem_append.1 hrule with hother | hstring
  · rw [hfails rule hother] at hend
    cases hend
  · exact List.mem_singleton.1 hstring

/-- A backslash alone is no token. -/
theorem longestMatch?_backslash : standard.longestMatch? ['\\'] = none := by
  obtain ⟨hinteger, hfloat⟩ := @numbers_fail '\\' [] rfl fun h => absurd h (by decide)
  have hfails : ∀ other ∈ literalRules, other.matcher.matchEnd? ['\\'] = none := by
    refine List.forall_mem_append.2 ⟨words_fail (by decide) (by decide) (by decide), ?_⟩
    simp [hinteger, hfloat, matchEnd?_character, characterLength?,
      symbol_fails (c := '\\') (by decide), keyword_fails, string_fails]
  cases h : standard.longestMatch? ['\\'] with
  | none => rfl
  | some found =>
    obtain ⟨hrule, hend⟩ := literal_of_longestMatch? h
    rw [hfails found.1 hrule] at hend
    cases hend

/-- Where a text has a token at its start, no rule takes more of a text that goes on behind it. -/
theorem matchEnd?_append (h : standard.longestMatch? text = some (rule, length))
    (hrest : EndsToken rest) {other : LiteralRule} (hother : other ∈ literalRules) :
    other.matcher.matchEnd? (text ++ rest) = other.matcher.matchEnd? text := by
  have hne : text ≠ [] := by
    rintro rfl
    rw [longestMatch?_nil] at h
    cases h
  have hslash : text ≠ ['\\'] := by
    rintro rfl
    rw [longestMatch?_backslash] at h
    cases h
  have hword : ∀ {word : List Char}, (∀ c ∈ word, symbolSet.contains c = true) →
      wordLength? word (text ++ rest) = wordLength? word text :=
    fun hword => wordLength?_append_of_endsToken hword hrest
  have hstring : stringRule.matcher.matchEnd? (text ++ rest) = stringRule.matcher.matchEnd? text := by
    obtain ⟨c, more, rfl⟩ := List.exists_cons_of_ne_nil hne
    by_cases hc : c = '"'
    · subst hc
      obtain rfl := eq_stringRule_of_quote h
      have hend := matchEnd?_of_longestMatch? h
      rw [hend]
      rw [matchEnd?_string] at hend ⊢
      exact Machine.longest?_append_of_final (fun state => by cases state <;> simp [stringMachine])
        hend rest
    · rw [List.cons_append, string_fails hc, string_fails hc]
  rcases mem_literalRules_iff.1 hother with rfl | rfl | rfl | rfl | rfl | rfl | rfl | rfl | rfl
  · rw [matchEnd?_nil, matchEnd?_nil, hword (List.all_eq_true.1 rfl)]
  · rw [matchEnd?_true, matchEnd?_true, hword (List.all_eq_true.1 rfl)]
  · rw [matchEnd?_false, matchEnd?_false, hword (List.all_eq_true.1 rfl)]
  · rw [matchEnd?_integer, matchEnd?_integer,
      Machine.longest?_append_of_stops (stops_of_endsToken reads_integer hrest)]
  · rw [matchEnd?_float, matchEnd?_float,
      Machine.longest?_append_of_stops (stops_of_endsToken reads_float hrest)]
  · rw [matchEnd?_character, matchEnd?_character, characterLength?_append hne hslash hrest]
  · rw [matchEnd?_symbol, matchEnd?_symbol,
      Machine.longest?_append_of_stops (stops_of_endsToken reads_symbol hrest)]
  · rw [matchEnd?_keyword, matchEnd?_keyword,
      Machine.longest?_append_of_stops (stops_of_endsToken reads_keyword hrest)]
  · exact hstring

/-- A token at the start of a text is the token of a text that goes on with a character that cannot
stand in a symbol. -/
theorem longestMatch?_append (h : standard.longestMatch? text = some (rule, length))
    (hrest : EndsToken rest) : standard.longestMatch? (text ++ rest) = some (rule, length) := by
  have hends : ∀ other ∈ literalRules,
      other.matcher.matchEnd? (text ++ rest) = other.matcher.matchEnd? text :=
    fun other hother => matchEnd?_append h hrest hother
  rw [← h, standard_eq]
  exact longestMatch?_congr hends

end Contexts

end Grammar

end Edn
