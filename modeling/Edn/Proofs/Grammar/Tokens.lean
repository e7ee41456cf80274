import Edn.Proofs.Decimal.Scientific
import Edn.Proofs.Grammar.Machines
import Edn.Proofs.Grammar.Selection
import Edn.Proofs.Symbol
import Edn.Proofs.Text.Escaped

/-!
# The rule of a token

What is written as one token is taken as one token, by the rule of its type.

* `longestMatch?_token` says when a rule is selected for such a token.
* `longestMatch?_integer` and its neighbours select the rules of the tokens
  that are written.  Behind a token there is a character that cannot stand in
  a symbol, or nothing (`EndsToken`).

Tokens other than characters and strings consist of characters of symbols, so
that no rule takes more than the token (`matchEnd?_le`).  The rules that stand
before the right one fail at the first character or stop before the last.
-/

namespace Edn.Grammar

open Text (isDigit)

/-- In the notation, the selected rule is one of the nine, and it takes as much of the text. -/
theorem literal_of_longestMatch? {input : List Char} {rule : LiteralRule} {length : Nat}
    (h : standard.longestMatch? input = some (rule, length)) :
    rule ∈ literalRules ∧ rule.matcher.matchEnd? input = some length := by
  have hrule := mem_of_longestMatch? h
  rw [standard_eq] at hrule
  exact ⟨hrule, matchEnd?_of_longestMatch? h⟩

/-! ## Sets -/

theorem le_iff_toNat_le (c d : Char) : c ≤ d ↔ c.toNat ≤ d.toNat :=
  Iff.rfl

theorem contains_digitSet (c : Char) : digitSet.contains c = isDigit c := by
  simp only [CharSet.contains, digitSet, CharSet.range, Text.CodeTable.holds, isDigit,
    le_iff_toNat_le]
  grind

theorem contains_leadingDigitSet (c : Char) :
    leadingDigitSet.contains c = (isDigit c && decide (c ≠ '0')) := by
  simp only [CharSet.contains, leadingDigitSet, CharSet.range, Text.CodeTable.holds, isDigit,
    le_iff_toNat_le, ne_eq, ← Char.toNat_inj, Char.reduceToNat]
  grind

theorem contains_symbolSet (c : Char) :
    symbolSet.contains c = (Name.isLater c || decide (c = separator)) := by
  simp only [CharSet.contains, symbolSet, Text.CodeTable.holds, Name.isLater, Name.isFirst,
    Name.isModifier, Name.isLeadingMark, Text.isLetter, isDigit, le_iff_toNat_le, List.mem_cons,
    List.not_mem_nil, or_false, separator, beq_eq_decide, ← Char.toNat_inj, Char.reduceToNat]
  generalize c.toNat = code
  rw [Bool.eq_iff_iff]
  simp only [Bool.if_false_left, Bool.and_eq_true, Bool.or_eq_true, decide_eq_true_eq,
    Bool.not_eq_true', decide_eq_false_iff_not, Bool.false_eq_true, or_false]
  omega

theorem contains_symbolStartSet (c : Char) :
    symbolStartSet.contains c =
      (Name.isFirst c || Name.isModifier c || decide (c = separator)) := by
  simp only [CharSet.contains, symbolStartSet, Text.CodeTable.holds, Name.isFirst,
    Name.isModifier, Name.isLeadingMark, Text.isLetter, le_iff_toNat_le, List.mem_cons,
    List.not_mem_nil, or_false, separator, beq_eq_decide, ← Char.toNat_inj, Char.reduceToNat]
  generalize c.toNat = code
  rw [Bool.eq_iff_iff]
  simp only [Bool.if_false_left, Bool.and_eq_true, Bool.or_eq_true, decide_eq_true_eq,
    Bool.not_eq_true', decide_eq_false_iff_not, Bool.false_eq_true, or_false]
  omega

theorem digit_of_leading {c : Char} (hc : isDigit c = true) (hzero : c ≠ '0') :
    leadingDigitSet.contains c = true := by
  simp [contains_leadingDigitSet, hc, hzero]

/-! ## Matches -/

theorem matchEnd?_nil (value : Element) (text : List Char) :
    (wordRule "nil" value).matcher.matchEnd? text = wordLength? "nil".toList text := by
  rw [← matchLength?_nil]
  exact isWritten_nil.matchEnd?_eq text

theorem matchEnd?_true (value : Element) (text : List Char) :
    (wordRule "true" value).matcher.matchEnd? text = wordLength? "true".toList text := by
  rw [← matchLength?_true]
  exact isWritten_true.matchEnd?_eq text

theorem matchEnd?_false (value : Element) (text : List Char) :
    (wordRule "false" value).matcher.matchEnd? text = wordLength? "false".toList text := by
  rw [← matchLength?_false]
  exact isWritten_false.matchEnd?_eq text

theorem matchEnd?_integer (text : List Char) :
    integerRule.matcher.matchEnd? text = integerMachine.longest? .start text :=
  (isWritten_integer.matchEnd?_eq text).trans (follows_integer.matchLength?_eq text)

theorem matchEnd?_float (text : List Char) :
    floatRule.matcher.matchEnd? text = floatMachine.longest? .start text :=
  (isWritten_float.matchEnd?_eq text).trans (follows_float.matchLength?_eq text)

theorem matchEnd?_character (text : List Char) :
    characterRule.matcher.matchEnd? text = characterLength? text :=
  (isWritten_character.matchEnd?_eq text).trans (matchLength?_character text)

theorem matchEnd?_symbol (text : List Char) :
    symbolRule.matcher.matchEnd? text = (symbolMachine symbolStartSet).longest? .start text :=
  (isWritten_symbol.matchEnd?_eq text).trans ((follows_symbol _).matchLength?_eq text)

theorem matchEnd?_keyword (text : List Char) :
    keywordRule.matcher.matchEnd? text = (symbolMachine (.single ':')).longest? .start text :=
  (isWritten_keyword.matchEnd?_eq text).trans ((follows_symbol _).matchLength?_eq text)

theorem matchEnd?_string (text : List Char) :
    stringRule.matcher.matchEnd? text = stringMachine.longest? .start text :=
  (isWritten_string.matchEnd?_eq text).trans (follows_string.matchLength?_eq text)

/-! ## Matches inside a token -/

/-- A text that lengthens no token in front of it: it is empty, or starts with a character that
cannot stand in a symbol. -/
def EndsToken (rest : List Char) : Prop :=
  ∀ c ∈ rest.head?, symbolSet.contains c = false

theorem endsToken_nil : EndsToken [] := by
  simp [EndsToken]

section Tokens

variable {token rest : List Char}

theorem takeWhile_token (htoken : ∀ c ∈ token, symbolSet.contains c = true)
    (hrest : EndsToken rest) : (token ++ rest).takeWhile symbolSet.contains = token := by
  rw [List.takeWhile_append_of_pos htoken]
  cases rest with
  | nil => simp
  | cons c rest => simp [hrest c rfl]

/-- A machine whose sets lie in another one reads characters of that set only. -/
theorem contains_of_next? {S : Type} {m : Machine S} {set : CharSet}
    (hset : set.table.Pairwise fun a b => a.1 ≤ b.1)
    (hexits : ∀ state, ∀ exit ∈ m.exits state, exit.1.within set = true) (state : S) (c : Char)
    (next : S) (h : m.next? state c = some next) : set.contains c = true := by
  obtain ⟨exit, hmem, hc, -⟩ := m.exists_exit h
  exact CharSet.contains_of_within (hexits state exit hmem) hset hc

theorem reads_integer : ∀ state c next, integerMachine.next? state c = some next →
    symbolSet.contains c = true :=
  contains_of_next? (by decide) fun state => by cases state <;> decide

theorem reads_float : ∀ state c next, floatMachine.next? state c = some next →
    symbolSet.contains c = true :=
  contains_of_next? (by decide) fun state => by cases state <;> decide

theorem reads_symbol : ∀ state c next, (symbolMachine symbolStartSet).next? state c = some next →
    symbolSet.contains c = true :=
  contains_of_next? (by decide) fun state => by cases state <;> decide

theorem reads_keyword : ∀ state c next, (symbolMachine (.single ':')).next? state c = some next →
    symbolSet.contains c = true :=
  contains_of_next? (by decide) fun state => by cases state <;> decide

/-- Behind a token, a machine that reads characters of symbols stops. -/
theorem stops_of_endsToken {S : Type} {m : Machine S} (hreads : ∀ state c next,
    m.next? state c = some next → symbolSet.contains c = true) (hrest : EndsToken rest)
    (state : S) : m.Stops state rest := by
  intro c hc
  cases hnext : m.next? state c with
  | none => rfl
  | some next =>
    have := hreads state c next hnext
    rw [hrest c hc] at this
    cases this

theorem longest?_le_token {S : Type} {m : Machine S} (hreads : ∀ state c next,
    m.next? state c = some next → symbolSet.contains c = true)
    (htoken : ∀ c ∈ token, symbolSet.contains c = true) (hrest : EndsToken rest) (state : S) :
    ∀ n ∈ m.longest? state (token ++ rest), n ≤ token.length := by
  intro n hn
  have := Machine.longest?_le hreads hn
  rwa [takeWhile_token htoken hrest] at this

/-- A word that starts a text lies inside the token at its start. -/
theorem wordLength?_le_token {word : List Char} (hword : ∀ c ∈ word, symbolSet.contains c = true)
    (htoken : ∀ c ∈ token, symbolSet.contains c = true) (hrest : EndsToken rest) :
    ∀ n ∈ wordLength? word (token ++ rest), n ≤ token.length ∧ (n = token.length → word = token) := by
  intro n hn
  unfold wordLength? at hn
  split at hn
  · next hstart =>
    cases hn
    obtain ⟨others, hothers⟩ := List.isPrefixOf_iff_prefix.1 hstart
    have htoken : word ++ others.takeWhile symbolSet.contains = token := by
      rw [← List.takeWhile_append_of_pos hword, hothers, takeWhile_token htoken hrest]
    rw [← htoken, List.length_append]
    refine ⟨Nat.le_add_right _ _, fun hlength => ?_⟩
    rw [List.eq_nil_of_length_eq_zero (show (others.takeWhile symbolSet.contains).length = 0 by
      omega), List.append_nil]
  · cases hn

theorem characterLength?_eq_none {c : Char} (hc : c ≠ '\\') : characterLength? (c :: rest) = none := by
  unfold characterLength?
  split <;> simp_all

theorem longest?_string_eq_none {c : Char} (hc : c ≠ '"') :
    stringMachine.longest? .start (c :: rest) = none := by
  have hstops : stringMachine.Stops .start (c :: rest) := by
    rintro d ⟨⟩
    simp [Machine.next?, stringMachine, CharSet.contains_single, hc]
  rw [Machine.longest?_of_stops hstops]
  rfl

/-- No rule takes more than a token that consists of characters of symbols. -/
theorem matchEnd?_le (htoken : ∀ c ∈ token, symbolSet.contains c = true) (hne : token ≠ [])
    (hrest : EndsToken rest) {rule : LiteralRule} (hrule : rule ∈ literalRules) :
    ∀ n ∈ rule.matcher.matchEnd? (token ++ rest), n ≤ token.length := by
  obtain ⟨c, more, rfl⟩ := List.exists_cons_of_ne_nil hne
  have hc := htoken c List.mem_cons_self
  have hword : ∀ {word : List Char}, (∀ c ∈ word, symbolSet.contains c = true) →
      ∀ n ∈ wordLength? word (c :: more ++ rest), n ≤ (c :: more).length :=
    fun hword n hn => (wordLength?_le_token hword htoken hrest n hn).1
  have hcharacter : characterLength? (c :: more ++ rest) = none :=
    characterLength?_eq_none (by rintro rfl; exact absurd hc (by decide))
  have hstring : stringMachine.longest? .start (c :: more ++ rest) = none :=
    longest?_string_eq_none (by rintro rfl; exact absurd hc (by decide))
  rcases mem_literalRules_iff.1 hrule with rfl | rfl | rfl | rfl | rfl | rfl | rfl | rfl | rfl
  · rw [matchEnd?_nil]
    exact hword (List.all_eq_true.1 rfl)
  · rw [matchEnd?_true]
    exact hword (List.all_eq_true.1 rfl)
  · rw [matchEnd?_false]
    exact hword (List.all_eq_true.1 rfl)
  · rw [matchEnd?_integer]
    exact longest?_le_token reads_integer htoken hrest _
  · rw [matchEnd?_float]
    exact longest?_le_token reads_float htoken hrest _
  · rw [matchEnd?_character, hcharacter]
    simp
  · rw [matchEnd?_symbol]
    exact longest?_le_token reads_symbol htoken hrest _
  · rw [matchEnd?_keyword]
    exact longest?_le_token reads_keyword htoken hrest _
  · rw [matchEnd?_string, hstring]
    simp

/-! ## Words -/

theorem wordLength?_eq_none {c d : Char} {word : List Char} (h : c ≠ d) :
    wordLength? (d :: word) (c :: rest) = none := by
  unfold wordLength?
  rw [List.isPrefixOf, beq_eq_false_iff_ne.2 (Ne.symm h)]
  rfl

theorem wordLength?_append (word : List Char) : wordLength? word (word ++ rest) = some word.length := by
  unfold wordLength?
  rw [if_pos (List.isPrefixOf_iff_prefix.2 (List.prefix_append _ _))]

/-- A rule is selected for a token that consists of characters of symbols, if it takes the token and
no rule before it does. -/
theorem longestMatch?_token (before : List LiteralRule) {after : List LiteralRule}
    {rule : LiteralRule} (hrules : literalRules = before ++ rule :: after)
    (htoken : ∀ c ∈ token, symbolSet.contains c = true) (hne : token ≠ []) (hrest : EndsToken rest)
    (hrule : rule.matcher.matchEnd? (token ++ rest) = some token.length)
    (hbefore : ∀ other ∈ before, ∀ n ∈ other.matcher.matchEnd? (token ++ rest), n < token.length) :
    standard.longestMatch? (token ++ rest) = some (rule, token.length) := by
  rw [standard_eq]
  refine longestMatch?_of_split before hrules (List.length_pos_iff.2 hne) hrule hbefore
    fun other hother => ?_
  refine matchEnd?_le htoken hne hrest ?_
  rw [hrules]
  exact List.mem_append_right _ (List.mem_cons_of_mem _ hother)

/-- The words of the notation are selected by their own rules. -/
theorem longestMatch?_wordNil (hrest : EndsToken rest) :
    standard.longestMatch? ("nil".toList ++ rest) = some (wordRule "nil" .nil, 3) := by
  refine longestMatch?_token [] rfl (List.all_eq_true.1 rfl) (by decide) hrest ?_ (by simp)
  rw [matchEnd?_nil, wordLength?_append]

theorem longestMatch?_wordTrue (hrest : EndsToken rest) :
    standard.longestMatch? ("true".toList ++ rest) = some (wordRule "true" (.boolean true), 4) := by
  refine longestMatch?_token [wordRule "nil" .nil] rfl (List.all_eq_true.1 rfl) (by decide) hrest
    ?_ ?_
  · rw [matchEnd?_true, wordLength?_append]
  · simp only [List.mem_singleton, forall_eq, matchEnd?_nil]
    rw [show wordLength? "nil".toList ("true".toList ++ rest) = none from
      wordLength?_eq_none (by decide)]
    simp

theorem longestMatch?_wordFalse (hrest : EndsToken rest) :
    standard.longestMatch? ("false".toList ++ rest) =
      some (wordRule "false" (.boolean false), 5) := by
  refine longestMatch?_token [wordRule "nil" .nil, wordRule "true" (.boolean true)] rfl
    (List.all_eq_true.1 rfl) (by decide) hrest ?_ ?_
  · rw [matchEnd?_false, wordLength?_append]
  · simp only [List.mem_cons, List.not_mem_nil, or_false, forall_eq_or_imp, forall_eq,
      matchEnd?_nil, matchEnd?_true]
    rw [show wordLength? "nil".toList ("false".toList ++ rest) = none from
        wordLength?_eq_none (by decide),
      show wordLength? "true".toList ("false".toList ++ rest) = none from
        wordLength?_eq_none (by decide)]
    simp

/-- The rules of words fail at any other first character. -/
theorem words_fail {c : Char} {input : List Char} (hnil : c ≠ 'n') (htrue : c ≠ 't')
    (hfalse : c ≠ 'f') : ∀ other ∈ wordRules, other.matcher.matchEnd? (c :: input) = none := by
  simp only [wordRules, List.mem_cons, List.not_mem_nil, or_false, forall_eq_or_imp, forall_eq,
    matchEnd?_nil, matchEnd?_true, matchEnd?_false]
  exact ⟨wordLength?_eq_none hnil, wordLength?_eq_none htrue, wordLength?_eq_none hfalse⟩

/-! ## Integers -/

theorem contains_symbolSet_of_isDigit {c : Char} (hc : isDigit c = true) :
    symbolSet.contains c = true :=
  CharSet.contains_of_within (show digitSet.within symbolSet = true by decide) (by decide)
    (by rwa [contains_digitSet])

theorem next?_integer_digits {c : Char} (hc : isDigit c = true) :
    integerMachine.next? .digits c = some .digits := by
  simp [Machine.next?, integerMachine, contains_digitSet, hc]

/-- At the start and behind a sign, a decimal is read to its end. -/
theorem after?_decimal {state : IntegerState}
    (hzero : integerMachine.next? state '0' = some .zero)
    (hleading : ∀ c, leadingDigitSet.contains c = true →
      integerMachine.next? state c = some .digits) (n : Nat) :
    ∃ last, integerMachine.after? state (Text.decimal n) = some last ∧
      integerMachine.accepts last = true := by
  rcases Nat.eq_zero_or_pos n with rfl | hn
  · rw [show Text.decimal 0 = ['0'] by rw [Text.decimal]; rfl]
    refine ⟨.zero, ?_, rfl⟩
    rw [Machine.after?, hzero]
    rfl
  · obtain ⟨c, digits, hdecimal, hc⟩ := Text.head_decimal_ne_zero hn
    have hdigits := Text.isDigit_of_mem_decimal (n := n)
    rw [hdecimal] at hdigits ⊢
    refine ⟨.digits, ?_, rfl⟩
    rw [Machine.after?, hleading c (digit_of_leading (hdigits c List.mem_cons_self) hc)]
    exact Machine.after?_of_loop fun d hd =>
      next?_integer_digits (hdigits d (List.mem_cons_of_mem _ hd))

theorem apart_of_leading {c : Char} (hc : leadingDigitSet.contains c = true) :
    signSet.contains c = false ∧ (CharSet.single '0').contains c = false :=
  ⟨CharSet.contains_of_apart (show leadingDigitSet.apart signSet = true by decide) hc,
    CharSet.contains_of_apart (show leadingDigitSet.apart (.single '0') = true by decide) hc⟩

/-- The text of an integer is read to its end. -/
theorem after?_signedDecimal (n : Int) : ∃ last,
    integerMachine.after? .start (Text.signedDecimal n) = some last ∧
      integerMachine.accepts last = true := by
  unfold Text.signedDecimal
  split
  · obtain ⟨last, hafter, haccepts⟩ := @after?_decimal .signed rfl
      (fun c hc => by simp [Machine.next?, integerMachine, hc, (apart_of_leading hc).2]) n.natAbs
    exact ⟨last, hafter, haccepts⟩
  · exact @after?_decimal .start rfl
      (fun c hc => by simp [Machine.next?, integerMachine, hc, apart_of_leading hc]) n.natAbs

/-- A token that is read as an integer is selected by the rule of integers. -/
theorem longestMatch?_integerToken {last : IntegerState}
    (hafter : integerMachine.after? .start token = some last)
    (haccepts : integerMachine.accepts last = true) (hrest : EndsToken rest) :
    standard.longestMatch? (token ++ rest) = some (integerRule, token.length) := by
  cases token with
  | nil =>
    cases hafter
    cases haccepts
  | cons c more =>
    have hstart := Machine.isSome_next?_of_after? hafter
    refine longestMatch?_token wordRules rfl (Machine.forall_of_after? reads_integer hafter)
      (List.cons_ne_nil _ _) hrest ?_ fun other hother => ?_
    · rw [matchEnd?_integer]
      exact Machine.longest?_append hafter haccepts (stops_of_endsToken reads_integer hrest last)
    · rw [List.cons_append, words_fail ?_ ?_ ?_ other hother]
      · simp
      all_goals rintro rfl; revert hstart; decide

/-- The text of an integer is selected by the rule of integers. -/
theorem longestMatch?_integer (n : Int) (hrest : EndsToken rest) :
    standard.longestMatch? (Text.signedDecimal n ++ rest) =
      some (integerRule, (Text.signedDecimal n).length) := by
  obtain ⟨last, hafter, haccepts⟩ := after?_signedDecimal n
  exact longestMatch?_integerToken hafter haccepts hrest

/-! ## Floats -/

theorem next?_places {c : Char} (hc : isDigit c = true) :
    floatMachine.next? .places c = some .places := by
  simp [Machine.next?, floatMachine, contains_digitSet, hc]

theorem next?_exponentDigits {c : Char} (hc : isDigit c = true) :
    floatMachine.next? .exponentDigits c = some .exponentDigits := by
  simp [Machine.next?, floatMachine, contains_digitSet, hc]

/-- A digit in front of the point is read at the start and behind a sign. -/
theorem next?_float_digit {state : FloatState} (hstate : state = .start ∨ state = .signed) {d : Char}
    (hd : isDigit d = true) :
    ∃ next, floatMachine.next? state d = some next ∧ (next = .zero ∨ next = .digits) := by
  by_cases hzero : d = '0'
  · subst hzero
    rcases hstate with rfl | rfl <;> exact ⟨.zero, rfl, .inl rfl⟩
  · have hleading := digit_of_leading hd hzero
    obtain ⟨hsign, hsingle⟩ := apart_of_leading hleading
    rcases hstate with rfl | rfl <;>
      exact ⟨.digits, by simp [Machine.next?, floatMachine, hleading, hsign, hsingle], .inr rfl⟩

/-- A digit, and a point with more digits if there are any, are read up to the exponent. -/
theorem after?_mantissa {state : FloatState} (hstate : state = .start ∨ state = .signed) {d : Char}
    {places : List Char} (hdigits : ∀ c ∈ d :: places, isDigit c = true) :
    floatMachine.after? state (Decimal.mantissa (d :: places) ++ ['E']) = some .exponent := by
  obtain ⟨next, hnext, hzero⟩ := next?_float_digit hstate (hdigits d List.mem_cons_self)
  cases places with
  | nil =>
    rw [Decimal.mantissa, List.singleton_append, Machine.after?, hnext]
    rcases hzero with rfl | rfl <;> rfl
  | cons p places =>
    have hplaces : floatMachine.after? .places (p :: places) = some .places :=
      Machine.after?_of_loop fun c hc => next?_places (hdigits c (List.mem_cons_of_mem _ hc))
    have hpoint : floatMachine.next? next '.' = some .places := by
      rcases hzero with rfl | rfl <;> rfl
    show floatMachine.after? state (d :: '.' :: (p :: places ++ ['E'])) = some .exponent
    rw [Machine.after?, hnext, Option.bind_some, Machine.after?, hpoint, Option.bind_some,
      Machine.after?_append hplaces]
    rfl

/-- An exponent is read to its end. -/
theorem after?_exponent (negative : Prop) [Decidable negative] (n : Nat) :
    floatMachine.after? .exponent ((if negative then '-' else '+') :: Text.padded 2 n) =
      some .exponentDigits := by
  have hdigits := @Text.isDigit_of_mem_padded 2 n
  obtain ⟨c, more, hpadded⟩ := List.exists_cons_of_ne_nil (@Text.padded_ne_nil 2 n (by decide))
  rw [hpadded] at hdigits ⊢
  have hc : floatMachine.next? .exponentSigned c = some .exponentDigits := by
    simp [Machine.next?, floatMachine, contains_digitSet, hdigits c List.mem_cons_self]
  have hloop : floatMachine.after? .exponentDigits more = some .exponentDigits :=
    Machine.after?_of_loop fun d hd =>
      next?_exponentDigits (hdigits d (List.mem_cons_of_mem _ hd))
  have hsign : floatMachine.next? .exponent (if negative then '-' else '+') =
      some .exponentSigned := by
    split <;> rfl
  rw [Machine.after?, hsign, Option.bind_some, Machine.after?, hc, Option.bind_some, hloop]

/-- The text of a finite float is read to its end. -/
theorem after?_scientific {x : Decimal.Double} (hnan : x.isNaN = false)
    (hinf : x.isInfinite = false) :
    floatMachine.after? .start x.scientific = some .exponentDigits := by
  obtain ⟨d, places, hdigits, hall⟩ := Decimal.significantOf_shape x.magnitude
  have htext : x.scientific = Decimal.signText x.isNegative ++
      ((Decimal.mantissa (d :: places) ++ ['E']) ++
        (if (Decimal.significantOf x.magnitude).exponent < 0 then '-' else '+') ::
          Text.padded 2 (Decimal.significantOf x.magnitude).exponent.natAbs) := by
    rw [Decimal.Double.scientific_of_finite hnan hinf, hdigits, List.append_assoc, List.append_assoc,
      List.singleton_append]
  rw [htext]
  have hexponent := after?_exponent ((Decimal.significantOf x.magnitude).exponent < 0)
    (Decimal.significantOf x.magnitude).exponent.natAbs
  cases x.isNegative with
  | true =>
    rw [Decimal.signText, if_pos rfl, List.singleton_append, Machine.after?,
      show floatMachine.next? .start '-' = some .signed from rfl, Option.bind_some,
      Machine.after?_append (after?_mantissa (.inr rfl) hall), hexponent]
  | false =>
    rw [Decimal.signText, if_neg Bool.false_ne_true, List.nil_append,
      Machine.after?_append (after?_mantissa (.inl rfl) hall), hexponent]

/-- The characters of integers. -/
def integerSet : CharSet :=
  ⟨[(43, 43), (45, 45), (48, 57), (78, 78)]⟩

theorem reads_integerSet : ∀ state c next, integerMachine.next? state c = some next →
    integerSet.contains c = true :=
  contains_of_next? (by decide) fun state => by cases state <;> decide

theorem length_takeWhile_append_le {p : Char → Bool} {c : Char} (hc : p c = false)
    (before after : List Char) : ((before ++ c :: after).takeWhile p).length ≤ before.length := by
  induction before with
  | nil => simp [hc]
  | cons d before ih =>
    rw [List.cons_append, List.takeWhile_cons]
    split
    · exact Nat.succ_le_succ ih
    · exact Nat.zero_le _

/-- What is read as an integer ends in front of any other character. -/
theorem longest?_integer_lt {state : IntegerState}
    (hlong : ∃ c ∈ token, integerSet.contains c = false) (rest : List Char) :
    ∀ n ∈ integerMachine.longest? state (token ++ rest), n < token.length := by
  intro n hn
  obtain ⟨c, hmem, hc⟩ := hlong
  obtain ⟨before, behind, rfl⟩ := List.append_of_mem hmem
  have hle := Machine.longest?_le reads_integerSet hn
  rw [List.append_assoc, List.cons_append] at hle
  have := length_takeWhile_append_le hc before (behind ++ rest)
  rw [List.length_append, List.length_cons]
  omega

/-- A token that is read as a float, and of which less is read as an integer, is selected by the rule
of floats. -/
theorem longestMatch?_floatToken {last : FloatState}
    (hafter : floatMachine.after? .start token = some last)
    (haccepts : floatMachine.accepts last = true)
    (hinteger : ∀ n ∈ integerMachine.longest? .start (token ++ rest), n < token.length)
    (hrest : EndsToken rest) :
    standard.longestMatch? (token ++ rest) = some (floatRule, token.length) := by
  cases token with
  | nil =>
    cases hafter
    cases haccepts
  | cons c more =>
    have hstart := Machine.isSome_next?_of_after? hafter
    refine longestMatch?_token (wordRules ++ [integerRule]) rfl
      (Machine.forall_of_after? reads_float hafter) (List.cons_ne_nil _ _) hrest ?_
      (List.forall_mem_append.2 ⟨fun other hother => ?_, ?_⟩)
    · rw [matchEnd?_float]
      exact Machine.longest?_append hafter haccepts (stops_of_endsToken reads_float hrest _)
    · rw [List.cons_append, words_fail ?_ ?_ ?_ other hother]
      · simp
      all_goals rintro rfl; revert hstart; decide
    · simpa [matchEnd?_integer] using hinteger

/-- The text of a finite float is selected by the rule of floats. -/
theorem longestMatch?_float {x : Decimal.Double} (hnan : x.isNaN = false)
    (hinf : x.isInfinite = false) (hrest : EndsToken rest) :
    standard.longestMatch? (x.scientific ++ rest) = some (floatRule, x.scientific.length) := by
  have hlong : ∃ c ∈ x.scientific, integerSet.contains c = false := by
    refine ⟨'E', ?_, by decide⟩
    rw [Decimal.Double.scientific_of_finite hnan hinf]
    simp
  exact longestMatch?_floatToken (after?_scientific hnan hinf) rfl (longest?_integer_lt hlong rest)
    hrest

end Tokens

end Edn.Grammar
