import Edn.Proofs.Grammar.Numerals
import Edn.Proofs.Reading.Limits

/-!
# Atoms

The values that are written without delimiters, quotes and backslashes: words,
numbers, symbols and keywords.  They share one set of characters
(`isAtomChar`), and a text of these characters is read by whichever rule takes
most of it.

* `Denotes` says which element a text of such characters stands for, without
  rules and lengths.
* `exists_longestMatch?_iff`: the rule that takes most of a run of characters
  makes this element of what it takes.  It takes the whole run, unless the run
  starts with a digit: then it takes the longest numeral (`IsFirst`).
-/

namespace Edn

open Decimal (IsIntegerNumeral IsFloatNumeral)
open Grammar (EndsToken standard symbolSet literalRules tagged)

/-! ## Characters -/

/-- The characters of atoms: letters, digits, and the marks of symbols. -/
def isAtomChar (c : Char) : Bool :=
  Text.isLetter c || Text.isDigit c ||
    c ∈ ['-', '+', '*', '!', '?', '$', '%', '&', '=', '<', '>', '_', '.', ':', '#', '/']

theorem isAtomChar_eq (c : Char) : isAtomChar c = symbolSet.contains c := by
  rw [Grammar.contains_symbolSet, Bool.eq_iff_iff]
  simp only [isAtomChar, Name.isLater, Name.isFirst, Name.isModifier, Name.isLeadingMark, separator,
    Bool.or_eq_true, decide_eq_true_eq, beq_iff_eq, List.mem_cons, List.not_mem_nil, or_false]
  grind

theorem contains_symbolSet_of_atoms {text : List Char} (h : ∀ c ∈ text, isAtomChar c = true) :
    ∀ c ∈ text, symbolSet.contains c = true := fun c hc => by
  rw [← isAtomChar_eq]
  exact h c hc

/-! ## What atoms stand for -/

/-- The text is the numeral of a number. -/
def IsNumeral (text : List Char) : Prop :=
  (∃ value, IsIntegerNumeral text value) ∨ ∃ body, IsFloatNumeral text body

/-- The text starts with a digit. -/
def startsWithDigit : List Char → Bool
  | [] => false
  | c :: _ => Text.isDigit c

/-- The element that a text stands for as an atom. -/
inductive Denotes (text : List Char) : Element → Prop where
  | nil (h : text = "nil".toList) : Denotes text .nil
  | true (h : text = "true".toList) : Denotes text (.boolean true)
  | false (h : text = "false".toList) : Denotes text (.boolean false)
  | integer {x : Int64} (h : IsIntegerNumeral text x.toInt) : Denotes text (.integer x)
  | float {body : List Char} {x : Decimal.Double} (h : IsFloatNumeral text body)
      (hinteger : ∀ value, ¬IsIntegerNumeral text value) (hread : Decimal.readDouble body = .ok x) :
      Denotes text (.float x)
  | symbol {s : Symbol} (hword : String.ofList text ∉ reservedWords)
      (hread : Symbol.read (String.ofList text) = .ok s) : Denotes text (.symbol "" s)
  | keyword {s : Symbol} (hcolon : text.head? = some ':')
      (hread : Symbol.readKeyword (String.ofList text) = .ok s) : Denotes text (.symbol "" s)

section Rules

variable {token more rest text : List Char} {value : Element} {rule : LiteralRule}

/-- A keyword that is read from a text with a colon has that text. -/
theorem Symbol.text_of_readKeyword {text : String} {s : Symbol}
    (hcolon : text.toList.head? = some ':') (h : readKeyword text = .ok s) : s.text = text := by
  obtain ⟨body, hbody⟩ : ∃ body, text.toList = ':' :: body := by
    cases htext : text.toList with
    | nil =>
      rw [htext] at hcolon
      cases hcolon
    | cons c body =>
      rw [htext] at hcolon
      cases hcolon
      exact ⟨body, rfl⟩
  have hdrop : dropColon text = String.ofList body := by simp [dropColon, hbody]
  simp only [readKeyword, hdrop] at h
  split at h
  · cases h
  · obtain ⟨hparts, hkeyword⟩ := ofParts_eq_ok_iff.1 h
    apply String.toList_injective
    rw [hbody, Symbol.text, Symbol.marker, hkeyword, (joinParts_of_splitParts hparts).1]
    simp

/-! ## Whole tokens -/

theorem eq_of_wordLength? {word : String}
    (h : Grammar.wordLength? word.toList token = some token.length) : token = word.toList := by
  obtain ⟨-, hword, -⟩ := (Grammar.takesLongest_wordLength? word.toList).found h
  rwa [List.take_length] at hword

/-- A rule that takes a whole text makes the element of it for which it stands. -/
theorem denotes_of_longestMatch? (hatoms : ∀ c ∈ token, isAtomChar c = true)
    (hmatch : standard.longestMatch? token = some (rule, token.length))
    (hprocess : rule.process "" (String.ofList token) = .ok value) : Denotes token value := by
  obtain ⟨hrule, hend⟩ := Grammar.literal_of_longestMatch? hmatch
  have hvalue : ∀ {e : Element}, tagged e "" = .ok value → e = value := Except.ok.inj
  obtain ⟨c, more, rfl, -⟩ := startsLiteral_of_longestMatch? hmatch
  have hc := hatoms c List.mem_cons_self
  rcases Grammar.mem_literalRules_iff.1 hrule with rfl | rfl | rfl | rfl | rfl | rfl | rfl | rfl | rfl
  · rw [Grammar.matchEnd?_nil] at hend
    rw [← hvalue hprocess]
    exact .nil (eq_of_wordLength? hend)
  · rw [Grammar.matchEnd?_true] at hend
    rw [← hvalue hprocess]
    exact .true (eq_of_wordLength? hend)
  · rw [Grammar.matchEnd?_false] at hend
    rw [← hvalue hprocess]
    exact .false (eq_of_wordLength? hend)
  · rw [Grammar.matchEnd?_integer] at hend
    obtain ⟨n, hnumeral⟩ := Grammar.acceptsFrom_integer_iff.1 (Machine.longest?_eq_length_iff.1 hend)
    obtain ⟨x, hread, hprocess⟩ := exists_of_bind hprocess
    obtain rfl := (Grammar.readInteger_eq_ok_iff (by rwa [String.toList_ofList])).1 hread
    rw [← hvalue hprocess]
    exact .integer hnumeral
  · rw [Grammar.matchEnd?_float] at hend
    obtain ⟨body, hnumeral⟩ := Grammar.acceptsFrom_float_iff.1 (Machine.longest?_eq_length_iff.1 hend)
    obtain ⟨x, hread, hprocess⟩ := exists_of_bind hprocess
    rw [Grammar.readFloat_eq_ok_iff (by rwa [String.toList_ofList])] at hread
    rw [← hvalue hprocess]
    refine .float hnumeral (fun n hinteger => ?_) hread
    -- the rule of integers would take as much, and stands in front
    have hfront : Grammar.integerRule ∈
        standard.literals.takeWhile (·.written != Grammar.floatRule.written) := by
      rw [Grammar.takeWhile_floatRule]
      exact List.mem_append_right _ List.mem_cons_self
    have hlonger := Machine.longest?_eq_length_iff.2 (Grammar.acceptsFrom_integer_iff.2 ⟨n, hinteger⟩)
    rw [← Grammar.matchEnd?_integer] at hlonger
    exact Nat.lt_irrefl _ (Grammar.lt_of_longestMatch? hmatch hfront _ hlonger)
  · rw [Grammar.character_fails (by rintro rfl; exact absurd hc (by decide))] at hend
    cases hend
  · have hword := not_reserved_of_longestMatch? hmatch
    rw [List.take_length] at hword
    obtain ⟨e, hread, hprocess⟩ := exists_of_bind hprocess
    obtain ⟨s, hsymbol, rfl⟩ := exists_of_map hread
    rw [← hvalue hprocess]
    exact .symbol hword hsymbol
  · have hcolon : c = ':' := by
      by_contra hne
      rw [Grammar.keyword_fails hne] at hend
      cases hend
    obtain ⟨e, hread, hprocess⟩ := exists_of_bind hprocess
    obtain ⟨s, hsymbol, rfl⟩ := exists_of_map hread
    rw [← hvalue hprocess]
    exact .keyword (congrArg some hcolon) hsymbol
  · rw [Grammar.string_fails (by rintro rfl; exact absurd hc (by decide))] at hend
    cases hend

/-- What a text stands for is made of it by the rule that takes most. -/
theorem Denotes.exists_longestMatch? (h : Denotes token value) (hrest : EndsToken rest) :
    ∃ rule, standard.longestMatch? (token ++ rest) = some (rule, token.length) ∧
      rule.process "" (String.ofList token) = .ok value := by
  cases h with
  | nil h =>
    rw [h]
    exact ⟨_, Grammar.longestMatch?_wordNil hrest, rfl⟩
  | true h =>
    rw [h]
    exact ⟨_, Grammar.longestMatch?_wordTrue hrest, rfl⟩
  | false h =>
    rw [h]
    exact ⟨_, Grammar.longestMatch?_wordFalse hrest, rfl⟩
  | @integer x h =>
    obtain ⟨last, hafter, haccepts⟩ := Grammar.acceptsFrom_integer_iff.2 ⟨_, h⟩
    have hread : Grammar.readInteger (String.ofList token) = .ok x := by
      rw [Grammar.readInteger_eq_ok_iff (by rwa [String.toList_ofList])]
    refine ⟨_, Grammar.longestMatch?_integerToken hafter haccepts hrest, ?_⟩
    show (Grammar.readInteger (String.ofList token) >>= fun value => tagged (.integer value) "") = _
    rw [hread]
    rfl
  | @float body x h hinteger hread =>
    obtain ⟨last, hafter, haccepts⟩ := Grammar.acceptsFrom_float_iff.2 ⟨_, h⟩
    have htoken := Machine.forall_of_after? Grammar.reads_float hafter
    have hless : ∀ n ∈ Grammar.integerMachine.longest? .start (token ++ rest), n < token.length := by
      intro n hn
      have hle := Grammar.longest?_le_token Grammar.reads_integer htoken hrest _ n hn
      refine Nat.lt_of_le_of_ne hle ?_
      rintro rfl
      obtain ⟨-, htake, -⟩ := (Grammar.integerMachine.takesLongest .start).found hn
      rw [List.take_left] at htake
      obtain ⟨n, hn⟩ := Grammar.acceptsFrom_integer_iff.1 htake
      exact hinteger n hn
    have hread' : Grammar.readFloat (String.ofList token) = .ok x := by
      rwa [Grammar.readFloat_eq_ok_iff (by rwa [String.toList_ofList])]
    refine ⟨_, Grammar.longestMatch?_floatToken hafter haccepts hless hrest, ?_⟩
    show (Grammar.readFloat (String.ofList token) >>= fun value => tagged (.float value) "") = _
    rw [hread']
    rfl
  | @symbol s hword hread =>
    obtain ⟨hvalid, -, htext⟩ := Symbol.isValid_of_read hread
    rw [← htext] at hword
    have hmatch := longestMatch?_ofSymbol hvalid hword (.inl rfl) rfl hrest
    rwa [htext, String.toList_ofList] at hmatch
  | @keyword s hcolon hread =>
    obtain ⟨hvalid, hkeyword⟩ := Symbol.isValid_of_readKeyword hread
    have htext := Symbol.text_of_readKeyword (by rwa [String.toList_ofList]) hread
    have hmatch := longestMatch?_ofSymbol hvalid (not_reserved_of_isKeyword hkeyword) (.inl rfl) rfl
      hrest
    rwa [htext, String.toList_ofList] at hmatch

/-- Only the numerals of numbers start with a digit. -/
theorem Denotes.isNumeral (h : Denotes token value) (hdigit : startsWithDigit token) :
    IsNumeral token := by
  cases h with
  | nil h | true h | false h =>
    rw [h] at hdigit
    cases hdigit
  | integer h => exact .inl ⟨_, h⟩
  | float h _ _ => exact .inr ⟨_, h⟩
  | @symbol s hword hread =>
    obtain ⟨hvalid, hkeyword, htext⟩ := Symbol.isValid_of_read hread
    obtain ⟨c, tail, hcons, hc, -⟩ := Symbol.exists_head_joinParts hvalid
    have htoken : token = c :: tail := by
      rw [← hcons, ← String.toList_ofList (l := token), ← htext]
      simp [Symbol.text, Symbol.marker, hkeyword]
    rw [htoken, startsWithDigit,
      Grammar.isDigit_of_symbolStartSet (Grammar.contains_symbolStartSet_of_head hc)] at hdigit
    cases hdigit
  | keyword hcolon hread =>
    cases token with
    | nil => cases hdigit
    | cons c tail =>
      cases hcolon
      cases hdigit

theorem Denotes.ne_nil (h : Denotes token value) : token ≠ [] := by
  obtain ⟨rule, hmatch, -⟩ := h.exists_longestMatch? Grammar.endsToken_nil
  exact List.length_pos_iff.1 (Grammar.longestMatch?_pos hmatch)

/-! ## First tokens -/

/-- What is taken from the start of a run: all of it, or, where it starts with a digit, the longest
numeral that starts it. -/
def IsFirst (token more : List Char) : Prop :=
  more = [] ∨ startsWithDigit token = true ∧
    ∀ numeral, numeral <+: token ++ more → IsNumeral numeral → numeral.length ≤ token.length

/-- A character of atoms that starts a literal and is no digit starts a symbol or a keyword. -/
theorem startsSymbol_of_not_isDigit {c : Char} (hc : isAtomChar c = true)
    (hliteral : Grammar.literalSet.contains c = true) (hdigit : Text.isDigit c = false) :
    Grammar.symbolStartSet.contains c = true ∨ c = ':' := by
  have hsign : c ≠ '#' := by
    rintro rfl
    cases hliteral
  rw [isAtomChar_eq, Grammar.contains_symbolSet] at hc
  rw [Grammar.contains_symbolStartSet]
  simp only [Name.isLater, hdigit, Bool.or_false, Bool.or_eq_true, decide_eq_true_eq,
    beq_iff_eq] at hc ⊢
  tauto

/-- The rules of symbols and keywords take a whole run, if they take its first character. -/
theorem longest?_symbol_run {first : CharSet} {c : Char} {run : List Char}
    (hfirst : first.contains c = true) (hrun : ∀ d ∈ run, symbolSet.contains d = true)
    (hreads : ∀ state d next, (Grammar.symbolMachine first).next? state d = some next →
      symbolSet.contains d = true) (hrest : EndsToken rest) :
    (Grammar.symbolMachine first).longest? .start (c :: run ++ rest) = some (c :: run).length :=
  Machine.longest?_append (Grammar.after?_symbol hfirst hrun) rfl
    (Grammar.stops_of_endsToken hreads hrest .inside)

/-- A rule that takes all of a run is not beaten by another one on a part of it. -/
theorem eq_nil_of_longestMatch? {other : LiteralRule}
    (hmatch : standard.longestMatch? (token ++ (more ++ rest)) = some (rule, token.length))
    (hother : other ∈ literalRules)
    (hend : other.matcher.matchEnd? (token ++ more ++ rest) = some (token ++ more).length) :
    more = [] := by
  rw [List.append_assoc] at hend
  have hle := Grammar.le_of_longestMatch? hmatch other (by rwa [Grammar.standard_eq]) _ hend
  rw [List.length_append] at hle
  exact List.eq_nil_of_length_eq_zero (by omega)

/-- The rule that takes most takes no less than any numeral that starts the text. -/
theorem length_le_of_isNumeral {numeral : List Char} {length : Nat}
    (hmatch : standard.longestMatch? text = some (rule, length)) (hstarts : numeral <+: text)
    (hnumeral : IsNumeral numeral) : numeral.length ≤ length := by
  obtain ⟨tail, rfl⟩ := hstarts
  have taken : ∀ {other : LiteralRule} {S : Type} {m : Machine S} {state : S},
      other ∈ literalRules → (∀ text, other.matcher.matchEnd? text = m.longest? state text) →
        m.AcceptsFrom state numeral → numeral.length ≤ length := by
    intro other S m state hother hend haccepts
    obtain ⟨most, hle, hmost⟩ := (m.takesLongest state).exists_of_mem haccepts tail
    rw [← hend] at hmost
    exact hle.trans (Grammar.le_of_longestMatch? hmatch other (by rwa [Grammar.standard_eq]) _ hmost)
  rcases hnumeral with hinteger | hfloat
  · exact taken (by simp [literalRules]) Grammar.matchEnd?_integer
      (Grammar.acceptsFrom_integer_iff.2 hinteger)
  · exact taken (by simp [literalRules]) Grammar.matchEnd?_float
      (Grammar.acceptsFrom_float_iff.2 hfloat)

/-- The rule that takes most takes the first token of a run. -/
theorem isFirst_of_longestMatch? (hatoms : ∀ c ∈ token ++ more, isAtomChar c = true)
    (hrest : EndsToken rest)
    (hmatch : standard.longestMatch? (token ++ (more ++ rest)) = some (rule, token.length)) :
    IsFirst token more := by
  have hnumeral : ∀ numeral, numeral <+: token ++ more → IsNumeral numeral →
      numeral.length ≤ token.length := by
    intro numeral hstarts
    refine length_le_of_isNumeral hmatch ?_
    rw [← List.append_assoc]
    exact hstarts.trans (List.prefix_append _ _)
  cases htoken : token with
  | nil =>
    have hpos := Grammar.longestMatch?_pos hmatch
    rw [htoken] at hpos
    cases hpos
  | cons c tail =>
    rw [← htoken]
    cases hdigit : Text.isDigit c with
    | true => exact .inr ⟨by rw [htoken]; exact hdigit, hnumeral⟩
    | false =>
      -- otherwise the rule of symbols or that of keywords takes the whole run
      have hcons : token ++ more = c :: (tail ++ more) := by rw [htoken]; rfl
      have hliteral : Grammar.literalSet.contains c = true := by
        rw [← List.append_assoc, hcons] at hmatch
        exact Grammar.contains_literalSet hmatch
      rw [hcons] at hatoms
      obtain ⟨hc, htail⟩ := List.forall_mem_cons.1 hatoms
      have hsymbol := contains_symbolSet_of_atoms htail
      rcases startsSymbol_of_not_isDigit hc hliteral hdigit with hstart | rfl
      · have hrule : Grammar.symbolRule ∈ literalRules := by simp [literalRules]
        refine .inl (eq_nil_of_longestMatch? hmatch hrule ?_)
        rw [Grammar.matchEnd?_symbol, hcons]
        exact longest?_symbol_run hstart hsymbol Grammar.reads_symbol hrest
      · have hrule : Grammar.keywordRule ∈ literalRules := by simp [literalRules]
        refine .inl (eq_nil_of_longestMatch? hmatch hrule ?_)
        rw [Grammar.matchEnd?_keyword, hcons]
        exact longest?_symbol_run rfl hsymbol Grammar.reads_keyword hrest

/-- A machine of numerals takes the longest numeral, also in front of other characters. -/
theorem longest?_append_of_isNumeral {S : Type} {m : Machine S} {state : S}
    (hreads : ∀ state c next, m.next? state c = some next → symbolSet.contains c = true)
    (hnumeral : ∀ text, m.AcceptsFrom state text → IsNumeral text)
    (hsymbol : ∀ c ∈ token ++ more, symbolSet.contains c = true)
    (hlongest : ∀ numeral, numeral <+: token ++ more → IsNumeral numeral →
      numeral.length ≤ token.length) (hrest : EndsToken rest) :
    m.longest? state (token ++ (more ++ rest)) = m.longest? state token := by
  refine (m.takesLongest state).append_eq fun n hn => ?_
  obtain ⟨-, haccepts, -⟩ := (m.takesLongest state).found hn
  rw [← List.append_assoc] at hn haccepts
  have hle := Grammar.longest?_le_token hreads hsymbol hrest state n hn
  rw [List.take_append_of_le_length hle] at haccepts
  have := hlongest _ (List.take_prefix _ _) (hnumeral _ haccepts)
  rwa [List.length_take, Nat.min_eq_left hle] at this

/-- Where a text starts with a digit, only the rules of numbers take something. -/
theorem matchEnd?_of_isDigit {c : Char} (hdigit : Text.isDigit c = true) (hrule : rule ∈ literalRules) :
    rule = Grammar.integerRule ∨ rule = Grammar.floatRule ∨
      ∀ input, rule.matcher.matchEnd? (c :: input) = none := by
  have hne : ∀ {d : Char}, Text.isDigit d = false → c ≠ d := by
    rintro d hd rfl
    rw [hdigit] at hd
    cases hd
  have hstart : Grammar.symbolStartSet.contains c = false := by
    rw [← Bool.not_eq_true]
    intro hstart
    rw [Grammar.isDigit_of_symbolStartSet hstart] at hdigit
    cases hdigit
  rcases List.mem_append.1 hrule with hword | hrule
  · exact .inr (.inr fun input => Grammar.words_fail (hne rfl) (hne rfl) (hne rfl) rule hword)
  · simp only [List.mem_cons, List.not_mem_nil, or_false] at hrule
    rcases hrule with rfl | rfl | rfl | rfl | rfl | rfl
    · exact .inl rfl
    · exact .inr (.inl rfl)
    · exact .inr (.inr fun input => Grammar.character_fails (hne rfl))
    · exact .inr (.inr fun input => Grammar.symbol_fails hstart)
    · exact .inr (.inr fun input => Grammar.keyword_fails (hne rfl))
    · exact .inr (.inr fun input => Grammar.string_fails (hne rfl))

/-- In front of other characters, a numeral is taken as it is alone, if it is the longest one. -/
theorem longestMatch?_append_of_isFirst (hatoms : ∀ c ∈ token ++ more, isAtomChar c = true)
    (hdigit : startsWithDigit token = true)
    (hlongest : ∀ numeral, numeral <+: token ++ more → IsNumeral numeral →
      numeral.length ≤ token.length) (hrest : EndsToken rest) :
    standard.longestMatch? (token ++ (more ++ rest)) = standard.longestMatch? token := by
  have hsymbol := contains_symbolSet_of_atoms hatoms
  refine Grammar.longestMatch?_congr fun rule hrule => ?_
  rw [Grammar.standard_eq] at hrule
  cases htoken : token with
  | nil =>
    rw [htoken] at hdigit
    cases hdigit
  | cons c tail =>
    rw [htoken] at hdigit
    rcases matchEnd?_of_isDigit hdigit hrule with rfl | rfl | hnone
    · rw [← htoken, Grammar.matchEnd?_integer, Grammar.matchEnd?_integer]
      exact longest?_append_of_isNumeral Grammar.reads_integer
        (fun _ h => .inl (Grammar.acceptsFrom_integer_iff.1 h)) hsymbol hlongest hrest
    · rw [← htoken, Grammar.matchEnd?_float, Grammar.matchEnd?_float]
      exact longest?_append_of_isNumeral Grammar.reads_float
        (fun _ h => .inr (Grammar.acceptsFrom_float_iff.1 h)) hsymbol hlongest hrest
    · rw [List.cons_append, hnone, hnone]

/-- The rule that takes most of a run takes its first token, and makes the element of it for which the
token stands. -/
theorem exists_longestMatch?_iff (hatoms : ∀ c ∈ token ++ more, isAtomChar c = true)
    (hrest : EndsToken rest) :
    (∃ rule, standard.longestMatch? (token ++ (more ++ rest)) = some (rule, token.length) ∧
      rule.process "" (String.ofList token) = .ok value) ↔
      IsFirst token more ∧ Denotes token value := by
  constructor
  · rintro ⟨rule, hmatch, hprocess⟩
    have htoken : ∀ c ∈ token, isAtomChar c = true := fun c hc =>
      hatoms c (List.mem_append_left _ hc)
    exact ⟨isFirst_of_longestMatch? hatoms hrest hmatch, denotes_of_longestMatch? htoken
      (Grammar.longestMatch?_of_append hmatch (Nat.le_refl _)) hprocess⟩
  · rintro ⟨rfl | ⟨hdigit, hlongest⟩, hdenotes⟩
    · exact hdenotes.exists_longestMatch? hrest
    · obtain ⟨rule, hmatch, hprocess⟩ := hdenotes.exists_longestMatch? Grammar.endsToken_nil
      rw [List.append_nil] at hmatch
      exact ⟨rule, (longestMatch?_append_of_isFirst hatoms hdigit hlongest hrest).trans hmatch,
        hprocess⟩

end Rules

end Edn
