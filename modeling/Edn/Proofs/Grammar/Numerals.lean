import Edn.Proofs.Decimal.Numerals
import Edn.Proofs.Grammar.LongestMatch

/-!
# The rules of numerals

What the rules of numbers take, said without machines, and what they make of
it.

* `acceptsFrom_integer_iff` and `acceptsFrom_float_iff`: the machines of
  numbers accept the numerals and no other texts.  The parts of a numeral are
  told apart by the loops of the machines (`Machine.acceptsFrom_loop`).
* `readInteger_eq_ok_iff` and `readFloat_eq_ok_iff`: what is read from a
  numeral, and when it is refused.
-/

namespace Edn

open Decimal (IsMark IsWhole IsFraction IsExponent IsIntegerNumeral IsFloatNumeral)
open Text (isDigit digits? IsSign signedValue)

/-! ## Machines -/

namespace Machine

variable {S : Type} {m : Machine S} {state next : S} {accepts : Bool} {exit : CharSet × S}
  {exits : List (CharSet × S)} {text : List Char}

/-- Where the sets of a state have nothing in common, a character leads through each set that holds
it. -/
theorem next?_eq_some_iff {c : Char}
    (hapart : (m.exits state).Pairwise fun exit other => exit.1.apart other.1 = true) :
    m.next? state c = some next ↔
      ∃ exit ∈ m.exits state, exit.1.contains c = true ∧ exit.2 = next := by
  refine ⟨m.exists_exit, ?_⟩
  rintro ⟨exit, hmem, hc, rfl⟩
  have hfound : exit ∈ (m.exits state).filter fun exit => exit.1.contains c :=
    List.mem_filter.2 ⟨hmem, hc⟩
  rw [Follows.filter_exits c hapart, Option.mem_toList] at hfound
  rw [next?, hfound, Option.map_some]

/-- A text is accepted at once, or by way of one of the sets. -/
def AcceptsBy (m : Machine S) (accepts : Bool) (exits : List (CharSet × S)) (text : List Char) :
    Prop :=
  (text = [] ∧ accepts = true) ∨
    ∃ exit ∈ exits, ∃ c rest, text = c :: rest ∧ exit.1.contains c = true ∧
      m.AcceptsFrom exit.2 rest

theorem acceptsBy_nil : m.AcceptsBy accepts [] text ↔ text = [] ∧ accepts = true := by
  simp [AcceptsBy]

theorem acceptsBy_cons :
    m.AcceptsBy accepts (exit :: exits) text ↔
      (∃ c rest, text = c :: rest ∧ exit.1.contains c = true ∧ m.AcceptsFrom exit.2 rest) ∨
        m.AcceptsBy accepts exits text := by
  simp only [AcceptsBy, List.exists_mem_cons_iff]
  exact or_left_comm

/-- A state accepts at once, or by way of one of its sets. -/
theorem acceptsFrom_iff
    (hapart : (m.exits state).Pairwise fun exit other => exit.1.apart other.1 = true) :
    m.AcceptsFrom state text ↔ m.AcceptsBy (m.accepts state) (m.exits state) text := by
  cases text with
  | nil => simp [acceptsFrom_nil, AcceptsBy]
  | cons c rest =>
    rw [acceptsFrom_cons]
    constructor
    · rintro ⟨next, hnext, hrest⟩
      obtain ⟨exit, hmem, hc, rfl⟩ := (next?_eq_some_iff hapart).1 hnext
      exact .inr ⟨exit, hmem, c, rest, rfl, hc, hrest⟩
    · rintro (⟨hnil, -⟩ | ⟨exit, hmem, _, _, ⟨⟩, hc, hrest⟩)
      · cases hnil
      · exact ⟨exit.2, (next?_eq_some_iff hapart).2 ⟨exit, hmem, hc, rfl⟩, hrest⟩

/-- A state with a loop accepts any characters of the loop, and then what its other sets accept. -/
theorem acceptsFrom_loop {set : CharSet} {others : List (CharSet × S)}
    (hexits : m.exits state = (set, state) :: others)
    (hapart : (m.exits state).Pairwise fun exit other => exit.1.apart other.1 = true) :
    m.AcceptsFrom state text ↔ ∃ first rest, text = first ++ rest ∧
      (∀ c ∈ first, set.contains c = true) ∧ m.AcceptsBy (m.accepts state) others rest := by
  have hstep : ∀ text, m.AcceptsFrom state text ↔
      (∃ c rest, text = c :: rest ∧ set.contains c = true ∧ m.AcceptsFrom state rest) ∨
        m.AcceptsBy (m.accepts state) others text := by
    intro text
    rw [acceptsFrom_iff hapart, hexits, acceptsBy_cons]
  constructor
  · intro h
    induction text with
    | nil =>
      rcases (hstep []).1 h with ⟨c, rest, heq, -⟩ | h
      · cases heq
      · exact ⟨[], [], rfl, List.forall_mem_nil _, h⟩
    | cons c text ih =>
      rcases (hstep (c :: text)).1 h with ⟨_, _, ⟨⟩, hc, hrest⟩ | h
      · obtain ⟨first, rest, rfl, hfirst, hrest⟩ := ih hrest
        exact ⟨c :: first, rest, rfl, List.forall_mem_cons.2 ⟨hc, hfirst⟩, hrest⟩
      · exact ⟨[], c :: text, rfl, List.forall_mem_nil _, h⟩
  · rintro ⟨first, rest, rfl, hfirst, hrest⟩
    induction first with
    | nil => exact (hstep rest).2 (.inr hrest)
    | cons c first ih =>
      obtain ⟨hc, hfirst⟩ := List.forall_mem_cons.1 hfirst
      exact (hstep _).2 (.inl ⟨c, first ++ rest, rfl, hc, ih hfirst⟩)

end Machine

namespace Grammar

/-! ## What the machines accept -/

theorem contains_signSet (c : Char) : signSet.contains c = true ↔ c = '+' ∨ c = '-' := by
  simp only [CharSet.contains, signSet, Text.CodeTable.holds, ← Char.toNat_inj, Char.reduceToNat]
  grind

theorem contains_exponentSet (c : Char) : exponentSet.contains c = true ↔ c = 'e' ∨ c = 'E' := by
  simp only [CharSet.contains, exponentSet, Text.CodeTable.holds, ← Char.toNat_inj,
    Char.reduceToNat]
  grind

/-- A text behind an optional sign. -/
theorem exists_sign_iff {text : List Char} {p : List Char → Prop} :
    (∃ c rest, text = c :: rest ∧ (c = '+' ∨ c = '-') ∧ p rest) ∨ p text ↔
      ∃ sign negative rest, text = sign ++ rest ∧ IsSign sign negative ∧ p rest := by
  constructor
  · rintro (⟨c, rest, rfl, rfl | rfl, h⟩ | h)
    · exact ⟨['+'], false, rest, rfl, .plus, h⟩
    · exact ⟨['-'], true, rest, rfl, .minus, h⟩
    · exact ⟨[], false, text, rfl, .absent, h⟩
  · rintro ⟨_, _, rest, rfl, _ | _ | _, h⟩
    · exact .inr h
    · exact .inl ⟨'+', rest, rfl, .inl rfl, h⟩
    · exact .inl ⟨'-', rest, rfl, .inr rfl, h⟩

section Machines

variable {S : Type} {m : Machine S} {text : List Char}

/-- A state that accepts, and that a single character leads from to the end, accepts that character at
most. -/
theorem acceptsBy_mark {mark : Char} {marked : S} (hexits : m.exits marked = [])
    (haccepts : m.accepts marked = true) :
    m.AcceptsBy true [(.single mark, marked)] text ↔ IsMark mark text := by
  have hmarked : ∀ rest, m.AcceptsFrom marked rest ↔ rest = [] := by
    intro rest
    rw [Machine.acceptsFrom_iff (by rw [hexits]; exact .nil), hexits, haccepts, Machine.acceptsBy_nil]
    simp
  simp only [Machine.acceptsBy_cons, Machine.acceptsBy_nil, CharSet.contains_single,
    decide_eq_true_eq, hmarked, IsMark]
  constructor
  · rintro (⟨c, rest, rfl, rfl, rfl⟩ | ⟨rfl, -⟩)
    · exact .inr rfl
    · exact .inl rfl
  · rintro (rfl | rfl)
    · exact .inr ⟨rfl, trivial⟩
    · exact .inl ⟨mark, [], rfl, rfl, rfl⟩

/-- A machine whose first states read a sign, a zero, or digits without leading zeros accepts a sign and
a whole number in front of what it accepts behind the zero. -/
theorem acceptsFrom_number (start signed zero digits : S)
    (hapart : ∀ state, (m.exits state).Pairwise fun exit other => exit.1.apart other.1 = true)
    (hstart : m.exits start = (signSet, signed) :: m.exits signed)
    (hsigned : m.exits signed = [(.single '0', zero), (leadingDigitSet, digits)])
    (hdigits : m.exits digits = (digitSet, digits) :: m.exits zero)
    (hstart' : m.accepts start = false) (hsigned' : m.accepts signed = false)
    (hdigits' : m.accepts digits = m.accepts zero) :
    m.AcceptsFrom start text ↔ ∃ sign negative whole rest, text = sign ++ (whole ++ rest) ∧
      IsSign sign negative ∧ IsWhole whole ∧ m.AcceptsFrom zero rest := by
  have hloop : ∀ text, m.AcceptsFrom digits text ↔ ∃ first rest, text = first ++ rest ∧
      (∀ c ∈ first, isDigit c = true) ∧ m.AcceptsFrom zero rest := by
    intro text
    simp only [Machine.acceptsFrom_loop hdigits (hapart digits), contains_digitSet,
      Machine.acceptsFrom_iff (hapart zero), hdigits']
  have hwhole : ∀ text, m.AcceptsBy false (m.exits signed) text ↔
      ∃ whole rest, text = whole ++ rest ∧ IsWhole whole ∧ m.AcceptsFrom zero rest := by
    intro text
    rw [hsigned, Machine.acceptsBy_cons, Machine.acceptsBy_cons, Machine.acceptsBy_nil]
    simp only [CharSet.contains_single, contains_leadingDigitSet, decide_eq_true_eq,
      Bool.and_eq_true, hloop, Bool.false_eq_true, and_false, or_false]
    constructor
    · rintro (⟨c, rest, rfl, rfl, hrest⟩ | ⟨c, _, rfl, ⟨hc, hzero⟩, more, rest, rfl, hmore, hrest⟩)
      · exact ⟨['0'], rest, rfl, .inl rfl, hrest⟩
      · exact ⟨c :: more, rest, rfl,
          .inr ⟨c, more, rfl, hzero, List.forall_mem_cons.2 ⟨hc, hmore⟩⟩, hrest⟩
    · rintro ⟨_, rest, rfl, rfl | ⟨c, more, rfl, hzero, hall⟩, hrest⟩
      · exact .inl ⟨'0', rest, rfl, rfl, hrest⟩
      · obtain ⟨hc, hmore⟩ := List.forall_mem_cons.1 hall
        exact .inr ⟨c, more ++ rest, rfl, ⟨hc, hzero⟩, more, rest, rfl, hmore, hrest⟩
  rw [Machine.acceptsFrom_iff (hapart start), hstart, hstart', Machine.acceptsBy_cons]
  simp only [Machine.acceptsFrom_iff (hapart signed), hsigned', hwhole, contains_signSet]
  rw [exists_sign_iff]
  constructor
  · rintro ⟨sign, negative, _, rfl, hsign, whole, rest, rfl, hwhole, hrest⟩
    exact ⟨sign, negative, whole, rest, rfl, hsign, hwhole, hrest⟩
  · rintro ⟨sign, negative, whole, rest, rfl, hsign, hwhole, hrest⟩
    exact ⟨sign, negative, _, rfl, hsign, whole, rest, rfl, hwhole, hrest⟩

end Machines

section Numerals

variable {text body : List Char} {value : Int}

/-- The machine of integers accepts their numerals. -/
theorem acceptsFrom_integer_iff :
    integerMachine.AcceptsFrom .start text ↔ ∃ value, IsIntegerNumeral text value := by
  have hzero : ∀ rest, integerMachine.AcceptsFrom .zero rest ↔ IsMark 'N' rest := fun rest => by
    rw [Machine.acceptsFrom_iff (follows_integer.apart .zero)]
    exact acceptsBy_mark rfl rfl
  rw [acceptsFrom_number .start .signed .zero .digits follows_integer.apart rfl rfl rfl rfl rfl rfl]
  simp only [hzero]
  constructor
  · rintro ⟨sign, negative, whole, mark, rfl, hsign, hwhole, hmark⟩
    obtain ⟨n, hn⟩ := Text.exists_digits? hwhole.digits.1 hwhole.digits.2
    exact ⟨_, sign, negative, whole, n, mark, rfl, hsign, hwhole, hn, hmark, rfl⟩
  · rintro ⟨_, sign, negative, whole, n, mark, rfl, hsign, hwhole, -, hmark, rfl⟩
    exact ⟨sign, negative, whole, mark, rfl, hsign, hwhole, hmark⟩

theorem acceptsFrom_exponentDigits_iff : floatMachine.AcceptsFrom .exponentDigits text ↔
    ∃ digits mark, text = digits ++ mark ∧ (∀ d ∈ digits, isDigit d = true) ∧ IsMark 'M' mark := by
  have hmark : ∀ rest, floatMachine.AcceptsBy true [(.single 'M', .marked)] rest ↔ IsMark 'M' rest :=
    fun rest => acceptsBy_mark rfl rfl
  rw [Machine.acceptsFrom_loop rfl (follows_float.apart .exponentDigits)]
  simp only [contains_digitSet]
  exact exists₂_congr fun digits mark => and_congr_right' (and_congr_right' (hmark mark))

/-- Behind the letter of an exponent, the machine of floats accepts a sign and digits. -/
theorem acceptsFrom_exponent_iff : floatMachine.AcceptsFrom .exponent text ↔
    ∃ sign negative digits mark, text = sign ++ (digits ++ mark) ∧ IsSign sign negative ∧
      digits ≠ [] ∧ (∀ d ∈ digits, isDigit d = true) ∧ IsMark 'M' mark := by
  have hdigits : ∀ text, floatMachine.AcceptsBy false [(digitSet, .exponentDigits)] text ↔
      ∃ digits mark, text = digits ++ mark ∧ digits ≠ [] ∧ (∀ d ∈ digits, isDigit d = true) ∧
        IsMark 'M' mark := by
    intro text
    simp only [Machine.acceptsBy_cons, Machine.acceptsBy_nil, contains_digitSet,
      acceptsFrom_exponentDigits_iff, Bool.false_eq_true, and_false, or_false]
    constructor
    · rintro ⟨c, _, rfl, hc, digits, mark, rfl, hall, hmark⟩
      exact ⟨c :: digits, mark, rfl, List.cons_ne_nil _ _, List.forall_mem_cons.2 ⟨hc, hall⟩, hmark⟩
    · rintro ⟨digits, mark, rfl, hne, hall, hmark⟩
      obtain ⟨c, more, rfl⟩ := List.exists_cons_of_ne_nil hne
      obtain ⟨hc, hmore⟩ := List.forall_mem_cons.1 hall
      exact ⟨c, more ++ mark, rfl, hc, more, mark, rfl, hmore, hmark⟩
  have hsigned : ∀ text, floatMachine.AcceptsFrom .exponentSigned text ↔
      floatMachine.AcceptsBy false [(digitSet, .exponentDigits)] text :=
    fun text => Machine.acceptsFrom_iff (follows_float.apart .exponentSigned)
  rw [Machine.acceptsFrom_iff (follows_float.apart .exponent)]
  show floatMachine.AcceptsBy false ((signSet, .exponentSigned) :: [(digitSet, .exponentDigits)])
    text ↔ _
  rw [Machine.acceptsBy_cons]
  simp only [hsigned, hdigits, contains_signSet]
  rw [exists_sign_iff]
  constructor
  · rintro ⟨sign, negative, _, rfl, hsign, digits, mark, rfl, h⟩
    exact ⟨sign, negative, digits, mark, rfl, hsign, h⟩
  · rintro ⟨sign, negative, digits, mark, rfl, hsign, h⟩
    exact ⟨sign, negative, _, rfl, hsign, digits, mark, rfl, h⟩

/-- Behind a whole number, the machine of floats accepts a fraction, an exponent and a mark. -/
theorem acceptsFrom_zero_iff : floatMachine.AcceptsFrom .zero text ↔
    ∃ fraction exponent mark, text = fraction ++ (exponent ++ mark) ∧ IsFraction fraction ∧
      IsExponent exponent ∧ IsMark 'M' mark := by
  have hscale : ∀ text,
      floatMachine.AcceptsBy true [(exponentSet, .exponent), (.single 'M', .marked)] text ↔
        ∃ exponent mark, text = exponent ++ mark ∧ IsExponent exponent ∧ IsMark 'M' mark := by
    intro text
    rw [Machine.acceptsBy_cons, acceptsBy_mark rfl rfl]
    simp only [contains_exponentSet, acceptsFrom_exponent_iff]
    constructor
    · rintro (⟨letter, _, rfl, hletter, sign, negative, digits, mark, rfl, hsign, hne, hall, hmark⟩ |
        hmark)
      · exact ⟨letter :: (sign ++ digits), mark, by simp, .inr ⟨letter, sign, digits, negative, rfl,
          hletter, hsign, hne, hall⟩, hmark⟩
      · exact ⟨[], text, rfl, .inl rfl, hmark⟩
    · rintro ⟨_, mark, rfl, rfl | ⟨letter, sign, digits, negative, rfl, hletter, hsign, hne, hall⟩,
        hmark⟩
      · exact .inr hmark
      · exact .inl ⟨letter, _, rfl, hletter, sign, negative, digits, mark, by simp, hsign, hne, hall,
          hmark⟩
  have hplaces : ∀ text, floatMachine.AcceptsFrom .places text ↔
      ∃ places rest, text = places ++ rest ∧ (∀ d ∈ places, isDigit d = true) ∧
        floatMachine.AcceptsBy true [(exponentSet, .exponent), (.single 'M', .marked)] rest := by
    intro text
    rw [Machine.acceptsFrom_loop rfl (follows_float.apart .places)]
    simp only [contains_digitSet]
    rfl
  rw [Machine.acceptsFrom_iff (follows_float.apart .zero)]
  show floatMachine.AcceptsBy true ((.single '.', .places) ::
    [(exponentSet, .exponent), (.single 'M', .marked)]) text ↔ _
  rw [Machine.acceptsBy_cons]
  simp only [hscale, hplaces, CharSet.contains_single, decide_eq_true_eq]
  constructor
  · rintro (⟨c, _, rfl, rfl, places, _, rfl, hall, exponent, mark, rfl, h⟩ | ⟨exponent, mark, rfl, h⟩)
    · exact ⟨'.' :: places, exponent, mark, rfl, .inr ⟨places, rfl, hall⟩, h⟩
    · exact ⟨[], exponent, mark, rfl, .inl rfl, h⟩
  · rintro ⟨_, exponent, mark, rfl, rfl | ⟨places, rfl, hall⟩, h⟩
    · exact .inr ⟨exponent, mark, rfl, h⟩
    · exact .inl ⟨'.', _, rfl, rfl, places, _, rfl, hall, exponent, mark, rfl, h⟩

/-- The machine of floats accepts their numerals. -/
theorem acceptsFrom_float_iff :
    floatMachine.AcceptsFrom .start text ↔ ∃ body, IsFloatNumeral text body := by
  rw [acceptsFrom_number .start .signed .zero .digits follows_float.apart rfl rfl rfl rfl rfl rfl]
  simp only [acceptsFrom_zero_iff]
  constructor
  · rintro ⟨sign, negative, whole, _, rfl, hsign, hwhole, fraction, exponent, mark, rfl, h⟩
    exact ⟨_, sign, negative, whole, fraction, exponent, mark, by simp, rfl, hsign, hwhole, h⟩
  · rintro ⟨_, sign, negative, whole, fraction, exponent, mark, rfl, rfl, hsign, hwhole, h⟩
    exact ⟨sign, negative, whole, _, by simp, hsign, hwhole, fraction, exponent, mark, rfl, h⟩

/-! ## What is read -/

/-- A mark is cut off behind a text that does not hold it. -/
theorem dropLastIf_mark {c : Char} {mark : List Char} (htext : c ∉ text) (hmark : IsMark c mark) :
    dropLastIf c (text ++ mark) = text := by
  rcases hmark with rfl | rfl
  · rw [List.append_nil, dropLastIf, if_neg fun hlast => htext (List.mem_of_getLast? hlast)]
  · rw [dropLastIf, if_pos (by simp), List.dropLast_concat]

/-- The numeral of an integer is read as its value, if 64 bits hold it, and is refused otherwise. -/
theorem readInteger_eq_ok_iff {token : String} (h : IsIntegerNumeral token.toList value)
    {x : Int64} : readInteger token = .ok x ↔ x.toInt = value := by
  obtain ⟨sign, negative, whole, n, mark, htoken, hsign, hwhole, hn, hmark, rfl⟩ := h
  obtain ⟨-, hdigits⟩ := hwhole.digits
  have hnot : 'N' ∉ sign ++ whole := by
    rw [List.mem_append, not_or]
    exact ⟨hsign.not_mem (by decide) (by decide), Decimal.not_mem_of_isDigit hdigits rfl⟩
  rw [readInteger, htoken, ← List.append_assoc, dropLastIf_mark hnot hmark,
    ← Text.readInt64_eq_ok_iff hsign hdigits hn]
  split <;> simp_all

/-- The numeral of a float is read as a double without its mark. -/
theorem readFloat_eq_ok_iff {token : String} (h : IsFloatNumeral token.toList body)
    {x : Decimal.Double} : readFloat token = .ok x ↔ Decimal.readDouble body = .ok x := by
  have hnot := h.not_mem
  obtain ⟨-, -, -, -, -, mark, htoken, -, -, -, -, -, hmark⟩ := h
  rw [readFloat, htoken, dropLastIf_mark hnot hmark]
  split <;> simp_all

end Numerals

end Grammar

end Edn
