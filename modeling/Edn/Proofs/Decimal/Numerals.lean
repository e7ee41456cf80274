import Edn.Decimal.Reading
import Edn.Proofs.Decimal.Scientific

/-!
# Numerals

The texts that are numerals, told by their parts: a sign, a whole number
without leading zeros, and for floats a fraction and an exponent, each
optional, with a letter behind it or without.

* `IsIntegerNumeral` and `IsFloatNumeral` are the two shapes.
* `exists_readDouble`: the numeral of a float is always read as a double.
-/

namespace Edn.Decimal

open Text (isDigit digits? IsSign signedValue takeWhile_isDigit_append)

/-! ## Parts -/

/-- An optional character. -/
def IsMark (mark : Char) (text : List Char) : Prop :=
  text = [] ∨ text = [mark]

/-- A whole number: a zero, or digits that do not start with one. -/
def IsWhole (text : List Char) : Prop :=
  text = ['0'] ∨ ∃ c digits, text = c :: digits ∧ c ≠ '0' ∧ ∀ d ∈ text, isDigit d = true

/-- A point and any digits behind it, or nothing. -/
def IsFraction (text : List Char) : Prop :=
  text = [] ∨ ∃ places, text = '.' :: places ∧ ∀ d ∈ places, isDigit d = true

/-- A letter `e` of either case, an optional sign and at least one digit, or nothing. -/
def IsExponent (text : List Char) : Prop :=
  text = [] ∨ ∃ letter sign digits negative, text = letter :: (sign ++ digits) ∧
    (letter = 'e' ∨ letter = 'E') ∧ IsSign sign negative ∧ digits ≠ [] ∧
      ∀ d ∈ digits, isDigit d = true

/-- The numeral of an integer: an optional sign, a whole number, and an optional `N`. -/
def IsIntegerNumeral (text : List Char) (value : Int) : Prop :=
  ∃ sign negative whole n mark, text = sign ++ (whole ++ mark) ∧ IsSign sign negative ∧
    IsWhole whole ∧ digits? whole = some n ∧ IsMark 'N' mark ∧ value = signedValue negative n

/-- The numeral of a float: an optional sign, a whole number, an optional fraction, an optional exponent,
and an optional `M`.  `body` is the numeral without the `M`. -/
def IsFloatNumeral (text body : List Char) : Prop :=
  ∃ sign negative whole fraction exponent mark, text = body ++ mark ∧
    body = sign ++ (whole ++ (fraction ++ exponent)) ∧ IsSign sign negative ∧ IsWhole whole ∧
      IsFraction fraction ∧ IsExponent exponent ∧ IsMark 'M' mark

/-! ## Characters -/

theorem not_mem_of_isDigit {digits : List Char} {c : Char}
    (hdigits : ∀ d ∈ digits, isDigit d = true) (hc : isDigit c = false) : c ∉ digits := by
  intro hmem
  rw [hdigits c hmem] at hc
  cases hc

theorem IsWhole.digits {text : List Char} (h : IsWhole text) :
    text ≠ [] ∧ ∀ d ∈ text, isDigit d = true := by
  rcases h with rfl | ⟨c, digits, rfl, -, hdigits⟩
  · exact ⟨List.cons_ne_nil _ _, List.all_eq_true.1 rfl⟩
  · exact ⟨List.cons_ne_nil _ _, hdigits⟩

theorem IsFraction.not_mem {text : List Char} {c : Char} (h : IsFraction text)
    (hc : isDigit c = false) (hpoint : c ≠ '.') : c ∉ text := by
  rcases h with rfl | ⟨places, rfl, hplaces⟩
  · exact List.not_mem_nil
  · simp [hpoint, not_mem_of_isDigit hplaces hc]

theorem IsExponent.not_mem {text : List Char} {c : Char} (h : IsExponent text)
    (hc : isDigit c = false) (hsign : c ≠ '+' ∧ c ≠ '-') (hletter : c ≠ 'e' ∧ c ≠ 'E') :
    c ∉ text := by
  rcases h with rfl | ⟨letter, sign, digits, negative, rfl, hor, hsigned, -, hdigits⟩
  · exact List.not_mem_nil
  · have hne : c ≠ letter := by
      rintro rfl
      exact hor.elim hletter.1 hletter.2
    simp [hne, hsigned.not_mem hsign.1 hsign.2, not_mem_of_isDigit hdigits hc]

/-- The numeral of a float without its mark does not hold one. -/
theorem IsFloatNumeral.not_mem {text body : List Char} (h : IsFloatNumeral text body) :
    'M' ∉ body := by
  obtain ⟨sign, negative, whole, fraction, exponent, mark, -, rfl, hsign, hwhole, hfraction,
    hexponent, -⟩ := h
  simp only [List.mem_append, not_or]
  exact ⟨hsign.not_mem (by decide) (by decide), not_mem_of_isDigit hwhole.digits.2 rfl,
    hfraction.not_mem rfl (by decide), hexponent.not_mem rfl (by decide) (by decide)⟩

/-! ## Reading floats -/

/-- A sign is split off in front of digits. -/
theorem splitSign_eq {sign text : List Char} {negative : Bool} (hsign : IsSign sign negative)
    (htext : ∀ c ∈ text.head?, isDigit c = true) : splitSign (sign ++ text) = (negative, text) := by
  cases hsign with
  | absent =>
    unfold splitSign
    split
    · next heq => exact absurd (htext '-' (by rw [← List.nil_append text, heq]; rfl)) (by decide)
    · next heq => exact absurd (htext '+' (by rw [← List.nil_append text, heq]; rfl)) (by decide)
    · rfl
  | plus => rfl
  | minus => rfl

theorem head?_digits {digits : List Char} (hdigits : ∀ d ∈ digits, isDigit d = true)
    (hne : digits ≠ []) (rest : List Char) : ∀ c ∈ (digits ++ rest).head?, isDigit c = true := by
  obtain ⟨c, more, rfl⟩ := List.exists_cons_of_ne_nil hne
  rintro d ⟨⟩
  exact hdigits c List.mem_cons_self

/-- An exponent is read, and is no part of what stands in front of it. -/
theorem IsExponent.exists_readScale? {text : List Char} (h : IsExponent text) :
    (∃ scale, readScale? text = some scale) ∧
      ∀ c ∈ text.head?, isDigit c = false ∧ c ≠ '.' := by
  rcases h with rfl | ⟨letter, sign, digits, negative, rfl, hletter, hsign, hne, hdigits⟩
  · exact ⟨⟨0, rfl⟩, by simp⟩
  · refine ⟨?_, ?_⟩
    · obtain ⟨n, hn⟩ := Text.exists_digits? hne hdigits
      have hhead := head?_digits hdigits hne []
      rw [List.append_nil] at hhead
      simp [readScale?, if_pos hletter, readExponent?, splitSign_eq hsign hhead, hn]
    · rintro c ⟨⟩
      rcases hletter with rfl | rfl <;> exact ⟨rfl, by decide⟩

/-- A whole number with a fraction and an exponent is read as an unsigned numeral. -/
theorem exists_readNumeral? {whole fraction exponent : List Char} (hwhole : IsWhole whole)
    (hfraction : IsFraction fraction) (hexponent : IsExponent exponent) :
    ∃ numeral, readNumeral? (whole ++ (fraction ++ exponent)) = some numeral := by
  obtain ⟨hne, hdigits⟩ := hwhole.digits
  obtain ⟨⟨scale, hscale⟩, hhead⟩ := hexponent.exists_readScale?
  have hexponent' : ∀ c ∈ exponent.head?, isDigit c = false := fun c hc => (hhead c hc).1
  rcases hfraction with rfl | ⟨places, rfl, hplaces⟩
  · obtain ⟨htake, hdrop⟩ := takeWhile_isDigit_append hdigits hexponent'
    have hpoint : ∀ rest, exponent ≠ '.' :: rest := by
      rintro rest rfl
      exact (hhead '.' rfl).2 rfl
    obtain ⟨n, hn⟩ := Text.exists_digits? hne hdigits
    simp [readNumeral?, htake, hdrop, hscale, hn]
  · obtain ⟨htake, hdrop⟩ := @takeWhile_isDigit_append whole ('.' :: (places ++ exponent)) hdigits
      (by rintro c ⟨⟩; rfl)
    obtain ⟨htake', hdrop'⟩ := takeWhile_isDigit_append hplaces hexponent'
    obtain ⟨n, hn⟩ := @Text.exists_digits? (whole ++ places) (by simp [hne])
      (List.forall_mem_append.2 ⟨hdigits, hplaces⟩)
    simp [readNumeral?, htake, hdrop, htake', hdrop', hscale, hn]

/-- The numeral of a float is read as a double. -/
theorem exists_readDouble {text body : List Char} (h : IsFloatNumeral text body) :
    ∃ x, readDouble body = .ok x := by
  obtain ⟨sign, negative, whole, fraction, exponent, mark, -, rfl, hsign, hwhole, hfraction,
    hexponent, -⟩ := h
  obtain ⟨hne, hdigits⟩ := hwhole.digits
  obtain ⟨numeral, hnumeral⟩ := exists_readNumeral? hwhole hfraction hexponent
  have hsplit := splitSign_eq hsign (head?_digits hdigits hne (fraction ++ exponent))
  have hempty : (sign ++ (whole ++ (fraction ++ exponent))).isEmpty = false := by
    simp [hne]
  rw [readDouble, BinaryFormat.read, hempty, hsplit]
  simp only [Bool.false_eq_true, if_false, hnumeral]
  exact ⟨_, rfl⟩

end Edn.Decimal
