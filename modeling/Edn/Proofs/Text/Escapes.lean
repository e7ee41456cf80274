import Mathlib.Data.List.Basic
import Edn.Proofs.Text.Escaped

/-!
# Escapes

Between quotes, every backslash has to start an escape: a letter that stands
for one character, or the code point of a character in four hexadecimal
digits.

* `IsHexCode` are the code points in four digits, and
  `exists_readCodePoint_iff` says which of them are read.
* `HasEscape` says where the escapes of a text are, and `StartsEscape` what an
  escape looks like.
* `exists_unescape_eq_error_iff` is the result: a text is refused exactly if
  it has a backslash without an escape.
* `hasEscape_nil_of_unfinished`: it is unfinished only if the last character
  is such a backslash.
-/

namespace Edn.Text

/-! ## Code points in four digits -/

/-- The code points that belong to no character. -/
def IsSurrogate (code : Nat) : Prop :=
  0xd800 ≤ code ∧ code ≤ 0xdfff

/-- Four hexadecimal digits, and the code point that they stand for. -/
structure IsHexCode (digits : List Char) (code : Nat) : Prop where
  length : digits.length = 4
  value : ofHex? digits = some code

theorem hexValue?_lt {c : Char} {value : Nat} (h : hexValue? c = some value) : value < 16 := by
  have hle : ∀ a b : Char, a ≤ b ↔ a.toNat ≤ b.toNat := fun _ _ => Iff.rfl
  simp only [hexValue?, isDigit, hle, Char.reduceToNat, Bool.and_eq_true, decide_eq_true_eq] at h
  grind

/-- Each digit makes a number at most sixteen times as great. -/
theorem ofHexFrom?_lt {text : List Char} {value n : Nat} (h : ofHexFrom? value text = some n) :
    n < (value + 1) * 16 ^ text.length := by
  induction text generalizing value with
  | nil =>
    cases h
    simp
  | cons c rest ih =>
    obtain ⟨digit, hdigit, hrest⟩ := Option.bind_eq_some_iff.1 h
    have hlt := hexValue?_lt hdigit
    calc n < (value * 16 + digit + 1) * 16 ^ rest.length := ih hrest
      _ ≤ ((value + 1) * 16) * 16 ^ rest.length := Nat.mul_le_mul_right _ (by omega)
      _ = (value + 1) * 16 ^ (c :: rest).length := by
        rw [List.length_cons, Nat.pow_succ', Nat.mul_assoc]

/-- What stands for a number consists of digits. -/
theorem exists_hexValue?_of_mem {text : List Char} {value n : Nat}
    (h : ofHexFrom? value text = some n) : ∀ c ∈ text, ∃ digit, hexValue? c = some digit := by
  induction text generalizing value with
  | nil => exact List.forall_mem_nil _
  | cons c rest ih =>
    obtain ⟨digit, hdigit, hrest⟩ := Option.bind_eq_some_iff.1 h
    exact List.forall_mem_cons.2 ⟨⟨digit, hdigit⟩, ih hrest⟩

/-- Digits stand for a number. -/
theorem exists_ofHexFrom? {text : List Char} (h : ∀ c ∈ text, ∃ digit, hexValue? c = some digit)
    (value : Nat) : ∃ n, ofHexFrom? value text = some n := by
  induction text generalizing value with
  | nil => exact ⟨value, rfl⟩
  | cons c rest ih =>
    obtain ⟨⟨digit, hdigit⟩, hrest⟩ := List.forall_mem_cons.1 h
    obtain ⟨n, hn⟩ := ih hrest (value * 16 + digit)
    refine ⟨n, ?_⟩
    rw [ofHexFrom?, hdigit]
    exact hn

section HexCodes

variable {digits : List Char} {code : Nat}

theorem IsHexCode.lt (h : IsHexCode digits code) : code < 0x10000 := by
  have hlt := ofHexFrom?_lt h.value
  rwa [h.length] at hlt

/-- A backslash is no digit. -/
theorem IsHexCode.ne_backslash (h : IsHexCode digits code) : ∀ c ∈ digits, c ≠ '\\' := by
  rintro c hc rfl
  obtain ⟨digit, hdigit⟩ := exists_hexValue?_of_mem h.value _ hc
  revert hdigit
  simp [show hexValue? '\\' = none by decide]

/-- Of the code points in four digits, the surrogates alone belong to no character. -/
theorem isValidChar_iff (h : code < 0x10000) : code.isValidChar ↔ ¬IsSurrogate code := by
  unfold Nat.isValidChar IsSurrogate
  omega

/-- The code point is read if it belongs to a character. -/
theorem IsHexCode.exists_readCodePoint_iff (h : IsHexCode digits code) :
    (∃ c, readCodePoint digits = .ok c) ↔ ¬IsSurrogate code := by
  rw [← isValidChar_iff h.lt, readCodePoint, if_pos h.length, h.value]
  by_cases hvalid : code.isValidChar
  · simp [charOfCode?, hvalid]
  · simp [charOfCode?, hvalid]

theorem IsHexCode.readCodePoint_of_surrogate (h : IsHexCode digits code) (hcode : IsSurrogate code) :
    readCodePoint digits = .error (.noCharacter digits) := by
  have hvalid : ¬code.isValidChar := by
    rw [isValidChar_iff h.lt]
    exact not_not_intro hcode
  rw [readCodePoint, if_pos h.length, h.value]
  simp [charOfCode?, hvalid]

/-- Nothing but a code point in four digits is read. -/
theorem exists_readCodePoint_iff :
    (∃ c, readCodePoint digits = .ok c) ↔ ∃ code, IsHexCode digits code ∧ ¬IsSurrogate code := by
  constructor
  · rintro ⟨c, hread⟩
    have hcode : ∃ code, IsHexCode digits code := by
      unfold readCodePoint at hread
      split at hread
      · next hlength =>
        cases hvalue : ofHex? digits with
        | none => simp [hvalue] at hread
        | some code => exact ⟨code, hlength, hvalue⟩
      · cases hread
    obtain ⟨code, hcode⟩ := hcode
    exact ⟨code, hcode, hcode.exists_readCodePoint_iff.1 ⟨c, hread⟩⟩
  · rintro ⟨code, hcode, hnot⟩
    exact hcode.exists_readCodePoint_iff.2 hnot

/-- Behind the backslash of a character, a code point is read in the same way. -/
theorem IsHexCode.readCharacter_eq (h : IsHexCode digits code) :
    readCharacter ('u' :: digits) = (readCodePoint digits).mapError .codePoint := by
  have hname : namedCharacter? ('u' :: digits) = none := by
    simp [namedCharacter?, namedCharacters]
  obtain ⟨a, b, c, d, rfl⟩ := List.length_eq_four.1 h.length
  simp only [readCharacter, hname]
  cases readCodePoint [a, b, c, d] <;> rfl

end HexCodes

/-! ## Escapes in a text -/

/-- The letters that stand for a character behind a backslash. -/
def escapeLetters : List Char :=
  ['t', 'b', 'n', 'r', 'f', '\\', '\'', '"']

/-- A text that starts with an escape, the backslash left out. -/
inductive StartsEscape : List Char → Prop where
  | letter {letter : Char} {rest : List Char} (h : letter ∈ escapeLetters) :
      StartsEscape (letter :: rest)
  | codePoint {digits rest : List Char} {code : Nat} (hdigits : IsHexCode digits code)
      (hcode : ¬IsSurrogate code) : StartsEscape ('u' :: (digits ++ rest))

/-- There is a backslash with the text `behind` behind it.  It takes the next character along, which is
then no such backslash itself. -/
inductive HasEscape : (text behind : List Char) → Prop where
  | here {behind : List Char} : HasEscape ('\\' :: behind) behind
  | plain {c : Char} {rest behind : List Char} (hc : c ≠ '\\') (h : HasEscape rest behind) :
      HasEscape (c :: rest) behind
  | skip {c : Char} {rest behind : List Char} (h : HasEscape rest behind) :
      HasEscape ('\\' :: c :: rest) behind

/-- Some backslash starts no escape. -/
def HasBadEscape (text : List Char) : Prop :=
  ∃ behind, HasEscape text behind ∧ ¬StartsEscape behind

section Escapes

variable {c : Char} {text rest behind : List Char}

theorem exists_escaped?_iff {letter : Char} :
    (∃ c, escaped? letter = some c) ↔ letter ∈ escapeLetters := by
  unfold escaped? escapeLetters
  split <;> simp_all

theorem startsEscape_cons_iff (hc : c ≠ 'u') : StartsEscape (c :: rest) ↔ c ∈ escapeLetters := by
  constructor
  · intro h
    cases h with
    | letter h => exact h
    | codePoint => exact absurd rfl hc
  · exact .letter

/-- Behind `\u`, four digits are wanted. -/
theorem exists_hexCode_of_startsEscape (h : StartsEscape ('u' :: rest)) :
    ∃ digits more code, rest = digits ++ more ∧ IsHexCode digits code ∧ ¬IsSurrogate code := by
  cases h with
  | letter h => exact absurd h (by decide)
  | codePoint hdigits hcode => exact ⟨_, _, _, rfl, hdigits, hcode⟩

theorem startsEscape_codePoint_iff {digits : List Char} (hlength : digits.length = 4) :
    StartsEscape ('u' :: (digits ++ rest)) ↔ ∃ c, readCodePoint digits = .ok c := by
  rw [exists_readCodePoint_iff]
  constructor
  · intro h
    obtain ⟨digits', more, code, heq, hcode, hnot⟩ := exists_hexCode_of_startsEscape h
    obtain ⟨rfl, -⟩ := List.append_inj heq (hlength.trans hcode.length.symm)
    exact ⟨code, hcode, hnot⟩
  · rintro ⟨code, hcode, hnot⟩
    exact .codePoint hcode hnot

theorem not_hasBadEscape_nil : ¬HasBadEscape [] := by
  rintro ⟨behind, ⟨⟩, -⟩

theorem hasBadEscape_cons_iff (hc : c ≠ '\\') : HasBadEscape (c :: text) ↔ HasBadEscape text := by
  constructor
  · rintro ⟨behind, hescape, hbad⟩
    cases hescape with
    | here => exact absurd rfl hc
    | plain _ h => exact ⟨behind, h, hbad⟩
    | skip => exact absurd rfl hc
  · rintro ⟨behind, hescape, hbad⟩
    exact ⟨behind, .plain hc hescape, hbad⟩

theorem hasBadEscape_append_iff {first : List Char} (h : ∀ c ∈ first, c ≠ '\\') :
    HasBadEscape (first ++ text) ↔ HasBadEscape text := by
  induction first with
  | nil => rfl
  | cons c first ih =>
    obtain ⟨hc, hfirst⟩ := List.forall_mem_cons.1 h
    rw [List.cons_append, hasBadEscape_cons_iff hc, ih hfirst]

theorem hasBadEscape_of_not_startsEscape (h : ¬StartsEscape text) : HasBadEscape ('\\' :: text) :=
  ⟨text, .here, h⟩

theorem hasBadEscape_backslash_iff (h : StartsEscape (c :: text)) :
    HasBadEscape ('\\' :: c :: text) ↔ HasBadEscape text := by
  constructor
  · rintro ⟨behind, hescape, hbad⟩
    cases hescape with
    | here => exact absurd h hbad
    | plain hc => exact absurd rfl hc
    | skip hescape => exact ⟨behind, hescape, hbad⟩
  · rintro ⟨behind, hescape, hbad⟩
    exact ⟨behind, .skip hescape, hbad⟩

/-! ## Reading escapes -/

/-- What reading takes for a plain character is no backslash. -/
theorem ne_backslash_of_unescaped (hend : c = '\\' → rest = [] → False)
    (hletter : ∀ (letter : Char) (more : List Char), c = '\\' → rest = letter :: more → False) :
    c ≠ '\\' := by
  intro hc
  cases rest with
  | nil => exact hend hc rfl
  | cons letter more => exact hletter letter more hc rfl

/-- A text is refused exactly if one of its backslashes starts no escape. -/
theorem exists_unescapeOnto_eq_error_iff {read : List Char} :
    (∃ fault, unescapeOnto read text = .error fault) ↔ HasBadEscape text := by
  fun_induction unescapeOnto read text with
  | case1 read => simp [not_hasBadEscape_nil]
  | case2 read =>
    have hbad : HasBadEscape ['\\'] := hasBadEscape_of_not_startsEscape nofun
    simpa using hbad
  | case3 read a b c d rest fault hread =>
    have hnone : ¬StartsEscape ('u' :: ([a, b, c, d] ++ rest)) := by
      rw [startsEscape_codePoint_iff rfl, hread]
      simp
    have hbad := hasBadEscape_of_not_startsEscape hnone
    simpa using hbad
  | case4 read a b c d rest char hread ih =>
    have hstarts : StartsEscape ('u' :: ([a, b, c, d] ++ rest)) :=
      (startsEscape_codePoint_iff rfl).2 ⟨char, hread⟩
    obtain ⟨code, hcode, -⟩ := exists_readCodePoint_iff.1 ⟨char, hread⟩
    have hrest : HasBadEscape ([a, b, c, d] ++ rest) ↔ HasBadEscape rest :=
      hasBadEscape_append_iff hcode.ne_backslash
    rw [ih, ← hrest]
    exact (hasBadEscape_backslash_iff hstarts).symm
  | case5 read digits hshort =>
    have hnone : ¬StartsEscape ('u' :: digits) := by
      intro h
      obtain ⟨four, more, code, rfl, hcode, -⟩ := exists_hexCode_of_startsEscape h
      obtain ⟨a, b, c, d, rfl⟩ := List.length_eq_four.1 hcode.length
      exact hshort a b c d more rfl
    have hbad := hasBadEscape_of_not_startsEscape hnone
    simpa using hbad
  | case6 read letter rest hlong hshort hnone =>
    have hletter : ¬StartsEscape (letter :: rest) := by
      rw [startsEscape_cons_iff hshort, ← exists_escaped?_iff, hnone]
      simp
    have hbad := hasBadEscape_of_not_startsEscape hletter
    simpa using hbad
  | case7 read letter rest hlong hshort char hsome ih =>
    have hletter : StartsEscape (letter :: rest) :=
      .letter (exists_escaped?_iff.1 ⟨char, hsome⟩)
    rw [ih, hasBadEscape_backslash_iff hletter]
  | case8 read char rest hend hlong hshort hletter ih =>
    rw [ih, hasBadEscape_cons_iff (ne_backslash_of_unescaped hend hletter)]

/-- A text that stands between quotes is refused exactly if one of its backslashes starts no escape. -/
theorem exists_unescape_eq_error_iff :
    (∃ fault, unescape text = .error fault) ↔ HasBadEscape text :=
  exists_unescapeOnto_eq_error_iff

/-- Characters in front that are no backslashes do not matter. -/
theorem HasEscape.append_left {first : List Char} (hfirst : ∀ c ∈ first, c ≠ '\\')
    (h : HasEscape text behind) : HasEscape (first ++ text) behind := by
  induction first with
  | nil => exact h
  | cons c first ih =>
    obtain ⟨hc, hfirst⟩ := List.forall_mem_cons.1 hfirst
    exact .plain hc (ih hfirst)

/-- A text is unfinished only if nothing stands behind one of its backslashes. -/
theorem hasEscape_nil_of_unfinished {read : List Char}
    (h : unescapeOnto read text = .error .unfinished) : HasEscape text [] := by
  fun_induction unescapeOnto read text with
  | case1 => cases h
  | case2 => exact .here
  | case3 => cases h
  | case4 read a b c d rest char hread ih =>
    obtain ⟨code, hcode, -⟩ := exists_readCodePoint_iff.1 ⟨char, hread⟩
    have hrest : HasEscape ([a, b, c, d] ++ rest) [] := (ih h).append_left hcode.ne_backslash
    exact .skip hrest
  | case5 => cases h
  | case6 => cases h
  | case7 read letter rest hlong hshort char hsome ih => exact .skip (ih h)
  | case8 read char rest hend hlong hshort hletter ih =>
    exact .plain (ne_backslash_of_unescaped hend hletter) (ih h)

end Escapes

end Edn.Text
