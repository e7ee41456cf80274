import Edn.Proofs.Text.Numeral
import Edn.Text.Character
import Edn.Text.Quoted

/-!
# Quoted text and characters read back

* `readCodePoint_hex`: four hexadecimal digits name their character.
* `unescape_escapeAll`: what `quote` writes between the quotes is read as the
  text that it was made from.
* `readCharacter_characterBody`: what stands after the backslash of a
  character is read as the character.
-/

namespace Edn.Text

/-! ## Code points -/

theorem charOfCode?_toNat (c : Char) : charOfCode? c.toNat = some c := by
  have h : c.toNat.isValidChar := c.valid
  rw [charOfCode?, if_pos h, Char.ofNat_toNat]

/-- A character that four digits can name is read back. -/
theorem readCodePoint_hex {c : Char} (h : c.toNat ≤ 0xffff) :
    readCodePoint (hex 4 c.toNat) = .ok c := by
  have hhex : ofHex? (hex 4 c.toNat) = some c.toNat := ofHex?_hex (by omega)
  simp only [readCodePoint, length_hex, if_true, hhex, charOfCode?_toNat]

/-- Four hexadecimal digits, one by one. -/
theorem hex_four (n : Nat) :
    hex 4 n = [hexDigit (n / 16 / 16 / 16 % 16), hexDigit (n / 16 / 16 % 16),
      hexDigit (n / 16 % 16), hexDigit (n % 16)] := rfl

/-! ## Quoted text -/

theorem toNat_le_of_isControl {c : Char} (h : isControl c = true) : c.toNat ≤ 0x9f := by
  simp only [isControl, control, CodeTable.holds] at h
  grind

/-- One character is read as it was written. -/
theorem unescapeOnto_escape (read rest : List Char) (c : Char) :
    unescapeOnto read (escape c ++ rest) = unescapeOnto (c :: read) rest := by
  unfold escape
  split
  case h_8 hquote hback _ _ _ _ _ =>
    split
    · next hc =>
      have hcode := readCodePoint_hex (Nat.le_trans (toNat_le_of_isControl hc) (by decide))
      rw [hex_four] at hcode
      simp only [codePoint, hex_four, List.cons_append, List.nil_append]
      rw [unescapeOnto, hcode]
    · rw [List.singleton_append, unescapeOnto]
      all_goals grind
  all_goals rfl

/-- A text is read as it was written between quotes. -/
theorem unescape_escapeAll (text : List Char) : unescape (escapeAll text) = .ok text := by
  have h : ∀ read, unescapeOnto read (escapeAll text) = .ok (read.reverse ++ text) := by
    induction text with
    | nil => intro read; simp [escapeAll, unescapeOnto]
    | cons c rest ih =>
      intro read
      rw [escapeAll, List.flatMap_cons, unescapeOnto_escape, ← escapeAll, ih]
      simp
  exact h []

/-- Different texts are different between quotes. -/
theorem quote_injective {text other : List Char} (h : quote text = quote other) : text = other := by
  have hescape : escapeAll text = escapeAll other := List.append_cancel_right (List.cons.inj h).2
  have hread := unescape_escapeAll text
  rw [hescape, unescape_escapeAll] at hread
  exact (Except.ok.inj hread).symm

/-- Tells whether a character is visible and is written between quotes as it is. -/
def isBare (c : Char) : Bool :=
  isGraphic c && c != '"' && c != '\\'

theorem isControl_of_isGraphic {c : Char} (h : isGraphic c = true) : isControl c = false := by
  revert h
  simp only [isGraphic, isControl, control, CodeTable.holds,
    show ∀ c d : Char, c ≤ d ↔ c.toNat ≤ d.toNat from fun _ _ => Iff.rfl, Char.reduceToNat]
  grind

theorem escape_of_isBare {c : Char} (h : isBare c = true) : escape c = [c] := by
  unfold escape
  split
  case h_8 =>
    simp only [isBare, Bool.and_eq_true] at h
    rw [if_neg (by simp [isControl_of_isGraphic h.1.1])]
  all_goals exact absurd h (by decide)

/-- A text without control characters, quotes and backslashes is written as it is. -/
theorem escapeAll_of_isBare {text : List Char} (h : ∀ c ∈ text, isBare c = true) :
    escapeAll text = text := by
  induction text with
  | nil => rfl
  | cons c rest ih =>
    obtain ⟨hc, hrest⟩ := List.forall_mem_cons.1 h
    rw [escapeAll, List.flatMap_cons, escape_of_isBare hc, ← escapeAll, ih hrest,
      List.singleton_append]

theorem isBare_of_isDigit {c : Char} (h : isDigit c = true) : isBare c = true := by
  revert h
  simp only [isDigit, isBare, isGraphic, bne_iff_ne, Bool.and_eq_true, decide_eq_true_eq, ne_eq,
    show ∀ c d : Char, c ≤ d ↔ c.toNat ≤ d.toNat from fun _ _ => Iff.rfl, ← Char.toNat_inj,
    Char.reduceToNat]
  omega

/-! ## Characters -/

/-- The name of a character is the name of no other one. -/
theorem namedCharacter?_of_characterName? {c : Char} {name : String}
    (h : characterName? c = some name) : namedCharacter? name.toList = some c := by
  have hmem : (c, name) ∈ namedCharacters := by
    obtain ⟨l₁, l₂, heq, -⟩ := List.lookup_eq_some_iff.1 h
    simp [heq]
  simp only [namedCharacters, List.mem_cons, List.not_mem_nil, or_false] at hmem
  rcases hmem with h | h | h | h <;> cases h <;> decide

/-- A single character is no name. -/
theorem namedCharacter?_singleton (c : Char) : namedCharacter? [c] = none := by
  simp [namedCharacter?, namedCharacters]

/-- A code point is no name. -/
theorem namedCharacter?_codePoint (c : Char) : namedCharacter? (codePoint c) = none := by
  simp [namedCharacter?, namedCharacters, codePoint]

/-- A character is read as it was written after its backslash. -/
theorem readCharacter_characterBody (c : Char) : readCharacter (characterBody c) = .ok c := by
  unfold characterBody
  split
  · next name hname => simp only [readCharacter, namedCharacter?_of_characterName? hname]
  · split
    · simp only [readCharacter, namedCharacter?_singleton]
    · next hplain =>
      simp only [Bool.or_eq_true, decide_eq_true_eq, not_or, Nat.not_lt] at hplain
      have hcode := readCodePoint_hex hplain.2
      rw [hex_four] at hcode
      simp only [readCharacter, namedCharacter?_codePoint]
      simp only [codePoint, hex_four, hcode]

end Edn.Text
