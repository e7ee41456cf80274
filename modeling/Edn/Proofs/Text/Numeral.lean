import Edn.Text.Numeral
import Mathlib.Data.List.TakeWhile
import Mathlib.Tactic.IntervalCases
import Mathlib.Tactic.Linarith
import Mathlib.Tactic.Ring

/-!
# Numerals read back

What `Edn.Text.Numeral` writes, it reads back.

* `digits?_decimal` and `digits?_padded` for natural numbers in base ten.
  `pow_length_decimal_le` and `lt_pow_length_decimal` say how many digits a number
  has, and `head_decimal_ne_zero` that it has no leading zero.
* `ofHex?_hex` for hexadecimal digits of a fixed width.
* `readInt64_signedDecimal` for 64-bit integers.  `readInt64_eq_ok_iff` says what
  is read from any sign and digits, and what is refused.
-/

namespace Edn.Text

/-! ## Digits -/

theorem isDigit_digitChar {n : Nat} (h : n < 10) : isDigit (digitChar n) = true := by
  interval_cases n <;> decide

theorem digitValue?_digitChar {n : Nat} (h : n < 10) : digitValue? (digitChar n) = some n := by
  interval_cases n <;> decide

theorem digitChar_eq_zero_iff {n : Nat} (h : n < 10) : digitChar n = '0' ↔ n = 0 := by
  interval_cases n <;> decide

/-- Digits end where something else follows. -/
theorem takeWhile_isDigit_append {digits rest : List Char} (hdigits : ∀ c ∈ digits, isDigit c = true)
    (hrest : ∀ c ∈ rest.head?, isDigit c = false) :
    (digits ++ rest).takeWhile isDigit = digits ∧ (digits ++ rest).dropWhile isDigit = rest := by
  rw [List.takeWhile_append_of_pos hdigits, List.dropWhile_append_of_pos hdigits]
  cases rest with
  | nil => simp
  | cons c rest =>
    have hc := hrest c rfl
    simp [hc]

/-! ## Base ten -/

theorem decimal_ne_nil (n : Nat) : decimal n ≠ [] := by
  rw [decimal]
  split <;> simp

/-- A decimal consists of digits. -/
theorem isDigit_of_mem_decimal {n : Nat} : ∀ c ∈ decimal n, isDigit c = true := by
  induction n using Nat.strongRecOn with
  | ind n ih =>
    rw [decimal]
    split
    · next h =>
      intro c hc
      rw [List.mem_singleton.1 hc]
      exact isDigit_digitChar h
    · next h =>
      intro c hc
      rcases List.mem_append.1 hc with hc | hc
      · exact ih (n / 10) (by omega) c hc
      · rw [List.mem_singleton.1 hc]
        exact isDigit_digitChar (by omega)

/-- Reading goes on behind a text that has been read. -/
theorem digitsFrom?_append (value : Nat) (first second : List Char) :
    digitsFrom? value (first ++ second) =
      (digitsFrom? value first).bind fun value => digitsFrom? value second := by
  induction first generalizing value with
  | nil => rfl
  | cons c rest ih =>
    simp only [List.cons_append, digitsFrom?]
    cases digitValue? c with
    | none => rfl
    | some d => exact ih _

theorem digitsFrom?_decimal (value n : Nat) :
    digitsFrom? value (decimal n) = some (value * 10 ^ (decimal n).length + n) := by
  induction n using Nat.strongRecOn generalizing value with
  | ind n ih =>
    rw [decimal]
    split
    · next h => simp [digitsFrom?, digitValue?_digitChar h, pushDigit]
    · next h =>
      rw [digitsFrom?_append, ih (n / 10) (by omega)]
      simp only [Option.bind_some, digitsFrom?, digitValue?_digitChar (Nat.mod_lt n (by decide)),
        pushDigit, List.length_append, List.length_cons, List.length_nil, pow_succ, bind]
      congr 1
      have := Nat.div_add_mod n 10
      ring_nf
      omega

/-- A decimal reads back. -/
theorem digits?_decimal (n : Nat) : digits? (decimal n) = some n := by
  have h := digitsFrom?_decimal 0 n
  rw [Nat.zero_mul, Nat.zero_add] at h
  rw [← h, digits?]
  exact decimal_ne_nil n

theorem length_decimal_pos (n : Nat) : 0 < (decimal n).length :=
  List.length_pos_iff.2 (decimal_ne_nil n)

/-- A number with `k` digits is below `10 ^ k`. -/
theorem lt_pow_length_decimal (n : Nat) : n < 10 ^ (decimal n).length := by
  induction n using Nat.strongRecOn with
  | ind n ih =>
    rw [decimal]
    split
    · next h => simpa using h
    · next h =>
      have := ih (n / 10) (by omega)
      rw [List.length_append, List.length_singleton, pow_succ]
      omega

/-- A positive number with `k + 1` digits is not below `10 ^ k`. -/
theorem pow_length_decimal_le {n : Nat} (hn : 0 < n) :
    10 ^ ((decimal n).length - 1) ≤ n := by
  induction n using Nat.strongRecOn with
  | ind n ih =>
    rw [decimal]
    split
    · next h => exact hn
    · next h =>
      have hle := ih (n / 10) (by omega) (by omega)
      have hlen := length_decimal_pos (n / 10)
      rw [List.length_append, List.length_singleton, Nat.add_sub_cancel,
        ← Nat.succ_pred_eq_of_pos hlen, Nat.pred_eq_sub_one, Nat.succ_eq_add_one, pow_succ]
      omega

/-- A positive number has no leading zero. -/
theorem head_decimal_ne_zero {n : Nat} (hn : 0 < n) :
    ∃ c rest, decimal n = c :: rest ∧ c ≠ '0' := by
  induction n using Nat.strongRecOn with
  | ind n ih =>
    rw [decimal]
    split
    · next h =>
      refine ⟨_, _, rfl, fun h0 => ?_⟩
      rw [(digitChar_eq_zero_iff h).1 h0] at hn
      exact absurd hn (by decide)
    · next h =>
      obtain ⟨c, rest, heq, hc⟩ := ih (n / 10) (by omega) (by omega)
      exact ⟨c, rest ++ [digitChar (n % 10)], by rw [heq]; rfl, hc⟩

/-! ## Fixed widths -/

theorem isDigit_of_mem_padded {width n : Nat} : ∀ c ∈ padded width n, isDigit c = true := by
  intro c hc
  rcases List.mem_append.1 hc with hc | hc
  · rw [List.eq_of_mem_replicate hc]
    rfl
  · exact isDigit_of_mem_decimal c hc

/-- Zeros at the end multiply by ten. -/
theorem digitsFrom?_replicate (value zeros : Nat) :
    digitsFrom? value (List.replicate zeros '0') = some (value * 10 ^ zeros) := by
  induction zeros generalizing value with
  | zero => simp [digitsFrom?]
  | succ zeros ih =>
    rw [List.replicate_succ, digitsFrom?]
    simp only [show digitValue? '0' = some 0 from rfl, bind, Option.bind_some, pushDigit,
      Nat.add_zero, ih]
    rw [pow_succ', Nat.mul_assoc]

/-- A padded decimal reads back. -/
theorem digits?_padded (width n : Nat) : digits? (padded width n) = some n := by
  have h : digitsFrom? 0 (padded width n) = some n := by
    rw [padded, digitsFrom?_append, digitsFrom?_replicate, Nat.zero_mul]
    simpa using digitsFrom?_decimal 0 n
  rw [← h, digits?]
  simp [padded, decimal_ne_nil]

theorem length_padded (width n : Nat) :
    (padded width n).length = max width (decimal n).length := by
  simp only [padded, List.length_append, List.length_replicate]
  omega

theorem padded_ne_nil {width n : Nat} (hwidth : 0 < width) : padded width n ≠ [] := by
  intro h
  have := length_padded width n
  rw [h, List.length_nil] at this
  omega

/-- A number that fits is written with exactly `width` digits. -/
theorem length_padded_of_lt {width n : Nat} (hwidth : 0 < width) (h : n < 10 ^ width) :
    (padded width n).length = width := by
  rw [length_padded]
  refine max_eq_left ?_
  rcases Nat.eq_zero_or_pos n with rfl | hn
  · rw [show decimal 0 = ['0'] by rw [decimal]; rfl]
    exact hwidth
  · by_contra hlt
    have := pow_length_decimal_le hn
    have := Nat.pow_le_pow_right (show 0 < 10 by decide)
      (show width ≤ (decimal n).length - 1 by omega)
    omega

/-- A digit stands for a number below ten, and is the digit of that number. -/
theorem eq_digitChar_of_digitValue? {c : Char} {d : Nat} (h : digitValue? c = some d) :
    d < 10 ∧ c = digitChar d := by
  unfold digitValue? isDigit at h
  split at h
  · next hc =>
    cases h
    simp only [Bool.and_eq_true, decide_eq_true_eq] at hc
    have hlow : '0'.toNat ≤ c.toNat := hc.1
    have hhigh : c.toNat ≤ '9'.toNat := hc.2
    have hzero : '0'.toNat = 48 := rfl
    have hnine : '9'.toNat = 57 := rfl
    refine ⟨by omega, ?_⟩
    rw [digitChar, Nat.add_sub_cancel' hlow, Char.ofNat_toNat]
  · cases h

/-- Digits stand for one number each: texts of the same length that stand for the same number, with
numbers in front of them, are the same, and so are the numbers. -/
theorem eq_of_digitsFrom? {first second : List Char} {value other n : Nat}
    (hlength : first.length = second.length) (hfirst : digitsFrom? value first = some n)
    (hsecond : digitsFrom? other second = some n) : value = other ∧ first = second := by
  induction first generalizing second value other with
  | nil =>
    cases List.length_eq_zero_iff.1 hlength.symm
    rw [← hfirst] at hsecond
    exact ⟨(Option.some.inj hsecond).symm, rfl⟩
  | cons c rest ih =>
    cases second with
    | nil => cases hlength
    | cons c' rest' =>
      obtain ⟨d, hd, hrest⟩ := Option.bind_eq_some_iff.1 hfirst
      obtain ⟨d', hd', hrest'⟩ := Option.bind_eq_some_iff.1 hsecond
      obtain ⟨hpush, heq⟩ := ih (Nat.succ.inj hlength) hrest hrest'
      obtain ⟨hlt, hc⟩ := eq_digitChar_of_digitValue? hd
      obtain ⟨hlt', hc'⟩ := eq_digitChar_of_digitValue? hd'
      unfold pushDigit at hpush
      have hdigit : d = d' := by omega
      exact ⟨by omega, by rw [hc, hc', hdigit, heq]⟩

theorem lt_of_digitsFrom? {text : List Char} {value n : Nat} (h : digitsFrom? value text = some n) :
    n < (value + 1) * 10 ^ text.length := by
  induction text generalizing value with
  | nil =>
    cases h
    simp
  | cons c rest ih =>
    obtain ⟨d, hd, hrest⟩ := Option.bind_eq_some_iff.1 h
    obtain ⟨hdigit, -⟩ := eq_digitChar_of_digitValue? hd
    rw [List.length_cons, pow_succ']
    refine Nat.lt_of_lt_of_le (ih hrest) ?_
    rw [← Nat.mul_assoc]
    exact Nat.mul_le_mul_right _ (by unfold pushDigit; omega)

/-- A number has no more digits than the text that it is read from. -/
theorem lt_of_digits? {text : List Char} {n : Nat} (h : digits? text = some n) :
    n < 10 ^ text.length := by
  cases text with
  | nil => cases h
  | cons c rest => simpa using lt_of_digitsFrom? h

/-- A text of digits is the padded decimal of its number. -/
theorem eq_padded_of_digits? {text : List Char} {n : Nat} (h : digits? text = some n) :
    text = padded text.length n := by
  have hne : text ≠ [] := by
    intro hnil
    rw [hnil] at h
    cases h
  have hlength := length_padded_of_lt (List.length_pos_iff.2 hne) (lt_of_digits? h)
  have hpadded := digits?_padded text.length n
  rw [digits?] at h hpadded
  · exact (eq_of_digitsFrom? hlength.symm h hpadded).2
  · exact padded_ne_nil (List.length_pos_iff.2 hne)
  · exact hne

theorem isDigit_of_digits? {text : List Char} {n : Nat} (h : digits? text = some n) :
    ∀ c ∈ text, isDigit c = true := by
  rw [eq_padded_of_digits? h]
  exact isDigit_of_mem_padded

/-! ## Base sixteen -/

theorem hexValue?_hexDigit {n : Nat} (h : n < 16) : hexValue? (hexDigit n) = some n := by
  interval_cases n <;> decide

theorem length_hex (width n : Nat) : (hex width n).length = width := by
  induction width generalizing n with
  | zero => rfl
  | succ width ih => simp [hex, ih]

/-- What holds of the sixteen digits holds of all characters of a number. -/
theorem forall_mem_hex {p : Char → Prop} (hp : ∀ k < 16, p (hexDigit k)) (width n : Nat) :
    ∀ c ∈ hex width n, p c := by
  induction width generalizing n with
  | zero => exact List.forall_mem_nil _
  | succ width ih =>
    rw [hex, List.forall_mem_append]
    exact ⟨ih _, by simpa using hp _ (Nat.mod_lt n (by decide))⟩

theorem ofHexFrom?_append (value : Nat) (first second : List Char) :
    ofHexFrom? value (first ++ second) =
      (ofHexFrom? value first).bind fun value => ofHexFrom? value second := by
  induction first generalizing value with
  | nil => rfl
  | cons c rest ih =>
    simp only [List.cons_append, ofHexFrom?]
    cases hexValue? c with
    | none => rfl
    | some d => exact ih _

/-- The last digits of a number stand for its remainder. -/
theorem ofHexFrom?_hex (value width n : Nat) :
    ofHexFrom? value (hex width n) = some (value * 16 ^ width + n % 16 ^ width) := by
  induction width generalizing n with
  | zero => simp [hex, ofHexFrom?, Nat.mod_one]
  | succ width ih =>
    rw [hex, ofHexFrom?_append, ih]
    simp only [Option.bind_some, ofHexFrom?, hexValue?_hexDigit (Nat.mod_lt n (by decide)), bind]
    rw [pow_succ', Nat.mod_mul]
    congr 1
    ring

/-- Hexadecimal digits read back, if there are enough of them. -/
theorem ofHex?_hex {width n : Nat} (h : n < 16 ^ width) : ofHex? (hex width n) = some n := by
  rw [ofHex?, ofHexFrom?_hex, Nat.zero_mul, Nat.zero_add, Nat.mod_eq_of_lt h]

/-- A non-empty text of digits stands for a number. -/
theorem exists_digits? {text : List Char} (hne : text ≠ [])
    (hdigits : ∀ c ∈ text, isDigit c = true) : ∃ n, digits? text = some n := by
  have all : ∀ (text : List Char) (value : Nat), (∀ c ∈ text, isDigit c = true) →
      ∃ n, digitsFrom? value text = some n := by
    intro text
    induction text with
    | nil =>
      intro value _
      exact ⟨value, rfl⟩
    | cons c rest ih =>
      intro value hdigits
      obtain ⟨hc, hrest⟩ := List.forall_mem_cons.1 hdigits
      rw [digitsFrom?, digitValue?, if_pos hc]
      exact ih _ hrest
  rw [digits?]
  · exact all text 0 hdigits
  · exact hne

/-! ## Signed 64-bit integers -/

/-- An optional sign, and whether it is a minus sign. -/
inductive IsSign : List Char → (negative : Bool) → Prop where
  | absent : IsSign [] false
  | plus : IsSign ['+'] false
  | minus : IsSign ['-'] true

theorem IsSign.not_mem {sign : List Char} {negative : Bool} {c : Char} (h : IsSign sign negative)
    (hplus : c ≠ '+') (hminus : c ≠ '-') : c ∉ sign := by
  cases h <;> simp [hplus, hminus]

/-- The integer of a sign and a magnitude. -/
def signedValue (negative : Bool) (magnitude : Nat) : Int :=
  if negative then -magnitude else magnitude

/-- A sign and a magnitude give the 64-bit integer that has their value, and no other. -/
theorem int64OfMagnitude_eq_ok_iff {negative : Bool} {magnitude : Nat} {x : Int64} :
    int64OfMagnitude negative magnitude = .ok x ↔ x.toInt = signedValue negative magnitude := by
  have hlow : -(9223372036854775808 : Int) ≤ x.toInt := x.le_toInt
  have hhigh : x.toInt < 9223372036854775808 := x.toInt_lt
  have held : ∀ value : Int, -(9223372036854775808 : Int) ≤ value → value < 9223372036854775808 →
      (Int64.ofInt value = x ↔ x.toInt = value) := by
    intro value hle hlt
    constructor
    · rintro rfl
      exact Int64.toInt_ofInt_of_le hle hlt
    · rintro rfl
      exact Int64.ofInt_toInt x
  unfold int64OfMagnitude int64Bound signedValue
  cases negative with
  | true =>
    rw [if_pos rfl, if_pos rfl]
    split
    · next hle =>
      rw [Except.ok.injEq]
      exact held _ (by omega) (by omega)
    · next hle =>
      simp only [reduceCtorEq, false_iff]
      omega
  | false =>
    rw [if_neg Bool.false_ne_true, if_neg Bool.false_ne_true]
    split
    · next hlt =>
      rw [Except.ok.injEq]
      exact held _ (by omega) (by omega)
    · next hlt =>
      simp only [reduceCtorEq, false_iff]
      omega

/-- A smaller magnitude fits where a greater one does. -/
theorem int64OfMagnitude_of_le {negative : Bool} {m n : Nat} {x : Int64} (hle : m ≤ n)
    (h : int64OfMagnitude negative n = .ok x) : ∃ y, int64OfMagnitude negative m = .ok y := by
  unfold int64OfMagnitude at h ⊢
  grind

/-- A number does not become smaller by more digits. -/
theorem le_of_digitsFrom? {text : List Char} {value n : Nat} (h : digitsFrom? value text = some n) :
    value ≤ n := by
  induction text generalizing value with
  | nil =>
    cases h
    exact Nat.le_refl _
  | cons c rest ih =>
    obtain ⟨d, -, hd⟩ := Option.bind_eq_some_iff.1 h
    have := ih hd
    unfold pushDigit at this
    omega

/-- Digits are read to the number that they stand for, if 64 bits hold it, and are refused
otherwise. -/
theorem readMagnitude_eq_ok_iff {negative : Bool} {text : List Char} {value n : Nat} {x : Int64}
    (h : digitsFrom? value text = some n) :
    readMagnitude negative value text = .ok x ↔ int64OfMagnitude negative n = .ok x := by
  induction text generalizing value with
  | nil =>
    cases h
    rfl
  | cons c rest ih =>
    obtain ⟨d, hd, hrest⟩ := Option.bind_eq_some_iff.1 h
    rw [readMagnitude, hd]
    dsimp only
    split
    · next fault hfault =>
      -- what is too large already does not become smaller
      refine ⟨nofun, fun hx => ?_⟩
      obtain ⟨y, hy⟩ := int64OfMagnitude_of_le (le_of_digitsFrom? hrest) hx
      rw [hfault] at hy
      cases hy
    · exact ih hrest

/-- A sign and digits are read as their value, if 64 bits hold it, and are refused otherwise. -/
theorem readInt64_eq_ok_iff {sign digits : List Char} {negative : Bool} {n : Nat} {x : Int64}
    (hsign : IsSign sign negative) (hdigits : ∀ c ∈ digits, isDigit c = true)
    (hvalue : digits? digits = some n) :
    readInt64 (sign ++ digits) = .ok x ↔ x.toInt = signedValue negative n := by
  cases digits with
  | nil => cases hvalue
  | cons c rest =>
    have hc := hdigits c List.mem_cons_self
    have hread : readInt64 (sign ++ c :: rest) = readMagnitude negative 0 (c :: rest) := by
      have hplus : c ≠ '+' := by rintro rfl; exact absurd hc (by decide)
      have hminus : c ≠ '-' := by rintro rfl; exact absurd hc (by decide)
      cases hsign with
      | absent =>
        unfold readInt64
        split <;> simp_all
      | plus => rfl
      | minus => rfl
    rw [hread, readMagnitude_eq_ok_iff hvalue, int64OfMagnitude_eq_ok_iff]

/-- A 64-bit integer reads back. -/
theorem readInt64_signedDecimal (x : Int64) : readInt64 (signedDecimal x.toInt) = .ok x := by
  have hdigits := isDigit_of_mem_decimal (n := x.toInt.natAbs)
  have hvalue := digits?_decimal x.toInt.natAbs
  unfold signedDecimal
  split
  · next hneg =>
    refine (readInt64_eq_ok_iff .minus hdigits hvalue).2 ?_
    rw [signedValue, if_pos rfl]
    omega
  · next hneg =>
    refine (readInt64_eq_ok_iff .absent hdigits hvalue).2 ?_
    rw [signedValue, if_neg Bool.false_ne_true]
    omega

end Edn.Text
