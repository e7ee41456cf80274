import Edn.Decimal.Layout
import Edn.Proofs.Decimal.Shortest

/-!
# Floats read back

* `significantOf_shape` says how the significant digits of a number look: the
  first is followed by a point if there are more.
* `readNumeral?_scientific` reads digits in the form of the notation.
* `readDouble_scientific` is the result: the text of a finite float is read
  as that float, the sign of zero included.
-/

namespace Edn.Decimal

open Text (digits? digitsFrom? isDigit decimal padded takeWhile_isDigit_append)

/-! ## Numerals in scientific form -/

/-- The sign of an exponent is read with its digits. -/
theorem readExponent?_padded (e : ℤ) :
    readExponent? ((if e < 0 then '-' else '+') :: padded 2 e.natAbs) = some e := by
  have h := Text.digits?_padded 2 e.natAbs
  split
  · next hneg =>
    simp only [readExponent?, splitSign, h, if_true]
    exact congrArg some (show -(e.natAbs : ℤ) = e by omega)
  · next hneg =>
    simp only [readExponent?, splitSign, h, Bool.false_eq_true, if_false]
    exact congrArg some (show (e.natAbs : ℤ) = e by omega)

/-- Digits with a point after the first, and an exponent, are a numeral. -/
theorem readNumeral?_scientific {d : Char} {places : List Char} {n : ℕ} {e : ℤ}
    (hdigit : ∀ c ∈ d :: places, isDigit c = true) (hvalue : digits? (d :: places) = some n) :
    readNumeral? (mantissa (d :: places) ++
        'E' :: (if e < 0 then '-' else '+') :: padded 2 e.natAbs) =
      some ⟨n, ((d :: places).dropWhile (· == '0')).length, e - places.length⟩ := by
  have hexponent := readExponent?_padded e
  generalize hscale : 'E' :: (if e < 0 then '-' else '+') :: padded 2 e.natAbs = scale
  have hread : readScale? scale = some e := by
    rw [← hscale]
    simpa [readScale?] using hexponent
  have hhead : ∀ c ∈ scale.head?, isDigit c = false := by
    rw [← hscale]
    rintro c ⟨⟩
    rfl
  have hscaleStart : ∀ rest, scale ≠ '.' :: rest := by
    rw [← hscale]
    simp
  have hd := hdigit d List.mem_cons_self
  cases places with
  | nil =>
    obtain ⟨htake, hdrop⟩ := @takeWhile_isDigit_append [d] _ (by simpa using hd) hhead
    simp only [readNumeral?, mantissa, htake, hdrop]
    simp [hvalue, hread]
  | cons p places =>
    obtain ⟨htake, hdrop⟩ := @takeWhile_isDigit_append (p :: places) _
      (fun c hc => hdigit c (List.mem_cons_of_mem _ hc)) hhead
    simp only [readNumeral?, mantissa, List.cons_append, List.takeWhile_cons_of_pos hd,
      List.dropWhile_cons_of_pos hd]
    rw [List.takeWhile_cons_of_neg (by decide), List.dropWhile_cons_of_neg (by decide)]
    simp only [List.cons_append] at htake hdrop
    simp only [htake, hdrop, hread]
    simp [hvalue]

/-! ## Significant digits -/

/-- Only zeros are dropped. -/
theorem dropZeros_append (digits : List Char) :
    ∃ z, digits = dropZeros digits ++ List.replicate z '0' := by
  refine ⟨(digits.reverse.takeWhile (· == '0')).length, ?_⟩
  have hzeros : digits.reverse.takeWhile (· == '0') =
      List.replicate (digits.reverse.takeWhile (· == '0')).length '0' := by
    rw [List.eq_replicate_iff]
    exact ⟨rfl, fun c hc => by simpa using List.mem_takeWhile_imp hc⟩
  have := congrArg List.reverse
    (List.takeWhile_append_dropWhile (p := (· == '0')) (l := digits.reverse)).symm
  rw [List.reverse_reverse, List.reverse_append, hzeros, List.reverse_replicate] at this
  exact this

/-- The decimal of a positive number without its final zeros: digits, of which the first is not
zero, and the number is theirs but for a power of ten. -/
theorem dropZeros_decimal {n : ℕ} (hn : 0 < n) :
    ∃ d places m z, dropZeros (decimal n) = d :: places ∧ d ≠ '0' ∧
      (∀ c ∈ d :: places, isDigit c = true) ∧ digits? (d :: places) = some m ∧ n = m * 10 ^ z ∧
      (decimal n).length = places.length + 1 + z := by
  obtain ⟨z, hz⟩ := dropZeros_append (decimal n)
  obtain ⟨d, rest, hdecimal, hd⟩ := Text.head_decimal_ne_zero hn
  cases hkept : dropZeros (decimal n) with
  | nil =>
    rw [hkept, List.nil_append] at hz
    rw [hz] at hdecimal
    have : d ∈ List.replicate z '0' := by rw [hdecimal]; exact List.mem_cons_self
    exact absurd (List.eq_of_mem_replicate this) hd
  | cons c places =>
    rw [hkept] at hz
    have hc : c = d := by
      rw [hz] at hdecimal
      exact (List.cons.inj hdecimal).1
    have hdigits : ∀ c' ∈ c :: places, isDigit c' = true := fun c' hc' =>
      Text.isDigit_of_mem_decimal c' (by rw [hz]; exact List.mem_append_left _ hc')
    have hvalue := Text.digits?_decimal n
    rw [hz, digits?, Text.digitsFrom?_append] at hvalue
    · obtain ⟨m, hm, hn⟩ := Option.bind_eq_some_iff.1 hvalue
      rw [Text.digitsFrom?_replicate, Option.some_inj] at hn
      refine ⟨c, places, m, z, rfl, hc ▸ hd, hdigits, hm, hn.symm, ?_⟩
      rw [hz, List.length_append, List.length_cons, List.length_replicate]
    · simp

/-- The significant digits of a number: the first is one of `0` to `9`, and so are the others. -/
theorem significantOf_shape (word : ℕ) :
    ∃ d places, (significantOf word).digits = d :: places ∧
      ∀ c ∈ d :: places, isDigit c = true := by
  unfold significantOf
  split
  · exact ⟨'0', [], rfl, List.all_eq_true.1 rfl⟩
  · next hword =>
    obtain ⟨hpos, -⟩ := shortestDouble_spec (Nat.pos_of_ne_zero hword)
    obtain ⟨d, places, -, -, heq, -, hdigits, -⟩ := dropZeros_decimal hpos
    exact ⟨d, places, heq, hdigits⟩

/-- The numeral of a finite magnitude is read as that magnitude. -/
theorem read_significant {word : ℕ} (hfinite : word < double.infinity) :
    ∃ n, readNumeral? (mantissa (significantOf word).digits ++ 'E' ::
        (if (significantOf word).exponent < 0 then '-' else '+') ::
          padded 2 (significantOf word).exponent.natAbs) = some n ∧ double.ofNumeral n = word := by
  rcases Nat.eq_zero_or_pos word with rfl | hword
  · exact ⟨_, @readNumeral?_scientific '0' [] 0 0 (List.all_eq_true.1 rfl) rfl, rfl⟩
  · obtain ⟨hpos, hholds⟩ := shortestDouble_spec hword
    obtain ⟨d, places, m, z, heq, hd, hdigits, hvalue, hm, hlength⟩ := dropZeros_decimal hpos
    unfold significantOf
    rw [if_neg hword.ne']
    unfold Scaled.significant
    dsimp only
    rw [heq]
    refine ⟨_, readNumeral?_scientific hdigits hvalue, ?_⟩
    have hcount : ((d :: places).dropWhile (· == '0')).length = places.length + 1 := by
      rw [List.dropWhile_cons_of_neg (by simpa using hd), List.length_cons]
    have hten : 0 < 10 ^ z := Nat.pow_pos (by decide)
    have hlow := Text.pow_length_decimal_le hpos
    have hhigh := Text.lt_pow_length_decimal (shortestDouble word).digits
    rw [hlength, show places.length + 1 + z - 1 = places.length + z by omega, hm, pow_add] at hlow
    rw [hlength, pow_add] at hhigh
    refine ofNumeral_eq hword hfinite (Nat.pos_of_ne_zero fun h => ?_) ?_ ?_ ?_ ?_
    · dsimp only at h
      rw [hm, h, Nat.zero_mul] at hpos
      exact Nat.lt_irrefl 0 hpos
    · dsimp only
      omega
    · dsimp only
      rw [hcount]
      exact Nat.le_of_mul_le_mul_right hlow hten
    · dsimp only
      rw [hcount]
      rw [hm] at hhigh
      exact Nat.lt_of_mul_lt_mul_right hhigh
    · convert hholds using 1
      dsimp only
      rw [hlength, Scaled.value, hm, show (shortestDouble word).exponent +
        ((places.length + 1 + z : ℕ) : ℤ) - 1 - places.length =
          z + (shortestDouble word).exponent by push_cast; ring, zpow_add₀ (by norm_num),
        zpow_natCast]
      push_cast
      ring

/-! ## Floats -/

namespace Double

/-- A float consists of its sign and its magnitude. -/
theorem ofParts_self (x : Double) : ofParts x.isNegative x.magnitude = x := by
  obtain ⟨bits⟩ := x
  have hbits : bits.toNat < 2 ^ 64 := bits.toNat_lt
  simp only [ofParts, isNegative, magnitude, show double.signBit = 2 ^ 63 from rfl,
    decide_eq_true_eq]
  congr 1
  rw [← UInt64.toNat_inj, UInt64.toNat_ofNat']
  split <;> omega

/-- The magnitude of a finite float is below infinity. -/
theorem magnitude_lt {x : Double} (hnan : x.isNaN = false) (hinf : x.isInfinite = false) :
    x.magnitude < double.infinity := by
  simp only [isNaN, isInfinite, decide_eq_false_iff_not] at hnan hinf
  omega

theorem scientific_of_finite {x : Double} (hnan : x.isNaN = false) (hinf : x.isInfinite = false) :
    x.scientific = signText x.isNegative ++ mantissa (significantOf x.magnitude).digits ++
      'E' :: (if (significantOf x.magnitude).exponent < 0 then '-' else '+') ::
        padded 2 (significantOf x.magnitude).exponent.natAbs := by
  simp [scientific, hnan, hinf]

end Double

/-- A finite float reads back, bit by bit. -/
theorem readDouble_scientific {x : Double} (hnan : x.isNaN = false) (hinf : x.isInfinite = false) :
    readDouble x.scientific = .ok x := by
  obtain ⟨n, hread, hword⟩ := read_significant (Double.magnitude_lt hnan hinf)
  obtain ⟨d, places, hdigits, hall⟩ := significantOf_shape x.magnitude
  have hself := Double.ofParts_self x
  rw [Double.scientific_of_finite hnan hinf, List.append_assoc]
  generalize (significantOf x.magnitude).exponent = e at *
  rw [hdigits] at hread ⊢
  generalize 'E' :: (if e < 0 then '-' else '+') :: padded 2 e.natAbs = scale at *
  have hsplit : splitSign (signText x.isNegative ++ (mantissa (d :: places) ++ scale)) =
      (x.isNegative, mantissa (d :: places) ++ scale) := by
    cases x.isNegative with
    | true => rfl
    | false =>
      have hd := hall d List.mem_cons_self
      have hplus : d ≠ '+' := by rintro rfl; exact absurd hd (by decide)
      have hminus : d ≠ '-' := by rintro rfl; exact absurd hd (by decide)
      cases places <;> simp [signText, mantissa, splitSign, hplus, hminus]
  have hne : (signText x.isNegative ++ (mantissa (d :: places) ++ scale)).isEmpty = false := by
    cases places <;> simp [mantissa]
  simp only [readDouble, BinaryFormat.read, hne, hsplit, hread, hword, Bool.false_eq_true, if_false,
    Except.map, hself]

end Edn.Decimal
