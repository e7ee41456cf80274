import Edn.Decimal.Reading
import Edn.Proofs.Decimal.Rounding
import Edn.Proofs.Text.Numeral

/-!
# Shortest decimals

* `Interval.holds_shortest` says that the shortest decimal lies in the
  interval for which it is made.  The search may end on its last grid without
  a neighbour in the interval; the grid is so fine that the decimal below the
  middle lies in it all the same.
* `ofNumeral_eq` says that a numeral in the interval around a double is read
  as that double: its power of ten is far from both limits at which reading
  stops early.
* `shortestDouble_spec` says that there is such a numeral.
-/

namespace Edn.Decimal

/-! ## Powers of ten -/

/-- Three binary digits are less than a decimal one. -/
theorem two_pow_le_ten_pow (n : ℕ) : (2 : ℚ) ^ (3 * n) ≤ 10 ^ n := by
  rw [pow_mul]
  gcongr
  norm_num

theorem ten_zpow_lt_iff {a b : ℤ} : (10 : ℚ) ^ a < 10 ^ b ↔ a < b :=
  zpow_lt_zpow_iff_right₀ (by norm_num)

/-! ## Shortest decimals -/

/-- The number that a scaled decimal stands for. -/
def Scaled.value (s : Scaled) : ℚ :=
  s.digits * 10 ^ s.exponent

namespace Interval

/-- An interval around a positive number, with room for a whole unit below it, whose unit is not too
small for seventeen digits. -/
structure IsNarrow (i : Interval) : Prop where
  num_pos : 0 < i.num
  den_pos : 0 < i.den
  low_pos : 0 < i.low
  low_lt : i.low < i.middle
  lt_high : i.middle < i.high
  middle_le : i.middle ≤ 10 ^ 17

section Search

variable {i : Interval}

/-- A decimal of the interval, by its digits and its power of ten. -/
theorem holds_of_contains (hi : i.IsNarrow) {digits : ℕ} {exponent : ℤ}
    (h : i.contains digits exponent = true) : i.Holds (digits * 10 ^ exponent) := by
  have hden : (0 : ℚ) < i.den := by exact_mod_cast hi.den_pos
  have hdown : (0 : ℚ) < 10 ^ (-exponent).toNat := by positivity
  simp only [contains, Nat.pow_eq] at h
  unfold Holds unit
  rw [zpow_eq_div, ← mul_div_assoc, ← mul_div_assoc, ← mul_div_assoc, div_lt_div_iff₀ hden hdown,
    div_lt_div_iff₀ hdown hden, div_le_div_iff₀ hden hdown, div_le_div_iff₀ hdown hden]
  split at h
  · next hclosed =>
    have h := of_decide_eq_true h
    exact .inr ⟨hclosed, by exact_mod_cast h.1, by exact_mod_cast h.2⟩
  · have h := of_decide_eq_true h
    exact .inl ⟨by exact_mod_cast h.1, by exact_mod_cast h.2⟩

/-- A neighbour that is found lies in the interval. -/
theorem holds_of_neighbour? (hi : i.IsNarrow) {exponent : ℤ} {s : Scaled}
    (h : i.neighbour? exponent = some s) : i.Holds s.value := by
  simp only [neighbour?] at h
  split at h
  · next habove =>
    cases h
    rw [Bool.and_eq_true] at habove
    exact holds_of_contains hi habove.1
  · split at h
    · next hbelow =>
      cases h
      exact holds_of_contains hi hbelow
    · cases h

theorem le_mul_pow_leadingPlaces {num : ℕ} (den : ℕ) (hnum : 0 < num) :
    den ≤ num * 10 ^ leadingPlaces num den := by
  fun_induction leadingPlaces num den with
  | case1 num h => omega
  | case2 num h ih =>
    have := ih (by omega)
    rwa [pow_succ', ← Nat.mul_assoc]

/-- The place is not above the first digit of the middle. -/
theorem pow_place_le (hi : i.IsNarrow) : (10 : ℚ) ^ (i.place - 1) ≤ i.middle * i.unit := by
  have hden : (0 : ℚ) < i.den := by exact_mod_cast hi.den_pos
  have hpos : 0 < i.middle * i.num := Nat.mul_pos (Nat.zero_lt_of_lt hi.low_lt) hi.num_pos
  rw [unit, ← mul_div_assoc, le_div_iff₀ hden]
  unfold place
  dsimp only
  split
  · next h =>
    have hquotient := Text.pow_length_decimal_le (Nat.div_pos h hi.den_pos)
    have hlength := Text.length_decimal_pos (i.middle * i.num / i.den)
    rw [← Nat.cast_one, ← Nat.cast_sub hlength, zpow_natCast]
    have := (Nat.le_div_iff_mul_le hi.den_pos).1 hquotient
    exact_mod_cast this
  · have h := le_mul_pow_leadingPlaces i.den hpos
    rw [show (1 - (leadingPlaces (i.middle * i.num) i.den : ℤ) - 1) =
      -(leadingPlaces (i.middle * i.num) i.den : ℤ) by ring, zpow_neg, zpow_natCast,
      inv_mul_le_iff₀ (by positivity), mul_comm]
    exact_mod_cast h

/-- A grid's greatest decimal that is not above the middle is less than a step below it. -/
theorem floorAt_spec (hi : i.IsNarrow) (exponent : ℤ) :
    (i.floorAt exponent : ℚ) * 10 ^ exponent ≤ i.middle * i.unit ∧
      i.middle * i.unit < (i.floorAt exponent : ℚ) * 10 ^ exponent + 10 ^ exponent := by
  have hden : (0 : ℚ) < i.den := by exact_mod_cast hi.den_pos
  have hdown : (0 : ℚ) < 10 ^ (-exponent).toNat := by positivity
  have hstep : 0 < i.den * 10 ^ exponent.toNat := Nat.mul_pos hi.den_pos (Nat.pow_pos (by decide))
  have hlow := Nat.div_mul_le_self (i.middle * i.num * 10 ^ (-exponent).toNat)
    (i.den * 10 ^ exponent.toNat)
  have hhigh := Nat.lt_div_mul_add hstep (a := i.middle * i.num * 10 ^ (-exponent).toNat)
  rw [← Nat.cast_le (α := ℚ)] at hlow
  rw [← Nat.cast_lt (α := ℚ)] at hhigh
  unfold floorAt unit
  rw [Nat.pow_eq, Nat.pow_eq, zpow_eq_div, ← mul_div_assoc, ← mul_div_assoc, ← add_div,
    div_le_div_iff₀ hdown hden, div_lt_div_iff₀ hden hdown]
  push_cast at hlow hhigh ⊢
  constructor <;> linarith

/-- The last grid is so fine that its decimal below the middle lies in the interval. -/
theorem holds_floorAt (hi : i.IsNarrow) :
    i.Holds (i.floorAt (i.place - 18) * 10 ^ (i.place - 18)) := by
  obtain ⟨hle, hlt⟩ := floorAt_spec hi (i.place - 18)
  have hunit : 0 < i.unit :=
    div_pos (by exact_mod_cast hi.num_pos) (by exact_mod_cast hi.den_pos)
  have hmiddle : (i.middle : ℚ) ≤ 10 ^ 17 := by exact_mod_cast hi.middle_le
  have hstep : (10 : ℚ) ^ (i.place - 18) ≤ i.unit := by
    have h := pow_place_le hi
    rw [show i.place - 1 = i.place - 18 + (17 : ℕ) by push_cast; ring,
      zpow_add₀ (by norm_num), zpow_natCast] at h
    have : i.middle * i.unit ≤ 10 ^ 17 * i.unit := by gcongr
    linarith
  have hlow : (i.low : ℚ) + 1 ≤ i.middle := by exact_mod_cast hi.low_lt
  have hhigh : (i.middle : ℚ) + 1 ≤ i.high := by exact_mod_cast hi.lt_high
  refine .inl ⟨?_, ?_⟩
  · have : (i.low + 1) * i.unit ≤ i.middle * i.unit := by gcongr
    linarith
  · have : (i.middle + 1) * i.unit ≤ i.high * i.unit := by gcongr
    linarith

/-- The search finds a decimal of the interval, however many grids are left. -/
theorem holds_search (hi : i.IsNarrow) {digits steps : ℕ} (h : digits + steps = 18) :
    i.Holds (i.search digits steps).value := by
  induction steps generalizing digits with
  | zero =>
    have hdigits : (digits : ℤ) = 18 := by omega
    simp only [search, Scaled.value, hdigits]
    exact holds_floorAt hi
  | succ steps ih =>
    rw [search]
    cases hfound : i.neighbour? (i.place - digits) with
    | none => exact ih (by omega)
    | some s => exact holds_of_neighbour? hi hfound

/-- The shortest decimal lies in the interval. -/
theorem holds_shortest (hi : i.IsNarrow) : i.Holds i.shortest.value :=
  holds_search hi rfl

end Search

end Interval

/-! ## Doubles -/

section Doubles

variable {word : ℕ}

/-- The interval around a positive finite double is narrow. -/
theorem isNarrow_interval (hpos : 0 < word) :
    (double.interval (double.parts word).1 (double.parts word).2).IsNarrow := by
  obtain ⟨hsignificand, hlt, -⟩ := BinaryFormat.parts_spec (f := double) hpos
  rw [show double.binade = 2 ^ 52 from rfl] at hlt
  generalize (double.parts word).1 = significand at *
  generalize (double.parts word).2 = exponent
  unfold BinaryFormat.interval
  refine ⟨?_, BinaryFormat.scaleBy_pos Nat.one_pos _, ?_, ?_, ?_, ?_⟩
  · change 0 < (BinaryFormat.scaleBy (2 - exponent) 1 1).1
    unfold BinaryFormat.scaleBy
    split
    · exact Nat.mul_pos Nat.one_pos (Nat.pow_pos (by decide))
    · exact Nat.one_pos
  all_goals dsimp only
  · split <;> omega
  · split <;> omega
  · omega
  · omega

/-- What lies in the interval around a positive finite double is neither too small nor too large to
be told from zero and from infinity by its power of ten. -/
theorem bounds_of_holds (hpos : 0 < word) (hfinite : word < double.infinity) {v : ℚ}
    (h : (double.interval (double.parts word).1 (double.parts word).2).Holds v) :
    (10 : ℚ) ^ (-400 : ℤ) ≤ v ∧ v < 10 ^ (400 : ℤ) := by
  obtain ⟨hsignificand, hlt, hmin, -, hcount⟩ := BinaryFormat.parts_spec (f := double) hpos
  obtain ⟨hrounds, -⟩ := BinaryFormat.roundsTo_of_holds hsignificand h
  rw [show double.binade = 2 ^ 52 from rfl] at hlt hcount
  rw [show double.minExponent = -1074 from rfl] at hmin hcount
  rw [show double.infinity = 2047 * 2 ^ 52 from rfl] at hfinite
  generalize (double.parts word).1 = significand at *
  generalize (double.parts word).2 = exponent at *
  have hexponent : exponent ≤ 972 := by omega
  have hpow : (0 : ℚ) < 2 ^ exponent := by positivity
  have hnear : (significand : ℚ) - 1 / 2 ≤ v / 2 ^ exponent ∧
      v / 2 ^ exponent ≤ significand + 1 / 2 := by
    rcases hrounds with h | h
    · exact ⟨h.1.le, h.2.le⟩
    · exact h.2
  rw [le_div_iff₀ hpow, div_le_iff₀ hpow] at hnear
  have hone : (1 : ℚ) ≤ significand := by exact_mod_cast hsignificand
  have hmax : (significand : ℚ) + 1 / 2 ≤ 2 ^ 54 := by
    have : (significand : ℚ) + 1 ≤ 2 * 2 ^ 52 := by exact_mod_cast hlt
    linarith
  constructor
  · calc (10 : ℚ) ^ (-400 : ℤ) ≤ (2 ^ (3 * 400))⁻¹ := by
          rw [zpow_neg, zpow_ofNat]
          exact inv_anti₀ (pow_pos (by norm_num) _) (two_pow_le_ten_pow 400)
      _ = 2 ^ (-1200 : ℤ) := by rw [zpow_neg, zpow_ofNat]
      _ ≤ 2 ^ (-1075 : ℤ) := zpow_le_zpow_right₀ one_le_two (by norm_num)
      _ = 1 / 2 * 2 ^ (-1074 : ℤ) := by
          rw [show (-1075 : ℤ) = -1 + -1074 by norm_num, zpow_add₀ two_ne_zero, zpow_neg_one,
            one_div]
      _ ≤ (significand - 1 / 2) * 2 ^ exponent := by
        refine mul_le_mul (by linarith) (zpow_le_zpow_right₀ one_le_two hmin) (by positivity)
          (by linarith)
      _ ≤ v := hnear.1
  · calc v ≤ (significand + 1 / 2) * 2 ^ exponent := hnear.2
      _ ≤ 2 ^ 54 * 2 ^ (972 : ℤ) := by
        refine mul_le_mul hmax (zpow_le_zpow_right₀ one_le_two hexponent) (by positivity)
          (by positivity)
      _ = 2 ^ (3 * 342) := by rw [zpow_ofNat, ← pow_add]
      _ ≤ 10 ^ 342 := two_pow_le_ten_pow 342
      _ = 10 ^ (342 : ℤ) := (zpow_ofNat _ _).symm
      _ < 10 ^ (400 : ℤ) := ten_zpow_lt_iff.2 (by norm_num)

/-- A numeral in the interval around a positive finite double is read as that double. -/
theorem ofNumeral_eq (hpos : 0 < word) (hfinite : word < double.infinity) {n : Numeral}
    (hdigits : 0 < n.digits) (hcount : 0 < n.count) (hlow : 10 ^ (n.count - 1) ≤ n.digits)
    (hhigh : n.digits < 10 ^ n.count)
    (h : (double.interval (double.parts word).1 (double.parts word).2).Holds
      (n.digits * 10 ^ n.exponent)) :
    double.ofNumeral n = word := by
  obtain ⟨hmin, hmax⟩ := bounds_of_holds hpos hfinite h
  have hpow : (0 : ℚ) < 10 ^ n.exponent := by positivity
  have htop : n.exponent + n.count ≤ 400 := by
    have : (10 : ℚ) ^ (n.exponent + n.count - 1) ≤ n.digits * 10 ^ n.exponent := by
      rw [show n.exponent + n.count - 1 = ((n.count - 1 : ℕ) : ℤ) + n.exponent by omega,
        zpow_add₀ (by norm_num), zpow_natCast]
      have : (10 : ℚ) ^ (n.count - 1) ≤ n.digits := by exact_mod_cast hlow
      gcongr
    have := ten_zpow_lt_iff.1 (this.trans_lt hmax)
    omega
  have hbottom : -400 ≤ n.exponent + n.count := by
    have : (n.digits * 10 ^ n.exponent : ℚ) < 10 ^ (n.exponent + n.count) := by
      rw [add_comm, zpow_add₀ (by norm_num), zpow_natCast]
      have : (n.digits : ℚ) < 10 ^ n.count := by exact_mod_cast hhigh
      gcongr
    have := ten_zpow_lt_iff.1 (hmin.trans_lt this)
    omega
  unfold BinaryFormat.ofNumeral
  rw [if_neg hdigits.ne', if_neg (by omega), if_neg (by omega)]
  refine BinaryFormat.ofRatio_eq (by decide) hpos hfinite
    (Nat.mul_pos hdigits (Nat.pow_pos (by decide))) (Nat.pow_pos (by decide)) ?_
  rw [zpow_eq_div, ← mul_div_assoc] at h
  rw [Nat.pow_eq, Nat.pow_eq]
  push_cast
  exact h

theorem shortestDouble_eq (word : ℕ) :
    shortestDouble word = (double.interval (double.parts word).1 (double.parts word).2).shortest :=
  rfl

/-- The shortest decimal of a positive double lies in its interval, and is positive. -/
theorem shortestDouble_spec (hpos : 0 < word) :
    0 < (shortestDouble word).digits ∧
      (double.interval (double.parts word).1 (double.parts word).2).Holds
        (shortestDouble word).value := by
  have hnarrow := isNarrow_interval hpos
  have h := Interval.holds_shortest hnarrow
  rw [shortestDouble_eq]
  generalize double.interval (double.parts word).1 (double.parts word).2 = i at *
  refine ⟨Nat.pos_of_ne_zero fun hzero => ?_, h⟩
  have hlow : 0 < (i.low : ℚ) * i.unit := by
    have hnum : (0 : ℚ) < i.num := by exact_mod_cast hnarrow.num_pos
    have hden : (0 : ℚ) < i.den := by exact_mod_cast hnarrow.den_pos
    have hlow : (0 : ℚ) < i.low := by exact_mod_cast hnarrow.low_pos
    unfold Interval.unit
    positivity
  rw [Scaled.value, hzero, Nat.cast_zero, zero_mul] at h
  rcases h with h | h
  · exact absurd h.1 (not_lt.2 hlow.le)
  · exact absurd h.2.1 (not_le.2 hlow)

end Doubles

end Edn.Decimal
