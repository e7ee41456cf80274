import Edn.Decimal.Shortest
import Mathlib.Algebra.Order.Field.Power
import Mathlib.Algebra.Order.Field.Rat
import Mathlib.Tactic.FieldSimp
import Mathlib.Tactic.Linarith
import Mathlib.Tactic.NormNum
import Mathlib.Tactic.Positivity
import Mathlib.Tactic.Ring

/-!
# Rounding

Ratios are compared as rational numbers.

* `BinaryFormat.parts_spec` says what the significand and the exponent of a
  word are, and `BinaryFormat.unitExponent_spec` which unit a ratio is
  measured in.
* `BinaryFormat.ofRatio_eq` says that every ratio in the interval around a
  number rounds to it.  Below a power of two the interval reaches into the
  binade before, where the unit is half as large; this is the only case in
  which the two units differ.
-/

namespace Edn.Decimal

/-! ## Powers -/

/-- A power with an integer exponent is a ratio of powers with natural exponents. -/
theorem zpow_eq_div (b : ℚ) (e : ℤ) : b ^ e = b ^ e.toNat / b ^ (-e).toNat := by
  rcases Int.le_total 0 e with h | h
  · rw [Int.toNat_eq_zero.2 (show -e ≤ 0 by omega), pow_zero, div_one, ← zpow_natCast,
      Int.toNat_of_nonneg h]
  · rw [Int.toNat_eq_zero.2 h, pow_zero, one_div, ← zpow_natCast, Int.toNat_of_nonneg (by omega),
      zpow_neg, inv_inv]

theorem two_zpow_lt_iff {a b : ℤ} : (2 : ℚ) ^ a < 2 ^ b ↔ a < b :=
  zpow_lt_zpow_iff_right₀ (by norm_num)

namespace BinaryFormat

/-! ## Scaling and rounding -/

theorem scaleBy_pos {num den : ℕ} (hden : 0 < den) (e : ℤ) : 0 < (scaleBy e num den).2 := by
  unfold scaleBy
  split
  · exact hden
  · exact Nat.mul_pos hden (Nat.pow_pos (by decide))

/-- A scaled ratio is the ratio divided by the power. -/
theorem scaleBy_ratio (e : ℤ) (num den : ℕ) :
    ((scaleBy e num den).1 : ℚ) / (scaleBy e num den).2 = num / den / 2 ^ e := by
  have hpow : ((Nat.pow 2 e.natAbs : ℕ) : ℚ) = 2 ^ (e.natAbs : ℤ) := by
    rw [zpow_natCast]
    exact_mod_cast rfl
  unfold scaleBy
  split
  · next h =>
    push_cast [hpow]
    rw [abs_of_neg h, zpow_neg]
    field_simp
  · next h =>
    push_cast [hpow]
    rw [abs_of_nonneg (Int.not_lt.1 h), div_div]

/-- The ratio is nearer to `n` than to any other natural number, or as near, and `n` is even. -/
def RoundsTo (v : ℚ) (n : ℕ) : Prop :=
  (n - 1 / 2 < v ∧ v < n + 1 / 2) ∨ (n % 2 = 0 ∧ n - 1 / 2 ≤ v ∧ v ≤ n + 1 / 2)

/-- `roundRatio` finds the nearest number. -/
theorem roundRatio_eq {num den n : ℕ} (hden : 0 < den) (h : RoundsTo (num / den) n) :
    roundRatio num den = n := by
  have hpos : (0 : ℚ) < den := by exact_mod_cast hden
  have hnat : (2 * n * den < 2 * num + den ∧ 2 * num < 2 * n * den + den) ∨
      (n % 2 = 0 ∧ 2 * n * den ≤ 2 * num + den ∧ 2 * num ≤ 2 * n * den + den) := by
    rcases h with ⟨hlow, hhigh⟩ | ⟨heven, hlow, hhigh⟩
    · rw [lt_div_iff₀ hpos] at hlow
      rw [div_lt_iff₀ hpos] at hhigh
      refine .inl ⟨?_, ?_⟩ <;> (rw [← Nat.cast_lt (α := ℚ)]; push_cast; linarith)
    · rw [le_div_iff₀ hpos] at hlow
      rw [div_le_iff₀ hpos] at hhigh
      refine .inr ⟨heven, ?_, ?_⟩ <;> (rw [← Nat.cast_le (α := ℚ)]; push_cast; linarith)
  rw [Nat.mul_assoc] at hnat
  have hnum := Nat.div_add_mod' num den
  have hrest := Nat.mod_lt num hden
  have hquotient : n = num / den ∨ n = num / den + 1 := by
    rcases Nat.lt_trichotomy n (num / den) with hlt | heq | hgt
    · have := Nat.mul_le_mul_right den (show n + 1 ≤ num / den from hlt)
      rw [Nat.add_mul] at this
      omega
    · exact .inl heq
    · by_contra hne
      have := Nat.mul_le_mul_right den (show num / den + 2 ≤ n by omega)
      rw [Nat.add_mul] at this
      omega
  unfold roundRatio
  rcases hquotient with rfl | rfl
  · grind
  · rw [Nat.add_mul] at hnat
    grind

/-! ## Words -/

section Words

variable {f : BinaryFormat} {word : ℕ}

theorem binade_pos (f : BinaryFormat) : 0 < f.binade :=
  Nat.pow_pos (by decide)

/-- A word counts the numbers below it: those of the smaller units, and the significand.  A
significand is less than two binades, and at least one unless the unit is the smallest. -/
theorem parts_spec (hword : 0 < word) :
    0 < (f.parts word).1 ∧ (f.parts word).1 < 2 * f.binade ∧
      f.minExponent ≤ (f.parts word).2 ∧
      ((f.parts word).2 = f.minExponent ∨ f.binade ≤ (f.parts word).1) ∧
      ((f.parts word).2 - f.minExponent).toNat * f.binade + (f.parts word).1 = word := by
  have hbinade := f.binade_pos
  have hrest := Nat.mod_lt word hbinade
  have hdiv := Nat.div_add_mod' word f.binade
  unfold parts
  dsimp only
  generalize word / f.binade = field at hdiv ⊢
  split
  · next hfield =>
    rw [hfield, Nat.zero_mul] at hdiv
    refine ⟨by omega, by omega, by omega, .inl rfl, ?_⟩
    rw [Int.sub_self, Int.toNat_zero]
    omega
  · next hfield =>
    refine ⟨by omega, by omega, by omega, .inr (by omega), ?_⟩
    rw [show (f.minExponent + ((field : ℤ) - 1) - f.minExponent).toNat = field - 1 by omega,
      Nat.sub_mul, Nat.one_mul]
    have := Nat.le_mul_of_pos_left f.binade (Nat.pos_of_ne_zero hfield)
    omega

end Words

/-! ## Units -/

/-- The binary logarithms of both parts bound a ratio. -/
theorem ratio_bounds {num den : ℕ} (hnum : 0 < num) (hden : 0 < den) :
    (2 : ℚ) ^ ((num.log2 : ℤ) - den.log2 - 1) ≤ num / den ∧
      (num / den : ℚ) < 2 ^ ((num.log2 : ℤ) - den.log2 + 1) := by
  have hposNum : (0 : ℚ) < num := by exact_mod_cast hnum
  have hposDen : (0 : ℚ) < den := by exact_mod_cast hden
  have hnumLow : (2 : ℚ) ^ (num.log2 : ℤ) ≤ num := by
    exact_mod_cast Nat.log2_self_le hnum.ne'
  have hnumHigh : (num : ℚ) < 2 ^ ((num.log2 : ℤ) + 1) := by
    exact_mod_cast Nat.lt_log2_self
  have hdenLow : (2 : ℚ) ^ (den.log2 : ℤ) ≤ den := by
    exact_mod_cast Nat.log2_self_le hden.ne'
  have hdenHigh : (den : ℚ) < 2 ^ ((den.log2 : ℤ) + 1) := by
    exact_mod_cast Nat.lt_log2_self
  constructor
  · rw [le_div_iff₀ hposDen]
    calc (2 : ℚ) ^ ((num.log2 : ℤ) - den.log2 - 1) * den
        ≤ 2 ^ ((num.log2 : ℤ) - den.log2 - 1) * 2 ^ ((den.log2 : ℤ) + 1) := by gcongr
      _ = 2 ^ (num.log2 : ℤ) := by rw [← zpow_add₀ two_ne_zero]; congr 1; ring
      _ ≤ num := hnumLow
  · rw [div_lt_iff₀ hposDen]
    calc (num : ℚ) < 2 ^ ((num.log2 : ℤ) + 1) := hnumHigh
      _ = 2 ^ ((num.log2 : ℤ) - den.log2 + 1) * 2 ^ (den.log2 : ℤ) := by
        rw [← zpow_add₀ two_ne_zero]; congr 1; ring
      _ ≤ 2 ^ ((num.log2 : ℤ) - den.log2 + 1) * den := by gcongr

/-- In the unit in which a ratio is measured it is less than two binades, and at least one unless
the unit is the smallest. -/
theorem unitExponent_spec (f : BinaryFormat) {num den : ℕ} (hnum : 0 < num) (hden : 0 < den) :
    f.minExponent ≤ f.unitExponent num den ∧
      (num / den : ℚ) < 2 ^ ((f.precision : ℤ) + f.unitExponent num den) ∧
      (f.unitExponent num den = f.minExponent ∨
        (2 : ℚ) ^ ((f.precision : ℤ) - 1 + f.unitExponent num den) ≤ num / den) := by
  obtain ⟨hlow, hhigh⟩ := ratio_bounds hnum hden
  unfold unitExponent
  dsimp only
  generalize hguess : (num.log2 : ℤ) - den.log2 - f.precision = guess
  generalize hexponent : (if (scaleBy guess num den).1 <
    (scaleBy guess num den).2 * Nat.pow 2 f.precision then guess else guess + 1) = exponent
  have hratio := scaleBy_ratio guess num den
  have hscaled := @scaleBy_pos num den hden guess
  generalize scaleBy guess num den = scaled at hexponent hratio hscaled
  have hfits : scaled.1 < scaled.2 * Nat.pow 2 f.precision ↔
      (num / den : ℚ) < 2 ^ ((f.precision : ℤ) + guess) := by
    have hpos : (0 : ℚ) < scaled.2 := by exact_mod_cast hscaled
    rw [zpow_add₀ two_ne_zero, ← div_lt_iff₀ (by positivity), ← hratio, div_lt_iff₀ hpos,
      zpow_natCast, mul_comm, ← Nat.cast_lt (α := ℚ), Nat.pow_eq]
    push_cast
    exact Iff.rfl
  have hbounds : (num / den : ℚ) < 2 ^ ((f.precision : ℤ) + exponent) ∧
      (2 : ℚ) ^ ((f.precision : ℤ) - 1 + exponent) ≤ num / den := by
    split at hexponent
    · next h =>
      subst hexponent
      refine ⟨hfits.1 h, ?_⟩
      rwa [show (f.precision : ℤ) - 1 + guess = num.log2 - den.log2 - 1 by omega]
    · next h =>
      rw [hfits, not_lt] at h
      subst hexponent
      rw [show (f.precision : ℤ) + (guess + 1) = num.log2 - den.log2 + 1 by omega,
        show (f.precision : ℤ) - 1 + (guess + 1) = f.precision + guess by ring]
      exact ⟨hhigh, h⟩
  refine ⟨le_max_left _ _, hbounds.1.trans_le ?_, ?_⟩
  · exact zpow_le_zpow_right₀ one_le_two (by omega)
  · rcases le_total f.minExponent exponent with h | h
    · rw [max_eq_right h]
      exact .inr hbounds.2
    · exact .inl (max_eq_left h)

end BinaryFormat

/-! ## Intervals -/

namespace Interval

/-- The unit of an interval. -/
def unit (i : Interval) : ℚ :=
  i.num / i.den

/-- A rational number lies in the interval. -/
def Holds (i : Interval) (v : ℚ) : Prop :=
  (i.low * i.unit < v ∧ v < i.high * i.unit) ∨
    (i.closed = true ∧ i.low * i.unit ≤ v ∧ v ≤ i.high * i.unit)

end Interval

namespace BinaryFormat

/-- The unit of the interval around a number is a quarter of the number's own unit. -/
theorem unit_interval (f : BinaryFormat) (significand : ℕ) (exponent : ℤ) :
    (f.interval significand exponent).unit = 2 ^ exponent / 4 := by
  have h := scaleBy_ratio (2 - exponent) 1 1
  rw [Nat.cast_one, div_one, one_div, ← zpow_neg, neg_sub, zpow_sub₀ two_ne_zero] at h
  norm_num at h
  exact h

/-- In its own unit, a number of the interval rounds to the significand.  Below a power of two, half
the unit is another way to measure it. -/
theorem roundsTo_of_holds {f : BinaryFormat} {significand : ℕ} {exponent : ℤ} {v : ℚ}
    (hpos : 0 < significand) (h : (f.interval significand exponent).Holds v) :
    RoundsTo (v / 2 ^ exponent) significand ∧
      (significand = f.binade → f.minExponent < exponent →
        2 * significand - 1 / 2 ≤ v / 2 ^ (exponent - 1)) := by
  have hpow : (0 : ℚ) < 2 ^ exponent := by positivity
  have hunit := f.unit_interval significand exponent
  have hlow : ((f.interval significand exponent).low : ℚ) ≥ 4 * significand - 2 ∧
      (significand = f.binade → f.minExponent < exponent →
        ((f.interval significand exponent).low : ℚ) = 4 * significand - 1) := by
    unfold interval
    dsimp only
    split
    · rw [Nat.cast_sub (by omega)]
      push_cast
      exact ⟨by linarith, fun _ _ => rfl⟩
    · next hcloser =>
      rw [Nat.cast_sub (by omega)]
      push_cast
      refine ⟨le_rfl, fun heq hlt => absurd ?_ hcloser⟩
      simp [heq, hlt]
  have hhigh : ((f.interval significand exponent).high : ℚ) = 4 * significand + 2 := by
    unfold interval
    push_cast
    rfl
  have hclosed : (f.interval significand exponent).closed = true → significand % 2 = 0 := by
    unfold interval
    exact fun h => by simpa using h
  have hhalf : v / 2 ^ (exponent - 1) = 2 * (v / 2 ^ exponent) := by
    rw [zpow_sub_one₀ two_ne_zero]
    field_simp
  have hscale : ∀ a : ℚ, a * (2 ^ exponent / 4) = a / 4 * 2 ^ exponent := fun a => by ring
  simp only [Interval.Holds, hunit, hhigh, hscale, ← lt_div_iff₀ hpow, ← div_lt_iff₀ hpow,
    ← le_div_iff₀ hpow, ← div_le_iff₀ hpow] at h
  rw [hhalf]
  generalize v / 2 ^ exponent = u at h ⊢
  generalize ((f.interval significand exponent).low : ℚ) = low at h hlow
  have hlowLe : low / 4 ≤ u := by rcases h with h | h <;> linarith
  refine ⟨?_, fun heq hlt => ?_⟩
  · rcases h with ⟨hl, hh⟩ | ⟨hc, hl, hh⟩
    · exact .inl ⟨by linarith, by linarith⟩
    · exact .inr ⟨hclosed hc, by linarith, by linarith⟩
  · have := hlow.2 heq hlt
    linarith

section Units

variable {f : BinaryFormat} {num den significand : ℕ} {exponent : ℤ}

theorem zpow_precision (hprecision : 0 < f.precision) (e : ℤ) :
    (2 : ℚ) ^ ((f.precision : ℤ) - 1 + e) = f.binade * 2 ^ e := by
  rw [zpow_add₀ two_ne_zero, binade, Nat.pow_eq]
  push_cast
  rw [← zpow_natCast, Nat.cast_sub hprecision, Nat.cast_one]

/-- A ratio near a number of less than two binades is measured in no greater unit. -/
theorem unitExponent_le (hprecision : 0 < f.precision) (hnum : 0 < num) (hden : 0 < den)
    (hlt : significand < 2 * f.binade) (hmin : f.minExponent ≤ exponent)
    (hnear : (num / den / 2 ^ exponent : ℚ) ≤ significand + 1 / 2) :
    f.unitExponent num den ≤ exponent := by
  obtain ⟨-, -, hunit | hunit⟩ := f.unitExponent_spec hnum hden
  · omega
  · have hpow : (0 : ℚ) < 2 ^ exponent := by positivity
    have hsignificand : (significand : ℚ) + 1 ≤ 2 * f.binade := by exact_mod_cast hlt
    have hratio : (num / den : ℚ) < 2 ^ ((f.precision : ℤ) + exponent) := by
      rw [show (f.precision : ℤ) + exponent = 1 + (f.precision - 1 + exponent) by ring,
        zpow_add₀ two_ne_zero, zpow_one, zpow_precision hprecision, ← mul_assoc,
        ← div_lt_iff₀ hpow]
      linarith
    have := two_zpow_lt_iff.1 (hunit.trans_lt hratio)
    omega

/-- Only a power of two is near ratios that are measured in a smaller unit. -/
theorem eq_binade_of_unitExponent_lt (hprecision : 0 < f.precision) (hnum : 0 < num) (hden : 0 < den)
    (hunit : f.unitExponent num den < exponent)
    (hnormal : exponent = f.minExponent ∨ f.binade ≤ significand)
    (hnear : (significand : ℚ) - 1 / 2 ≤ num / den / 2 ^ exponent) : significand = f.binade := by
  obtain ⟨hmin, hratio, -⟩ := f.unitExponent_spec hnum hden
  have hbelow : (num / den / 2 ^ exponent : ℚ) < f.binade := by
    rw [div_lt_iff₀ (by positivity), ← zpow_precision hprecision]
    exact hratio.trans_le (zpow_le_zpow_right₀ one_le_two (by omega))
  have hlt : (significand : ℚ) < f.binade + 1 := by linarith
  have hlt : significand < f.binade + 1 := by exact_mod_cast hlt
  omega

/-- The smaller unit is half as large. -/
theorem unitExponent_eq_of_lt (hprecision : 0 < f.precision) (hnum : 0 < num) (hden : 0 < den)
    (hunit : f.unitExponent num den < exponent)
    (hnear : (2 * f.binade - 1 / 2 : ℚ) ≤ num / den / 2 ^ (exponent - 1)) :
    f.unitExponent num den = exponent - 1 := by
  have hone : (1 : ℚ) ≤ f.binade := by exact_mod_cast f.binade_pos
  have hge : (2 : ℚ) ^ ((f.precision : ℤ) - 1 + (exponent - 1)) ≤ num / den := by
    rw [zpow_precision hprecision, ← le_div_iff₀ (by positivity)]
    linarith
  have := two_zpow_lt_iff.1 (hge.trans_lt (f.unitExponent_spec hnum hden).2.1)
  omega

end Units

/-- Every positive ratio in the interval around a number rounds to the number. -/
theorem ofRatio_eq {f : BinaryFormat} (hprecision : 0 < f.precision) {word num den : ℕ}
    (hword : 0 < word) (hfinite : word < f.infinity) (hnum : 0 < num) (hden : 0 < den)
    (h : (f.interval (f.parts word).1 (f.parts word).2).Holds (num / den)) :
    f.ofRatio num den = word := by
  obtain ⟨hpos, hlt, hmin, hnormal, hcount⟩ := @parts_spec f word hword
  generalize (f.parts word).1 = significand at *
  generalize (f.parts word).2 = exponent at *
  obtain ⟨hrounds, hcloser⟩ := roundsTo_of_holds hpos h
  have hnear : (significand : ℚ) - 1 / 2 ≤ num / den / 2 ^ exponent ∧
      (num / den / 2 ^ exponent : ℚ) ≤ significand + 1 / 2 := by
    rcases hrounds with h | h
    · exact ⟨h.1.le, h.2.le⟩
    · exact ⟨h.2.1, h.2.2⟩
  have hratio := scaleBy_ratio (f.unitExponent num den) num den
  have hscaled := @scaleBy_pos num den hden (f.unitExponent num den)
  unfold ofRatio
  rw [if_neg hnum.ne']
  dsimp only
  rcases (unitExponent_le hprecision hnum hden hlt hmin hnear.2).eq_or_lt with hunit | hunit
  · rw [hunit] at hratio hscaled ⊢
    rw [← hratio] at hrounds
    rw [roundRatio_eq hscaled hrounds, hcount, min_eq_right hfinite.le]
  · -- The number is a power of two, and the ratio lies below it, where the unit is half as large.
    have hsignificand := eq_binade_of_unitExponent_lt hprecision hnum hden hunit hnormal hnear.1
    have hmin' := (f.unitExponent_spec hnum hden).1
    have hlow := hcloser hsignificand (by omega)
    rw [hsignificand] at hlow hnear hcount
    have hbelow := (f.unitExponent_spec hnum hden).2.1
    have hunit := unitExponent_eq_of_lt hprecision hnum hden hunit hlow
    rw [hunit] at hratio hscaled hbelow ⊢
    have hhigh : (num / den / 2 ^ (exponent - 1) : ℚ) < 2 * f.binade := by
      rwa [div_lt_iff₀ (by positivity), mul_assoc, ← zpow_precision hprecision,
        ← zpow_one_add₀ two_ne_zero,
        show 1 + ((f.precision : ℤ) - 1 + (exponent - 1)) = f.precision + (exponent - 1) by ring]
    have hround : RoundsTo (num / den / 2 ^ (exponent - 1)) (2 * f.binade) := by
      refine .inr ⟨by omega, ?_, ?_⟩ <;> push_cast <;> linarith
    have hsteps : (exponent - f.minExponent).toNat = (exponent - 1 - f.minExponent).toNat + 1 := by
      omega
    rw [hsteps, Nat.add_mul, Nat.one_mul] at hcount
    rw [← hratio] at hround
    rw [roundRatio_eq hscaled hround, show (exponent - 1 - f.minExponent).toNat * f.binade +
      2 * f.binade = word by omega, min_eq_right hfinite.le]

end BinaryFormat

end Edn.Decimal
