import StaticStyle.Binary64.Decimal
import StaticStyle.Proofs.Binary64.Rounding

/-!
Numerals of numbers read back. The number nearest to a decimal depends on the value of the decimal, the
shortest decimal of a number is nearest to it, and its notation keeps its value. Only decimals that are
too large are nearest to no number.
-/

namespace StaticStyle

namespace Decimal

/-- The rational number that a decimal stands for. -/
def value (decimal : Decimal) : ℚ := decimal.digits * 10 ^ decimal.exponent

private theorem value_pos {decimal : Decimal} (nonzero : decimal.digits ≠ 0) :
    0 < decimal.value := by
  unfold value
  positivity

private theorem log_ten_eq_iff {r : ℚ} (positive : 0 < r) (k : Int) :
    Int.log 10 r = k ↔ (10 : ℚ) ^ k ≤ r ∧ r < (10 : ℚ) ^ (k + 1) := by
  have lower := Int.zpow_le_iff_le_log (b := 10) (x := k) (by omega) positive
  have upper := Int.lt_zpow_iff_log_lt (b := 10) (x := k + 1) (by omega) positive
  push_cast at lower upper
  rw [lower, upper]
  omega

private theorem digitCount_eq (n : Nat) : digitCount n = Nat.log 10 n + 1 := by
  have bound (k : Nat) (positive : 0 < k) : digitCount n ≤ k ↔ n < 10 ^ k :=
    Nat.length_toDigits_le_iff (by omega) positive
  have upper := (bound (Nat.log 10 n + 1) (by omega)).mpr (Nat.lt_pow_succ_log_self (by omega) n)
  have nonempty : 0 < digitCount n := Nat.length_toDigits_pos
  by_cases short : Nat.log 10 n = 0
  · omega
  · have lower : ¬ digitCount n ≤ Nat.log 10 n := by
      rw [bound _ (by omega), not_lt]
      apply Nat.pow_log_le_self
      intro zero
      simp [zero] at short
    omega

private theorem magnitude_eq_log {decimal : Decimal} (nonzero : decimal.digits ≠ 0) :
    (digitCount decimal.digits : Int) + decimal.exponent = Int.log 10 decimal.value + 1 := by
  have digitsPos : (0 : ℚ) < decimal.digits := by positivity
  have digitsLog := Int.log_natCast (R := ℚ) 10 decimal.digits
  obtain ⟨lower, upper⟩ := (log_ten_eq_iff digitsPos _).mp digitsLog
  have valueLog : Int.log 10 decimal.value =
      (Nat.log 10 decimal.digits : Int) + decimal.exponent := by
    rw [log_ten_eq_iff (value_pos nonzero), value]
    refine ⟨?_, ?_⟩
    · rw [zpow_add₀ (by norm_num)]
      gcongr
    · rw [add_right_comm, zpow_add₀ (by norm_num)]
      gcongr
  rw [valueLog, digitCount_eq]
  push_cast
  ring

/-- A decimal as a quotient of natural numbers. -/
private def fraction (decimal : Decimal) : Nat × Nat :=
  if 0 ≤ decimal.exponent then (decimal.digits * 10 ^ decimal.exponent.toNat, 1)
  else (decimal.digits, 10 ^ (-decimal.exponent).toNat)

private theorem fraction_pos (decimal : Decimal) : 0 < (fraction decimal).2 := by
  simp only [fraction]
  split <;> positivity

private theorem value_eq_fraction (decimal : Decimal) :
    decimal.value = (fraction decimal).1 / (fraction decimal).2 := by
  have power {k : Int} (nonneg : 0 ≤ k) : ((10 ^ k.toNat : Nat) : ℚ) = (10 : ℚ) ^ k := by
    rw [Nat.cast_pow, Nat.cast_ofNat, ← zpow_natCast, Int.toNat_of_nonneg nonneg]
  simp only [fraction, value]
  split
  · rename_i nonneg
    rw [Nat.cast_mul, power nonneg]
    simp
  · rename_i below
    rw [power (by omega), zpow_neg, div_inv_eq_mul]

private theorem toBinary_eq_fraction {decimal : Decimal} (negative : Bool)
    (nonzero : decimal.digits ≠ 0) :
    decimal.toBinary negative =
      if Int.log 10 decimal.value + 1 < -330 then .zero negative
      else if 311 < Int.log 10 decimal.value + 1 then .infinity negative
      else .ofQuotient negative (fraction decimal).1 (fraction decimal).2 := by
  simp only [toBinary, magnitude_eq_log nonzero, nonzero, false_or, fraction]
  split <;> try rfl
  split <;> try rfl
  split <;> rfl

/-- Decimals of one value have the same nearest number. -/
theorem toBinary_congr (negative : Bool) {first second : Decimal}
    (same : first.value = second.value) :
    first.toBinary negative = second.toBinary negative := by
  by_cases zero : first.digits = 0
  · have zero' : second.digits = 0 := by
      by_contra nonzero
      have positive := value_pos nonzero
      rw [← same] at positive
      simp [value, zero] at positive
    simp [toBinary, zero, zero']
  · have nonzero : second.digits ≠ 0 := by
      intro zero'
      have positive := value_pos zero
      rw [same] at positive
      simp [value, zero'] at positive
    have cross : (fraction first).1 * (fraction second).2 =
        (fraction second).1 * (fraction first).2 := by
      have equal := same
      rw [value_eq_fraction, value_eq_fraction, div_eq_div_iff
        (by have := fraction_pos first; positivity)
        (by have := fraction_pos second; positivity)] at equal
      exact_mod_cast equal
    rw [toBinary_eq_fraction negative zero, toBinary_eq_fraction negative nonzero, same,
      Binary64.ofQuotient_congr negative (fraction_pos first) (fraction_pos second) cross]

private theorem zpow_le_zpow_of_nat {a b m n : Nat} (least : a ^ m ≤ b ^ n) :
    (a : ℚ) ^ (m : Int) ≤ (b : ℚ) ^ (n : Int) := by
  rw [zpow_natCast, zpow_natCast]
  exact_mod_cast least

private theorem largest_power : (2 : ℚ) ^ (1024 : Int) ≤ 10 ^ (311 : Int) := by
  have natural : 2 ^ 1024 ≤ 10 ^ 311 := by decide +kernel
  simpa only [Nat.cast_ofNat] using zpow_le_zpow_of_nat natural

/-- The value of a number in canonical form is neither too small nor too large for a decimal. -/
private theorem log_ten_bounds {significand : Nat} {exponent : Int} (nonzero : significand ≠ 0)
    (canonical : Binary64.IsCanonical significand exponent) :
    -331 ≤ Int.log 10 ((significand : ℚ) * 2 ^ exponent) ∧
      Int.log 10 ((significand : ℚ) * 2 ^ exponent) ≤ 310 := by
  obtain ⟨bounded, least, greatest, -⟩ := Binary64.isCanonical_iff.mp canonical
  have positive : (0 : ℚ) < significand * 2 ^ exponent := by positivity
  have smallest : (2 : ℚ) ^ (1074 : Int) ≤ 10 ^ (331 : Int) := by
    have natural : 2 ^ 1074 ≤ 10 ^ 331 := by decide +kernel
    simpa only [Nat.cast_ofNat] using zpow_le_zpow_of_nat natural
  constructor
  · rw [← Int.zpow_le_iff_le_log (by omega) positive]
    calc ((10 : Nat) : ℚ) ^ (-331 : Int) = (10 ^ (331 : Int))⁻¹ := by
          rw [zpow_neg, Nat.cast_ofNat]
      _ ≤ (2 ^ (1074 : Int))⁻¹ := inv_anti₀ (zpow_pos two_pos _) smallest
      _ = 1 * 2 ^ (-1074 : Int) := by rw [zpow_neg, one_mul]
      _ ≤ significand * 2 ^ exponent := by
        have one : (1 : ℚ) ≤ significand := by exact_mod_cast Nat.one_le_iff_ne_zero.mpr nonzero
        exact mul_le_mul one (zpow_le_zpow_right₀ one_le_two least) (zpow_pos two_pos _).le
          (by positivity)
  · rw [← Int.lt_add_one_iff, ← Int.lt_zpow_iff_log_lt (by omega) positive]
    calc (significand : ℚ) * 2 ^ exponent < 2 ^ (53 : Int) * 2 ^ exponent := by
          gcongr
          exact_mod_cast bounded
      _ ≤ 2 ^ (53 : Int) * 2 ^ (971 : Int) :=
          mul_le_mul_of_nonneg_left (zpow_le_zpow_right₀ one_le_two greatest)
            (zpow_pos two_pos _).le
      _ = 2 ^ (1024 : Int) := by rw [← zpow_add₀ two_ne_zero, show (53 + 971 : Int) = 1024 by omega]
      _ ≤ 10 ^ (311 : Int) := largest_power
      _ = ((10 : Nat) : ℚ) ^ (310 + 1 : Int) := by
          rw [Nat.cast_ofNat, show (310 + 1 : Int) = 311 by omega]

/-- A decimal with the value of a number is nearest to that number. -/
theorem toBinary_of_value {decimal : Decimal} {significand : Nat} {exponent : Int}
    (nonzero : significand ≠ 0) (canonical : Binary64.IsCanonical significand exponent)
    (same : decimal.value = significand * 2 ^ exponent) :
    decimal.toBinary false = .finite false significand exponent canonical := by
  have digits : decimal.digits ≠ 0 := by
    intro zero
    have positive : (0 : ℚ) < significand * 2 ^ exponent := by positivity
    simp [← same, value, zero] at positive
  obtain ⟨lower, upper⟩ := log_ten_bounds nonzero canonical
  have quotientValue : ((Binary64.quotient significand exponent).1 : ℚ) /
      (Binary64.quotient significand exponent).2 = significand * 2 ^ exponent :=
    Binary64.quotient_value significand exponent
  have quotientPos := Binary64.quotient_pos significand exponent
  have cross : (fraction decimal).1 * (Binary64.quotient significand exponent).2 =
      (Binary64.quotient significand exponent).1 * (fraction decimal).2 := by
    have equal := same.trans quotientValue.symm
    rw [value_eq_fraction, div_eq_div_iff (by have := fraction_pos decimal; positivity)
      (by positivity)] at equal
    exact_mod_cast equal
  rw [toBinary_eq_fraction false digits, same, if_neg (by omega), if_neg (by omega),
    Binary64.ofQuotient_congr false (fraction_pos decimal) quotientPos cross,
    Binary64.ofQuotient_quotient false canonical, if_neg nonzero]

theorem value_normalize (fuel : Nat) (decimal : Decimal) :
    (normalize fuel decimal).value = decimal.value := by
  induction fuel generalizing decimal with
  | zero => rfl
  | succ fuel ih =>
    unfold normalize
    split
    · rename_i trailing
      rw [ih, value, value]
      have digits : decimal.digits = decimal.digits / 10 * 10 := by omega
      conv_rhs => rw [digits]
      rw [zpow_add₀ (by norm_num)]
      push_cast
      ring
    · rfl

theorem value_exact (significand : Nat) (exponent : Int) :
    (exact significand exponent).value = significand * 2 ^ exponent := by
  unfold exact
  split
  · rename_i nonneg
    simp only [value, Nat.pow_eq, Nat.cast_mul, Nat.cast_pow, Nat.cast_ofNat, zpow_zero, mul_one]
    rw [← zpow_natCast, Int.toNat_of_nonneg nonneg]
  · rename_i below
    simp only [value, Nat.pow_eq, Nat.cast_mul, Nat.cast_pow, Nat.cast_ofNat]
    rw [← zpow_natCast, Int.toNat_of_nonneg (by omega), mul_assoc,
      show (10 : ℚ) = 5 * 2 by norm_num, mul_zpow, ← mul_assoc ((5 : ℚ) ^ _),
      ← zpow_add₀ (by norm_num), neg_add_cancel, zpow_zero, one_mul]

/-- The shortest decimal of a number is nearest to that number. -/
theorem toBinary_shortest {significand : Nat} {exponent : Int} (nonzero : significand ≠ 0)
    (canonical : Binary64.IsCanonical significand exponent) :
    (shortest significand exponent).toBinary false =
      .finite false significand exponent canonical := by
  simp only [shortest]
  rw [toBinary_congr false (value_normalize _ _)]
  generalize candidates : List.flatMap _ (List.range 17) = decimals
  cases found : decimals.find? fun decimal =>
      decide (decimal.toBinary false = Binary64.ofParts false significand exponent) with
  | none => exact toBinary_of_value nonzero canonical (value_exact significand exponent)
  | some decimal =>
    have nearest := List.find?_some found
    simp only [Binary64.ofParts, canonical, ↓reduceDIte, decide_eq_true_eq] at nearest
    exact nearest

/-- A decimal below the bound is nearest to some number, and infinite from the bound on. -/
theorem toBinary_range (negative : Bool) (decimal : Decimal) :
    (Binary64.overflowBound ≤ decimal.value → decimal.toBinary negative = .infinity negative) ∧
    (decimal.value < Binary64.overflowBound → ∃ significand exponent canonical,
      decimal.toBinary negative = .finite negative significand exponent canonical) := by
  have zero : ∃ significand exponent canonical,
      Binary64.zero negative = .finite negative significand exponent canonical := ⟨0, -1074, by decide, rfl⟩
  by_cases digits : decimal.digits = 0
  · have value : decimal.value = 0 := by simp [Decimal.value, digits]
    have positive := zero_lt_one.trans Binary64.one_lt_overflowBound
    refine ⟨fun large => absurd (value ▸ large) positive.not_ge, fun _ => ?_⟩
    simpa [toBinary, digits] using zero
  obtain ⟨lower, upper⟩ := (log_ten_eq_iff (value_pos digits) _).mp rfl
  rw [toBinary_eq_fraction negative digits]
  split
  · rename_i tiny
    have small : decimal.value < Binary64.overflowBound :=
      calc decimal.value < 10 ^ (Int.log 10 decimal.value + 1) := upper
        _ ≤ 10 ^ (0 : Int) := zpow_le_zpow_right₀ (by norm_num) (by omega)
        _ = 1 := zpow_zero 10
        _ < Binary64.overflowBound := Binary64.one_lt_overflowBound
    exact ⟨fun large => absurd large small.not_ge, fun _ => zero⟩
  · split
    · rename_i huge
      have large : Binary64.overflowBound ≤ decimal.value :=
        calc Binary64.overflowBound ≤ 2 ^ (1024 : Int) := Binary64.overflowBound_le
          _ ≤ 10 ^ (311 : Int) := largest_power
          _ ≤ 10 ^ Int.log 10 decimal.value := zpow_le_zpow_right₀ (by norm_num) (by omega)
          _ ≤ decimal.value := lower
      exact ⟨fun _ => rfl, fun small => absurd small large.not_gt⟩
    · rw [value_eq_fraction]
      exact Binary64.ofQuotient_range negative (fraction_pos decimal)

end Decimal

end StaticStyle
