import Mathlib.Algebra.Order.Field.Power
import Mathlib.Data.Int.Log
import Mathlib.Data.Rat.Floor
import Mathlib.Tactic.Ring
import StaticStyle.Binary64.Basic

namespace StaticStyle.Binary64

theorem isCanonical_iff {significand : Nat} {exponent : Int} :
    IsCanonical significand exponent ↔
      significand < 2 ^ 53 ∧ -1074 ≤ exponent ∧ exponent ≤ 971 ∧
        (2 ^ 52 ≤ significand ∨ exponent = -1074) :=
  Iff.rfl

private theorem two_zpow_toNat {k : Int} (nonneg : 0 ≤ k) :
    ((2 ^ k.toNat : Nat) : ℚ) = (2 : ℚ) ^ k := by
  rw [Nat.cast_pow, Nat.cast_ofNat, ← zpow_natCast, Int.toNat_of_nonneg nonneg]

private theorem scaled_iff {numerator denominator : Nat} (positive : 0 < denominator) (k : Int) :
    (if 0 ≤ k then denominator * 2 ^ k.toNat ≤ numerator
      else denominator ≤ numerator * 2 ^ (-k).toNat) ↔
      (2 : ℚ) ^ k ≤ numerator / denominator := by
  have positive' : (0 : ℚ) < denominator := by exact_mod_cast positive
  rw [le_div_iff₀ positive']
  split
  · rename_i nonneg
    rw [← two_zpow_toNat nonneg, mul_comm denominator]
    norm_cast
  · rename_i negative
    have inverse : (2 : ℚ) ^ k * (2 ^ (-k).toNat : Nat) = 1 := by
      rw [two_zpow_toNat (by omega), ← zpow_add₀ two_ne_zero, add_neg_cancel, zpow_zero]
    have power : (0 : ℚ) < 2 ^ k := by positivity
    have cancelled : (numerator : ℚ) = 2 ^ k * (numerator * (2 ^ (-k).toNat : Nat)) := by
      rw [mul_left_comm, inverse, mul_one]
    rw [cancelled, mul_le_mul_iff_right₀ power]
    norm_cast

private theorem log_eq_iff {r : ℚ} (positive : 0 < r) (k : Int) :
    Int.log 2 r = k ↔ (2 : ℚ) ^ k ≤ r ∧ r < (2 : ℚ) ^ (k + 1) := by
  have lower := Int.zpow_le_iff_le_log (b := 2) (x := k) (by omega) positive
  have upper := Int.lt_zpow_iff_log_lt (b := 2) (x := k + 1) (by omega) positive
  push_cast at lower upper
  rw [lower, upper]
  omega

theorem binaryMagnitude_eq_log {numerator denominator : Nat} (positive : 0 < numerator)
    (positive' : 0 < denominator) :
    binaryMagnitude numerator denominator = Int.log 2 ((numerator : ℚ) / denominator) := by
  have quotientPos : (0 : ℚ) < numerator / denominator := by positivity
  have denominatorPos : (0 : ℚ) < denominator := by positivity
  have bounds (n : Nat) (h : 0 < n) :
      (2 : ℚ) ^ (n.log2 : Int) ≤ n ∧ (n : ℚ) < (2 : ℚ) ^ ((n.log2 : Int) + 1) := by
    constructor
    · exact_mod_cast Nat.log2_self_le (by omega)
    · exact_mod_cast Nat.lt_log2_self (n := n)
  obtain ⟨numeratorLower, numeratorUpper⟩ := bounds numerator positive
  obtain ⟨denominatorLower, denominatorUpper⟩ := bounds denominator positive'
  symm
  rw [log_eq_iff quotientPos]
  simp only [binaryMagnitude, Nat.pow_eq]
  rw [le_div_iff₀ denominatorPos, div_lt_iff₀ denominatorPos]
  generalize difference : (numerator.log2 : Int) - denominator.log2 = k
  by_cases scaled : (2 : ℚ) ^ k ≤ numerator / denominator
  · rw [if_pos ((scaled_iff positive' k).mpr scaled)]
    refine ⟨(le_div_iff₀ denominatorPos).mp scaled, ?_⟩
    calc (numerator : ℚ) < 2 ^ ((numerator.log2 : Int) + 1) := numeratorUpper
      _ = 2 ^ (k + 1) * 2 ^ (denominator.log2 : Int) := by
        rw [← zpow_add₀ two_ne_zero]; congr 1; omega
      _ ≤ 2 ^ (k + 1) * denominator := by gcongr
  · rw [if_neg (fun h => scaled ((scaled_iff positive' k).mp h))]
    rw [not_le, div_lt_iff₀ denominatorPos] at scaled
    refine ⟨?_, by simpa using scaled⟩
    calc (2 : ℚ) ^ (k - 1) * denominator
        ≤ 2 ^ (k - 1) * 2 ^ ((denominator.log2 : Int) + 1) := by gcongr
      _ = 2 ^ (numerator.log2 : Int) := by
        rw [← zpow_add₀ two_ne_zero]; congr 1; omega
      _ ≤ numerator := numeratorLower

theorem roundedQuotient_mul_right (numerator denominator : Nat) {c : Nat} (positive : 0 < c) :
    roundedQuotient (numerator * c) (denominator * c) = roundedQuotient numerator denominator := by
  have cancel (a b : Nat) : a * c < b * c ↔ a < b := Nat.mul_lt_mul_right positive
  simp only [roundedQuotient, Nat.mul_div_mul_right _ _ positive, Nat.mul_mod_mul_right,
    ← Nat.mul_assoc, cancel]

theorem roundedQuotient_mul_left (n : Nat) {denominator : Nat} (positive : 0 < denominator) :
    roundedQuotient (n * denominator) denominator = n := by
  simp [roundedQuotient, Nat.mul_div_cancel _ positive, positive]

theorem ofQuotient_mul_right (negative : Bool) (numerator : Nat) {denominator c : Nat}
    (positive : 0 < denominator) (positive' : 0 < c) :
    ofQuotient negative (numerator * c) (denominator * c) =
      ofQuotient negative numerator denominator := by
  by_cases zero : numerator = 0
  · simp [ofQuotient, zero]
  have sameMagnitude :
      binaryMagnitude (numerator * c) (denominator * c) =
        binaryMagnitude numerator denominator := by
    rw [binaryMagnitude_eq_log (by positivity) (by positivity),
      binaryMagnitude_eq_log (by positivity) (by positivity)]
    push_cast
    rw [mul_div_mul_right _ _ (by positivity)]
  have nonzero : numerator * c ≠ 0 := by positivity
  have right (power : Nat) : denominator * c * power = denominator * power * c := by ring
  have left (power : Nat) : numerator * c * power = numerator * power * c := by ring
  simp only [ofQuotient, Nat.pow_eq, zero, nonzero, ↓reduceIte, sameMagnitude, right, left,
    roundedQuotient_mul_right _ _ positive']

theorem ofQuotient_congr (negative : Bool) {n d n' d' : Nat} (positive : 0 < d)
    (positive' : 0 < d') (same : n * d' = n' * d) :
    ofQuotient negative n d = ofQuotient negative n' d' := by
  rw [← ofQuotient_mul_right negative n positive positive', same, mul_comm d d',
    ofQuotient_mul_right negative n' positive' positive]

theorem quotient_pos (significand : Nat) (exponent : Int) :
    0 < (quotient significand exponent).2 := by
  simp only [quotient, Nat.pow_eq]
  split <;> positivity

theorem quotient_value (significand : Nat) (exponent : Int) :
    ((quotient significand exponent).1 : ℚ) / (quotient significand exponent).2 =
      significand * 2 ^ exponent := by
  simp only [quotient, Nat.pow_eq]
  split
  · rename_i nonneg
    rw [Nat.cast_mul, two_zpow_toNat nonneg]
    simp
  · rename_i below
    rw [two_zpow_toNat (by omega), zpow_neg, div_inv_eq_mul]

/-- A number is the nearest one to itself. -/
theorem ofQuotient_quotient (negative : Bool) {significand : Nat} {exponent : Int}
    (canonical : IsCanonical significand exponent) :
    ofQuotient negative (quotient significand exponent).1 (quotient significand exponent).2 =
      if significand = 0 then zero negative
      else finite negative significand exponent canonical := by
  obtain ⟨bounded, least, greatest, full⟩ := isCanonical_iff.mp canonical
  by_cases zero : significand = 0
  · simp [ofQuotient, quotient, zero]
    split <;> simp
  have positive : (0 : ℚ) < significand := by positivity
  have numeratorPos : 0 < (quotient significand exponent).1 := by
    simp only [quotient, Nat.pow_eq]
    split <;> positivity
  have exponentEq :
      max (binaryMagnitude (quotient significand exponent).1 (quotient significand exponent).2 - 52)
        (-1074) = exponent := by
    rw [binaryMagnitude_eq_log numeratorPos (quotient_pos significand exponent), quotient_value]
    have valuePos : (0 : ℚ) < significand * 2 ^ exponent := by positivity
    have upper : Int.log 2 ((significand : ℚ) * 2 ^ exponent) < exponent + 53 := by
      rw [← Int.lt_zpow_iff_log_lt (by omega) valuePos]
      calc (significand : ℚ) * 2 ^ exponent < 2 ^ (53 : Int) * 2 ^ exponent := by
            gcongr; exact_mod_cast bounded
        _ = ((2 : Nat) : ℚ) ^ (exponent + 53) := by
            rw [← zpow_add₀ two_ne_zero, add_comm]; norm_num
    rcases full with normal | lowest
    · have lower : exponent + 52 ≤ Int.log 2 ((significand : ℚ) * 2 ^ exponent) := by
        rw [← Int.zpow_le_iff_le_log (by omega) valuePos]
        calc ((2 : Nat) : ℚ) ^ (exponent + 52) = 2 ^ (52 : Int) * 2 ^ exponent := by
              rw [← zpow_add₀ two_ne_zero, add_comm]; norm_num
          _ ≤ significand * 2 ^ exponent := by gcongr; exact_mod_cast normal
      omega
    · omega
  have significandEq :
      (if 0 ≤ exponent then
        roundedQuotient (quotient significand exponent).1
          ((quotient significand exponent).2 * 2 ^ exponent.toNat)
      else roundedQuotient ((quotient significand exponent).1 * 2 ^ (-exponent).toNat)
        (quotient significand exponent).2) = significand := by
    by_cases nonneg : 0 ≤ exponent
    · simp only [quotient, Nat.pow_eq, nonneg, ↓reduceIte, one_mul]
      exact roundedQuotient_mul_left significand (by positivity)
    · simp only [quotient, Nat.pow_eq, nonneg, ↓reduceIte]
      exact roundedQuotient_mul_left significand (by positivity)
  have notCarried : significand ≠ 2 ^ 53 := by omega
  simp only [ofQuotient, Nat.pow_eq, numeratorPos.ne', ↓reduceIte, exponentEq, significandEq, notCarried, zero,
    ofParts]
  rw [dif_pos canonical]

/-- A quotient is rounded to a number or beyond from behind the middle in front of the number on, and in the middle if
the number is even. -/
theorem le_roundedQuotient_iff {numerator denominator n : Nat} (positive : 0 < denominator) :
    n ≤ roundedQuotient numerator denominator ↔
      2 * n * denominator < 2 * numerator + denominator ∨
        (2 * n * denominator = 2 * numerator + denominator ∧ n % 2 = 0) := by
  have whole := Nat.div_add_mod numerator denominator
  have part := Nat.mod_lt numerator positive
  unfold roundedQuotient
  dsimp only
  generalize numerator / denominator = quotient at whole ⊢
  generalize numerator % denominator = remainder at whole part ⊢
  subst whole
  obtain far | near | reached : quotient + 2 ≤ n ∨ quotient + 1 = n ∨ n ≤ quotient := by omega
  · obtain ⟨k, rfl⟩ := Nat.exists_eq_add_of_le far
    have product : 2 * (quotient + 2 + k) * denominator = 2 * (denominator * quotient) + 4 * denominator +
        2 * (k * denominator) := by ring
    split
    · omega
    · split <;> omega
  · subst near
    have product : 2 * (quotient + 1) * denominator = 2 * (denominator * quotient) + 2 * denominator := by ring
    split
    · omega
    · split <;> omega
  · obtain ⟨k, rfl⟩ := Nat.exists_eq_add_of_le reached
    have product : denominator * (n + k) = n * denominator + k * denominator := by ring
    have twice : 2 * n * denominator = 2 * (n * denominator) := by ring
    split
    · omega
    · split <;> omega

/-- The quotient of a number by a power of two, rounded to an integer. -/
def scaledSignificand (numerator denominator : Nat) (exponent : Int) : Nat :=
  if 0 ≤ exponent then roundedQuotient numerator (denominator * 2 ^ exponent.toNat)
  else roundedQuotient (numerator * 2 ^ (-exponent).toNat) denominator

theorem le_scaledSignificand_iff {numerator denominator n : Nat} (positive : 0 < denominator) (exponent : Int) :
    n ≤ scaledSignificand numerator denominator exponent ↔
      ((n : ℚ) - 1 / 2) * 2 ^ exponent < numerator / denominator ∨
        (((n : ℚ) - 1 / 2) * 2 ^ exponent = numerator / denominator ∧ n % 2 = 0) := by
  have denominatorPos : (0 : ℚ) < denominator := by exact_mod_cast positive
  have power : (0 : ℚ) < 2 ^ exponent := by positivity
  rw [lt_div_iff₀ denominatorPos, eq_div_iff denominatorPos.ne']
  unfold scaledSignificand
  split
  · rename_i nonneg
    have scale := two_zpow_toNat nonneg
    push_cast at scale
    rw [le_roundedQuotient_iff (by positivity), ← @Nat.cast_lt ℚ, ← @Nat.cast_inj ℚ]
    push_cast
    rw [scale]
    refine or_congr ⟨fun _ => by linarith, fun _ => by linarith⟩
      (and_congr_left' ⟨fun _ => by linarith, fun _ => by linarith⟩)
  · rename_i negative
    have inverse : (2 : ℚ) ^ exponent * 2 ^ (-exponent).toNat = 1 := by
      have scale := two_zpow_toNat (k := -exponent) (by omega)
      push_cast at scale
      rw [scale, ← zpow_add₀ two_ne_zero, add_neg_cancel, zpow_zero]
    have cancelled : (2 : ℚ) ^ exponent * (numerator * 2 ^ (-exponent).toNat) = numerator := by
      rw [mul_left_comm, inverse, mul_one]
    rw [le_roundedQuotient_iff positive, ← @Nat.cast_lt ℚ, ← @Nat.cast_inj ℚ, ← mul_lt_mul_iff_right₀ power,
      ← mul_right_inj' power.ne']
    push_cast
    refine or_congr ⟨fun _ => by linarith, fun _ => by linarith⟩
      (and_congr_left' ⟨fun _ => by linarith, fun _ => by linarith⟩)

/-- The least magnitude that is infinite: the middle between the largest number and the power of two behind it. -/
def overflowBound : ℚ := (2 ^ 53 - 1 / 2) * 2 ^ (971 : Int)

theorem one_lt_overflowBound : 1 < overflowBound :=
  one_lt_mul_of_lt_of_le (by norm_num) (one_le_zpow₀ one_le_two (by omega))

theorem overflowBound_le : overflowBound ≤ 2 ^ (1024 : Int) :=
  calc overflowBound ≤ 2 ^ (53 : Int) * 2 ^ (971 : Int) := by
        unfold overflowBound
        gcongr
        norm_num
    _ = 2 ^ (1024 : Int) := by rw [← zpow_add₀ two_ne_zero, show (53 + 971 : Int) = 1024 by omega]

private theorem exponent_bounds {r : ℚ} (positive : 0 < r) {exponent : Int}
    (found : max (Int.log 2 r - 52) (-1074) = exponent) :
    r < 2 ^ 53 * 2 ^ exponent ∧ (exponent = -1074 ∨ 2 ^ 52 * 2 ^ exponent ≤ r) := by
  have power (k : Nat) : (2 : ℚ) ^ k * 2 ^ exponent = 2 ^ (exponent + k) := by
    rw [← zpow_natCast, ← zpow_add₀ two_ne_zero, add_comm]
  obtain ⟨lower, upper⟩ := (log_eq_iff positive _).mp rfl
  rw [power, power]
  refine ⟨upper.trans_le (zpow_le_zpow_right₀ one_le_two (by omega)), ?_⟩
  by_cases least : exponent = -1074
  · exact .inl least
  · rw [show exponent + (52 : Nat) = Int.log 2 r by omega]
    exact .inr lower

private theorem lt_overflowBound {r : ℚ} {exponent : Int} (upper : r < 2 ^ 53 * 2 ^ exponent) (low : exponent < 971) :
    r < overflowBound := by
  have smaller : (2 : ℚ) ^ (exponent + 1) ≤ 2 ^ (971 : Int) := zpow_le_zpow_right₀ one_le_two (by omega)
  have topPower : (0 : ℚ) < 2 ^ (971 : Int) := by positivity
  rw [zpow_add_one₀ two_ne_zero] at smaller
  unfold overflowBound
  generalize (2 : ℚ) ^ (971 : Int) = top at *
  linarith

private theorem overflowBound_le_of_exponent {r : ℚ} {exponent : Int} (normal : 2 ^ 52 * 2 ^ exponent ≤ r)
    (high : 971 < exponent) : overflowBound ≤ r := by
  have larger : (2 : ℚ) ^ (971 + 1 : Int) ≤ 2 ^ exponent := zpow_le_zpow_right₀ one_le_two (by omega)
  have topPower : (0 : ℚ) < 2 ^ (971 : Int) := by positivity
  rw [zpow_add_one₀ two_ne_zero] at larger
  unfold overflowBound
  generalize (2 : ℚ) ^ (971 : Int) = top at *
  linarith

private theorem ofParts_canonical (negative : Bool) {significand : Nat} {exponent : Int}
    (canonical : IsCanonical significand exponent) : ∃ significand' exponent' canonical',
      ofParts negative significand exponent = .finite negative significand' exponent' canonical' :=
  ⟨significand, exponent, canonical, dif_pos canonical⟩

private theorem ofParts_infinity (negative : Bool) (significand : Nat) {exponent : Int} (large : 971 < exponent) :
    ofParts negative significand exponent = .infinity negative :=
  dif_neg fun canonical => by
    have := canonical.2.2.1
    omega

section Quotients

variable (negative : Bool) {numerator denominator : Nat}

private theorem ofQuotient_eq (nonzero : numerator ≠ 0) :
    ofQuotient negative numerator denominator =
      let exponent := max (binaryMagnitude numerator denominator - 52) (-1074)
      if scaledSignificand numerator denominator exponent = 2 ^ 53 then ofParts negative (2 ^ 52) (exponent + 1)
      else ofParts negative (scaledSignificand numerator denominator exponent) exponent := by
  rw [ofQuotient, if_neg nonzero]
  rfl

private theorem scaledSignificand_bounds (positive : 0 < denominator) {exponent : Int}
    (upper : (numerator : ℚ) / denominator < 2 ^ 53 * 2 ^ exponent)
    (lower : exponent = -1074 ∨ 2 ^ 52 * 2 ^ exponent ≤ (numerator : ℚ) / denominator) :
    scaledSignificand numerator denominator exponent ≤ 2 ^ 53 ∧
      (exponent = -1074 ∨ 2 ^ 52 ≤ scaledSignificand numerator denominator exponent) ∧
      (2 ^ 53 ≤ scaledSignificand numerator denominator exponent ↔
        (2 ^ 53 - 1 / 2) * 2 ^ exponent ≤ (numerator : ℚ) / denominator) := by
  have reached (n : Nat) := @le_scaledSignificand_iff numerator denominator n positive exponent
  have power : (0 : ℚ) < 2 ^ exponent := by positivity
  refine ⟨?_, lower.imp_right fun normal => (reached (2 ^ 52)).mpr (.inl ?_), ?_⟩
  · by_contra beyond
    have middle := (reached (2 ^ 53 + 1)).mp (by omega)
    push_cast at middle
    rcases middle with below | ⟨same, -⟩ <;> linarith
  · push_cast
    linarith
  · rw [reached, le_iff_lt_or_eq, and_iff_left (by norm_num)]
    push_cast
    rfl

/-- A quotient below the bound is rounded to a number, and to infinity from the bound on. -/
theorem ofQuotient_range (positive : 0 < denominator) :
    (overflowBound ≤ (numerator : ℚ) / denominator → ofQuotient negative numerator denominator = .infinity negative) ∧
    ((numerator : ℚ) / denominator < overflowBound → ∃ significand exponent canonical,
      ofQuotient negative numerator denominator = .finite negative significand exponent canonical) := by
  by_cases zero : numerator = 0
  · subst zero
    refine ⟨fun large => absurd large ?_, fun _ => ⟨0, -1074, by decide, by simp [ofQuotient, Binary64.zero]⟩⟩
    simpa using zero_lt_one.trans one_lt_overflowBound
  have quotientPos : (0 : ℚ) < numerator / denominator := by positivity
  rw [ofQuotient_eq negative zero]
  dsimp only
  rw [binaryMagnitude_eq_log (by omega) positive]
  generalize found : max (Int.log 2 ((numerator : ℚ) / denominator) - 52) (-1074) = exponent
  obtain ⟨upper, lower⟩ := exponent_bounds quotientPos found
  obtain ⟨most, least, full⟩ := scaledSignificand_bounds positive upper lower
  have atLeast : -1074 ≤ exponent := by omega
  -- Below the greatest exponent nothing overflows, above it everything does, and at it the carry decides.
  obtain low | rfl | high : exponent < 971 ∨ exponent = 971 ∨ 971 < exponent := by omega
  · refine ⟨fun large => absurd large (lt_overflowBound upper low).not_ge, fun _ => ?_⟩
    split
    · exact ofParts_canonical negative ⟨by decide, by omega, by omega, .inl (by decide)⟩
    · exact ofParts_canonical negative (isCanonical_iff.mpr ⟨by omega, by omega, by omega, least.symm⟩)
  · refine ⟨fun large => ?_, fun small => ?_⟩
    · rw [if_pos (le_antisymm most (full.mpr large))]
      exact ofParts_infinity negative _ (by omega)
    · have notFull : ¬ 2 ^ 53 ≤ scaledSignificand numerator denominator 971 := fun carried =>
        absurd (full.mp carried) small.not_ge
      rw [if_neg (by omega)]
      exact ofParts_canonical negative (isCanonical_iff.mpr ⟨by omega, by omega, by omega, least.symm⟩)
  · have above := overflowBound_le_of_exponent (lower.resolve_left (by omega)) high
    refine ⟨fun _ => ?_, fun small => absurd small above.not_gt⟩
    split <;> exact ofParts_infinity negative _ (by omega)

end Quotients

end StaticStyle.Binary64
