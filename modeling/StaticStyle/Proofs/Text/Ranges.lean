import StaticStyle.Text.Blank
import StaticStyle.Text.Digit

namespace StaticStyle

theorem Ranges.exists_of_includes {ranges : Ranges} {number : Nat} (inside : ranges.includes number = true) :
    ∃ range ∈ ranges, range.1 ≤ number ∧ number ≤ range.2 := by
  induction ranges with
  | nil => simp [includes] at inside
  | cons range ranges ih =>
    obtain ⟨low, high⟩ := range
    simp only [includes] at inside
    split at inside
    · simp at inside
    · split at inside
      · rename_i above below
        exact ⟨(low, high), List.mem_cons_self, Nat.le_of_not_lt above, below⟩
      · obtain ⟨range, member, bounds⟩ := ih inside
        exact ⟨range, List.mem_cons_of_mem _ member, bounds⟩

theorem CodePoint.of_isBlank {p : Nat → Bool} {c : CodePoint} (blank : c.isBlank = true)
    (all : (blankRanges.all fun range => (List.range' range.1 (range.2 + 1 - range.1)).all p) = true) :
    p c.toNat = true := by
  obtain ⟨range, member, low, high⟩ := Ranges.exists_of_includes blank
  exact List.all_eq_true.mp (List.all_eq_true.mp all range member) c.toNat (List.mem_range'_1.mpr ⟨low, by omega⟩)

theorem CodePoint.isBlank_of_isDecimalDigit {c : CodePoint} (digit : c.isDecimalDigit = true) : c.isBlank = false := by
  refine Bool.eq_false_iff.mpr fun blank => ?_
  have outside := CodePoint.of_isBlank (p := fun n => digitRanges.distance? n = none) blank (by decide +kernel)
  simp [isDecimalDigit, decimalDigit?, of_decide_eq_true outside] at digit

theorem CodePoint.isBlank_of_hexDigit? {c : CodePoint} (digit : c.hexDigit?.isSome = true) : c.isBlank = false := by
  refine Bool.eq_false_iff.mpr fun blank => ?_
  have outside := CodePoint.of_isBlank (p := fun n => n < 48 ∨ 57 < n ∧ n < 65 ∨ 70 < n ∧ n < 97 ∨ 102 < n) blank
    (by decide +kernel)
  have outside := of_decide_eq_true outside
  cases c with
  | surrogate index => cases digit
  | char c =>
    have number : toNat (.char c) = c.toNat := rfl
    rw [number] at outside
    simp only [hexDigit?] at digit
    split at digit
    · rename_i decimal
      simp only [Char.isDigit, Bool.and_eq_true, decide_eq_true_eq, ge_iff_le, UInt32.le_iff_toNat_le] at decimal
      have low : 48 ≤ c.toNat := decimal.1
      have high : c.toNat ≤ 57 := decimal.2
      omega
    · split at digit
      · rename_i small
        have low : 97 ≤ c.toNat := small.1
        have high : c.toNat ≤ 102 := small.2
        omega
      · split at digit
        · rename_i capital
          have low : 65 ≤ c.toNat := capital.1
          have high : c.toNat ≤ 70 := capital.2
          omega
        · cases digit

theorem CodePoint.toAsciiLower_of_isDecimalDigit {c : CodePoint} (digit : c.isDecimalDigit = true) :
    c.toAsciiLower = c := by
  cases c with
  | surrogate index => rfl
  | char c =>
    have noCapital : ∀ n < 91, 65 ≤ n → digitRanges.distance? n = none := by decide
    refine congrArg CodePoint.char (dif_neg fun capital => ?_)
    have low : 65 ≤ c.toNat := capital.1
    have high : c.toNat < 91 := Nat.lt_succ_of_le capital.2
    simp [isDecimalDigit, decimalDigit?, toNat, noCapital c.toNat high low] at digit

end StaticStyle
