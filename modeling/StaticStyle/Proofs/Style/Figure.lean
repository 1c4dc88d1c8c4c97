import Mathlib.Tactic.Simps.Basic
import StaticStyle.Proofs.Expression.Numeral
import StaticStyle.Value.Display

/-!
Numbers in style sheets. Every integer and every finite binary number is written as a figure: a minus sign, digits, a
fraction and an exponent, of which all but the digits may be missing. The infinite numbers are written as names.
-/

namespace StaticStyle

/-- Decimal digits, of which there is at least one. -/
structure Digits where
  characters : List Char
  nonempty : characters ≠ []
  decimal : ∀ c ∈ characters, c.isDigit = true

namespace Digits

@[simps]
def ofNat (n : Nat) : Digits where
  characters := Nat.toDigits 10 n
  nonempty := Nat.toDigits_ne_nil
  decimal _ member := Nat.isDigit_of_mem_toDigits (by omega) (by omega) member

/-- Digits with zeros in front of them. -/
@[simps]
def padded (zeros : Nat) (digits : Digits) : Digits where
  characters := List.replicate zeros '0' ++ digits.characters
  nonempty := List.append_ne_nil_of_right_ne_nil _ digits.nonempty
  decimal := List.forall_mem_append.mpr ⟨fun _ member => List.eq_of_mem_replicate member ▸ rfl, digits.decimal⟩

/-- Digits with zeros behind them. -/
@[simps]
def shifted (digits : Digits) (zeros : Nat) : Digits where
  characters := digits.characters ++ List.replicate zeros '0'
  nonempty := List.append_ne_nil_of_left_ne_nil digits.nonempty _
  decimal := List.forall_mem_append.mpr ⟨digits.decimal, fun _ member => List.eq_of_mem_replicate member ▸ rfl⟩

/-- The digits in front of a place among them. -/
@[simps]
def front (digits : Digits) (count : Nat) (positive : 0 < count) : Digits where
  characters := digits.characters.take count
  nonempty := by simp [digits.nonempty, Nat.ne_of_gt positive]
  decimal c member := digits.decimal c (List.mem_of_mem_take member)

/-- The digits behind a place among them. -/
@[simps]
def behind (digits : Digits) (count : Nat) (inside : count < digits.characters.length) : Digits where
  characters := digits.characters.drop count
  nonempty := by simpa using inside
  decimal c member := digits.decimal c (List.mem_of_mem_drop member)

end Digits

/-- A number as it reads in a style sheet. The sign of an exponent is always written. -/
structure Figure where
  negative : Bool
  whole : Digits
  fraction : Option Digits
  exponent : Option (Bool × Digits)

namespace Figure

@[simp]
def fractionText (figure : Figure) : List Char := figure.fraction.elim [] fun digits => '.' :: digits.characters

@[simp]
def exponentText (figure : Figure) : List Char :=
  figure.exponent.elim [] fun (negative, digits) => 'e' :: (if negative then '-' else '+') :: digits.characters

/-- A figure without its sign. -/
@[simp]
def magnitude (figure : Figure) : List Char := figure.whole.characters ++ figure.fractionText ++ figure.exponentText

def text (figure : Figure) : Text :=
  (if figure.negative then [CodePoint.char '-'] else []) ++ figure.magnitude.map .char

theorem exists_digit (figure : Figure) : ∃ c ∈ figure.text, c.isAsciiDigit = true := by
  obtain ⟨c, member⟩ := List.exists_mem_of_ne_nil _ figure.whole.nonempty
  refine ⟨.char c, ?_, figure.whole.decimal c member⟩
  simp [text, member]

end Figure

namespace Decimal

theorem exists_figure_positional (negative : Bool) (digits : Digits) (point : Int) : ∃ figure : Figure,
    figure.negative = negative ∧ figure.magnitude = positional digits.characters point := by
  unfold positional
  split
  · refine ⟨⟨negative, .ofNat 0, some (digits.padded (-point).toNat), none⟩, rfl, ?_⟩
    simp
  · split
    · refine ⟨⟨negative, digits.shifted (point.toNat - digits.characters.length), some (.ofNat 0), none⟩, rfl, ?_⟩
      simp
    · refine ⟨⟨negative, digits.front point.toNat (by omega), some (digits.behind point.toNat (by omega)), none⟩,
        rfl, ?_⟩
      simp

theorem exists_figure_scientific (negative : Bool) (digits : Digits) (power : Int) : ∃ figure : Figure,
    figure.negative = negative ∧ figure.magnitude = scientific digits.characters power := by
  by_cases single : digits.characters.length ≤ 1
  · refine ⟨⟨negative, digits, none, some (decide (power < 0),
      (Digits.ofNat power.natAbs).padded (2 - (Nat.toDigits 10 power.natAbs).length))⟩, rfl, ?_⟩
    simp [scientific, single, List.take_of_length_le single]
  · refine ⟨⟨negative, digits.front 1 Nat.one_pos, some (digits.behind 1 (by omega)), some (decide (power < 0),
      (Digits.ofNat power.natAbs).padded (2 - (Nat.toDigits 10 power.natAbs).length))⟩, rfl, ?_⟩
    simp [scientific, single]

theorem exists_figure (negative : Bool) (decimal : Decimal) : ∃ figure : Figure,
    figure.negative = negative ∧ figure.magnitude = decimal.write := by
  rw [write]
  split
  · exact exists_figure_positional negative (.ofNat decimal.digits) _
  · exact exists_figure_scientific negative (.ofNat decimal.digits) _

end Decimal

theorem Binary64.exists_figure (negative : Bool) {significand : Nat} {exponent : Int}
    (canonical : IsCanonical significand exponent) :
    ∃ figure : Figure, (finite negative significand exponent canonical).write = figure.text := by
  obtain ⟨figure, rfl, written⟩ := (numeral significand exponent).exists_figure negative
  exact ⟨figure, by rw [write_finite, Figure.text, written]⟩

theorem Text.exists_figure (n : Int) : ∃ figure : Figure, ofInt n = figure.text := by
  have counted (negative : Bool) (n : Nat) : (⟨negative, .ofNat n, none, none⟩ : Figure).text =
      (if negative then [CodePoint.char '-'] else []) ++ ofNat n := by
    simp [Figure.text, ofNat]
  cases n with
  | ofNat n => exact ⟨_, (counted false n).symm⟩
  | negSucc n => exact ⟨_, (counted true (n + 1)).symm⟩

namespace Expression.Number

@[simp] theorem isFinite_negate (number : Number) : number.negate.isFinite = number.isFinite := by
  cases number with
  | whole n => rfl
  | real x =>
    cases x with
    | nan | infinity => rfl
    | finite negative significand exponent canonical =>
      rw [negate]
      split <;> rfl

/-- A number is written as a figure if it is finite, and only then. -/
theorem isFinite_iff_figure (number : Number) :
    number.isFinite = true ↔ ∃ figure : Figure, number.toValue.css = figure.text := by
  have noFigure {name : Text} (letters : ∀ c ∈ name, c.isAsciiDigit = false) :
      ¬ ∃ figure : Figure, name = figure.text := by
    rintro ⟨figure, rfl⟩
    obtain ⟨c, member, digit⟩ := figure.exists_digit
    simp [letters c member] at digit
  cases number with
  | whole n => exact iff_of_true rfl (Text.exists_figure n)
  | real x =>
    cases x with
    | finite negative significand exponent canonical =>
      refine iff_of_true rfl ?_
      rw [toValue, Value.css]
      split
      · exact Text.exists_figure _
      · exact Binary64.exists_figure negative canonical
    | nan =>
      refine iff_of_false Bool.false_ne_true (noFigure ?_)
      decide
    | infinity negative =>
      refine iff_of_false Bool.false_ne_true (noFigure ?_)
      cases negative <;> decide

end Expression.Number

end StaticStyle
