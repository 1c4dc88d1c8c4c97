/-!
Binary floating-point numbers with 53 significant bits, as exact values. Every operation is exact
arithmetic on integers followed by at most one rounding to the nearest number, ties to the even
significand.
-/

namespace StaticStyle

/-- A number is written with all 53 bits unless its exponent is already the least one. -/
def Binary64.IsCanonical (significand : Nat) (exponent : Int) : Prop :=
  significand < Nat.pow 2 53 ∧ -1074 ≤ exponent ∧ exponent ≤ 971 ∧
    (Nat.pow 2 52 ≤ significand ∨ exponent = -1074)

instance (significand : Nat) (exponent : Int) :
    Decidable (Binary64.IsCanonical significand exponent) :=
  inferInstanceAs (Decidable (_ ∧ _ ∧ _ ∧ _))

/-- A finite number is its sign and `significand · 2 ^ exponent`; zero has both signs. -/
inductive Binary64 where
  | nan
  | infinity (negative : Bool)
  | finite (negative : Bool) (significand : Nat) (exponent : Int)
      (canonical : Binary64.IsCanonical significand exponent)
deriving DecidableEq, Repr

namespace Binary64

def zero (negative : Bool) : Binary64 := finite negative 0 (-1074) (by decide)

/-- A number in canonical form, or infinity if the significand and exponent are not in it. -/
def ofParts (negative : Bool) (significand : Nat) (exponent : Int) : Binary64 :=
  if canonical : IsCanonical significand exponent then
    finite negative significand exponent canonical
  else
    infinity negative

/-- The quotient of two numbers rounded to the nearest integer, a tie to the even one. -/
def roundedQuotient (numerator denominator : Nat) : Nat :=
  let quotient := numerator / denominator
  let twice := 2 * (numerator % denominator)
  if twice < denominator then quotient
  else if denominator < twice then quotient + 1
  else quotient + quotient % 2

/-- The largest `k` with `2 ^ k ≤ numerator / denominator`, for positive numbers. -/
def binaryMagnitude (numerator denominator : Nat) : Int :=
  let difference : Int := numerator.log2 - denominator.log2
  let scaled := if 0 ≤ difference then denominator * Nat.pow 2 difference.toNat ≤ numerator
    else denominator ≤ numerator * Nat.pow 2 (-difference).toNat
  if scaled then difference else difference - 1

/-- The number nearest to a quotient of natural numbers. -/
def ofQuotient (negative : Bool) (numerator denominator : Nat) : Binary64 :=
  if numerator = 0 then zero negative
  else
    let exponent := max (binaryMagnitude numerator denominator - 52) (-1074)
    let significand :=
      if 0 ≤ exponent then roundedQuotient numerator (denominator * Nat.pow 2 exponent.toNat)
      else roundedQuotient (numerator * Nat.pow 2 (-exponent).toNat) denominator
    if significand = Nat.pow 2 53 then ofParts negative (Nat.pow 2 52) (exponent + 1)
    else ofParts negative significand exponent

/-- The absolute value of a finite number as a numerator and a denominator. -/
def quotient (significand : Nat) (exponent : Int) : Nat × Nat :=
  if 0 ≤ exponent then (significand * Nat.pow 2 exponent.toNat, 1)
  else (significand, Nat.pow 2 (-exponent).toNat)

/-- The integer a number is equal to, if there is one. -/
def toInt? : Binary64 → Option Int
  | nan => none
  | infinity _ => none
  | finite negative significand exponent _ =>
    let (numerator, denominator) := quotient significand exponent
    if numerator % denominator = 0 then
      let magnitude : Int := ((numerator / denominator : Nat) : Int)
      some (if negative then -magnitude else magnitude)
    else none

def negate : Binary64 → Binary64
  | nan => nan
  | infinity negative => infinity !negative
  | finite negative significand exponent canonical =>
    finite (!negative) significand exponent canonical

/-- The position of a number relative to an integer, unless it is not a number. -/
def compareInt? : Binary64 → Int → Option Ordering
  | nan, _ => none
  | infinity negative, _ => some (if negative then .lt else .gt)
  | finite negative significand exponent _, n =>
    let (numerator, denominator) := quotient significand exponent
    let signed : Int := if negative then -(numerator : Int) else numerator
    some (compare signed (n * (denominator : Int)))

/-- Whether a number is zero, of either sign. -/
def isZero : Binary64 → Bool
  | finite _ 0 _ _ => true
  | _ => false

end Binary64

end StaticStyle
