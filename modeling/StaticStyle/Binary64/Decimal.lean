import StaticStyle.Binary64.Basic
import StaticStyle.Text.Blank
import StaticStyle.Text.Digit

namespace StaticStyle

/-- The number `digits · 10 ^ exponent`. -/
structure Decimal where
  digits : Nat
  exponent : Int
deriving DecidableEq, Repr

namespace Decimal

def digitCount (n : Nat) : Nat := (Nat.toDigits 10 n).length

/-- The nearest binary number. Values from 10 ^ 310 on are infinite and values below 10 ^ -330 are
zero, whatever their digits are. -/
def toBinary (negative : Bool) (decimal : Decimal) : Binary64 :=
  let magnitude := (digitCount decimal.digits : Int) + decimal.exponent
  if decimal.digits = 0 ∨ magnitude < -330 then .zero negative
  else if 311 < magnitude then .infinity negative
  else if 0 ≤ decimal.exponent then
    .ofQuotient negative (decimal.digits * Nat.pow 10 decimal.exponent.toNat) 1
  else
    .ofQuotient negative decimal.digits (Nat.pow 10 (-decimal.exponent).toNat)

/-- The same number without trailing zeros among its digits. -/
def normalize : (fuel : Nat) → Decimal → Decimal
  | 0, decimal => decimal
  | fuel + 1, decimal =>
    if decimal.digits ≠ 0 ∧ decimal.digits % 10 = 0 then
      normalize fuel ⟨decimal.digits / 10, decimal.exponent + 1⟩
    else decimal

/-- The `k` with `10 ^ (k - 1) ≤ numerator / denominator < 10 ^ k`, for positive numbers. -/
def magnitude (numerator denominator : Nat) : Int :=
  if denominator ≤ numerator then digitCount (numerator / denominator)
  else
    let inverse : Int := digitCount (denominator / numerator)
    if denominator = numerator * Nat.pow 10 (inverse - 1).toNat then 2 - inverse else 1 - inverse

/-- The neighbours of a positive quotient among the multiples of `10 ^ exponent`, the nearer one
first, and in the middle the even one first. -/
def neighbours (numerator denominator : Nat) (exponent : Int) : List Decimal :=
  let scaledNumerator := if exponent < 0 then numerator * Nat.pow 10 (-exponent).toNat else numerator
  let scaledDenominator := if exponent < 0 then denominator else denominator * Nat.pow 10 exponent.toNat
  let below := scaledNumerator / scaledDenominator
  let nearest := Binary64.roundedQuotient scaledNumerator scaledDenominator
  if nearest = below then [⟨below, exponent⟩, ⟨below + 1, exponent⟩]
  else [⟨below + 1, exponent⟩, ⟨below, exponent⟩]

/-- The exact decimal value of a quotient whose denominator is a power of two. -/
def exact (significand : Nat) (exponent : Int) : Decimal :=
  if 0 ≤ exponent then ⟨significand * Nat.pow 2 exponent.toNat, 0⟩
  else ⟨significand * Nat.pow 5 (-exponent).toNat, exponent⟩

/-- The shortest decimal that reads back as `significand · 2 ^ exponent`. -/
def shortest (significand : Nat) (exponent : Int) : Decimal :=
  let (numerator, denominator) := Binary64.quotient significand exponent
  let target := Binary64.ofParts false significand exponent
  let top := magnitude numerator denominator
  let candidates := (List.range 17).flatMap fun (count : Nat) =>
    neighbours numerator denominator (top - (count + 1))
  let found := candidates.find? fun decimal => decimal.toBinary false = target
  normalize 400 (found.getD (exact significand exponent))

/-- Digits with the decimal point after the first `point` of them. Integral numbers keep a zero
behind the point. -/
def positional (digits : List Char) (point : Int) : List Char :=
  if point ≤ 0 then '0' :: '.' :: List.replicate (-point).toNat '0' ++ digits
  else if digits.length ≤ point then
    digits ++ List.replicate (point.toNat - digits.length) '0' ++ ['.', '0']
  else digits.take point.toNat ++ '.' :: digits.drop point.toNat

/-- One digit, the other digits behind a point, and a signed exponent of at least two digits. -/
def scientific (digits : List Char) (exponent : Int) : List Char :=
  let fraction := if digits.length ≤ 1 then [] else '.' :: digits.drop 1
  let power := Nat.toDigits 10 exponent.natAbs
  let padding := List.replicate (2 - power.length) '0'
  digits.take 1 ++ fraction ++ 'e' :: (if exponent < 0 then '-' else '+') :: padding ++ power

/-- Positional notation for powers of ten from -4 to 15, scientific notation otherwise. -/
def write (decimal : Decimal) : List Char :=
  let digits := Nat.toDigits 10 decimal.digits
  let power := digits.length + decimal.exponent - 1
  if -4 ≤ power ∧ power < 16 then positional digits (power + 1) else scientific digits power

end Decimal

namespace Binary64

/-- The text of a number: the fewest digits that read back. -/
def write : Binary64 → Text
  | nan => "nan"
  | infinity negative => if negative then "-inf" else "inf"
  | finite negative significand exponent _ =>
    let sign : List Char := if negative then ['-'] else []
    let digits := if significand = 0 then ['0', '.', '0']
      else (Decimal.shortest significand exponent).write
    (sign ++ digits).map .char

/-- Decimal digits with single low lines between them: their value, their count, and the rest. -/
def readDigits : (value count : Nat) → Text → Nat × Nat × Text
  | value, count, [] => (value, count, [])
  | value, count, c :: rest =>
    match c.decimalDigit? with
    | some digit => readDigits (10 * value + digit) (count + 1) rest
    | none =>
      match rest with
      | d :: rest' =>
        match d.decimalDigit? with
        | some digit =>
          if c = '_' ∧ 0 < count then readDigits (10 * value + digit) (count + 1) rest'
          else (value, count, c :: rest)
        | none => (value, count, c :: rest)
      | [] => (value, count, c :: rest)

/-- An optional sign, and whether it is a minus sign. -/
def readSign : Text → Bool × Text
  | .char '-' :: rest => (true, rest)
  | .char '+' :: rest => (false, rest)
  | rest => (false, rest)

/-- The end of a numeral: nothing, or an exponent. -/
def readExponent? : Text → Option Int
  | [] => some 0
  | e :: rest =>
    if e.toAsciiLower = 'e' then
      let (negative, rest) := readSign rest
      match readDigits 0 0 rest with
      | (value, count, []) =>
        if count = 0 then none else some (if negative then -(value : Int) else value)
      | _ => none
    else none

/-- Digits with at most one point before, between or behind them, and an exponent. -/
def readMagnitude? (text : Text) : Option Decimal :=
  let (whole, wholeCount, rest) := readDigits 0 0 text
  let (digits, fractionCount, rest) :=
    match rest with
    | .char '.' :: rest =>
      let (fraction, count, rest) := readDigits 0 0 rest
      (whole * Nat.pow 10 count + fraction, count, rest)
    | rest => (whole, 0, rest)
  if wholeCount + fractionCount = 0 then none
  else (readExponent? rest).map fun exponent => ⟨digits, exponent - fractionCount⟩

/-- Blanks that may surround a numeral. The information separators may not. -/
def isPadding (c : CodePoint) : Bool := c.isBlank && !(0x1C ≤ c.toNat && c.toNat ≤ 0x1F)

/-- Reads a numeral, or the names of infinity and of the value that is not a number. -/
def read? (text : Text) : Option Binary64 :=
  let (negative, rest) := readSign (Text.dropTrailing isPadding (text.dropWhile isPadding))
  let name := rest.map CodePoint.toAsciiLower
  if name = Text.ofString "inf" ∨ name = Text.ofString "infinity" then some (infinity negative)
  else if name = Text.ofString "nan" then some nan
  else (readMagnitude? rest).map (Decimal.toBinary negative)

end Binary64

end StaticStyle
