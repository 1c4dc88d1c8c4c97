import StaticStyle.Text.Basic

namespace StaticStyle

/-- Ascending, disjoint, inclusive ranges of code point numbers. -/
abbrev Ranges := List (Nat × Nat)

namespace Ranges

/-- Whether a number lies in one of the ranges. The search stops at the first range above it. -/
def includes : Ranges → Nat → Bool
  | [], _ => false
  | (low, high) :: rest, number =>
    if number < low then false else if number ≤ high then true else includes rest number

/-- The distance of a number from the beginning of its range. -/
def distance? : Ranges → Nat → Option Nat
  | [], _ => none
  | (low, high) :: rest, number =>
    if number < low then none
    else if number ≤ high then some (number - low)
    else distance? rest number

end Ranges

end StaticStyle
