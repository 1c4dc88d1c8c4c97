import StaticStyle.Text.Basic

namespace StaticStyle

namespace CodePoint

/-- The two surrogate numbers of a code point above U+FFFF, or the number of any other. -/
def units (c : CodePoint) : List Nat :=
  let number := c.toNat
  if number < 0x10000 then [number]
  else [0xD800 + (number - 0x10000) / 0x400, 0xDC00 + (number - 0x10000) % 0x400]

/-- The code point of a high surrogate followed by a low one. -/
def ofPair? : CodePoint → CodePoint → Option CodePoint
  | surrogate high, surrogate low =>
    if high.val < 0x400 ∧ 0x400 ≤ low.val then
      ofNat? (0x10000 + high.val * 0x400 + (low.val - 0x400))
    else none
  | _, _ => none

end CodePoint

/-- Joins each high surrogate with a low one right behind it, from left to right. -/
def Text.joinSurrogates : Text → Text
  | [] => []
  | [c] => [c]
  | c :: d :: rest =>
    match CodePoint.ofPair? c d with
    | some joined => joined :: joinSurrogates rest
    | none => c :: joinSurrogates (d :: rest)

end StaticStyle
