import StaticStyle.Text.Ranges

/-!
Blank code points: the white space of the Unicode Character Database, version 14, and the four
information separators U+001C to U+001F.
-/

namespace StaticStyle

def blankRanges : Ranges :=
  [(0x9, 0xD), (0x1C, 0x20), (0x85, 0x85), (0xA0, 0xA0), (0x1680, 0x1680), (0x2000, 0x200A),
   (0x2028, 0x2029), (0x202F, 0x202F), (0x205F, 0x205F), (0x3000, 0x3000)]

def CodePoint.isBlank (c : CodePoint) : Bool := blankRanges.includes c.toNat

namespace Text

def dropBlank (text : Text) : Text := text.dropWhile CodePoint.isBlank

/-- The number of blanks in front of a text. -/
def blankLength (text : Text) : Nat := (text.takeWhile CodePoint.isBlank).length

def dropTrailing (unwanted : CodePoint → Bool) (text : Text) : Text :=
  (text.reverse.dropWhile unwanted).reverse

/-- A text without the blanks at both ends. -/
def strip (text : Text) : Text := (dropBlank text).dropTrailing CodePoint.isBlank

def isAllBlank (text : Text) : Bool := text.all CodePoint.isBlank

end Text

end StaticStyle
