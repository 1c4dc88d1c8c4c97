import StaticStyle.Text.Printable

namespace StaticStyle

/-- The lowest `width` hexadecimal digits of a number. -/
def hexDigits : (width : Nat) → (number : Nat) → Text
  | 0, _ => []
  | width + 1, number => hexDigits width (number / 16) ++ [.char (Nat.digitChar (number % 16))]

namespace Text.Quoted

/-- Single quotes, unless the text holds one and no double quote. -/
def quoteMark (text : Text) : CodePoint :=
  if text.contains '\x27' && !text.contains '"' then '"' else '\x27'

/-- An escape by number, as short as the number allows. -/
def numericEscape (number : Nat) : Text :=
  if number < 0x100 then .char '\\' :: .char 'x' :: hexDigits 2 number
  else if number < 0x10000 then .char '\\' :: .char 'u' :: hexDigits 4 number
  else .char '\\' :: .char 'U' :: hexDigits 8 number

def escape (mark c : CodePoint) : Text :=
  if c = mark ∨ c = '\\' then ['\\', c]
  else if c = '\n' then "\\n"
  else if c = '\r' then "\\r"
  else if c = '\t' then "\\t"
  else if c.isPrintable then [c]
  else numericEscape c.toNat

end Text.Quoted

/-- A text in quotes. -/
def Text.quoted (text : Text) : Text :=
  let mark := Quoted.quoteMark text
  mark :: text.flatMap (Quoted.escape mark) ++ [mark]

end StaticStyle
