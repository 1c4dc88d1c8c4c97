import StaticStyle.Text.Basic

namespace StaticStyle

inductive Defect where
  /-- A value is of a kind that cannot be compared, looked for, counted with or listed. -/
  | mistyped
  /-- A value is no text where its beginning is looked at. -/
  | notText
  /-- A value is no table where a name is looked up. -/
  | notTable
  /-- An integer has more digits than are read or written. -/
  | oversizedInteger
  /-- A text that has to become bytes holds a surrogate. -/
  | unencodable
  /-- Bytes that have to become a text are not UTF-8. -/
  | undecodable
  /-- An escape in a string denotes no code point. -/
  | outOfRange
deriving DecidableEq, Repr

def Defect.message : Defect → Text
  | mistyped => "A value has the wrong type"
  | notText => "A value is not a text"
  | notTable => "A value is not a table"
  | oversizedInteger => "An integer has too many digits"
  | unencodable => "A surrogate cannot be written"
  | undecodable => "The bytes are not UTF-8"
  | outOfRange => "An escape denotes no code point"

end StaticStyle
