import StaticStyle.Defect
import StaticStyle.Text.Quoted
import StaticStyle.Value.Numeral

/-!
How values read in messages and in style sheets. In a display, texts are quoted, dates and times are
written as what makes them, and the constants are `None`, `True` and `False`. In a style sheet, a text
stands for itself, the constants are `null`, `true` and `false`, and an integral number is written
without a fraction.
-/

namespace StaticStyle.Value

/-- Items between two marks, separated by commas. -/
def enclose (opening closing : CodePoint) (items : List Text) : Text :=
  opening :: Text.join ", " items ++ [closing]

mutual
def display : Value → Text
  | null => "None"
  | bool b => if b then "True" else "False"
  | int n => Text.ofInt n
  | float x => x.write
  | text t => t.quoted
  | stamp s => s.display
  | list items => enclose '[' ']' (displayItems items)
  | object fields => enclose '{' '}' (displayFields fields)

def displayItems : List Value → List Text
  | [] => []
  | item :: rest => item.display :: displayItems rest

def displayFields : List (Text × Value) → List Text
  | [] => []
  | (key, value) :: rest => (key.quoted ++ ": " ++ value.display) :: displayFields rest
end

/-- A value as a message shows it: a text stands for itself, a date or time is given as it reads, and
anything else is displayed. -/
def plain : Value → Text
  | text t => t
  | stamp s => s.text
  | value => value.display

/-- A value as a message shows it, if it can be written. -/
def shown (value : Value) : Except Defect Text :=
  if value.isWritable then .ok value.plain else .error .oversizedInteger

/-- A value as it reads in a style sheet. -/
def css : Value → Text
  | null => "null"
  | bool b => if b then "true" else "false"
  | float x =>
    match x.toInt? with
    | some n => Text.ofInt n
    | none => x.write
  | value => value.plain

end StaticStyle.Value
