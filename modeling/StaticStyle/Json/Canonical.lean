import StaticStyle.Defect
import StaticStyle.Json.Quoted
import StaticStyle.Value.Numeral

/-!
The canonical JSON text of a value: keys in ascending order, no blanks, and only the mandatory
escapes. Numbers that JSON has no form for are named. A value with a date, a time or an oversized
integer in it cannot be written.
-/

namespace StaticStyle

mutual
/-- The value with the keys of every object in ascending order. -/
def Value.ordered : Value → Value
  | .list items => .list (orderedItems items)
  | .object fields => .object (Fields.sorted (orderedFields fields))
  | value => value

def orderedItems : List Value → List Value
  | [] => []
  | item :: rest => item.ordered :: orderedItems rest

def orderedFields : List (Text × Value) → List (Text × Value)
  | [] => []
  | (key, value) :: rest => (key, value.ordered) :: orderedFields rest
end

namespace Json

def writeFloat : Binary64 → Text
  | .nan => "NaN"
  | .infinity negative => if negative then "-Infinity" else "Infinity"
  | x => x.write

def enclose (opening closing : CodePoint) (items : List Text) : Text :=
  opening :: Text.join [.char ','] items ++ [closing]

mutual
/-- Why a value cannot be written. The first part of it that cannot be counts. -/
def defect? : Value → Option Defect
  | .int n => if (Value.int n).isWritable then none else some .oversizedInteger
  | .stamp _ => some .mistyped
  | .list items => itemsDefect? items
  | .object fields => fieldsDefect? fields
  | _ => none

def itemsDefect? : List Value → Option Defect
  | [] => none
  | item :: rest => (defect? item).or (itemsDefect? rest)

def fieldsDefect? : List (Text × Value) → Option Defect
  | [] => none
  | (_, value) :: rest => (defect? value).or (fieldsDefect? rest)
end

mutual
/-- The compact JSON text of a value, objects in the order of their fields. -/
def write (quoting : Text → Text) : Value → Text
  | .null => "null"
  | .bool b => if b then "true" else "false"
  | .int n => Text.ofInt n
  | .float x => writeFloat x
  | .text t => quoting t
  | .stamp s => quoting s.text
  | .list items => enclose '[' ']' (writeItems quoting items)
  | .object fields => enclose '{' '}' (writeFields quoting fields)

def writeItems (quoting : Text → Text) : List Value → List Text
  | [] => []
  | item :: rest => write quoting item :: writeItems quoting rest

def writeFields (quoting : Text → Text) : List (Text × Value) → List Text
  | [] => []
  | (key, value) :: rest =>
    (quoting key ++ .char ':' :: write quoting value) :: writeFields quoting rest
end

/-- The text that is equal for values that differ in the order of keys only. -/
def canonical (value : Value) : Text := write quote value.ordered

end Json

end StaticStyle
