import StaticStyle.Value.Basic

namespace StaticStyle

namespace Numeral

/-- The most digits of a decimal numeral. -/
def digitLimit : Nat := 4300

/-- The least number whose numeral has too many digits. -/
def bound : Nat := Nat.pow 10 digitLimit

def value (digits : Text) : Nat :=
  digits.foldl (fun value c => 10 * value + c.hexDigit?.getD 0) 0

/-- The number of decimal digits, unless they are too many. -/
def read? (digits : Text) : Option Nat :=
  if digitLimit < digits.length then none else some (value digits)

end Numeral

namespace Value

mutual
/-- Whether every integer in a value has a decimal numeral. -/
def isWritable : Value → Bool
  | int n => n.natAbs < Numeral.bound
  | list items => areWritable items
  | object fields => fieldsAreWritable fields
  | _ => true

def areWritable : List Value → Bool
  | [] => true
  | item :: rest => item.isWritable && areWritable rest

def fieldsAreWritable : List (Text × Value) → Bool
  | [] => true
  | (_, value) :: rest => value.isWritable && fieldsAreWritable rest
end

end Value

end StaticStyle
