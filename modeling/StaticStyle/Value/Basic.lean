import StaticStyle.Binary64.Decimal
import StaticStyle.Fields
import StaticStyle.Value.Stamp

/-!
The values that style declarations, themes and options are made of. Whole numbers and binary
floating-point numbers are told apart, and objects keep their keys in insertion order. Only options can
be dates and times.
-/

namespace StaticStyle

inductive Value where
  | null
  | bool (b : Bool)
  | int (n : Int)
  | float (x : Binary64)
  | text (t : Text)
  | stamp (s : Stamp)
  | list (items : List Value)
  | object (fields : List (Text × Value))
deriving Repr

namespace Value

instance : Inhabited Value := ⟨null⟩

mutual
/-- Whether no key occurs twice in any object, at any depth. -/
def hasDistinctKeys : Value → Bool
  | list items => haveDistinctKeys items
  | object fields => fieldsHaveDistinctKeys fields
  | _ => true

def haveDistinctKeys : List Value → Bool
  | [] => true
  | item :: rest => item.hasDistinctKeys && haveDistinctKeys rest

def fieldsHaveDistinctKeys : List (Text × Value) → Bool
  | [] => true
  | (key, value) :: rest =>
    !Fields.contains key rest && value.hasDistinctKeys && fieldsHaveDistinctKeys rest
end

def fields? : Value → Option (Fields Value)
  | object fields => some fields
  | _ => none

def text? : Value → Option Text
  | text t => some t
  | _ => none

/-- Whether a value is neither null, false, zero nor empty. -/
def isTruthy : Value → Bool
  | null => false
  | bool b => b
  | int n => n != 0
  | float x => !x.isZero
  | text t => !t.isEmpty
  | stamp _ => true
  | list items => !items.isEmpty
  | object fields => !fields.isEmpty

end Value

end StaticStyle
