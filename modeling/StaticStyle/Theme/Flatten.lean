import StaticStyle.Value.Display

namespace StaticStyle.Theme

/-- A path with one more key. A key behind an empty path stands alone. -/
def extendPath (path key : Text) : Text := if path.isEmpty then key else path ++ .char '-' :: key

mutual
/-- The scalars of a value in document order, with their paths. -/
def leaves (path : Text) : Value → List (Text × Value)
  | .object fields => fieldLeaves path fields
  | .list items => itemLeaves path 0 items
  | value => [(path, value)]

def fieldLeaves (path : Text) : List (Text × Value) → List (Text × Value)
  | [] => []
  | (key, value) :: rest => leaves (extendPath path key) value ++ fieldLeaves path rest

def itemLeaves (path : Text) (index : Nat) : List Value → List (Text × Value)
  | [] => []
  | item :: rest =>
    leaves (extendPath path (Text.ofNat index)) item ++ itemLeaves path (index + 1) rest
end

/-- The variables that the leaves of a theme stand for. Of leaves with one name the last counts. -/
def flatten (stem : Text) (theme : Fields Value) : Fields Text :=
  Fields.ofPairs ((fieldLeaves [] theme).map fun (path, value) =>
    (stem ++ .char '-' :: path, value.css))

/-- The variables of a theme, if each of its leaves can be written. -/
def makeVariables (stem : Text) (theme : Fields Value) : Except Defect (Fields Text) :=
  if Value.fieldsAreWritable theme then .ok (flatten stem theme) else .error .oversizedInteger

/-- A block that declares variables, in ascending order of their names. -/
def renderVariables (selector : Text) (vars : Fields Text) : Text :=
  let line (entry : Text × Text) : Text := "  " ++ entry.1 ++ ": " ++ entry.2 ++ ";\n"
  let lines : Text := vars.sorted.flatMap line
  selector ++ " \x7b\n" ++ lines ++ "\x7d"

end StaticStyle.Theme
