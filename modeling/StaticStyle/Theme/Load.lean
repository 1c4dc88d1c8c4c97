import StaticStyle.Defect
import StaticStyle.Json.Read
import StaticStyle.Source.Position
import StaticStyle.Text.Utf8

namespace StaticStyle.Theme

/-- Why a file gives no theme. -/
inductive LoadFault where
  | unreadable (path : Text)
  | invalidJson (path : Text) (flaw : Json.Flaw) (position : Position)
  | notObject (path : Text)
  | defect (defect : Defect)
deriving DecidableEq, Repr

def LoadFault.message : LoadFault → Text
  | unreadable path => "Cannot read theme " ++ path
  | invalidJson path flaw _ => "Invalid JSON in theme " ++ path ++ ": " ++ flaw.message
  | notObject path => "Theme " ++ path ++ " must contain a JSON object at the top level"
  | defect found => found.message

def LoadFault.position? : LoadFault → Option Position
  | invalidJson _ _ position => some position
  | _ => none

/-- The theme in a text. -/
def ofJson (path text : Text) : Except LoadFault (Fields Value) :=
  match Json.read text with
  | .ok (.object fields) => .ok fields
  | .ok _ => .error (.notObject path)
  | .error ⟨.tooManyDigits, _⟩ => .error (.defect .oversizedInteger)
  | .error ⟨flaw, offset⟩ => .error (.invalidJson path flaw (Position.ofOffset text offset))

/-- The theme in a file, which may be missing. Line ends are unified before anything is read. -/
def load (path : Text) (content : Option Bytes) : Except LoadFault (Fields Value) :=
  match content with
  | none => .error (.unreadable path)
  | some bytes =>
    match Text.Utf8.decode? bytes with
    | none => .error (.defect .undecodable)
    | some text => ofJson path text.unifyLineEnds

end StaticStyle.Theme
