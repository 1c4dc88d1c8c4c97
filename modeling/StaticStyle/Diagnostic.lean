import StaticStyle.Text.Basic

namespace StaticStyle

inductive Severity where
  | error
  | warning
deriving DecidableEq, Repr

def Severity.name : Severity → Text
  | error => "ERROR"
  | warning => "WARNING"

/-- A finding of a check, with the file and the position of the declaration if they are known. -/
structure Diagnostic where
  rule : Text
  severity : Severity
  message : Text
  path : Option Text
  line : Option Nat
  column : Option Nat
deriving DecidableEq, Repr

namespace Diagnostic

def isError (diagnostic : Diagnostic) : Bool := diagnostic.severity == .error

def isWarning (diagnostic : Diagnostic) : Bool := diagnostic.severity == .warning

/-- The same finding at a place. -/
def located (diagnostic : Diagnostic) (path : Option Text) (line column : Option Nat) :
    Diagnostic :=
  { diagnostic with path, line, column }

def number (n : Option Nat) : Text := (n.map Text.ofNat).getD "None"

/-- Where a finding is, in square brackets. A column is given only along with a line. -/
def location (diagnostic : Diagnostic) : Text :=
  match diagnostic.path with
  | none | some [] => []
  | some path =>
    let position : Text := match diagnostic.line with
      | none => []
      | some line => .char ':' :: Text.ofNat line ++ .char ':' :: number diagnostic.column
    " [" ++ path ++ position ++ "]"

/-- A finding in one line. -/
def text (diagnostic : Diagnostic) : Text :=
  diagnostic.severity.name ++ diagnostic.location ++ ": " ++ diagnostic.message

end Diagnostic

end StaticStyle
