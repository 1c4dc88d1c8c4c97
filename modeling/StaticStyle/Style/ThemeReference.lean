import StaticStyle.Diagnostic
import StaticStyle.Text.Quoted

namespace StaticStyle.Style

def themeMarker : Text := "$theme."

/-- The code points that a variable's name may hold. -/
def isVariablePart (c : CodePoint) : Bool := c.isAsciiAlphanumeric || c == '_' || c == '-'

/-- One or more non-empty segments between points. A line feed at the end is not looked at. -/
def isReferencePath (path : Text) : Bool :=
  let body := if path.getLast? = some (.char '\n') then path.dropLast else path
  (Text.split '.' body).all fun segment => !segment.isEmpty && segment.all isVariablePart

/-- The name of a variable: points become dashes, and what a name may not hold is left out. -/
def variableName (path : Text) : Text :=
  (Text.substitute '.' [.char '-'] path).filter isVariablePart

def malformedReference (value : Text) : Diagnostic :=
  { rule := "malformed_theme_reference"
    severity := .warning
    message := "Malformed theme reference " ++ value.quoted ++ "; compiled best-effort"
    path := none
    line := none
    column := none }

/-- The use of a variable that a reference stands for, and the finding if it is malformed. -/
def resolveReference (stem value : Text) : Text × List Diagnostic :=
  let path := value.drop themeMarker.length
  let findings := if isReferencePath path then [] else [malformedReference value]
  ("var(" ++ stem ++ "-" ++ variableName path ++ ")", findings)

end StaticStyle.Style
