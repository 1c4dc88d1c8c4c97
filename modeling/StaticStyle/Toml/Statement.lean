import StaticStyle.Toml.Scalar
import StaticStyle.Toml.Table

namespace StaticStyle.Toml

inductive Statement where
  | pair (key : Key) (value : Value)
  | table (key : Key)
  | tableInArray (key : Key)
deriving Repr

def isBareKeyPart (c : CodePoint) : Bool := c.isAsciiAlphanumeric || c == '-' || c == '_'

/-- One part of a key: bare, or a string on one line. -/
def readKeyPart (text : Text) : Found Text :=
  let bare := text.takeWhile isBareKeyPart
  if bare.isEmpty then readLineString text else some (bare, text.drop bare.length)

/-- A key of parts between points, and the blanks behind it. -/
def readKey (text : Text) : Found Key :=
  match readKeyPart text with
  | none => none
  | some (part, rest) =>
    match skipBlank rest with
    | .char '.' :: rest =>
      let rest := skipBlank rest
      if rest.length < text.length then
        (readKey rest).map fun (key, rest) => (part :: key, rest)
      else none
    | rest => some ([part], rest)
termination_by text.length

/-- A key, an equals sign, and the blanks behind it. -/
def readAssignment (text : Text) : Found Key :=
  match readKey text with
  | some (key, .char '=' :: rest) => some (key, skipBlank rest)
  | _ => none

/-- A comment, if the text begins with one, up to the end of its line. -/
def skipComment (text : Text) : Option Text :=
  match text with
  | .char '#' :: rest =>
    let (comment, rest) := rest.span fun c => c ≠ CodePoint.char '\n'
    if comment.any isControl then none else some rest
  | text => some text

/-- The blanks, line ends and comments between the items of an array. -/
def skipBetweenItems (text : Text) : Option Text :=
  let rest := text.dropWhile isBlankOrBreak
  match rest with
  | .char '#' :: _ =>
    match skipComment rest with
    | none => none
    | some behind => if behind.length < text.length then skipBetweenItems behind else none
  | rest => some rest
termination_by text.length

/-- An array or a table in braces that has been opened and not closed. -/
inductive Open where
  | array (items : List Value)
  /-- A table with the key whose value comes next. -/
  | inline (inline : Inline) (key : Key)

/-- What comes next inside a value. -/
inductive Next where
  | value
  /-- A value has been read, and the innermost array or table goes on or ends. -/
  | afterValue (value : Value)

/-- What is open, what comes next, and the text from there on. -/
abbrev Stage := List Open × Next × Text

/-- Begins a value, or an array or a table in braces. The stack is what is open around it. -/
def beginValue (stack : List Open) (text : Text) : Except Flaw Stage :=
  match text with
  | .char '[' :: rest =>
    (required (skipBetweenItems rest)).map fun rest =>
      match rest with
      | .char ']' :: rest => (stack, .afterValue (.list []), rest)
      | rest => (.array [] :: stack, .value, rest)
  | .char '{' :: rest =>
    match skipBlank rest with
    | .char '}' :: rest => .ok (stack, .afterValue (.object []), rest)
    | rest =>
      (required (readAssignment rest)).map fun (key, rest) =>
        (.inline .empty key :: stack, .value, rest)
  | text => (readScalar text).map fun (value, rest) => (stack, .afterValue value, rest)

/-- Goes on behind the items of an array. Only arrays may end with a comma. -/
def continueArray (items : List Value) (stack : List Open) (text : Text) : Option Stage :=
  match skipBetweenItems text with
  | some (.char ']' :: rest) => some (stack, .afterValue (.list items), rest)
  | some (.char ',' :: rest) =>
    (skipBetweenItems rest).map fun rest =>
      match rest with
      | .char ']' :: rest => (stack, .afterValue (.list items), rest)
      | rest => (.array items :: stack, .value, rest)
  | _ => none

/-- Goes on behind a value in braces. -/
def continueInline (inline : Inline) (stack : List Open) (text : Text) : Option Stage :=
  match skipBlank text with
  | .char '}' :: rest => some (stack, .afterValue (.object inline.table), rest)
  | .char ',' :: rest =>
    (readAssignment (skipBlank rest)).map fun (key, rest) =>
      (.inline inline key :: stack, .value, rest)
  | _ => none

/-- Goes on behind a value in an array or in braces. -/
def continueValue (opened : Open) (stack : List Open) (value : Value) (text : Text) : Option Stage :=
  match opened with
  | .array items => continueArray (items ++ [value]) stack text
  | .inline inline key =>
    (inline.add key value).bind fun inline => continueInline inline stack text

/-- Reads the rest of a value, with the arrays and tables that are open around it. -/
def readOpen (stack : List Open) (next : Next) (text : Text) : Reading Value :=
  let advanced := match next, stack with
    | .value, stack => beginValue stack text
    | .afterValue _, [] => .error .malformed
    | .afterValue value, opened :: stack => required (continueValue opened stack value text)
  match next, stack with
  | .afterValue value, [] => .ok (value, text)
  | _, _ =>
    match advanced with
    | .error flaw => .error flaw
    | .ok (stack, next, rest) =>
      if rest.length < text.length then readOpen stack next rest else .error .malformed
termination_by text.length

/-- A value of any kind. -/
def readValue (text : Text) : Reading Value := readOpen [] .value text

/-- A header of a table, from behind its first bracket. -/
def readHeader (text : Text) : Found Statement :=
  match text with
  | .char '[' :: rest =>
    match readKey (skipBlank rest) with
    | some (key, .char ']' :: .char ']' :: rest) => some (.tableInArray key, rest)
    | _ => none
  | rest =>
    match readKey (skipBlank rest) with
    | some (key, .char ']' :: rest) => some (.table key, rest)
    | _ => none

/-- One statement. -/
def readStatement (text : Text) : Reading Statement :=
  match text with
  | .char '[' :: rest => required (readHeader rest)
  | text =>
    (required (readAssignment text)).bind fun (key, rest) =>
      (readValue rest).map fun (value, rest) => (.pair key value, rest)

/-- The end of a line behind blanks and a comment. -/
def skipLineRest (text : Text) : Option Text :=
  (skipComment (skipBlank text)).bind fun rest =>
    match rest with
    | [] => some []
    | .char '\n' :: rest => some rest
    | _ => none

end StaticStyle.Toml
