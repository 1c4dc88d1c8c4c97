import StaticStyle.Source.Enclosure
import StaticStyle.Text.Blank
import StaticStyle.Text.Word

namespace StaticStyle.Markup

inductive AttributeKind where
  | string
  | expression
  | spread
  | boolean
deriving DecidableEq, Repr

def AttributeKind.name : AttributeKind → Text
  | string => "string"
  | expression => "expression"
  | spread => "spread"
  | boolean => "boolean"

/-- One attribute. The value of an expression or a spread is the text between its braces, and the
value of a string is the literal with its quotes. -/
structure Attribute where
  name : Text
  kind : AttributeKind
  start : Nat
  stop : Nat
  valueStart : Nat
  valueStop : Nat
deriving DecidableEq, Repr

namespace Attribute

def valueText (attr : Attribute) (source : Text) : Text :=
  source.slice attr.valueStart attr.valueStop

end Attribute

def isNameStart (c : CodePoint) : Bool := c.isAsciiLetter || c == '_' || c == '$'

def isAttributeNamePart (c : CodePoint) : Bool := c.isWord || c.isOneOf "$:.-"

/-- The name at the beginning of a text, or nothing. -/
def leadingName (isPart : CodePoint → Bool) : Text → Text
  | [] => []
  | c :: rest => if isNameStart c then c :: rest.takeWhile isPart else []

/-- A value behind an equals sign, which begins at `start`: its kind, and where it ends and where its
value begins and ends. -/
def readValue? (start : Nat) : Text → Option (AttributeKind × Nat × Nat × Nat)
  | [] => none
  | c :: rest =>
    if c.isQuote then
      (Text.indexOf? c rest).map fun length =>
        (.string, start + length + 2, start, start + length + 2)
    else if c = '{' then
      (Bracket.curly.contentLength? rest).map fun length =>
        (.expression, start + length + 2, start + 1, start + 1 + length)
    else none

/-- The attribute at the beginning of a text. White space behind a name without a value still belongs
to what has been read. The result says how much that is. -/
def readAttribute? (start : Nat) (text : Text) : Option (Attribute × Nat) :=
  match text with
  | .char '{' :: rest =>
    (Bracket.curly.contentLength? rest).map fun length =>
      let stop := start + length + 2
      (⟨"...", .spread, start, stop, start + 1, stop - 1⟩, length + 2)
  | text =>
    let name := leadingName isAttributeNamePart text
    if name.isEmpty then none
    else
      let nameStop := start + name.length
      let rest := text.drop name.length
      let blank := Text.blankLength rest
      match rest.drop blank with
      | .char '=' :: rest =>
        let skipped := name.length + blank + 1 + Text.blankLength rest
        (readValue? (start + skipped) (Text.dropBlank rest)).map
          fun (kind, stop, valueStart, valueStop) =>
            (⟨name, kind, start, stop, valueStart, valueStop⟩, stop - start)
      | _ => some (⟨name, .boolean, start, nameStop, nameStop, nameStop⟩, name.length + blank)

/-- The attributes of an opening tag and how the tag ends. -/
structure TagTail where
  attributes : List Attribute
  stop : Nat
  isSelfClosing : Bool
deriving DecidableEq, Repr

/-- Reads from behind the name of a tag, at an offset, to the end of the tag. Text that is no opening
tag, such as a comparison, has no tail. -/
def readTail? (offset : Nat) : Text → Option TagTail
  | [] => none
  | c :: rest =>
    if c.isBlank then readTail? (offset + 1) rest
    else
      match c, rest with
      | .char '>', _ => some ⟨[], offset + 1, false⟩
      | .char '/', .char '>' :: _ => some ⟨[], offset + 2, true⟩
      | c, rest =>
        match readAttribute? offset (c :: rest) with
        | none => none
        | some (attr, length) =>
          (readTail? (offset + length) (rest.drop (length - 1))).map fun tail =>
            { tail with attributes := attr :: tail.attributes }
termination_by text => text.length

end StaticStyle.Markup
