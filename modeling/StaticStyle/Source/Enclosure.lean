import StaticStyle.Source.Bracket

/-!
The bracket that closes another one. Strings, templates and comments are passed over, except that
code between braces inside a template has brackets of its own. A closing bracket of the wrong kind
ends the search without a result.
-/

namespace StaticStyle

/-- What encloses the next code point, innermost first in a list. -/
inductive Enclosure where
  | bracket (bracket : Bracket)
  | quoted (mark : CodePoint)
  | template
  | lineComment
  | blockComment
deriving DecidableEq, Repr

/-- A single or double quotation mark. -/
def CodePoint.isQuote (c : CodePoint) : Bool := c == '"' || c == '\x27'

/-- How many code points stand in front of the one that closes the outermost of several enclosures.
A string ends at its mark or at a line feed, and a backslash takes the next code point with it. -/
def closingDistance? : List Enclosure → Text → Option Nat
  | _, [] => none
  | [], _ => none
  | .quoted mark :: outer, c :: rest =>
    if c = '\\' then
      match rest with
      | _ :: rest => (closingDistance? (.quoted mark :: outer) rest).map (· + 2)
      | [] => none
    else if c = mark ∨ c.isLineFeed then (closingDistance? outer rest).map (· + 1)
    else (closingDistance? (.quoted mark :: outer) rest).map (· + 1)
  | .template :: outer, c :: rest =>
    if c = '\\' then
      match rest with
      | _ :: rest => (closingDistance? (.template :: outer) rest).map (· + 2)
      | [] => none
    else if c = '\x60' then (closingDistance? outer rest).map (· + 1)
    else
      match c, rest with
      | .char '$', .char '{' :: rest =>
        (closingDistance? (.bracket .curly :: .template :: outer) rest).map (· + 2)
      | _, rest => (closingDistance? (.template :: outer) rest).map (· + 1)
  | .lineComment :: outer, c :: rest =>
    if c.isLineFeed then (closingDistance? outer rest).map (· + 1)
    else (closingDistance? (.lineComment :: outer) rest).map (· + 1)
  | .blockComment :: outer, c :: rest =>
    match c, rest with
    | .char '*', .char '/' :: rest => (closingDistance? outer rest).map (· + 2)
    | _, rest => (closingDistance? (.blockComment :: outer) rest).map (· + 1)
  | .bracket bracket :: outer, c :: rest =>
    if c.isQuote then
      (closingDistance? (.quoted c :: .bracket bracket :: outer) rest).map (· + 1)
    else if c = '\x60' then
      (closingDistance? (.template :: .bracket bracket :: outer) rest).map (· + 1)
    else
      match c, rest with
      | .char '/', .char '/' :: rest =>
        (closingDistance? (.lineComment :: .bracket bracket :: outer) rest).map (· + 2)
      | .char '/', .char '*' :: rest =>
        (closingDistance? (.blockComment :: .bracket bracket :: outer) rest).map (· + 2)
      | c, rest =>
        match Bracket.ofOpening? c, Bracket.ofClosing? c with
        | some inner, _ =>
          (closingDistance? (.bracket inner :: .bracket bracket :: outer) rest).map (· + 1)
        | none, some other =>
          if other ≠ bracket then none
          else if outer.isEmpty then some 0
          else (closingDistance? outer rest).map (· + 1)
        | none, none => (closingDistance? (.bracket bracket :: outer) rest).map (· + 1)

namespace Bracket

/-- The number of code points between an opening bracket and the one that closes it, given the text
behind the opening bracket. -/
def contentLength? (bracket : Bracket) (rest : Text) : Option Nat :=
  closingDistance? [.bracket bracket] rest

/-- The offset of the bracket that closes the one at an offset. -/
def matching? (source : Text) (offset : Nat) : Option Nat :=
  match source.drop offset with
  | [] => none
  | c :: rest =>
    (ofOpening? c).bind fun bracket =>
      (contentLength? bracket rest).map (offset + 1 + ·)

end Bracket

end StaticStyle
