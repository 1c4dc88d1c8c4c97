import StaticStyle.Expression.Node
import StaticStyle.Source.Bracket

/-!
The tokens of expressions. A few symbols are read differently behind an operand than in front of
one, so each token depends on the one before it. Text that begins no token is a stray token, which
may stand nowhere, and nothing is read behind it.
-/

namespace StaticStyle.Expression

inductive Lexeme where
  | string (raw : Text)
  | number (raw : Text)
  | template (raw : Text)
  | name (text : Text)
  | opening (bracket : Bracket)
  | closing (bracket : Bracket)
  | comma
  | colon
  | question
  | dot
  | ellipsis
  | exclamation
  /-- A plus or minus sign, which may stand in front of an operand or between two. -/
  | sign (symbol : Text)
  /-- A symbol that stands between two operands. -/
  | operator (symbol : Text)
  | stray
deriving DecidableEq, Repr

structure Token where
  lexeme : Lexeme
  span : Span
deriving DecidableEq, Repr

/-- A point in a source: its offset and position. -/
structure Place where
  offset : Nat
  position : Position
deriving DecidableEq, Repr

/-- The place behind a text that begins at a place. -/
def Place.after (place : Place) (text : Text) : Place :=
  ⟨place.offset + text.length, place.position.after text⟩

/-- What the tokens so far call for. -/
inductive Awaiting where
  | operand
  | operator
  | memberName
deriving DecidableEq, Repr

namespace Lexeme

/-- What a lexeme calls for. The name `typeof` is an operator unless it is a member's name. -/
def next (awaiting : Awaiting) : Lexeme → Awaiting
  | string _ | number _ | template _ | closing _ => .operator
  | name text =>
    if text = Text.ofString "typeof" ∧ awaiting ≠ .memberName then .operand else .operator
  | dot => .memberName
  | _ => .operand

end Lexeme

def isWhiteSpace (c : CodePoint) : Bool := c.isOneOf " \t\x0c\r\n"

def isNameStart (c : CodePoint) : Bool := c.isAsciiLetter || c == '_' || c == '$'

def isNamePart (c : CodePoint) : Bool := isNameStart c || c.isAsciiDigit

/-- The number of code points up to the end of a block comment, from behind its beginning. -/
def commentEnd? : Text → Option Nat
  | .char '*' :: .char '/' :: _ => some 2
  | _ :: rest => (commentEnd? rest).map (· + 1)
  | [] => none

/-- The length of the white space or comment that a text begins with. -/
def ignoredLength : Text → Nat
  | .char '/' :: .char '/' :: rest => 2 + (rest.takeWhile fun c => !c.isLineFeed).length
  | .char '/' :: .char '*' :: rest => ((commentEnd? rest).map (· + 2)).getD 0
  | c :: _ => if isWhiteSpace c then 1 else 0
  | [] => 0

/-- The length of a quoted text from behind its opening quote, with its closing quote. A backslash
takes the next code point with it, which may not be a line feed. -/
def quotedLength? (mark : CodePoint) (breaks : Bool) : Text → Option Nat
  | [] => none
  | c :: rest =>
    if c = mark then some 1
    else if c = '\\' then
      match rest with
      | d :: rest => if d.isLineFeed then none else (quotedLength? mark breaks rest).map (· + 2)
      | [] => none
    else if c.isLineFeed && !breaks then none
    else (quotedLength? mark breaks rest).map (· + 1)

/-- Digits and low lines. -/
def digitRun (text : Text) : Text := text.takeWhile fun c => c.isDecimalDigit || c == '_'

def startsWithDigit : Text → Bool
  | c :: _ => c.isDecimalDigit
  | [] => false

/-- The length of an exponent, or zero if the text does not begin with one. -/
def exponentLength : Text → Nat
  | e :: rest =>
    if e = 'e' ∨ e = 'E' then
      let signLength := match rest with
        | c :: _ => if c = '+' ∨ c = '-' then 1 else 0
        | [] => 0
      let digits := (rest.drop signLength).takeWhile CodePoint.isDecimalDigit
      if digits.isEmpty then 0 else 1 + signLength + digits.length
    else 0
  | [] => 0

/-- The length of the hexadecimal literal that a text begins with. -/
def hexLiteralLength : Text → Nat
  | .char '0' :: x :: rest =>
    let digits := rest.takeWhile (·.hexDigit?.isSome)
    if (x = 'x' ∨ x = 'X') ∧ !digits.isEmpty then 2 + digits.length else 0
  | _ => 0

/-- The length of the decimal literal that a text begins with. -/
def decimalLength (text : Text) : Nat :=
  let mantissa :=
    if startsWithDigit text then
      let whole := (digitRun text).length
      match text.drop whole with
      | .char '.' :: rest => whole + 1 + (digitRun rest).length
      | _ => whole
    else
      match text with
      | .char '.' :: rest => if startsWithDigit rest then 1 + (digitRun rest).length else 0
      | _ => 0
  if mantissa = 0 then 0 else mantissa + exponentLength (text.drop mantissa)

def numberLength (text : Text) : Nat :=
  let hex := hexLiteralLength text
  if hex = 0 then decimalLength text else hex

/-- The symbols between two operands, a longer one before those it begins with. -/
def operatorSymbols : List Text :=
  ["===", "!==", "**", "==", "!=", "<=", ">=", "&&", "||", "??", "*", "/", "%", "<", ">"].map
    Text.ofString

/-- A symbol that is not an operator, and its length. Behind an operand three points are not an
ellipsis. -/
def punctuation (awaiting : Awaiting) : Text → Lexeme × Nat
  | .char '?' :: .char '.' :: _ => (.dot, 2)
  | .char '?' :: _ => (.question, 1)
  | .char '.' :: .char '.' :: .char '.' :: _ =>
    if awaiting = .operator then (.dot, 1) else (.ellipsis, 3)
  | .char '.' :: _ => (.dot, 1)
  | .char ',' :: _ => (.comma, 1)
  | .char ':' :: _ => (.colon, 1)
  | .char '+' :: _ => (.sign [.char '+'], 1)
  | .char '-' :: _ => (.sign [.char '-'], 1)
  | c :: _ =>
    match Bracket.ofOpening? c, Bracket.ofClosing? c with
    | some bracket, _ => (.opening bracket, 1)
    | none, some bracket => (.closing bracket, 1)
    | none, none => (.stray, 0)
  | [] => (.stray, 0)

/-- The symbol at the beginning of a text, and its length. In front of an operand an exclamation mark
stands alone. -/
def symbol (awaiting : Awaiting) (text : Text) : Lexeme × Nat :=
  if text.head? = some (.char '!') ∧ awaiting ≠ .operator then (.exclamation, 1)
  else
    match operatorSymbols.find? fun symbol => text.startsWith symbol with
    | some symbol => (.operator symbol, symbol.length)
    | none => punctuation awaiting text

/-- The lexeme at the beginning of a text, and its length. -/
def lexeme (awaiting : Awaiting) (first : CodePoint) (rest : Text) : Lexeme × Nat :=
  let text := first :: rest
  if isNameStart first then
    let name := text.takeWhile isNamePart
    (.name name, name.length)
  else if first = '"' ∨ first = '\x27' then
    match quotedLength? first false rest with
    | some length => (.string (text.take (length + 1)), length + 1)
    | none => (.stray, 0)
  else if first = '\x60' then
    match quotedLength? first true rest with
    | some length => (.template (text.take (length + 1)), length + 1)
    | none => (.stray, 0)
  else
    let length := if first = '.' ∧ awaiting = .operator then 0 else numberLength text
    if length = 0 then symbol awaiting text else (.number (text.take length), length)

/-- The tokens of a text that begins at a place. -/
def tokens (awaiting : Awaiting) (place : Place) : Text → List Token
  | [] => []
  | first :: rest =>
    match ignoredLength (first :: rest) with
    | length + 1 =>
      tokens awaiting (place.after ((first :: rest).take (length + 1))) (rest.drop length)
    | 0 =>
      match lexeme awaiting first rest with
      | (_, 0) => [⟨.stray, ⟨place.offset, place.offset, place.position⟩⟩]
      | (found, length + 1) =>
        let stop := place.after ((first :: rest).take (length + 1))
        ⟨found, ⟨place.offset, stop.offset, place.position⟩⟩ ::
          tokens (found.next awaiting) stop (rest.drop length)
termination_by text => text.length

end StaticStyle.Expression
