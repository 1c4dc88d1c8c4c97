import StaticStyle.Text.Surrogate
import StaticStyle.Value.Numeral

namespace StaticStyle.Json

/-- What is wrong with a text that should be JSON. -/
inductive Flaw where
  | byteOrderMark
  | expectingValue
  | expectingName
  | expectingColon
  | expectingComma
  | extraData
  | unterminatedString
  | controlCharacter
  | badEscape
  | badUnicodeEscape
  | tooManyDigits
deriving DecidableEq, Repr

def Flaw.message : Flaw → Text
  | .byteOrderMark => "Unexpected UTF-8 BOM (decode using utf-8-sig)"
  | .expectingValue => "Expecting value"
  | .expectingName => "Expecting property name enclosed in double quotes"
  | .expectingColon => "Expecting ':' delimiter"
  | .expectingComma => "Expecting ',' delimiter"
  | .extraData => "Extra data"
  | .unterminatedString => "Unterminated string starting at"
  | .controlCharacter => "Invalid control character at"
  | .badEscape => "Invalid \\escape"
  | .badUnicodeEscape => "Invalid \\uXXXX escape"
  | .tooManyDigits => "Exceeds the limit for integer string conversion"

/-- A flaw and the offset at which it was found. -/
structure Fault where
  flaw : Flaw
  offset : Nat
deriving DecidableEq, Repr

inductive Lexeme where
  | opening (isObject : Bool)
  | closing (isObject : Bool)
  | comma
  | colon
  | text (t : Text)
  | scalar (value : Value)
  /-- An element with a flaw, which shows where a value may begin. -/
  | broken (isString : Bool) (fault : Fault)
deriving Repr

structure Token where
  lexeme : Lexeme
  offset : Nat
deriving Repr

def isSpace (c : CodePoint) : Bool := c.isOneOf " \t\n\r"

/-- The number written by four hexadecimal digits. -/
def fourHexDigits? (a b c d : CodePoint) : Option Nat := do
  let a ← a.hexDigit?
  let b ← b.hexDigit?
  let c ← c.hexDigit?
  let d ← d.hexDigit?
  return ((a * 16 + b) * 16 + c) * 16 + d

def simpleEscape? (c : CodePoint) : Option Char :=
  if c = '"' then some '"'
  else if c = '\\' then some '\\'
  else if c = '/' then some '/'
  else if c = 'b' then some '\x08'
  else if c = 'f' then some '\x0c'
  else if c = 'n' then some '\n'
  else if c = 'r' then some '\r'
  else if c = 't' then some '\t'
  else none

/-- Reads a string from behind its opening quote, which stands at `start`. The result is the code
points it denotes, escaped surrogates one by one, and the length read, with the closing quote. -/
def readString (start : Nat) : (length : Nat) → Text → Except Fault (Text × Nat)
  | _, [] => .error ⟨.unterminatedString, start⟩
  | length, c :: rest =>
    let here := start + 1 + length
    if c = '"' then .ok ([], length + 1)
    else if c ≠ '\\' then
      if c.toNat ≤ 0x1F then .error ⟨.controlCharacter, here⟩
      else (readString start (length + 1) rest).map fun (text, total) => (c :: text, total)
    else
      match rest with
      | [] => .error ⟨.unterminatedString, start⟩
      | .char 'u' :: digits =>
        match digits with
        | a :: b :: c :: d :: next :: rest =>
          match fourHexDigits? a b c d with
          | none => .error ⟨.badUnicodeEscape, here + 1⟩
          | some number => (readString start (length + 6) (next :: rest)).map fun (text, total) =>
              ((CodePoint.ofNat? number).toList ++ text, total)
        | _ => .error ⟨.badUnicodeEscape, here + 1⟩
      | letter :: rest =>
        match simpleEscape? letter with
        | none => .error ⟨.badEscape, here⟩
        | some meant => (readString start (length + 2) rest).map fun (text, total) =>
            (.char meant :: text, total)
termination_by _ text => text.length

/-- Decimal digits at the beginning of a text, and the rest. -/
def splitDigits (text : Text) : Text × Text := text.span CodePoint.isAsciiDigit

/-- The exponent at the beginning of a text, or nothing if no digit follows its letter. -/
def exponentPart : Text → Text
  | e :: rest =>
    if e.toAsciiLower = 'e' then
      let (sign, rest) := match rest with
        | c :: rest' => if c = '-' ∨ c = '+' then ([c], rest') else ([], rest)
        | [] => ([], [])
      let digits := (splitDigits rest).1
      if digits.isEmpty then [] else e :: sign ++ digits
    else []
  | [] => []

/-- A point with digits behind it at the beginning of a text. -/
def fractionPart : Text → Text
  | .char '.' :: rest =>
    let digits := (splitDigits rest).1
    if digits.isEmpty then [] else .char '.' :: digits
  | _ => []

/-- The numeral at the beginning of a text. Zero has no further digits in front of the point. -/
def numeral? (text : Text) : Option (Text × Bool) :=
  let (sign, rest) : Text × Text := match text with
    | .char '-' :: rest => ([.char '-'], rest)
    | rest => ([], rest)
  let whole : Text := match rest with
    | .char '0' :: _ => [.char '0']
    | rest => (splitDigits rest).1
  if whole.isEmpty then none
  else
    let fraction := fractionPart (rest.drop whole.length)
    let exponent := exponentPart (rest.drop (whole.length + fraction.length))
    some (sign ++ whole ++ fraction ++ exponent, fraction.isEmpty && exponent.isEmpty)

def integer? : Text → Option Int
  | .char '-' :: digits => (Numeral.read? digits).map fun n => -n
  | digits => (Numeral.read? digits).map fun n => n

def names : List (Text × Value) :=
  [("null", .null), ("true", .bool true), ("false", .bool false), ("NaN", .float .nan),
    ("Infinity", .float (.infinity false)), ("-Infinity", .float (.infinity true))]

/-- The scalar at the beginning of a text other than a string, and its length. -/
def scalar? (start : Nat) (text : Text) : Option (Lexeme × Nat) :=
  match names.find? fun entry => text.startsWith entry.1 with
  | some (name, value) => some (.scalar value, name.length)
  | none =>
    (numeral? text).map fun (numeral, isInteger) =>
      let lexeme := if isInteger then
          match integer? numeral with
          | some n => .scalar (.int n)
          | none => .broken false ⟨.tooManyDigits, start⟩
        else .scalar (.float ((Binary64.read? numeral).getD .nan))
      (lexeme, numeral.length)

/-- The lexeme at the beginning of a text that does not begin with white space. -/
def lexeme (start : Nat) (first : CodePoint) (rest : Text) : Lexeme × Nat :=
  if first = '{' then (.opening true, 1)
  else if first = '}' then (.closing true, 1)
  else if first = '[' then (.opening false, 1)
  else if first = ']' then (.closing false, 1)
  else if first = ',' then (.comma, 1)
  else if first = ':' then (.colon, 1)
  else if first = '"' then
    match readString start 0 rest with
    | .ok (text, length) => (.text text.joinSurrogates, length + 1)
    | .error fault => (.broken true fault, 0)
  else (scalar? start (first :: rest)).getD (.broken false ⟨.expectingValue, start⟩, 0)

/-- The tokens from an offset on. A lexeme of length zero is the last one. -/
def tokens (offset : Nat) : Text → List Token
  | [] => []
  | first :: rest =>
    if isSpace first then tokens (offset + 1) rest
    else
      match lexeme offset first rest with
      | (found, 0) => [⟨found, offset⟩]
      | (found, length + 1) => ⟨found, offset⟩ :: tokens (offset + length + 1) (rest.drop length)
termination_by text => text.length

end StaticStyle.Json
