import StaticStyle.Value.Basic

namespace StaticStyle.Expression

/-- A numeric value: small integral numbers and hexadecimal literals are whole. -/
inductive Number where
  | whole (n : Int)
  | real (x : Binary64)
deriving DecidableEq, Repr

namespace Number

def toValue : Number → Value
  | whole n => .int n
  | real x => .float x

/-- The opposite number. Zero has no sign. -/
def negate : Number → Number
  | whole n => whole (-n)
  | real x => if x.isZero then whole 0 else real x.negate

end Number

/-- What an escape sequence denotes, and its length behind the backslash. -/
structure Escape where
  meaning : Sum Nat Text
  length : Nat
deriving DecidableEq, Repr

namespace Escape

def hexValue (digits : Text) : Nat :=
  digits.foldl (fun value c => value * 16 + c.hexDigit?.getD 0) 0

/-- Exactly `count` hexadecimal digits, behind a letter. -/
def ofHex? (count : Nat) (text : Text) : Option Escape :=
  let digits := text.take count
  if digits.length = count ∧ digits.all (·.hexDigit?.isSome) then
    some ⟨.inl (hexValue digits), count + 1⟩
  else none

/-- Any number of hexadecimal digits and a closing brace, behind `u` and an opening brace. -/
def ofBraces? (text : Text) : Option Escape :=
  let digits := text.takeWhile (·.hexDigit?.isSome)
  if !digits.isEmpty && (text.drop digits.length).head? == some (.char '}') then
    some ⟨.inl (hexValue digits), digits.length + 3⟩
  else none

/-- The escape of one letter. A line feed denotes nothing, and most letters themselves. -/
def ofLetter (c : CodePoint) : Escape :=
  let meant : Text :=
    if c = 'n' then ['\n']
    else if c = 't' then ['\t']
    else if c = 'r' then ['\r']
    else if c = 'b' then ['\x08']
    else if c = 'f' then ['\x0c']
    else if c = 'v' then ['\x0b']
    else if c = '0' then ['\x00']
    else if c = '\n' then []
    else [c]
  ⟨.inr meant, 1⟩

/-- The escape that begins behind a backslash. -/
def read? : Text → Option Escape
  | [] => none
  | .char 'u' :: rest =>
    let braced := match rest with
      | .char '{' :: digits => ofBraces? digits
      | _ => none
    some (((braced.or (ofHex? 4 rest))).getD (ofLetter 'u'))
  | .char 'x' :: rest => some ((ofHex? 2 rest).getD (ofLetter 'x'))
  | c :: _ => some (ofLetter c)

end Escape

/-- The number of an escape that is above every code point. -/
structure OutOfRange where
  number : Nat
deriving DecidableEq, Repr

/-- Replaces the escapes of a text by what they denote. -/
def unescape : Text → Except OutOfRange Text
  | [] => .ok []
  | c :: rest =>
    if c = '\\' then
      match Escape.read? rest with
      | none => .ok [c]
      | some escape =>
        match escape.meaning with
        | .inr text => (text ++ ·) <$> unescape (rest.drop escape.length)
        | .inl number =>
          match CodePoint.ofNat? number with
          | some c => (c :: ·) <$> unescape (rest.drop escape.length)
          | none => .error ⟨number⟩
    else (c :: ·) <$> unescape rest
termination_by text => text.length
decreasing_by all_goals simp only [List.length_drop, List.length_cons]; omega

/-- The text that a string literal denotes. The quotes at its ends are not looked at. -/
def decodeString (raw : Text) : Except OutOfRange Text := unescape (raw.drop 1).dropLast

/-- A digit of a hexadecimal literal: a hexadecimal digit or a decimal digit of any script. -/
def hexLiteralDigit? (c : CodePoint) : Option Nat := c.hexDigit?.or c.decimalDigit?

/-- The value of the digits behind `0x`. -/
def readHexLiteral? (digits : Text) : Option Nat :=
  if digits.isEmpty then none
  else digits.foldlM (fun value c => (hexLiteralDigit? c).map (value * 16 + ·)) 0

/-- Integral numbers below 2 ^ 53 are whole. -/
def ofBinary (x : Binary64) : Number :=
  match x.toInt? with
  | some n => if n.natAbs < Nat.pow 2 53 then .whole n else .real x
  | none => .real x

/-- The number that a numeric literal denotes. Low lines between digits have no meaning. -/
def decodeNumber? (raw : Text) : Option Number :=
  let text : Text := raw.filter fun c => c ≠ CodePoint.char '_'
  match text with
  | .char '0' :: x :: digits =>
    if x = 'x' ∨ x = 'X' then
      (readHexLiteral? (Text.dropTrailing Binary64.isPadding digits)).map fun n => .whole n
    else (Binary64.read? text).map ofBinary
  | _ => (Binary64.read? text).map ofBinary

end StaticStyle.Expression
