import StaticStyle.Value.Numeral

/-!
The strings, numbers, dates, times and truth values of TOML documents. Each reader takes its element
from the beginning of a text and gives what stands behind it. An element of characters alone is there or
not; a value may also be there and be no value of a document.
-/

namespace StaticStyle.Toml

/-- Why a text is no document. The first flaw of a text counts. -/
inductive Flaw where
  | malformed
  | oversizedInteger
deriving DecidableEq, Repr

/-- An element and the text behind it, if the text begins with one. -/
abbrev Found (α : Type) := Option (α × Text)

/-- An element and the text behind it, or the flaw that was met first. -/
abbrev Reading (α : Type) := Except Flaw (α × Text)

/-- What is not there is a flaw where it has to be. -/
def required {α : Type} : Option α → Except Flaw α
  | some a => .ok a
  | none => .error .malformed

def isBlank (c : CodePoint) : Bool := c == ' ' || c == '\t'

def isBlankOrBreak (c : CodePoint) : Bool := isBlank c || c == '\n'

def skipBlank (text : Text) : Text := text.dropWhile isBlank

/-- Control characters other than tabs, which stand in no string or comment. -/
def isControl (c : CodePoint) : Bool := (c.toNat < 0x20 && c != '\t') || c.toNat == 0x7F

/-- A control character that may not stand in a string. Strings over several lines hold line feeds. -/
def isForbidden (multiline : Bool) (c : CodePoint) : Bool :=
  isControl c && !(multiline && c == '\n')

/-- The character with a number of exactly `width` hexadecimal digits. -/
def readHexCharacter (width : Nat) (text : Text) : Found CodePoint :=
  let digits := text.take width
  if digits.length = width ∧ digits.all (·.hexDigit?.isSome) then
    let number := digits.foldl (fun value c => value * 16 + c.hexDigit?.getD 0) 0
    match CodePoint.ofNat? number with
    | some (.char c) => some (.char c, text.drop width)
    | _ => none
  else none

/-- A backslash in front of the end of a line: the white space up to the next text is left out. -/
def skipLineEnd (text : Text) : Option Text :=
  match skipBlank text with
  | .char '\n' :: rest => some (rest.dropWhile isBlankOrBreak)
  | _ => none

/-- The escape behind a backslash. -/
def readEscape (multiline : Bool) : Text → Found Text
  | [] => none
  | .char 'u' :: rest => (readHexCharacter 4 rest).map fun (c, rest) => ([c], rest)
  | .char 'U' :: rest => (readHexCharacter 8 rest).map fun (c, rest) => ([c], rest)
  | c :: rest =>
    if multiline && isBlankOrBreak c then (skipLineEnd (c :: rest)).map fun rest => ([], rest)
    else if c = 'b' then some (['\x08'], rest)
    else if c = 't' then some (['\t'], rest)
    else if c = 'n' then some (['\n'], rest)
    else if c = 'f' then some (['\x0c'], rest)
    else if c = 'r' then some (['\r'], rest)
    else if c = '"' ∨ c = '\\' then some ([c], rest)
    else none

/-- Up to two further marks in front of the end belong to a string over several lines. -/
def extraMarks (mark : CodePoint) (rest : Text) : Text :=
  (rest.take 2).takeWhile (· == mark)

/-- What stands behind the end of a string, if the text begins with it. -/
def stringEnd? (mark : CodePoint) (multiline : Bool) (text : Text) : Found Text :=
  if multiline then
    (Text.dropLeading? [mark, mark, mark] text).map fun rest =>
      let extra := extraMarks mark rest
      (extra, rest.drop extra.length)
  else (Text.dropLeading? [mark] text).map fun rest => ([], rest)

/-- A string from behind its opening marks. Only double quotes have escapes. -/
def readString (mark : CodePoint) (multiline : Bool) : Text → Found Text
  | [] => none
  | c :: rest =>
    match stringEnd? mark multiline (c :: rest) with
    | some ending => some ending
    | none =>
      if c = '\\' ∧ mark = '"' then
        match readEscape multiline rest with
        | none => none
        | some (meant, behind) =>
          if behind.length < rest.length + 1 then
            (readString mark multiline behind).map fun (content, behind) => (meant ++ content, behind)
          else none
      else if isForbidden multiline c then none
      else (readString mark multiline rest).map fun (content, behind) => (c :: content, behind)
termination_by text => text.length

/-- A string on one line, with either kind of marks. -/
def readLineString : Text → Found Text
  | [] => none
  | mark :: rest =>
    if mark = '"' ∨ mark = '\x27' then readString mark false rest else none

/-- A string of any kind. A line feed right behind three opening marks is left out. -/
def readAnyString (text : Text) : Found Text :=
  match text with
  | [] => none
  | mark :: _ =>
    if mark = '"' ∨ mark = '\x27' then
      match Text.dropLeading? [mark, mark, mark] text with
      | some (.char '\n' :: rest) => readString mark true rest
      | some rest => readString mark true rest
      | none => readLineString text
    else none

/-- Digits with single low lines between them, none at the ends. The digits are given without the low
lines. -/
def readDigits (isDigit : CodePoint → Bool) : Text → Text × Text
  | [] => ([], [])
  | c :: rest =>
    if isDigit c then
      match rest with
      | .char '_' :: next :: behind =>
        if isDigit next then
          let (digits, behind) := readDigits isDigit (next :: behind)
          (c :: digits, behind)
        else ([c], rest)
      | rest =>
        let (digits, behind) := readDigits isDigit rest
        (c :: digits, behind)
    else ([], c :: rest)

def digitsValue (base : Nat) (digits : Text) : Nat :=
  digits.foldl (fun value c => value * base + c.hexDigit?.getD 0) 0

/-- An integer with the mark of its base in front. -/
def readPrefixedInteger (letter : Char) (base : Nat) (isDigit : CodePoint → Bool) (text : Text) :
    Found Value :=
  match Text.dropLeading? [.char '0', .char letter] text with
  | none => none
  | some rest =>
    let (digits, behind) := readDigits isDigit rest
    if digits.isEmpty then none else some (.int (digitsValue base digits), behind)

def isDigitBelow (bound : Nat) (c : CodePoint) : Bool := c.hexDigit?.any (· < bound)

/-- An optional sign. -/
def readSign : Text → Text × Text
  | .char '+' :: rest => ([.char '+'], rest)
  | .char '-' :: rest => ([.char '-'], rest)
  | rest => ([], rest)

/-- The digits of an integral part: a zero alone, or digits that do not begin with one. -/
def readWhole : Text → Text × Text
  | .char '0' :: rest => ([.char '0'], rest)
  | rest => readDigits CodePoint.isAsciiDigit rest

/-- A point and digits, if the text begins with them. -/
def readFraction : Text → Text × Text
  | .char '.' :: rest =>
    match readDigits CodePoint.isAsciiDigit rest with
    | ([], _) => ([], .char '.' :: rest)
    | (digits, behind) => (.char '.' :: digits, behind)
  | rest => ([], rest)

/-- The letter of an exponent, a sign and digits, if the text begins with them. -/
def readExponent : Text → Text × Text
  | [] => ([], [])
  | e :: rest =>
    if e = 'e' ∨ e = 'E' then
      let (sign, afterSign) := readSign rest
      match readDigits CodePoint.isAsciiDigit afterSign with
      | ([], _) => ([], e :: rest)
      | (digits, behind) => (e :: sign ++ digits, behind)
    else ([], e :: rest)

/-- A decimal integer, or a number with a fraction or an exponent. -/
def readDecimal (text : Text) : Reading Value :=
  let (sign, rest) := readSign text
  let (whole, rest) := readWhole rest
  if whole.isEmpty then .error .malformed
  else
    let (fraction, rest) := readFraction rest
    let (exponent, rest) := readExponent rest
    if fraction.isEmpty && exponent.isEmpty then
      match Numeral.read? whole with
      | some n => .ok (.int (if sign = [.char '-'] then -(n : Int) else n), rest)
      | none => .error .oversizedInteger
    else
      (required (Binary64.read? (sign ++ whole ++ fraction ++ exponent))).map fun x =>
        (.float x, rest)

/-- The names of truth values, and of the numbers that have no digits. -/
def names : List (Text × Value) :=
  [("true", .bool true), ("false", .bool false), ("inf", .float (.infinity false)),
    ("nan", .float .nan), ("+inf", .float (.infinity false)), ("-inf", .float (.infinity true)),
    ("+nan", .float .nan), ("-nan", .float .nan)]

def readName (text : Text) : Found Value :=
  names.findSome? fun (name, value) => (Text.dropLeading? name text).map fun rest => (value, rest)

/-- A number of exactly `width` digits that lies between two others. -/
def readNumber (width least most : Nat) (text : Text) : Found Nat :=
  let digits := text.take width
  let number := digitsValue 10 digits
  if digits.length = width ∧ digits.all CodePoint.isAsciiDigit ∧ least ≤ number ∧ number ≤ most then
    some (number, text.drop width)
  else none

/-- A year, a month and a day of it between dashes. Not every month has the day. -/
def readDay (text : Text) : Option ((Nat × Nat × Nat) × Text) := do
  let (year, rest) ← readNumber 4 0 9999 text
  let (month, rest) ← readNumber 2 1 12 (← Text.dropLeading? "-" rest)
  let (day, rest) ← readNumber 2 1 31 (← Text.dropLeading? "-" rest)
  return ((year, month, day), rest)

/-- A number of two digits below a bound. -/
def readBelow (bound : Nat) (text : Text) : Option (Fin bound × Text) := do
  let (number, rest) ← readNumber 2 0 99 text
  if below : number < bound then return (⟨number, below⟩, rest) else none

/-- The hour and the minute of a clock. -/
def readClock (text : Text) : Option ((Fin 24 × Fin 60) × Text) := do
  let (hour, rest) ← readBelow 24 text
  let (minute, rest) ← readBelow 60 (← Text.dropLeading? ":" rest)
  return ((hour, minute), rest)

/-- The fraction of a second, if the text begins with one. Of its digits six count. -/
def readMicrosecond (text : Text) : Fin 1000000 × Text :=
  match Text.dropLeading? "." text with
  | none => (⟨0, by decide⟩, text)
  | some rest =>
    let digits := rest.takeWhile CodePoint.isAsciiDigit
    let leading := (digits ++ List.replicate 6 (CodePoint.char '0')).take 6
    if digits.isEmpty then (⟨0, by decide⟩, text)
    else (⟨digitsValue 10 leading % 1000000, Nat.mod_lt _ (by decide)⟩, rest.drop digits.length)

def readTime (text : Text) : Option (TimeOfDay × Text) := do
  let ((hour, minute), rest) ← readClock text
  let (second, rest) ← readBelow 60 (← Text.dropLeading? ":" rest)
  let (microsecond, rest) := readMicrosecond rest
  return (⟨hour, minute, second, microsecond⟩, rest)

/-- How far a time is ahead of universal time, if it says so. -/
def readOffset : Text → Option Offset × Text
  | [] => (none, [])
  | sign :: rest =>
    if sign.isOneOf "Zz" then (some .none, rest)
    else if sign.isOneOf "+-" then
      match readClock rest with
      | some ((hour, minute), behind) => (some (.ofClock (sign == '-') hour minute), behind)
      | none => (none, sign :: rest)
    else (none, sign :: rest)

/-- What stands behind a date belongs to it if it is a time. -/
def readBehindDate (date : Date) : Text → Stamp × Text
  | [] => (.date date, [])
  | separator :: rest =>
    match separator.isOneOf "Tt ", readTime rest with
    | true, some (time, rest) =>
      let (offset, rest) := readOffset rest
      (.dateTime date time offset, rest)
    | _, _ => (.date date, separator :: rest)

/-- A date, a time of day, or both, if the text begins like one. -/
def readStamp (text : Text) : Option (Reading Stamp) :=
  match readDay text with
  | some ((year, month, day), rest) =>
    if isDate : Calendar.IsDate year month day then
      some (.ok (readBehindDate ⟨year, month, day, isDate⟩ rest))
    else some (.error .malformed)
  | none => (readTime text).map fun (time, rest) => .ok (.time time, rest)

/-- A value that is no decimal number, date or time, and holds no other values. -/
def readSpecial (text : Text) : Found Value :=
  ((readAnyString text).map fun (content, rest) => (.text content, rest)).or
    ((readName text).or
      ((readPrefixedInteger 'x' 16 (isDigitBelow 16) text).or
        ((readPrefixedInteger 'b' 2 (isDigitBelow 2) text).or
          (readPrefixedInteger 'o' 8 (isDigitBelow 8) text))))

/-- A value that holds no other values. -/
def readScalar (text : Text) : Reading Value :=
  match readSpecial text with
  | some found => .ok found
  | none =>
    match readStamp text with
    | some reading => reading.map fun (stamp, rest) => (.stamp stamp, rest)
    | none => readDecimal text

end StaticStyle.Toml
