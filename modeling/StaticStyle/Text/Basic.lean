/-!
Text as a list of Unicode code points. Escapes in quoted literals can denote a surrogate code point
on its own, which no `Char` can be, so a code point is either a character or a surrogate. Every
offset, length and order in this library counts code points.
-/

namespace StaticStyle

/-- A Unicode code point: a character, or one of the 2048 surrogates starting at U+D800. -/
inductive CodePoint where
  | char (c : Char)
  | surrogate (index : Fin 0x800)
deriving DecidableEq, Repr

instance : Coe Char CodePoint := ⟨.char⟩

namespace CodePoint

/-- The number of a code point, below 0x110000. -/
def toNat : CodePoint → Nat
  | char c => c.toNat
  | surrogate index => 0xD800 + index.val

/-- The code point with a given number, if there is one. -/
def ofNat? (number : Nat) : Option CodePoint :=
  if valid : number.isValidChar then
    some (char (Char.ofNatAux number valid))
  else if inside : number - 0xD800 < 0x800 then
    some (surrogate ⟨number - 0xD800, inside⟩)
  else
    none

def isLineFeed (c : CodePoint) : Bool := c == '\n'

def isAsciiUpper : CodePoint → Bool
  | char c => c.isUpper
  | surrogate _ => false

def isAsciiLetter : CodePoint → Bool
  | char c => c.isAlpha
  | surrogate _ => false

def isAsciiDigit : CodePoint → Bool
  | char c => c.isDigit
  | surrogate _ => false

def isAsciiAlphanumeric (c : CodePoint) : Bool := c.isAsciiLetter || c.isAsciiDigit

/-- Capital ASCII letters become small; every other code point stays. -/
def toAsciiLower : CodePoint → CodePoint
  | char c => char c.toLower
  | surrogate index => surrogate index

/-- The value of a hexadecimal digit of either case. -/
def hexDigit? : CodePoint → Option Nat
  | char c =>
    if c.isDigit then some (c.toNat - '0'.toNat)
    else if 'a' ≤ c ∧ c ≤ 'f' then some (c.toNat - 'a'.toNat + 10)
    else if 'A' ≤ c ∧ c ≤ 'F' then some (c.toNat - 'A'.toNat + 10)
    else none
  | surrogate _ => none

end CodePoint

/-- A sequence of code points. -/
abbrev Text := List CodePoint

namespace Text

def ofString (s : String) : Text := s.toList.map .char

instance : Coe String Text := ⟨ofString⟩

/-- The string of the same characters, unless a surrogate stands in the text. -/
def toString? (text : Text) : Option String :=
  String.ofList <$> text.mapM fun
    | .char c => some c
    | .surrogate _ => none

/-- Lexicographic order by code point number. -/
def le : Text → Text → Bool
  | [], _ => true
  | _ :: _, [] => false
  | a :: first, b :: second =>
    if a.toNat < b.toNat then true else if b.toNat < a.toNat then false else le first second

/-- Sorts texts, keeping equal ones. -/
def sort (texts : List Text) : List Text := texts.mergeSort le

/-- The sorted list of the distinct members. -/
def distinct (texts : List Text) : List Text := sort texts.eraseDups

/-- The decimal digits of a natural number. -/
def ofNat (n : Nat) : Text := (Nat.toDigits 10 n).map .char

/-- Decimal digits with a minus sign in front of negative numbers. -/
def ofInt : Int → Text
  | .ofNat n => ofNat n
  | .negSucc n => .char '-' :: ofNat (n + 1)

/-- The rest of a text behind a given beginning. -/
def dropLeading? : (leading : Text) → (text : Text) → Option Text
  | [], text => some text
  | _ :: _, [] => none
  | a :: leading, b :: text => if a = b then dropLeading? leading text else none

def startsWith (text leading : Text) : Bool := leading.isPrefixOf text

def endsWith (text ending : Text) : Bool := ending.isSuffixOf text

/-- Whether a text occurs as a contiguous part of another. -/
def occursIn (part : Text) : Text → Bool
  | [] => part.isEmpty
  | c :: rest => part.isPrefixOf (c :: rest) || occursIn part rest

/-- The code points from offset `start` up to offset `stop`. -/
def slice (text : Text) (start stop : Nat) : Text := (text.take stop).drop start

/-- The texts one after another, with a separator between neighbours. -/
def join (separator : Text) (texts : List Text) : Text := (texts.intersperse separator).flatten

/-- Writes a text in place of every occurrence of one code point. -/
def substitute (c : CodePoint) (replacement text : Text) : Text :=
  text.flatMap fun d => if d = c then replacement else [d]

/-- The parts of a text between the occurrences of one code point. -/
def split (separator : CodePoint) : Text → List Text
  | [] => [[]]
  | c :: rest =>
    match split separator rest with
    | [] => [[c]]
    | part :: parts => if c = separator then [] :: part :: parts else (c :: part) :: parts

/-- What stands behind the last occurrence of a code point, or everything. -/
def afterLast (separator : CodePoint) (text : Text) : Text :=
  (text.reverse.takeWhile (· ≠ separator)).reverse

/-- How far into a text the first occurrence of a code point is. -/
def indexOf? (c : CodePoint) (text : Text) : Option Nat := text.findIdx? (· == c)

end Text

/-- Which of several code points, given as the characters of a string. -/
def CodePoint.isOneOf (c : CodePoint) (choices : String) : Bool := (Text.ofString choices).contains c

end StaticStyle
