import StaticStyle.Text.Quoted
import StaticStyle.Text.Surrogate

namespace StaticStyle.Json

/-- The letter of a two-character escape. -/
def shortEscape? (c : CodePoint) : Option Char :=
  if c = '"' then some '"'
  else if c = '\\' then some '\\'
  else if c = '\n' then some 'n'
  else if c = '\r' then some 'r'
  else if c = '\t' then some 't'
  else if c = '\x0c' then some 'f'
  else if c = '\x08' then some 'b'
  else none

def unitEscape (unit : Nat) : Text := .char '\\' :: .char 'u' :: hexDigits 4 unit

def escape (c : CodePoint) : Text :=
  match shortEscape? c with
  | some letter => ['\\', letter]
  | none => if c.toNat < 0x20 then unitEscape c.toNat else [c]

def asciiEscape (c : CodePoint) : Text :=
  match shortEscape? c with
  | some letter => ['\\', letter]
  | none =>
    if 0x20 ≤ c.toNat ∧ c.toNat < 0x7F then [c] else c.units.flatMap unitEscape

/-- A JSON string with the mandatory escapes only. -/
def quote (text : Text) : Text := .char '"' :: text.flatMap escape ++ [.char '"']

/-- A JSON string of visible ASCII characters. -/
def quoteAscii (text : Text) : Text := .char '"' :: text.flatMap asciiEscape ++ [.char '"']

end StaticStyle.Json
