import StaticStyle.Text.Basic

namespace StaticStyle

inductive Bracket where
  | round
  | square
  | curly
deriving DecidableEq, Repr

namespace Bracket

def opening : Bracket → CodePoint
  | round => '('
  | square => '['
  | curly => '{'

def closing : Bracket → CodePoint
  | round => ')'
  | square => ']'
  | curly => '}'

/-- The bracket that a code point opens. -/
def ofOpening? (c : CodePoint) : Option Bracket :=
  if c = '(' then some round else if c = '[' then some square else if c = '{' then some curly
  else none

/-- The bracket that a code point closes. -/
def ofClosing? (c : CodePoint) : Option Bracket :=
  if c = ')' then some round else if c = ']' then some square else if c = '}' then some curly
  else none

theorem eq_opening {c : CodePoint} {bracket : Bracket} (opens : ofOpening? c = some bracket) :
    c = bracket.opening := by
  unfold ofOpening? at opens
  split at opens
  · cases opens
    assumption
  · split at opens
    · cases opens
      assumption
    · split at opens <;> cases opens
      assumption

theorem eq_closing {c : CodePoint} {bracket : Bracket} (closes : ofClosing? c = some bracket) :
    c = bracket.closing := by
  unfold ofClosing? at closes
  split at closes
  · cases closes
    assumption
  · split at closes
    · cases closes
      assumption
    · split at closes <;> cases closes
      assumption

end Bracket

end StaticStyle
