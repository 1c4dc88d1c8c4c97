import StaticStyle.Fields
import StaticStyle.Style.Rule
import StaticStyle.Text.Blank

namespace StaticStyle.Bundle

open Style (Rule)

/-- The rules in ascending order of their identities, a line feed behind each. -/
def renderRules (rules : Fields Rule) : Text :=
  rules.sorted.flatMap fun entry => entry.2.css ++ [.char '\n']

/-- Whether the class of a rule occurs in an artifact. -/
def isReferenced (artifacts : List Text) (rule : Rule) : Bool :=
  artifacts.any fun artifact => Text.occursIn rule.className artifact

/-- The rules that are kept and those that are dropped, each in ascending order. -/
def partition (candidates : Fields Rule) (artifacts : List Text) : Fields Rule × Fields Rule :=
  candidates.sorted.partition fun entry => isReferenced artifacts entry.2

/-- The style sheet of the rules that are kept. -/
def prune (candidates : Fields Rule) (artifacts : List Text) : Text :=
  renderRules (partition candidates artifacts).1

/-- Whether a text begins with the closing tag of a head, in any letter case. -/
def startsWithHeadClose (text : Text) : Bool :=
  match Text.dropLeading? "</head" ((text.take 6).map CodePoint.toAsciiLower) with
  | some _ => ((text.drop 6).dropWhile CodePoint.isBlank).head? == some (.char '>')
  | none => false

/-- The offset of the first closing tag of a head. -/
def headClose? : Text → Option Nat
  | [] => none
  | c :: rest =>
    if startsWithHeadClose (c :: rest) then some 0 else (headClose? rest).map (· + 1)

/-- The element that links a style sheet. -/
def link (href : Text) : Text := "<link rel=\"stylesheet\" href=\"" ++ href ++ "\">"

/-- Links a style sheet in front of the closing tag of the head, unless it is linked already or the
markup has no such tag. -/
def injectLink (html href : Text) : Text :=
  if Text.occursIn (link href) html then html
  else
    match headClose? html with
    | none => html
    | some offset => html.take offset ++ ("  " ++ link href ++ "\n") ++ html.drop offset

end StaticStyle.Bundle
