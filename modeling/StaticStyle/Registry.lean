import StaticStyle.Fields
import StaticStyle.Style.Rule

namespace StaticStyle

open Style (Rule)

/-- The rules in the order in which they were registered. -/
abbrev Registry := Fields Rule

namespace Registry

/-- Adds a rule, and says whether its identity was new. -/
def register (rule : Rule) (registry : Registry) : Registry × Bool :=
  if Fields.contains rule.identity registry then (registry, false)
  else (registry ++ [(rule.identity, rule)], true)

def rules (registry : Registry) : List Rule := registry.map Prod.snd

/-- The identities in ascending order. -/
def identities (registry : Registry) : List Text := Text.sort registry.keys

/-- The registered rules of some identities, in ascending order of these. -/
def select (identities : List Text) (registry : Registry) : List (Text × Rule) :=
  (Text.distinct identities).filterMap fun identity =>
    (registry.get? identity).map fun rule => (identity, rule)

/-- A registry in one line. -/
def summary (registry : Registry) : Text :=
  "StyleRegistry(rules=" ++ Text.ofNat registry.length ++ ")"

end Registry

end StaticStyle
