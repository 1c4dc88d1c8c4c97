import StaticStyle.Fields

namespace StaticStyle

/-- The identities of each tracked file, ascending and distinct. -/
abbrev Usage := Fields (List Text)

namespace Usage

/-- Replaces the identities of a file. Without any, the file stays tracked. -/
def recompute (file : Text) (identities : List Text) (usage : Usage) : Usage :=
  usage.put file (Text.distinct identities)

def remove (file : Text) (usage : Usage) : Usage := usage.erase file

/-- The identities of a file, none if it is not tracked. -/
def identitiesOf (file : Text) (usage : Usage) : List Text := (usage.get? file).getD []

/-- The identities of all files, ascending and distinct. -/
def live (usage : Usage) : List Text := Text.distinct (usage.flatMap Prod.snd)

/-- The tracked files in ascending order. -/
def files (usage : Usage) : List Text := Text.sort usage.keys

end Usage

end StaticStyle
