import StaticStyle.Fields
import StaticStyle.Value.Basic

namespace StaticStyle.Toml

/-- The parts of a dotted key. -/
abbrev Key := List Text

/-- Changes the table behind a key. An array of tables on the way stands for its last table, if
`entersArrays` is set. There is no table behind a value of another kind. -/
def changeTable (entersArrays : Bool) (change : Fields Value → Option (Fields Value)) :
    Key → Fields Value → Option (Fields Value)
  | [], table => change table
  | part :: key, table =>
    match table.get? part with
    | none => (changeTable entersArrays change key []).map fun inner =>
        table.put part (.object inner)
    | some (.object inner) => (changeTable entersArrays change key inner).map fun inner =>
        table.put part (.object inner)
    | some (.list items) =>
      match entersArrays, items.getLast? with
      | true, some (.object inner) => (changeTable entersArrays change key inner).map fun inner =>
          table.put part (.list (items.dropLast ++ [.object inner]))
      | _, _ => none
    | some _ => none

/-- Adds a value under a new name. -/
def addNew (name : Text) (value : Value) (table : Fields Value) : Option (Fields Value) :=
  if Fields.contains name table then none else some (table.put name value)

/-- Whether a value is a table or an array. -/
def isContainer : Value → Bool
  | .object _ => true
  | .list _ => true
  | _ => false

/-- A table in braces as far as it has been read. -/
structure Inline where
  table : Fields Value
  /-- Tables and arrays that were written as values. -/
  complete : List Key

namespace Inline

def empty : Inline := ⟨[], []⟩

/-- Adds a value. No name occurs twice, and what is written as a table or array of its own cannot be
extended. -/
def add (inline : Inline) (key : Key) (value : Value) : Option Inline :=
  if inline.complete.any fun other => other.isPrefixOf key then none
  else
    (changeTable false (addNew (key.getLastD []) value) key.dropLast inline.table).map fun table =>
      ⟨table, if isContainer value then key :: inline.complete else inline.complete⟩

end Inline

end StaticStyle.Toml
