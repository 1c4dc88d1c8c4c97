import StaticStyle.Text.Basic

namespace StaticStyle

abbrev Fields (α : Type) := List (Text × α)

namespace Fields

variable {α : Type}

def get? (key : Text) : Fields α → Option α
  | [] => none
  | (other, value) :: rest => if other = key then some value else get? key rest

def contains (key : Text) (fields : Fields α) : Bool := (get? key fields).isSome

def put (key : Text) (value : α) : Fields α → Fields α
  | [] => [(key, value)]
  | (other, old) :: rest =>
    if other = key then (key, value) :: rest else (other, old) :: put key value rest

def erase (key : Text) (fields : Fields α) : Fields α := fields.filter (·.1 ≠ key)

def keys (fields : Fields α) : List Text := fields.map Prod.fst

/-- Puts pairs in one after another, so that the last value of a key counts. -/
def ofPairs (pairs : List (Text × α)) : Fields α :=
  pairs.foldl (fun fields pair => put pair.1 pair.2 fields) []

/-- The same pairs in ascending key order. -/
def sorted (fields : Fields α) : Fields α := fields.mergeSort fun a b => Text.le a.1 b.1

end Fields

end StaticStyle
