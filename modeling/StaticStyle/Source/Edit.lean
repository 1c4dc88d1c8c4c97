import StaticStyle.Text.Basic

/-!
Edits of a source text, given in offsets of the unchanged text. Edits may not overlap. Insertions at
one offset keep the order in which they were recorded and stand in front of a replacement there.
-/

namespace StaticStyle

/-- Writes a text in place of the code points from `start` up to `stop`. -/
structure Edit where
  start : Nat
  stop : Nat
  text : Text
deriving DecidableEq, Repr

namespace Edit

def isInsertion (edit : Edit) : Bool := edit.start == edit.stop

/-- An insertion conflicts with a replacement around it, and two replacements with a common code point
conflict with each other. -/
def overlaps (a b : Edit) : Bool :=
  if a.isInsertion && b.isInsertion then false
  else if a.isInsertion then b.start < a.start && a.start < b.stop
  else if b.isInsertion then a.start < b.start && b.start < a.stop
  else a.start < b.stop && b.start < a.stop

/-- The order of application. -/
def le (a b : Edit) : Bool :=
  a.start < b.start || (a.start == b.start && a.stop ≤ b.stop)

end Edit

/-- Why an edit is refused. -/
inductive EditFault where
  | outside (start stop : Int)
  | conflict (start stop : Nat) (earlier : Edit)
deriving DecidableEq, Repr

def EditFault.message : EditFault → Text
  | outside start stop =>
    "Edit range " ++ Text.ofInt start ++ ":" ++ Text.ofInt stop ++ " is outside the source"
  | conflict start stop earlier =>
    "Edit " ++ Text.ofNat start ++ ":" ++ Text.ofNat stop ++ " overlaps an earlier edit " ++
      Text.ofNat earlier.start ++ ":" ++ Text.ofNat earlier.stop

/-- A source and the edits recorded for it, in the order of recording. -/
structure Editor where
  source : Text
  recorded : List Edit
deriving DecidableEq, Repr

namespace Editor

def ofSource (source : Text) : Editor := ⟨source, []⟩

/-- Records an edit inside the source, unless it overlaps an earlier one. -/
def record (editor : Editor) (edit : Edit) : Except EditFault Editor :=
  match editor.recorded.find? edit.overlaps with
  | some earlier => .error (.conflict edit.start edit.stop earlier)
  | none => .ok { editor with recorded := editor.recorded ++ [edit] }

def overwrite (editor : Editor) (start stop : Int) (text : Text) : Except EditFault Editor :=
  if 0 ≤ start ∧ start ≤ stop ∧ stop ≤ editor.source.length then
    editor.record ⟨start.toNat, stop.toNat, text⟩
  else .error (.outside start stop)

def remove (editor : Editor) (start stop : Int) : Except EditFault Editor :=
  editor.overwrite start stop []

def insert (editor : Editor) (offset : Int) (text : Text) : Except EditFault Editor :=
  editor.overwrite offset offset text

def prepend (editor : Editor) (text : Text) : Except EditFault Editor := editor.insert 0 text

/-- The recorded edits in the order of application. -/
def edits (editor : Editor) : List Edit := editor.recorded.mergeSort Edit.le

def isChanged (editor : Editor) : Bool := !editor.recorded.isEmpty

/-- The source from a cursor on, with edits that lie behind it applied. -/
def renderFrom (source : Text) (cursor : Nat) : List Edit → Text
  | [] => source.drop cursor
  | edit :: rest =>
    source.slice cursor edit.start ++ edit.text ++ renderFrom source edit.stop rest

/-- The edited text. -/
def render (editor : Editor) : Text := renderFrom editor.source 0 editor.edits

end Editor

end StaticStyle
