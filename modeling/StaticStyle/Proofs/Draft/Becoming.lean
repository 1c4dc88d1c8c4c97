import StaticStyle.Proofs.Draft.Editing

/-!
What becomes of the opening elements of a source when it is compiled: their attributes are kept, erased, replaced by a
class attribute or extended by a class. Elements that stand in both texts alike are kept.
-/

namespace StaticStyle

open Markup

namespace Text

/-- A stretch of a part that begins at an offset. -/
theorem StandsAt.slice_inside {text part : Text} {offset first last : Nat} (stands : text.StandsAt offset part)
    (inside : last ≤ part.length) : text.slice (offset + first) (offset + last) = part.slice first last := by
  obtain ⟨rest, same⟩ := stands
  simp only [Text.slice, List.drop_take, ← List.drop_drop, ← same, Nat.add_sub_add_left]
  by_cases ordered : first ≤ last
  · rw [List.drop_append_of_le_length (by omega), List.take_append_of_le_length (by simp; omega)]
  · have none : last - first = 0 := by omega
    rw [none, List.take_zero, List.take_zero]

end Text

namespace Markup

/-- The text of an attribute with its name. -/
def Attribute.wholeText (attr : Attribute) (source : Text) : Text := source.slice attr.start attr.stop

/-- An attribute of the source stands in the code with the same text, unless something is edited inside its value. -/
structure Attribute.Kept (source code : Text) (edits : List Edit) (old new : Attribute) : Prop where
  name : new.name = old.name
  kind : new.kind = old.kind
  same : (∀ edit ∈ edits, edit.start < old.valueStart ∨ old.valueStop < edit.stop) →
    new.wholeText code = old.wholeText source ∧ new.valueText code = old.valueText source

/-- An attribute is the one that gives an element a class. -/
structure Attribute.IsClass (code className : Text) (attr : Attribute) : Prop where
  name : attr.name = "className"
  kind : attr.kind = .string
  text : attr.wholeText code = classText className
  value : attr.valueText code = .char '"' :: className ++ [.char '"']

/-- A class is added to the value of an attribute. -/
inductive Attribute.Gains (source code className : Text) (old new : Attribute) : Prop where
  | quoted {mark : CodePoint} {value : Text} (sameName : new.name = old.name) (oldKind : old.kind = .string)
      (newKind : new.kind = .string) (oldValue : old.valueText source = mark :: value ++ [mark])
      (newValue : new.valueText code =
        mark :: (if value.strip.isEmpty then className else value ++ " " ++ className) ++ [mark])
  | expression (sameName : new.name = old.name) (oldKind : old.kind = .expression) (newKind : new.kind = .expression)
      (newValue : new.valueText code =
        "[" ++ (old.valueText source).strip ++ ", \"" ++ className ++ "\"].filter(Boolean).join(\" \")")
  | boolean (oldKind : old.kind = .boolean) (isClass : new.IsClass code className)

/-- Attributes of the code are what becomes of those of the source. -/
inductive Becomes (source code : Text) (edits : List Edit) : Change → List Attribute → List Attribute → Prop where
  | nil {change : Change} : Becomes source code edits change [] []
  | keep {change : Change} {old new : Attribute} {olds news : List Attribute} (keeps : change old.name = .keep)
      (kept : old.Kept source code edits new) (rest : Becomes source code edits (change.past old.name) olds news) :
      Becomes source code edits change (old :: olds) (new :: news)
  | erase {change : Change} {old : Attribute} {olds news : List Attribute} (erases : change old.name = .erase)
      (rest : Becomes source code edits (change.past old.name) olds news) :
      Becomes source code edits change (old :: olds) news
  | write {change : Change} {className : Text} {old new : Attribute} {olds news : List Attribute}
      (writes : change old.name = .write className) (isClass : new.IsClass code className)
      (rest : Becomes source code edits (change.past old.name) olds news) :
      Becomes source code edits change (old :: olds) (new :: news)
  | extend {change : Change} {className : Text} {old new : Attribute} {olds news : List Attribute}
      (extends_ : change old.name = .extend className) (gains : old.Gains source code className new)
      (rest : Becomes source code edits (change.past old.name) olds news) :
      Becomes source code edits change (old :: olds) (new :: news)

/-- An element of the code has the tag of one of the source, and its attributes are what becomes of those. -/
structure Element.Rewritten (naming : Naming) (source code : Text) (edits : List Edit) (old new : Element) : Prop where
  tag : new.tag = old.tag
  attributes : Becomes source code edits (old.change naming source) old.attributes new.attributes

/-- An element of the source stands in the code with the same tag and attributes. -/
structure Element.Kept (source code : Text) (edits : List Edit) (old new : Element) : Prop where
  tag : new.tag = old.tag
  attributes : List.Forall₂ (Attribute.Kept source code edits) old.attributes new.attributes

/-- The text of an attribute and that of its value are the same wherever the attribute stands. -/
theorem Attribute.texts_of_stands {source code part : Text} {old new : Attribute}
    (stands : source.StandsAt old.start part) (stands' : code.StandsAt new.start part)
    (stop : old.stop = old.start + part.length)
    (inside : old.start ≤ old.valueStart ∧ old.valueStart ≤ old.valueStop ∧ old.valueStop ≤ old.stop)
    (moved : new.stop + old.start = old.stop + new.start ∧ new.valueStart + old.start = old.valueStart + new.start ∧
      new.valueStop + old.start = old.valueStop + new.start) :
    new.wholeText code = old.wholeText source ∧ new.valueText code = old.valueText source := by
  obtain ⟨first, starts⟩ := Nat.exists_eq_add_of_le inside.1
  obtain ⟨last, stops⟩ := Nat.exists_eq_add_of_le (inside.1.trans inside.2.1)
  have stop' : new.stop = new.start + part.length := by omega
  have starts' : new.valueStart = new.start + first := by omega
  have stops' : new.valueStop = new.start + last := by omega
  have within : last ≤ part.length := by omega
  rw [wholeText, wholeText, valueText, valueText, stands.slice stop, stands'.slice stop', starts, starts', stops,
    stops', stands.slice_inside within, stands'.slice_inside within]
  exact ⟨rfl, rfl⟩

/-- Attributes that are kept are what becomes of them if there is no edit for them. -/
theorem Becomes.of_kept {source code : Text} {edits : List Edit} {change : Change} {olds news : List Attribute}
    (kept : List.Forall₂ (Attribute.Kept source code edits) olds news) (none : change.edits source olds = []) :
    Becomes source code edits change olds news := by
  induction kept generalizing change with
  | nil => exact .nil
  | cons kept _ ih =>
    obtain ⟨own, behind⟩ := List.append_eq_nil_iff.mp none
    exact .keep (Action.edits_eq_nil own) kept (ih behind)

/-- Elements that are kept are rewritten if there are no edits for them. -/
theorem Element.Rewritten.of_kept {naming : Naming} {source code : Text} {edits : List Edit} {olds news : List Element}
    (kept : List.Forall₂ (Element.Kept source code edits) olds news)
    (none : ∀ element ∈ olds, element.edits naming source = []) :
    List.Forall₂ (Element.Rewritten naming source code edits) olds news := by
  induction kept with
  | nil => exact .nil
  | cons kept _ ih =>
    obtain ⟨own, behind⟩ := List.forall_mem_cons.mp none
    exact .cons ⟨kept.tag, .of_kept kept.attributes own⟩ (ih behind)

namespace Tree

variable {source code : Text} {edits : List Edit}

mutual

/-- Elements stand in the code as in the source if the text around them does. -/
theorem Code.kept (tree : Code) {offset offset' : Nat} (stands : source.StandsAt offset tree.print)
    (stands' : code.StandsAt offset' tree.print) :
    List.Forall₂ (Element.Kept source code edits) (tree.openings offset) (tree.openings offset') := by
  match tree with
  | .nil => exact .nil
  | .plain c rest => exact Code.kept rest stands.tail stands'.tail
  | .operator _ rest | .opening _ rest | .closing _ rest =>
    exact Code.kept rest stands.tail stands'.tail
  | .quoted mark body rest => exact Code.kept rest (stands.right rfl) (stands'.right rfl)
  | .template content rest =>
    obtain ⟨inside, behind⟩ := Code.stands_template stands
    obtain ⟨inside', behind'⟩ := Code.stands_template stands'
    exact List.rel_append (Template.kept content inside inside') (Code.kept rest behind behind')
  | .lineComment body rest =>
    rw [Code.print] at stands stands'
    exact Code.kept rest (stands.right (by simp [Text.ofString]; omega))
      (stands'.right (by simp [Text.ofString]; omega))
  | .blockComment body rest =>
    rw [Code.print] at stands stands'
    exact Code.kept rest (stands.right (by simp [Text.ofString]; omega))
      (stands'.right (by simp [Text.ofString]; omega))
  | .node inner rest =>
    exact List.rel_append (Node.kept inner stands.left stands'.left)
      (Code.kept rest (stands.right rfl) (stands'.right rfl))

theorem Template.kept (template : Template) {offset offset' : Nat} (stands : source.StandsAt offset template.print)
    (stands' : code.StandsAt offset' template.print) :
    List.Forall₂ (Element.Kept source code edits) (template.openings offset) (template.openings offset') := by
  match template with
  | .text body => exact .nil
  | .code body inner rest =>
    obtain ⟨inside, behind⟩ := Template.stands_code stands
    obtain ⟨inside', behind'⟩ := Template.stands_code stands'
    exact List.rel_append (Code.kept inner inside inside') (Template.kept rest behind behind')

theorem Node.kept (node : Node) {offset offset' : Nat} (stands : source.StandsAt offset node.print)
    (stands' : code.StandsAt offset' node.print) :
    List.Forall₂ (Element.Kept source code edits) (node.openings offset) (node.openings offset') := by
  match node with
  | .selfClosing tag attributes space =>
    obtain ⟨own, inside⟩ := Attributes.kept attributes (Node.stands_selfClosing stands)
      (Node.stands_selfClosing stands')
    exact .cons ⟨rfl, own⟩ inside
  | .paired tag attributes space children =>
    obtain ⟨front, behind⟩ := Node.stands_paired stands
    obtain ⟨front', behind'⟩ := Node.stands_paired stands'
    obtain ⟨own, inside⟩ := Attributes.kept attributes front front'
    exact .cons ⟨rfl, own⟩ (List.rel_append inside (Children.kept children behind behind'))
  | .fragment children => exact Children.kept children (Node.stands_fragment stands) (Node.stands_fragment stands')

theorem Attributes.kept (attributes : Attributes) {space space' : Text} {offset offset' : Nat}
    (stands : source.StandsAt offset (attributes.print ++ space))
    (stands' : code.StandsAt offset' (attributes.print ++ space')) :
    List.Forall₂ (Attribute.Kept source code edits) (attributes.read offset) (attributes.read offset') ∧
      List.Forall₂ (Element.Kept source code edits) (attributes.openings offset) (attributes.openings offset') := by
  match attributes with
  | .nil => exact ⟨.nil, .nil⟩
  | .boolean gap name rest =>
    obtain ⟨own, behind⟩ := Attributes.stands_boolean stands
    obtain ⟨own', behind'⟩ := Attributes.stands_boolean stands'
    obtain ⟨others, inside⟩ := Attributes.kept rest behind behind'
    exact ⟨.cons ⟨rfl, rfl, fun _ => Attribute.texts_of_stands own own' rfl (by simp) (by dsimp only; omega)⟩ others,
      inside⟩
  | .quoted gap name before after mark value rest =>
    obtain ⟨own, behind⟩ := Attributes.stands_quoted stands
    obtain ⟨own', behind'⟩ := Attributes.stands_quoted stands'
    obtain ⟨others, inside⟩ := Attributes.kept rest behind behind'
    exact ⟨.cons ⟨rfl, rfl, fun _ => Attribute.texts_of_stands own own' (by simp; omega) (by dsimp only; omega)
      (by dsimp only; omega)⟩ others, inside⟩
  | .expression gap name before after value rest =>
    obtain ⟨own, front, behind⟩ := Attributes.stands_expression stands
    obtain ⟨own', front', behind'⟩ := Attributes.stands_expression stands'
    obtain ⟨others, inside⟩ := Attributes.kept rest behind behind'
    exact ⟨.cons ⟨rfl, rfl, fun _ => Attribute.texts_of_stands own own' (by simp [Text.ofString]; omega)
      (by dsimp only; omega) (by dsimp only; omega)⟩ others, List.rel_append (Code.kept value front front') inside⟩
  | .spread gap value rest =>
    obtain ⟨own, front, behind⟩ := Attributes.stands_spread stands
    obtain ⟨own', front', behind'⟩ := Attributes.stands_spread stands'
    obtain ⟨others, inside⟩ := Attributes.kept rest behind behind'
    exact ⟨.cons ⟨rfl, rfl, fun _ => Attribute.texts_of_stands own own' (by simp [Text.ofString]; omega)
      (by dsimp only; omega) (by dsimp only; omega)⟩ others, List.rel_append (Code.kept value front front') inside⟩

theorem Children.kept (children : Children) {offset offset' : Nat} (stands : source.StandsAt offset children.print)
    (stands' : code.StandsAt offset' children.print) :
    List.Forall₂ (Element.Kept source code edits) (children.openings offset) (children.openings offset') := by
  match children with
  | .text text => exact .nil
  | .node text inner rest =>
    obtain ⟨inside, behind⟩ := Children.stands_node stands
    obtain ⟨inside', behind'⟩ := Children.stands_node stands'
    exact List.rel_append (Node.kept inner inside inside') (Children.kept rest behind behind')
  | .code text inner rest =>
    obtain ⟨inside, behind⟩ := Children.stands_code stands
    obtain ⟨inside', behind'⟩ := Children.stands_code stands'
    exact List.rel_append (Code.kept inner inside inside') (Children.kept rest behind behind')

end

end Tree

end Markup

end StaticStyle
