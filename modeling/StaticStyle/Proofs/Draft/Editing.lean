import StaticStyle.Proofs.Draft.Basic
import StaticStyle.Proofs.Markup.Standing

namespace StaticStyle

open Markup

/-- The edits of attributes of which each becomes what a change says of the next one of its name. -/
def Change.edits (source : Text) (change : Change) : List Attribute → List Edit
  | [] => []
  | attr :: rest => (change attr.name).edits source attr ++ (change.past attr.name).edits source rest

namespace Markup

/-- The text of the style of an element. -/
def Element.style? (source : Text) (element : Element) : Option Text :=
  (element.attribute? "zx").bind fun attr =>
    if attr.kind = .expression then some (attr.valueText source) else none

/-- What becomes of the attributes of an element. -/
def Element.change (naming : Naming) (source : Text) (element : Element) : Change :=
  .ofStyle naming (element.style? source) (element.attribute? "className").isSome

def Element.edits (naming : Naming) (source : Text) (element : Element) : List Edit :=
  (element.change naming source).edits source element.attributes

/-- The edit of a call with styles. -/
def Call.edit (naming : Naming) (source : Text) (call : Call) : Edit :=
  ⟨call.start, call.stop, (naming.object (call.argumentText source)).code.print⟩

end Markup

/-- Nothing happens to a spread. -/
theorem Change.ofStyle_spread (naming : Naming) (style : Option Text) (hasClass : Bool) :
    Change.ofStyle naming style hasClass "..." = .keep := by
  cases style with
  | none => rfl
  | some text =>
    have noStyle : ("..." : Text) ≠ "zx" := by decide
    have noClass : ("..." : Text) ≠ "className" := by decide
    simp [Change.ofStyle, noStyle, noClass]

theorem Change.past_keep {change : Change} {name : Text} (kept : change name = .keep) : change.past name = change := by
  funext other
  by_cases same : other = name <;> simp [Change.past, same, kept]

theorem Change.past_spread (change : Change) (spread : change "..." = .keep) (name : Text) :
    change.past name "..." = .keep := by
  by_cases same : ("..." : Text) = name <;> simp [Change.past, same, spread]

namespace Markup.Tree

theorem Attributes.any_read (attributes : Attributes) (offset : Nat) :
    ((attributes.read offset).any fun attr => attr.name == Text.ofString "className") = attributes.hasClass := by
  cases attributes with
  | nil => rfl
  | boolean gap name rest | quoted gap name before behind mark value rest
  | expression gap name before behind code rest =>
    rw [read, List.any_cons, any_read rest, hasClass]
  | spread gap code rest =>
    rw [read, List.any_cons, any_read rest, hasClass]
    rfl

/-- The first style attribute that the scanner reads is that of the tree. -/
theorem Attributes.style?_read (attributes : Attributes) {source space : Text} {offset : Nat}
    (stands : source.StandsAt offset (attributes.print ++ space)) (tag : Text) (start stop : Nat) :
    Element.style? source ⟨tag, start, stop, attributes.read offset⟩ = attributes.style? := by
  match attributes with
  | .nil => rfl
  | .boolean gap name rest =>
    have behind := style?_read rest (stands_boolean stands).2 tag start stop
    by_cases same : name = "zx"
    · simp [Element.style?, Element.attribute?, read, style?, same]
    · simpa [Element.style?, Element.attribute?, read, style?, same] using behind
  | .quoted gap name before after mark value rest =>
    have behind := style?_read rest (stands_quoted stands).2 tag start stop
    by_cases same : name = "zx"
    · simp [Element.style?, Element.attribute?, read, style?, same]
    · simpa [Element.style?, Element.attribute?, read, style?, same] using behind
  | .expression gap name before after code rest =>
    obtain ⟨-, value, others⟩ := stands_expression stands
    have behind := style?_read rest others tag start stop
    by_cases same : name = "zx"
    · subst same
      simp [Element.style?, Element.attribute?, read, style?, Attribute.valueText, value.slice rfl]
    · simpa [Element.style?, Element.attribute?, read, style?, same] using behind
  | .spread gap code rest =>
    have behind := style?_read rest (stands_spread stands).2.2 tag start stop
    have noStyle : ("..." : Text) ≠ "zx" := by decide
    simpa [Element.style?, Element.attribute?, read, style?, noStyle] using behind

theorem Attributes.change_spread (naming : Naming) (attributes : Attributes) :
    attributes.change naming "..." = .keep := Change.ofStyle_spread ..

theorem Attributes.change_read (attributes : Attributes) {source space : Text} {offset : Nat}
    (stands : source.StandsAt offset (attributes.print ++ space)) (naming : Naming) (tag : Text) (start stop : Nat) :
    Element.change naming source ⟨tag, start, stop, attributes.read offset⟩ = attributes.change naming := by
  rw [Element.change, style?_read attributes stands, Attributes.change, Element.attribute?, List.isSome_find?,
    any_read]

end Markup.Tree

namespace Draft

variable {naming : Naming} {source : Text}

/-- The edits of elements and calls. -/
def editsOf (naming : Naming) (source : Text) (elements : List Element) (calls : List Call) : List Edit :=
  elements.flatMap (Element.edits naming source) ++ calls.map (Call.edit naming source)

theorem count_editsOf_append (elements elements' : List Element) (calls calls' : List Call) (edit : Edit) :
    (editsOf naming source (elements ++ elements') (calls ++ calls')).count edit =
      (editsOf naming source elements calls).count edit + (editsOf naming source elements' calls').count edit := by
  simp only [editsOf, List.flatMap_append, List.map_append, List.count_append]
  omega

theorem count_editsOf_cons (element : Element) (elements : List Element) (calls : List Call) (edit : Edit) :
    (editsOf naming source (element :: elements) calls).count edit =
      (element.edits naming source).count edit + (editsOf naming source elements calls).count edit := by
  simp only [editsOf, List.flatMap_cons, List.count_append]
  omega

/-- The edit of a marked call is that of the call that the scanner finds. -/
theorem Code.edit_call (naming : Naming) {gap : Text} {argument : Sealed} {offset : Nat}
    (stands : source.StandsAt offset (Tree.call gap argument.code .nil).print) :
    let stop := offset + (Tree.call gap argument.code .nil).print.length
    let argumentStart := offset + 12 + gap.length + 1
    Call.edit naming source ⟨offset, stop, argumentStart, argumentStart + argument.code.print.length⟩ =
      ⟨offset, stop, (naming.object argument.code.print).code.print⟩ := by
  have shape : (Tree.call gap argument.code .nil).print =
      "createStyles" ++ gap ++ "(" ++ (argument.code.print ++ ")") := by
    simp [Tree.call, Tree.Code.print, Text.ofString, Bracket.opening, Bracket.closing]
  rw [shape] at stands
  have inside := (stands.right (n := offset + 12 + gap.length + 1) (by simp [Text.ofString]; omega)).left
  simp only [Call.edit, Call.argumentText, inside.slice rfl]

mutual

/-- The edits of a draft are those of its elements and those of its calls. -/
theorem Code.count_edits (draft : Code) {offset : Nat} (stands : source.StandsAt offset draft.source.print)
    (edit : Edit) :
    (draft.edits naming source offset).count edit =
      (editsOf naming source (draft.source.openings offset) (draft.calls offset)).count edit := by
  match draft with
  | .nil => rfl
  | .piece flat rest =>
    rw [Code.source, Tree.Code.print_append] at stands
    rw [Code.source, Tree.Code.openings_append, flat.code.openings_of_isFlat flat.isFlat, List.nil_append]
    exact Code.count_edits rest (stands.right rfl) edit
  | .call gap argument rest =>
    rw [Code.source, Tree.call_eq_append, Tree.Code.print_append] at stands
    have behind := Code.count_edits rest (stands.right rfl) edit
    have flat : (Tree.call gap argument.code .nil).openings offset = [] := by
      simp [Tree.call, Tree.Code.openings, argument.code.openings_of_isFlat argument.isFlat]
    rw [Code.source, Tree.call_eq_append, Tree.Code.openings_append, flat, List.nil_append]
    simp only [Code.edits, Code.calls, editsOf, List.map_cons, List.count_append, List.count_cons,
      Code.edit_call naming stands.left] at behind ⊢
    omega
  | .template content rest =>
    obtain ⟨inside, behind⟩ := Tree.Code.stands_template stands
    rw [Code.edits, List.count_append, Template.count_edits content inside, Code.count_edits rest behind,
      ← count_editsOf_append]
    rfl
  | .node inner rest =>
    rw [Code.source, Tree.Code.print] at stands
    have inside := Node.count_edits inner stands.left edit
    have behind := Code.count_edits rest (stands.right rfl) edit
    rw [Code.edits, List.count_append, inside, behind, ← count_editsOf_append]
    rfl

theorem Template.count_edits (template : Template) {offset : Nat}
    (stands : source.StandsAt offset template.source.print) (edit : Edit) :
    (template.edits naming source offset).count edit =
      (editsOf naming source (template.source.openings offset) (template.calls offset)).count edit := by
  match template with
  | .text body => rfl
  | .code body inner rest =>
    obtain ⟨inside, behind⟩ := Tree.Template.stands_code stands
    rw [Template.edits, List.count_append, Code.count_edits inner inside, Template.count_edits rest behind,
      ← count_editsOf_append]
    rfl

theorem Node.count_edits (node : Node) {offset : Nat} (stands : source.StandsAt offset node.source.print)
    (edit : Edit) :
    (node.edits naming source offset).count edit =
      (editsOf naming source (node.source.openings offset) (node.calls offset)).count edit := by
  match node with
  | .selfClosing tag attributes space =>
    have stands := Tree.Node.stands_selfClosing stands
    have spread := Tree.Attributes.change_spread naming attributes.source
    have inside := Attributes.count_edits attributes spread stands edit
    rw [Node.edits, Node.source, Tree.Node.openings, count_editsOf_cons, Element.edits,
      Tree.Attributes.change_read _ stands]
    exact inside
  | .paired tag attributes space children =>
    obtain ⟨inside, behind⟩ := Tree.Node.stands_paired stands
    have spread := Tree.Attributes.change_spread naming attributes.source
    have inside' := Attributes.count_edits attributes spread inside edit
    rw [Node.edits, List.count_append, Children.count_edits children behind, Node.source, Tree.Node.openings,
      count_editsOf_cons, Element.edits, Tree.Attributes.change_read _ inside, Node.calls, count_editsOf_append,
      ← Nat.add_assoc]
    exact congrArg (· + _) inside'
  | .fragment children => exact Children.count_edits children (Tree.Node.stands_fragment stands) edit

theorem Attributes.count_edits (attributes : Attributes) {change : Change} (spread : change "..." = .keep)
    {space : Text} {offset : Nat} (stands : source.StandsAt offset (attributes.source.print ++ space)) (edit : Edit) :
    (attributes.edits naming source change offset).count edit =
      (change.edits source (attributes.source.read offset)).count edit +
        (editsOf naming source (attributes.source.openings offset) (attributes.calls offset)).count edit := by
  match attributes with
  | .nil => rfl
  | .boolean gap name rest =>
    have behind := Attributes.count_edits rest (change.past_spread spread name)
      (Tree.Attributes.stands_boolean stands).2
      edit
    rw [Attributes.edits, List.count_append, behind, ← Nat.add_assoc, ← List.count_append]
    rfl
  | .quoted gap name before after mark value rest =>
    have behind := Attributes.count_edits rest (change.past_spread spread name) (Tree.Attributes.stands_quoted stands).2
      edit
    rw [Attributes.edits, List.count_append, behind, ← Nat.add_assoc, ← List.count_append]
    rfl
  | .expression gap name before after code rest =>
    obtain ⟨-, value, others⟩ := Tree.Attributes.stands_expression stands
    have inside := Code.count_edits code value edit
    have behind := Attributes.count_edits rest (change.past_spread spread name) others edit
    simp only [Attributes.edits, Attributes.source, Tree.Attributes.read, Tree.Attributes.openings, Attributes.calls,
      Change.edits, List.count_append, count_editsOf_append, inside, behind]
    omega
  | .spread gap code rest =>
    obtain ⟨-, value, others⟩ := Tree.Attributes.stands_spread stands
    have inside := Code.count_edits code value edit
    have behind := Attributes.count_edits rest spread others edit
    simp only [Attributes.edits, Attributes.source, Tree.Attributes.read, Tree.Attributes.openings, Attributes.calls,
      Change.edits, Change.past_keep spread, spread, Action.edits, List.nil_append, List.count_append,
      count_editsOf_append, inside, behind]
    omega

theorem Children.count_edits (children : Children) {offset : Nat}
    (stands : source.StandsAt offset children.source.print) (edit : Edit) :
    (children.edits naming source offset).count edit =
      (editsOf naming source (children.source.openings offset) (children.calls offset)).count edit := by
  match children with
  | .text text => rfl
  | .node text inner rest =>
    obtain ⟨inside, behind⟩ := Tree.Children.stands_node stands
    rw [Children.edits, List.count_append, Node.count_edits inner inside, Children.count_edits rest behind,
      ← count_editsOf_append]
    rfl
  | .code text inner rest =>
    obtain ⟨inside, behind⟩ := Tree.Children.stands_code stands
    rw [Children.edits, List.count_append, Code.count_edits inner inside, Children.count_edits rest behind,
      ← count_editsOf_append]
    rfl

end

theorem Code.edits_perm (naming : Naming) (draft : Code) {offset : Nat}
    (stands : source.StandsAt offset draft.source.print) :
    (draft.edits naming source offset).Perm
      (editsOf naming source (draft.source.openings offset) (draft.calls offset)) :=
  List.perm_iff_count.mpr (Code.count_edits draft stands)

end Draft

end StaticStyle
