import StaticStyle.Proofs.Draft.Becoming
import StaticStyle.Proofs.Draft.Turning

namespace StaticStyle

open Markup

namespace Markup.Tree

variable {naming : Naming} {source code : Text} {edits : List Edit}

theorem Tail.read_widen (gap : Text) (tail : Tail) (offset : Nat) :
    (tail.widen gap).1.read offset = tail.1.read (offset + gap.length) := by
  obtain ⟨attributes, space⟩ := tail
  cases attributes <;> simp [widen, Attributes.read, Nat.add_assoc]

theorem Tail.openings_widen (gap : Text) (tail : Tail) (offset : Nat) :
    (tail.widen gap).1.openings offset = tail.1.openings (offset + gap.length) := by
  obtain ⟨attributes, space⟩ := tail
  cases attributes <;> simp [widen, Attributes.openings, Nat.add_assoc]

/-- The attributes of a tail in the code, and the elements in their values, are what becomes of those of the source. -/
structure Tail.Follows (naming : Naming) (source code : Text) (edits : List Edit) (change : Change)
    (olds : List Attribute) (elements : List Element) (tail : Tail) (offset : Nat) : Prop where
  attributes : Becomes source code edits change olds (tail.1.read offset)
  elements : List.Forall₂ (Element.Rewritten naming source code edits) elements (tail.1.openings offset)

/-- The class attribute in front of a tail. -/
theorem Tail.exists_class {gap className : Text} {tail : Tail} {offset : Nat}
    (stands : code.StandsAt offset (tail.classed gap className).print) :
    ∃ attr stop, attr.IsClass code className ∧ code.StandsAt stop tail.print ∧
      (tail.classed gap className).1.read offset = attr :: tail.1.read stop ∧
      (tail.classed gap className).1.openings offset = tail.1.openings stop := by
  obtain ⟨own, behind⟩ := Attributes.stands_quoted (stands : code.StandsAt offset (_ ++ _))
  refine ⟨_, _, ⟨rfl, rfl, ?_, ?_⟩, behind, rfl, rfl⟩
  · rw [Attribute.wholeText, own.slice (by simp; omega)]
    simp [label, classText, Text.ofString]
  · exact (own.right (by simp; omega)).slice (by simp; omega)

/-- Whatever happens to the attribute in front, the tail is what becomes of it and of those behind it. -/
theorem Tail.follows_act {gap : Text} {old : Attribute} {olds : List Attribute} {inner elements : List Element}
    {change : Change} {tail kept : Tail} {extended : Text → Tail} {offset : Nat}
    (behind : ∀ {offset}, code.StandsAt offset tail.print →
      tail.Follows naming source code edits (change.past old.name) olds elements offset)
    (empties : change old.name ≠ .keep → (∀ name, change old.name ≠ .extend name) → inner = [])
    (keeps : change old.name = .keep → code.StandsAt offset kept.print →
      kept.Follows naming source code edits change (old :: olds) (inner ++ elements) offset)
    (extends_ : ∀ className, change old.name = .extend className → code.StandsAt offset (extended className).print →
      (extended className).Follows naming source code edits change (old :: olds) (inner ++ elements) offset)
    (stands : code.StandsAt offset (tail.act gap kept extended (change old.name)).print) :
    (tail.act gap kept extended (change old.name)).Follows naming source code edits change (old :: olds)
      (inner ++ elements) offset := by
  cases same : change old.name with
  | keep =>
    rw [same] at stands
    exact keeps same stands
  | erase =>
    rw [same, act, print_widen] at stands
    have follows := behind (stands.right rfl)
    rw [empties (by simp [same]) (by simp [same]), act]
    exact ⟨.erase same (read_widen gap tail offset ▸ follows.attributes),
      openings_widen gap tail offset ▸ follows.elements⟩
  | write className =>
    rw [same] at stands
    obtain ⟨attr, stop, isClass, further, reads, opens⟩ := exists_class stands
    have follows := behind further
    rw [empties (by simp [same]) (by simp [same]), act]
    exact ⟨reads ▸ .write same isClass follows.attributes, opens ▸ follows.elements⟩
  | extend className =>
    rw [same] at stands
    exact extends_ className same stands

/-- A class attribute stands in the place of an attribute without a value. -/
theorem Tail.follows_classed {gap : Text} {old : Attribute} {olds : List Attribute} {elements : List Element}
    {change : Change} {className : Text} {tail : Tail} {offset : Nat} (kind : old.kind = .boolean)
    (behind : ∀ {offset}, code.StandsAt offset tail.print →
      tail.Follows naming source code edits (change.past old.name) olds elements offset)
    (extends_ : change old.name = .extend className)
    (stands : code.StandsAt offset (tail.classed gap className).print) :
    (tail.classed gap className).Follows naming source code edits change (old :: olds) elements offset := by
  obtain ⟨attr, stop, isClass, further, reads, opens⟩ := exists_class stands
  have follows := behind further
  exact ⟨reads ▸ .extend extends_ (.boolean kind isClass) follows.attributes, opens ▸ follows.elements⟩

end Markup.Tree

namespace Draft

variable {naming : Naming} {source code : Text} {edits : List Edit}

/-- The elements of code without edits are kept where a class is added to it. -/
theorem Code.rewritten_joined (edits : List Edit) (draft : Code) {offset offset' : Nat}
    (none : draft.edits naming source offset = [])
    {className : Text} (stands : source.StandsAt offset draft.source.print)
    (stands' : code.StandsAt offset' (Tree.joined draft.source className).print) :
    List.Forall₂ (Element.Rewritten naming source code edits) (draft.source.openings offset)
      ((Tree.joined draft.source className).openings offset') := by
  have unedited : ∀ element ∈ draft.source.openings offset, element.edits naming source = [] := by
    have perm := draft.edits_perm naming stands
    rw [none, List.nil_perm, editsOf, List.append_eq_nil_iff, List.flatMap_eq_nil_iff] at perm
    exact perm.1
  obtain ⟨front, back, same, opens⟩ := draft.source.openings_strip
  have opens' : (Tree.joined draft.source className).openings offset' = draft.source.strip.openings (offset' + 1) := by
    simp [Tree.joined, Tree.joinEnd, Tree.joinCall, Tree.Code.openings]
  rw [Tree.joined, Tree.Code.print, Tree.Code.print_append] at stands'
  rw [same] at stands
  rw [opens] at unedited
  rw [opens, opens']
  have inside := stands'.tail
  exact Element.Rewritten.of_kept (Tree.Code.kept draft.source.strip (stands.right rfl).left inside.left) unedited

/-- Code without an edit inside some extent around it has no edits. -/
theorem Code.edits_eq_nil (draft : Code) {inValue : Bool} {before : CodePoint} {next : Option CodePoint}
    {offset first last : Nat} (valid : draft.source.isValid inValue before next = true) (clear : draft.IsClear naming source offset)
    (recorded : draft.edits naming source offset ⊆ edits) (stands : source.StandsAt offset draft.source.print)
    (outside : ∀ edit ∈ edits, edit.start < first ∨ last < edit.stop) (below : first ≤ offset)
    (above : offset + draft.source.print.length ≤ last) : draft.edits naming source offset = [] := by
  refine List.eq_nil_iff_forall_not_mem.mpr fun edit member => ?_
  have inside := (Code.turns draft valid clear stands).inside edit member
  have apart := outside edit (recorded member)
  omega

mutual

theorem Code.rewritten (draft : Code) {inValue : Bool} {before : CodePoint} {next : Option CodePoint}
    {offset offset' : Nat} (valid : draft.source.isValid inValue before next = true) (clear : draft.IsClear naming source offset)
    (recorded : draft.edits naming source offset ⊆ edits) (stands : source.StandsAt offset draft.source.print)
    (stands' : code.StandsAt offset' (draft.compiled naming).print) :
    List.Forall₂ (Element.Rewritten naming source code edits) (draft.source.openings offset)
      ((draft.compiled naming).openings offset') := by
  match draft with
  | .nil => exact .nil
  | .piece flat rest =>
    rw [Code.source, Tree.Code.print_append] at stands
    rw [Code.compiled, Tree.Code.print_append] at stands'
    rw [Code.source, Tree.Code.isValid_append, Bool.and_eq_true] at valid
    simp only [Code.source, Code.compiled, Tree.Code.openings_append, flat.code.openings_of_isFlat flat.isFlat,
      List.nil_append]
    exact Code.rewritten rest valid.2 clear recorded (stands.right rfl) (stands'.right rfl)
  | .call gap argument rest =>
    rw [Code.source, Tree.call_eq_append, Tree.Code.print_append] at stands
    rw [Code.compiled, Tree.Code.print_append] at stands'
    rw [Code.source, Tree.call_eq_append, Tree.Code.isValid_append, Bool.and_eq_true] at valid
    have flat : (Tree.call gap argument.code .nil).openings offset = [] := by
      simp [Tree.call, Tree.Code.openings, argument.code.openings_of_isFlat argument.isFlat]
    rw [Code.source, Code.compiled, Tree.call_eq_append, Tree.Code.openings_append, Tree.Code.openings_append, flat,
      (naming.object argument.code.print).code.openings_of_isFlat (naming.object _).isFlat]
    exact Code.rewritten rest valid.2 clear.2 (List.subset_of_cons_subset recorded) (stands.right rfl)
      (stands'.right rfl)
  | .template content rest =>
    simp only [Code.source, Tree.Code.isValid, Bool.and_eq_true] at valid
    obtain ⟨inside, behind⟩ := Tree.Code.stands_template stands
    obtain ⟨inside', behind'⟩ := Tree.Code.stands_template stands'
    obtain ⟨front, back⟩ := List.append_subset.mp recorded
    exact List.rel_append (Template.rewritten content valid.1 clear.1 front inside inside')
      (Code.rewritten rest valid.2 clear.2 back behind behind')
  | .node inner rest =>
    rw [Code.source, Tree.Code.print] at stands
    rw [Code.compiled, Tree.Code.print] at stands'
    simp only [Code.source, Tree.Code.isValid, Bool.and_eq_true] at valid
    obtain ⟨front, back⟩ := List.append_subset.mp recorded
    exact List.rel_append (Node.rewritten inner valid.1.2 clear.1 front stands.left stands'.left)
      (Code.rewritten rest valid.2 clear.2 back (stands.right rfl) (stands'.right rfl))

theorem Template.rewritten (template : Template) {inValue : Bool} {offset offset' : Nat}
    (valid : template.source.isValid inValue = true) (clear : template.IsClear naming source offset)
    (recorded : template.edits naming source offset ⊆ edits) (stands : source.StandsAt offset template.source.print)
    (stands' : code.StandsAt offset' (template.compiled naming).print) :
    List.Forall₂ (Element.Rewritten naming source code edits) (template.source.openings offset)
      ((template.compiled naming).openings offset') := by
  match template with
  | .text body => exact .nil
  | .code body inner rest =>
    simp only [Template.source, Tree.Template.isValid, Bool.and_eq_true] at valid
    obtain ⟨⟨⟨-, codeValid⟩, -⟩, valid⟩ := valid
    obtain ⟨inside, behind⟩ := Tree.Template.stands_code stands
    obtain ⟨inside', behind'⟩ := Tree.Template.stands_code stands'
    obtain ⟨front, back⟩ := List.append_subset.mp recorded
    exact List.rel_append (Code.rewritten inner codeValid clear.1 front inside inside')
      (Template.rewritten rest valid clear.2 back behind behind')

theorem Node.rewritten (node : Node) {inValue : Bool} {offset offset' : Nat}
    (valid : node.source.isValid inValue = true) (clear : node.IsClear naming source offset)
    (recorded : node.edits naming source offset ⊆ edits) (stands : source.StandsAt offset node.source.print)
    (stands' : code.StandsAt offset' (node.compiled naming).print) :
    List.Forall₂ (Element.Rewritten naming source code edits) (node.source.openings offset)
      ((node.compiled naming).openings offset') := by
  match node with
  | .selfClosing tag attributes space =>
    simp only [Node.source, Tree.Node.isValid, Bool.and_eq_true] at valid
    have inside := Tree.Node.stands_selfClosing stands
    have inside' := Tree.Node.stands_selfClosing stands'
    have follows := Attributes.rewritten attributes valid.1.2 (Tree.Attributes.change_spread naming attributes.source)
      clear recorded inside inside'
    refine .cons ⟨rfl, ?_⟩ follows.elements
    rw [Tree.Attributes.change_read _ inside]
    exact follows.attributes
  | .paired tag attributes space children =>
    simp only [Node.source, Tree.Node.isValid, Bool.and_eq_true] at valid
    obtain ⟨inside, behind⟩ := Tree.Node.stands_paired stands
    obtain ⟨inside', behind'⟩ := Tree.Node.stands_paired stands'
    obtain ⟨front, back⟩ := List.append_subset.mp recorded
    have follows := Attributes.rewritten attributes valid.1.1.2 (Tree.Attributes.change_spread naming attributes.source)
      clear.1 front inside inside'
    refine .cons ⟨rfl, ?_⟩ (List.rel_append follows.elements
      (Children.rewritten children valid.2 clear.2 back behind behind'))
    rw [Tree.Attributes.change_read _ inside]
    exact follows.attributes
  | .fragment children =>
    exact Children.rewritten children valid clear recorded (Tree.Node.stands_fragment stands)
      (Tree.Node.stands_fragment stands')

theorem Attributes.rewritten (attributes : Attributes) {inValue : Bool} {change : Change} {space : Text}
    {offset o : Nat} (valid : attributes.source.isValid inValue = true) (spread : change "..." = .keep)
    (clear : attributes.IsClear naming source change offset)
    (recorded : attributes.edits naming source change offset ⊆ edits)
    (stands : source.StandsAt offset (attributes.source.print ++ space))
    (stands' : code.StandsAt o (attributes.compiled naming change space).print) :
    (attributes.compiled naming change space).Follows naming source code edits change (attributes.source.read offset)
      (attributes.source.openings offset) o := by
  match attributes with
  | .nil => exact ⟨.nil, .nil⟩
  | .boolean gap name rest =>
    simp only [Attributes.source, Tree.Attributes.isValid, Bool.and_eq_true] at valid
    obtain ⟨own, others⟩ := Tree.Attributes.stands_boolean stands
    obtain ⟨-, back⟩ := List.append_subset.mp recorded
    have behind {o : Nat} := Attributes.rewritten (o := o) rest valid.2 (change.past_spread spread name)
      clear back others
    refine Tree.Tail.follows_act behind (fun _ _ => rfl) (fun keeps stands' => ?_)
      (fun className extends_ stands' => Tree.Tail.follows_classed rfl behind extends_ stands') stands'
    obtain ⟨own', others'⟩ := Tree.Attributes.stands_boolean stands'
    have follows := behind others'
    exact ⟨.keep keeps ⟨rfl, rfl, fun _ => Attribute.texts_of_stands own own' rfl (by simp) (by dsimp only; omega)⟩
      follows.attributes, follows.elements⟩
  | .quoted gap name before after mark value rest =>
    simp only [Attributes.source, Tree.Attributes.isValid, Bool.and_eq_true] at valid
    obtain ⟨own, others⟩ := Tree.Attributes.stands_quoted stands
    obtain ⟨-, back⟩ := List.append_subset.mp recorded
    have behind {o : Nat} := Attributes.rewritten (o := o) rest valid.2 (change.past_spread spread name)
      clear back others
    refine Tree.Tail.follows_act behind (fun _ _ => rfl) (fun keeps stands' => ?_)
      (fun className extends_ stands' => ?_) stands'
    · obtain ⟨own', others'⟩ := Tree.Attributes.stands_quoted stands'
      have follows := behind others'
      exact ⟨.keep keeps ⟨rfl, rfl, fun _ => Attribute.texts_of_stands own own' (by simp; omega) (by dsimp only; omega)
        (by dsimp only; omega)⟩ follows.attributes, follows.elements⟩
    · obtain ⟨own', others'⟩ := Tree.Attributes.stands_quoted stands'
      have follows := behind others'
      exact ⟨.extend extends_ (.quoted rfl rfl rfl ((own.right (by simp; omega)).slice (by simp; omega))
        ((own'.right (by simp; omega)).slice (by simp; omega))) follows.attributes, follows.elements⟩
  | .expression gap name before after inner rest =>
    simp only [Attributes.source, Tree.Attributes.isValid, Bool.and_eq_true] at valid
    obtain ⟨own, value, others⟩ := Tree.Attributes.stands_expression stands
    obtain ⟨innerClear, unedited, acts, restClear⟩ := clear
    obtain ⟨-, recorded⟩ := List.append_subset.mp recorded
    obtain ⟨front, back⟩ := List.append_subset.mp recorded
    have behind {o : Nat} := Attributes.rewritten (o := o) rest valid.2 (change.past_spread spread name)
      restClear back others
    refine Tree.Tail.follows_act behind (fun noKeep noExtend => ?_) (fun keeps stands' => ?_)
      (fun className extends_ stands' => ?_) stands'
    · cases same : change name with
      | keep => exact absurd same noKeep
      | erase | write _ =>
        rw [same] at acts
        exact acts
      | extend className => exact absurd same (noExtend className)
    · obtain ⟨own', value', others'⟩ := Tree.Attributes.stands_expression stands'
      have follows := behind others'
      have elements := Code.rewritten inner valid.1.1.2 innerClear front value value'
      refine ⟨.keep keeps ⟨rfl, rfl, fun outside => ?_⟩ follows.attributes, List.rel_append elements follows.elements⟩
      have none := Code.edits_eq_nil inner valid.1.1.2 innerClear front value outside (Nat.le_refl _) (Nat.le_refl _)
      have same := Code.compiled_of_edits_nil inner none
      rw [same] at own'
      exact Attribute.texts_of_stands own own' (by simp [Text.ofString]; omega) (by dsimp only; omega)
        (by dsimp only; rw [same]; omega)
    · obtain ⟨own', value', others'⟩ := Tree.Attributes.stands_expression stands'
      have follows := behind others'
      rw [extends_] at acts
      have none := unedited (by simp [extends_])
      have same := Code.compiled_of_edits_nil inner none
      simp only [same] at value' follows ⊢
      have elements := Code.rewritten_joined edits inner none value value'
      refine ⟨.extend extends_ (.expression rfl rfl rfl ?_) follows.attributes,
        List.rel_append elements follows.elements⟩
      rw [Attribute.valueText, Attribute.valueText, value.slice rfl, value'.slice rfl]
      exact Tree.print_joined valid.1.1.2 acts className
  | .spread gap inner rest =>
    simp only [Attributes.source, Tree.Attributes.isValid, Bool.and_eq_true] at valid
    obtain ⟨own, value, others⟩ := Tree.Attributes.stands_spread stands
    obtain ⟨front, back⟩ := List.append_subset.mp recorded
    obtain ⟨own', value', others'⟩ := Tree.Attributes.stands_spread stands'
    have follows := Attributes.rewritten rest valid.2 spread clear.2 back others others'
    have elements := Code.rewritten inner valid.1.1.2 clear.1 front value value'
    refine ⟨.keep spread ⟨rfl, rfl, fun outside => ?_⟩ ?_, List.rel_append elements follows.elements⟩
    · have none := Code.edits_eq_nil inner valid.1.1.2 clear.1 front value outside (by dsimp only; omega)
        (by dsimp only; omega)
      have same := Code.compiled_of_edits_nil inner none
      rw [same] at own'
      exact Attribute.texts_of_stands own own' (by simp [Text.ofString]; omega) (by dsimp only; omega)
        (by dsimp only; rw [same]; omega)
    · rw [Change.past_keep spread]
      exact follows.attributes

theorem Children.rewritten (children : Children) {inValue : Bool} {offset offset' : Nat}
    (valid : children.source.isValid inValue = true) (clear : children.IsClear naming source offset)
    (recorded : children.edits naming source offset ⊆ edits) (stands : source.StandsAt offset children.source.print)
    (stands' : code.StandsAt offset' (children.compiled naming).print) :
    List.Forall₂ (Element.Rewritten naming source code edits) (children.source.openings offset)
      ((children.compiled naming).openings offset') := by
  match children with
  | .text text => exact .nil
  | .node text inner rest =>
    simp only [Children.source, Tree.Children.isValid, Bool.and_eq_true] at valid
    obtain ⟨inside, behind⟩ := Tree.Children.stands_node stands
    obtain ⟨inside', behind'⟩ := Tree.Children.stands_node stands'
    obtain ⟨front, back⟩ := List.append_subset.mp recorded
    exact List.rel_append (Node.rewritten inner valid.1.2 clear.1 front inside inside')
      (Children.rewritten rest valid.2 clear.2 back behind behind')
  | .code text inner rest =>
    simp only [Children.source, Tree.Children.isValid, Bool.and_eq_true] at valid
    obtain ⟨inside, behind⟩ := Tree.Children.stands_code stands
    obtain ⟨inside', behind'⟩ := Tree.Children.stands_code stands'
    obtain ⟨front, back⟩ := List.append_subset.mp recorded
    exact List.rel_append (Code.rewritten inner valid.1.1.2 clear.1 front inside inside')
      (Children.rewritten rest valid.2 clear.2 back behind behind')

end

end Draft

end StaticStyle
