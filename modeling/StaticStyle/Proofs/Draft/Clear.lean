import StaticStyle.Proofs.Draft.Editing
import StaticStyle.Proofs.Draft.Turning

/-!
When the declarations of a draft keep to themselves: no two edits overlap, no element begins inside a style, the braces
around class expressions close without the blanks at their ends, and no `<` stands directly behind a marked call.
-/

namespace StaticStyle

open Markup

/-- Texts such that code with one of them has no elements. -/
def AreBarren (texts : Text → Prop) : Prop :=
  ∀ (code : Tree.Code) (before : CodePoint), code.isValid true before (some (.char '\x7d')) = true →
    code.unclosed [] = some [] → texts code.print → ∀ offset, code.openings offset = []

/-- If an element declares a style, the braces around its class expression still close when the blanks at the ends of
that are taken away. -/
def Markup.Element.ClosesClass (source : Text) (element : Element) : Prop :=
  (element.style? source).isSome = true → ∀ attr ∈ element.attribute? "className", attr.kind = .expression →
    (Bracket.curly.contentLength? ((attr.valueText source).strip ++ "\x7d")).isSome = true

instance {source : Text} : DecidablePred (Markup.Element.ClosesClass source) := fun element =>
  inferInstanceAs (Decidable ((element.style? source).isSome = true → ∀ attr ∈ element.attribute? "className",
    attr.kind = .expression → (Bracket.curly.contentLength? ((attr.valueText source).strip ++ "\x7d")).isSome = true))

/-- The style of an element is one of some texts, and its class expression closes. -/
structure Markup.Element.IsOrderly (styles : Text → Prop) (source : Text) (element : Element) : Prop where
  style : ∀ text, element.style? source = some text → styles text
  closes : element.ClosesClass source

/-- What an action asks of the attribute that it happens to. -/
def Action.Allows (styles : Text → Prop) (source : Text) (attr : Attribute) : Action → Prop
  | .keep => True
  | .erase | .write _ => attr.kind = .expression → styles (attr.valueText source)
  | .extend _ => attr.kind = .expression →
    (Bracket.curly.contentLength? ((attr.valueText source).strip ++ "\x7d")).isSome = true

/-- What a change asks of attributes. -/
def Change.Allows (styles : Text → Prop) (source : Text) (attributes : List Attribute) (change : Change) : Prop :=
  ∀ name attr, attributes.find? (·.name == name) = some attr → (change name).Allows styles source attr

section Allows

variable {styles : Text → Prop} {source : Text} {attr : Attribute} {attributes : List Attribute} {change : Change}

theorem Change.Allows.head (allows : change.Allows styles source (attr :: attributes)) :
    (change attr.name).Allows styles source attr :=
  allows attr.name attr (by simp)

theorem Change.Allows.tail (allows : change.Allows styles source (attr :: attributes)) :
    (change.past attr.name).Allows styles source attributes := by
  intro name other found
  unfold Change.past
  split
  · trivial
  · rename_i distinct
    exact allows name other (by simpa [Ne.symm distinct] using found)

theorem Markup.Element.IsOrderly.allows {element : Element} (orderly : element.IsOrderly styles source)
    (naming : Naming) : (element.change naming source).Allows styles source element.attributes := by
  intro name attr found
  unfold Element.change Change.ofStyle
  cases styled : element.style? source with
  | none => trivial
  | some text =>
    dsimp only
    split
    · rename_i same
      subst same
      have isStyle (kind : attr.kind = .expression) : styles (attr.valueText source) :=
        orderly.style _ (by simp [Element.style?, Element.attribute?, found, kind])
      split <;> exact isStyle
    · split
      · rename_i same
        obtain ⟨rfl, -⟩ := same
        exact orderly.closes (by simp [styled]) attr found
      · trivial

end Allows

/-- An edit overlaps what is edited inside its extent. -/
theorem Edit.overlaps_inside {outer inner : Edit} {first last : Nat} (start : outer.start ≤ first)
    (stop : last ≤ outer.stop) (inside : first ≤ inner.start ∧ inner.start ≤ inner.stop ∧ inner.start < last ∧
      inner.stop ≤ last) (front : inner.start = inner.stop → first < inner.start) :
    outer.overlaps inner = true := by
  rw [overlaps_iff_lt]
  by_cases inserts : inner.start = inner.stop
  · have strict := front inserts
    omega
  · omega

/-- What happens to an attribute with an expression edits all of its value. -/
theorem Action.exists_edit (source : Text) (attr : Attribute) {action : Action} (acts : action ≠ .keep)
    (kind : attr.kind = .expression) (start : attr.start ≤ attr.valueStart) (stop : attr.valueStop ≤ attr.stop) :
    ∃ edit ∈ action.edits source attr, edit.start ≤ attr.valueStart ∧ attr.valueStop ≤ edit.stop := by
  cases action with
  | keep => exact absurd rfl acts
  | erase | write _ => exact ⟨_, List.mem_singleton_self _, start, stop⟩
  | extend name =>
    rw [edits, kind]
    exact ⟨_, List.mem_singleton_self _, Nat.le_refl _, Nat.le_refl _⟩

namespace Draft

variable {naming : Naming} {styles : Text → Prop} {source : Text}

/-- No edit overlaps one behind it. -/
def Apart (edits : List Edit) : Prop := edits.Pairwise fun a b => a.overlaps b = false

theorem Apart.append {edits edits' : List Edit} (apart : Apart (edits ++ edits')) :
    Apart edits ∧ Apart edits' ∧ ∀ a ∈ edits, ∀ b ∈ edits', a.overlaps b = false :=
  List.pairwise_append.mp apart

mutual

/-- Declarations keep to themselves if edits do not overlap, the elements are orderly and the calls are free. -/
theorem Code.isClear (barren : AreBarren styles) (draft : Code) {inValue : Bool} {before : CodePoint}
    {next : Option CodePoint} {offset : Nat} (valid : draft.source.isValid inValue before next = true)
    (stands : source.StandsAt offset draft.source.print) (apart : Apart (draft.edits naming source offset))
    (free : ∀ call ∈ draft.calls offset, source[call.stop]? ≠ some (.char '<'))
    (orderly : ∀ element ∈ draft.source.openings offset, element.IsOrderly styles source) :
    draft.IsClear naming source offset := by
  match draft with
  | .nil => trivial
  | .piece flat rest =>
    rw [Code.source, Tree.Code.isValid_append, Bool.and_eq_true] at valid
    rw [Code.source, Tree.Code.print_append] at stands
    rw [Code.source, Tree.Code.openings_append] at orderly
    exact Code.isClear barren rest valid.2 (stands.right rfl) apart free (List.forall_mem_append.mp orderly).2
  | .call gap argument rest =>
    rw [Code.source, Tree.call_eq_append, Tree.Code.isValid_append, Bool.and_eq_true] at valid
    rw [Code.source, Tree.call_eq_append, Tree.Code.print_append] at stands
    rw [Code.source, Tree.call_eq_append, Tree.Code.openings_append] at orderly
    obtain ⟨own, others⟩ := List.forall_mem_cons.mp free
    have behind := stands.right rfl
    refine ⟨fun tag => own ?_, Code.isClear barren rest valid.2 behind (List.Pairwise.of_cons apart) others
      (List.forall_mem_append.mp orderly).2⟩
    obtain ⟨text, begins⟩ := List.head?_eq_some_iff.mp tag
    exact Text.StandsAt.getElem? (begins ▸ behind)
  | .template content rest =>
    simp only [Code.source, Tree.Code.isValid, Bool.and_eq_true] at valid
    obtain ⟨inside, behind⟩ := Tree.Code.stands_template stands
    obtain ⟨front, back, -⟩ := apart.append
    obtain ⟨first, others⟩ := List.forall_mem_append.mp free
    exact ⟨Template.isClear barren content valid.1 inside front first (List.forall_mem_append.mp orderly).1,
      Code.isClear barren rest valid.2 behind back others (List.forall_mem_append.mp orderly).2⟩
  | .node inner rest =>
    rw [Code.source, Tree.Code.print] at stands
    simp only [Code.source, Tree.Code.isValid, Bool.and_eq_true] at valid
    obtain ⟨front, back, -⟩ := apart.append
    obtain ⟨first, others⟩ := List.forall_mem_append.mp free
    exact ⟨Node.isClear barren inner valid.1.2 stands.left front first (List.forall_mem_append.mp orderly).1,
      Code.isClear barren rest valid.2 (stands.right rfl) back others (List.forall_mem_append.mp orderly).2⟩

theorem Template.isClear (barren : AreBarren styles) (template : Template) {inValue : Bool} {offset : Nat}
    (valid : template.source.isValid inValue = true) (stands : source.StandsAt offset template.source.print)
    (apart : Apart (template.edits naming source offset))
    (free : ∀ call ∈ template.calls offset, source[call.stop]? ≠ some (.char '<'))
    (orderly : ∀ element ∈ template.source.openings offset, element.IsOrderly styles source) :
    template.IsClear naming source offset := by
  match template with
  | .text body => trivial
  | .code body inner rest =>
    simp only [Template.source, Tree.Template.isValid, Bool.and_eq_true] at valid
    obtain ⟨⟨⟨-, codeValid⟩, -⟩, valid⟩ := valid
    obtain ⟨inside, behind⟩ := Tree.Template.stands_code stands
    obtain ⟨front, back, -⟩ := apart.append
    obtain ⟨first, others⟩ := List.forall_mem_append.mp free
    exact ⟨Code.isClear barren inner codeValid inside front first (List.forall_mem_append.mp orderly).1,
      Template.isClear barren rest valid behind back others (List.forall_mem_append.mp orderly).2⟩

theorem Node.isClear (barren : AreBarren styles) (node : Node) {inValue : Bool} {offset : Nat}
    (valid : node.source.isValid inValue = true)
    (stands : source.StandsAt offset node.source.print) (apart : Apart (node.edits naming source offset))
    (free : ∀ call ∈ node.calls offset, source[call.stop]? ≠ some (.char '<'))
    (orderly : ∀ element ∈ node.source.openings offset, element.IsOrderly styles source) :
    node.IsClear naming source offset := by
  match node with
  | .selfClosing tag attributes space =>
    simp only [Node.source, Tree.Node.isValid, Bool.and_eq_true] at valid
    have inside := Tree.Node.stands_selfClosing stands
    obtain ⟨own, others⟩ := List.forall_mem_cons.mp orderly
    have allows := own.allows naming
    rw [Tree.Attributes.change_read _ inside] at allows
    have spread := Tree.Attributes.change_spread naming attributes.source
    exact Attributes.isClear barren attributes valid.1.2 inside spread apart allows free others
  | .paired tag attributes space children =>
    simp only [Node.source, Tree.Node.isValid, Bool.and_eq_true] at valid
    obtain ⟨inside, behind⟩ := Tree.Node.stands_paired stands
    obtain ⟨own, others⟩ := List.forall_mem_cons.mp orderly
    obtain ⟨front, back, -⟩ := apart.append
    have allows := own.allows naming
    rw [Tree.Attributes.change_read _ inside] at allows
    have spread := Tree.Attributes.change_spread naming attributes.source
    obtain ⟨first, others⟩ := List.forall_mem_append.mp others
    obtain ⟨free, free'⟩ := List.forall_mem_append.mp free
    exact ⟨Attributes.isClear barren attributes valid.1.1.2 inside spread front allows free first,
      Children.isClear barren children valid.2 behind back free' others⟩
  | .fragment children =>
    exact Children.isClear barren children valid (Tree.Node.stands_fragment stands) apart free orderly

theorem Attributes.isClear (barren : AreBarren styles) (attributes : Attributes) {inValue : Bool} {change : Change}
    {space : Text} {offset : Nat} (valid : attributes.source.isValid inValue = true)
    (stands : source.StandsAt offset (attributes.source.print ++ space)) (spread : change "..." = .keep)
    (apart : Apart (attributes.edits naming source change offset))
    (allows : change.Allows styles source (attributes.source.read offset))
    (free : ∀ call ∈ attributes.calls offset, source[call.stop]? ≠ some (.char '<'))
    (orderly : ∀ element ∈ attributes.source.openings offset, element.IsOrderly styles source) :
    attributes.IsClear naming source change offset := by
  match attributes with
  | .nil => trivial
  | .boolean gap name rest =>
    simp only [Attributes.source, Tree.Attributes.isValid, Bool.and_eq_true] at valid
    exact Attributes.isClear barren rest valid.2 (Tree.Attributes.stands_boolean stands).2
      (change.past_spread spread name) apart.append.2.1 allows.tail free orderly
  | .quoted gap name before after mark value rest =>
    simp only [Attributes.source, Tree.Attributes.isValid, Bool.and_eq_true] at valid
    exact Attributes.isClear barren rest valid.2 (Tree.Attributes.stands_quoted stands).2
      (change.past_spread spread name) apart.append.2.1 allows.tail free orderly
  | .expression gap name before after inner rest =>
    simp only [Attributes.source, Tree.Attributes.isValid, Bool.and_eq_true] at valid
    obtain ⟨-, value, others⟩ := Tree.Attributes.stands_expression stands
    obtain ⟨-, behind, across⟩ := apart.append
    obtain ⟨front, back, -⟩ := behind.append
    obtain ⟨free, free'⟩ := List.forall_mem_append.mp free
    have clear := Code.isClear barren inner valid.1.1.2 value front free (List.forall_mem_append.mp orderly).1
    refine ⟨clear, fun acts => ?_, ?_, Attributes.isClear barren rest valid.2 others
      (change.past_spread spread name) back allows.tail free' (List.forall_mem_append.mp orderly).2⟩
    · refine List.eq_nil_iff_forall_not_mem.mpr fun edit member => ?_
      have turns := Code.turns inner valid.1.1.2 clear value
      let start := offset + gap.length
      let valueStart := start + name.length + before.length + 1 + after.length + 1
      let valueStop := valueStart + inner.source.print.length
      obtain ⟨own, ownMember, starts, stops⟩ := Action.exists_edit source
        ⟨name, .expression, start, valueStop + 1, valueStart, valueStop⟩ acts rfl (by dsimp only; omega)
        (by dsimp only; omega)
      have overlaps := Edit.overlaps_inside starts stops (turns.inside edit member) (turns.front edit member)
      rw [across own ownMember edit (List.mem_append_left _ member)] at overlaps
      cases overlaps
    · have own := allows.head
      have balanced : inner.source.unclosed [] = some [] := beq_iff_eq.mp valid.1.2
      dsimp only at own
      cases action : change name with
      | keep => trivial
      | erase | write _ =>
        rw [action] at own
        have text := own rfl
        rw [Attribute.valueText, value.slice rfl] at text
        exact barren inner.source _ valid.1.1.2 balanced text _
      | extend className =>
        rw [action] at own
        have closes := own rfl
        rw [Attribute.valueText, value.slice rfl] at closes
        refine Bool.eq_false_iff.mpr fun commented => ?_
        rw [Tree.Code.contentLength?_strip inner.source valid.1.1.2 balanced commented] at closes
        cases closes
  | .spread gap inner rest =>
    simp only [Attributes.source, Tree.Attributes.isValid, Bool.and_eq_true] at valid
    obtain ⟨-, value, others⟩ := Tree.Attributes.stands_spread stands
    obtain ⟨front, back, -⟩ := apart.append
    have behind := allows.tail
    rw [Change.past_keep spread] at behind
    obtain ⟨free, free'⟩ := List.forall_mem_append.mp free
    exact ⟨Code.isClear barren inner valid.1.1.2 value front free (List.forall_mem_append.mp orderly).1,
      Attributes.isClear barren rest valid.2 others spread back behind free' (List.forall_mem_append.mp orderly).2⟩

theorem Children.isClear (barren : AreBarren styles) (children : Children) {inValue : Bool} {offset : Nat}
    (valid : children.source.isValid inValue = true) (stands : source.StandsAt offset children.source.print)
    (apart : Apart (children.edits naming source offset))
    (free : ∀ call ∈ children.calls offset, source[call.stop]? ≠ some (.char '<'))
    (orderly : ∀ element ∈ children.source.openings offset, element.IsOrderly styles source) :
    children.IsClear naming source offset := by
  match children with
  | .text text => trivial
  | .node text inner rest =>
    simp only [Children.source, Tree.Children.isValid, Bool.and_eq_true] at valid
    obtain ⟨inside, behind⟩ := Tree.Children.stands_node stands
    obtain ⟨front, back, -⟩ := apart.append
    obtain ⟨first, others⟩ := List.forall_mem_append.mp free
    exact ⟨Node.isClear barren inner valid.1.2 inside front first (List.forall_mem_append.mp orderly).1,
      Children.isClear barren rest valid.2 behind back others (List.forall_mem_append.mp orderly).2⟩
  | .code text inner rest =>
    simp only [Children.source, Tree.Children.isValid, Bool.and_eq_true] at valid
    obtain ⟨inside, behind⟩ := Tree.Children.stands_code stands
    obtain ⟨front, back, -⟩ := apart.append
    obtain ⟨first, others⟩ := List.forall_mem_append.mp free
    exact ⟨Code.isClear barren inner valid.1.1.2 inside front first (List.forall_mem_append.mp orderly).1,
      Children.isClear barren rest valid.2 behind back others (List.forall_mem_append.mp orderly).2⟩

end

end Draft

end StaticStyle
