import StaticStyle.Proofs.Draft.Basic
import StaticStyle.Proofs.Markup.Standing

namespace StaticStyle

open Markup

namespace Markup.Tree

def Tail.print (tail : Tail) : Text := tail.1.print ++ tail.2

theorem Tail.print_widen (gap : Text) (tail : Tail) : (tail.widen gap).print = gap ++ tail.print := by
  obtain ⟨attributes, space⟩ := tail
  cases attributes <;> simp [widen, print, Attributes.print]

theorem Tail.print_classed (gap name : Text) (tail : Tail) :
    (tail.classed gap name).print = gap ++ classText name ++ tail.print := by
  simp [classed, print, Attributes.print, classText, Text.ofString]

/-- The attribute in front is turned, whatever happens to it. -/
theorem Tail.turns_act {source gap label old : Text} {edits : List Edit} {offset : Nat} {attr : Attribute}
    {tail kept : Tail} {extended : Text → Tail} {action : Action} (start : attr.start = offset + gap.length)
    (stop : attr.stop = attr.start + label.length) (nonempty : label ≠ [])
    (turns : Turns attr.stop old edits tail.print)
    (keeps : action = .keep → Turns offset (gap ++ label ++ old) edits kept.print)
    (extends_ : ∀ name, action = .extend name → Turns offset (gap ++ label ++ old)
      ((Action.extend name).edits source attr ++ edits) (extended name).print) :
    Turns offset (gap ++ label ++ old) (action.edits source attr ++ edits)
      (tail.act gap kept extended action).print := by
  have overwritten (text : Text) := Turns.replace gap nonempty text start stop turns
  cases action with
  | keep => exact keeps rfl
  | erase =>
    have erased := overwritten []
    rw [List.append_nil] at erased
    rwa [act, print_widen]
  | write name =>
    rw [act, print_classed]
    exact overwritten (classText name)
  | extend name => exact extends_ name rfl

theorem ne_nil_of_isName {isPart : CodePoint → Bool} {name : Text} (named : isName isPart name = true) :
    name ≠ [] := by
  rintro rfl
  simp [isName] at named

theorem print_joined {code : Code} {inValue : Bool} {before : CodePoint} {next : Option CodePoint}
    (valid : code.isValid inValue before next = true) (uncommented : code.endsInComment = false) (name : Text) :
    (joined code name).print =
      "[" ++ code.print.strip ++ ", \"" ++ name ++ "\"].filter(Boolean).join(\" \")" := by
  have strokes : (name.map Stroke.plain).flatMap Stroke.print = name := by
    induction name with
    | nil => rfl
    | cons c name ih => simpa [Stroke.print] using ih
  simp [joined, joinEnd, joinCall, Code.print, Code.print_strip code valid uncommented, quotation, strokes,
    Stroke.print,
    Bracket.opening, Bracket.closing, Text.ofString]

/-- The value of a quoted class attribute with one more class. -/
theorem appendClass_eq {source value : Text} {attr : Attribute} {mark : CodePoint}
    (stands : source.StandsAt attr.valueStart (mark :: value ++ [mark]))
    (ends : attr.valueStop = attr.valueStart + value.length + 2) (name : Text) :
    Session.Plan.appendClass source attr name = mark :: appended value name ++ [mark] := by
  have literal : attr.valueText source = mark :: value ++ [mark] :=
    stands.slice (by simp [ends, Nat.add_assoc])
  have existing : source.slice (attr.valueStart + 1) (attr.valueStop - 1) = value :=
    stands.left.tail.slice (by simp [ends]; omega)
  simp [Session.Plan.appendClass, literal, existing, appended]

theorem joinClass_eq {source : Text} {attr : Attribute} {code : Code} {inValue : Bool} {before : CodePoint}
    {next : Option CodePoint} (valid : code.isValid inValue before next = true) (uncommented : code.endsInComment = false)
    (stands : source.StandsAt attr.valueStart code.print)
    (ends : attr.valueStop = attr.valueStart + code.print.length) (name : Text) :
    Session.Plan.joinClass source attr name = (joined code name).print := by
  rw [print_joined valid uncommented, Session.Plan.joinClass, Attribute.valueText, stands.slice ends]

end Markup.Tree

namespace Draft

variable {naming : Naming} {source : Text}

mutual

theorem Code.compiled_of_edits_nil (draft : Code) {offset : Nat}
    (none : draft.edits naming source offset = []) : draft.compiled naming = draft.source := by
  match draft with
  | .nil => rfl
  | .piece piece rest => rw [Code.compiled, Code.source, Code.compiled_of_edits_nil rest none]
  | .call .. => simp [Code.edits] at none
  | .template content rest =>
    obtain ⟨inside, behind⟩ := List.append_eq_nil_iff.mp none
    rw [Code.compiled, Code.source, Template.compiled_of_edits_nil content inside,
      Code.compiled_of_edits_nil rest behind]
  | .node node rest =>
    obtain ⟨inside, behind⟩ := List.append_eq_nil_iff.mp none
    rw [Code.compiled, Code.source, Node.compiled_of_edits_nil node inside,
      Code.compiled_of_edits_nil rest behind]

theorem Template.compiled_of_edits_nil (template : Template) {offset : Nat}
    (none : template.edits naming source offset = []) : template.compiled naming = template.source := by
  match template with
  | .text body => rfl
  | .code body code rest =>
    obtain ⟨inside, behind⟩ := List.append_eq_nil_iff.mp none
    rw [Template.compiled, Template.source, Code.compiled_of_edits_nil code inside,
      Template.compiled_of_edits_nil rest behind]

theorem Node.compiled_of_edits_nil (node : Node) {offset : Nat}
    (none : node.edits naming source offset = []) : node.compiled naming = node.source := by
  match node with
  | .selfClosing tag attributes space =>
    rw [Node.compiled, Node.source, Attributes.compiled_of_edits_nil attributes none]
  | .paired tag attributes space children =>
    obtain ⟨inside, behind⟩ := List.append_eq_nil_iff.mp none
    rw [Node.compiled, Node.source, Attributes.compiled_of_edits_nil attributes inside,
      Children.compiled_of_edits_nil children behind]
  | .fragment children => rw [Node.compiled, Node.source, Children.compiled_of_edits_nil children none]

theorem Attributes.compiled_of_edits_nil (attributes : Attributes) {change : Change} {offset : Nat}
    (none : attributes.edits naming source change offset = []) (space : Text) :
    attributes.compiled naming change space = (attributes.source, space) := by
  match attributes with
  | .nil => rfl
  | .boolean gap name rest | .quoted gap name before behind mark value rest =>
    obtain ⟨own, behind⟩ := List.append_eq_nil_iff.mp none
    rw [Attributes.compiled, Action.edits_eq_nil own, Attributes.compiled_of_edits_nil rest behind]
    rfl
  | .expression gap name before behind code rest =>
    obtain ⟨own, others⟩ := List.append_eq_nil_iff.mp none
    obtain ⟨inside, behind⟩ := List.append_eq_nil_iff.mp others
    rw [Attributes.compiled, Action.edits_eq_nil own, Code.compiled_of_edits_nil code inside,
      Attributes.compiled_of_edits_nil rest behind]
    rfl
  | .spread gap code rest =>
    obtain ⟨own, behind⟩ := List.append_eq_nil_iff.mp none
    rw [Attributes.compiled, Code.compiled_of_edits_nil code own,
      Attributes.compiled_of_edits_nil rest behind]
    rfl

theorem Children.compiled_of_edits_nil (children : Children) {offset : Nat}
    (none : children.edits naming source offset = []) : children.compiled naming = children.source := by
  match children with
  | .text text => rfl
  | .node text node rest =>
    obtain ⟨inside, behind⟩ := List.append_eq_nil_iff.mp none
    rw [Children.compiled, Children.source, Node.compiled_of_edits_nil node inside,
      Children.compiled_of_edits_nil rest behind]
  | .code text code rest =>
    obtain ⟨inside, behind⟩ := List.append_eq_nil_iff.mp none
    rw [Children.compiled, Children.source, Code.compiled_of_edits_nil code inside,
      Children.compiled_of_edits_nil rest behind]

end

mutual

theorem Code.turns (draft : Code) {inValue : Bool} {before : CodePoint} {next : Option CodePoint} {offset : Nat}
    (valid : draft.source.isValid inValue before next = true) (clear : draft.IsClear naming source offset)
    (stands : source.StandsAt offset draft.source.print) :
    Turns offset draft.source.print (draft.edits naming source offset) (draft.compiled naming).print := by
  match draft with
  | .nil => exact Turns.keep offset []
  | .piece piece rest =>
    simp only [Code.source, Tree.Code.isValid_append, Bool.and_eq_true, Tree.Code.print_append] at valid stands
    have behind := Code.turns rest valid.2 clear (stands.right rfl)
    simp only [Code.source, Code.compiled, Tree.Code.print_append]
    exact behind.behind piece.code.print rfl
  | .call gap argument rest =>
    rw [Code.source, Tree.call_eq_append, Tree.Code.isValid_append, Bool.and_eq_true] at valid
    rw [Code.source, Tree.call_eq_append, Tree.Code.print_append] at stands ⊢
    have nonempty : (Tree.call gap argument.code .nil).print ≠ [] := by simp [Tree.call, Text.ofString]
    have behind := Code.turns rest valid.2 clear.2 (stands.right rfl)
    simp only [Code.compiled, Tree.Code.print_append]
    exact (Turns.overwrite offset nonempty _).append behind rfl
  | .template content rest =>
    simp only [Code.source, Tree.Code.isValid, Bool.and_eq_true] at valid
    have shape (content : Tree.Template) (rest : Tree.Code) : (Tree.Code.template content rest).print =
        "\x60" ++ (content.print ++ ("\x60" ++ rest.print)) := by
      simp [Tree.Code.print]
    obtain ⟨inside, others⟩ := Tree.Code.stands_template stands
    have turned := Template.turns content valid.1 clear.1 inside
    have further : offset + content.source.print.length + 2 = offset + 1 + content.source.print.length + 1 := by omega
    have behind := (Code.turns rest valid.2 clear.2 others).behind "\x60" further
    rw [Code.source, Code.compiled, shape, shape]
    exact (turned.append behind rfl).behind "\x60" rfl
  | .node node rest =>
    simp only [Code.source, Tree.Code.isValid, Bool.and_eq_true, Tree.Code.print] at valid stands
    exact (Node.turns node valid.1.2 clear.1 stands.left).append
      (Code.turns rest valid.2 clear.2 (stands.right rfl)) rfl

theorem Template.turns (template : Template) {inValue : Bool} {offset : Nat}
    (valid : template.source.isValid inValue = true) (clear : template.IsClear naming source offset)
    (stands : source.StandsAt offset template.source.print) :
    Turns offset template.source.print (template.edits naming source offset) (template.compiled naming).print := by
  match template with
  | .text body => exact Turns.keep offset _
  | .code body code rest =>
    simp only [Template.source, Tree.Template.isValid, Bool.and_eq_true] at valid
    obtain ⟨⟨⟨-, codeValid⟩, -⟩, others⟩ := valid
    have shape (code : Tree.Code) (rest : Tree.Template) : (Tree.Template.code body code rest).print =
        body.flatMap Tree.Stroke.print ++ "$\x7b" ++ (code.print ++ ("\x7d" ++ rest.print)) := by
      simp [Tree.Template.print]
    obtain ⟨inside, behind⟩ := Tree.Template.stands_code stands
    have turned := Code.turns code codeValid clear.1 inside
    have others := (Template.turns rest others clear.2 behind).behind "\x7d" rfl
    rw [Template.source, Template.compiled, shape, shape]
    exact (turned.append others rfl).behind _ (by rw [List.length_append]; rfl)

theorem Node.turns (node : Node) {inValue : Bool} {offset : Nat} (valid : node.source.isValid inValue = true)
    (clear : node.IsClear naming source offset) (stands : source.StandsAt offset node.source.print) :
    Turns offset node.source.print (node.edits naming source offset) (node.compiled naming).print := by
  match node with
  | .selfClosing tag attributes space =>
    simp only [Node.source, Tree.Node.isValid, Bool.and_eq_true] at valid
    have shape : (Node.selfClosing tag attributes space).source.print =
        "<" ++ tag ++ (attributes.source.print ++ space ++ "/>") := by
      simp [Node.source, Tree.Node.print]
    have further : offset + 1 + tag.length = offset + ("<" ++ tag : Text).length := by
      simp [Text.ofString]
      omega
    rw [shape] at stands ⊢
    have turned := Attributes.turns attributes valid.1.2 clear space (stands.right further).left
    have whole := (turned.before "/>").behind ("<" ++ tag) further
    simpa [Node.compiled, Node.edits, Tree.Node.print, Tree.Tail.print] using whole
  | .paired tag attributes space children =>
    simp only [Node.source, Tree.Node.isValid, Bool.and_eq_true] at valid
    have shape : (Node.paired tag attributes space children).source.print =
        "<" ++ tag ++ (attributes.source.print ++ space ++
          (">" ++ (children.source.print ++ ("</" ++ tag ++ ">")))) := by
      simp [Node.source, Tree.Node.print]
    have further : offset + 1 + tag.length = offset + ("<" ++ tag : Text).length := by
      simp [Text.ofString]
      omega
    rw [shape] at stands ⊢
    have turned := Attributes.turns attributes valid.1.1.2 clear.1 space (stands.right further).left
    have inside := Children.turns children valid.2 clear.2
      (((stands.right further).right rfl).right (by simp [Text.ofString, Nat.add_assoc])).left
    have behind := (inside.before ("</" ++ tag ++ ">")).behind ">" rfl
    have whole := (turned.append behind (by simp [Nat.add_assoc])).behind ("<" ++ tag) further
    simpa [Node.compiled, Node.edits, Tree.Node.print, Tree.Tail.print] using whole
  | .fragment children =>
    have shape : (Node.fragment children).source.print = "<>" ++ (children.source.print ++ "</>") := by
      simp [Node.source, Tree.Node.print]
    rw [shape] at stands ⊢
    have inside := Children.turns children valid clear (stands.right rfl).left
    simpa [Node.compiled, Node.edits, Tree.Node.print] using (inside.before "</>").behind "<>" rfl

theorem Attributes.turns (attributes : Attributes) {inValue : Bool} {change : Change} {offset : Nat}
    (valid : attributes.source.isValid inValue = true) (clear : attributes.IsClear naming source change offset)
    (space : Text) (stands : source.StandsAt offset (attributes.source.print ++ space)) :
    Turns offset (attributes.source.print ++ space) (attributes.edits naming source change offset)
      (attributes.compiled naming change space).print := by
  match attributes with
  | .nil => exact Turns.keep offset space
  | .boolean gap name rest =>
    simp only [Attributes.source, Tree.Attributes.isValid, Bool.and_eq_true] at valid
    have shape : (Attributes.boolean gap name rest).source.print ++ space =
        gap ++ name ++ (rest.source.print ++ space) := by
      simp [Attributes.source, Tree.Attributes.print]
    rw [shape] at stands ⊢
    have turned := Attributes.turns rest valid.2 clear space (stands.right (by simp [Nat.add_assoc]))
    refine Tree.Tail.turns_act rfl rfl (Tree.ne_nil_of_isName valid.1.2) turned (fun _ => ?_) fun className _ => ?_
    · simpa [Tree.Tail.print, Tree.Attributes.print] using turned.behind (gap ++ name) (by simp [Nat.add_assoc])
    · rw [Tree.Tail.print_classed]
      exact Turns.replace gap (Tree.ne_nil_of_isName valid.1.2) _ rfl rfl turned
  | .quoted gap name before behind mark value rest =>
    simp only [Attributes.source, Tree.Attributes.isValid, Bool.and_eq_true] at valid
    let front := Tree.label name before behind
    have shape (value : Text) (rest : Tree.Attributes) (space : Text) :
        (Tree.Attributes.quoted gap name before behind mark value rest).print ++ space =
          gap ++ (front ++ (mark :: value ++ [mark])) ++ (rest.print ++ space) := by
      simp [Tree.Attributes.print, front, Tree.label]
    have size : (front ++ (mark :: value ++ [mark])).length =
        name.length + before.length + 1 + behind.length + value.length + 2 := by
      simp [front, Nat.add_assoc]
    rw [Attributes.source, shape] at stands ⊢
    have turned := Attributes.turns rest valid.2 clear space (stands.right (by rw [List.length_append, size]; omega))
    refine Tree.Tail.turns_act rfl (by rw [size]; dsimp only; omega) (by simp) turned (fun _ => ?_)
      fun className _ => ?_
    · rw [Tree.Tail.print, shape]
      exact turned.behind (gap ++ _) (by rw [List.length_append, size]; omega)
    · have literal : source.StandsAt (offset + gap.length + name.length + before.length + 1 + behind.length)
          (mark :: value ++ [mark]) :=
        (stands.left.right rfl).right (by simp only [front, Tree.length_label]; omega)
      simp only [Action.edits]
      rw [Tree.Tail.print, shape, Tree.appendClass_eq literal rfl, ← List.append_assoc gap, ← List.append_assoc gap]
      exact Turns.replace (gap ++ front) (by simp) _ (by simp [front]; omega) (by simp; omega) turned
  | .expression gap name before behind code rest =>
    simp only [Attributes.source, Tree.Attributes.isValid, Bool.and_eq_true] at valid
    obtain ⟨codeClear, unedited, acts, restClear⟩ := clear
    let front := Tree.label name before behind
    have shape (code : Tree.Code) (rest : Tree.Attributes) (space : Text) :
        (Tree.Attributes.expression gap name before behind code rest).print ++ space =
          gap ++ (front ++ ("\x7b" ++ code.print ++ "\x7d")) ++ (rest.print ++ space) := by
      simp [Tree.Attributes.print, front, Tree.label]
    have size : (front ++ ("\x7b" ++ code.source.print ++ "\x7d" : Text)).length =
        name.length + before.length + 1 + behind.length + 1 + code.source.print.length + 1 := by
      simp [front, Text.ofString]
      omega
    rw [Attributes.source, shape] at stands ⊢
    have turned := Attributes.turns rest valid.2 restClear space
      (stands.right (by rw [List.length_append, size]; omega))
    have value : source.StandsAt
        (offset + gap.length + name.length + before.length + 1 + behind.length + 1) code.source.print :=
      ((stands.left.right rfl).right rfl).left.right (by simp [front, Text.ofString]; omega)
    by_cases keeps : change name = .keep
    · have inside := Code.turns code valid.1.1.2 codeClear value
      have whole : Turns offset _ _ _ :=
        (inside.append (turned.behind "\x7d" rfl) rfl).behind (gap ++ front ++ "\x7b")
          (by simp [front, Text.ofString]; omega)
      simp only [Attributes.edits, Attributes.compiled, keeps, Tree.Tail.act, Action.edits, List.nil_append]
      rw [Tree.Tail.print, shape]
      simpa [Tree.Tail.print] using whole
    · simp only [Attributes.edits, Attributes.compiled, unedited keeps, List.nil_append]
      refine Tree.Tail.turns_act rfl (by rw [size]; dsimp only; omega) (by simp [Text.ofString]) turned
        (fun keep => absurd keep keeps) fun className extends_ => ?_
      simp only [extends_] at acts
      have same := Code.compiled_of_edits_nil code (unedited keeps)
      simp only [Action.edits]
      rw [Tree.Tail.print, shape, same, Tree.joinClass_eq valid.1.1.2 acts value rfl]
      have whole : Turns offset _ _ _ := Turns.replaceValue (gap ++ front) '\x7b' code.source.print
        (Tree.joined code.source className).print '\x7d' (by simp [front]; omega) rfl turned
      simpa [Tree.Tail.print, Text.ofString] using whole
  | .spread gap code rest =>
    simp only [Attributes.source, Tree.Attributes.isValid, Bool.and_eq_true] at valid
    have shape (code : Tree.Code) (rest : Tree.Attributes) (space : Text) :
        (Tree.Attributes.spread gap code rest).print ++ space =
          gap ++ "\x7b..." ++ (code.print ++ ("\x7d" ++ (rest.print ++ space))) := by
      simp [Tree.Attributes.print]
    have further : offset + gap.length + 4 = offset + (gap ++ "\x7b..." : Text).length := by
      simp [Text.ofString, Nat.add_assoc]
    rw [Attributes.source, shape] at stands ⊢
    have value := stands.right further
    have inside := Code.turns code valid.1.1.2 clear.1 value.left
    have turned := Attributes.turns rest valid.2 clear.2 space ((value.right rfl).right rfl)
    have whole := (inside.append (turned.behind "\x7d" rfl) rfl).behind (gap ++ "\x7b...") further
    simp only [Attributes.edits, Attributes.compiled]
    rw [Tree.Tail.print, shape]
    exact whole

theorem Children.turns (children : Children) {inValue : Bool} {offset : Nat}
    (valid : children.source.isValid inValue = true) (clear : children.IsClear naming source offset)
    (stands : source.StandsAt offset children.source.print) :
    Turns offset children.source.print (children.edits naming source offset)
      (children.compiled naming).print := by
  match children with
  | .text text => exact Turns.keep offset text
  | .node text node rest =>
    simp only [Children.source, Tree.Children.isValid, Bool.and_eq_true, Tree.Children.print,
      List.append_assoc] at valid stands
    have turned := Node.turns node valid.1.2 clear.1 (stands.right rfl).left
    have behind := Children.turns rest valid.2 clear.2 ((stands.right rfl).right rfl)
    have whole := (turned.append behind rfl).behind text rfl
    simpa [Children.source, Children.compiled, Children.edits, Tree.Children.print] using whole
  | .code text code rest =>
    simp only [Children.source, Tree.Children.isValid, Bool.and_eq_true] at valid
    have shape : (Children.code text code rest).source.print =
        text ++ "\x7b" ++ (code.source.print ++ ("\x7d" ++ rest.source.print)) := by
      simp [Children.source, Tree.Children.print]
    have further : offset + text.length + 1 = offset + (text ++ "\x7b" : Text).length := by
      simp [Text.ofString, Nat.add_assoc]
    rw [shape] at stands ⊢
    have inside := stands.right further
    have turned := Code.turns code valid.1.1.2 clear.1 inside.left
    have behind := Children.turns rest valid.2 clear.2
      ((inside.right rfl).right (by simp [Text.ofString, Nat.add_assoc]))
    have whole := (turned.append (behind.behind "\x7d" (by simp [Text.ofString, Nat.add_assoc])) rfl).behind
      (text ++ "\x7b") further
    simpa [Children.source, Children.compiled, Children.edits, Tree.Children.print] using whole

end

end Draft

end StaticStyle
