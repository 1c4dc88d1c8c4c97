import StaticStyle.Proofs.Markup.Tree
import StaticStyle.Proofs.Source.Turn

namespace StaticStyle.Markup.Tree

/-- What stands in front of the value of an attribute. -/
def label (name before behind : Text) : Text := name ++ before ++ "=" ++ behind

@[simp] theorem length_label (name before behind : Text) :
    (label name before behind).length = name.length + before.length + 1 + behind.length := by
  simp [label, Text.ofString]
  omega

variable {text gap name before behind space : Text} {offset : Nat}

namespace Attributes

variable {rest : Attributes}

theorem stands_boolean (stands : text.StandsAt offset ((boolean gap name rest).print ++ space)) :
    text.StandsAt (offset + gap.length) name ∧
      text.StandsAt (offset + gap.length + name.length) (rest.print ++ space) := by
  have shape : (boolean gap name rest).print ++ space = gap ++ (name ++ (rest.print ++ space)) := by simp [print]
  rw [shape] at stands
  exact ⟨(stands.right rfl).left, (stands.right rfl).right rfl⟩

theorem stands_quoted {mark : CodePoint} {value : Text}
    (stands : text.StandsAt offset ((quoted gap name before behind mark value rest).print ++ space)) :
    text.StandsAt (offset + gap.length) (label name before behind ++ (mark :: value ++ [mark])) ∧
      text.StandsAt (offset + gap.length + name.length + before.length + 1 + behind.length + value.length + 2)
        (rest.print ++ space) := by
  have shape : (quoted gap name before behind mark value rest).print ++ space =
      gap ++ ((label name before behind ++ (mark :: value ++ [mark])) ++ (rest.print ++ space)) := by
    simp [print, label]
  rw [shape] at stands
  exact ⟨(stands.right rfl).left, (stands.right rfl).right (by simp; omega)⟩

theorem stands_expression {code : Code}
    (stands : text.StandsAt offset ((expression gap name before behind code rest).print ++ space)) :
    let valueStart := offset + gap.length + name.length + before.length + 1 + behind.length + 1
    text.StandsAt (offset + gap.length) (label name before behind ++ ("\x7b" ++ code.print ++ "\x7d")) ∧
      text.StandsAt valueStart code.print ∧
      text.StandsAt (valueStart + code.print.length + 1) (rest.print ++ space) := by
  have shape : (expression gap name before behind code rest).print ++ space =
      gap ++ ((label name before behind ++ ("\x7b" ++ code.print ++ "\x7d")) ++ (rest.print ++ space)) := by
    simp [print, label]
  rw [shape] at stands
  have inside := (stands.right rfl).left
  have value : text.StandsAt (offset + gap.length) (label name before behind ++ "\x7b" ++ (code.print ++ "\x7d")) := by
    simpa using inside
  exact ⟨inside, (value.right (by simp [Text.ofString]; omega)).left,
    (stands.right rfl).right (by simp [Text.ofString]; omega)⟩

theorem stands_spread {code : Code}
    (stands : text.StandsAt offset ((spread gap code rest).print ++ space)) :
    let valueStart := offset + gap.length + 4
    text.StandsAt (offset + gap.length) ("\x7b..." ++ code.print ++ "\x7d") ∧
      text.StandsAt valueStart code.print ∧
      text.StandsAt (valueStart + code.print.length + 1) (rest.print ++ space) := by
  have shape : (spread gap code rest).print ++ space =
      gap ++ (("\x7b..." ++ code.print ++ "\x7d") ++ (rest.print ++ space)) := by
    simp [print]
  rw [shape] at stands
  have inside := (stands.right rfl).left
  exact ⟨inside, inside.left.right (by simp [Text.ofString]),
    (stands.right rfl).right (by simp [Text.ofString]; omega)⟩

end Attributes

theorem Code.stands_template {content : Template} {rest : Code}
    (stands : text.StandsAt offset (Code.template content rest).print) :
    text.StandsAt (offset + 1) content.print ∧ text.StandsAt (offset + content.print.length + 2) rest.print := by
  rw [print, List.append_assoc, List.append_assoc] at stands
  have inside := stands.right (n := offset + 1) rfl
  exact ⟨inside.left, (inside.right rfl).right (by simp [Text.ofString]; omega)⟩

theorem Template.stands_code {body : List Stroke} {code : Code} {rest : Template}
    (stands : text.StandsAt offset (Template.code body code rest).print) :
    let start := offset + (body.flatMap Stroke.print).length + 2
    text.StandsAt start code.print ∧ text.StandsAt (start + code.print.length + 1) rest.print := by
  have shape : (Template.code body code rest).print =
      body.flatMap Stroke.print ++ ("$\x7b" ++ (code.print ++ ("\x7d" ++ rest.print))) := by
    simp [print]
  rw [shape] at stands
  have inside := (stands.right rfl).right (n := offset + (body.flatMap Stroke.print).length + 2) rfl
  exact ⟨inside.left, (inside.right rfl).right rfl⟩

theorem Template.stands_braces {body : List Stroke} {code : Code} {rest : Template}
    (stands : text.StandsAt offset (Template.code body code rest).print) :
    text.StandsAt (offset + (body.flatMap Stroke.print).length + 1) ("\x7b" ++ code.print ++ "\x7d") := by
  have shape : (Template.code body code rest).print =
      body.flatMap Stroke.print ++ ("$" ++ (("\x7b" ++ code.print ++ "\x7d") ++ rest.print)) := by
    simp [print, Text.ofString]
  rw [shape] at stands
  exact ((stands.right rfl).right rfl).left

theorem Node.stands_selfClosing {tag : Text} {attributes : Attributes}
    (stands : text.StandsAt offset (Node.selfClosing tag attributes space).print) :
    text.StandsAt (offset + 1 + tag.length) (attributes.print ++ space) := by
  have shape : (Node.selfClosing tag attributes space).print =
      "<" ++ tag ++ ((attributes.print ++ space) ++ "/>") := by
    simp [print]
  rw [shape] at stands
  exact (stands.right (by simp [Text.ofString]; omega)).left

theorem Node.stands_paired {tag : Text} {attributes : Attributes} {children : Children}
    (stands : text.StandsAt offset (Node.paired tag attributes space children).print) :
    text.StandsAt (offset + 1 + tag.length) (attributes.print ++ space) ∧
      text.StandsAt (offset + 1 + tag.length + attributes.print.length + space.length + 1) children.print := by
  have shape : (Node.paired tag attributes space children).print =
      "<" ++ tag ++ ((attributes.print ++ space) ++ (">" ++ (children.print ++ ("</" ++ tag ++ ">")))) := by
    simp [print]
  rw [shape] at stands
  have inside := stands.right (n := offset + 1 + tag.length) (by simp [Text.ofString]; omega)
  have behind := inside.right (n := offset + 1 + tag.length + attributes.print.length + space.length)
    (by simp; omega)
  exact ⟨inside.left, (behind.right rfl).left⟩

theorem Node.stands_fragment {children : Children}
    (stands : text.StandsAt offset (Node.fragment children).print) : text.StandsAt (offset + 2) children.print := by
  have shape : (Node.fragment children).print = "<>" ++ (children.print ++ "</>") := by simp [print]
  rw [shape] at stands
  exact (stands.right rfl).left

theorem Children.stands_node {piece : Text} {node : Node} {rest : Children}
    (stands : text.StandsAt offset (Children.node piece node rest).print) :
    text.StandsAt (offset + piece.length) node.print ∧
      text.StandsAt (offset + piece.length + node.print.length) rest.print := by
  rw [print, List.append_assoc] at stands
  exact ⟨(stands.right rfl).left, (stands.right rfl).right rfl⟩

theorem Children.stands_code {piece : Text} {code : Code} {rest : Children}
    (stands : text.StandsAt offset (Children.code piece code rest).print) :
    text.StandsAt (offset + piece.length + 1) code.print ∧
      text.StandsAt (offset + piece.length + 1 + code.print.length + 1) rest.print := by
  have shape : (Children.code piece code rest).print = piece ++ ("\x7b" ++ (code.print ++ ("\x7d" ++ rest.print))) := by
    simp [print]
  rw [shape] at stands
  have inside := (stands.right rfl).right (n := offset + piece.length + 1) rfl
  exact ⟨inside.left, (inside.right rfl).right rfl⟩

theorem Children.stands_braces {piece : Text} {code : Code} {rest : Children}
    (stands : text.StandsAt offset (Children.code piece code rest).print) :
    text.StandsAt (offset + piece.length) ("\x7b" ++ code.print ++ "\x7d") := by
  have shape : (Children.code piece code rest).print = piece ++ (("\x7b" ++ code.print ++ "\x7d") ++ rest.print) := by
    simp [print]
  rw [shape] at stands
  exact (stands.right rfl).left

end StaticStyle.Markup.Tree
