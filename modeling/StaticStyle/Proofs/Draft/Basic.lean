import StaticStyle.Proofs.Markup.Splice
import StaticStyle.Session.Plan

namespace StaticStyle

open Markup

/-- The text of a class attribute. -/
def classText (name : Text) : Text := "className=\"" ++ name ++ "\""

/-- Code without elements. -/
structure Flat where
  code : Tree.Code
  isFlat : code.isFlat = true

/-- Code without elements in which all brackets are closed. -/
structure Sealed extends Flat where
  closed : code.unclosed [] = some []

/-- What stands in the place of declarations: the class of the style that a text declares, and the object for the
argument of a call. -/
structure Naming where
  className : Text → Text
  object : Text → Sealed

/-- What becomes of an attribute: it is kept, it is erased, a class attribute is written in its place, or a class is
added to its value. -/
inductive Action where
  | keep
  | erase
  | write (name : Text)
  | extend (name : Text)
deriving DecidableEq, Repr

/-- What becomes of the next attribute of each name. -/
abbrev Change := Text → Action

/-- What becomes of attributes behind one of a name. -/
def Change.past (change : Change) (name : Text) : Change := fun other =>
  if other = name then .keep else change other

/-- What becomes of the attributes of an element with the text of a style, if it has one. The class goes into the place
of the style attribute, or into the class attribute if there is one. -/
def Change.ofStyle (naming : Naming) (style : Option Text) (hasClass : Bool) : Change := fun name =>
  match style with
  | none => .keep
  | some text =>
    if name = "zx" then if hasClass then .erase else .write (naming.className text)
    else if name = "className" ∧ hasClass then .extend (naming.className text)
    else .keep

/-- The edits of an attribute to which something happens. -/
def Action.edits (source : Text) (attr : Attribute) : Action → List Edit
  | .keep => []
  | .erase => [⟨attr.start, attr.stop, []⟩]
  | .write name => [⟨attr.start, attr.stop, classText name⟩]
  | .extend name =>
    match attr.kind with
    | .string => [⟨attr.valueStart, attr.valueStop, Session.Plan.appendClass source attr name⟩]
    | .expression => [⟨attr.valueStart, attr.valueStop, Session.Plan.joinClass source attr name⟩]
    | .boolean | .spread => [⟨attr.start, attr.stop, classText name⟩]

theorem Action.edits_eq_nil {source : Text} {attr : Attribute} {action : Action}
    (none : action.edits source attr = []) : action = .keep := by
  cases action with
  | keep => rfl
  | erase | write _ => cases none
  | extend name => cases kind : attr.kind <;> simp [Action.edits, kind] at none

namespace Markup.Tree

/-- The text of the first style attribute, if it is an expression. -/
def Attributes.style? : Attributes → Option Text
  | .nil => none
  | .boolean _ name rest | .quoted _ name _ _ _ _ rest => if name = "zx" then none else rest.style?
  | .expression _ name _ _ code rest => if name = "zx" then some code.print else rest.style?
  | .spread _ _ rest => rest.style?

def Attributes.hasClass : Attributes → Bool
  | .nil => false
  | .boolean _ name rest | .quoted _ name _ _ _ _ rest | .expression _ name _ _ _ rest =>
    name == "className" || rest.hasClass
  | .spread _ _ rest => rest.hasClass

/-- What becomes of attributes. -/
def Attributes.change (naming : Naming) (attributes : Attributes) : Change :=
  .ofStyle naming attributes.style? attributes.hasClass

/-- A call in front of code. -/
def call (gap : Text) (argument rest : Code) : Code :=
  .plains "createStyles" (.plains gap (.opening .round (argument.append (.closing .round rest))))

theorem call_eq_append (gap : Text) (argument rest : Code) :
    call gap argument rest = (call gap argument .nil).append rest := by
  simp [call, Code.plains_append, Code.append, Code.append_assoc]

/-- A quoted value with one more class. -/
def appended (value name : Text) : Text :=
  if value.strip.isEmpty then name else value ++ " " ++ name

/-- The end of an expression that joins classes. -/
def joinCall : Code :=
  .closing .square (.plains ".filter" (.opening .round (.plains "Boolean" (.closing .round (.plains ".join"
    (.opening .round (.quoted '"' [.plain ' '] (.closing .round .nil))))))))

/-- What stands behind the old value in an expression with one more class. -/
def joinEnd (name : Text) : Code := .plains ", " (.quoted '"' (name.map .plain) joinCall)

/-- The value of an expression with one more class. -/
def joined (code : Code) (name : Text) : Code := .opening .square (code.strip.append (joinEnd name))

/-- The attributes of a tag and the blanks behind them. -/
abbrev Tail := Attributes × Text

/-- More blanks in front. -/
def Tail.widen (gap : Text) : Tail → Tail
  | (.nil, space) => (.nil, gap ++ space)
  | (.boolean gap' name rest, space) => (.boolean (gap ++ gap') name rest, space)
  | (.quoted gap' name before behind mark value rest, space) =>
    (.quoted (gap ++ gap') name before behind mark value rest, space)
  | (.expression gap' name before behind code rest, space) =>
    (.expression (gap ++ gap') name before behind code rest, space)
  | (.spread gap' code rest, space) => (.spread (gap ++ gap') code rest, space)

/-- A class attribute in front. -/
def Tail.classed (gap name : Text) (tail : Tail) : Tail := (.quoted gap "className" [] [] '"' name tail.1, tail.2)

/-- What becomes of attributes when something happens to the first of them. It is told what they are if it is kept and
if a class is added to its value. -/
def Tail.act (gap : Text) (tail kept : Tail) (extended : Text → Tail) : Action → Tail
  | .keep => kept
  | .erase => tail.widen gap
  | .write name => tail.classed gap name
  | .extend name => extended name

end Markup.Tree

namespace Draft

mutual
/-- Code with the marked calls in it. -/
inductive Code where
  | nil
  | piece (piece : Flat) (rest : Code)
  | call (gap : Text) (argument : Sealed) (rest : Code)
  | template (content : Template) (rest : Code)
  | node (node : Node) (rest : Code)

inductive Template where
  | text (body : List Tree.Stroke)
  | code (body : List Tree.Stroke) (code : Code) (rest : Template)

inductive Node where
  | selfClosing (tag : Text) (attributes : Attributes) (space : Text)
  | paired (tag : Text) (attributes : Attributes) (space : Text) (children : Children)
  | fragment (children : Children)

inductive Attributes where
  | nil
  | boolean (gap name : Text) (rest : Attributes)
  | quoted (gap name before behind : Text) (mark : CodePoint) (value : Text) (rest : Attributes)
  | expression (gap name before behind : Text) (code : Code) (rest : Attributes)
  | spread (gap : Text) (code : Code) (rest : Attributes)

inductive Children where
  | text (text : Text)
  | node (text : Text) (node : Node) (rest : Children)
  | code (text : Text) (code : Code) (rest : Children)
end

mutual
def Code.source : Code → Tree.Code
  | .nil => .nil
  | .piece piece rest => piece.code.append rest.source
  | .call gap argument rest => Tree.call gap argument.code rest.source
  | .template content rest => .template content.source rest.source
  | .node node rest => .node node.source rest.source

def Template.source : Template → Tree.Template
  | .text body => .text body
  | .code body code rest => .code body code.source rest.source

def Node.source : Node → Tree.Node
  | .selfClosing tag attributes space => .selfClosing tag attributes.source space
  | .paired tag attributes space children => .paired tag attributes.source space children.source
  | .fragment children => .fragment children.source

def Attributes.source : Attributes → Tree.Attributes
  | .nil => .nil
  | .boolean gap name rest => .boolean gap name rest.source
  | .quoted gap name before behind mark value rest =>
    .quoted gap name before behind mark value rest.source
  | .expression gap name before behind code rest =>
    .expression gap name before behind code.source rest.source
  | .spread gap code rest => .spread gap code.source rest.source

def Children.source : Children → Tree.Children
  | .text text => .text text
  | .node text node rest => .node text node.source rest.source
  | .code text code rest => .code text code.source rest.source
end

mutual
def Code.compiled (naming : Naming) : Code → Tree.Code
  | .nil => .nil
  | .piece piece rest => piece.code.append (rest.compiled naming)
  | .call _ argument rest => (naming.object argument.code.print).code.append (rest.compiled naming)
  | .template content rest => .template (content.compiled naming) (rest.compiled naming)
  | .node node rest => .node (node.compiled naming) (rest.compiled naming)

def Template.compiled (naming : Naming) : Template → Tree.Template
  | .text body => .text body
  | .code body code rest => .code body (code.compiled naming) (rest.compiled naming)

def Node.compiled (naming : Naming) : Node → Tree.Node
  | .selfClosing tag attributes space =>
    let tail := attributes.compiled naming (attributes.source.change naming) space
    .selfClosing tag tail.1 tail.2
  | .paired tag attributes space children =>
    let tail := attributes.compiled naming (attributes.source.change naming) space
    .paired tag tail.1 tail.2 (children.compiled naming)
  | .fragment children => .fragment (children.compiled naming)

/-- The changed attributes, with the blanks behind them. -/
def Attributes.compiled (naming : Naming) (change : Change) (space : Text) : Attributes → Tree.Tail
  | .nil => (.nil, space)
  | .boolean gap name rest =>
    let tail := rest.compiled naming (change.past name) space
    tail.act gap (.boolean gap name tail.1, tail.2) (tail.classed gap ·) (change name)
  | .quoted gap name before behind mark value rest =>
    let tail := rest.compiled naming (change.past name) space
    let valued (value : Text) := (.quoted gap name before behind mark value tail.1, tail.2)
    tail.act gap (valued value) (fun className => valued (Tree.appended value className)) (change name)
  | .expression gap name before behind code rest =>
    let tail := rest.compiled naming (change.past name) space
    let valued (code : Tree.Code) := (.expression gap name before behind code tail.1, tail.2)
    tail.act gap (valued (code.compiled naming))
      (fun className => valued (Tree.joined (code.compiled naming) className)) (change name)
  | .spread gap code rest =>
    let tail := rest.compiled naming change space
    (.spread gap (code.compiled naming) tail.1, tail.2)

def Children.compiled (naming : Naming) : Children → Tree.Children
  | .text text => .text text
  | .node text node rest => .node text (node.compiled naming) (rest.compiled naming)
  | .code text code rest => .code text (code.compiled naming) (rest.compiled naming)
end

mutual
def Code.edits (naming : Naming) (source : Text) (offset : Nat) : Code → List Edit
  | .nil => []
  | .piece piece rest => rest.edits naming source (offset + piece.code.print.length)
  | .call gap argument rest =>
    let stop := offset + (Tree.call gap argument.code .nil).print.length
    ⟨offset, stop, (naming.object argument.code.print).code.print⟩ :: rest.edits naming source stop
  | .template content rest =>
    content.edits naming source (offset + 1) ++ rest.edits naming source (offset + content.source.print.length + 2)
  | .node node rest =>
    node.edits naming source offset ++ rest.edits naming source (offset + node.source.print.length)

def Template.edits (naming : Naming) (source : Text) (offset : Nat) : Template → List Edit
  | .text _ => []
  | .code body code rest =>
    let start := offset + (body.flatMap Tree.Stroke.print).length + 2
    code.edits naming source start ++ rest.edits naming source (start + code.source.print.length + 1)

def Node.edits (naming : Naming) (source : Text) (offset : Nat) : Node → List Edit
  | .selfClosing tag attributes _ =>
    attributes.edits naming source (attributes.source.change naming) (offset + 1 + tag.length)
  | .paired tag attributes space children =>
    let inside := offset + 1 + tag.length
    let stop := inside + attributes.source.print.length + space.length + 1
    attributes.edits naming source (attributes.source.change naming) inside ++
      children.edits naming source stop
  | .fragment children => children.edits naming source (offset + 2)

def Attributes.edits (naming : Naming) (source : Text) (change : Change) (offset : Nat) :
    Attributes → List Edit
  | .nil => []
  | .boolean gap name rest =>
    let start := offset + gap.length
    let stop := start + name.length
    (change name).edits source ⟨name, .boolean, start, stop, stop, stop⟩ ++
      rest.edits naming source (change.past name) stop
  | .quoted gap name before behind _ value rest =>
    let start := offset + gap.length
    let valueStart := start + name.length + before.length + 1 + behind.length
    let stop := valueStart + value.length + 2
    (change name).edits source ⟨name, .string, start, stop, valueStart, stop⟩ ++
      rest.edits naming source (change.past name) stop
  | .expression gap name before behind code rest =>
    let start := offset + gap.length
    let valueStart := start + name.length + before.length + 1 + behind.length + 1
    let valueStop := valueStart + code.source.print.length
    (change name).edits source ⟨name, .expression, start, valueStop + 1, valueStart, valueStop⟩ ++
      (code.edits naming source valueStart ++ rest.edits naming source (change.past name) (valueStop + 1))
  | .spread gap code rest =>
    let valueStart := offset + gap.length + 4
    code.edits naming source valueStart ++
      rest.edits naming source change (valueStart + code.source.print.length + 1)

def Children.edits (naming : Naming) (source : Text) (offset : Nat) : Children → List Edit
  | .text _ => []
  | .node text node rest =>
    let start := offset + text.length
    node.edits naming source start ++ rest.edits naming source (start + node.source.print.length)
  | .code text code rest =>
    let start := offset + text.length + 1
    code.edits naming source start ++ rest.edits naming source (start + code.source.print.length + 1)
end

mutual
def Code.calls (offset : Nat) : Code → List Call
  | .nil => []
  | .piece piece rest => rest.calls (offset + piece.code.print.length)
  | .call gap argument rest =>
    let stop := offset + (Tree.call gap argument.code .nil).print.length
    let argumentStart := offset + 12 + gap.length + 1
    ⟨offset, stop, argumentStart, argumentStart + argument.code.print.length⟩ :: rest.calls stop
  | .template content rest =>
    content.calls (offset + 1) ++ rest.calls (offset + content.source.print.length + 2)
  | .node node rest => node.calls offset ++ rest.calls (offset + node.source.print.length)

def Template.calls (offset : Nat) : Template → List Call
  | .text _ => []
  | .code body code rest =>
    let start := offset + (body.flatMap Tree.Stroke.print).length + 2
    code.calls start ++ rest.calls (start + code.source.print.length + 1)

def Node.calls (offset : Nat) : Node → List Call
  | .selfClosing tag attributes _ => attributes.calls (offset + 1 + tag.length)
  | .paired tag attributes space children =>
    let inside := offset + 1 + tag.length
    attributes.calls inside ++ children.calls (inside + attributes.source.print.length + space.length + 1)
  | .fragment children => children.calls (offset + 2)

def Attributes.calls (offset : Nat) : Attributes → List Call
  | .nil => []
  | .boolean gap name rest => rest.calls (offset + gap.length + name.length)
  | .quoted gap name before behind _ value rest =>
    rest.calls (offset + gap.length + name.length + before.length + 1 + behind.length + value.length + 2)
  | .expression gap name before behind code rest =>
    let valueStart := offset + gap.length + name.length + before.length + 1 + behind.length + 1
    code.calls valueStart ++ rest.calls (valueStart + code.source.print.length + 1)
  | .spread gap code rest =>
    let valueStart := offset + gap.length + 4
    code.calls valueStart ++ rest.calls (valueStart + code.source.print.length + 1)

def Children.calls (offset : Nat) : Children → List Call
  | .text _ => []
  | .node text node rest =>
    let start := offset + text.length
    node.calls start ++ rest.calls (start + node.source.print.length)
  | .code text code rest =>
    let start := offset + text.length + 1
    code.calls start ++ rest.calls (start + code.source.print.length + 1)
end

mutual
/-- Nothing is edited inside the values of attributes to which something happens, styles have no elements, and a comment
does not take away the end of a value to which a class is added. Behind the parenthesis of a marked call, a `<` begins
no tag, but it may behind the brace of an object, so none stands there. -/
def Code.IsClear (naming : Naming) (source : Text) (offset : Nat) : Code → Prop
  | .nil => True
  | .piece piece rest => rest.IsClear naming source (offset + piece.code.print.length)
  | .call gap argument rest =>
    rest.source.print.head? ≠ some (.char '<') ∧
      rest.IsClear naming source (offset + (Tree.call gap argument.code .nil).print.length)
  | .template content rest =>
    content.IsClear naming source (offset + 1) ∧
      rest.IsClear naming source (offset + content.source.print.length + 2)
  | .node node rest =>
    node.IsClear naming source offset ∧ rest.IsClear naming source (offset + node.source.print.length)

def Template.IsClear (naming : Naming) (source : Text) (offset : Nat) : Template → Prop
  | .text _ => True
  | .code body code rest =>
    let start := offset + (body.flatMap Tree.Stroke.print).length + 2
    code.IsClear naming source start ∧ rest.IsClear naming source (start + code.source.print.length + 1)

def Node.IsClear (naming : Naming) (source : Text) (offset : Nat) : Node → Prop
  | .selfClosing tag attributes _ =>
    attributes.IsClear naming source (attributes.source.change naming) (offset + 1 + tag.length)
  | .paired tag attributes space children =>
    let inside := offset + 1 + tag.length
    let stop := inside + attributes.source.print.length + space.length + 1
    attributes.IsClear naming source (attributes.source.change naming) inside ∧
      children.IsClear naming source stop
  | .fragment children => children.IsClear naming source (offset + 2)

def Attributes.IsClear (naming : Naming) (source : Text) (change : Change) (offset : Nat) : Attributes → Prop
  | .nil => True
  | .boolean gap name rest => rest.IsClear naming source (change.past name) (offset + gap.length + name.length)
  | .quoted gap name before behind _ value rest =>
    rest.IsClear naming source (change.past name)
      (offset + gap.length + name.length + before.length + 1 + behind.length + value.length + 2)
  | .expression gap name before behind code rest =>
    let valueStart := offset + gap.length + name.length + before.length + 1 + behind.length + 1
    code.IsClear naming source valueStart ∧
      (change name ≠ .keep → code.edits naming source valueStart = []) ∧
      (match change name with
        | .keep => True
        | .erase | .write _ => code.source.openings valueStart = []
        | .extend _ => code.source.endsInComment = false) ∧
      rest.IsClear naming source (change.past name) (valueStart + code.source.print.length + 1)
  | .spread gap code rest =>
    let valueStart := offset + gap.length + 4
    code.IsClear naming source valueStart ∧
      rest.IsClear naming source change (valueStart + code.source.print.length + 1)

def Children.IsClear (naming : Naming) (source : Text) (offset : Nat) : Children → Prop
  | .text _ => True
  | .node text node rest =>
    let start := offset + text.length
    node.IsClear naming source start ∧ rest.IsClear naming source (start + node.source.print.length)
  | .code text code rest =>
    let start := offset + text.length + 1
    code.IsClear naming source start ∧ rest.IsClear naming source (start + code.source.print.length + 1)
end

end Draft

end StaticStyle
