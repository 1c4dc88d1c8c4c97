import StaticStyle.Config.Basic
import StaticStyle.Expression.Evaluate
import StaticStyle.Markup.Call
import StaticStyle.Registry
import StaticStyle.Source.Edit
import StaticStyle.Style.Compile
import StaticStyle.Style.Identity

/-!
The plan for a file: the rules of its declarations and the edits that put class names in their place.
A plan is made before anything is changed, so a file with a fault in it changes nothing.
-/

namespace StaticStyle.Session

open Expression Markup Style

/-- Why a file cannot be compiled. -/
inductive Cause where
  | unparsable (position : Position)
  | rejected (rejection : Rejection)
  | invalidStyle (invalid : InvalidStyle) (position : Option Position)
  | overlappingEdit (fault : EditFault)
  | defect (defect : Defect)
deriving DecidableEq, Repr

namespace Cause

/-- The cause that a style at a position is not compiled for. -/
def ofStyle (invalid : InvalidStyle) (position : Position) : Cause :=
  match invalid.defect? with
  | some found => defect found
  | none => invalidStyle invalid (some position)

def kind : Cause → Text
  | unparsable _ => "ParseError"
  | rejected rejection => rejection.kind
  | invalidStyle .. => "InvalidStyleValue"
  | overlappingEdit _ => "OverlappingEdit"
  | defect _ => "Defect"

def detail : Cause → Text
  | unparsable position => (ParseFault.unexpected position).message
  | rejected rejection => rejection.message
  | invalidStyle invalid _ => invalid.message
  | overlappingEdit fault => fault.message
  | defect found => found.message

def position? : Cause → Option Position
  | unparsable position => some position
  | rejected rejection => some rejection.position
  | invalidStyle _ position => position
  | _ => none

end Cause

/-- What has been planned for a file so far. -/
structure Plan where
  editor : Editor
  rules : Fields Rule
  identities : List Text
  diagnostics : List Diagnostic
  declarations : Nat
deriving Repr

def Plan.ofSource (source : Text) : Plan := ⟨.ofSource source, [], [], [], 0⟩

/-- The end of planning without a plan. What was found up to then has been reported. -/
structure Stop where
  cause : Cause
  findings : List Diagnostic
deriving Repr

abbrev Planning (α : Type) := Except Stop α

namespace Plan

def stop {α : Type} (plan : Plan) (cause : Cause) : Planning α := .error ⟨cause, plan.diagnostics⟩

/-- What can be used without a defect. -/
def usable {α : Type} (plan : Plan) : Except Defect α → Planning α
  | .ok a => .ok a
  | .error defect => plan.stop (.defect defect)

/-- Records an edit. -/
def overwrite (plan : Plan) (start stop : Nat) (text : Text) : Planning Plan :=
  match plan.editor.overwrite start stop text with
  | .ok editor => .ok { plan with editor }
  | .error fault => plan.stop (.overlappingEdit fault)

/-- The node of an expression at an offset of a source. -/
def parseAt (plan : Plan) (source text : Text) (offset : Nat) : Planning Node :=
  match parse text ⟨offset, Position.ofOffset source offset⟩ with
  | .ok node => .ok node
  | .error (.unexpected position) => plan.stop (.unparsable position)
  | .error (.outOfRange _) => plan.stop (.defect .outOfRange)

/-- The fields of an expression that has to be a static object. -/
def evaluateAt (plan : Plan) (source text : Text) (offset : Nat) : Planning (Fields Value) :=
  match plan.parseAt source text offset with
  | .error stop => .error stop
  | .ok node =>
    match evaluateObject node with
    | .ok fields => .ok fields
    | .error rejection => plan.stop (.rejected rejection)

/-- The identity of a style and its class. -/
def nameStyle (config : Config) (style : Value) : Except Defect (Text × Text) := do
  let digits ← digest style
  let length ← config.hashLength
  let stem ← config.classStem.shown
  let identity := digits.leading length
  return (identity, className stem identity)

/-- Plans one style that is declared at a position, and gives its class. A style whose identity is
planned or registered already is not compiled again. -/
def addStyle (config : Config) (registry : Registry) (path : Text) (position : Position)
    (style : Fields Value) (plan : Plan) : Planning (Plan × Text) :=
  (plan.usable (nameStyle config (.object style))).bind fun (identity, name) =>
    let known := { plan with identities := plan.identities ++ [identity] }
    if Fields.contains identity plan.rules || Fields.contains identity registry then
      .ok (known, name)
    else
      let report := compile config.themeStem name identity style
      let found := report.findings.map fun finding =>
        finding.located path (some position.line) (some position.column)
      let diagnostics := plan.diagnostics ++ found
      match report.result with
      | .error invalid => .error ⟨.ofStyle invalid position, diagnostics⟩
      | .ok rule => .ok ({ known with rules := plan.rules.put identity rule, diagnostics }, name)

/-- A class name between double quotes as the value of the class attribute. -/
def classAttribute (config : Config) (name : Text) : Except Defect Text :=
  config.classAttr.shown.map fun attrName => attrName ++ "=\"" ++ name ++ "\""

/-- The value of a quoted class attribute with one more class. -/
def appendClass (source : Text) (attr : Attribute) (name : Text) : Text :=
  let literal := attr.valueText source
  let mark := literal.take 1
  let existing := source.slice (attr.valueStart + 1) (attr.valueStop - 1)
  let joined := if existing.strip.isEmpty then name else existing ++ " " ++ name
  mark ++ joined ++ mark

/-- The expression of a class attribute with one more class. -/
def joinClass (source : Text) (attr : Attribute) (name : Text) : Text :=
  "[" ++ (attr.valueText source).strip ++ ", \"" ++ name ++ "\"].filter(Boolean).join(\" \")"

/-- Writes a class attribute in the place of an attribute. -/
def writeClass (config : Config) (attr : Attribute) (name : Text) (plan : Plan) : Planning Plan :=
  (plan.usable (classAttribute config name)).bind fun text =>
    plan.overwrite attr.start attr.stop text

/-- Adds a class name to a class attribute. -/
def extendClass (config : Config) (source : Text) (attr : Attribute) (name : Text) (plan : Plan) :
    Planning Plan :=
  match attr.kind with
  | .string => plan.overwrite attr.valueStart attr.valueStop (appendClass source attr name)
  | .expression => plan.overwrite attr.valueStart attr.valueStop (joinClass source attr name)
  | _ => plan.writeClass config attr name

/-- The class attribute of an element, if it has one. -/
def classAttribute? (config : Config) (element : Element) : Option Attribute :=
  config.classAttr.text?.bind element.attribute?

/-- Puts a class name in the place of a style attribute, or into the class attribute if there is
one. -/
def rewriteElement (config : Config) (source : Text) (element : Element) (attr : Attribute)
    (name : Text) (plan : Plan) : Planning Plan :=
  match classAttribute? config element with
  | none => plan.writeClass config attr name
  | some classAttr =>
    (plan.overwrite attr.start attr.stop []).bind fun plan =>
      plan.extendClass config source classAttr name

/-- Plans the style attribute of an element, if it has one. -/
def addElement (config : Config) (attrName : Text) (registry : Registry) (path source : Text)
    (plan : Plan) (element : Element) : Planning Plan :=
  match element.attribute? attrName with
  | none => .ok plan
  | some attr =>
    let position := Position.ofOffset source attr.start
    if attr.kind ≠ .expression then
      plan.stop (.rejected (.expression ("JSX " ++ attr.kind.name ++ " attribute") position))
    else
      (plan.evaluateAt source (attr.valueText source) attr.valueStart).bind fun style =>
        (plan.addStyle config registry path position style).bind fun (plan, name) =>
          rewriteElement config source element attr name
            { plan with declarations := plan.declarations + 1 }

/-- Plans the entries of a call, and gives the members of the object that replaces it. -/
def addEntries (config : Config) (callee : Text) (registry : Registry) (path : Text)
    (position : Position) (plan : Plan) : List (Text × Value) → Planning (Plan × List Text)
  | [] => .ok (plan, [])
  | (key, .object style) :: rest =>
    (plan.addStyle config registry path position style).bind fun (plan, name) =>
      let plan := { plan with declarations := plan.declarations + 1 }
      (addEntries config callee registry path position plan rest).bind fun (plan, members) =>
        .ok (plan, (Json.quoteAscii key ++ ": " ++ Json.quoteAscii name) :: members)
  | (key, _) :: _ => plan.stop (.invalidStyle ⟨key, .entryNeedsObject callee⟩ none)

/-- The argument of a call as far as it is parsed: without blanks at its end and the commas in front
of these. -/
def argumentExpression (argument : Text) : Text :=
  Text.dropTrailing (fun c => c == ',') (Text.dropTrailing CodePoint.isBlank argument)

/-- Plans the styles of a call, unless its argument is blank. -/
def addCall (config : Config) (callee : Text) (registry : Registry) (path source : Text) (plan : Plan)
    (call : Call) : Planning Plan :=
  let argument := call.argumentText source
  if argument.isAllBlank then .ok plan
  else
    let position := Position.ofOffset source call.argumentStart
    (plan.evaluateAt source (argumentExpression argument) call.argumentStart).bind fun entries =>
      (addEntries config callee registry path position plan entries).bind fun (plan, members) =>
        plan.overwrite call.start call.stop ("\x7b" ++ Text.join ", " members ++ "\x7d")

end Plan

/-- Whether a name occurs at the beginning or the end of a word, with an equals sign behind it. -/
def mentionsAttribute (name : Text) (before : Option CodePoint) : Text → Bool
  | [] => false
  | c :: rest =>
    let isBoundary := before.any CodePoint.isWord != c.isWord
    let isAssigned := match Text.dropLeading? name (c :: rest) with
      | some behind => (Text.dropBlank behind).head? == some (.char '=')
      | none => false
    (isBoundary && isAssigned) || mentionsAttribute name (some c) rest

/-- The elements of a source, if it mentions an attribute of theirs. -/
def mentionedElements (attrName source : Text) : List Element :=
  if mentionsAttribute attrName none source then elements source else []

/-- The calls in a source, if it mentions their function. -/
def mentionedCalls (callee source : Text) : List Call :=
  if Text.occursIn callee source then calls callee source else []

/-- The plan for a source, of which first the elements and then the calls are gone through. -/
def plan (config : Config) (registry : Registry) (path source : Text) : Planning Plan :=
  let start := Plan.ofSource source
  (start.usable config.attrName).bind fun attrName =>
    (start.usable config.callee).bind fun callee =>
      ((mentionedElements attrName source).foldlM
        (Plan.addElement config attrName registry path source) start).bind fun plan =>
          (mentionedCalls callee source).foldlM
            (Plan.addCall config callee registry path source) plan

end StaticStyle.Session
