import StaticStyle.Bundle
import StaticStyle.Event.Basic
import StaticStyle.Notice
import StaticStyle.Session.Plan
import StaticStyle.Theme.Store
import StaticStyle.Usage

namespace StaticStyle

open Style (Rule)

/-- The state that the files of a session share. -/
structure Session where
  registry : Registry
  usage : Usage
  theme : Option Theme.Store
deriving Repr

namespace Session

def empty (theme : Option Theme.Store) : Session := ⟨[], [], theme⟩

/-- What an operation leads to: the state behind it, the events and the notices in order, and the
result. -/
structure Step (α : Type) where
  session : Session
  events : List Event
  notices : List Notice
  result : α

/-- The compiled form of a file. Edits are given in offsets of the unchanged source. -/
structure Output where
  code : Text
  edits : List Edit
  identities : List Text
  diagnostics : List Diagnostic
deriving Repr

/-- Why a file is refused. -/
structure Refusal where
  path : Text
  cause : Cause
deriving DecidableEq, Repr

namespace Refusal

def kind (refusal : Refusal) : Text := refusal.cause.kind

def position? (refusal : Refusal) : Option Position := refusal.cause.position?

/-- The path, with the line and the column if they are known. -/
def location (refusal : Refusal) : Text :=
  match refusal.position? with
  | some position =>
    refusal.path ++ ":" ++ Text.ofNat position.line ++ ":" ++ Text.ofNat position.column
  | none => refusal.path

def message (refusal : Refusal) : Text :=
  "Error parsing style declaration in " ++ refusal.location ++ ": " ++ refusal.cause.detail

end Refusal

/-- The warnings of the compiler about what it found. -/
def compilerNotices (findings : List Diagnostic) : List Notice :=
  findings.map fun finding => ⟨.warning, .compiler, finding.message⟩

/-- The warnings about the findings in a file that is compiled. -/
def planNotices (plan : Plan) : List Notice :=
  compilerNotices plan.diagnostics ++
    plan.diagnostics.map fun finding => ⟨.warning, .session, finding.text⟩

/-- The note that a file was compiled. -/
def outputNotice (path : Text) (declarations classes : Nat) : Notice :=
  ⟨.debug, .session, "Transformed " ++ path ++ ": " ++ Text.ofNat declarations ++
    " declaration(s), " ++ Text.ofNat classes ++ " class(es)"⟩

/-- Replaces the identities of a file, and tells what has changed. -/
def commitUsage (session : Session) (path : Text) (identities : List Text) :
    Session × List Event :=
  let previous := session.usage.identitiesOf path
  let usage := session.usage.recompute path identities
  let current := usage.identitiesOf path
  let added := current.filter fun identity => !previous.contains identity
  let removed := previous.filter fun identity => !current.contains identity
  let events := if current = previous then [] else [.fileUsageChanged path added removed]
  ({ session with usage }, events)

/-- Registers rules, and tells which of them were new. -/
def commitRules (session : Session) (path : Text) : List (Text × Rule) → Session × List Event
  | [] => (session, [])
  | (identity, rule) :: rest =>
    let (registry, isNew) := session.registry.register rule
    let (session, events) := commitRules { session with registry } path rest
    (session, if isNew then .styleRegistered identity rule.className path :: events else events)

/-- The line that loads the style sheet of a name. -/
def importLine (id : Text) : Text := "import '" ++ id ++ "';\n"

/-- The edits of a plan, with the one that loads the style sheet if it is wanted. An insertion in front
of a source overlaps no other edit. -/
def finalEditor (config : Config) (plan : Plan) : Except Defect Editor :=
  if config.injectsImport then
    config.assetId.shown.map fun id =>
      match plan.editor.prepend (importLine id) with
      | .ok editor => editor
      | .error _ => plan.editor
  else .ok plan.editor

/-- Carries out a plan with at least one declaration. Only after that the style sheet is named, so a name
that cannot be written is a defect that leaves the session changed. -/
def commit (session : Session) (config : Config) (path : Text) (plan : Plan) :
    Step (Except Refusal Output) :=
  let (session, registered) := session.commitRules path plan.rules.sorted
  let (session, changed) := session.commitUsage path plan.identities
  let events := registered ++ changed
  match finalEditor config plan with
  | .error defect => ⟨session, events, planNotices plan, .error ⟨path, .defect defect⟩⟩
  | .ok editor =>
    let identities := Text.distinct plan.identities
    ⟨session, events,
      planNotices plan ++ [outputNotice path plan.declarations identities.length],
      .ok ⟨editor.render, editor.edits, identities, plan.diagnostics⟩⟩

/-- Compiles a file that is handled. -/
def compile (session : Session) (config : Config) (path source : Text) :
    Step (Except Refusal (Option Output)) :=
  match plan config session.registry path source with
  | .error stop => ⟨session, [], compilerNotices stop.findings, .error ⟨path, stop.cause⟩⟩
  | .ok plan =>
    if plan.declarations = 0 then
      let (session, events) := if Fields.contains path session.usage then
          session.commitUsage path []
        else (session, [])
      ⟨session, events, compilerNotices plan.diagnostics, .ok none⟩
    else
      let step := session.commit config path plan
      { step with result := step.result.map some }

/-- Compiles a file. A file that is not handled, or that has no declarations, has no output; if it had
declarations before, its usage becomes empty. -/
def transform (session : Session) (config : Config) (path source : Text) :
    Step (Except Refusal (Option Output)) :=
  match config.handles path with
  | .error defect => ⟨session, [], [], .error ⟨path, .defect defect⟩⟩
  | .ok false => ⟨session, [], [], .ok none⟩
  | .ok true => session.compile config path source

/-- Compiles a changed file, and gives the names of the style sheets to load again: that of the one
there is, if the identities of the file are not the same as before. -/
def change (session : Session) (config : Config) (path source : Text) :
    Step (Except Refusal (List Value)) :=
  let previous := session.usage.identitiesOf path
  let step := session.transform config path source
  let isChanged := step.session.usage.identitiesOf path != previous
  { step with result := step.result.map fun _ => if isChanged then [config.assetId] else [] }

/-- Forgets a deleted file, and gives the names of the style sheets to load again. -/
def remove (session : Session) (config : Config) (path : Text) : Step (List Value) :=
  if Fields.contains path session.usage then
    let hadUsage := !(session.usage.identitiesOf path).isEmpty
    ⟨{ session with usage := session.usage.remove path }, [.fileDropped path], [],
      if hadUsage then [config.assetId] else []⟩
  else ⟨session, [], [], []⟩

/-- The internal name of the style sheet of a public name. -/
def internalId (id : Text) : Text := .char '\x00' :: id

/-- The internal name for the public one. A public name that is no text is nobody's name. -/
def resolveId (config : Config) (id : Text) : Option Text :=
  if config.assetId.text? = some id then some (internalId id) else none

/-- The variables of the theme and a line feed, or nothing if there are none. -/
def themeCss (session : Session) : Text :=
  match session.theme with
  | none => []
  | some store =>
    let css := store.rootCss ":root"
    if css.isEmpty then [] else css ++ [.char '\n']

/-- The style sheet of the classes that are in use, under either of its names. -/
def liveStyleSheet (session : Session) (config : Config) (id : Text) : Except Defect (Option Text) :=
  match config.assetId with
  | .text assetId =>
    if id = assetId ∨ id = internalId assetId then
      let live := session.registry.select session.usage.live
      .ok (some (session.themeCss ++ Bundle.renderRules live))
    else .ok none
  | _ => .error .mistyped

/-- The style sheet of a bundle, with the rules of the classes that occur in its artifacts. -/
def finalize (session : Session) (artifacts : List Text) : Step Text :=
  let (retained, dropped) := Bundle.partition session.registry artifacts
  let css := session.themeCss ++ Bundle.renderRules retained
  let note := "Bundle styles: " ++ Text.ofNat retained.length ++ " rule(s) retained, " ++
    Text.ofNat dropped.length ++ " dropped"
  ⟨session, [.bundleFinalized retained.length dropped.length css.length],
    [⟨.info, .session, note⟩], css⟩

end Session

end StaticStyle
