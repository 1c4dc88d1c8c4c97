import StaticStyle.CommandLine.Load

namespace StaticStyle.CommandLine

open File (Path)

/-- What a check has found so far. -/
structure Tally where
  session : Session
  errors : Nat
  warnings : Nat

namespace Tally

/-- Counts the findings in a file that was compiled. -/
def addFindings (tally : Tally) (findings : List Diagnostic) : Tally :=
  { tally with
    errors := tally.errors + findings.countP Diagnostic.isError
    warnings := tally.warnings + findings.countP Diagnostic.isWarning }

/-- Checks a file. One that is refused counts as an error. -/
def addFile (config : Config) (tally : Tally) (path : Path) : Work Tally := do
  let source ← Work.readText path
  let step ← Work.compile tally.session config path.text source
  match step.result with
  | .error refusal =>
    Work.say ("ERROR " ++ refusal.message)
    return { tally with session := step.session, errors := tally.errors + 1 }
  | .ok output =>
    let findings := (output.map Session.Output.diagnostics).getD []
    findings.forM fun finding => Work.say finding.text
    return { tally.addFindings findings with session := step.session }

end Tally

/-- The files that a check reads: a file itself, or those below a directory that are handled. -/
def checkedFiles (config : Config) (source : Path) : Work (List Path) := do
  let tree ← Work.tree
  if tree.isFile source then return [source]
  let files ← Work.ofFile (tree.filesIn source)
  (files.map source.below).filterM fun path => do
    Work.ofFile path.accept
    Work.usable (config.handles path.name)

/-- Compiles files without writing anything, and fails if there are errors. -/
def check (source : Text) (config : Option Text) : Work Unit := do
  let config ← Work.loadConfig config
  let files ← checkedFiles config (Path.ofText source)
  let tally ← files.foldlM (Tally.addFile config) ⟨.empty none, 0, 0⟩
  Work.say []
  Work.say ("Summary: " ++ Text.ofNat files.length ++ " file(s), " ++
    Text.ofNat tally.session.registry.length ++ " class(es), " ++
    Text.ofNat tally.errors ++ " error(s), " ++ Text.ofNat tally.warnings ++ " warning(s)")
  if tally.errors ≠ 0 then Work.stop .failed

/-- Shows the rules that a file leads to, and the compiled file if it is wanted. -/
def showOutput (name : Text) (registry : Registry) (output : Session.Output) (showsCode : Bool) :
    Work Unit := do
  Work.say ("File:    " ++ name)
  Work.say ("Classes: " ++ Text.ofNat output.identities.length)
  Work.say ("Edits:   " ++ Text.ofNat output.edits.length)
  Work.say []
  (registry.select output.identities).forM fun (_, rule) => do
    Work.say rule.css
    Work.say []
  output.diagnostics.forM fun finding => Work.say finding.text
  if showsCode then Work.say output.code

/-- Compiles one file, and shows its styles. -/
def inspect (file : Text) (config : Option Text) (showsCode : Bool) : Work Unit := do
  let config := { ← Work.loadConfig config with injectsImport := false }
  let path := Path.ofText file
  let source ← Work.readText path
  let step ← Work.compile (.empty none) config path.name source
  match step.result with
  | .error refusal => Work.refuse refusal.message
  | .ok none => Work.say (path.name ++ ": no style declarations")
  | .ok (some output) => showOutput path.name step.session.registry output showsCode

/-- Shows the variables of a theme, and those of a scope that is derived from it. -/
def showTheme (file selector stem : Text) (override : Option Text) (scope : Text) : Work Unit := do
  let store ← Work.openStore stem file
  let override ← override.mapM Work.loadTheme
  Work.say (Theme.renderVariables selector store.vars)
  match override with
  | none => pure ()
  | some override =>
    match Theme.Scope.derive stem store.theme override with
    | .error defect => Work.fail (.defect defect)
    | .ok derived => Work.say (derived.css scope)

end StaticStyle.CommandLine
