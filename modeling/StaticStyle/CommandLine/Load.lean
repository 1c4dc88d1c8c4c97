import StaticStyle.CommandLine.Console
import StaticStyle.CommandLine.Request
import StaticStyle.Config.Load
import StaticStyle.Session.Basic
import StaticStyle.Theme.Load

namespace StaticStyle.CommandLine.Work

open File (Path)

/-- Ends a command that has found a fault in its own input. -/
def refuseInput {α : Type} (message : Text) : Work α := refuse ("Error: " ++ message)

/-- The configuration in a file. -/
def loadConfigFrom (path : Text) : Work Config := do
  match Config.load path ((← tree).read (Path.ofText path)).toOption with
  | .ok config => return config
  | .error (.defect defect) => fail (.defect defect)
  | .error fault => refuseInput fault.message

/-- The configuration in a named file, or in the standard place if there is a file. -/
def loadConfig : Option Text → Work Config
  | some path => loadConfigFrom path
  | none => do
    if (← tree).isFile (Path.ofText standardConfigPath) then loadConfigFrom standardConfigPath
    else return .standard

/-- The theme in a file. -/
def loadTheme (path : Text) : Work (Fields Value) := do
  let path := Path.ofText path
  match Theme.load path.text ((← tree).read path).toOption with
  | .ok theme => return theme
  | .error (.defect defect) => fail (.defect defect)
  | .error fault => refuseInput fault.message

/-- A store with the theme in a file. -/
def openStore (stem path : Text) : Work Theme.Store := do
  let theme ← loadTheme path
  match Theme.makeVariables stem theme with
  | .error defect => fail (.defect defect)
  | .ok _ =>
    let store := (Theme.Store.empty stem).replace theme
    log [store.notice]
    return store

/-- Compiles a file. A defect ends the command. -/
def compile (session : Session) (config : Config) (path source : Text) :
    Work (Session.Step (Except Session.Refusal (Option Session.Output))) := do
  let step := session.transform config path source
  log step.notices
  match step.result with
  | .error ⟨_, .defect defect⟩ => fail (.defect defect)
  | _ => return step

end StaticStyle.CommandLine.Work
