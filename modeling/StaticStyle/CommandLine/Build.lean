import StaticStyle.CommandLine.Load

/-!
The compilation of all files below a directory into another one. Compiled files are written with class
names in the place of styles, all other files are copied. One style sheet holds the rules that are
named in what was written, and every page of markup is linked to it.
-/

namespace StaticStyle.CommandLine

open File (Path)

/-- Where files are read and written. -/
structure Site where
  config : Config
  source : Path
  target : Path

/-- What has been written so far. -/
structure Progress where
  session : Session
  registered : Nat
  artifacts : List Text
  pages : List Path

/-- The names of pages of markup end like this, in any letter case. -/
def isMarkupName (name : Text) : Bool :=
  [Text.ofString ".html", ".htm"].contains ((File.nameEnding name).map CodePoint.toAsciiLower)

/-- How many of several events tell of a new style. -/
def countRegistered (events : List Event) : Nat :=
  events.countP fun event => event.kind == .styleRegistered

namespace Site

/-- Compiles a file, of which the names below the source are given. The first file that is refused
ends the command. -/
def compileFile (site : Site) (progress : Progress) (names : List Text) : Work Progress := do
  let source ← Work.readText (site.source.below names)
  let step ← Work.compile progress.session site.config (Text.join "/" names) source
  match step.result with
  | .error refusal => Work.refuse refusal.message
  | .ok output =>
    let code := (output.map Session.Output.code).getD source
    Work.writeText (site.target.below names) code
    return { progress with
      session := step.session
      registered := progress.registered + countRegistered step.events
      artifacts := progress.artifacts ++ [code] }

/-- Copies a file. -/
def copyFile (site : Site) (progress : Progress) (names : List Text) : Work Progress := do
  let target := site.target.below names
  Work.change (·.copy (site.source.below names) target)
  if isMarkupName target.name then
    let markup ← Work.readText target
    return { progress with
      artifacts := progress.artifacts ++ [markup]
      pages := progress.pages ++ [target] }
  else return progress

/-- Writes what becomes of a file. -/
def addFile (site : Site) (progress : Progress) (names : List Text) : Work Progress := do
  let target := site.target.below names
  Work.change (·.ensureDirectory target.parent)
  if ← Work.usable (site.config.handles target.name) then site.compileFile progress names
  else site.copyFile progress names

end Site

/-- Links a page to the style sheet. -/
def linkPage (asset page : Path) : Work Unit := do
  let href := (File.relativePath (← Work.tree).here page.parent asset).text
  Work.writeText page (Bundle.injectLink (← Work.readText page) href)

/-- Compiles all files below a directory. The list of them is made before anything is written. -/
def build (source target : Text) (theme : Option Text) (asset : Text) (config : Option Text) :
    Work Unit := do
  let config := { ← Work.loadConfig config with injectsImport := false }
  let store ← theme.mapM (Work.openStore config.themeStem)
  let site : Site := ⟨config, Path.ofText source, Path.ofText target⟩
  let files ← Work.ofFile ((← Work.tree).filesIn site.source)
  files.forM fun names => Work.ofFile (site.source.below names).accept
  let progress ← files.foldlM site.addFile ⟨.empty store, 0, [], []⟩
  let sheet := progress.session.finalize progress.artifacts
  Work.log sheet.notices
  let asset := site.target.append (Path.ofText asset)
  Work.change (·.ensureDirectory asset.parent)
  Work.writeText asset sheet.result
  progress.pages.forM (linkPage asset)
  Work.say ("Compiled " ++ Text.ofNat progress.registered ++ " class(es) from " ++ site.source.text)
  Work.say ("Wrote " ++ asset.text ++ " (" ++ Text.ofNat sheet.result.length ++ " bytes)")

end StaticStyle.CommandLine
