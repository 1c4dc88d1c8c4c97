import StaticStyle.CommandLine.Build
import StaticStyle.CommandLine.Help
import StaticStyle.CommandLine.Report

namespace StaticStyle.CommandLine

open File (Tree)

/-- What a run leaves: how it ended, what it wrote, and the files behind it. -/
structure Outcome where
  ending : Ending
  output : Text
  errors : Text
  tree : Tree
deriving Repr

def Job.work : Job → Work Unit
  | .build source target themeFile asset config =>
    CommandLine.build source target themeFile asset config
  | .check source config => CommandLine.check source config
  | .inspect file config showsCode => CommandLine.inspect file config showsCode
  | .theme file selector stem override scope => showTheme file selector stem override scope
  | .version => Work.say versionLine
  | .help command => Work.say (helpFor command)

/-- The work of a job, from a silent start. -/
def Job.run (job : Job) (isVerbose : Bool) (tree : Tree) : Outcome :=
  let (result, console) := (job.work.run ⟨tree, [], [], isVerbose⟩).run
  let ending := match result with
    | .ok () => .finished
    | .error ending => ending
  ⟨ending, console.output, console.errors, console.tree⟩

/-- What keeps a request from being met: the first of its paths that cannot be looked up, or that does
not lead to what it has to. -/
def Request.obstacle? (tree : Tree) (request : Request) : Option Ending :=
  request.needs.findSome? fun (path, need) =>
    match tree.findWritten path with
    | .error fault => some (.broken (.file fault))
    | .ok entry => if need.isMet entry then none else some .misused

/-- What is done for a request. Where it has no job, its paths are looked at all the same. -/
def Request.run (request : Request) (tree : Tree) : Outcome :=
  match request.obstacle? tree, request.job? with
  | some ending, _ => ⟨ending, [], [], tree⟩
  | none, some job => job.run request.isVerbose tree
  | none, none => ⟨.misused, [], [], tree⟩

/-- A run with the given arguments. Those that make no sense, or lead to the wrong kind of file, are
misused, and then nothing is done at all. -/
def run (arguments : List Text) (tree : Tree) : Outcome :=
  match Request.ofArguments? arguments with
  | some request => request.run tree
  | none => ⟨.misused, [], [], tree⟩

end StaticStyle.CommandLine
