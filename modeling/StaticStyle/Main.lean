import StaticStyle.CommandLine.Run

namespace StaticStyle.Program

open File (Entry Location Path Tree)

def stringOf (text : Text) : String := text.toString?.getD ""

def pathOf (location : Location) : String := stringOf ("/" ++ Text.join "/" location)

/-- Adds what is at a location, and for a directory what is below it down to a number of levels. -/
def readEntry (levels : Nat) (location : Location) (tree : Tree) : IO Tree := do
  if location = File.sinkLocation then return tree.put location .sink
  let path := (← IO.currentDir) / pathOf location
  match ← path.readDir.toBaseIO with
  | .ok entries =>
    let tree := tree.put location .directory
    match levels with
    | 0 => return tree
    | levels + 1 =>
      entries.toList.foldlM (fun tree entry =>
        readEntry levels (location ++ [Text.ofString entry.fileName]) tree) tree
  | .error _ =>
    match ← (IO.FS.readBinFile path).toBaseIO with
    | .ok content => return tree.put location (.file content.data.toList)
    | .error _ => return tree

/-- The most levels of directories that are read. -/
def deepest : Nat := 1000

/-- Adds what is on the way along a path, and what is at its end. -/
def readPath (tree : Tree) (path : Path) : IO Tree := do
  let start := tree.start path.isRooted
  let location (count : Nat) : Location := File.settle (start ++ path.names.take count)
  let tree ← (List.range path.names.length).foldlM (fun tree count =>
    readEntry 0 (location count) tree) tree
  readEntry deepest (location path.names.length) tree

/-- The files that a job can read or write. -/
def readTree (job : CommandLine.Job) : IO Tree := do
  let here := (Path.ofText (Text.ofString (← IO.currentDir).toString)).names
  let ancestors := (List.range here.length).map fun count => (here.take (count + 1), .directory)
  job.paths.foldlM readPath ⟨here, ancestors⟩

/-- Writes what is new or different. -/
def writeTree (before after : Tree) : IO Unit := do
  for (location, entry) in after.entries do
    if before.entry? location ≠ some entry then
      match entry with
      | .directory => IO.FS.createDirAll (pathOf location)
      | .sink => pure ()
      | .file content => IO.FS.writeBinFile (pathOf location) ⟨content.toArray⟩

/-- What is said about a run that breaks off. -/
def breakdownMessage : CommandLine.Breakdown → String
  | .file .missing => "No such file or directory"
  | .file .notDirectory => "Not a directory"
  | .file .isDirectory => "Is a directory"
  | .file .alreadyThere => "File exists"
  | .file .sameFile => "A file cannot be copied to itself"
  | .file .tooLong => "File name too long"
  | .file .holdsNul => "A path holds a NUL"
  | .file .unencodable => "A path holds a surrogate"
  | .defect defect => stringOf defect.message

end StaticStyle.Program

open StaticStyle in
def main (arguments : List String) : IO UInt32 := do
  let arguments := arguments.map Text.ofString
  let request := CommandLine.Request.ofArguments? arguments
  let before ← Program.readTree ((request.bind (·.job?)).getD (.help none))
  let outcome := CommandLine.run arguments before
  Program.writeTree before outcome.tree
  IO.print (Program.stringOf outcome.output)
  IO.eprint (Program.stringOf outcome.errors)
  match outcome.ending with
  | .broken reason => IO.eprintln (Program.breakdownMessage reason)
  | .misused => IO.eprintln (Program.stringOf CommandLine.commonHelp)
  | _ => pure ()
  return UInt32.ofNat outcome.ending.code
