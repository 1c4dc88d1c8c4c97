import StaticStyle.Defect
import StaticStyle.File.Tree
import StaticStyle.Notice
import StaticStyle.Text.Blank

namespace StaticStyle.CommandLine

open File (Path Tree)

/-- Why a command breaks off where it has no message for its user. -/
inductive Breakdown where
  | file (fault : File.Fault)
  | defect (defect : Defect)
deriving DecidableEq, Repr

/-- How a command ends. -/
inductive Ending where
  | finished
  /-- It has told its user what is wrong. -/
  | failed
  /-- The arguments make no sense. -/
  | misused
  | broken (reason : Breakdown)
deriving DecidableEq, Repr

/-- The number by which the end of a command is known to others. -/
def Ending.code : Ending → Nat
  | finished => 0
  | failed => 1
  | misused => 2
  | broken _ => 1

structure Console where
  tree : Tree
  output : Text
  errors : Text
  /-- Whether notices are shown that are not warnings. -/
  isVerbose : Bool
deriving Repr

/-- A part of the work of a command. It goes on from its result, or ends the command. -/
abbrev Work (α : Type) := ExceptT Ending (StateM Console) α

/-- How many code points from the beginning control a terminal: an escape, a bracket, digits,
semicolons and question marks, and a letter. -/
def controlLength? : Text → Option Nat
  | .char '\x1b' :: .char '[' :: rest =>
    let isParameter (c : CodePoint) : Bool := c.isAsciiDigit || c.isOneOf ";?"
    match rest.span isParameter with
    | (parameters, letter :: _) =>
      if letter.isAsciiLetter then some (parameters.length + 3) else none
    | (_, []) => none
  | _ => none

/-- A text without what controls a terminal. -/
def dropControls : Text → Text
  | [] => []
  | c :: rest =>
    match controlLength? (c :: rest) with
    | some length => dropControls (rest.drop (length - 1))
    | none => c :: dropControls rest
termination_by text => text.length
decreasing_by all_goals simp only [List.length_cons, List.length_drop]; omega

namespace Work

def stop {α : Type} (ending : Ending) : Work α := throw ending

def fail {α : Type} (reason : Breakdown) : Work α := stop (.broken reason)

/-- What can be used without a defect. -/
def usable {α : Type} : Except Defect α → Work α
  | .ok a => pure a
  | .error defect => fail (.defect defect)

/-- Writes a line to the output, unless it holds a surrogate. -/
def say (line : Text) : Work Unit := do
  let line := dropControls line ++ [.char '\n']
  if line.toString?.isNone then fail (.defect .unencodable)
  modify fun console => { console with output := console.output ++ line }

/-- Writes a line to the errors. -/
def complain (line : Text) : Work Unit :=
  modify fun console =>
    { console with errors := console.errors ++ dropControls line ++ [.char '\n'] }

/-- Tells what is wrong, and ends the command. -/
def refuse {α : Type} (message : Text) : Work α := do
  complain message
  stop .failed

/-- Writes the notices that are to be shown to the errors. -/
def log (notices : List Notice) : Work Unit :=
  modify fun console =>
    let shown := notices.filter fun notice => console.isVerbose || notice.isWarning
    { console with errors := console.errors ++ shown.flatMap fun notice => notice.line ++ [.char '\n'] }

def tree : Work Tree := do return (← get).tree

/-- What is done with files, or why it cannot be done. -/
def ofFile {α : Type} : Except File.Fault α → Work α
  | .ok result => pure result
  | .error fault => fail (.file fault)

/-- Changes the files. -/
def change (operation : Tree → Except File.Fault Tree) : Work Unit := do
  let tree ← ofFile (operation (← tree))
  modify fun console => { console with tree }

/-- The text in a file, with its line ends unified. -/
def readText (path : Path) : Work Text := do
  match Text.Utf8.decode? (← ofFile ((← tree).read path)) with
  | some text => return text.unifyLineEnds
  | none => fail (.defect .undecodable)

/-- Writes a text to a file. The file is empty if the text cannot be written. -/
def writeText (path : Path) (text : Text) : Work Unit := do
  match Text.Utf8.encode? text with
  | some content => change (·.write path content)
  | none =>
    change (·.write path [])
    fail (.defect .unencodable)

end Work

end StaticStyle.CommandLine
