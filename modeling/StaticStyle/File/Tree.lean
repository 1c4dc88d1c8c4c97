import StaticStyle.File.Path
import StaticStyle.Text.Utf8

namespace StaticStyle.File

/-- The names from the root of a tree down to a file or a directory. -/
abbrev Location := List Text

inductive Entry where
  | directory
  | file (content : Bytes)
  /-- What reads as empty, and keeps nothing that is written to it. -/
  | sink
deriving DecidableEq, Repr

def Entry.isFile : Entry → Bool
  | .file _ => true
  | _ => false

structure Tree where
  /-- The directory at which paths without a root start. -/
  here : Location
  entries : List (Location × Entry)
deriving Repr

/-- Where systems of files keep their sink. -/
def sinkLocation : Location := ["dev", "null"]

/-- Why something cannot be done with a path. -/
inductive Fault where
  | missing
  | notDirectory
  | isDirectory
  | alreadyThere
  | sameFile
  /-- A name, or a path as a whole, takes more bytes than one may. -/
  | tooLong
  /-- A path holds a NUL, behind which no name goes on. -/
  | holdsNul
  /-- A path holds a surrogate that stands for no byte. -/
  | unencodable
deriving DecidableEq, Repr

/-- The bytes that a code point takes in a path. The surrogates from U+DC80 to U+DCFF stand for single
bytes that are no text. -/
def byteWidth? : CodePoint → Option Nat
  | .char c => some c.utf8Size
  | .surrogate index => if 0x480 ≤ index.val ∧ index.val < 0x500 then some 1 else none

/-- The bytes that a name or a path takes. -/
def byteWidth (text : Text) : Nat := text.foldl (fun width c => width + (byteWidth? c).getD 0) 0

/-- The most bytes that a name takes. -/
def nameLimit : Nat := 255

/-- The most bytes that a path takes, with its slashes and all that has no meaning in it. -/
def pathLimit : Nat := 4095

/-- Why a path leads nowhere, whatever a tree holds. -/
def pathFault? (path : Text) : Option Fault :=
  if path.any fun c => (byteWidth? c).isNone then some .unencodable
  else if path.contains (.char '\x00') then some .holdsNul
  else if pathLimit < byteWidth path then some .tooLong
  else none

/-- Refuses a path that leads nowhere, whatever a tree holds. -/
def Path.accept (path : Path) : Except Fault Unit :=
  match pathFault? path.text with
  | some fault => .error fault
  | none => .ok ()

namespace Tree

/-- What is at a location. The root is always a directory. -/
def entry? (tree : Tree) (location : Location) : Option Entry :=
  if location = [] then some .directory else tree.entries.lookup location

def putEntry (location : Location) (entry : Entry) :
    List (Location × Entry) → List (Location × Entry)
  | [] => [(location, entry)]
  | (other, old) :: rest =>
    if other = location then (location, entry) :: rest
    else (other, old) :: putEntry location entry rest

/-- The tree with another entry at a location. -/
def put (tree : Tree) (location : Location) (entry : Entry) : Tree :=
  { tree with entries := putEntry location entry tree.entries }

/-- The location that names lead to from another one. It need not be in the tree, but what a name is
looked for in has to be a directory. -/
def follow (tree : Tree) (location : Location) : List Text → Except Fault Location
  | [] => .ok location
  | name :: rest =>
    match tree.entry? location with
    | none => .error .missing
    | some (.file _) | some .sink => .error .notDirectory
    | some .directory =>
      if name.isEmpty || name == Text.ofString "." then follow tree location rest
      else if name = Text.ofString ".." then follow tree location.dropLast rest
      else if nameLimit < byteWidth name then .error .tooLong
      else follow tree (location ++ [name]) rest

/-- Where a path begins. -/
def start (tree : Tree) (isRooted : Bool) : Location := if isRooted then [] else tree.here

def locate (tree : Tree) (path : Path) : Except Fault Location :=
  match path.accept with
  | .error fault => .error fault
  | .ok () => tree.follow (tree.start path.isRooted) path.names

/-- What a path leads to. -/
def find? (tree : Tree) (path : Path) : Option Entry :=
  match tree.locate path with
  | .ok location => tree.entry? location
  | .error _ => none

/-- What a path leads to that is taken as it is written: what stands in front of a slash has to be a
directory, at the end of the path too, and an empty or too long path leads to nothing. -/
def findWritten (tree : Tree) (text : Text) : Except Fault (Option Entry) :=
  match pathFault? text with
  | some .tooLong => .ok none
  | some fault => .error fault
  | none =>
    if text.isEmpty then .ok none
    else
      match tree.follow (tree.start (text.head? == some (.char '/'))) (Text.split '/' text) with
      | .ok location => .ok (tree.entry? location)
      | .error _ => .ok none

def isFile (tree : Tree) (path : Path) : Bool := (tree.find? path).any Entry.isFile

def isDirectory (tree : Tree) (path : Path) : Bool := tree.find? path == some .directory

/-- The content of a file. -/
def read (tree : Tree) (path : Path) : Except Fault Bytes :=
  match tree.locate path with
  | .error fault => .error fault
  | .ok location =>
    match tree.entry? location with
    | none => .error .missing
    | some .directory => .error .isDirectory
    | some .sink => .ok []
    | some (.file content) => .ok content

/-- Writes a file in a directory that is there. -/
def write (tree : Tree) (path : Path) (content : Bytes) : Except Fault Tree :=
  match tree.locate path with
  | .error fault => .error fault
  | .ok location =>
    match tree.entry? location with
    | some .directory => .error .isDirectory
    | some .sink => .ok tree
    | _ => .ok (tree.put location (.file content))

/-- Makes a directory in one that is there. -/
def makeDirectory (tree : Tree) (path : Path) : Except Fault Tree :=
  match tree.locate path with
  | .error fault => .error fault
  | .ok location =>
    if (tree.entry? location).isSome then .error .alreadyThere
    else .ok (tree.put location .directory)

/-- Makes a directory unless it is there. -/
def allowDirectory (tree : Tree) (path : Path) : Except Fault Tree :=
  match tree.makeDirectory path with
  | .ok tree => .ok tree
  | .error fault => if tree.isDirectory path then .ok tree else .error fault

/-- Makes a directory and those that it lies in, unless they are there. -/
def ensureDirectory (tree : Tree) (path : Path) : Except Fault Tree :=
  match tree.makeDirectory path with
  | .ok tree => .ok tree
  | .error .missing =>
    if path.names = [] then .error .missing
    else
      match ensureDirectory tree path.parent with
      | .ok tree => tree.allowDirectory path
      | .error fault => .error fault
  | .error fault => if tree.isDirectory path then .ok tree else .error fault
termination_by path.names.length
decreasing_by
  have := List.length_pos_iff.mpr ‹¬path.names = []›
  simp only [Path.parent, List.length_dropLast]
  omega

/-- Whether two paths lead to the same location. -/
def leadTogether (tree : Tree) (first second : Path) : Bool :=
  match tree.locate first, tree.locate second with
  | .ok first, .ok second => first == second
  | _, _ => false

/-- Copies a file to a path, or into the directory that it leads to. -/
def copy (tree : Tree) (source target : Path) : Except Fault Tree :=
  let target := if tree.isDirectory target then target.below [source.name] else target
  match tree.read source with
  | .error fault => .error fault
  | .ok content =>
    if tree.leadTogether source target then .error .sameFile else tree.write target content

/-- The names that lead from a location down to the entries below it that are wanted, in ascending
order. -/
def namesBelow (tree : Tree) (location : Location) (isWanted : Entry → Bool) : List (List Text) :=
  let names := tree.entries.filterMap fun (other, entry) =>
    if isWanted entry && location.isPrefixOf other then some (other.drop location.length) else none
  names.mergeSort namesLe

/-- The names that lead from a directory down to the files below it, in ascending order. Each
directory on the way is listed by its path, so none of these may be too long. -/
def filesIn (tree : Tree) (path : Path) : Except Fault (List (List Text)) := do
  let location ← tree.locate path
  (tree.namesBelow location (· == .directory)).forM fun names => (path.below names).accept
  return tree.namesBelow location Entry.isFile

end Tree

end StaticStyle.File
