import StaticStyle.Text.Basic

/-!
Paths as they are written, and what they name without a look at any file. Single dots and repeated
slashes have no meaning in a path; a double dot has one that only a tree of files can tell, so it
stays.
-/

namespace StaticStyle.File

structure Path where
  /-- The slashes at the beginning: none, one, or two. A path with two of them is not one with one,
  and more than two count as one. -/
  root : Text
  /-- The names from the beginning to what the path names. -/
  names : List Text
deriving DecidableEq, Repr

namespace Path

def ofText (text : Text) : Path :=
  let slashes := text.takeWhile (· == .char '/')
  let isMeaningful (name : Text) : Bool := !name.isEmpty && name != Text.ofString "."
  ⟨if slashes.length = 2 then slashes else slashes.take 1,
    (Text.split '/' text).filter isMeaningful⟩

def isRooted (path : Path) : Bool := !path.root.isEmpty

/-- A path in its shortest form. -/
def text (path : Path) : Text :=
  if path.root.isEmpty && path.names.isEmpty then "." else path.root ++ Text.join "/" path.names

/-- A path that starts where another one ends, unless it has a root of its own. -/
def append (base path : Path) : Path :=
  if path.isRooted then path else { base with names := base.names ++ path.names }

/-- What lies below a path. -/
def below (base : Path) (names : List Text) : Path := { base with names := base.names ++ names }

/-- A path without its last name. -/
def parent (path : Path) : Path := { path with names := path.names.dropLast }

/-- The last name, empty if there is none. -/
def name (path : Path) : Text := path.names.getLastD []

end Path

/-- The part of a name from its last dot on. A dot at the beginning or the end of a name begins no
such part. -/
def nameEnding (name : Text) : Text :=
  let tail := Text.afterLast '.' name
  if tail.isEmpty || name.length ≤ tail.length + 1 then [] else .char '.' :: tail

/-- The names that remain when each double dot takes away the name in front of it. -/
def settle (names : List Text) : List Text :=
  names.foldl (fun settled name =>
    if name = Text.ofString ".." then settled.dropLast else settled ++ [name]) []

/-- The way from one directory to another place, both given by their names from the root. -/
def way : (start goal : List Text) → List Text
  | a :: start, b :: goal =>
    if a = b then way start goal else Text.ofString ".." :: start.map (fun _ => "..") ++ b :: goal
  | start, goal => start.map (fun _ => Text.ofString "..") ++ goal

/-- A path that leads from one directory to another place, found without a look at any file. Paths
without a root start at a directory that is given by its names. -/
def relativePath (here : List Text) (start goal : Path) : Path :=
  let settled (path : Path) : List Text :=
    settle (if path.isRooted then path.names else here ++ path.names)
  ⟨[], way (settled start) (settled goal)⟩

/-- The order of names from the first that differs on. A path comes before those below it. -/
def namesLe : List Text → List Text → Bool
  | [], _ => true
  | _ :: _, [] => false
  | a :: first, b :: second => if a = b then namesLe first second else Text.le a b

end StaticStyle.File
