import StaticStyle.Text.Blank

namespace StaticStyle.Style

/-- Where a position in a selector is: inside a quote, or this many brackets deep. -/
structure SelectorDepth where
  quote : Option CodePoint
  brackets : Int
deriving DecidableEq, Repr

def SelectorDepth.outermost : SelectorDepth := ⟨none, 0⟩

/-- The depth behind one more code point. Only the same mark ends a quote. -/
def SelectorDepth.next (depth : SelectorDepth) (c : CodePoint) : SelectorDepth :=
  match depth.quote with
  | some mark => if c = mark then { depth with quote := none } else depth
  | none =>
    if c.isOneOf "\"\x27" then { depth with quote := some c }
    else if c.isOneOf "([" then { depth with brackets := depth.brackets + 1 }
    else if c.isOneOf ")]" then { depth with brackets := depth.brackets - 1 }
    else depth

/-- The parts of a text between its outermost commas. -/
def commaParts (depth : SelectorDepth) : Text → List Text
  | [] => [[]]
  | c :: rest =>
    if c = ',' ∧ depth = .outermost then [] :: commaParts .outermost rest
    else
      match commaParts (depth.next c) rest with
      | [] => [[c]]
      | part :: parts => (c :: part) :: parts

/-- The selectors of a list, without the blanks around them and without blank ones. -/
def selectors (list : Text) : List Text :=
  ((commaParts .outermost list).map Text.strip).filter fun part => !part.isEmpty

/-- One selector inside another: behind it if it begins with a colon, otherwise with the outer one in
place of every ampersand. -/
def nest (outer inner : Text) : Text :=
  if inner.startsWith [.char ':'] then outer ++ inner else Text.substitute '&' outer inner

/-- Every selector of a key inside every selector of a list. -/
def nestedSelector (outer key : Text) : Text :=
  Text.join ", " ((selectors key).flatMap fun inner => (selectors outer).map fun part =>
    nest part inner)

end StaticStyle.Style
