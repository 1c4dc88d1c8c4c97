import StaticStyle.Markup.Attribute

/-!
A walk over source code with markup in it. It finds the opening elements in code and among the
children of elements, also those inside attribute values, and it notes which ranges are opaque:
strings, the text of templates, comments, and the text between tags.
-/

namespace StaticStyle.Markup

/-- An opening element: its tag name, its span and its attributes. -/
structure Element where
  tag : Text
  start : Nat
  stop : Nat
  attributes : List Attribute
deriving DecidableEq, Repr

/-- The first attribute of a name. -/
def Element.attribute? (element : Element) (name : Text) : Option Attribute :=
  element.attributes.find? (·.name == name)

/-- A range of offsets, without its end. -/
structure Extent where
  start : Nat
  stop : Nat
deriving DecidableEq, Repr

def Extent.contains (extent : Extent) (offset : Nat) : Bool :=
  extent.start ≤ offset && offset < extent.stop

/-- The elements of a source and its opaque ranges. -/
structure Survey where
  elements : List Element
  opaqueExtents : List Extent
deriving DecidableEq, Repr

def Survey.isOpaque (survey : Survey) (offset : Nat) : Bool :=
  survey.opaqueExtents.any fun extent => extent.contains offset

/-- What the walk is inside of. -/
inductive Region where
  /-- Code up to a closing bracket, or up to the end of the source. -/
  | code (closing : Option Bracket)
  | quoted (mark : CodePoint)
  | template
  | lineComment
  | blockComment
  /-- The children of an element or a fragment. -/
  | children
deriving DecidableEq, Repr

def Region.isCode : Region → Bool
  | code _ => true
  | _ => false

/-- A point of the walk: the regions it is inside of, the innermost first, the code point in front, and
the offset. In a region other than code, everything from `since` on is opaque. -/
structure Walker where
  regions : List Region
  since : Nat
  before : Option CodePoint
  offset : Nat
deriving DecidableEq, Repr

/-- A step of the walk over `length` code points: where it leads to, and what it finds. -/
structure Move where
  regions : List Region
  since : Nat
  length : Nat
  marks : List Extent
  element : Option Element
deriving DecidableEq, Repr

/-- A range, unless it is empty. -/
def extent (start stop : Nat) : List Extent := if start < stop then [⟨start, stop⟩] else []

namespace Walker

/-- Passes over code points of the innermost region. -/
def pass (walker : Walker) (length : Nat) : Move :=
  ⟨walker.regions, walker.since, length, [], none⟩

/-- Enters a region whose opaque text begins behind what is passed over. -/
def enter (walker : Walker) (region : Region) (length : Nat) : Move :=
  ⟨region :: walker.regions, walker.offset + length, length, [], none⟩

/-- Enters a region whose opaque text begins here. -/
def enterHere (walker : Walker) (region : Region) (length : Nat) : Move :=
  ⟨region :: walker.regions, walker.offset, length, [], none⟩

/-- Leaves the innermost region behind what is passed over, which is opaque as well. -/
def leave (walker : Walker) (outer : List Region) (length : Nat) : Move :=
  let stop := walker.offset + length
  ⟨outer, stop, length, extent walker.since stop, none⟩

/-- The text of the innermost region ends here. -/
def closeText (walker : Walker) (move : Move) : Move :=
  { move with marks := extent walker.since walker.offset ++ move.marks }

end Walker

def isTagNamePart (c : CodePoint) : Bool := c.isWord || c.isOneOf "$.:-"

/-- Whether a code point in front of `<` makes it a comparison or the beginning of type arguments. -/
def endsOperand : Option CodePoint → Bool
  | some c => c.isAlphanumeric || c.isOneOf "_$)]"
  | none => false

/-- The opening element whose `<` stands at an offset, given the text behind the `<`, and whether it
closes itself. -/
def readElement? (start : Nat) (rest : Text) : Option (Element × Bool) :=
  let tag := leadingName isTagNamePart rest
  if tag.isEmpty then none
  else
    (readTail? (start + 1 + tag.length) (rest.drop tag.length)).map fun tail =>
      (⟨tag, start, tail.stop, tail.attributes⟩, tail.isSelfClosing)

/-- The quoted values of an element, which are opaque. -/
def Element.quotedExtents (element : Element) : List Extent :=
  element.attributes.flatMap fun attr =>
    match attr.kind with
    | .string => extent attr.valueStart attr.valueStop
    | _ => []

/-- The offsets at which the code of the element's values begins. -/
def Element.codeStarts (element : Element) : List Nat :=
  element.attributes.filterMap fun attr =>
    match attr.kind with
    | .expression | .spread => some attr.valueStart
    | _ => none

namespace Walker

/-- The step at a `<` that may open an element. -/
def tag (walker : Walker) (rest : Text) : Move :=
  match rest with
  | .char '>' :: _ => walker.enter .children 2
  | rest =>
    let resume := walker.offset + 1
    if walker.regions.head?.any Region.isCode && endsOperand walker.before then
      { walker.pass 1 with since := resume }
    else
      match readElement? walker.offset rest with
      | none => { walker.pass 1 with since := resume }
      | some (element, isSelfClosing) =>
        let length := element.stop - walker.offset
        let regions := if isSelfClosing then walker.regions else .children :: walker.regions
        ⟨regions, element.stop, length, element.quotedExtents, some element⟩

/-- The step at a `<` among the children of an element. A closing tag that does not end takes the walk
to the end of the source. -/
def childTag (walker : Walker) (outer : List Region) (rest : Text) : Move :=
  match rest with
  | .char '/' :: _ =>
    match Text.indexOf? '>' rest with
    | some distance =>
      let length := distance + 2
      ⟨outer, walker.offset + length, length, [], none⟩
    | none =>
      let length := rest.length + 1
      ⟨[], walker.offset + length, length, [], none⟩
  | rest => walker.tag rest

/-- A backslash takes the next code point with it. -/
def passEscape (walker : Walker) (rest : Text) : Move := walker.pass (1 + min 1 rest.length)

/-- A step in code. -/
def codeStep (walker : Walker) (closing : Option Bracket) (outer : List Region) (c : CodePoint)
    (rest : Text) : Move :=
  if closing.any fun bracket => bracket.closing == c then
    ⟨outer, walker.offset + 1, 1, [], none⟩
  else if c.isQuote then walker.enterHere (.quoted c) 1
  else if c = '\x60' then walker.enterHere .template 1
  else if c = '/' ∧ rest.head? = some (.char '/') then walker.enterHere .lineComment 2
  else if c = '/' ∧ rest.head? = some (.char '*') then walker.enterHere .blockComment 2
  else
    match Bracket.ofOpening? c with
    | some bracket => walker.enter (.code (some bracket)) 1
    | none => if c = '<' then walker.tag rest else walker.pass 1

/-- The step at a code point, given the text behind it. The walk ends where there is none. -/
def step (walker : Walker) (c : CodePoint) (rest : Text) : Option Move :=
  match walker.regions with
  | [] => none
  | .code closing :: outer => some (walker.codeStep closing outer c rest)
  | .quoted mark :: outer =>
    if c = '\\' then some (walker.passEscape rest)
    else if c = mark ∨ c.isLineFeed then some (walker.leave outer 1)
    else some (walker.pass 1)
  | .template :: outer =>
    if c = '\\' then some (walker.passEscape rest)
    else if c = '\x60' then some (walker.leave outer 1)
    else if c = '$' ∧ rest.head? = some (.char '{') then
      some (walker.closeText (walker.enter (.code (some .curly)) 2))
    else some (walker.pass 1)
  | .lineComment :: outer =>
    if c.isLineFeed then some (walker.leave outer 1) else some (walker.pass 1)
  | .blockComment :: outer =>
    if c = '*' ∧ rest.head? = some (.char '/') then some (walker.leave outer 2)
    else some (walker.pass 1)
  | .children :: outer =>
    if c = '{' then some (walker.closeText (walker.enter (.code (some .curly)) 1))
    else if c = '<' then some (walker.closeText (walker.childTag outer rest))
    else some (walker.pass 1)

/-- The opaque text that ends with the source. -/
def finish (walker : Walker) : Survey :=
  match walker.regions with
  | [] | .code _ :: _ => ⟨[], []⟩
  | _ => ⟨[], extent walker.since walker.offset⟩

/-- Walks over a text. Code in the values of an element is walked on its own, each value up to its
closing brace, and the walk goes on behind the opening tag. -/
def walk (walker : Walker) : Text → Survey
  | [] => walker.finish
  | c :: rest =>
    match walker.step c rest with
    | none => ⟨[], []⟩
    | some move =>
      let inside := (move.element.toList.flatMap Element.codeStarts).map fun start =>
        walk ⟨[.code (some .curly)], start, some (.char '{'), start⟩
          (rest.drop (start - walker.offset - 1))
      let before := ((c :: rest).take move.length).getLast?
      let onward := walk ⟨move.regions, move.since, before, walker.offset + move.length⟩
        (rest.drop (move.length - 1))
      ⟨move.element.toList ++ inside.flatMap Survey.elements ++ onward.elements,
        move.marks ++ inside.flatMap Survey.opaqueExtents ++ onward.opaqueExtents⟩
termination_by text => text.length

end Walker

/-- The survey of a whole source. -/
def survey (source : Text) : Survey := Walker.walk ⟨[.code none], 0, none, 0⟩ source

/-- Every opening element of a source, in the order of their starts. -/
def elements (source : Text) : List Element :=
  (survey source).elements.mergeSort fun a b => a.start ≤ b.start

end StaticStyle.Markup
