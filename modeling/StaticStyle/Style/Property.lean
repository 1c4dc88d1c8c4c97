import StaticStyle.Text.Basic

/-!
The properties that the keys of a style stand for, and the order in which they are written. A
shorthand is written before the longhands it covers, because a later declaration would override
them.
-/

namespace StaticStyle.Style

/-- Short keys and the properties that receive their value. -/
def aliases : List (Text × List Text) :=
  ([("m", ["margin"]),
   ("mt", ["marginTop"]),
   ("mr", ["marginRight"]),
   ("mb", ["marginBottom"]),
   ("ml", ["marginLeft"]),
   ("mx", ["marginLeft", "marginRight"]),
   ("my", ["marginTop", "marginBottom"]),
   ("p", ["padding"]),
   ("pt", ["paddingTop"]),
   ("pr", ["paddingRight"]),
   ("pb", ["paddingBottom"]),
   ("pl", ["paddingLeft"]),
   ("px", ["paddingLeft", "paddingRight"]),
   ("py", ["paddingTop", "paddingBottom"]),
   ("bg", ["backgroundColor"])] : List (String × List String)).map fun (key, names) =>
    (Text.ofString key, names.map Text.ofString)

/-- Whether a property is a custom one, whose name is never changed. -/
def isCustom (property : Text) : Bool := property.startsWith "--"

/-- A name with capital letters written in kebab case. -/
def kebabCase (name : Text) : Text :=
  if isCustom name then name
  else name.flatMap fun c => if c.isAsciiUpper then [.char '-', c.toAsciiLower] else [c]

/-- The properties that a key stands for. -/
def properties (key : Text) : List Text :=
  match aliases.lookup key with
  | some names => names.map kebabCase
  | none => [kebabCase key]

def unitlessProperties : List Text :=
  ["animation-iteration-count", "aspect-ratio", "column-count", "fill-opacity", "flex",
   "flex-grow", "flex-shrink", "font-weight", "grid-column", "grid-row", "line-height", "opacity",
   "order", "orphans", "stroke-opacity", "tab-size", "widows", "z-index", "zoom"].map Text.ofString

/-- Whether a number is the value of a property without a unit. -/
def isUnitless (property : Text) : Bool :=
  unitlessProperties.contains property || isCustom property

/-- Shorthands that set properties of several others, some of which are shorthands themselves. -/
def broadShorthands : List Text :=
  ["animation", "background", "border", "border-block", "border-image", "border-inline",
   "border-radius", "column-rule", "columns", "container", "flex", "flex-flow", "font", "gap",
   "grid", "inset", "list-style", "margin", "mask", "offset", "outline", "overflow", "padding",
   "place-content", "place-items", "place-self", "scroll-margin", "scroll-padding",
   "text-decoration", "text-emphasis", "transition"].map Text.ofString

/-- Shorthands that a broad one covers. -/
def narrowShorthands : List Text :=
  ["border-block-end", "border-block-start", "border-bottom", "border-color", "border-inline-end",
   "border-inline-start", "border-left", "border-right", "border-style", "border-top",
   "border-width", "font-variant", "grid-area", "grid-template", "inset-block", "inset-inline",
   "margin-block", "margin-inline", "padding-block", "padding-inline", "scroll-margin-block",
   "scroll-margin-inline", "scroll-padding-block", "scroll-padding-inline"].map Text.ofString

/-- Shorthands that a narrow one covers. -/
def narrowestShorthands : List Text := ["grid-column", "grid-row"].map Text.ofString

/-- A name without a vendor's mark in front. -/
def withoutVendor (property : Text) : Text :=
  let rest := ["-webkit-", "-moz-", "-ms-", "-o-"].findSome? fun vendor =>
    Text.dropLeading? (Text.ofString vendor) property
  rest.getD property

/-- How many shorthands may cover a listed shorthand. -/
def shorthandDepth? (property : Text) : Option Nat :=
  if property = Text.ofString "all" then some 0
  else if broadShorthands.contains property then some 1
  else if narrowShorthands.contains property then some 2
  else if narrowestShorthands.contains property then some 3
  else none

def longhandDepth : Nat := 4

/-- The rank by which the declarations of a block are ordered. -/
def cascadeRank (property : Text) : Nat :=
  (shorthandDepth? (withoutVendor property)).getD longhandDepth

end StaticStyle.Style
