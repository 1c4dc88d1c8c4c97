import StaticStyle.Style.Property
import StaticStyle.Style.Rule
import StaticStyle.Style.Selector
import StaticStyle.Style.ThemeReference
import StaticStyle.Value.Display

namespace StaticStyle

mutual
/-- The value with ascending keys in every object that is reached through objects alone. -/
def Value.arranged : Value → Value
  | .object fields => .object (Fields.sorted (arrangedFields fields))
  | value => value

def arrangedFields : List (Text × Value) → List (Text × Value)
  | [] => []
  | (key, value) :: rest => (key, value.arranged) :: arrangedFields rest
end

namespace Style

/-- What keeps a style from being compiled. -/
inductive Misshape where
  | nestedNeedsObject
  | propertyNeedsScalar
  /-- An entry of a call that is no style. -/
  | entryNeedsObject (callee : Text)
  /-- A value that fits its key and cannot be written. -/
  | unwritable
deriving DecidableEq, Repr

/-- A key whose value has the wrong shape for it, or cannot be written. -/
structure InvalidStyle where
  key : Text
  misshape : Misshape
deriving DecidableEq, Repr

namespace InvalidStyle

/-- A value that cannot be written is a defect, for which its key is not blamed. -/
def defect? (invalid : InvalidStyle) : Option Defect :=
  if invalid.misshape = .unwritable then some .oversizedInteger else none

def message (invalid : InvalidStyle) : Text :=
  let blame (complaint : Text) : Text := invalid.key.quoted ++ ": " ++ complaint
  match invalid.misshape with
  | .nestedNeedsObject => blame "a nested selector needs an object value"
  | .propertyNeedsScalar => blame "a property value must be a string, number or boolean"
  | .entryNeedsObject callee => blame (callee ++ " entries must be style objects")
  | .unwritable => Defect.oversizedInteger.message

end InvalidStyle

/-- The findings made on the way to a result, or to the key that ends the compilation. -/
structure Report (α : Type) where
  findings : List Diagnostic
  result : Except InvalidStyle α

namespace Report

variable {α β : Type}

def pure (a : α) : Report α := ⟨[], .ok a⟩

def fail (key : Text) (misshape : Misshape) : Report α := ⟨[], .error ⟨key, misshape⟩⟩

/-- The findings of both, unless the first one ends the compilation. -/
def bind (report : Report α) (next : α → Report β) : Report β :=
  match report.result with
  | .error invalid => ⟨report.findings, .error invalid⟩
  | .ok a => ⟨report.findings ++ (next a).findings, (next a).result⟩

instance : Monad Report where
  pure := pure
  bind := bind

end Report

/-- Whether a key holds a nested rule. -/
def isNested (key : Text) : Bool := (key.head?.map fun c => c.isOneOf "&:@").getD false

/-- Whether a key is an at-rule, which keeps the selector. -/
def isCondition (key : Text) : Bool := key.startsWith [.char '@']

/-- The text of a value, and the finding about it. A number has a unit unless its property has none. -/
def resolveValue (stem property : Text) : Value → Text × List Diagnostic
  | .text t => if t.startsWith themeMarker then resolveReference stem t else (t, [])
  | .int n => ((Value.int n).css ++ if isUnitless property then [] else Text.ofString "px", [])
  | .float x => ((Value.float x).css ++ if isUnitless property then [] else Text.ofString "px", [])
  | value => (value.css, [])

/-- The declarations that an entry stands for, one for each of its properties. -/
def declare (stem key : Text) (value : Value) : Report (List Declaration) :=
  if value.isWritable then
    let resolved := (properties key).map fun property => (property, resolveValue stem property value)
    ⟨resolved.flatMap fun (_, _, findings) => findings,
      .ok (resolved.map fun (property, text, _) => ⟨property, text⟩)⟩
  else .fail key .unwritable

/-- Ascending ranks; declarations of one rank keep their order. -/
def byRank (declarations : List Declaration) : List Declaration :=
  declarations.mergeSort fun a b => cascadeRank a.property ≤ cascadeRank b.property

/-- The declarations of a level and the blocks nested in it. -/
structure Level where
  declarations : List Declaration
  nested : List Block
deriving Repr

/-- The blocks of a level, its own block first. -/
def Level.blocks (level : Level) (selector : Text) : List Block :=
  .declarations selector (byRank level.declarations) :: level.nested

/-- The blocks of a nested level, inside its condition if it has one. -/
def Level.nestedBlocks (level : Level) (selector key : Text) : List Block :=
  if isCondition key then [.conditional key (level.blocks selector)] else level.blocks selector

/-- The selector of the level nested under a key. -/
def innerSelector (selector key : Text) : Text :=
  if isCondition key then selector else nestedSelector selector key

mutual
/-- Compiles what a nested key holds, for the selector of its level. -/
def compileNested (stem selector key : Text) : Value → Report Level
  | .object fields => compileEntries stem selector fields
  | _ => .fail key .nestedNeedsObject

/-- Compiles the entries of a level, in the order they have. -/
def compileEntries (stem selector : Text) : List (Text × Value) → Report Level
  | [] => .pure ⟨[], []⟩
  | (key, value) :: rest =>
    if isNested key then
      (compileNested stem (innerSelector selector key) key value).bind fun inner =>
        (compileEntries stem selector rest).bind fun others =>
          let blocks := inner.nestedBlocks (innerSelector selector key) key
          .pure ⟨others.declarations, blocks ++ others.nested⟩
    else
      match value with
      | .object _ => .fail key .propertyNeedsScalar
      | .null => compileEntries stem selector rest
      | value =>
        (declare stem key value).bind fun declarations =>
          (compileEntries stem selector rest).bind fun others =>
            .pure ⟨declarations ++ others.declarations, others.nested⟩
end

/-- The blocks of a style for a selector. -/
def compileBlocks (stem selector : Text) (style : Fields Value) : Report (List Block) :=
  (compileEntries stem selector (Fields.sorted (arrangedFields style))).bind fun level =>
    .pure (level.blocks selector)

/-- The rule of a style for a class. -/
def compile (stem className identity : Text) (style : Fields Value) : Report Rule :=
  (compileBlocks stem (.char '.' :: className) style).bind fun blocks =>
    let texts := blocks.map Block.css
    .pure ⟨identity, className, texts.headD [], texts.tail⟩

end Style

end StaticStyle
