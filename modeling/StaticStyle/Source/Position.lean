import StaticStyle.Text.Basic

namespace StaticStyle

structure Position where
  line : Nat
  column : Nat
deriving DecidableEq, Repr

namespace Position

/-- The position behind one more code point. -/
def next (position : Position) (c : CodePoint) : Position :=
  if c.isLineFeed then ⟨position.line + 1, 1⟩ else ⟨position.line, position.column + 1⟩

/-- The position behind a text that begins at a position. -/
def after (position : Position) (text : Text) : Position := text.foldl next position

/-- The position of an offset. Offsets past the end count on in the last line. -/
def ofOffset (source : Text) (offset : Nat) : Position :=
  let before := source.take offset
  { line := before.countP CodePoint.isLineFeed + 1
    column := (Text.afterLast '\n' before).length + (offset - source.length) + 1 }

end Position

end StaticStyle
