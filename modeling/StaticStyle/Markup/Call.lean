import StaticStyle.Markup.Survey

namespace StaticStyle.Markup

/-- A call: its span, and the span of its argument text. -/
structure Call where
  start : Nat
  stop : Nat
  argumentStart : Nat
  argumentStop : Nat
deriving DecidableEq, Repr

namespace Call

def argumentText (call : Call) (source : Text) : Text :=
  source.slice call.argumentStart call.argumentStop

/-- Whether a code point in front of a name makes it a part of another name or a member. -/
def continuesName : Option CodePoint → Bool
  | some c => c.isWord || c.isOneOf "$."
  | none => false

/-- The length from the beginning of a name to its opening parenthesis, without it. -/
def openingDistance? (callee text : Text) : Option Nat :=
  (Text.dropLeading? callee text).bind fun rest =>
    let blank := Text.blankLength rest
    if (rest.drop blank).head? = some (.char '(') then some (callee.length + blank) else none

/-- Every occurrence of the name with an opening parenthesis behind it: where it starts and where its
parenthesis is. -/
def candidates (callee : Text) (before : Option CodePoint) (offset : Nat) :
    Text → List (Nat × Nat)
  | [] => []
  | c :: rest =>
    let found := if continuesName before then none else openingDistance? callee (c :: rest)
    match found with
    | some distance =>
      (offset, offset + distance) ::
        candidates callee (some (.char '(')) (offset + distance + 1) (rest.drop distance)
    | none => candidates callee (some c) (offset + 1) rest
termination_by text => text.length

/-- How far in front of a name the keyword of a definition is looked for. -/
def keywordWindow : Nat := 20

/-- Whether the keyword `function` and white space stand in front of an offset, within the window. The
beginning of the window counts as the beginning of a word. -/
def followsKeyword (source : Text) (offset : Nat) : Bool :=
  let window := source.slice (offset - keywordWindow) offset
  let trimmed := Text.dropTrailing CodePoint.isBlank window
  let keyword := Text.ofString "function"
  let before := (trimmed.take (trimmed.length - keyword.length)).getLast?
  Text.endsWith trimmed keyword && !before.any CodePoint.isWord

/-- The call of a candidate that is neither opaque nor a definition, if its parenthesis closes. -/
def ofCandidate? (source : Text) (survey : Survey) (start opening : Nat) : Option Call :=
  if survey.isOpaque start || followsKeyword source start then none
  else
    (Bracket.round.contentLength? (source.drop (opening + 1))).map fun length =>
      ⟨start, opening + 1 + length + 1, opening + 1, opening + 1 + length⟩

end Call

/-- Every call of a function, in source order. -/
def calls (callee source : Text) : List Call :=
  let survey := survey source
  (Call.candidates callee none 0 source).filterMap fun (start, opening) =>
    Call.ofCandidate? source survey start opening

end StaticStyle.Markup
