import StaticStyle.Markup.Survey

namespace StaticStyle.Markup.Tree

/-- A code point of a quoted text or a template in code, or one that a backslash takes with it. -/
inductive Stroke where
  | plain (c : CodePoint)
  | escaped (c : CodePoint)
deriving DecidableEq, Repr

def Stroke.print : Stroke → Text
  | plain c => [c]
  | escaped c => [.char '\\', c]

def Stroke.isValid (mark : CodePoint) : Stroke → Bool
  | plain c => c != mark && c != '\\' && !c.isLineFeed
  | escaped _ => true

mutual
/-- Code from left to right. Names, numbers, blanks and most operators are plain code points. A slash and a `<` are
operators only where they begin no comment and no tag. -/
inductive Code where
  | nil
  | plain (c : CodePoint) (rest : Code)
  | operator (sign : CodePoint) (rest : Code)
  | quoted (mark : CodePoint) (body : List Stroke) (rest : Code)
  | template (content : Template) (rest : Code)
  | lineComment (body : Text) (rest : Code)
  | blockComment (body : Text) (rest : Code)
  | opening (bracket : Bracket) (rest : Code)
  | closing (bracket : Bracket) (rest : Code)
  | node (node : Node) (rest : Code)

/-- The text of a template, and the code between braces in it. -/
inductive Template where
  | text (body : List Stroke)
  | code (body : List Stroke) (code : Code) (rest : Template)

/-- An element, or a fragment. -/
inductive Node where
  | selfClosing (tag : Text) (attributes : Attributes) (space : Text)
  | paired (tag : Text) (attributes : Attributes) (space : Text) (children : Children)
  | fragment (children : Children)

/-- Attributes, each with the gap in front of it. Blanks may stand around an equals sign. -/
inductive Attributes where
  | nil
  | boolean (gap name : Text) (rest : Attributes)
  | quoted (gap name before behind : Text) (mark : CodePoint) (value : Text) (rest : Attributes)
  | expression (gap name before behind : Text) (code : Code) (rest : Attributes)
  | spread (gap : Text) (code : Code) (rest : Attributes)

/-- Children, each with the text in front of it, and the text behind the last one. -/
inductive Children where
  | text (text : Text)
  | node (text : Text) (node : Node) (rest : Children)
  | code (text : Text) (code : Code) (rest : Children)
end

/-- The code of a spread with its dots. -/
def Code.dotted (code : Code) : Code := .plain '.' (.plain '.' (.plain '.' code))

def quotation (mark : CodePoint) (body : List Stroke) : Text :=
  mark :: body.flatMap Stroke.print ++ [mark]

mutual
def Code.print : Code → Text
  | .nil => []
  | .plain c rest | .operator c rest => c :: rest.print
  | .quoted mark body rest => quotation mark body ++ rest.print
  | .template content rest => "\x60" ++ content.print ++ "\x60" ++ rest.print
  | .lineComment body rest => "//" ++ body ++ "\n" ++ rest.print
  | .blockComment body rest => "/*" ++ body ++ "*/" ++ rest.print
  | .opening bracket rest => bracket.opening :: rest.print
  | .closing bracket rest => bracket.closing :: rest.print
  | .node node rest => node.print ++ rest.print

def Template.print : Template → Text
  | .text body => body.flatMap Stroke.print
  | .code body code rest => body.flatMap Stroke.print ++ "$\x7b" ++ code.print ++ "\x7d" ++ rest.print

def Node.print : Node → Text
  | .selfClosing tag attributes space => "<" ++ tag ++ attributes.print ++ space ++ "/>"
  | .paired tag attributes space children =>
    "<" ++ tag ++ attributes.print ++ space ++ ">" ++ children.print ++ "</" ++ tag ++ ">"
  | .fragment children => "<>" ++ children.print ++ "</>"

def Attributes.print : Attributes → Text
  | .nil => []
  | .boolean gap name rest => gap ++ name ++ rest.print
  | .quoted gap name before behind mark value rest =>
    gap ++ name ++ before ++ "=" ++ behind ++ [mark] ++ value ++ [mark] ++ rest.print
  | .expression gap name before behind code rest =>
    gap ++ name ++ before ++ "=" ++ behind ++ "\x7b" ++ code.print ++ "\x7d" ++ rest.print
  | .spread gap code rest => gap ++ "\x7b..." ++ code.print ++ "\x7d" ++ rest.print

def Children.print : Children → Text
  | .text text => text
  | .node text node rest => text ++ node.print ++ rest.print
  | .code text code rest => text ++ "\x7b" ++ code.print ++ "\x7d" ++ rest.print
end

theorem Code.stop_template (content : Template) (rest : Code) (offset : Nat) :
    offset + (Code.template content rest).print.length = offset + content.print.length + 2 + rest.print.length := by
  simp [print, Text.ofString]
  omega

theorem Code.stop_lineComment (body : Text) (rest : Code) (offset : Nat) :
    offset + (Code.lineComment body rest).print.length = offset + body.length + 3 + rest.print.length := by
  simp [print, Text.ofString]
  omega

theorem Code.stop_blockComment (body : Text) (rest : Code) (offset : Nat) :
    offset + (Code.blockComment body rest).print.length = offset + body.length + 4 + rest.print.length := by
  simp [print, Text.ofString]
  omega

theorem Template.stop_code (body : List Stroke) (code : Code) (rest : Template) (offset : Nat) :
    offset + (Template.code body code rest).print.length =
      offset + (body.flatMap Stroke.print).length + 2 + code.print.length + 1 + rest.print.length := by
  simp [print, Text.ofString]
  omega

theorem Node.stop_selfClosing (tag : Text) (attributes : Attributes) (space : Text) (offset : Nat) :
    offset + (Node.selfClosing tag attributes space).print.length =
      offset + 1 + tag.length + attributes.print.length + space.length + 2 := by
  simp [print, Text.ofString]
  omega

theorem Node.stop_paired (tag : Text) (attributes : Attributes) (space : Text) (children : Children) (offset : Nat) :
    offset + (Node.paired tag attributes space children).print.length =
      offset + 1 + tag.length + attributes.print.length + space.length + 1 + children.print.length +
        (tag.length + 3) := by
  simp [print, Text.ofString]
  omega

theorem Node.stop_fragment (children : Children) (offset : Nat) :
    offset + (Node.fragment children).print.length = offset + 2 + children.print.length + 3 := by
  simp [print, Text.ofString]
  omega

theorem Attributes.stop_boolean (gap name : Text) (rest : Attributes) (offset : Nat) :
    offset + (Attributes.boolean gap name rest).print.length =
      offset + gap.length + name.length + rest.print.length := by
  simp [print]
  omega

theorem Attributes.stop_quoted (gap name before behind : Text) (mark : CodePoint) (value : Text) (rest : Attributes)
    (offset : Nat) :
    offset + (Attributes.quoted gap name before behind mark value rest).print.length =
      offset + gap.length + name.length + before.length + 1 + behind.length + value.length + 2 +
        rest.print.length := by
  simp [print, Text.ofString]
  omega

theorem Attributes.stop_expression (gap name before behind : Text) (code : Code) (rest : Attributes) (offset : Nat) :
    offset + (Attributes.expression gap name before behind code rest).print.length =
      offset + gap.length + name.length + before.length + 1 + behind.length + 1 + code.print.length + 1 +
        rest.print.length := by
  simp [print, Text.ofString]
  omega

theorem Attributes.stop_spread (gap : Text) (code : Code) (rest : Attributes) (offset : Nat) :
    offset + (Attributes.spread gap code rest).print.length =
      offset + gap.length + 4 + code.print.length + 1 + rest.print.length := by
  simp [print, Text.ofString]
  omega

theorem Children.stop_node (text : Text) (node : Node) (rest : Children) (offset : Nat) :
    offset + (Children.node text node rest).print.length =
      offset + text.length + node.print.length + rest.print.length := by
  simp [print]
  omega

theorem Children.stop_code (text : Text) (code : Code) (rest : Children) (offset : Nat) :
    offset + (Children.code text code rest).print.length =
      offset + text.length + 1 + code.print.length + 1 + rest.print.length := by
  simp [print, Text.ofString]
  omega

/-- Whether a code point stands for itself in code, whatever is behind it. -/
def isPlain (c : CodePoint) : Bool :=
  !c.isQuote && c != '\x60' && c != '/' && c != '<' && (Bracket.ofOpening? c).isNone &&
    (Bracket.ofClosing? c).isNone

/-- Whether a slash or a `<` between two code points stands for itself. -/
def isOperator (before : CodePoint) (behind : Option CodePoint) (sign : CodePoint) : Bool :=
  if sign = '/' then behind != some (.char '/') && behind != some (.char '*')
  else sign == '<' && behind != some (.char '>') && (endsOperand before || !behind.any isNameStart)

/-- Whether strokes are the text of a template, in which a dollar sign with a brace behind it begins code. -/
def isTemplateText : List Stroke → Bool
  | [] => true
  | .plain c :: rest =>
    c != '\x60' && c != '\\' && !(c == '$' && rest.head? == some (.plain '\x7b')) && isTemplateText rest
  | .escaped _ :: rest => isTemplateText rest

/-- No code begins inside the text of a template. -/
theorem not_code_of_text {c : CodePoint} {body : List Stroke} {rest : Text}
    (text : (c == '$' && body.head? == some (.plain '\x7b')) = false) (noBrace : rest.head? ≠ some (.char '\x7b')) :
    ¬(c = '$' ∧ (body.flatMap Stroke.print ++ rest).head? = some (.char '\x7b')) := by
  rintro ⟨rfl, head⟩
  match body with
  | [] => exact noBrace head
  | .plain d :: body =>
    obtain rfl : d = .char '\x7b' := Option.some.inj head
    simp at text
  | .escaped d :: body => exact absurd (Option.some.inj head) (by decide)

def isName (isPart : CodePoint → Bool) : Text → Bool
  | [] => false
  | c :: rest => isNameStart c && rest.all isPart

def isGap (gap : Text) : Bool := !gap.isEmpty && gap.all CodePoint.isBlank

/-- Text that the search for a closing bracket passes over as a whole. -/
def isPassedOver (text : Text) : Bool :=
  Bracket.curly.contentLength? (text ++ "<\x7d") == some (text.length + 1)

/-- Text between tags. Inside the value of an attribute, brackets are searched for in it as well. -/
def isText (inValue : Bool) (text : Text) : Bool :=
  text.all (fun c => c != '<' && c != '\x7b') && (!inValue || isPassedOver text)

/-- The value of a quoted attribute. Inside the value of another one, it is read like a quoted text in
code. -/
def isQuotable (inValue : Bool) (mark : CodePoint) (value : Text) : Bool :=
  mark.isQuote && !value.contains mark && (!inValue || isPassedOver (mark :: value ++ [mark]))

/-- The brackets that are open behind code, the innermost first, unless one is closed by another kind. -/
def Code.unclosed (brackets : List Bracket) : Code → Option (List Bracket)
  | .nil => some brackets
  | .plain _ rest | .operator _ rest | .quoted _ _ rest | .template _ rest | .lineComment _ rest
  | .blockComment _ rest | .node _ rest => rest.unclosed brackets
  | .opening bracket rest => rest.unclosed (bracket :: brackets)
  | .closing bracket rest =>
    match brackets with
    | [] => none
    | innermost :: outer => if innermost = bracket then rest.unclosed outer else none

def Code.isBalanced (code : Code) : Bool := code.unclosed [] == some []

mutual
/-- Whether code is written as the scanner reads it, between two code points. Elements stand where no operand ends. -/
def Code.isValid (inValue : Bool) (before : CodePoint) (behind : Option CodePoint) : Code → Bool
  | .nil => true
  | .plain c rest => isPlain c && rest.isValid inValue c behind
  | .operator sign rest =>
    isOperator before (rest.print.head?.or behind) sign && rest.isValid inValue sign behind
  | .quoted mark body rest =>
    mark.isQuote && body.all (Stroke.isValid mark) && rest.isValid inValue mark behind
  | .template content rest => content.isValid inValue && rest.isValid inValue '\x60' behind
  | .lineComment body rest => !body.any CodePoint.isLineFeed && rest.isValid inValue '\n' behind
  | .blockComment body rest => !Text.occursIn "*/" body && rest.isValid inValue '/' behind
  | .opening bracket rest => rest.isValid inValue bracket.opening behind
  | .closing bracket rest => rest.isValid inValue bracket.closing behind
  | .node node rest => !endsOperand before && node.isValid inValue && rest.isValid inValue '>' behind

def Template.isValid (inValue : Bool) : Template → Bool
  | .text body => isTemplateText body
  | .code body code rest =>
    isTemplateText body && code.isValid inValue '\x7b' (some (.char '\x7d')) && code.isBalanced &&
      rest.isValid inValue

def Node.isValid (inValue : Bool) : Node → Bool
  | .selfClosing tag attributes space =>
    isName isTagNamePart tag && attributes.isValid inValue && space.all CodePoint.isBlank
  | .paired tag attributes space children =>
    isName isTagNamePart tag && attributes.isValid inValue && space.all CodePoint.isBlank &&
      children.isValid inValue
  | .fragment children => children.isValid inValue

def Attributes.isValid (inValue : Bool) : Attributes → Bool
  | .nil => true
  | .boolean gap name rest =>
    isGap gap && isName isAttributeNamePart name && rest.isValid inValue
  | .quoted gap name before behind mark value rest =>
    isGap gap && isName isAttributeNamePart name && before.all CodePoint.isBlank &&
      behind.all CodePoint.isBlank && isQuotable inValue mark value && rest.isValid inValue
  | .expression gap name before behind code rest =>
    isGap gap && isName isAttributeNamePart name && before.all CodePoint.isBlank &&
      behind.all CodePoint.isBlank && code.isValid true '\x7b' (some (.char '\x7d')) && code.isBalanced &&
        rest.isValid inValue
  | .spread gap code rest =>
    isGap gap && code.isValid true '.' (some (.char '\x7d')) && code.isBalanced && rest.isValid inValue

def Children.isValid (inValue : Bool) : Children → Bool
  | .text text => isText inValue text
  | .node text node rest =>
    isText inValue text && node.isValid inValue && rest.isValid inValue
  | .code text code rest =>
    isText inValue text && code.isValid inValue '\x7b' (some (.char '\x7d')) && code.isBalanced &&
      rest.isValid inValue
end

mutual
/-- The elements of code in the order of their starts. -/
def Code.openings (offset : Nat) : Code → List Element
  | .nil => []
  | .plain _ rest | .operator _ rest | .opening _ rest | .closing _ rest => rest.openings (offset + 1)
  | .quoted mark body rest => rest.openings (offset + (quotation mark body).length)
  | .template content rest =>
    content.openings (offset + 1) ++ rest.openings (offset + content.print.length + 2)
  | .lineComment body rest => rest.openings (offset + body.length + 3)
  | .blockComment body rest => rest.openings (offset + body.length + 4)
  | .node node rest => node.openings offset ++ rest.openings (offset + node.print.length)

/-- The elements in the code of a template. -/
def Template.openings (offset : Nat) : Template → List Element
  | .text _ => []
  | .code body code rest =>
    let start := offset + (body.flatMap Stroke.print).length + 2
    code.openings start ++ rest.openings (start + code.print.length + 1)

def Node.openings (offset : Nat) : Node → List Element
  | .selfClosing tag attributes space =>
    let inside := offset + 1 + tag.length
    let stop := inside + attributes.print.length + space.length + 2
    ⟨tag, offset, stop, attributes.read inside⟩ :: attributes.openings inside
  | .paired tag attributes space children =>
    let inside := offset + 1 + tag.length
    let stop := inside + attributes.print.length + space.length + 1
    ⟨tag, offset, stop, attributes.read inside⟩ ::
      (attributes.openings inside ++ children.openings stop)
  | .fragment children => children.openings (offset + 2)

/-- The attributes with their kinds and spans. -/
def Attributes.read (offset : Nat) : Attributes → List Attribute
  | .nil => []
  | .boolean gap name rest =>
    let start := offset + gap.length
    let stop := start + name.length
    ⟨name, .boolean, start, stop, stop, stop⟩ :: rest.read stop
  | .quoted gap name before behind _ value rest =>
    let start := offset + gap.length
    let valueStart := start + name.length + before.length + 1 + behind.length
    let stop := valueStart + value.length + 2
    ⟨name, .string, start, stop, valueStart, stop⟩ :: rest.read stop
  | .expression gap name before behind code rest =>
    let start := offset + gap.length
    let valueStart := start + name.length + before.length + 1 + behind.length + 1
    let valueStop := valueStart + code.print.length
    ⟨name, .expression, start, valueStop + 1, valueStart, valueStop⟩ :: rest.read (valueStop + 1)
  | .spread gap code rest =>
    let start := offset + gap.length
    let valueStop := start + 4 + code.print.length
    ⟨"...", .spread, start, valueStop + 1, start + 1, valueStop⟩ :: rest.read (valueStop + 1)

/-- The elements inside the values of attributes. -/
def Attributes.openings (offset : Nat) : Attributes → List Element
  | .nil => []
  | .boolean gap name rest => rest.openings (offset + gap.length + name.length)
  | .quoted gap name before behind _ value rest =>
    rest.openings (offset + gap.length + name.length + before.length + 1 + behind.length +
      value.length + 2)
  | .expression gap name before behind code rest =>
    let valueStart := offset + gap.length + name.length + before.length + 1 + behind.length + 1
    code.openings valueStart ++ rest.openings (valueStart + code.print.length + 1)
  | .spread gap code rest =>
    let valueStart := offset + gap.length + 4
    code.openings valueStart ++ rest.openings (valueStart + code.print.length + 1)

def Children.openings (offset : Nat) : Children → List Element
  | .text _ => []
  | .node text node rest =>
    let start := offset + text.length
    node.openings start ++ rest.openings (start + node.print.length)
  | .code text code rest =>
    let start := offset + text.length + 1
    code.openings start ++ rest.openings (start + code.print.length + 1)
end

end StaticStyle.Markup.Tree
