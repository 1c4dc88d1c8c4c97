import StaticStyle.Expression.Token

/-!
Parsing of expressions. Constructs that wait for a further part are kept on a stack, and each token
either continues the innermost one or cannot follow. All operators between two operands bind alike
and to the left; a conditional takes everything behind its colon.
-/

namespace StaticStyle.Expression

/-- A construct that waits for its next part. -/
inductive Frame where
  | unary (operator : Text) (span : Span)
  | binary (left : Node) (operator : Text)
  | test (test : Node)
  | alternative (test consequent : Node)
  | group
  | index (target : Node)
  | call (callee : Node) (arguments : List Node)
  | array (opening : Span) (items : List Node)
  | object (opening : Span) (entries : List Node)
  | propertyValue (key : Node)
  | computedKey (opening : Span)
  | computedValue (opening : Span) (key : Node)
  | spread (ellipsis : Span)
deriving Repr

/-- What may come next. -/
inductive Phase where
  | operand
  /-- An operand is complete, and what follows may extend it or use it. -/
  | extension (node : Node)
  | memberName (target : Node)
  | entry
  /-- Behind the key of an entry. Only a name may be an entry by itself. -/
  | key (key : Node) (shorthand : Option Node)
  | computedKey (opening : Span) (key : Node)
deriving Repr

abbrev Stack := List Frame

/-- Completes the operators that a further operator between two operands ends. -/
def reduce : Stack → Node → Stack × Node
  | .unary operator span :: rest, node =>
    reduce rest (.unary (span.through node.span) operator node)
  | .binary left operator :: rest, node =>
    reduce rest (.binary (left.span.through node.span) operator left node)
  | stack, node => (stack, node)

/-- Completes everything that the end of an expression ends: operators, conditionals, and the spread
or entry that the expression is the last part of. -/
def settle : Stack → Node → Stack × Node
  | .unary operator span :: rest, node =>
    settle rest (.unary (span.through node.span) operator node)
  | .binary left operator :: rest, node =>
    settle rest (.binary (left.span.through node.span) operator left node)
  | .alternative test consequent :: rest, node =>
    settle rest (.conditional (test.span.through node.span) test consequent node)
  | .spread ellipsis :: rest, node => settle rest (.spread (ellipsis.through node.span) node)
  | .propertyValue key :: rest, node =>
    settle rest (.property (key.span.through node.span) key node)
  | .computedValue opening key :: rest, node =>
    settle rest (.computedProperty (opening.through node.span) key node)
  | stack, node => (stack, node)

/-- A name that is a literal, or the name itself. -/
def ofName (span : Span) (name : Text) : Node :=
  if name = Text.ofString "true" then .boolean span true
  else if name = Text.ofString "false" then .boolean span false
  else if name = Text.ofString "null" then .null span
  else .identifier span name

/-- A string literal. The parser refuses a text with a string that denotes nothing. -/
def ofString (span : Span) (raw : Text) : Node :=
  .string span ((decodeString raw).toOption.getD [])

def ofNumber (span : Span) (raw : Text) : Node :=
  .number span ((decodeNumber? raw).getD (.whole 0))

def ofTemplate (span : Span) (raw : Text) : Node := .template span (raw.drop 1).dropLast

/-- A token in front of or instead of an operand. An empty list, or a comma before the end of one,
lets its bracket close. -/
def beginOperand (stack : Stack) (token : Token) : Option (Stack × Phase) :=
  let span := token.span
  match token.lexeme, stack with
  | .string raw, _ => some (stack, .extension (ofString span raw))
  | .number raw, _ => some (stack, .extension (ofNumber span raw))
  | .template raw, _ => some (stack, .extension (ofTemplate span raw))
  | .name name, _ =>
    if name = Text.ofString "typeof" then some (.unary name span :: stack, .operand)
    else some (stack, .extension (ofName span name))
  | .sign symbol, _ => some (.unary symbol span :: stack, .operand)
  | .exclamation, _ => some (.unary "!" span :: stack, .operand)
  | .opening .round, _ => some (.group :: stack, .operand)
  | .opening .square, _ => some (.array span [] :: stack, .operand)
  | .opening .curly, _ => some (.object span [] :: stack, .entry)
  | .ellipsis, .array .. :: _ => some (.spread span :: stack, .operand)
  | .ellipsis, .call .. :: _ => some (.spread span :: stack, .operand)
  | .closing .square, .array opening items :: rest =>
    some (rest, .extension (.array (opening.through span) items))
  | .closing .round, .call callee arguments :: rest =>
    some (rest, .extension (.call (callee.span.through span) callee arguments))
  | _, _ => none

/-- A closing bracket or a comma behind an expression. -/
def endExpression (stack : Stack) (node : Node) (token : Token) : Option (Stack × Phase) :=
  let span := token.span
  match token.lexeme, settle stack node with
  | .colon, (.test test :: rest, node) => some (.alternative test node :: rest, .operand)
  | .comma, (.array opening items :: rest, node) =>
    some (.array opening (items ++ [node]) :: rest, .operand)
  | .comma, (.call callee arguments :: rest, node) =>
    some (.call callee (arguments ++ [node]) :: rest, .operand)
  | .comma, (.object opening entries :: rest, node) =>
    some (.object opening (entries ++ [node]) :: rest, .entry)
  | .closing .round, (.group :: rest, node) => some (rest, .extension node)
  | .closing .round, (.call callee arguments :: rest, node) =>
    some (rest, .extension (.call (callee.span.through span) callee (arguments ++ [node])))
  | .closing .square, (.index target :: rest, node) =>
    some (rest, .extension (.index (target.span.through span) target node))
  | .closing .square, (.array opening items :: rest, node) =>
    some (rest, .extension (.array (opening.through span) (items ++ [node])))
  | .closing .square, (.computedKey opening :: rest, node) =>
    some (rest, .computedKey opening node)
  | .closing .curly, (.object opening entries :: rest, node) =>
    some (rest, .extension (.object (opening.through span) (entries ++ [node])))
  | _, _ => none

/-- A token behind a complete operand. -/
def extend (stack : Stack) (node : Node) (token : Token) : Option (Stack × Phase) :=
  let joining (symbol : Text) : Option (Stack × Phase) :=
    let (rest, left) := reduce stack node
    some (.binary left symbol :: rest, .operand)
  match token.lexeme with
  | .sign symbol => joining symbol
  | .operator symbol => joining symbol
  | .question =>
    let (rest, test) := reduce stack node
    some (.test test :: rest, .operand)
  | .dot => some (stack, .memberName node)
  | .opening .square => some (.index node :: stack, .operand)
  | .opening .round => some (.call node [] :: stack, .operand)
  | .template raw =>
    let quasi := ofTemplate token.span raw
    some (stack, .extension (.taggedTemplate (node.span.through token.span) node quasi))
  | _ => endExpression stack node token

/-- A token where an entry of an object may begin. -/
def beginEntry (stack : Stack) (token : Token) : Option (Stack × Phase) :=
  let span := token.span
  match token.lexeme, stack with
  | .name name, _ => some (stack, .key (.identifier span name) (some (.shorthand span name)))
  | .string raw, _ => some (stack, .key (ofString span raw) none)
  | .number raw, _ => some (stack, .key (ofNumber span raw) none)
  | .opening .square, _ => some (.computedKey span :: stack, .operand)
  | .ellipsis, _ => some (.spread span :: stack, .operand)
  | .closing .curly, .object opening entries :: rest =>
    some (rest, .extension (.object (opening.through span) entries))
  | _, _ => none

/-- A token behind the key of an entry. -/
def endKey (stack : Stack) (key : Node) (shorthand : Option Node) (token : Token) :
    Option (Stack × Phase) :=
  match token.lexeme, shorthand, stack with
  | .colon, _, _ => some (.propertyValue key :: stack, .operand)
  | .comma, some entry, .object opening entries :: rest =>
    some (.object opening (entries ++ [entry]) :: rest, .entry)
  | .closing .curly, some entry, .object opening entries :: rest =>
    some (rest, .extension (.object (opening.through token.span) (entries ++ [entry])))
  | _, _, _ => none

/-- Takes one token, unless it cannot follow. -/
def step (stack : Stack) (phase : Phase) (token : Token) : Option (Stack × Phase) :=
  match phase with
  | .operand => beginOperand stack token
  | .extension node => extend stack node token
  | .memberName target =>
    match token.lexeme with
    | .name name =>
      let member := .member (target.span.through token.span) target (.identifier token.span name)
      some (stack, .extension member)
    | _ => none
  | .entry => beginEntry stack token
  | .key key shorthand => endKey stack key shorthand token
  | .computedKey opening key =>
    match token.lexeme with
    | .colon => some (.computedValue opening key :: stack, .operand)
    | _ => none

/-- Takes tokens up to the end. The error is the position of the first token that cannot follow, or
of the last token if the text ends too early. -/
def parseTokens (last : Position) (stack : Stack) (phase : Phase) :
    List Token → Except Position Node
  | [] =>
    match phase with
    | .extension node =>
      match settle stack node with
      | ([], node) => .ok node
      | _ => .error last
    | _ => .error last
  | token :: rest =>
    match step stack phase token with
    | some (stack, phase) => parseTokens token.span.position stack phase rest
    | none => .error token.span.position

/-- Why a text is no expression. -/
inductive ParseFault where
  /-- No expression goes on as the text does at a position. -/
  | unexpected (position : Position)
  /-- An escape in a string denotes no code point. -/
  | outOfRange (escape : OutOfRange)
deriving DecidableEq, Repr

def ParseFault.message : ParseFault → Text
  | unexpected _ => "Cannot parse expression"
  | outOfRange _ => "An escape denotes no code point"

/-- The first escape without a code point in any string. -/
def firstOutOfRange : List Token → Option OutOfRange
  | [] => none
  | token :: rest =>
    match token.lexeme with
    | .string raw =>
      match decodeString raw with
      | .error escape => some escape
      | .ok _ => firstOutOfRange rest
    | _ => firstOutOfRange rest

/-- The tree of an expression that begins at a place. -/
def parse (source : Text) (start : Place) : Except ParseFault Node :=
  let found := tokens .operand start source
  match parseTokens start.position [] .operand found with
  | .error position => .error (.unexpected position)
  | .ok node =>
    match firstOutOfRange found with
    | some escape => .error (.outOfRange escape)
    | none => .ok node

end StaticStyle.Expression
