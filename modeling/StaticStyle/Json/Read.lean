import StaticStyle.Json.Token

namespace StaticStyle.Json

/-- An array or object that has been opened and not closed. -/
inductive Open where
  | array (items : List Value)
  /-- An object with the key whose value comes next. -/
  | object (fields : Fields Value) (key : Text)

/-- What may come next. -/
inductive Expecting where
  | value
  /-- The first item of an array, or its end. -/
  | firstItem
  /-- The first name of an object, or its end. -/
  | firstName (fields : Fields Value)
  | name (fields : Fields Value)
  | colon (fields : Fields Value) (name : Text)
  /-- What follows a complete value. -/
  | afterValue (value : Value)

/-- The fault of a token where a value should begin. -/
def valueFault (token : Token) : Fault :=
  match token.lexeme with
  | .broken _ fault => fault
  | _ => ⟨.expectingValue, token.offset⟩

/-- The fault of a token where a name should begin. -/
def nameFault (token : Token) : Fault :=
  match token.lexeme with
  | .broken true fault => fault
  | _ => ⟨.expectingName, token.offset⟩

/-- The flaw of a text that ends too early. -/
def Expecting.atEnd : List Open → Expecting → Flaw
  | _, .value => .expectingValue
  | _, .firstItem => .expectingValue
  | _, .firstName _ => .expectingName
  | _, .name _ => .expectingName
  | _, .colon _ _ => .expectingColon
  | _, .afterValue _ => .expectingComma

/-- Begins a value with a token. -/
def beginValue (stack : List Open) (token : Token) : Except Fault (List Open × Expecting) :=
  match token.lexeme with
  | .text t => .ok (stack, .afterValue (.text t))
  | .scalar value => .ok (stack, .afterValue value)
  | .opening true => .ok (stack, .firstName [])
  | .opening false => .ok (.array [] :: stack, .firstItem)
  | _ => .error (valueFault token)

def beginName (stack : List Open) (fields : Fields Value) (token : Token) :
    Except Fault (List Open × Expecting) :=
  match token.lexeme with
  | .text name => .ok (stack, .colon fields name)
  | _ => .error (nameFault token)

/-- Takes one token. -/
def step (stack : List Open) (expecting : Expecting) (token : Token) :
    Except Fault (List Open × Expecting) :=
  match expecting, stack, token.lexeme with
  | .value, stack, _ => beginValue stack token
  | .firstItem, .array items :: stack, .closing false => .ok (stack, .afterValue (.list items))
  | .firstItem, stack, _ => beginValue stack token
  | .firstName fields, stack, .closing true => .ok (stack, .afterValue (.object fields))
  | .firstName fields, stack, _ => beginName stack fields token
  | .name fields, stack, _ => beginName stack fields token
  | .colon fields name, stack, .colon => .ok (.object fields name :: stack, .value)
  | .colon _ _, _, _ => .error ⟨.expectingColon, token.offset⟩
  | .afterValue value, .array items :: stack, .comma =>
    .ok (.array (items ++ [value]) :: stack, .value)
  | .afterValue value, .array items :: stack, .closing false =>
    .ok (stack, .afterValue (.list (items ++ [value])))
  | .afterValue value, .object fields key :: stack, .comma =>
    .ok (stack, .name (Fields.put key value fields))
  | .afterValue value, .object fields key :: stack, .closing true =>
    .ok (stack, .afterValue (.object (Fields.put key value fields)))
  | .afterValue _, [], _ => .error ⟨.extraData, token.offset⟩
  | .afterValue _, _ :: _, _ => .error ⟨.expectingComma, token.offset⟩

/-- Takes tokens up to the end of the text, which is at offset `length`. -/
def readTokens (length : Nat) (stack : List Open) (expecting : Expecting) :
    List Token → Except Fault Value
  | [] =>
    match expecting, stack with
    | .afterValue value, [] => .ok value
    | expecting, stack => .error ⟨expecting.atEnd stack, length⟩
  | token :: rest =>
    match step stack expecting token with
    | .error fault => .error fault
    | .ok (stack, expecting) => readTokens length stack expecting rest

/-- The value that a JSON text denotes. Of equal keys in an object the last one counts. -/
def read (text : Text) : Except Fault Value :=
  match text with
  | c :: _ =>
    if c.toNat = 0xFEFF then .error ⟨.byteOrderMark, 0⟩
    else readTokens text.length [] .value (tokens 0 text)
  | [] => .error ⟨.expectingValue, 0⟩

end StaticStyle.Json
