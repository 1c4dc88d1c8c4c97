import StaticStyle.Expression.Parse

namespace StaticStyle.Expression

/-- Why a tree has no static value. -/
inductive Rejection where
  | expression (kind : Text) (position : Position)
  | key (kind : Text) (position : Position)
deriving DecidableEq, Repr

namespace Rejection

def kind : Rejection → Text
  | expression kind _ => kind
  | key kind _ => kind

def position : Rejection → Position
  | expression _ position => position
  | key _ position => position

def message : Rejection → Text
  | expression kind _ =>
    "Dynamic expressions are not allowed in style declarations. Found: " ++ kind ++
      ". Use the 'style' prop for dynamic values."
  | key kind _ => "Unsupported key type in style declaration: " ++ kind

end Rejection

/-- Rejects a node as a whole. -/
def rejected (node : Node) : Rejection := .expression node.kind node.span.position

/-- The key of an entry that is neither computed nor spread. -/
def staticKey : Node → Except Rejection Text
  | .identifier _ name => .ok name
  | .string _ value => .ok value
  | node => .error (.key node.kind node.span.position)

mutual
/-- The value of a node. -/
def evaluate : Node → Except Rejection Value
  | .string _ value => .ok (.text value)
  | .number _ value => .ok value.toValue
  | .boolean _ value => .ok (.bool value)
  | .null _ => .ok .null
  | .unary span operator (.number _ value) =>
    if operator = Text.ofString "-" then .ok value.negate.toValue
    else .error (.expression "UnaryExpression" span.position)
  | .object _ entries => (evaluateEntries [] entries).map .object
  | node => .error (rejected node)

/-- Puts the entries of an object into the fields so far. -/
def evaluateEntries (fields : Fields Value) : List Node → Except Rejection (Fields Value)
  | [] => .ok fields
  | .property _ key value :: rest =>
    match staticKey key with
    | .error rejection => .error rejection
    | .ok name =>
      match evaluate value with
      | .error rejection => .error rejection
      | .ok value => evaluateEntries (fields.put name value) rest
  | .computedProperty _ key _ :: _ => .error (.key "computed key" key.span.position)
  | .shorthand span _ :: _ => .error (.expression "Identifier" span.position)
  | node :: _ => .error (rejected node)
end

/-- The fields of a node that has to be an object. -/
def evaluateObject : Node → Except Rejection (Fields Value)
  | .object _ entries => evaluateEntries [] entries
  | node => .error (rejected node)

end StaticStyle.Expression
