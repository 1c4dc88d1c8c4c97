import StaticStyle.Expression.Literal
import StaticStyle.Source.Position

namespace StaticStyle.Expression

/-- Where a node stands: two offsets and the position of the first. -/
structure Span where
  start : Nat
  stop : Nat
  position : Position
deriving DecidableEq, Repr

/-- From the beginning of one span to the end of another. -/
def Span.through (first last : Span) : Span := { first with stop := last.stop }

inductive Node where
  | string (span : Span) (value : Text)
  | number (span : Span) (value : Number)
  | boolean (span : Span) (value : Bool)
  | null (span : Span)
  | identifier (span : Span) (name : Text)
  | template (span : Span) (raw : Text)
  | object (span : Span) (entries : List Node)
  | property (span : Span) (key value : Node)
  | computedProperty (span : Span) (key value : Node)
  | shorthand (span : Span) (name : Text)
  | spread (span : Span) (argument : Node)
  | array (span : Span) (items : List Node)
  | member (span : Span) (target name : Node)
  | index (span : Span) (target key : Node)
  | call (span : Span) (callee : Node) (arguments : List Node)
  | taggedTemplate (span : Span) (tag quasi : Node)
  | unary (span : Span) (operator : Text) (operand : Node)
  | binary (span : Span) (operator : Text) (left right : Node)
  | conditional (span : Span) (test consequent alternative : Node)
deriving Repr

namespace Node

def span : Node → Span
  | string span _ | number span _ | boolean span _ | null span | identifier span _
  | template span _ | object span _ | property span _ _ | computedProperty span _ _
  | shorthand span _ | spread span _ | array span _ | member span _ _ | index span _ _
  | call span _ _ | taggedTemplate span _ _ | unary span _ _ | binary span _ _ _
  | conditional span _ _ _ => span

def isLogical (operator : Text) : Bool :=
  ["&&", "||", "??"].any fun symbol => operator == Text.ofString symbol

/-- The name of the construct, as messages give it. -/
def kind : Node → Text
  | string .. => "StringLiteral"
  | number .. => "NumericLiteral"
  | boolean .. => "BooleanLiteral"
  | null .. => "NullLiteral"
  | identifier .. => "Identifier"
  | template .. => "TemplateLiteral"
  | object .. => "ObjectExpression"
  | property .. | computedProperty .. | shorthand .. => "ObjectProperty"
  | spread .. => "SpreadElement"
  | array .. => "ArrayExpression"
  | member .. | index .. => "MemberExpression"
  | call .. => "CallExpression"
  | taggedTemplate .. => "TaggedTemplateExpression"
  | unary .. => "UnaryExpression"
  | binary _ operator _ _ => if isLogical operator then "LogicalExpression" else "BinaryExpression"
  | conditional .. => "ConditionalExpression"

/-- The parts of a node in source order. A shorthand entry is its own key and value. -/
def children : Node → List Node
  | object _ nodes | array _ nodes => nodes
  | property _ a b | computedProperty _ a b | member _ a b | index _ a b | taggedTemplate _ a b
  | binary _ _ a b => [a, b]
  | shorthand span name => [identifier span name, identifier span name]
  | spread _ a | unary _ _ a => [a]
  | call _ callee arguments => callee :: arguments
  | conditional _ a b c => [a, b, c]
  | _ => []

/-- What a node holds besides its children: a literal's value, a name or an operator. -/
def label : Node → Value
  | string _ t | identifier _ t | template _ t | unary _ t _ | binary _ t _ _ => .text t
  | number _ n => n.toValue
  | boolean _ b => .bool b
  | shorthand .. => .text "shorthand"
  | _ => .null

/-- Whether a key is an expression between square brackets. -/
def isComputed : Node → Bool
  | computedProperty .. | index .. => true
  | _ => false

end Node

end StaticStyle.Expression
