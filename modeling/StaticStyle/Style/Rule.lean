import StaticStyle.Text.Basic

namespace StaticStyle.Style

structure Declaration where
  property : Text
  value : Text
deriving DecidableEq, Repr

/-- The declarations of a selector, or blocks under the condition of an at-rule. -/
inductive Block where
  | declarations (selector : Text) (declarations : List Declaration)
  | conditional (condition : Text) (blocks : List Block)
deriving Repr

def Declaration.css (declaration : Declaration) : Text :=
  "\n  " ++ declaration.property ++ ": " ++ declaration.value ++ ";"

mutual
/-- The style sheet text of a block. -/
def Block.css : Block → Text
  | .declarations selector declarations =>
    selector ++ " \x7b" ++ declarations.flatMap Declaration.css ++ "\n\x7d"
  | .conditional condition blocks =>
    condition ++ " \x7b\n" ++ Text.join "\n" (blocksCss blocks) ++ "\n\x7d"

def blocksCss : List Block → List Text
  | [] => []
  | block :: rest => block.css :: blocksCss rest
end

/-- The compiled form of a style: the block of its class, and the blocks nested in it. -/
structure Rule where
  identity : Text
  className : Text
  primary : Text
  siblings : List Text
deriving DecidableEq, Repr

def Rule.css (rule : Rule) : Text := Text.join "\n" (rule.primary :: rule.siblings)

end StaticStyle.Style
