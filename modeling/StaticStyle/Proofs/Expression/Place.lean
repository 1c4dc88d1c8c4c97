import StaticStyle.Expression.Evaluate
import StaticStyle.Proofs.Expression.Token

namespace StaticStyle.Expression

/-- The span that takes the place of every other one. -/
def Span.nowhere : Span := ⟨0, 0, ⟨1, 1⟩⟩

mutual
/-- A tree without its spans. -/
def Node.unplaced : Node → Node
  | .string _ value => .string .nowhere value
  | .number _ value => .number .nowhere value
  | .boolean _ value => .boolean .nowhere value
  | .null _ => .null .nowhere
  | .identifier _ name => .identifier .nowhere name
  | .template _ raw => .template .nowhere raw
  | .object _ entries => .object .nowhere (unplacedNodes entries)
  | .property _ key value => .property .nowhere key.unplaced value.unplaced
  | .computedProperty _ key value => .computedProperty .nowhere key.unplaced value.unplaced
  | .shorthand _ name => .shorthand .nowhere name
  | .spread _ argument => .spread .nowhere argument.unplaced
  | .array _ items => .array .nowhere (unplacedNodes items)
  | .member _ target name => .member .nowhere target.unplaced name.unplaced
  | .index _ target key => .index .nowhere target.unplaced key.unplaced
  | .call _ callee arguments => .call .nowhere callee.unplaced (unplacedNodes arguments)
  | .taggedTemplate _ tag quasi => .taggedTemplate .nowhere tag.unplaced quasi.unplaced
  | .unary _ operator operand => .unary .nowhere operator operand.unplaced
  | .binary _ operator left right => .binary .nowhere operator left.unplaced right.unplaced
  | .conditional _ test consequent alternative =>
    .conditional .nowhere test.unplaced consequent.unplaced alternative.unplaced

def unplacedNodes : List Node → List Node
  | [] => []
  | node :: rest => node.unplaced :: unplacedNodes rest
end

def Frame.unplaced : Frame → Frame
  | .unary operator _ => .unary operator .nowhere
  | .binary left operator => .binary left.unplaced operator
  | .test condition => .test condition.unplaced
  | .alternative condition node => .alternative condition.unplaced node.unplaced
  | .group => .group
  | .index target => .index target.unplaced
  | .call callee arguments => .call callee.unplaced (unplacedNodes arguments)
  | .array _ items => .array .nowhere (unplacedNodes items)
  | .object _ entries => .object .nowhere (unplacedNodes entries)
  | .propertyValue key => .propertyValue key.unplaced
  | .computedKey _ => .computedKey .nowhere
  | .computedValue _ key => .computedValue .nowhere key.unplaced
  | .spread _ => .spread .nowhere

def Phase.unplaced : Phase → Phase
  | .operand => .operand
  | .extension node => .extension node.unplaced
  | .memberName target => .memberName target.unplaced
  | .entry => .entry
  | .key name shorthand => .key name.unplaced (shorthand.map Node.unplaced)
  | .computedKey _ node => .computedKey .nowhere node.unplaced

def Token.unplaced (token : Token) : Token := { token with span := .nowhere }

/-- A state of the parser without its spans. -/
def unplacedState (state : Stack × Phase) : Stack × Phase :=
  (state.1.map Frame.unplaced, state.2.unplaced)

attribute [local simp] unplacedNodes Node.unplaced Frame.unplaced Phase.unplaced unplacedState

@[simp] theorem Span.through_nowhere : nowhere.through nowhere = nowhere := rfl

@[simp] theorem Node.span_unplaced (node : Node) : node.unplaced.span = .nowhere := by
  cases node <;> rfl

@[simp] theorem unplacedNodes_append (first second : List Node) :
    unplacedNodes (first ++ second) = unplacedNodes first ++ unplacedNodes second := by
  induction first with
  | nil => rfl
  | cons node rest ih => simp [ih]

@[simp] theorem Token.lexeme_unplaced (token : Token) : token.unplaced.lexeme = token.lexeme := rfl

@[simp] theorem Token.span_unplaced (token : Token) : token.unplaced.span = .nowhere := rfl

@[simp] theorem ofName_unplaced (span : Span) (name : Text) :
    (ofName span name).unplaced = ofName .nowhere name := by
  unfold ofName
  split
  · rfl
  · split
    · rfl
    · split <;> rfl

theorem reduce_unplaced (stack : Stack) (node : Node) :
    reduce (stack.map Frame.unplaced) node.unplaced =
      ((reduce stack node).1.map Frame.unplaced, (reduce stack node).2.unplaced) := by
  induction stack generalizing node with
  | nil => simp [reduce]
  | cons frame rest ih =>
    cases frame <;> simp [reduce, ← ih]

theorem settle_unplaced (stack : Stack) (node : Node) :
    settle (stack.map Frame.unplaced) node.unplaced =
      ((settle stack node).1.map Frame.unplaced, (settle stack node).2.unplaced) := by
  induction stack generalizing node with
  | nil => simp [settle]
  | cons frame rest ih =>
    cases frame <;> simp [settle, ← ih]

theorem beginOperand_unplaced (stack : Stack) (token : Token) :
    beginOperand (stack.map Frame.unplaced) token.unplaced =
      (beginOperand stack token).map unplacedState := by
  cases lexeme : token.lexeme with
  | name text =>
    simp only [beginOperand, Token.lexeme_unplaced, lexeme]
    split <;> simp
  | ellipsis | opening bracket | closing bracket =>
    try cases bracket
    all_goals
      cases stack with
      | nil => simp [beginOperand, lexeme]
      | cons frame rest =>
        cases frame <;>
          simp [beginOperand, lexeme]
  | _ =>
    simp [beginOperand, lexeme, ofString, ofNumber, ofTemplate]

theorem endExpression_unplaced (stack : Stack) (node : Node) (token : Token) :
    endExpression (stack.map Frame.unplaced) node.unplaced token.unplaced =
      (endExpression stack node token).map unplacedState := by
  simp only [endExpression, settle_unplaced, Token.lexeme_unplaced, Token.span_unplaced]
  obtain ⟨settled, complete⟩ := settle stack node
  cases lexeme : token.lexeme with
  | colon | comma | closing bracket =>
    try cases bracket
    all_goals
      cases settled with
      | nil => rfl
      | cons frame rest =>
        cases frame <;>
          simp
  | _ => rfl

theorem extend_unplaced (stack : Stack) (node : Node) (token : Token) :
    extend (stack.map Frame.unplaced) node.unplaced token.unplaced =
      (extend stack node token).map unplacedState := by
  simp only [extend, reduce_unplaced, endExpression_unplaced, Token.lexeme_unplaced,
    Token.span_unplaced]
  cases lexeme : token.lexeme with
  | opening bracket =>
    cases bracket <;> simp
  | template raw => simp [ofTemplate]
  | _ => simp

theorem beginEntry_unplaced (stack : Stack) (token : Token) :
    beginEntry (stack.map Frame.unplaced) token.unplaced =
      (beginEntry stack token).map unplacedState := by
  cases lexeme : token.lexeme with
  | opening bracket =>
    cases bracket <;> simp [beginEntry, lexeme]
  | closing bracket =>
    cases bracket <;> cases stack with
    | nil => simp [beginEntry, lexeme]
    | cons frame rest =>
      cases frame <;>
        simp [beginEntry, lexeme]
  | _ =>
    simp [beginEntry, lexeme, ofString, ofNumber]

theorem endKey_unplaced (stack : Stack) (key : Node) (shorthand : Option Node) (token : Token) :
    endKey (stack.map Frame.unplaced) key.unplaced (shorthand.map Node.unplaced) token.unplaced =
      (endKey stack key shorthand token).map unplacedState := by
  cases lexeme : token.lexeme with
  | colon => simp [endKey, lexeme]
  | comma | closing bracket =>
    try cases bracket
    all_goals
      cases shorthand with
      | none => simp [endKey, lexeme]
      | some entry =>
        cases stack with
        | nil => simp [endKey, lexeme]
        | cons frame rest =>
          cases frame <;>
            simp [endKey, lexeme]
  | _ => simp [endKey, lexeme]

theorem step_unplaced (stack : Stack) (phase : Phase) (token : Token) :
    step (stack.map Frame.unplaced) phase.unplaced token.unplaced =
      (step stack phase token).map unplacedState := by
  cases phase with
  | operand => exact beginOperand_unplaced stack token
  | extension node => exact extend_unplaced stack node token
  | entry => exact beginEntry_unplaced stack token
  | key key shorthand => exact endKey_unplaced stack key shorthand token
  | memberName target =>
    cases lexeme : token.lexeme <;>
      simp [step, lexeme]
  | computedKey opening key =>
    cases lexeme : token.lexeme <;>
      simp [step, lexeme]

/-- Without its spans, the tree of some tokens does not depend on their spans. -/
theorem parseTokens_unplaced (last last' : Position) (stack : Stack) (phase : Phase)
    (tokens : List Token) :
    (parseTokens last' (stack.map Frame.unplaced) phase.unplaced
        (tokens.map Token.unplaced)).toOption =
      (parseTokens last stack phase tokens).toOption.map Node.unplaced := by
  induction tokens generalizing last last' stack phase with
  | nil =>
    cases phase with
    | extension node =>
      simp only [List.map_nil, parseTokens, Phase.unplaced, settle_unplaced]
      generalize settle stack node = settled
      obtain ⟨below, whole⟩ := settled
      cases below <;> rfl
    | _ => rfl
  | cons token rest ih =>
    simp only [List.map_cons, parseTokens, step_unplaced]
    cases step stack phase token with
    | none => rfl
    | some state => exact ih _ _ state.1 state.2

theorem staticKey_unplaced (key : Node) :
    (staticKey key.unplaced).toOption = (staticKey key).toOption := by
  cases key <;> rfl

mutual

theorem evaluate_unplaced (node : Node) :
    (evaluate node.unplaced).toOption = (evaluate node).toOption := by
  match node with
  | .object _ entries =>
    have same := evaluateEntries_unplaced [] entries
    simp only [Node.unplaced, evaluate]
    generalize evaluateEntries [] (unplacedNodes entries) = first at same ⊢
    generalize evaluateEntries [] entries = second at same ⊢
    cases first <;> cases second <;> simp_all [Except.toOption, Except.map]
  | .unary _ operator operand =>
    cases operand with
    | number _ value =>
      simp only [Node.unplaced, evaluate]
      split <;> rfl
    | _ => simp [evaluate, Except.toOption]
  | .string .. | .number .. | .boolean .. | .null .. | .identifier .. | .template .. | .property ..
  | .computedProperty .. | .shorthand .. | .spread .. | .array .. | .member .. | .index ..
  | .call .. | .taggedTemplate .. | .binary .. | .conditional .. =>
    simp [evaluate, Except.toOption]

theorem evaluateEntries_unplaced (fields : Fields Value) (entries : List Node) :
    (evaluateEntries fields (unplacedNodes entries)).toOption =
      (evaluateEntries fields entries).toOption := by
  match entries with
  | [] => rfl
  | .property _ key value :: rest =>
    have sameKey := staticKey_unplaced key
    have sameValue := evaluate_unplaced value
    simp only [unplacedNodes, Node.unplaced, evaluateEntries]
    generalize staticKey key.unplaced = first at sameKey ⊢
    generalize staticKey key = second at sameKey ⊢
    generalize evaluate value.unplaced = first' at sameValue ⊢
    generalize evaluate value = second' at sameValue ⊢
    cases first <;> cases second <;> simp [Except.toOption] at sameKey ⊢
    cases first' <;> cases second' <;> simp [Except.toOption] at sameValue ⊢
    subst sameKey sameValue
    exact evaluateEntries_unplaced _ rest
  | .computedProperty .. :: _ | .shorthand .. :: _ | .string .. :: _ | .number .. :: _
  | .boolean .. :: _ | .null .. :: _ | .identifier .. :: _ | .template .. :: _ | .object .. :: _
  | .spread .. :: _ | .array .. :: _ | .member .. :: _ | .index .. :: _ | .call .. :: _
  | .taggedTemplate .. :: _ | .unary .. :: _ | .binary .. :: _ | .conditional .. :: _ =>
    simp [evaluateEntries, Except.toOption]

end

/-- Trees that differ in their spans only have the same fields. -/
theorem evaluateObject_unplaced {node node' : Node} {fields : Fields Value}
    (same : node.unplaced = node'.unplaced) (evaluated : evaluateObject node = .ok fields) :
    evaluateObject node' = .ok fields := by
  cases node with
  | object span entries =>
    cases node' with
    | object span' entries' =>
      simp only [Node.unplaced, Node.object.injEq, true_and] at same
      simp only [evaluateObject] at evaluated ⊢
      have first := evaluateEntries_unplaced [] entries
      have second := evaluateEntries_unplaced [] entries'
      rw [same, second, evaluated] at first
      generalize evaluateEntries [] entries' = found at first
      cases found with
      | ok fields' => simpa [Except.toOption] using first
      | error rejection => simp [Except.toOption] at first
    | _ => simp at same
  | _ => simp [evaluateObject] at evaluated

private theorem map_unplaced (tokens : List Token) :
    tokens.map Token.unplaced = (tokens.map Token.lexeme).map fun lexeme => ⟨lexeme, .nowhere⟩ := by
  simp [Token.unplaced]

private theorem firstOutOfRange_unplaced (tokens : List Token) :
    firstOutOfRange (tokens.map Token.unplaced) = firstOutOfRange tokens := by
  induction tokens with
  | nil => rfl
  | cons token rest ih =>
    simp only [List.map_cons, firstOutOfRange, Token.lexeme_unplaced, ih]

private theorem parse_ok {text : Text} {place : Place} {node : Node}
    (parsed : parse text place = .ok node) :
    parseTokens place.position [] .operand (tokens .operand place text) = .ok node ∧
      firstOutOfRange (tokens .operand place text) = none := by
  unfold parse at parsed
  dsimp only at parsed
  split at parsed
  · cases parsed
  · rename_i found tree
    split at parsed
    · cases parsed
    · rename_i inRange
      cases parsed
      exact ⟨tree, inRange⟩

/-- A text with the lexemes of a static style denotes that style, wherever it stands. -/
theorem evaluateObject_parse {text text' : Text} {place : Place} {node : Node}
    {fields : Fields Value} (parsed : parse text place = .ok node)
    (evaluated : evaluateObject node = .ok fields)
    (same : lexemes .operand text' = lexemes .operand text) (place' : Place) :
    ∃ node', parse text' place' = .ok node' ∧ evaluateObject node' = .ok fields := by
  obtain ⟨tree, inRange⟩ := parse_ok parsed
  have alike : (tokens .operand place' text').map Token.unplaced =
      (tokens .operand place text).map Token.unplaced := by
    rw [map_unplaced, map_unplaced, map_lexeme_tokens, map_lexeme_tokens, same]
  have there := parseTokens_unplaced place'.position place.position [] .operand
    (tokens .operand place' text')
  have here := parseTokens_unplaced place.position place.position [] .operand
    (tokens .operand place text)
  rw [alike, here, tree] at there
  cases tree' : parseTokens place'.position [] .operand (tokens .operand place' text') with
  | error position => simp [tree', Except.toOption] at there
  | ok node' =>
    simp only [tree', Except.toOption, Option.map_some, Option.some.injEq] at there
    refine ⟨node', ?_, evaluateObject_unplaced there evaluated⟩
    have inRange' : firstOutOfRange (tokens .operand place' text') = none := by
      rw [← firstOutOfRange_unplaced, alike, firstOutOfRange_unplaced, inRange]
    simp only [parse, tree', inRange']

private theorem firstOutOfRange_eq_none {tokens : List Token}
    (decodes : ∀ raw, .string raw ∈ tokens.map Token.lexeme → ∃ value, decodeString raw = .ok value) :
    firstOutOfRange tokens = none := by
  induction tokens with
  | nil => rfl
  | cons token rest ih =>
    have others := ih fun raw member => decodes raw (List.mem_cons_of_mem _ member)
    unfold firstOutOfRange
    split
    · rename_i raw isString
      obtain ⟨value, found⟩ := decodes raw (isString ▸ List.mem_cons_self)
      rw [found]
      exact others
    · exact others

/-- A text whose lexemes make up a tree, and whose strings all denote something, is parsed to that tree. -/
theorem parse_of_lexemes {text : Text} {last : Position} {tree : Node}
    (parsed : parseTokens last [] .operand ((lexemes .operand text).map fun lexeme => ⟨lexeme, .nowhere⟩) = .ok tree)
    (decodes : ∀ raw, .string raw ∈ lexemes .operand text → ∃ value, decodeString raw = .ok value) (place : Place) :
    ∃ node, parse text place = .ok node ∧ node.unplaced = tree := by
  have same := parseTokens_unplaced place.position last [] .operand (tokens .operand place text)
  have inRange : firstOutOfRange (tokens .operand place text) = none :=
    firstOutOfRange_eq_none (by rwa [map_lexeme_tokens])
  rw [map_unplaced, map_lexeme_tokens] at same
  rw [List.map_nil, Phase.unplaced, parsed] at same
  obtain ⟨node, found, rfl⟩ := Option.map_eq_some_iff.mp same.symm
  cases outcome : parseTokens place.position [] .operand (tokens .operand place text) with
  | error position => simp [outcome, Except.toOption] at found
  | ok node' =>
    obtain rfl : node' = node := by simpa [outcome, Except.toOption] using found
    exact ⟨node', by simp only [parse, outcome, inRange], rfl⟩

end StaticStyle.Expression
