import StaticStyle.Expression.Evaluate
import StaticStyle.Proofs.Expression.Token

namespace StaticStyle.Expression

/-- Whether a lexeme can end with a letter. -/
def Lexeme.isWord : Lexeme → Bool
  | .name _ | .number _ => true
  | _ => false

/-- The brackets that are open behind a lexeme of a static style, the innermost first. -/
def Lexeme.turn (brackets : List Bracket) : Lexeme → Option (List Bracket)
  | .string _ | .number _ | .name _ | .comma | .colon | .sign _ => some brackets
  | .opening bracket => some (bracket :: brackets)
  | .closing bracket =>
    match brackets with
    | [] => none
    | innermost :: outer => if innermost = bracket then some outer else none
  | _ => none

/-- The brackets that are open behind lexemes, unless one of them stands in no static style. No
parenthesis stands behind a word there. -/
def unclosed (afterWord : Bool) (brackets : List Bracket) : List Lexeme → Option (List Bracket)
  | [] => some brackets
  | lexeme :: rest =>
    if afterWord && lexeme == .opening .round then none
    else (lexeme.turn brackets).bind fun inner => unclosed lexeme.isWord inner rest

def IsStatic (node : Node) : Prop := ∃ value, evaluate node = .ok value

def IsStaticEntry : Node → Prop
  | .property _ _ value => IsStatic value
  | _ => False

/-- A node with a static value, or an entry of an object with such a value. -/
def IsPart (node : Node) : Prop := IsStatic node ∨ IsStaticEntry node

def Frame.IsStatic : Frame → Prop
  | .unary operator _ => operator = Text.ofString "-"
  | .object _ entries => ∀ entry ∈ entries, IsStaticEntry entry
  | .group | .propertyValue _ => True
  | _ => False

def Phase.IsStatic : Phase → Prop
  | .operand | .entry | .key .. => True
  | .extension node => IsPart node
  | _ => False

/-- Whether an operand or the key of an entry ends in front of the next token. -/
def Phase.isComplete : Phase → Bool
  | .extension _ | .key .. => true
  | _ => false

/-- The bracket that a construct waits for. -/
def Frame.bracket? : Frame → Option Bracket
  | .group | .call .. => some .round
  | .index _ | .array .. | .computedKey _ => some .square
  | .object .. => some .curly
  | _ => none

def brackets (stack : Stack) : List Bracket := stack.filterMap Frame.bracket?

structure IsStaticState (stack : Stack) (phase : Phase) : Prop where
  frames : ∀ frame ∈ stack, frame.IsStatic
  phase : phase.IsStatic

/-- What leads to a state that can end in a static value. -/
structure IsStaticStep (stack : Stack) (phase : Phase) (lexeme : Lexeme) (stack' : Stack)
    (phase' : Phase) : Prop where
  state : IsStaticState stack phase
  turn : lexeme.turn (brackets stack) = some (brackets stack')
  completes : lexeme.isWord = true → phase'.isComplete = true
  noCall : phase.isComplete = true → lexeme ≠ .opening .round

theorem isStaticEntry_of_evaluateEntries {fields fields' : Fields Value} {entries : List Node}
    (evaluated : evaluateEntries fields entries = .ok fields') :
    ∀ entry ∈ entries, IsStaticEntry entry := by
  induction entries generalizing fields with
  | nil => simp
  | cons entry rest ih =>
    cases entry with
    | property span key value =>
      simp only [evaluateEntries] at evaluated
      split at evaluated
      · cases evaluated
      · split at evaluated
        · cases evaluated
        · rename_i found
          intro entry member
          rcases List.mem_cons.mp member with rfl | member
          · exact ⟨_, found⟩
          · exact ih evaluated entry member
    | _ => simp [evaluateEntries] at evaluated

theorem IsPart.object {span : Span} {entries : List Node} (part : IsPart (.object span entries)) :
    ∀ entry ∈ entries, IsStaticEntry entry := by
  rcases part with ⟨value, evaluated⟩ | entry
  · simp only [evaluate] at evaluated
    cases found : evaluateEntries [] entries with
    | ok fields => exact isStaticEntry_of_evaluateEntries found
    | error rejection => simp [found, Except.map] at evaluated
  · cases entry

theorem IsPart.property {span : Span} {key value : Node} (part : IsPart (.property span key value)) :
    IsPart value := by
  rcases part with ⟨found, evaluated⟩ | entry
  · simp [evaluate] at evaluated
  · exact .inl entry

theorem IsPart.unary {span : Span} {operator : Text} {operand : Node}
    (part : IsPart (.unary span operator operand)) :
    operator = Text.ofString "-" ∧ IsPart operand := by
  rcases part with ⟨found, evaluated⟩ | entry
  · cases operand with
    | number span value =>
      simp only [evaluate] at evaluated
      split at evaluated
      · rename_i minus
        exact ⟨minus, .inl ⟨value.toValue, by rw [evaluate]⟩⟩
      · cases evaluated
    | _ => simp [evaluate] at evaluated
  · cases entry

theorem not_isPart_template {span : Span} {raw : Text} : ¬ IsPart (.template span raw) := by
  simp [IsPart, IsStatic, IsStaticEntry, evaluate]

theorem not_isPart_array {span : Span} {items : List Node} : ¬ IsPart (.array span items) := by
  simp [IsPart, IsStatic, IsStaticEntry, evaluate]

theorem not_isPart_index {span : Span} {target key : Node} : ¬ IsPart (.index span target key) := by
  simp [IsPart, IsStatic, IsStaticEntry, evaluate]

theorem not_isPart_taggedTemplate {span : Span} {tag quasi : Node} :
    ¬ IsPart (.taggedTemplate span tag quasi) := by
  simp [IsPart, IsStatic, IsStaticEntry, evaluate]

theorem not_isPart_member {span : Span} {target name : Node} :
    ¬ IsPart (.member span target name) := by
  simp [IsPart, IsStatic, IsStaticEntry, evaluate]

theorem not_isPart_call {span : Span} {callee : Node} {arguments : List Node} :
    ¬ IsPart (.call span callee arguments) := by
  simp [IsPart, IsStatic, IsStaticEntry, evaluate]

/-- What the end of an expression completes comes from parts of the same kind. -/
theorem settle_static {stack : Stack} {node : Node}
    (frames : ∀ frame ∈ (settle stack node).1, frame.IsStatic) (part : IsPart (settle stack node).2) :
    (∀ frame ∈ stack, frame.IsStatic) ∧ IsPart node ∧
      brackets (settle stack node).1 = brackets stack := by
  induction stack generalizing node with
  | nil => exact ⟨frames, part, rfl⟩
  | cons frame rest ih =>
    cases frame with
    | unary operator span =>
      obtain ⟨below, whole, same⟩ := ih frames part
      obtain ⟨minus, operand⟩ := whole.unary
      exact ⟨List.forall_mem_cons.mpr ⟨minus, below⟩, operand, same⟩
    | propertyValue key =>
      obtain ⟨below, whole, same⟩ := ih frames part
      exact ⟨List.forall_mem_cons.mpr ⟨trivial, below⟩, whole.property, same⟩
    | binary | alternative | spread | computedValue =>
      obtain ⟨_, whole, _⟩ := ih frames part
      simp [IsPart, IsStatic, IsStaticEntry, evaluate] at whole
    | _ => exact ⟨frames, part, rfl⟩

private theorem IsStaticState.below {frame : Frame} {stack : Stack} {phase phase' : Phase}
    (state : IsStaticState (frame :: stack) phase) (static : phase'.IsStatic) :
    IsStaticState stack phase' :=
  ⟨(List.forall_mem_cons.mp state.frames).2, static⟩

private theorem IsStaticState.innermost {frame : Frame} {stack : Stack} {phase : Phase}
    (state : IsStaticState (frame :: stack) phase) : frame.IsStatic :=
  (List.forall_mem_cons.mp state.frames).1

theorem beginOperand_static {stack stack' : Stack} {phase' : Phase} {token : Token}
    (taken : beginOperand stack token = some (stack', phase'))
    (state : IsStaticState stack' phase') :
    IsStaticStep stack .operand token.lexeme stack' phase' := by
  cases lexeme : token.lexeme with
  | string raw | number raw =>
    simp only [beginOperand, lexeme, Option.some.injEq, Prod.mk.injEq] at taken
    obtain ⟨rfl, rfl⟩ := taken
    exact ⟨⟨state.frames, trivial⟩, rfl, fun _ => rfl, by rintro ⟨⟩⟩
  | name name =>
    simp only [beginOperand, lexeme] at taken
    split at taken
    · rename_i isTypeof
      cases taken
      have operator := state.innermost
      rw [Frame.IsStatic, isTypeof] at operator
      exact absurd operator (by decide)
    · cases taken
      exact ⟨⟨state.frames, trivial⟩, rfl, fun _ => rfl, by rintro ⟨⟩⟩
  | sign symbol =>
    simp only [beginOperand, lexeme, Option.some.injEq, Prod.mk.injEq] at taken
    obtain ⟨rfl, rfl⟩ := taken
    exact ⟨state.below trivial, rfl, by rintro ⟨⟩, by rintro ⟨⟩⟩
  | exclamation =>
    simp only [beginOperand, lexeme, Option.some.injEq, Prod.mk.injEq] at taken
    obtain ⟨rfl, rfl⟩ := taken
    have operator : Text.ofString "!" = Text.ofString "-" := state.innermost
    exact absurd operator (by decide)
  | opening bracket =>
    cases bracket <;> simp only [beginOperand, lexeme, Option.some.injEq, Prod.mk.injEq] at taken <;>
      obtain ⟨rfl, rfl⟩ := taken
    · exact ⟨state.below trivial, rfl, by rintro ⟨⟩, by rintro ⟨⟩⟩
    · exact absurd state.innermost id
    · exact ⟨state.below trivial, rfl, by rintro ⟨⟩, by rintro ⟨⟩⟩
  | template raw =>
    simp only [beginOperand, lexeme, Option.some.injEq, Prod.mk.injEq] at taken
    obtain ⟨rfl, rfl⟩ := taken
    exact absurd state.phase not_isPart_template
  | ellipsis =>
    cases stack with
    | nil => simp [beginOperand, lexeme] at taken
    | cons frame rest =>
      cases frame <;> simp only [beginOperand, lexeme, reduceCtorEq] at taken <;> cases taken <;>
        exact absurd state.innermost id
  | closing bracket =>
    cases stack with
    | nil => cases bracket <;> simp [beginOperand, lexeme] at taken
    | cons frame rest =>
      cases bracket <;> cases frame <;> simp only [beginOperand, lexeme, reduceCtorEq] at taken <;>
        cases taken
      · exact absurd state.phase not_isPart_call
      · exact absurd state.phase not_isPart_array
  | comma | colon | question | dot | operator symbol | stray =>
    simp [beginOperand, lexeme] at taken

theorem endExpression_static {stack stack' : Stack} {node : Node} {phase' : Phase} {token : Token}
    (taken : endExpression stack node token = some (stack', phase'))
    (state : IsStaticState stack' phase') :
    IsStaticStep stack (.extension node) token.lexeme stack' phase' := by
  have settled := @settle_static stack node
  unfold endExpression at taken
  dsimp only at taken
  generalize settle stack node = result at settled taken
  obtain ⟨below, whole⟩ := result
  dsimp only at settled
  have ended {frame : Frame} {rest : Stack} {lexeme : Lexeme} (same : below = frame :: rest)
      (static : frame.IsStatic) (inner : ∀ frame ∈ rest, frame.IsStatic) (part : IsPart whole)
      (turn : lexeme.turn (brackets (frame :: rest)) = some (brackets stack'))
      (noWord : lexeme.isWord = false) (noRound : lexeme ≠ .opening .round) :
      IsStaticStep stack (.extension node) lexeme stack' phase' := by
    subst same
    obtain ⟨frames, partly, unchanged⟩ := settled (List.forall_mem_cons.mpr ⟨static, inner⟩) part
    rw [unchanged] at turn
    exact ⟨⟨frames, partly⟩, turn, fun word => by simp [noWord] at word, fun _ => noRound⟩
  cases below with
  | nil => cases lexeme : token.lexeme <;> simp [lexeme] at taken
  | cons frame rest =>
    cases lexeme : token.lexeme with
    | colon =>
      rw [lexeme] at taken
      cases frame <;> cases taken
      exact absurd state.innermost id
    | comma =>
      rw [lexeme] at taken
      cases frame <;> cases taken
      · exact absurd state.innermost id
      · exact absurd state.innermost id
      · have entries := List.forall_mem_append.mp state.innermost
        exact ended rfl entries.1 (List.forall_mem_cons.mp state.frames).2
          (.inr (entries.2 whole (List.mem_singleton_self whole))) rfl rfl (by rintro ⟨⟩)
    | closing bracket =>
      rw [lexeme] at taken
      cases bracket with
      | round =>
        cases frame <;> cases taken
        · exact ended rfl trivial state.frames state.phase rfl rfl (by rintro ⟨⟩)
        · exact absurd state.phase not_isPart_call
      | square =>
        cases frame <;> cases taken
        · exact absurd state.phase not_isPart_index
        · exact absurd state.phase not_isPart_array
        · exact absurd state.phase id
      | curly =>
        cases frame <;> cases taken
        have entries := List.forall_mem_append.mp (IsPart.object state.phase)
        exact ended rfl entries.1 state.frames
          (.inr (entries.2 whole (List.mem_singleton_self whole))) rfl rfl (by rintro ⟨⟩)
    | _ => simp [lexeme] at taken

theorem extend_static {stack stack' : Stack} {node : Node} {phase' : Phase} {token : Token}
    (taken : extend stack node token = some (stack', phase')) (state : IsStaticState stack' phase') :
    IsStaticStep stack (.extension node) token.lexeme stack' phase' := by
  have ended := @endExpression_static stack stack' node phase' token
  cases lexeme : token.lexeme with
  | sign symbol | operator symbol | question =>
    simp only [extend, lexeme, Option.some.injEq, Prod.mk.injEq] at taken
    obtain ⟨rfl, rfl⟩ := taken
    exact absurd state.innermost id
  | dot =>
    simp only [extend, lexeme, Option.some.injEq, Prod.mk.injEq] at taken
    obtain ⟨rfl, rfl⟩ := taken
    exact absurd state.phase id
  | template raw =>
    simp only [extend, lexeme, Option.some.injEq, Prod.mk.injEq] at taken
    obtain ⟨rfl, rfl⟩ := taken
    exact absurd state.phase not_isPart_taggedTemplate
  | opening bracket =>
    cases bracket with
    | round | square =>
      simp only [extend, lexeme, Option.some.injEq, Prod.mk.injEq] at taken
      obtain ⟨rfl, rfl⟩ := taken
      exact absurd state.innermost id
    | curly =>
      simp only [extend, lexeme] at taken
      exact lexeme ▸ ended taken state
  | _ =>
    simp only [extend, lexeme] at taken
    exact lexeme ▸ ended taken state

theorem beginEntry_static {stack stack' : Stack} {phase' : Phase} {token : Token}
    (taken : beginEntry stack token = some (stack', phase')) (state : IsStaticState stack' phase') :
    IsStaticStep stack .entry token.lexeme stack' phase' := by
  cases lexeme : token.lexeme with
  | name text | string text | number text =>
    simp only [beginEntry, lexeme, Option.some.injEq, Prod.mk.injEq] at taken
    obtain ⟨rfl, rfl⟩ := taken
    exact ⟨⟨state.frames, trivial⟩, rfl, fun _ => rfl, by rintro ⟨⟩⟩
  | opening bracket =>
    cases bracket <;> simp only [beginEntry, lexeme, reduceCtorEq] at taken
    cases taken
    exact absurd state.innermost id
  | ellipsis =>
    simp only [beginEntry, lexeme, Option.some.injEq, Prod.mk.injEq] at taken
    obtain ⟨rfl, rfl⟩ := taken
    exact absurd state.innermost id
  | closing bracket =>
    cases stack with
    | nil => cases bracket <;> simp [beginEntry, lexeme] at taken
    | cons frame rest =>
      cases bracket <;> cases frame <;> simp only [beginEntry, lexeme, reduceCtorEq] at taken
      cases taken
      have entries := IsPart.object state.phase
      exact ⟨⟨List.forall_mem_cons.mpr ⟨entries, state.frames⟩, trivial⟩, rfl, by rintro ⟨⟩, by rintro ⟨⟩⟩
  | _ => simp [beginEntry, lexeme] at taken

theorem endKey_static {stack stack' : Stack} {key : Node} {shorthand : Option Node} {phase' : Phase}
    {token : Token} (taken : endKey stack key shorthand token = some (stack', phase'))
    (state : IsStaticState stack' phase') :
    IsStaticStep stack (.key key shorthand) token.lexeme stack' phase' := by
  cases lexeme : token.lexeme with
  | colon =>
    simp only [endKey, lexeme, Option.some.injEq, Prod.mk.injEq] at taken
    obtain ⟨rfl, rfl⟩ := taken
    exact ⟨state.below trivial, rfl, by rintro ⟨⟩, by rintro - ⟨⟩⟩
  | comma =>
    simp only [endKey, lexeme] at taken
    split at taken
    · contradiction
    · cases taken
      have entries := List.forall_mem_append.mp state.innermost
      have others := (List.forall_mem_cons.mp state.frames).2
      exact ⟨⟨List.forall_mem_cons.mpr ⟨entries.1, others⟩, trivial⟩, rfl, by rintro ⟨⟩, by rintro - ⟨⟩⟩
    · contradiction
    · cases taken
  | closing bracket =>
    simp only [endKey, lexeme] at taken
    split at taken
    · contradiction
    · contradiction
    · rename_i isCurly
      cases isCurly
      cases taken
      have entries := List.forall_mem_append.mp (IsPart.object state.phase)
      exact ⟨⟨List.forall_mem_cons.mpr ⟨entries.1, state.frames⟩, trivial⟩, rfl, by rintro ⟨⟩, by rintro - ⟨⟩⟩
    · cases taken
  | _ => simp [endKey, lexeme] at taken

/-- A step to a state that can end in a static value is a step from such a state, with a lexeme that
stands in static styles. -/
theorem step_static {stack stack' : Stack} {phase phase' : Phase} {token : Token}
    (taken : step stack phase token = some (stack', phase')) (state : IsStaticState stack' phase') :
    IsStaticStep stack phase token.lexeme stack' phase' := by
  cases phase with
  | operand => exact beginOperand_static taken state
  | extension node => exact extend_static taken state
  | entry => exact beginEntry_static taken state
  | key key shorthand => exact endKey_static taken state
  | memberName target =>
    cases lexeme : token.lexeme <;> simp only [step, lexeme, reduceCtorEq] at taken
    cases taken
    exact absurd state.phase not_isPart_member
  | computedKey opening key =>
    cases lexeme : token.lexeme <;> simp only [step, lexeme, reduceCtorEq] at taken
    cases taken
    exact absurd state.innermost id

/-- Every run of the parser to a part of a static style takes lexemes of static styles, and they close
the brackets that are open. -/
theorem parseTokens_static {last : Position} {stack : Stack} {phase : Phase} {tokens : List Token}
    {node : Node} (parsed : parseTokens last stack phase tokens = .ok node) (part : IsPart node) :
    IsStaticState stack phase ∧
      ∀ afterWord, (afterWord = true → phase.isComplete = true) →
        unclosed afterWord (brackets stack) (tokens.map Token.lexeme) = some [] := by
  induction tokens generalizing last stack phase with
  | nil =>
    cases phase <;> simp only [parseTokens, reduceCtorEq] at parsed
    rename_i node'
    have settled := @settle_static stack node'
    generalize settle stack node' = result at settled parsed
    obtain ⟨below, whole⟩ := result
    cases below <;> simp only [reduceCtorEq, Except.ok.injEq] at parsed
    subst parsed
    obtain ⟨frames, partly, closed⟩ := settled (by simp) part
    exact ⟨⟨frames, partly⟩, fun _ _ => by rw [List.map_nil, unclosed, ← closed]; rfl⟩
  | cons token rest ih =>
    rw [parseTokens] at parsed
    split at parsed
    · rename_i stack' phase' taken
      obtain ⟨state', closes⟩ := ih parsed
      have stepped := step_static taken state'
      refine ⟨stepped.state, fun afterWord complete => ?_⟩
      have noCall : (afterWord && token.lexeme == .opening .round) = false := by
        cases afterWord with
        | false => rfl
        | true => simpa using stepped.noCall (complete rfl)
      rw [List.map_cons, unclosed, noCall, stepped.turn]
      exact closes _ stepped.completes
    · cases parsed

/-- The lexemes of a static style stand in static styles, and all brackets are closed. -/
theorem unclosed_lexemes {text : Text} {place : Place} {node : Node} {style : Fields Value}
    (parsed : parse text place = .ok node) (evaluated : evaluateObject node = .ok style) :
    unclosed false [] (lexemes .operand text) = some [] := by
  have part : IsPart node := by
    cases node <;> simp only [evaluateObject, reduceCtorEq] at evaluated
    exact .inl ⟨.object style, by rw [evaluate, evaluated]; rfl⟩
  unfold parse at parsed
  dsimp only at parsed
  split at parsed
  · cases parsed
  · rename_i found
    split at parsed
    · cases parsed
    · cases parsed
      rw [← map_lexeme_tokens .operand place]
      exact (parseTokens_static found part).2 false fun word => Bool.noConfusion word

end StaticStyle.Expression
