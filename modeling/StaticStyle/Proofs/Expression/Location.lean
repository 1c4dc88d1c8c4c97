import StaticStyle.Expression.Evaluate
import StaticStyle.Proofs.Source.Position

/-!
Where faults of expressions are found. Every token stands where a part of the text begins, every node of a tree stands
where a token does, and both the parser and static evaluation tell of positions of tokens and nodes only.
-/

namespace StaticStyle.Expression

/-- What is reached from a position within a text: the position itself, or that of one of the code points. -/
def Reached (start : Position) (text : Text) (position : Position) : Prop :=
  ∃ count, (count = 0 ∨ count < text.length) ∧ position = start.after (text.take count)

theorem reached_start (start : Position) (text : Text) : Reached start text start :=
  ⟨0, .inl rfl, rfl⟩

private theorem Reached.behind {place : Place} {first : CodePoint} {rest : Text} {length : Nat} {awaiting : Awaiting}
    {token : Token} (member : token ∈ tokens awaiting (place.after ((first :: rest).take (length + 1))) (rest.drop length))
    (reached : Reached (place.after ((first :: rest).take (length + 1))).position (rest.drop length) token.span.position) :
    Reached place.position (first :: rest) token.span.position := by
  have inside : length < rest.length := by
    refine Nat.lt_of_not_le fun outside => ?_
    rw [List.drop_eq_nil_of_le outside] at member
    simp [tokens] at member
  obtain ⟨count, bound, same⟩ := reached
  have whole : (first :: rest).take (length + 1 + count) =
      (first :: rest).take (length + 1) ++ (rest.drop length).take count := List.take_add
  refine ⟨length + 1 + count, .inr ?_, ?_⟩
  · simp only [List.length_drop, List.length_cons] at bound ⊢
    omega
  · rw [same, whole, Position.after_append, Place.after]

/-- Every token stands where a part of the text begins. -/
theorem tokens_reached (awaiting : Awaiting) (place : Place) (text : Text) :
    ∀ token ∈ tokens awaiting place text, Reached place.position text token.span.position := by
  fun_induction tokens awaiting place text with
  | case1 => simp
  | case2 awaiting place first rest length ignored ih =>
    intro token member
    exact .behind member (ih token member)
  | case3 awaiting place first rest =>
    intro token member
    rw [List.mem_singleton.mp member]
    exact reached_start _ _
  | case4 awaiting place first rest kept found length read stop ih =>
    intro token member
    rcases List.mem_cons.mp member with rfl | member
    · exact reached_start _ _
    · exact .behind member (ih token member)

mutual
/-- Every node of a tree stands at a position of some kind. -/
@[simp] def Node.Stands (inside : Position → Prop) : Node → Prop
  | .string span _ | .number span _ | .boolean span _ | .null span | .identifier span _ | .template span _
  | .shorthand span _ => inside span.position
  | .object span nodes | .array span nodes => inside span.position ∧ NodesStand inside nodes
  | .spread span node | .unary span _ node => inside span.position ∧ node.Stands inside
  | .property span a b | .computedProperty span a b | .member span a b | .index span a b | .taggedTemplate span a b
  | .binary span _ a b => inside span.position ∧ a.Stands inside ∧ b.Stands inside
  | .call span callee nodes => inside span.position ∧ callee.Stands inside ∧ NodesStand inside nodes
  | .conditional span a b c => inside span.position ∧ a.Stands inside ∧ b.Stands inside ∧ c.Stands inside

@[simp] def NodesStand (inside : Position → Prop) : List Node → Prop
  | [] => True
  | node :: rest => node.Stands inside ∧ NodesStand inside rest
end

@[simp] def Frame.Stands (inside : Position → Prop) : Frame → Prop
  | .group => True
  | .unary _ span | .computedKey span | .spread span => inside span.position
  | .binary node _ | .test node | .index node | .propertyValue node => node.Stands inside
  | .alternative a b => a.Stands inside ∧ b.Stands inside
  | .call callee nodes => callee.Stands inside ∧ NodesStand inside nodes
  | .array span nodes | .object span nodes => inside span.position ∧ NodesStand inside nodes
  | .computedValue span key => inside span.position ∧ key.Stands inside

@[simp] def Phase.Stands (inside : Position → Prop) : Phase → Prop
  | .operand | .entry => True
  | .extension node | .memberName node => node.Stands inside
  | .key name shorthand => name.Stands inside ∧ ∀ entry ∈ shorthand, entry.Stands inside
  | .computedKey span inner => inside span.position ∧ inner.Stands inside

/-- Every node of a state of the parser stands at a position of some kind. -/
@[simp] def StateStands (inside : Position → Prop) (state : Stack × Phase) : Prop :=
  (∀ frame ∈ state.1, frame.Stands inside) ∧ state.2.Stands inside

/-- A tree stands at positions of some kind, or one of them is told as that of a fault. -/
def OutcomeStands (inside : Position → Prop) : Except Position Node → Prop
  | .ok node => node.Stands inside
  | .error position => inside position

@[simp] theorem Span.position_through (first last : Span) : (first.through last).position = first.position := rfl

section Steps

variable {inside : Position → Prop} {stack : Stack} {node : Node} {token : Token} {state : Stack × Phase}

theorem Node.Stands.span (stands : node.Stands inside) : inside node.span.position := by
  cases node with
  | string | number | boolean | null | identifier | template | shorthand => exact stands
  | _ => exact stands.1

@[simp] theorem nodesStand_append {first second : List Node} :
    NodesStand inside (first ++ second) ↔ NodesStand inside first ∧ NodesStand inside second := by
  induction first with
  | nil => simp [NodesStand]
  | cons node rest ih => simp [NodesStand, ih, and_assoc]

theorem ofName_stands {span : Span} (name : Text) (stands : inside span.position) : (ofName span name).Stands inside := by
  unfold ofName
  split
  · exact stands
  · split
    · exact stands
    · split <;> exact stands

theorem reduce_stands (frames : ∀ frame ∈ stack, frame.Stands inside) (stands : node.Stands inside) :
    (∀ frame ∈ (reduce stack node).1, frame.Stands inside) ∧ (reduce stack node).2.Stands inside := by
  induction stack generalizing node with
  | nil => exact ⟨frames, stands⟩
  | cons frame rest ih =>
    obtain ⟨here, others⟩ := List.forall_mem_cons.mp frames
    cases frame with
    | unary operator span => exact ih others ⟨here, stands⟩
    | binary left operator => exact ih others ⟨here.span, here, stands⟩
    | _ => exact ⟨frames, stands⟩

theorem settle_stands (frames : ∀ frame ∈ stack, frame.Stands inside) (stands : node.Stands inside) :
    (∀ frame ∈ (settle stack node).1, frame.Stands inside) ∧ (settle stack node).2.Stands inside := by
  induction stack generalizing node with
  | nil => exact ⟨frames, stands⟩
  | cons frame rest ih =>
    obtain ⟨here, others⟩ := List.forall_mem_cons.mp frames
    cases frame with
    | unary operator span | spread ellipsis => exact ih others ⟨here, stands⟩
    | binary left operator | propertyValue key => exact ih others ⟨here.span, here, stands⟩
    | alternative test consequent => exact ih others ⟨here.1.span, here.1, here.2, stands⟩
    | computedValue opening key => exact ih others ⟨here.1, here.2, stands⟩
    | _ => exact ⟨frames, stands⟩

theorem beginOperand_stands (frames : ∀ frame ∈ stack, frame.Stands inside) (here : inside token.span.position)
    (begins : beginOperand stack token = some state) : StateStands inside state := by
  have spanned {node : Node} : node.Stands inside → inside node.span.position := Node.Stands.span
  unfold beginOperand at begins
  split at begins
  case h_4 name _ =>
    split at begins
    · obtain rfl := Option.some.inj begins
      exact ⟨List.forall_mem_cons.mpr ⟨here, frames⟩, trivial⟩
    · obtain rfl := Option.some.inj begins
      exact ⟨frames, ofName_stands name here⟩
  all_goals
    first
      | obtain rfl := Option.some.inj begins
        simp_all [ofString, ofNumber, ofTemplate]
      | cases begins

theorem endExpression_stands (frames : ∀ frame ∈ stack, frame.Stands inside) (stands : node.Stands inside)
    (ends : endExpression stack node token = some state) : StateStands inside state := by
  have spanned {node : Node} : node.Stands inside → inside node.span.position := Node.Stands.span
  obtain ⟨frames, stands⟩ := settle_stands frames stands
  unfold endExpression at ends
  dsimp only at ends
  generalize settle stack node = settled at *
  split at ends
  all_goals
    first
      | obtain rfl := Option.some.inj ends
        simp_all
      | cases ends

theorem extend_stands (frames : ∀ frame ∈ stack, frame.Stands inside) (stands : node.Stands inside)
    (here : inside token.span.position) (extended : extend stack node token = some state) :
    StateStands inside state := by
  have reduced := reduce_stands frames stands
  unfold extend at extended
  dsimp only at extended
  split at extended
  case h_8 => exact endExpression_stands frames stands extended
  all_goals
    obtain rfl := Option.some.inj extended
    simp_all [ofTemplate, stands.span]

theorem beginEntry_stands (frames : ∀ frame ∈ stack, frame.Stands inside) (here : inside token.span.position)
    (begins : beginEntry stack token = some state) : StateStands inside state := by
  unfold beginEntry at begins
  dsimp only at begins
  split at begins
  all_goals
    first
      | obtain rfl := Option.some.inj begins
        simp_all [ofString, ofNumber]
      | cases begins

theorem endKey_stands {key : Node} {shorthand : Option Node} (frames : ∀ frame ∈ stack, frame.Stands inside)
    (stands : key.Stands inside) (alone : ∀ entry ∈ shorthand, entry.Stands inside)
    (ends : endKey stack key shorthand token = some state) : StateStands inside state := by
  unfold endKey at ends
  split at ends
  all_goals
    first
      | obtain rfl := Option.some.inj ends
        simp_all
      | cases ends

theorem step_stands {phase : Phase} (stands : StateStands inside (stack, phase)) (here : inside token.span.position)
    (stepped : step stack phase token = some state) : StateStands inside state := by
  obtain ⟨frames, stands⟩ := stands
  cases phase with
  | operand => exact beginOperand_stands frames here stepped
  | extension node => exact extend_stands frames stands here stepped
  | entry => exact beginEntry_stands frames here stepped
  | key name shorthand => exact endKey_stands frames stands.1 stands.2 stepped
  | memberName target =>
    simp only [step] at stepped
    split at stepped
    · obtain rfl := Option.some.inj stepped
      exact ⟨frames, stands.span, stands, here⟩
    · cases stepped
  | computedKey opening key =>
    simp only [step] at stepped
    split at stepped
    · obtain rfl := Option.some.inj stepped
      exact ⟨List.forall_mem_cons.mpr ⟨stands, frames⟩, trivial⟩
    · cases stepped

/-- The tree of some tokens stands where they do, and so does what is wrong with them. -/
theorem parseTokens_stands {last : Position} {phase : Phase} {tokens : List Token}
    (stands : StateStands inside (stack, phase)) (before : inside last) (here : ∀ token ∈ tokens, inside token.span.position) :
    OutcomeStands inside (parseTokens last stack phase tokens) := by
  induction tokens generalizing last stack phase with
  | nil =>
    cases phase with
    | extension node =>
      have settled : (settle stack node).2.Stands inside := (settle_stands stands.1 stands.2).2
      rw [parseTokens]
      generalize settle stack node = state at settled
      obtain ⟨below, whole⟩ := state
      cases below with
      | nil => exact settled
      | cons => exact before
    | _ => exact before
  | cons token rest ih =>
    obtain ⟨here, others⟩ := List.forall_mem_cons.mp here
    rw [parseTokens]
    cases stepped : step stack phase token with
    | none => exact here
    | some state => exact ih (step_stands stands here stepped) here others

end Steps

private theorem parseTokens_reached (text : Text) (place : Place) :
    OutcomeStands (Reached place.position text)
      (parseTokens place.position [] .operand (tokens .operand place text)) := by
  have start : StateStands (Reached place.position text) ([], .operand) := by simp
  exact parseTokens_stands start (reached_start place.position text) (tokens_reached .operand place text)

/-- Every node of a parsed expression stands at a position within its text. -/
theorem parse_stands {text : Text} {place : Place} {node : Node} (parsed : parse text place = .ok node) :
    node.Stands (Reached place.position text) := by
  have stands := parseTokens_reached text place
  unfold parse at parsed
  dsimp only at parsed
  split at parsed
  · cases parsed
  · rename_i tree
    split at parsed
    · cases parsed
    · obtain rfl := Except.ok.inj parsed
      rw [tree] at stands
      exact stands

/-- What is no expression goes wrong at a position within the text. -/
theorem unexpected_reached {text : Text} {place : Place} {position : Position}
    (failed : parse text place = .error (.unexpected position)) : Reached place.position text position := by
  have stands := parseTokens_reached text place
  unfold parse at failed
  dsimp only at failed
  split at failed
  · rename_i tree
    obtain rfl := ParseFault.unexpected.inj (Except.error.inj failed)
    rw [tree] at stands
    exact stands
  · split at failed <;> cases failed

section Evaluation

variable {inside : Position → Prop}

theorem staticKey_stands {key : Node} {rejection : Rejection} (stands : key.Stands inside)
    (refused : staticKey key = .error rejection) : inside rejection.position := by
  unfold staticKey at refused
  split at refused
  · cases refused
  · cases refused
  · obtain rfl := Except.error.inj refused
    exact stands.span

mutual
private theorem evaluate_stands : ∀ {node : Node} {rejection : Rejection}, node.Stands inside →
    evaluate node = .error rejection → inside rejection.position
  | .object _ entries, rejection, stands, refused => by
    rw [evaluate] at refused
    cases evaluated : evaluateEntries [] entries with
    | ok fields => simp [evaluated, Except.map] at refused
    | error other =>
      rw [evaluated] at refused
      obtain rfl := Except.error.inj refused
      exact evaluateEntries_stands stands.2 evaluated
  | .unary span operator operand, rejection, stands, refused => by
    cases operand with
    | number _ value =>
      rw [evaluate] at refused
      split at refused
      · cases refused
      · obtain rfl := Except.error.inj refused
        exact stands.1
    | _ =>
      obtain rfl := Except.error.inj refused
      exact stands.1
  | .string .., _, _, refused | .number .., _, _, refused | .boolean .., _, _, refused | .null .., _, _, refused => by
    cases refused
  | .identifier .., _, stands, refused | .template .., _, stands, refused | .property .., _, stands, refused
  | .computedProperty .., _, stands, refused | .shorthand .., _, stands, refused | .spread .., _, stands, refused
  | .array .., _, stands, refused | .member .., _, stands, refused | .index .., _, stands, refused
  | .call .., _, stands, refused | .taggedTemplate .., _, stands, refused | .binary .., _, stands, refused
  | .conditional .., _, stands, refused => by
    obtain rfl := Except.error.inj refused
    exact stands.span

private theorem evaluateEntries_stands : ∀ {fields : Fields Value} {entries : List Node} {rejection : Rejection},
    NodesStand inside entries → evaluateEntries fields entries = .error rejection → inside rejection.position
  | _, [], _, _, refused => by cases refused
  | fields, .property _ key value :: rest, rejection, stands, refused => by
    obtain ⟨⟨-, keyStands, valueStands⟩, others⟩ := stands
    rw [evaluateEntries] at refused
    cases named : staticKey key with
    | error other =>
      simp only [named, Except.error.injEq] at refused
      exact refused ▸ staticKey_stands keyStands named
    | ok name =>
      cases evaluated : evaluate value with
      | error other =>
        simp only [named, evaluated, Except.error.injEq] at refused
        exact refused ▸ evaluate_stands valueStands evaluated
      | ok found =>
        simp only [named, evaluated] at refused
        exact evaluateEntries_stands others refused
  | _, .computedProperty _ key _ :: _, _, stands, refused => by
    obtain rfl := Except.error.inj refused
    exact stands.1.2.1.span
  | _, .shorthand .. :: _, _, stands, refused | _, .string .. :: _, _, stands, refused
  | _, .number .. :: _, _, stands, refused | _, .boolean .. :: _, _, stands, refused
  | _, .null .. :: _, _, stands, refused | _, .identifier .. :: _, _, stands, refused
  | _, .template .. :: _, _, stands, refused | _, .object .. :: _, _, stands, refused
  | _, .spread .. :: _, _, stands, refused | _, .array .. :: _, _, stands, refused
  | _, .member .. :: _, _, stands, refused | _, .index .. :: _, _, stands, refused
  | _, .call .. :: _, _, stands, refused | _, .taggedTemplate .. :: _, _, stands, refused
  | _, .unary .. :: _, _, stands, refused | _, .binary .. :: _, _, stands, refused
  | _, .conditional .. :: _, _, stands, refused => by
    obtain rfl := Except.error.inj refused
    exact stands.1.span
end

/-- A tree is rejected for one of its nodes. -/
theorem evaluateObject_stands {node : Node} {rejection : Rejection} (stands : node.Stands inside)
    (refused : evaluateObject node = .error rejection) : inside rejection.position := by
  unfold evaluateObject at refused
  split at refused
  · exact evaluateEntries_stands stands.2 refused
  · obtain rfl := Except.error.inj refused
    exact stands.span

end Evaluation

end StaticStyle.Expression
