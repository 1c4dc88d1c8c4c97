import Mathlib.Data.List.Basic
import StaticStyle.Expression.Parse
import StaticStyle.Proofs.Source.Position

namespace StaticStyle.Expression

/-- A span within a text that begins at a place. It is not empty, and its position is that of its start. -/
structure Span.IsIn (place : Place) (text : Text) (span : Span) : Prop where
  low : place.offset ≤ span.start
  order : span.start < span.stop
  high : span.stop ≤ place.offset + text.length
  position : span.position = place.position.after (text.take (span.start - place.offset))

/-- A span ends before another one starts. -/
def Span.Precedes (first second : Span) : Prop := first.stop ≤ second.start

theorem Place.after_append (place : Place) (first second : Text) :
    place.after (first ++ second) = (place.after first).after second := by
  simp [Place.after, Position.after_append, Nat.add_assoc]

section Tokens

variable {start : Place} {front : Text} {first : CodePoint} {rest : Text}

private theorem whole_text (front : Text) (first : CodePoint) (rest : Text) (length : Nat) :
    front ++ (first :: rest).take (length + 1) ++ rest.drop length = front ++ first :: rest := by
  rw [List.append_assoc, ← List.drop_succ_cons, List.take_append_drop]

private theorem isIn_taken {length : Nat} :
    Span.IsIn start (front ++ first :: rest) ⟨(start.after front).offset,
      ((start.after front).after ((first :: rest).take (length + 1))).offset, (start.after front).position⟩ where
  low := Nat.le_add_right _ _
  order := by simp [Place.after]
  high := by
    simp only [Place.after, List.length_append, List.length_take, List.length_cons]
    omega
  position := by simp [Place.after]

/-- The tokens of a text stand in it, one behind the other. -/
theorem tokens_in (start : Place) (front : Text) (awaiting : Awaiting) (text : Text) :
    (∀ token ∈ tokens awaiting (start.after front) text, (start.after front).offset ≤ token.span.start ∧
      (token.lexeme ≠ .stray → token.span.IsIn start (front ++ text))) ∧
    (tokens awaiting (start.after front) text).Pairwise fun a b => a.span.Precedes b.span := by
  generalize placed : start.after front = place
  fun_induction tokens awaiting place text generalizing front with
  | case1 => simp
  | case2 awaiting place first rest length ignored ih =>
    obtain ⟨inside, ordered⟩ := ih (front ++ (first :: rest).take (length + 1)) (by rw [Place.after_append, placed])
    refine ⟨fun token member => ?_, ordered⟩
    obtain ⟨behind, within⟩ := inside token member
    rw [whole_text] at within
    exact ⟨(Nat.le_add_right _ _).trans behind, within⟩
  | case3 awaiting place first rest =>
    simp
  | case4 awaiting place first rest kept found length read stop ih =>
    obtain ⟨inside, ordered⟩ := ih (front ++ (first :: rest).take (length + 1)) (by rw [Place.after_append, placed])
    subst placed
    refine ⟨List.forall_mem_cons.mpr ⟨⟨Nat.le_refl _, fun _ => isIn_taken⟩, fun token member => ?_⟩,
      List.pairwise_cons.mpr ⟨fun token member => (inside token member).1, ordered⟩⟩
    obtain ⟨behind, within⟩ := inside token member
    rw [whole_text] at within
    exact ⟨(Nat.le_add_right _ _).trans behind, within⟩

end Tokens

/-- Spans within a text, one behind the other. -/
structure AreOrdered (place : Place) (text : Text) (spans : List Span) : Prop where
  inside : ∀ span ∈ spans, span.IsIn place text
  ascending : spans.Pairwise Span.Precedes

namespace AreOrdered

variable {place : Place} {text : Text} {spans front part behind : List Span} {first last : Span}

theorem sublist (ordered : AreOrdered place text spans) (fewer : part.Sublist spans) : AreOrdered place text part :=
  ⟨fun span member => ordered.inside span (fewer.subset member), ordered.ascending.sublist fewer⟩

/-- What stands from one span to a later one reaches from the start of the one to the end of the other. -/
theorem bounds (ordered : AreOrdered place text (first :: (part ++ [last]))) :
    ∀ span ∈ first :: (part ++ [last]), first.start ≤ span.start ∧ span.stop ≤ last.stop := by
  obtain ⟨before, others⟩ := List.pairwise_cons.mp ordered.ascending
  have after := (List.pairwise_append.mp others).2.2
  have least (span : Span) (member : span ∈ part ++ [last]) : first.start ≤ span.start := by
    have nonempty := (ordered.inside first List.mem_cons_self).order
    have precedes := before span member
    exact (Nat.le_of_lt nonempty).trans precedes
  have most (span : Span) (member : span ∈ part) : span.stop ≤ last.stop := by
    have nonempty := (ordered.inside last (by simp)).order
    have precedes := after span member last (List.mem_singleton_self last)
    exact precedes.trans (Nat.le_of_lt nonempty)
  have ends : first.stop ≤ last.stop := by
    have nonempty := (ordered.inside last (by simp)).order
    have precedes := before last (by simp)
    exact precedes.trans (Nat.le_of_lt nonempty)
  intro span member
  rcases List.mem_cons.mp member with rfl | member
  · exact ⟨Nat.le_refl _, ends⟩
  · refine ⟨least span member, ?_⟩
    rcases List.mem_append.mp member with inner | outer
    · exact most span inner
    · rw [List.mem_singleton.mp outer]

theorem through (ordered : AreOrdered place text (first :: (part ++ [last]))) :
    (first.through last).IsIn place text where
  low := (ordered.inside first List.mem_cons_self).low
  order := (ordered.inside first List.mem_cons_self).order.trans_le (ordered.bounds first List.mem_cons_self).2
  high := (ordered.inside last (by simp)).high
  position := (ordered.inside first List.mem_cons_self).position

/-- Spans from one to a later one may be replaced by the span that reaches over them. -/
theorem merge (ordered : AreOrdered place text (front ++ first :: (part ++ last :: behind))) :
    AreOrdered place text (front ++ first.through last :: behind) := by
  have fewer : (first :: (part ++ [last])).Sublist (front ++ first :: (part ++ last :: behind)) :=
    List.sublist_append_of_sublist_right (by simp)
  have whole := (ordered.sublist fewer).through
  obtain ⟨ahead, others, apart⟩ := List.pairwise_append.mp ordered.ascending
  obtain ⟨-, others⟩ := List.pairwise_cons.mp others
  obtain ⟨after, later⟩ := List.pairwise_cons.mp (List.pairwise_append.mp others).2.1
  refine ⟨fun span member => ?_, List.pairwise_append.mpr ⟨ahead, List.pairwise_cons.mpr ⟨after, later⟩, ?_⟩⟩
  · rcases List.mem_append.mp member with member | member
    · exact ordered.inside span (List.mem_append_left _ member)
    · rcases List.mem_cons.mp member with rfl | member
      · exact whole
      · exact ordered.inside span (by simp [member])
  · intro a member b member'
    rcases List.mem_cons.mp member' with rfl | member'
    · exact apart a member first List.mem_cons_self
    · exact apart a member b (by simp [member'])

end AreOrdered

/-- A numeral stands in a text that begins at a place, and has a value. -/
def HasNumeral (place : Place) (text : Text) (span : Span) (value : Number) : Prop :=
  ∃ raw, (⟨.number raw, span⟩ : Token) ∈ tokens .operand place text ∧ value = (decodeNumber? raw).getD (.whole 0)

theorem hasNumeral_ofNumber {place : Place} {text raw : Text} {token : Token}
    (member : token ∈ tokens .operand place text) (number : token.lexeme = .number raw) :
    ∀ span value, ofNumber token.span raw = .number span value → HasNumeral place text span value := by
  obtain ⟨lexeme, place⟩ := token
  subst number
  intro span value same
  obtain ⟨rfl, rfl⟩ := Node.number.inj same
  exact ⟨raw, member, rfl⟩

/-- A tree as it is read from a text that begins at a place: its parts are in it one behind the other, down to the
numerals. A shorthand entry is its own key and value. -/
inductive Node.IsRead (place : Place) (text : Text) : Node → Prop where
  | intro {node : Node} (span : node.span.IsIn place text)
      (numeral : ∀ span value, node = .number span value → HasNumeral place text span value)
      (children : ∀ child ∈ node.children, child.IsRead place text)
      (inside : ∀ child ∈ node.children, node.span.start ≤ child.span.start ∧ child.span.stop ≤ node.span.stop)
      (ordered : (∃ span name, node = .shorthand span name) ∨ (node.children.map Node.span).Pairwise Span.Precedes) :
      IsRead place text node

namespace Node.IsRead

variable {place : Place} {text : Text} {node : Node}

theorem isIn (read : node.IsRead place text) : node.span.IsIn place text := by
  cases read with
  | intro span => exact span

theorem leaf (bare : node.children = []) (isIn : node.span.IsIn place text)
    (numeral : ∀ span value, node = .number span value → HasNumeral place text span value) :
    node.IsRead place text :=
  .intro isIn numeral (by simp [bare]) (by simp [bare]) (.inr (by simp [bare]))

theorem shorthand {span : Span} {name : Text} (isIn : span.IsIn place text) :
    (Node.shorthand span name).IsRead place text := by
  have leaf : (Node.identifier span name).IsRead place text := .leaf rfl isIn (by simp)
  refine .intro isIn (by simp) ?_ ?_ (.inl ⟨span, name, rfl⟩)
  · exact List.forall_mem_cons.mpr ⟨leaf, List.forall_mem_singleton.mpr leaf⟩
  · simp [Node.children, Node.span]

/-- A node may take the place of some spans, if it reaches from the first to the last of them and has its parts among
them. -/
theorem join (node : Node) (part : List Span) {front behind : List Span} {first last : Span}
    (reaches : node.span = first.through last)
    (ordered : AreOrdered place text (front ++ first :: (part ++ last :: behind)))
    (parts : (node.children.map Node.span).Sublist (first :: (part ++ [last])))
    (children : ∀ child ∈ node.children, child.IsRead place text)
    (compound : ∀ span value, node ≠ .number span value) :
    node.IsRead place text ∧ AreOrdered place text (front ++ node.span :: behind) := by
  have inner : AreOrdered place text (first :: (part ++ [last])) :=
    ordered.sublist (List.sublist_append_of_sublist_right (by simp))
  rw [reaches]
  refine ⟨.intro (reaches ▸ inner.through) (fun span value same => absurd same (compound span value)) children
    (fun child member => ?_) (.inr (inner.ascending.sublist parts)), ordered.merge⟩
  rw [reaches]
  exact inner.bounds child.span (parts.subset (List.mem_map_of_mem member))

end Node.IsRead

/-- The nodes that a waiting construct has already, in the order in which they stand. -/
@[simp] def Frame.nodes : Frame → List Node
  | .unary .. | .group | .computedKey _ | .spread _ => []
  | .binary node _ | .test node | .index node | .propertyValue node | .computedValue _ node => [node]
  | .alternative first second => [first, second]
  | .call callee arguments => callee :: arguments
  | .array _ nodes | .object _ nodes => nodes

/-- The spans of the tokens and nodes that a waiting construct has already. -/
@[simp] def Frame.spans : Frame → List Span
  | .group => []
  | .unary _ span | .computedKey span | .spread span => [span]
  | .binary node _ | .test node | .index node | .propertyValue node => [node.span]
  | .computedValue span key => [span, key.span]
  | .alternative first second => [first.span, second.span]
  | .call callee arguments => callee.span :: arguments.map Node.span
  | .array span nodes | .object span nodes => span :: nodes.map Node.span

/-- The spans of everything that waits, in the order in which it stands in the text. -/
@[simp] def stackSpans : Stack → List Span
  | [] => []
  | frame :: rest => stackSpans rest ++ frame.spans

@[simp] def Phase.nodes : Phase → List Node
  | .operand | .entry => []
  | .extension node | .memberName node | .computedKey _ node => [node]
  | .key node shorthand => node :: shorthand.toList

@[simp] def Phase.spans : Phase → List Span
  | .operand | .entry => []
  | .extension node | .memberName node | .key node _ => [node.span]
  | .computedKey span node => [span, node.span]

/-- The nodes that wait were read from a text. -/
def StackIsRead (place : Place) (text : Text) (stack : Stack) : Prop :=
  ∀ frame ∈ stack, ∀ node ∈ frame.nodes, node.IsRead place text

/-- The nodes of a state were read from a text, and everything that waits stands in it in front of some spans. A
shorthand entry stands where its key does. -/
structure StateIsRead (place : Place) (text : Text) (stack : Stack) (phase : Phase) (behind : List Span) : Prop where
  waiting : StackIsRead place text stack
  nodes : ∀ node ∈ phase.nodes, node.IsRead place text
  spans : AreOrdered place text (stackSpans stack ++ (phase.spans ++ behind))
  alone : ∀ key entry, phase = .key key (some entry) → entry.span = key.span

section Steps

variable {place : Place} {text : Text} {stack : Stack} {node : Node} {behind : List Span} {token : Token}
  {state : Stack × Phase}

/-- What an operand completes together with a waiting construct. -/
def Frame.completed? : Frame → Node → Option Node
  | .unary operator span, node => some (.unary (span.through node.span) operator node)
  | .binary left operator, node => some (.binary (left.span.through node.span) operator left node)
  | .alternative first second, node => some (.conditional (first.span.through node.span) first second node)
  | .spread ellipsis, node => some (.spread (ellipsis.through node.span) node)
  | .propertyValue key, node => some (.property (key.span.through node.span) key node)
  | .computedValue opening key, node => some (.computedProperty (opening.through node.span) key node)
  | _, _ => none

private theorem completed_read {frame : Frame} {whole : Node} (completes : frame.completed? node = some whole)
    (here : ∀ part ∈ frame.nodes, part.IsRead place text) (read : node.IsRead place text)
    (spans : AreOrdered place text (stackSpans (frame :: stack) ++ node.span :: behind)) :
    whole.IsRead place text ∧ AreOrdered place text (stackSpans stack ++ whole.span :: behind) := by
  have both := List.forall_mem_append.mpr ⟨here, List.forall_mem_singleton.mpr read⟩
  rw [stackSpans, List.append_assoc] at spans
  cases frame with
  | alternative test consequent =>
    obtain rfl := Option.some.inj completes
    exact Node.IsRead.join _ [consequent.span] rfl spans (by simp [Node.children]) both (by simp)
  | computedValue opening key =>
    obtain rfl := Option.some.inj completes
    exact Node.IsRead.join _ [key.span] rfl spans (by simp [Node.children]) both (by simp)
  | unary | binary | spread | propertyValue =>
    obtain rfl := Option.some.inj completes
    exact Node.IsRead.join _ [] rfl spans (by simp [Node.children]) both (by simp)
  | _ => cases completes

private theorem reduce_read (frames : StackIsRead place text stack) (read : node.IsRead place text)
    (spans : AreOrdered place text (stackSpans stack ++ node.span :: behind)) :
    StackIsRead place text (reduce stack node).1 ∧ (reduce stack node).2.IsRead place text ∧
      AreOrdered place text (stackSpans (reduce stack node).1 ++ (reduce stack node).2.span :: behind) := by
  induction stack generalizing node with
  | nil => exact ⟨frames, read, spans⟩
  | cons frame rest ih =>
    obtain ⟨here, others⟩ := List.forall_mem_cons.mp frames
    cases frame with
    | unary | binary =>
      obtain ⟨read, spans⟩ := completed_read rfl here read spans
      exact ih others read spans
    | _ => exact ⟨frames, read, spans⟩

private theorem settle_read (frames : StackIsRead place text stack) (read : node.IsRead place text)
    (spans : AreOrdered place text (stackSpans stack ++ node.span :: behind)) :
    StackIsRead place text (settle stack node).1 ∧ (settle stack node).2.IsRead place text ∧
      AreOrdered place text (stackSpans (settle stack node).1 ++ (settle stack node).2.span :: behind) := by
  induction stack generalizing node with
  | nil => exact ⟨frames, read, spans⟩
  | cons frame rest ih =>
    obtain ⟨here, others⟩ := List.forall_mem_cons.mp frames
    cases frame with
    | unary | binary | alternative | spread | propertyValue | computedValue =>
      obtain ⟨read, spans⟩ := completed_read rfl here read spans
      exact ih others read spans
    | _ => exact ⟨frames, read, spans⟩

private theorem extension_read (frames : StackIsRead place text stack) (read : node.IsRead place text)
    (spans : AreOrdered place text (stackSpans stack ++ node.span :: behind)) :
    StateIsRead place text stack (.extension node) behind :=
  ⟨frames, by simpa using read, spans, nofun⟩

private theorem close_read (part : List Span) {first last : Span} (frames : StackIsRead place text stack)
    (reaches : node.span = first.through last)
    (spans : AreOrdered place text (stackSpans stack ++ first :: (part ++ last :: behind)))
    (parts : (node.children.map Node.span).Sublist (first :: (part ++ [last])))
    (children : ∀ child ∈ node.children, child.IsRead place text)
    (compound : ∀ span value, node ≠ .number span value) : StateIsRead place text stack (.extension node) behind := by
  obtain ⟨read, spans⟩ := Node.IsRead.join node part reaches spans parts children compound
  exact extension_read frames read spans

private theorem leaf_read (frames : StackIsRead place text stack)
    (spans : AreOrdered place text (stackSpans stack ++ token.span :: behind)) (reaches : node.span = token.span)
    (bare : node.children = [])
    (numeral : ∀ span value, node = .number span value → HasNumeral place text span value) :
    StateIsRead place text stack (.extension node) behind := by
  rw [← reaches] at spans
  exact extension_read frames (.leaf bare (spans.inside node.span (by simp)) numeral) spans

private theorem ofName_leaf (span : Span) (name : Text) :
    (ofName span name).span = span ∧ (ofName span name).children = [] ∧
      ∀ other value, ofName span name ≠ .number other value := by
  unfold ofName
  split
  · simp [Node.span, Node.children]
  · split
    · simp [Node.span, Node.children]
    · split <;> simp [Node.span, Node.children]

theorem beginOperand_read (stands : StateIsRead place text stack .operand (token.span :: behind))
    (present : token ∈ tokens .operand place text)
    (begins : beginOperand stack token = some state) : StateIsRead place text state.1 state.2 behind := by
  obtain ⟨frames, -, spans, -⟩ := stands
  rw [Phase.spans, List.nil_append] at spans
  have here : token.span.IsIn place text := spans.inside token.span (by simp)
  unfold beginOperand at begins
  dsimp only at begins
  split at begins
  case h_1 raw _ =>
    obtain rfl := Option.some.inj begins
    exact leaf_read frames spans rfl rfl (by simp [ofString])
  case h_2 raw number =>
    obtain rfl := Option.some.inj begins
    exact leaf_read frames spans rfl rfl (hasNumeral_ofNumber present number)
  case h_3 raw _ =>
    obtain rfl := Option.some.inj begins
    exact leaf_read frames spans rfl rfl (by simp [ofTemplate])
  case h_4 name _ =>
    split at begins
    · obtain rfl := Option.some.inj begins
      refine ⟨List.forall_mem_cons.mpr ⟨nofun, frames⟩, nofun, ?_, nofun⟩
      simpa using spans
    · obtain rfl := Option.some.inj begins
      obtain ⟨reaches, bare, compound⟩ := ofName_leaf token.span name
      exact leaf_read frames spans reaches bare fun span value same => absurd same (compound span value)
  case h_12 opening items rest _ =>
    obtain rfl := Option.some.inj begins
    obtain ⟨here, others⟩ := List.forall_mem_cons.mp frames
    rw [stackSpans, List.append_assoc] at spans
    exact close_read _ others rfl spans (by simp [Node.children]) here (by simp)
  case h_13 callee arguments rest _ =>
    obtain rfl := Option.some.inj begins
    obtain ⟨here, others⟩ := List.forall_mem_cons.mp frames
    rw [stackSpans, List.append_assoc] at spans
    exact close_read _ others rfl spans (by simp [Node.children]) here (by simp)
  all_goals
    first
      | obtain rfl := Option.some.inj begins
        exact ⟨List.forall_mem_cons.mpr ⟨nofun, frames⟩, nofun, spans.sublist (by simp), nofun⟩
      | cases begins

theorem endExpression_read (frames : StackIsRead place text stack) (read : node.IsRead place text)
    (spans : AreOrdered place text (stackSpans stack ++ node.span :: token.span :: behind))
    (ends : endExpression stack node token = some state) : StateIsRead place text state.1 state.2 behind := by
  obtain ⟨frames, read, spans⟩ := settle_read frames read spans
  unfold endExpression at ends
  dsimp only at ends
  generalize settle stack node = settled at *
  split at ends
  case h_11 => cases ends
  all_goals
    obtain rfl := Option.some.inj ends
    obtain ⟨here, others⟩ := List.forall_mem_cons.mp frames
    have both := List.forall_mem_append.mpr ⟨here, List.forall_mem_singleton.mpr read⟩
    dsimp only at here others both read spans
  case h_1 test rest node _ =>
    exact ⟨List.forall_mem_cons.mpr ⟨both, others⟩, nofun, spans.sublist (by simp), nofun⟩
  case h_2 opening items rest node _ | h_3 callee arguments rest node _ | h_4 opening entries rest node _ =>
    exact ⟨List.forall_mem_cons.mpr ⟨both, others⟩, nofun, spans.sublist (by simp), nofun⟩
  case h_5 rest node _ =>
    exact extension_read others read (spans.sublist (by simp))
  case h_6 callee arguments rest node _ =>
    rw [stackSpans, List.append_assoc] at spans
    exact close_read (arguments.map Node.span ++ [node.span]) others rfl (by simpa using spans)
      (by simp [Node.children]) both (by simp)
  case h_7 target rest node _ =>
    rw [stackSpans, List.append_assoc] at spans
    exact close_read [node.span] others rfl spans (by simp [Node.children]) both (by simp)
  case h_8 opening items rest node _ =>
    rw [stackSpans, List.append_assoc] at spans
    exact close_read (items.map Node.span ++ [node.span]) others rfl (by simpa using spans)
      (by simp [Node.children]) both (by simp)
  case h_9 opening rest node _ =>
    exact ⟨others, List.forall_mem_singleton.mpr read, spans.sublist (by simp), nofun⟩
  case h_10 opening entries rest node _ =>
    rw [stackSpans, List.append_assoc] at spans
    exact close_read (entries.map Node.span ++ [node.span]) others rfl (by simpa using spans)
      (by simp [Node.children]) both (by simp)

theorem extend_read (stands : StateIsRead place text stack (.extension node) (token.span :: behind))
    (extended : extend stack node token = some state) : StateIsRead place text state.1 state.2 behind := by
  obtain ⟨frames, read, spans, -⟩ := stands
  have read : node.IsRead place text := read node (List.mem_singleton_self node)
  have here : token.span.IsIn place text := spans.inside token.span (by simp)
  obtain ⟨reducedFrames, reducedRead, reducedSpans⟩ := reduce_read frames read spans
  unfold extend at extended
  dsimp only at extended
  split at extended
  case h_8 => exact endExpression_read frames read spans extended
  all_goals obtain rfl := Option.some.inj extended
  case h_1 symbol _ | h_2 symbol _ | h_3 =>
    refine ⟨List.forall_mem_cons.mpr ⟨?_, reducedFrames⟩, nofun, reducedSpans.sublist (by simp), nofun⟩
    exact List.forall_mem_singleton.mpr reducedRead
  case h_4 =>
    exact ⟨frames, List.forall_mem_singleton.mpr read, spans.sublist (by simp), nofun⟩
  case h_5 | h_6 =>
    exact ⟨List.forall_mem_cons.mpr ⟨List.forall_mem_singleton.mpr read, frames⟩, nofun, spans.sublist (by simp), nofun⟩
  case h_7 raw _ =>
    have quasi : (ofTemplate token.span raw).IsRead place text := .leaf rfl here (by simp [ofTemplate])
    refine close_read [] frames rfl spans (by simp [Node.children, ofTemplate, Node.span]) ?_ (by simp)
    exact List.forall_mem_cons.mpr ⟨read, List.forall_mem_singleton.mpr quasi⟩

theorem beginEntry_read (stands : StateIsRead place text stack .entry (token.span :: behind))
    (present : token ∈ tokens .operand place text)
    (begins : beginEntry stack token = some state) : StateIsRead place text state.1 state.2 behind := by
  obtain ⟨frames, -, spans, -⟩ := stands
  have here : token.span.IsIn place text := spans.inside token.span (by simp)
  unfold beginEntry at begins
  dsimp only at begins
  split at begins
  case h_7 => cases begins
  all_goals obtain rfl := Option.some.inj begins
  case h_1 name _ =>
    have key : (Node.identifier token.span name).IsRead place text := .leaf rfl here (by simp)
    refine ⟨frames, ?_, spans, fun _ _ same => ?_⟩
    · exact List.forall_mem_cons.mpr ⟨key, List.forall_mem_singleton.mpr (.shorthand here)⟩
    · cases same
      rfl
  case h_2 raw _ =>
    have key : (ofString token.span raw).IsRead place text := .leaf rfl here (by simp [ofString])
    exact ⟨frames, List.forall_mem_singleton.mpr key, spans, nofun⟩
  case h_3 raw number =>
    have key : (ofNumber token.span raw).IsRead place text := .leaf rfl here (hasNumeral_ofNumber present number)
    exact ⟨frames, List.forall_mem_singleton.mpr key, spans, nofun⟩
  case h_4 | h_5 =>
    exact ⟨List.forall_mem_cons.mpr ⟨nofun, frames⟩, nofun, spans.sublist (by simp), nofun⟩
  case h_6 opening entries rest _ =>
    obtain ⟨here, others⟩ := List.forall_mem_cons.mp frames
    rw [stackSpans, List.append_assoc] at spans
    exact close_read _ others rfl spans (by simp [Node.children]) here (by simp)

theorem endKey_read {key : Node} {shorthand : Option Node}
    (stands : StateIsRead place text stack (.key key shorthand) (token.span :: behind))
    (ends : endKey stack key shorthand token = some state) : StateIsRead place text state.1 state.2 behind := by
  obtain ⟨frames, nodes, spans, alone⟩ := stands
  obtain ⟨read, entries⟩ := List.forall_mem_cons.mp nodes
  unfold endKey at ends
  split at ends
  case h_1 =>
    obtain rfl := Option.some.inj ends
    exact ⟨List.forall_mem_cons.mpr ⟨List.forall_mem_singleton.mpr read, frames⟩, nofun, spans.sublist (by simp), nofun⟩
  case h_2 entry opening before rest _ =>
    obtain rfl := Option.some.inj ends
    obtain ⟨here, others⟩ := List.forall_mem_cons.mp frames
    rw [Phase.spans, ← alone key entry rfl] at spans
    refine ⟨List.forall_mem_cons.mpr ⟨?_, others⟩, nofun, spans.sublist (by simp), nofun⟩
    exact List.forall_mem_append.mpr ⟨here, entries⟩
  case h_3 entry opening before rest _ =>
    obtain rfl := Option.some.inj ends
    obtain ⟨here, others⟩ := List.forall_mem_cons.mp frames
    rw [Phase.spans, ← alone key entry rfl, stackSpans, List.append_assoc] at spans
    refine close_read (before.map Node.span ++ [entry.span]) others rfl (by simpa using spans)
      (by simp [Node.children]) ?_ (by simp)
    exact List.forall_mem_append.mpr ⟨here, entries⟩
  case h_4 => cases ends

theorem step_read {phase : Phase} (stands : StateIsRead place text stack phase (token.span :: behind))
    (present : token ∈ tokens .operand place text)
    (stepped : step stack phase token = some state) : StateIsRead place text state.1 state.2 behind := by
  cases phase with
  | operand => exact beginOperand_read stands present stepped
  | extension node => exact extend_read stands stepped
  | entry => exact beginEntry_read stands present stepped
  | key name shorthand => exact endKey_read stands stepped
  | memberName target =>
    simp only [step] at stepped
    split at stepped
    · rename_i name _
      obtain rfl := Option.some.inj stepped
      obtain ⟨frames, read, spans, -⟩ := stands
      have here : token.span.IsIn place text := spans.inside token.span (by simp)
      have name : (Node.identifier token.span name).IsRead place text := .leaf rfl here (by simp)
      refine close_read [] frames rfl spans (by simp [Node.children, Node.span]) ?_ (by simp)
      exact List.forall_mem_append.mpr ⟨read, List.forall_mem_singleton.mpr name⟩
    · cases stepped
  | computedKey opening key =>
    simp only [step] at stepped
    split at stepped
    · obtain rfl := Option.some.inj stepped
      obtain ⟨frames, read, spans, -⟩ := stands
      exact ⟨List.forall_mem_cons.mpr ⟨read, frames⟩, nofun, spans.sublist (by simp), nofun⟩
    · cases stepped

theorem not_stray_of_step {phase : Phase} (stepped : step stack phase token = some state) : token.lexeme ≠ .stray := by
  intro stray
  cases phase with
  | _ => simp [step, beginOperand, extend, endExpression, beginEntry, endKey, stray] at stepped

theorem not_stray_of_parseTokens {last : Position} {phase : Phase} {tokens : List Token}
    (parsed : parseTokens last stack phase tokens = .ok node) : ∀ token ∈ tokens, token.lexeme ≠ .stray := by
  induction tokens generalizing last stack phase with
  | nil => simp
  | cons token rest ih =>
    rw [parseTokens] at parsed
    cases stepped : step stack phase token with
    | none => simp [stepped] at parsed
    | some state =>
      simp only [stepped] at parsed
      exact List.forall_mem_cons.mpr ⟨not_stray_of_step stepped, ih parsed⟩

/-- The tree of some tokens is read from the text in which they stand. -/
theorem parseTokens_read {last : Position} {phase : Phase} {found : List Token}
    (stands : StateIsRead place text stack phase (found.map Token.span))
    (present : ∀ token ∈ found, token ∈ tokens .operand place text)
    (parsed : parseTokens last stack phase found = .ok node) : node.IsRead place text := by
  induction found generalizing last stack phase with
  | nil =>
    cases phase with
    | extension operand =>
      have read := List.forall_mem_singleton.mp stands.nodes
      obtain ⟨-, settled, -⟩ := settle_read stands.waiting read stands.spans
      rw [parseTokens] at parsed
      generalize settle stack operand = state at settled parsed
      obtain ⟨below, whole⟩ := state
      cases below with
      | nil => exact Except.ok.inj parsed ▸ settled
      | cons => cases parsed
    | _ => cases parsed
  | cons token rest ih =>
    rw [parseTokens] at parsed
    cases stepped : step stack phase token with
    | none => simp [stepped] at parsed
    | some state =>
      simp only [stepped] at parsed
      exact ih (step_read stands (present token List.mem_cons_self) stepped)
        (fun token member => present token (List.mem_cons_of_mem _ member)) parsed

end Steps

/-- A parsed tree is read from its text. -/
theorem parse_read {text : Text} {place : Place} {node : Node} (parsed : parse text place = .ok node) :
    node.IsRead place text := by
  unfold parse at parsed
  dsimp only at parsed
  split at parsed
  · cases parsed
  · rename_i tree
    split at parsed
    · cases parsed
    · obtain rfl := Except.ok.inj parsed
      obtain ⟨inside, ascending⟩ := tokens_in place [] .operand text
      have plain := not_stray_of_parseTokens tree
      refine parseTokens_read ⟨by simp [StackIsRead], by simp, ?_, by simp⟩ (fun _ member => member) tree
      refine ⟨List.forall_mem_map.mpr fun token member => ?_, List.pairwise_map.mpr ascending⟩
      exact (inside token member).2 (plain token member)

/-- A part of a tree is its root, or a part of one of the children of its root. -/
inductive Node.Holds : Node → Node → Prop where
  | root (node : Node) : node.Holds node
  | inner {node child part : Node} (member : child ∈ node.children) (held : child.Holds part) : node.Holds part

theorem Node.IsRead.held {place : Place} {text : Text} {node part : Node} (read : node.IsRead place text)
    (held : node.Holds part) : part.IsRead place text := by
  induction held with
  | root => exact read
  | inner member held ih =>
    cases read with
    | intro span numeral children => exact ih (children _ member)

/-- A node stands in a file between two offsets, where its position says. Its children are inside it, none of them in
front of one that is ahead of it. -/
structure Node.IsPlaced (file : Text) (low high : Nat) (node : Node) : Prop where
  low : low ≤ node.span.start
  order : node.span.start < node.span.stop
  high : node.span.stop ≤ high
  position : node.span.position = .ofOffset file node.span.start
  inside : ∀ child ∈ node.children, node.span.start ≤ child.span.start ∧ child.span.stop ≤ node.span.stop
  ascending : node.children.Pairwise fun a b => a.span.start ≤ b.span.start

/-- Every part of a tree that is parsed from a fragment of a file is placed within the fragment. -/
theorem parse_isPlaced {before fragment behind : Text} {node part : Node}
    (parsed : parse fragment ⟨before.length, .ofOffset (before ++ fragment ++ behind) before.length⟩ = .ok node)
    (held : node.Holds part) :
    part.IsPlaced (before ++ fragment ++ behind) before.length (before.length + fragment.length) := by
  obtain ⟨⟨low, order, high, position⟩, -, children, inside, ordered⟩ := (parse_read parsed).held held
  refine ⟨low, order, high, ?_, inside, ?_⟩
  · have stands : (before ++ fragment ++ behind).StandsAt before.length
        (fragment.take (part.span.start - before.length)) := by
      rw [Text.StandsAt, List.append_assoc, List.drop_left]
      exact (List.take_prefix _ _).trans (List.prefix_append _ _)
    have offset : before.length + (fragment.take (part.span.start - before.length)).length = part.span.start := by
      dsimp only at low high
      rw [List.length_take]
      omega
    rw [position, Position.after_ofOffset stands, offset]
  · rcases ordered with ⟨span, name, rfl⟩ | ordered
    · simp [Node.children, Node.span]
    · refine (List.pairwise_map.mp ordered).imp_of_mem fun {a b} member _ precedes => ?_
      have nonempty := (children a member).isIn.order
      exact (Nat.le_of_lt nonempty).trans precedes

/-- An object behind a comment with a line feed, one of whose values is in parentheses. -/
theorem parse_isPlaced_object :
    ∃ node, parse "/*\n*/ \x7ba, b: (c.d)\x7d"
        ⟨4, .ofOffset (Text.ofString "x = " ++ "/*\n*/ \x7ba, b: (c.d)\x7d" ++ ";") 4⟩ = .ok node ∧
      node.children.map Node.span = [⟨11, 12, ⟨2, 5⟩⟩, ⟨14, 21, ⟨2, 8⟩⟩] ∧
      ∀ part, node.Holds part →
        part.IsPlaced (Text.ofString "x = " ++ "/*\n*/ \x7ba, b: (c.d)\x7d" ++ ";") 4 (4 + 19) := by
  have read : (parse "/*\n*/ \x7ba, b: (c.d)\x7d"
      ⟨4, .ofOffset (Text.ofString "x = " ++ "/*\n*/ \x7ba, b: (c.d)\x7d" ++ ";") 4⟩).toOption.map
        (fun node => node.children.map Node.span) = some [⟨11, 12, ⟨2, 5⟩⟩, ⟨14, 21, ⟨2, 8⟩⟩] := by decide +kernel
  cases parsed : parse "/*\n*/ \x7ba, b: (c.d)\x7d"
      ⟨4, .ofOffset (Text.ofString "x = " ++ "/*\n*/ \x7ba, b: (c.d)\x7d" ++ ";") 4⟩ with
  | error fault =>
    rw [parsed] at read
    cases read
  | ok node =>
    rw [parsed] at read
    exact ⟨node, rfl, Option.some.inj read, fun part held => parse_isPlaced parsed held⟩

end StaticStyle.Expression
