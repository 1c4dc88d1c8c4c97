import StaticStyle.Expression.Evaluate
import StaticStyle.Proofs.Expression.Span

namespace StaticStyle.Expression

/-- A node of a tree together with what it is there for. -/
inductive Construct where
  | value (node : Node)
  | entry (node : Node)
  | key (node : Node)
  | computedKey (node : Node)

/-- A size that is less inside a node. A shorthand entry counts for more than its name. -/
noncomputable def Node.weight : Node → Nat
  | .shorthand span name => sizeOf (Node.shorthand span name) + 1
  | node => sizeOf node

theorem Node.weight_lt {node child : Node} (member : child ∈ node.children) : child.weight < node.weight := by
  have bound : child.weight ≤ sizeOf child + 1 := by
    unfold weight
    split
    · exact Nat.le_refl _
    · exact Nat.le_succ _
  have spanned (span : Span) : 0 < sizeOf span := by
    cases span
    rw [Span.mk.sizeOf_spec]
    omega
  cases node with
  | shorthand span name =>
    simp only [children, List.mem_cons, List.not_mem_nil, or_false, or_self] at member
    subst member
    simp only [weight, identifier.sizeOf_spec, shorthand.sizeOf_spec]
    omega
  | object span nodes | array span nodes =>
    have positive := spanned span
    have smaller := List.sizeOf_lt_of_mem (show child ∈ nodes from member)
    refine bound.trans_lt ?_
    simp only [weight, object.sizeOf_spec, array.sizeOf_spec]
    omega
  | call span callee arguments =>
    have positive := spanned span
    refine bound.trans_lt ?_
    simp only [weight, call.sizeOf_spec]
    rcases List.mem_cons.mp member with rfl | member
    · omega
    · have smaller := List.sizeOf_lt_of_mem member
      omega
  | string | number | boolean | null | identifier | template => cases member
  | property span | computedProperty span | member span | index span | taggedTemplate span | binary span
  | spread span | unary span | conditional span =>
    have positive := spanned span
    refine bound.trans_lt ?_
    simp only [weight, property.sizeOf_spec, computedProperty.sizeOf_spec, Node.member.sizeOf_spec, index.sizeOf_spec,
      taggedTemplate.sizeOf_spec, binary.sizeOf_spec, spread.sizeOf_spec, unary.sizeOf_spec, conditional.sizeOf_spec]
    simp only [children, List.mem_cons, List.not_mem_nil, or_false] at member
    rcases member with rfl | rfl | rfl <;> omega

namespace Construct

def node : Construct → Node
  | value node | entry node | key node | computedKey node => node

def span (construct : Construct) : Span := construct.node.span

/-- The constructs right inside a construct. The key of an entry is in front of its value. -/
def parts : Construct → List Construct
  | value (.object _ entries) => entries.map entry
  | entry (.property _ name inner) => [key name, value inner]
  | entry (.computedProperty _ name inner) => [computedKey name, value inner]
  | entry (.shorthand span name) => [key (.identifier span name), value (.identifier span name)]
  | construct => construct.node.children.map value

theorem map_node_parts (construct : Construct) : construct.parts.map node = construct.node.children := by
  unfold parts
  split <;> simp [node, Node.children, Function.comp_def]

/-- A construct and all constructs inside it, each one in front of those inside it. -/
def all (construct : Construct) : List Construct :=
  construct :: construct.parts.attach.flatMap fun part => part.1.all
termination_by construct.node.weight
decreasing_by
  refine Node.weight_lt ?_
  rw [← map_node_parts]
  exact List.mem_map_of_mem part.2

theorem all_eq (construct : Construct) : construct.all = construct :: construct.parts.flatMap all := by
  rw [all, List.flatMap_subtype (g := all) (by simp), List.unattach_attach]

/-- Whether a construct may be part of a static literal, if what is inside it may. -/
def isAllowed : Construct → Bool
  | value (.string ..) | value (.number ..) | value (.boolean ..) | value (.null ..) | value (.object ..) => true
  | value (.unary _ operator (.number ..)) => operator = Text.ofString "-"
  | entry (.property ..) | entry (.computedProperty ..) | entry (.shorthand ..) => true
  | key (.identifier ..) | key (.string ..) => true
  | _ => false

/-- How a construct is rejected. -/
def rejection : Construct → Rejection
  | value node | entry node => .expression node.kind node.span.position
  | key node => .key node.kind node.span.position
  | computedKey node => .key "computed key" node.span.position

/-- The first construct that is not allowed. -/
def offender? (construct : Construct) : Option Construct := construct.all.find? fun part => !part.isAllowed

theorem offender?_eq (construct : Construct) : construct.offender? =
    if construct.isAllowed then construct.parts.findSome? offender? else some construct := by
  rw [offender?, all_eq, List.find?_cons, List.find?_flatMap]
  cases construct.isAllowed with
  | true => rfl
  | false => rfl

theorem offender?_of_barred {construct : Construct} (barred : construct.isAllowed = false) :
    construct.offender? = some construct := by
  rw [offender?_eq, barred]
  rfl

theorem offender?_of_bare {construct : Construct} (allowed : construct.isAllowed = true)
    (bare : construct.node.children = []) : construct.offender? = none := by
  rw [← map_node_parts, List.map_eq_nil_iff] at bare
  rw [offender?_eq, allowed, bare]
  rfl

end Construct

theorem Construct.mem_children {construct part : Construct} (member : part ∈ construct.parts) :
    part.node ∈ construct.node.children := by
  rw [← map_node_parts]
  exact List.mem_map_of_mem member

theorem Construct.all_of_bare {construct : Construct} (bare : construct.node.children = []) :
    construct.all = [construct] := by
  rw [← map_node_parts, List.map_eq_nil_iff] at bare
  rw [all_eq, bare, List.flatMap_nil]

/-- The constructs of a tree that was read from a text stand inside it, none of them in front of one that is ahead of
it. -/
theorem Node.IsRead.all_ordered {place : Place} {text : Text} {node : Node} (read : node.IsRead place text)
    (construct : Construct) (same : construct.node = node) :
    (∀ part ∈ construct.all, part.node.IsRead place text ∧ construct.span.start ≤ part.span.start ∧
      part.span.stop ≤ construct.span.stop) ∧
    construct.all.Pairwise fun a b => a.span.start ≤ b.span.start := by
  induction read generalizing construct with
  | intro span numeral children inside ordered ih =>
    subst same
    have inner (part : Construct) (member : part ∈ construct.parts) :=
      ih part.node (Construct.mem_children member) part rfl
    have within : ∀ part ∈ construct.parts.flatMap Construct.all, part.node.IsRead place text ∧
        construct.span.start ≤ part.span.start ∧ part.span.stop ≤ construct.span.stop := by
      intro part member
      obtain ⟨middle, between, member⟩ := List.mem_flatMap.mp member
      obtain ⟨read, low, high⟩ := (inner middle between).1 part member
      obtain ⟨low', high'⟩ := inside middle.node (Construct.mem_children between)
      exact ⟨read, low'.trans low, high.trans high'⟩
    rw [Construct.all_eq, List.pairwise_cons, List.pairwise_flatMap]
    have whole := Node.IsRead.intro span numeral children inside ordered
    refine ⟨List.forall_mem_cons.mpr ⟨⟨whole, Nat.le_refl _, Nat.le_refl _⟩, within⟩,
      fun part member => (within part member).2.1, fun part member => (inner part member).2, ?_⟩
    rcases ordered with ⟨span, name, same⟩ | ordered
    · have alone (part : Construct) (member : part ∈ construct.parts) : part.node = .identifier span name := by
        simpa [same, Node.children] using Construct.mem_children member
      refine List.pairwise_of_forall_mem_list fun a member b member' x ahead y behind => ?_
      rw [Construct.all_of_bare (by rw [alone a member]; rfl), List.mem_singleton] at ahead
      rw [Construct.all_of_bare (by rw [alone b member']; rfl), List.mem_singleton] at behind
      rw [ahead, behind, Construct.span, Construct.span, alone a member, alone b member']
    · rw [← Construct.map_node_parts, List.map_map] at ordered
      refine (List.pairwise_map.mp ordered).imp_of_mem fun {a b} member member' precedes x ahead y behind => ?_
      obtain ⟨read, -, high⟩ := (inner a member).1 x ahead
      obtain ⟨-, low, -⟩ := (inner b member').1 y behind
      exact (Nat.le_of_lt read.isIn.order).trans (high.trans (precedes.trans low))

/-- The error of an outcome. -/
def refusal? {ε α : Type} : Except ε α → Option ε
  | .error error => some error
  | .ok _ => none

theorem staticKey_offender (key : Node) :
    refusal? (staticKey key) = (Construct.key key).offender?.map Construct.rejection := by
  cases key with
  | identifier | string =>
    rw [Construct.offender?_of_bare rfl rfl]
    rfl
  | _ =>
    rw [Construct.offender?_of_barred rfl]
    rfl

mutual
theorem evaluate_offender : ∀ node : Node,
    refusal? (evaluate node) = (Construct.value node).offender?.map Construct.rejection
  | .object span entries => by
    have inner := evaluateEntries_offender [] entries
    rw [evaluate, Construct.offender?_eq]
    simp only [Construct.isAllowed, Construct.parts, ↓reduceIte]
    rw [← inner]
    cases evaluateEntries [] entries <;> rfl
  | .unary span operator operand => by
    cases operand with
    | number inner number =>
      by_cases minus : operator = Text.ofString "-"
      · have operand : (Construct.value (.number inner number)).offender? = none := Construct.offender?_of_bare rfl rfl
        rw [Construct.offender?_eq]
        simp [evaluate, minus, refusal?, Construct.isAllowed, Construct.parts, Construct.node, Node.children, operand]
      · rw [Construct.offender?_of_barred (by simpa [Construct.isAllowed] using minus)]
        simp [evaluate, minus, refusal?, Construct.rejection, Node.kind, Node.span]
    | _ =>
      rw [Construct.offender?_of_barred rfl]
      rfl
  | .string .. | .number .. | .boolean .. | .null .. => by
    rw [Construct.offender?_of_bare rfl rfl]
    rfl
  | .identifier .. | .template .. | .property .. | .computedProperty .. | .shorthand .. | .spread .. | .array ..
  | .member .. | .index .. | .call .. | .taggedTemplate .. | .binary .. | .conditional .. => by
    rw [Construct.offender?_of_barred rfl]
    rfl

theorem evaluateEntries_offender : ∀ (fields : Fields Value) (entries : List Node),
    refusal? (evaluateEntries fields entries) =
      ((entries.map Construct.entry).findSome? Construct.offender?).map Construct.rejection
  | _, [] => rfl
  | fields, .property span key value :: rest => by
    have named := staticKey_offender key
    have inner := evaluate_offender value
    have others (fields : Fields Value) := evaluateEntries_offender fields rest
    rw [evaluateEntries, List.map_cons, List.findSome?_cons, Construct.offender?_eq]
    simp only [Construct.isAllowed, Construct.parts, ↓reduceIte, List.findSome?_cons, List.findSome?_nil]
    -- The key is looked at in front of the value, and the value in front of the other entries.
    cases keyed : staticKey key with
    | error rejection =>
      rw [keyed] at named
      obtain ⟨offender, found, same⟩ := Option.map_eq_some_iff.mp named.symm
      simp [found, same, refusal?]
    | ok name =>
      rw [keyed] at named
      have faultless : (Construct.key key).offender? = none := Option.map_eq_none_iff.mp named.symm
      cases evaluated : evaluate value with
      | error rejection =>
        rw [evaluated] at inner
        obtain ⟨offender, found, same⟩ := Option.map_eq_some_iff.mp inner.symm
        simp [faultless, found, same, refusal?]
      | ok content =>
        rw [evaluated] at inner
        have faultless' : (Construct.value value).offender? = none := Option.map_eq_none_iff.mp inner.symm
        simp [faultless, faultless', others]
  | _, .computedProperty span key value :: rest => by
    have barred : (Construct.computedKey key).offender? = some (.computedKey key) := Construct.offender?_of_barred rfl
    rw [List.map_cons, List.findSome?_cons, Construct.offender?_eq]
    simp [evaluateEntries, refusal?, Construct.isAllowed, Construct.parts, barred, Construct.rejection]
  | _, .shorthand span name :: rest => by
    have named : (Construct.key (.identifier span name)).offender? = none := Construct.offender?_of_bare rfl rfl
    have barred : (Construct.value (.identifier span name)).offender? = some (.value (.identifier span name)) :=
      Construct.offender?_of_barred rfl
    rw [List.map_cons, List.findSome?_cons, Construct.offender?_eq]
    simp [evaluateEntries, refusal?, Construct.isAllowed, Construct.parts, named, barred, Construct.rejection,
      Node.kind, Node.span]
  | _, .string .. :: _ | _, .number .. :: _ | _, .boolean .. :: _ | _, .null .. :: _ | _, .identifier .. :: _
  | _, .template .. :: _ | _, .object .. :: _ | _, .spread .. :: _ | _, .array .. :: _ | _, .member .. :: _
  | _, .index .. :: _ | _, .call .. :: _ | _, .taggedTemplate .. :: _ | _, .unary .. :: _ | _, .binary .. :: _
  | _, .conditional .. :: _ => by
    rw [List.map_cons, List.findSome?_cons, Construct.offender?_of_barred rfl]
    rfl
end

end StaticStyle.Expression
