import StaticStyle.Proofs.Expression.Evaluate
import StaticStyle.Proofs.Json.Canonical
import StaticStyle.Style.Compile

/-!
Styles that differ in the order of keys only are compiled alike. Styles are made of objects and of what can
stand in a style sheet, never of lists, dates or times, so the canonical text says everything about them but that order.
-/

namespace StaticStyle

namespace Value

mutual
/-- Whether a value has no list, date or time in it, at any depth. -/
def isListFree : Value → Bool
  | stamp _ | list _ => false
  | object fields => areListFree fields
  | _ => true

def areListFree : List (Text × Value) → Bool
  | [] => true
  | (_, value) :: rest => value.isListFree && areListFree rest
end

mutual
theorem arranged_eq_ordered : ∀ {value : Value}, value.isListFree = true →
    value.arranged = value.ordered
  | .null, _ | .bool _, _ | .int _, _ | .float _, _ | .text _, _ => rfl
  | .object _, free => by
    rw [arranged, ordered, arrangedFields_eq_orderedFields free]

theorem arrangedFields_eq_orderedFields : ∀ {fields : List (Text × Value)},
    areListFree fields = true → arrangedFields fields = orderedFields fields
  | [], _ => rfl
  | (_, _) :: _, free => by
    simp only [areListFree, Bool.and_eq_true] at free
    rw [arrangedFields, orderedFields, arranged_eq_ordered free.1,
      arrangedFields_eq_orderedFields free.2]
end

mutual
theorem lacksStamps_of_isListFree : ∀ {value : Value}, value.isListFree = true → value.lacksStamps = true
  | .null, _ | .bool _, _ | .int _, _ | .float _, _ | .text _, _ => rfl
  | .object _, free => fieldsLackStamps_of_areListFree free

theorem fieldsLackStamps_of_areListFree : ∀ {fields : List (Text × Value)}, areListFree fields = true →
    fieldsLackStamps fields = true
  | [], _ => rfl
  | (_, _) :: _, free => by
    simp only [areListFree, Bool.and_eq_true] at free
    rw [fieldsLackStamps, lacksStamps_of_isListFree free.1, fieldsLackStamps_of_areListFree free.2]
    rfl
end

theorem areListFree_put {fields : Fields Value} (free : areListFree fields = true) (key : Text)
    {value : Value} (valueFree : value.isListFree = true) :
    areListFree (fields.put key value) = true := by
  induction fields with
  | nil => simp [Fields.put, areListFree, valueFree]
  | cons field fields ih =>
    simp only [areListFree, Bool.and_eq_true] at free
    unfold Fields.put
    split
    · simp [areListFree, valueFree, free.2]
    · simp [areListFree, free.1, ih free.2]

theorem isListFree_of_mem {fields : Fields Value} {key : Text} {value : Value}
    (free : areListFree fields = true) (member : (key, value) ∈ fields) :
    value.isListFree = true := by
  induction fields with
  | nil => simp at member
  | cons field fields ih =>
    simp only [areListFree, Bool.and_eq_true] at free
    rcases List.mem_cons.mp member with rfl | member
    · exact free.1
    · exact ih free.2 member

end Value

private theorem Fields.sorted_swap {α : Type} {first second : Text × α}
    (ascends : Text.le first.1 second.1 = true) (apart : Text.le second.1 first.1 = false) :
    sorted [second, first] = sorted [first, second] := by
  simp [sorted, List.mergeSort, ascends, apart]

/-- The fields of an object expression have no list in them. -/
theorem Expression.evaluateObject_isListFree {node : Node} {fields : Fields Value}
    (found : evaluateObject node = .ok fields) : Value.areListFree fields = true := by
  have kept : Kept (fun value => value.isListFree = true)
      fun fields => Value.areListFree fields = true :=
    { text := fun _ => rfl
      number := fun number => by cases number <;> rfl
      bool := fun _ => rfl
      null := rfl
      object := fun _ free => free
      empty := rfl
      put := fun _ key _ free => Value.areListFree_put free key }
  exact kept.evaluateObject found

namespace Style

/-- Styles with the same canonical text have the same rule, the same findings and the same fault, for every
class. -/
theorem compile_eq_of_canonical_eq {style style' : Fields Value}
    (free : Value.areListFree style = true) (free' : Value.areListFree style' = true)
    (same : Json.canonical (.object style) = Json.canonical (.object style'))
    (stem className identity : Text) :
    compile stem className identity style = compile stem className identity style' := by
  have arranged : (Value.object style).arranged = (Value.object style').arranged := by
    calc (Value.object style).arranged = (Value.object style).ordered :=
          Value.arranged_eq_ordered free
      _ = (Value.object style').ordered := Json.ordered_eq_of_canonical_eq
          (Value.fieldsLackStamps_of_areListFree free) (Value.fieldsLackStamps_of_areListFree free') same
      _ = (Value.object style').arranged := Eq.symm (Value.arranged_eq_ordered free')
  rw [Value.arranged, Value.arranged, Value.object.injEq] at arranged
  rw [compile, compile, compileBlocks, compileBlocks, arranged]

/-- The canonical text of a style determines its style sheet text. For every class and every beginning of
theme variables, styles with the same canonical text lead to the same findings in the same order, and
then either to the same blocks or to the same fault. -/
theorem compile_determined_by_canonical (style style' : Fields Value)
    (free : Value.areListFree style = true) (free' : Value.areListFree style' = true)
    (same : Json.canonical (.object style) = Json.canonical (.object style'))
    (stem className identity : Text) :
    (compile stem className identity style).findings =
        (compile stem className identity style').findings ∧
      match (compile stem className identity style).result,
        (compile stem className identity style').result with
      | .ok rule, .ok rule' => rule.primary = rule'.primary ∧ rule.siblings = rule'.siblings
      | .error invalid, .error invalid' =>
        invalid.key = invalid'.key ∧ invalid.message = invalid'.message
      | _, _ => False := by
  rw [compile_eq_of_canonical_eq free free' same]
  refine ⟨rfl, ?_⟩
  cases (compile stem className identity style').result with
  | ok rule => exact ⟨rfl, rfl⟩
  | error invalid => exact ⟨rfl, rfl⟩

/-- The keys of two levels in different orders, behind a finding and in front of a fault. -/
theorem compile_determined_by_canonical_reordered :
    let style : Fields Value :=
      [("m", .object []), (":hover", .object [("top", .float .nan), ("color", .text "$theme.a b")])]
    let style' : Fields Value :=
      [(":hover", .object [("color", .text "$theme.a b"), ("top", .float .nan)]), ("m", .object [])]
    Json.canonical (.object style) = Json.canonical (.object style') ∧
      Value.areListFree style = true ∧ Value.areListFree style' = true ∧
      (compile "--theme" "zx-1" "1" style).findings =
        (compile "--theme" "zx-1" "1" style').findings ∧
      match (compile "--theme" "zx-1" "1" style).result,
        (compile "--theme" "zx-1" "1" style').result with
      | .ok rule, .ok rule' => rule.primary = rule'.primary ∧ rule.siblings = rule'.siblings
      | .error invalid, .error invalid' =>
        invalid.key = invalid'.key ∧ invalid.message = invalid'.message
      | _, _ => False := by
  intro style style'
  have level : Fields.sorted [("top", Value.float .nan), ("color", .text "$theme.a b")] =
      Fields.sorted [("color", .text "$theme.a b"), ("top", .float .nan)] :=
    Fields.sorted_swap (by decide) (by decide)
  have same : Json.canonical (.object style) = Json.canonical (.object style') := by
    simp only [style, style', Json.canonical, Value.ordered, orderedFields]
    rw [level, Fields.sorted_swap (by decide) (by decide)]
  exact ⟨same, rfl, rfl,
    compile_determined_by_canonical style style' rfl rfl same "--theme" "zx-1" "1"⟩

end Style

end StaticStyle
