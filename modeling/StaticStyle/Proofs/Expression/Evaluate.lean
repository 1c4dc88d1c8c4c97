import StaticStyle.Expression.Evaluate
import StaticStyle.Proofs.Fields

/-!
What evaluation keeps. A property of literals that objects inherit from their fields, and that fields keep when
a value is put among them, is a property of everything that is evaluated. So an evaluated object is a map at
every depth, as a key that is written twice keeps its last value only.
-/

namespace StaticStyle

namespace Expression

/-- A property of values, and one of fields, that evaluation keeps. -/
structure Kept (ofValue : Value → Prop) (ofFields : Fields Value → Prop) : Prop where
  text : ∀ text, ofValue (.text text)
  number : ∀ number : Number, ofValue number.toValue
  bool : ∀ b, ofValue (.bool b)
  null : ofValue .null
  object : ∀ fields, ofFields fields → ofValue (.object fields)
  empty : ofFields []
  put : ∀ fields key value, ofFields fields → ofValue value → ofFields (Fields.put key value fields)

section Kept

variable {ofValue : Value → Prop} {ofFields : Fields Value → Prop}

mutual
private theorem Kept.evaluate (kept : Kept ofValue ofFields) : ∀ {node : Node} {value : Value},
    evaluate node = .ok value → ofValue value
  | .string .., _, found => by cases found; exact kept.text _
  | .boolean .., _, found => by cases found; exact kept.bool _
  | .null .., _, found => by cases found; exact kept.null
  | .number .., _, found => by cases found; exact kept.number _
  | .object _ entries, _, found => by
    rw [Expression.evaluate] at found
    cases evaluated : Expression.evaluateEntries [] entries with
    | error rejection => simp [evaluated, Except.map] at found
    | ok fields =>
      simp only [evaluated, Except.map, Except.ok.injEq] at found
      exact found ▸ kept.object fields (kept.evaluateEntries kept.empty evaluated)
  | .unary span operator operand, value, found => by
    unfold Expression.evaluate at found
    split at found <;> simp_all
    split at found <;> simp_all
    subst found
    exact kept.number _
  | .identifier .., _, found | .template .., _, found | .property .., _, found
  | .computedProperty .., _, found | .shorthand .., _, found | .spread .., _, found
  | .array .., _, found | .member .., _, found | .index .., _, found | .call .., _, found
  | .taggedTemplate .., _, found | .binary .., _, found | .conditional .., _, found => by
    simp [Expression.evaluate] at found

private theorem Kept.evaluateEntries (kept : Kept ofValue ofFields) :
    ∀ {entries : List Node} {fields result : Fields Value}, ofFields fields →
      evaluateEntries fields entries = .ok result → ofFields result
  | [], _, _, has, found => by cases found; exact has
  | .property _ key value :: rest, fields, result, has, found => by
    rw [Expression.evaluateEntries] at found
    cases named : staticKey key with
    | error rejection => simp [named] at found
    | ok name =>
      cases evaluated : Expression.evaluate value with
      | error rejection => simp [named, evaluated] at found
      | ok content =>
        simp only [named, evaluated] at found
        exact kept.evaluateEntries (kept.put _ name _ has (kept.evaluate evaluated)) found
  | .string .. :: _, _, _, _, found | .number .. :: _, _, _, _, found
  | .boolean .. :: _, _, _, _, found | .null .. :: _, _, _, _, found
  | .identifier .. :: _, _, _, _, found | .template .. :: _, _, _, _, found
  | .object .. :: _, _, _, _, found | .computedProperty .. :: _, _, _, _, found
  | .shorthand .. :: _, _, _, _, found | .spread .. :: _, _, _, _, found
  | .array .. :: _, _, _, _, found | .member .. :: _, _, _, _, found
  | .index .. :: _, _, _, _, found | .call .. :: _, _, _, _, found
  | .taggedTemplate .. :: _, _, _, _, found | .unary .. :: _, _, _, _, found
  | .binary .. :: _, _, _, _, found | .conditional .. :: _, _, _, _, found => by
    simp [Expression.evaluateEntries] at found
end

theorem Kept.evaluateObject (kept : Kept ofValue ofFields) {node : Node} {fields : Fields Value}
    (found : evaluateObject node = .ok fields) : ofFields fields := by
  cases node with
  | object span entries => exact kept.evaluateEntries kept.empty found
  | _ => simp [Expression.evaluateObject] at found

end Kept

end Expression

namespace Value

theorem fieldsHaveDistinctKeys_put {fields : Fields Value}
    (distinct : fieldsHaveDistinctKeys fields = true) (key : Text) {value : Value}
    (valueDistinct : value.hasDistinctKeys = true) :
    fieldsHaveDistinctKeys (Fields.put key value fields) = true := by
  induction fields with
  | nil => simp [Fields.put, fieldsHaveDistinctKeys, Fields.contains, Fields.get?, valueDistinct]
  | cons field fields ih =>
    simp only [fieldsHaveDistinctKeys, Bool.and_eq_true, Bool.not_eq_true'] at distinct
    unfold Fields.put
    split
    · rename_i same
      simp only [fieldsHaveDistinctKeys, ← same, distinct.1.1, valueDistinct, distinct.2, Bool.not_false,
        Bool.and_self]
    · rename_i different
      have absent : Fields.contains field.1 (Fields.put key value fields) = false := by
        rw [Fields.contains, Fields.get?_put_of_ne different]
        exact distinct.1.1
      simp only [fieldsHaveDistinctKeys, absent, distinct.1.2, ih distinct.2, Bool.not_false,
        Bool.and_self]

theorem hasDistinctKeys_of_mem {fields : Fields Value} {key : Text} {value : Value}
    (distinct : fieldsHaveDistinctKeys fields = true) (member : (key, value) ∈ fields) :
    value.hasDistinctKeys = true := by
  induction fields with
  | nil => simp at member
  | cons field fields ih =>
    simp only [fieldsHaveDistinctKeys, Bool.and_eq_true] at distinct
    rcases List.mem_cons.mp member with rfl | member
    · exact distinct.1.2
    · exact ih distinct.2 member

end Value

/-- The fields of an object expression have distinct keys, at every depth. -/
theorem Expression.evaluateObject_hasDistinctKeys {node : Node} {fields : Fields Value}
    (found : evaluateObject node = .ok fields) : Value.fieldsHaveDistinctKeys fields = true := by
  have kept : Kept (fun value => value.hasDistinctKeys = true)
      fun fields => Value.fieldsHaveDistinctKeys fields = true :=
    { text := fun _ => rfl
      number := fun number => by cases number <;> rfl
      bool := fun _ => rfl
      null := rfl
      object := fun _ distinct => distinct
      empty := rfl
      put := fun _ key _ distinct => Value.fieldsHaveDistinctKeys_put distinct key }
  exact kept.evaluateObject found

end StaticStyle
