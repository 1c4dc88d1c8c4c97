import StaticStyle.Json.Canonical
import StaticStyle.Proofs.Fields
import StaticStyle.Proofs.Text.Order

/-!
Values with their keys in order. Ordering the keys of a value changes nothing that is found under them, and
ordering them again changes nothing at all, so the canonical text of a value is that of the ordered one.
-/

namespace StaticStyle

namespace Fields

variable {α : Type}

theorem sorted_perm (fields : Fields α) : (sorted fields).Perm fields := List.mergeSort_perm _ _

theorem sorted_sorted (fields : Fields α) : sorted (sorted fields) = sorted fields := by
  apply List.mergeSort_of_pairwise
  apply List.pairwise_mergeSort
  · exact fun _ _ _ => Text.le_trans
  · exact fun _ _ => Text.le_total _ _

theorem sorted_map {β : Type} (fields : Fields α) (change : Text × α → β) :
    sorted (fields.map fun field => (field.1, change field)) =
      (sorted fields).map fun field => (field.1, change field) := by
  unfold sorted
  rw [List.map_mergeSort]
  exact fun _ _ _ _ => rfl

end Fields

theorem orderedFields_eq_map (fields : Fields Value) :
    orderedFields fields = fields.map fun field => (field.1, field.2.ordered) := by
  induction fields with
  | nil => rfl
  | cons field fields ih => rw [orderedFields, List.map_cons, ih]

theorem keys_orderedFields (fields : Fields Value) : Fields.keys (orderedFields fields) = Fields.keys fields := by
  rw [orderedFields_eq_map, Fields.keys, List.map_map]
  rfl

namespace Value

theorem fieldsHaveDistinctKeys_iff {fields : Fields Value} : fieldsHaveDistinctKeys fields = true ↔
    fields.keys.Nodup ∧ ∀ field ∈ fields, field.2.hasDistinctKeys = true := by
  induction fields with
  | nil => simp [fieldsHaveDistinctKeys, Fields.keys]
  | cons field fields ih =>
    have absent : Fields.contains field.1 fields = false ↔ field.1 ∉ Fields.keys fields := by
      rw [Bool.eq_false_iff, Ne, Fields.contains_iff_mem_keys]
    simp only [fieldsHaveDistinctKeys, Bool.and_eq_true, Bool.not_eq_true', absent, ih, Fields.keys, List.map_cons,
      List.nodup_cons, List.forall_mem_cons]
    tauto

mutual
/-- Whether two values are the same, where objects are maps: the order of keys makes no difference. -/
def IsSame : Value → Value → Prop
  | object fields, other =>
    ∃ fields', other = object fields' ∧ fields.length = fields'.length ∧ AreFound fields fields'
  | list items, other => ∃ items', other = list items' ∧ AreSame items items'
  | value, other => value = other

def AreSame : List Value → List Value → Prop
  | [], others => others = []
  | item :: rest, others => ∃ other rest', others = other :: rest' ∧ item.IsSame other ∧ AreSame rest rest'

/-- Whether the same values are found under the keys of some fields. -/
def AreFound : List (Text × Value) → Fields Value → Prop
  | [], _ => True
  | (key, value) :: rest, others =>
    (∃ other, Fields.get? key others = some other ∧ value.IsSame other) ∧ AreFound rest others
end

mutual
theorem ordered_ordered : ∀ value : Value, value.ordered.ordered = value.ordered
  | .null | .bool _ | .int _ | .float _ | .text _ | .stamp _ => rfl
  | .list items => by rw [ordered, ordered, orderedItems_orderedItems items]
  | .object fields => by
    have same : orderedFields (Fields.sorted (orderedFields fields)) = Fields.sorted (orderedFields fields) := by
      rw [orderedFields_eq_map (Fields.sorted _)]
      refine (List.map_congr_left fun field member => ?_).trans (List.map_id _)
      exact Prod.ext rfl (ordered_of_mem_orderedFields fields field ((Fields.sorted_perm _).mem_iff.mp member))
    rw [ordered, ordered, same, Fields.sorted_sorted]

theorem orderedItems_orderedItems : ∀ items : List Value, orderedItems (orderedItems items) = orderedItems items
  | [] => rfl
  | item :: rest => by rw [orderedItems, orderedItems, ordered_ordered item, orderedItems_orderedItems rest]

theorem ordered_of_mem_orderedFields : ∀ (fields : List (Text × Value)),
    ∀ field ∈ orderedFields fields, field.2.ordered = field.2
  | [], _, member => by cases member
  | (key, value) :: rest, field, member => by
    rcases List.mem_cons.mp member with rfl | member
    · exact ordered_ordered value
    · exact ordered_of_mem_orderedFields rest field member
end

mutual
theorem hasDistinctKeys_ordered : ∀ {value : Value}, value.hasDistinctKeys = true → value.ordered.hasDistinctKeys = true
  | .null, _ | .bool _, _ | .int _, _ | .float _, _ | .text _, _ | .stamp _, _ => rfl
  | .list items, distinct => haveDistinctKeys_orderedItems distinct
  | .object fields, distinct => by
    have nodup := (fieldsHaveDistinctKeys_iff.mp distinct).1
    refine fieldsHaveDistinctKeys_iff.mpr ⟨?_, fun field member => ?_⟩
    · rw [← keys_orderedFields] at nodup
      exact ((Fields.sorted_perm _).map _).nodup_iff.mpr nodup
    · exact hasDistinctKeys_of_mem_orderedFields distinct field ((Fields.sorted_perm _).mem_iff.mp member)

theorem haveDistinctKeys_orderedItems : ∀ {items : List Value}, haveDistinctKeys items = true →
    haveDistinctKeys (orderedItems items) = true
  | [], _ => rfl
  | _ :: _, distinct => by
    obtain ⟨here, others⟩ := Bool.and_eq_true_iff.mp distinct
    rw [orderedItems, haveDistinctKeys, hasDistinctKeys_ordered here, haveDistinctKeys_orderedItems others]
    rfl

theorem hasDistinctKeys_of_mem_orderedFields : ∀ {fields : List (Text × Value)}, fieldsHaveDistinctKeys fields = true →
    ∀ field ∈ orderedFields fields, field.2.hasDistinctKeys = true
  | [], _, _, member => by cases member
  | (key, value) :: rest, distinct, field, member => by
    simp only [fieldsHaveDistinctKeys, Bool.and_eq_true] at distinct
    rcases List.mem_cons.mp member with rfl | member
    · exact hasDistinctKeys_ordered distinct.1.2
    · exact hasDistinctKeys_of_mem_orderedFields distinct.2 field member
end

mutual
/-- A value and the ordered value are the same. -/
theorem isSame_ordered : ∀ {value : Value}, value.hasDistinctKeys = true → value.IsSame value.ordered
  | .null, _ | .bool _, _ | .int _, _ | .float _, _ | .text _, _ | .stamp _, _ => rfl
  | .list items, distinct => ⟨_, rfl, areSame_orderedItems distinct⟩
  | .object fields, distinct => by
    have nodup : (Fields.keys (orderedFields fields)).Nodup :=
      keys_orderedFields fields ▸ (fieldsHaveDistinctKeys_iff.mp distinct).1
    have size : fields.length = (Fields.sorted (orderedFields fields)).length := by
      rw [(Fields.sorted_perm _).length_eq, orderedFields_eq_map, List.length_map]
    refine ⟨_, rfl, size, areFound_of_get? distinct fun field member => ?_⟩
    rw [Fields.get?_eq_of_perm (((Fields.sorted_perm _).map _).nodup_iff.mpr nodup) (Fields.sorted_perm _)]
    apply Fields.get?_of_mem nodup
    rw [orderedFields_eq_map]
    exact List.mem_map_of_mem (f := fun field : Text × Value => (field.1, field.2.ordered)) member

theorem areSame_orderedItems : ∀ {items : List Value}, haveDistinctKeys items = true → AreSame items (orderedItems items)
  | [], _ => rfl
  | _ :: _, distinct => by
    obtain ⟨here, others⟩ := Bool.and_eq_true_iff.mp distinct
    exact ⟨_, _, rfl, isSame_ordered here, areSame_orderedItems others⟩

theorem areFound_of_get? : ∀ {fields : List (Text × Value)} {others : Fields Value}, fieldsHaveDistinctKeys fields = true →
    (∀ field ∈ fields, Fields.get? field.1 others = some field.2.ordered) → AreFound fields others
  | [], _, _, _ => trivial
  | (key, value) :: rest, _, distinct, found => by
    simp only [fieldsHaveDistinctKeys, Bool.and_eq_true] at distinct
    obtain ⟨here, behind⟩ := List.forall_mem_cons.mp found
    exact ⟨⟨_, here, isSame_ordered distinct.1.2⟩, areFound_of_get? distinct.2 behind⟩
end

end Value

/-- Ordering the keys of a value does not change its canonical text. -/
theorem Json.canonical_ordered (value : Value) : canonical value.ordered = canonical value := by
  rw [canonical, canonical, Value.ordered_ordered]

end StaticStyle
