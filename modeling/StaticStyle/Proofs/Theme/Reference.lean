import StaticStyle.Proofs.Fields
import StaticStyle.Proofs.Style.KeyOrder
import StaticStyle.Proofs.Text.Join
import StaticStyle.Style.ThemeReference
import StaticStyle.Theme.Flatten

/-!
References and theme variables. A reference is turned into the name of a variable point by point, and a theme is
turned into variables key by key. Both come to the same name for the keys that lead to a leaf, unless a key has a point
in it. Different keys can come to one name as well, and then the last leaf counts.
-/

namespace StaticStyle

namespace Theme

mutual
/-- The leaves of a value without lists in document order, each with the keys that lead to it. -/
def keyedLeaves : Value → List (List Text × Value)
  | .object fields => keyedFieldLeaves fields
  | value => [([], value)]

def keyedFieldLeaves : List (Text × Value) → List (List Text × Value)
  | [] => []
  | (key, value) :: rest =>
    (keyedLeaves value).map (fun leaf => (key :: leaf.1, leaf.2)) ++ keyedFieldLeaves rest
end

/-- The path of a variable, which is made of the keys that lead to it. -/
def keyPath (keys : List Text) : Text := keys.foldl extendPath []

mutual
theorem leaves_eq_keyedLeaves : ∀ {value : Value}, value.isListFree = true → ∀ path : Text,
    leaves path value = (keyedLeaves value).map fun leaf => (leaf.1.foldl extendPath path, leaf.2)
  | .null, _, _ | .bool _, _, _ | .int _, _, _ | .float _, _, _ | .text _, _, _ => rfl
  | .object _, free, path => by
    rw [leaves, keyedLeaves, fieldLeaves_eq_keyedFieldLeaves free]

theorem fieldLeaves_eq_keyedFieldLeaves : ∀ {fields : List (Text × Value)},
    Value.areListFree fields = true → ∀ path : Text,
      fieldLeaves path fields =
        (keyedFieldLeaves fields).map fun leaf => (leaf.1.foldl extendPath path, leaf.2)
  | [], _, _ => rfl
  | (key, value) :: rest, free, path => by
    simp only [Value.areListFree, Bool.and_eq_true] at free
    rw [fieldLeaves, keyedFieldLeaves, leaves_eq_keyedLeaves free.1, fieldLeaves_eq_keyedFieldLeaves free.2,
      List.map_append, List.map_map]
    rfl
end

/-- A variable has the value of the last leaf with its name. -/
theorem get?_flatten {theme : Fields Value} (free : Value.areListFree theme = true) (stem : Text)
    (keys : List Text) :
    Fields.get? (stem ++ .char '-' :: keyPath keys) (flatten stem theme) =
      ((keyedFieldLeaves theme).filter fun leaf => keyPath leaf.1 = keyPath keys).getLast?.map
        fun leaf => leaf.2.css := by
  rw [flatten, Fields.ofPairs, Fields.get?_foldl_put_last, fieldLeaves_eq_keyedFieldLeaves free, List.map_map,
    List.filter_map, List.getLast?_map, Option.map_map, Fields.get?, Option.or_none]
  congr 2
  refine congrArg (List.filter · _) (funext fun leaf => ?_)
  simp only [Function.comp_apply, List.append_cancel_left_eq, List.cons.injEq, true_and]
  rfl

theorem foldl_extendPath {path : Text} (nonempty : path ≠ []) (keys : List Text) :
    keys.foldl extendPath path = path ++ keys.flatMap (Text.ofString "-" ++ ·) := by
  induction keys generalizing path with
  | nil => simp
  | cons key keys ih =>
    have extended : extendPath path key = path ++ (Text.ofString "-" ++ key) := by
      rw [extendPath, if_neg (by simpa using nonempty)]
      rfl
    rw [List.foldl_cons, extended, ih (by simp [nonempty]), List.flatMap_cons, List.append_assoc]

end Theme

namespace Style

theorem variableName_append (first second : Text) :
    variableName (first ++ second) = variableName first ++ variableName second := by
  simp only [variableName, Text.substitute, List.flatMap_append, List.filter_append]

/-- What a name may hold stays as it is. -/
theorem variableName_of_parts {text : Text} (parts : text.all isVariablePart = true) : variableName text = text := by
  induction text with
  | nil => rfl
  | cons c text ih =>
    rw [List.all_cons, Bool.and_eq_true] at parts
    have noPoint : c ≠ '.' := by
      rintro rfl
      exact absurd parts.1 (by decide)
    have single : variableName [c] = [c] := by
      simp [variableName, Text.substitute, noPoint, parts.1]
    rw [← List.singleton_append, variableName_append, single, ih parts.2]

private theorem variableName_segments {keys : List Text} (parts : ∀ key ∈ keys, key.all isVariablePart = true) :
    variableName (keys.flatMap (Text.ofString "." ++ ·)) = keys.flatMap (Text.ofString "-" ++ ·) := by
  have point : variableName (Text.ofString ".") = Text.ofString "-" := by decide
  induction keys with
  | nil => rfl
  | cons key keys ih =>
    obtain ⟨keyParts, otherParts⟩ := List.forall_mem_cons.mp parts
    rw [List.flatMap_cons, List.flatMap_cons, variableName_append, variableName_append, point,
      variableName_of_parts keyParts, ih otherParts]

/-- Between points, the parts of a reference come to the path that they are the keys of. -/
theorem variableName_join {keys : List Text} (some : keys ≠ [])
    (parts : ∀ key ∈ keys, key ≠ [] ∧ key.all isVariablePart = true) :
    variableName (Text.join "." keys) = Theme.keyPath keys := by
  cases keys with
  | nil => contradiction
  | cons first others =>
    obtain ⟨⟨nonempty, firstParts⟩, otherParts⟩ := List.forall_mem_cons.mp parts
    have path : Theme.keyPath (first :: others) = first ++ others.flatMap (Text.ofString "-" ++ ·) :=
      Theme.foldl_extendPath nonempty others
    rw [Text.join_cons, variableName_append, variableName_of_parts firstParts,
      variableName_segments fun key member => (otherParts key member).2, path]

/-- A path with points between keys that have none is well formed only if each key is the part of a name. -/
theorem parts_of_isReferencePath {keys : List Text} (undotted : ∀ key ∈ keys, (.char '.') ∉ key)
    (ends : (Text.join "." keys).getLast? ≠ some (.char '\n'))
    (wellFormed : isReferencePath (Text.join "." keys) = true) :
    keys ≠ [] ∧ ∀ key ∈ keys, key ≠ [] ∧ key.all isVariablePart = true := by
  rw [isReferencePath, if_neg ends] at wellFormed
  cases keys with
  | nil => exact absurd wellFormed (by decide)
  | cons first others =>
    have same : Text.split '.' (Text.join "." (first :: others)) = first :: others := Text.split_join undotted
    rw [same, List.all_eq_true] at wellFormed
    refine ⟨List.cons_ne_nil _ _, fun key member => ?_⟩
    simpa using wellFormed key member

end Style

namespace Theme

open Style

/-- The variable that a well-formed reference to some keys uses. -/
theorem resolveReference_keys {keys : List Text} {stem : Text} (undotted : ∀ key ∈ keys, (.char '.') ∉ key)
    (ends : (Text.join "." keys).getLast? ≠ some (.char '\n'))
    (clean : (resolveReference stem (themeMarker ++ Text.join "." keys)).2 = []) :
    (resolveReference stem (themeMarker ++ Text.join "." keys)).1 =
      "var(" ++ (stem ++ .char '-' :: keyPath keys) ++ ")" := by
  simp only [resolveReference, List.drop_left] at clean ⊢
  cases wellFormed : isReferencePath (Text.join "." keys) with
  | false => simp [wellFormed] at clean
  | true =>
    obtain ⟨some, parts⟩ := parts_of_isReferencePath undotted ends wellFormed
    rw [variableName_join some parts]
    simp [Text.ofString]

/-- A reference to the keys that lead to a leaf of a theme uses a variable that the theme defines, if it is not
reported, no key has a point in it and the leaves can be written. The value is that of the leaf, unless the keys of a
later leaf come to the same name; then it is that of the last of these. -/
theorem resolveReference_defined {theme : Fields Value} (free : Value.areListFree theme = true)
    (written : Value.fieldsAreWritable theme = true)
    {before after : List (List Text × Value)} {keys : List Text} {leaf : Value}
    (placed : keyedFieldLeaves theme = before ++ (keys, leaf) :: after)
    (undotted : ∀ key ∈ keys, (.char '.') ∉ key)
    (ends : (Text.join "." keys).getLast? ≠ some (.char '\n')) {stem : Text}
    (clean : (resolveReference stem (themeMarker ++ Text.join "." keys)).2 = []) :
    ∃ name vars, (resolveReference stem (themeMarker ++ Text.join "." keys)).1 = "var(" ++ name ++ ")" ∧
      makeVariables stem theme = .ok vars ∧ Fields.get? name vars =
        some ((after.filter fun other => keyPath other.1 = keyPath keys).getLast?.getD (keys, leaf)).2.css := by
  refine ⟨stem ++ .char '-' :: keyPath keys, flatten stem theme, resolveReference_keys undotted ends clean,
    if_pos written, ?_⟩
  rw [get?_flatten free, placed, List.filter_append, List.filter_cons, if_pos (decide_eq_true rfl),
    List.getLast?_append, List.getLast?_cons]
  rfl

/-- A reference through two objects, by keys with a dash, a digit and an underscore. -/
theorem resolveReference_defined_nested :
    let theme : Fields Value := [("colors", .object [("primary", .text "red"),
      ("dark-2", .object [("base_1", .int 7)])]), ("space", .int 4)]
    let reference : Text := themeMarker ++ Text.join "." ["colors", "dark-2", "base_1"]
    Value.areListFree theme = true ∧ Value.fieldsAreWritable theme = true ∧
      (resolveReference "--theme" reference).2 = [] ∧
      ∃ name vars, (resolveReference "--theme" reference).1 = "var(" ++ name ++ ")" ∧
        makeVariables "--theme" theme = .ok vars ∧ Fields.get? name vars = some (Text.ofString "7") := by
  intro theme reference
  have clean : (resolveReference "--theme" reference).2 = [] := by decide +kernel
  let before : List (List Text × Value) := [(["colors", "primary"], .text "red")]
  let after : List (List Text × Value) := [(["space"], .int 4)]
  let keys : List Text := ["colors", "dark-2", "base_1"]
  have placed : keyedFieldLeaves theme = before ++ (keys, .int 7) :: after := rfl
  have written : Value.fieldsAreWritable theme = true := by decide +kernel
  obtain ⟨name, vars, uses, flattened, found⟩ :=
    resolveReference_defined (by decide) written placed (by decide) (by decide) clean
  have alone : after.filter (fun other => keyPath other.1 = keyPath keys) = [] := by decide
  rw [alone] at found
  exact ⟨by decide, written, clean, name, vars, uses, flattened, found⟩

/-- Every reference to a leaf that is not reported uses a variable with the value of the leaf. -/
def ReferencesReach (stem : Text) (theme : Fields Value) : Prop :=
  ∀ leaf ∈ keyedFieldLeaves theme, (resolveReference stem (themeMarker ++ Text.join "." leaf.1)).2 = [] →
    ∃ name vars, (resolveReference stem (themeMarker ++ Text.join "." leaf.1)).1 = "var(" ++ name ++ ")" ∧
      makeVariables stem theme = .ok vars ∧ Fields.get? name vars = some leaf.2.css

theorem ReferencesReach.get? {stem : Text} {theme : Fields Value} (reach : ReferencesReach stem theme)
    (leaf : List Text × Value) (member : leaf ∈ keyedFieldLeaves theme)
    (clean : (resolveReference stem (themeMarker ++ Text.join "." leaf.1)).2 = []) (name : Text)
    (uses : (resolveReference stem (themeMarker ++ Text.join "." leaf.1)).1 = "var(" ++ name ++ ")") :
    Value.fieldsAreWritable theme = true ∧ Fields.get? name (flatten stem theme) = some leaf.2.css := by
  obtain ⟨other, vars, uses', flattened, found⟩ := reach leaf member clean
  rw [uses, List.append_cancel_right_eq, List.append_cancel_left_eq] at uses'
  rw [makeVariables] at flattened
  split at flattened
  · rename_i written
    cases flattened
    exact ⟨written, uses' ▸ found⟩
  · cases flattened

/-- A key with a point in it, and two leaves of one name, keep references from their leaves, and so does a line feed
behind a reference. A theme with an oversized integer has no variables to refer to. -/
theorem references_may_miss :
    ¬ ReferencesReach "--theme" [("a.b", .int 1)] ∧
      ¬ ReferencesReach "--theme" [("a", .object [("b", .int 1)]), ("a-b", .int 2)] ∧
      ¬ ReferencesReach "--theme" [("a\n", .int 1)] ∧
      ¬ ReferencesReach "--theme" [("a", .int 1), ("b", .int Numeral.bound)] := by
  refine ⟨fun reach => ?_, fun reach => ?_, fun reach => ?_, fun reach => ?_⟩
  · have found := reach.get? (["a.b"], .int 1) (by simp [keyedFieldLeaves, keyedLeaves])
      (by decide +kernel) "--theme-a-b" (by decide +kernel)
    exact absurd found.2 (by decide +kernel)
  · have found := reach.get? (["a", "b"], .int 1) (by simp [keyedFieldLeaves, keyedLeaves])
      (by decide +kernel) "--theme-a-b" (by decide +kernel)
    exact absurd found.2 (by decide +kernel)
  · have found := reach.get? (["a\n"], .int 1) (by simp [keyedFieldLeaves, keyedLeaves])
      (by decide +kernel) "--theme-a" (by decide +kernel)
    exact absurd found.2 (by decide +kernel)
  · have found := reach.get? (["a"], .int 1) (.head _)
      (by decide +kernel) "--theme-a" (by decide +kernel)
    exact absurd found.1 (by decide +kernel)

end Theme

end StaticStyle
