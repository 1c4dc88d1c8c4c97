import StaticStyle.Proofs.Theme.Reference

/-!
The names of theme variables. A variable is named by the keys and list indices that lead to a scalar, joined by
dashes. Empty keys in front of the others are lost, because a key behind an empty path stands alone.
-/

namespace StaticStyle.Theme

mutual
/-- The scalars of a value in document order, each with the keys and list indices that lead to it. -/
def placedLeaves : Value → List (List Text × Value)
  | .object fields => placedFieldLeaves fields
  | .list items => placedItemLeaves 0 items
  | value => [([], value)]

def placedFieldLeaves : List (Text × Value) → List (List Text × Value)
  | [] => []
  | (key, value) :: rest =>
    (placedLeaves value).map (fun leaf => (key :: leaf.1, leaf.2)) ++ placedFieldLeaves rest

def placedItemLeaves (index : Nat) : List Value → List (List Text × Value)
  | [] => []
  | item :: rest =>
    (placedLeaves item).map (fun leaf => (Text.ofNat index :: leaf.1, leaf.2)) ++ placedItemLeaves (index + 1) rest
end

mutual
theorem leaves_eq_placedLeaves : ∀ (value : Value) (path : Text),
    leaves path value = (placedLeaves value).map fun leaf => (leaf.1.foldl extendPath path, leaf.2)
  | .null, _ | .bool _, _ | .int _, _ | .float _, _ | .text _, _ | .stamp _, _ => rfl
  | .list items, path => by rw [leaves, placedLeaves, itemLeaves_eq_placedItemLeaves items]
  | .object fields, path => by rw [leaves, placedLeaves, fieldLeaves_eq_placedFieldLeaves fields]

theorem fieldLeaves_eq_placedFieldLeaves : ∀ (fields : List (Text × Value)) (path : Text),
    fieldLeaves path fields = (placedFieldLeaves fields).map fun leaf => (leaf.1.foldl extendPath path, leaf.2)
  | [], _ => rfl
  | (key, value) :: rest, path => by
    rw [fieldLeaves, placedFieldLeaves, leaves_eq_placedLeaves value, fieldLeaves_eq_placedFieldLeaves rest,
      List.map_append, List.map_map]
    rfl

theorem itemLeaves_eq_placedItemLeaves : ∀ (items : List Value) (path : Text) (index : Nat),
    itemLeaves path index items =
      (placedItemLeaves index items).map fun leaf => (leaf.1.foldl extendPath path, leaf.2)
  | [], _, _ => rfl
  | item :: rest, path, index => by
    rw [itemLeaves, placedItemLeaves, leaves_eq_placedLeaves item, itemLeaves_eq_placedItemLeaves rest,
      List.map_append, List.map_map]
    rfl
end

/-- A path is made of its keys without the empty ones in front. -/
theorem keyPath_eq_join (keys : List Text) : keyPath keys = Text.join "-" (keys.dropWhile List.isEmpty) := by
  induction keys with
  | nil => rfl
  | cons key keys ih =>
    cases key with
    | nil => exact ih
    | cons c key => exact (foldl_extendPath (List.cons_ne_nil c key) keys).trans (Text.join_cons _ _ _).symm

theorem length_keyPath_le (keys : List Text) : (keyPath keys).length ≤ (Text.join "-" keys).length := by
  induction keys with
  | nil => exact Nat.le_refl _
  | cons key keys ih =>
    cases key with
    | nil =>
      refine ih.trans ?_
      cases keys with
      | nil => exact Nat.zero_le _
      | cons key keys =>
        rw [Text.join_cons, Text.join_cons, List.flatMap_cons]
        simp only [List.length_append]
        omega
    | cons c key => exact Nat.le_of_eq (congrArg List.length (keyPath_eq_join _))

/-- A path is made of all of its keys, unless more keys follow an empty one in front. -/
theorem keyPath_eq_join_iff (keys : List Text) :
    keyPath keys = Text.join "-" keys ↔ (keys.head? = some [] → keys.length = 1) := by
  match keys with
  | [] | [[]] => simp [keyPath_eq_join, Text.join]
  | (c :: key) :: keys => simp [keyPath_eq_join]
  | [] :: key :: keys =>
    have shorter := length_keyPath_le (key :: keys)
    have longer : Text.join "-" ([] :: key :: keys) = Text.ofString "-" ++ Text.join "-" (key :: keys) := by
      rw [Text.join_cons, Text.join_cons, List.flatMap_cons, List.nil_append, List.append_assoc]
    have dropped : keyPath ([] :: key :: keys) = keyPath (key :: keys) := rfl
    refine iff_of_false (fun same => ?_) (by simp)
    have lengths := congrArg List.length ((dropped.symm.trans same).trans longer)
    rw [List.length_append] at lengths
    have dash : (Text.ofString "-").length = 1 := rfl
    omega

/-- The variable that a path of keys and indices is meant to name. -/
def variableOf (stem : Text) (path : List Text) : Text := stem ++ "-" ++ Text.join "-" path

theorem flatten_collects (stem : Text) (theme : Fields Value) :
    (flatten stem theme).Collects ((placedFieldLeaves theme).map fun leaf =>
      (variableOf stem (leaf.1.dropWhile List.isEmpty), leaf.2.css)) := by
  have pairs : (fieldLeaves [] theme).map (fun leaf => (stem ++ .char '-' :: leaf.1, leaf.2.css)) =
      (placedFieldLeaves theme).map fun leaf =>
        (variableOf stem (leaf.1.dropWhile List.isEmpty), leaf.2.css) := by
    rw [fieldLeaves_eq_placedFieldLeaves, List.map_map]
    refine List.map_congr_left fun leaf _ => Prod.ext ?_ rfl
    have path : leaf.1.foldl extendPath [] = Text.join "-" (leaf.1.dropWhile List.isEmpty) := keyPath_eq_join leaf.1
    simp only [Function.comp_apply, path, variableOf, List.append_assoc]
    rfl
  rw [← pairs]
  exact Fields.ofPairs_collects _

/-- The variables of a theme are named by the keys and indices that lead to its scalars, joined by dashes, in document
order, and of scalars with one name the last counts. The empty keys in front of a path have no part in the name, so the
name is the one that is meant unless keys follow an empty one in front. -/
theorem flatten_names (stem : Text) (theme : Fields Value) :
    (flatten stem theme).Collects ((placedFieldLeaves theme).map fun leaf =>
      (variableOf stem (leaf.1.dropWhile List.isEmpty), leaf.2.css)) ∧
    (∀ path : List Text, variableOf stem (path.dropWhile List.isEmpty) = variableOf stem path ↔
      (path.head? = some [] → path.length = 1)) ∧
    ((∀ leaf ∈ placedFieldLeaves theme, leaf.1.head? = some [] → leaf.1.length = 1) →
      (flatten stem theme).Collects ((placedFieldLeaves theme).map fun leaf =>
        (variableOf stem leaf.1, leaf.2.css))) := by
  have named (path : List Text) : variableOf stem (path.dropWhile List.isEmpty) = variableOf stem path ↔
      (path.head? = some [] → path.length = 1) := by
    rw [variableOf, variableOf, List.append_cancel_left_eq, ← keyPath_eq_join, keyPath_eq_join_iff]
  refine ⟨flatten_collects stem theme, named, fun alone => ?_⟩
  have whole : (placedFieldLeaves theme).map (fun leaf => (variableOf stem leaf.1, leaf.2.css)) =
      (placedFieldLeaves theme).map fun leaf => (variableOf stem (leaf.1.dropWhile List.isEmpty), leaf.2.css) :=
    List.map_congr_left fun leaf member => Prod.ext ((named leaf.1).mpr (alone leaf member)).symm rfl
  rw [whole]
  exact flatten_collects stem theme

/-- Empty keys inside and by themselves, a list in an object and an object in a list, keys with dashes, and two paths
of one name. -/
theorem flatten_names_scale :
    let theme : Fields Value := [("a", .object [("", .int 1), ("b-c", .list [.bool true, .object [("", .null)]])]),
      ("a-b", .object [("c-0", .text "last")]), ("none", .list []), ("", .int 3)]
    (∀ leaf ∈ placedFieldLeaves theme, leaf.1.head? = some [] → leaf.1.length = 1) ∧
      Fields.keys (flatten "--x" theme) = ["--x-a-", "--x-a-b-c-0", "--x-a-b-c-1-", "--x-"].map Text.ofString ∧
      Fields.get? "--x-a-b-c-0" (flatten "--x" theme) = some (Text.ofString "last") := by
  intro theme
  have alone : ∀ leaf ∈ placedFieldLeaves theme, leaf.1.head? = some [] → leaf.1.length = 1 := by
    have all : (placedFieldLeaves theme).all (fun leaf => leaf.1.head? != some [] || leaf.1.length == 1) = true := by
      decide
    intro leaf member empty
    simpa [empty] using List.all_eq_true.mp all leaf member
  have collects := (flatten_names "--x" theme).2.2 alone
  exact ⟨alone, collects.keys.trans (by decide), (collects.values _).trans (by decide)⟩

end StaticStyle.Theme
