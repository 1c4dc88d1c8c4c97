import StaticStyle.Proofs.Expression.Evaluate
import StaticStyle.Proofs.Json.Order
import StaticStyle.Theme.Merge

namespace StaticStyle

namespace Value

/-- What a path of keys leads to. -/
def follow? : List Text → Value → Option Value
  | [], value => some value
  | key :: path, object fields => (Fields.get? key fields).bind (follow? path)
  | _ :: _, _ => none

def isObject : Value → Bool
  | object _ => true
  | _ => false

end Value

namespace Theme

/-- What a path of keys leads to in a theme. -/
def follow? (path : List Text) (theme : Fields Value) : Option Value := (Value.object theme).follow? path

variable {below above inner outer theme : Fields Value} {key : Text} {path : List Text} {value : Value}

theorem follow?_of_none (absent : theme.get? key = none) (path : List Text) : follow? (key :: path) theme = none := by
  rw [follow?, Value.follow?, absent, Option.bind_none]

theorem follow?_of_some (found : theme.get? key = some value) (path : List Text) :
    follow? (key :: path) theme = value.follow? path := by
  rw [follow?, Value.follow?, found, Option.bind_some]

/-- What a value becomes that is put over another one, or over nothing. -/
def overlay : Option Value → Value → Value
  | some (.object inner), .object outer => .object (merge inner outer)
  | _, other => other

/-- Unless two objects meet, nothing of the value below is left. -/
theorem overlay_of_apart {below : Option Value}
    (apart : ∀ inner outer, below = some (.object inner) → value ≠ .object outer) : overlay below value = value := by
  unfold overlay
  split
  · rename_i inner outer
    exact absurd rfl (apart inner outer rfl)
  · rfl

theorem merge_cons (below : Fields Value) (key : Text) (value : Value) (above : List (Text × Value)) :
    merge below ((key, value) :: above) = merge (below.put key (overlay (below.get? key) value)) above := by
  rw [merge.eq_def]
  rfl

/-- What a merged theme has under a key. -/
theorem get?_merge (below : Fields Value) (nodup : above.keys.Nodup) (key : Text) :
    (merge below above).get? key = ((above.get? key).map (overlay (below.get? key))).or (below.get? key) := by
  induction above generalizing below with
  | nil => simp [merge, Fields.get?]
  | cons field above ih =>
    obtain ⟨absent, nodup⟩ := List.nodup_cons.mp nodup
    rw [merge_cons, ih _ nodup, Fields.get?_put, Fields.get?]
    by_cases same : field.1 = key
    · have nothing : Fields.get? key above = none := by
        rw [← Option.not_isSome_iff_eq_none, ← same]
        exact fun found => absent (Fields.contains_iff_mem_keys.mp found)
      simp [same, nothing]
    · simp [same, Ne.symm same]

/-- How two themes meet under a key, and what the merged theme has behind it. -/
inductive Meets (below above : Fields Value) (key : Text) : Prop where
  | absent (nothing : above.get? key = none)
      (same : ∀ path, follow? (key :: path) (merge below above) = follow? (key :: path) below)
  | objects {inner outer : Fields Value} (lower : below.get? key = some (.object inner))
      (upper : above.get? key = some (.object outer))
      (same : ∀ path, follow? (key :: path) (merge below above) = follow? path (merge inner outer))
  | apart {value : Value} (upper : above.get? key = some value)
      (apart : ∀ inner outer, below.get? key = some (.object inner) → value ≠ .object outer)
      (same : ∀ path, follow? (key :: path) (merge below above) = follow? (key :: path) above)

theorem meets (nodup : above.keys.Nodup) (below : Fields Value) (key : Text) : Meets below above key := by
  have merged := get?_merge below nodup key
  cases upper : above.get? key with
  | none =>
    rw [upper, Option.map_none, Option.none_or] at merged
    refine .absent upper fun path => ?_
    rw [follow?, follow?, Value.follow?, Value.follow?, merged]
  | some value =>
    rw [upper, Option.map_some, Option.some_or] at merged
    by_cases meet : ∃ inner outer, below.get? key = some (.object inner) ∧ value = .object outer
    · obtain ⟨inner, outer, lower, rfl⟩ := meet
      rw [lower] at merged
      exact .objects lower upper fun path => follow?_of_some merged path
    · have apart : ∀ inner outer, below.get? key = some (.object inner) → value ≠ .object outer :=
        fun inner outer lower same => meet ⟨inner, outer, lower, same⟩
      rw [overlay_of_apart apart] at merged
      exact .apart upper apart fun path => (follow?_of_some merged path).trans (follow?_of_some upper path).symm

/-- Whether `merged` is `below` with the values of `above` put over it. -/
structure IsOverlay (below above merged : Fields Value) : Prop where
  /-- Any value but an object takes the place of what is below. -/
  replaced : ∀ {path value}, follow? path above = some value → value.isObject = false →
    follow? path merged = some value
  /-- Behind a path to objects in both themes, the keys that are not above are as they are below. -/
  inherited : ∀ {path key inner outer}, follow? path below = some (.object inner) →
    follow? path above = some (.object outer) → follow? (path ++ [key]) above = none →
    follow? (path ++ [key]) merged = follow? (path ++ [key]) below
  /-- An object above of what is no object below is as it is above. -/
  added : ∀ {path outer}, follow? path above = some (.object outer) →
    (∀ inner, follow? path below ≠ some (.object inner)) → follow? path merged = some (.object outer)
  /-- Where both have an object, there is an object. -/
  combined : ∀ {path inner outer}, follow? path below = some (.object inner) →
    follow? path above = some (.object outer) → ∃ fields, follow? path merged = some (.object fields)
  /-- Every path leads to something below or above. -/
  reached : ∀ {path}, follow? path merged ≠ none → follow? path below ≠ none ∨ follow? path above ≠ none

private theorem distinct_object (distinct : Value.fieldsHaveDistinctKeys above = true)
    (found : above.get? key = some (.object outer)) : Value.fieldsHaveDistinctKeys outer = true :=
  Value.hasDistinctKeys_of_mem distinct (Fields.mem_of_get? found)

private theorem nodup_of_distinct (distinct : Value.fieldsHaveDistinctKeys above = true) : above.keys.Nodup :=
  (Value.fieldsHaveDistinctKeys_iff.mp distinct).1

theorem follow?_merge_replaced (distinct : Value.fieldsHaveDistinctKeys above = true)
    (found : follow? path above = some value) (scalar : value.isObject = false) :
    follow? path (merge below above) = some value := by
  induction path generalizing below above with
  | nil =>
    obtain rfl := Option.some.inj found
    cases scalar
  | cons key path ih =>
    cases meets (nodup_of_distinct distinct) below key with
    | absent nothing => rw [follow?_of_none nothing] at found; cases found
    | objects _ upper same =>
      rw [same]
      exact ih (distinct_object distinct upper) ((follow?_of_some upper path).symm.trans found)
    | apart _ _ same => rw [same, found]

private theorem object_of_follow? (found : follow? (key :: path) theme = some (.object outer)) :
    ∃ fields, theme.get? key = some (.object fields) ∧ follow? path fields = some (.object outer) := by
  cases first : theme.get? key with
  | none => rw [follow?_of_none first] at found; cases found
  | some value =>
    rw [follow?_of_some first] at found
    cases path with
    | nil => exact ⟨outer, found, rfl⟩
    | cons key path =>
      cases value with
      | object fields => exact ⟨fields, rfl, found⟩
      | _ => cases found

/-- Where both themes have an object, the merged one has the two of them merged. -/
theorem follow?_merge_combined (distinct : Value.fieldsHaveDistinctKeys above = true)
    (lower : follow? path below = some (.object inner)) (upper : follow? path above = some (.object outer))
    (behind : List Text) :
    Value.fieldsHaveDistinctKeys outer = true ∧
      follow? (path ++ behind) (merge below above) = follow? behind (merge inner outer) := by
  induction path generalizing below above with
  | nil =>
    obtain rfl := Value.object.inj (Option.some.inj lower)
    obtain rfl := Value.object.inj (Option.some.inj upper)
    exact ⟨distinct, rfl⟩
  | cons key path ih =>
    obtain ⟨inner', found, lower⟩ := object_of_follow? lower
    obtain ⟨outer', found', upper⟩ := object_of_follow? upper
    rw [List.cons_append]
    cases meets (nodup_of_distinct distinct) below key with
    | absent nothing => rw [nothing] at found'; cases found'
    | objects first first' same =>
      obtain rfl := Value.object.inj (Option.some.inj (found.symm.trans first))
      obtain rfl := Value.object.inj (Option.some.inj (found'.symm.trans first'))
      rw [same]
      exact ih (distinct_object distinct found') lower upper
    | apart first apart => exact absurd (Option.some.inj (first.symm.trans found')) (apart _ _ found)

theorem follow?_append (found : follow? path theme = some (.object inner)) (behind : List Text) :
    follow? (path ++ behind) theme = follow? behind inner := by
  induction path generalizing theme with
  | nil =>
    obtain rfl := Value.object.inj (Option.some.inj found)
    rfl
  | cons key path ih =>
    obtain ⟨first, isFirst, found⟩ := object_of_follow? found
    rw [List.cons_append, follow?_of_some isFirst]
    exact ih found

theorem follow?_merge_inherited (distinct : Value.fieldsHaveDistinctKeys above = true)
    (lower : follow? path below = some (.object inner)) (upper : follow? path above = some (.object outer))
    (absent : follow? (path ++ [key]) above = none) :
    follow? (path ++ [key]) (merge below above) = follow? (path ++ [key]) below := by
  obtain ⟨distinct, same⟩ := follow?_merge_combined distinct lower upper [key]
  rw [follow?_append upper] at absent
  rw [same, follow?_append lower]
  cases meets (nodup_of_distinct distinct) inner key with
  | absent _ same => exact same []
  | objects _ found | apart found => rw [follow?_of_some found] at absent; cases absent

theorem follow?_merge_added (distinct : Value.fieldsHaveDistinctKeys above = true)
    (found : follow? path above = some (.object outer)) (apart : ∀ inner, follow? path below ≠ some (.object inner)) :
    follow? path (merge below above) = some (.object outer) := by
  induction path generalizing below above with
  | nil => exact absurd rfl (apart below)
  | cons key path ih =>
    cases meets (nodup_of_distinct distinct) below key with
    | absent nothing => rw [follow?_of_none nothing] at found; cases found
    | objects lower upper same =>
      rw [follow?_of_some upper] at found
      rw [follow?_of_some lower] at apart
      rw [same]
      exact ih (distinct_object distinct upper) found apart
    | apart _ _ same => rw [same, found]

theorem follow?_merge_reached (distinct : Value.fieldsHaveDistinctKeys above = true)
    (found : follow? path (merge below above) ≠ none) : follow? path below ≠ none ∨ follow? path above ≠ none := by
  induction path generalizing below above with
  | nil => exact .inl (Option.some_ne_none _)
  | cons key path ih =>
    cases meets (nodup_of_distinct distinct) below key with
    | absent _ same => exact .inl (same path ▸ found)
    | objects lower upper same =>
      rw [follow?_of_some lower, follow?_of_some upper]
      exact ih (distinct_object distinct upper) (same path ▸ found)
    | apart _ _ same => exact .inr (same path ▸ found)

theorem merge_isOverlay (below : Fields Value) (distinct : Value.fieldsHaveDistinctKeys above = true) :
    IsOverlay below above (merge below above) where
  replaced := follow?_merge_replaced distinct
  inherited := follow?_merge_inherited distinct
  added := follow?_merge_added distinct
  combined lower upper := by
    obtain ⟨-, same⟩ := follow?_merge_combined distinct lower upper []
    rw [List.append_nil] at same
    exact ⟨_, same⟩
  reached := follow?_merge_reached distinct

/-- A theme changes nothing if its values are there already. -/
theorem merge_of_covered (covered : ∀ field ∈ above, ∃ value, below.get? field.1 = some value ∧
    overlay (some value) field.2 = value) : merge below above = below := by
  induction above with
  | nil => rw [merge]
  | cons field above ih =>
    obtain ⟨⟨value, found, same⟩, others⟩ := List.forall_mem_cons.mp covered
    rw [merge_cons, found, same, Fields.put_of_get? found, ih others]

mutual
/-- A value changes nothing where it has been put already. -/
theorem overlay_overlay : ∀ {value : Value}, value.hasDistinctKeys = true → ∀ below : Option Value,
    overlay (some (overlay below value)) value = overlay below value
  | .null, _, _ | .bool _, _, _ | .int _, _, _ | .float _, _, _ | .text _, _, _ | .stamp _, _, _
  | .list _, _, _ => by
    simp only [overlay]
  | .object fields, distinct, below => by
    have settled := overlay_overlay_of_mem distinct
    have nodup := nodup_of_distinct distinct
    by_cases meet : ∃ inner, below = some (.object inner)
    · obtain ⟨inner, rfl⟩ := meet
      refine congrArg Value.object (merge_of_covered fun field member =>
        ⟨_, ?_, settled field member (Fields.get? field.1 inner)⟩)
      rw [get?_merge _ nodup, Fields.get?_of_mem nodup member, Option.map_some, Option.some_or]
    · rw [overlay_of_apart fun inner _ lower => absurd ⟨inner, lower⟩ meet]
      refine congrArg Value.object (merge_of_covered fun field member => ⟨_, ?_, settled field member none⟩)
      exact Fields.get?_of_mem nodup member

theorem overlay_overlay_of_mem : ∀ {fields : List (Text × Value)}, Value.fieldsHaveDistinctKeys fields = true →
    ∀ field ∈ fields, ∀ below : Option Value,
      overlay (some (overlay below field.2)) field.2 = overlay below field.2
  | (key, value) :: rest, distinct, field, member, below => by
    simp only [Value.fieldsHaveDistinctKeys, Bool.and_eq_true] at distinct
    rcases List.mem_cons.mp member with rfl | member
    · exact overlay_overlay distinct.1.2 below
    · exact overlay_overlay_of_mem distinct.2 field member below
end

theorem merge_merge (below : Fields Value) (distinct : Value.fieldsHaveDistinctKeys above = true) :
    merge (merge below above) above = merge below above :=
  Value.object.inj (@overlay_overlay (.object above) distinct (some (.object below)))

theorem merge_self (distinct : Value.fieldsHaveDistinctKeys theme = true) : merge theme theme = theme :=
  Value.object.inj (@overlay_overlay (.object theme) distinct none)

mutual
theorem hasDistinctKeys_overlay : ∀ {value : Value}, value.hasDistinctKeys = true → ∀ {below : Option Value},
    (∀ other ∈ below, other.hasDistinctKeys = true) → (overlay below value).hasDistinctKeys = true
  | .null, _, _, _ | .bool _, _, _, _ | .int _, _, _, _ | .float _, _, _, _ | .text _, _, _, _
  | .stamp _, _, _, _ => by
    simp only [overlay, Value.hasDistinctKeys]
  | .list _, distinct, _, _ => by
    simp only [overlay]
    exact distinct
  | .object fields, distinct, below, belowDistinct => by
    by_cases meet : ∃ inner, below = some (.object inner)
    · obtain ⟨inner, rfl⟩ := meet
      exact fieldsHaveDistinctKeys_merge distinct (belowDistinct _ rfl)
    · rwa [overlay_of_apart fun inner _ lower => absurd ⟨inner, lower⟩ meet]

/-- A merged theme is a theme that can be merged in turn. -/
theorem fieldsHaveDistinctKeys_merge : ∀ {above : List (Text × Value)}, Value.fieldsHaveDistinctKeys above = true →
    ∀ {below : Fields Value}, Value.fieldsHaveDistinctKeys below = true →
      Value.fieldsHaveDistinctKeys (merge below above) = true
  | [], _, below, belowDistinct => by rwa [merge]
  | (key, value) :: rest, distinct, below, belowDistinct => by
    simp only [Value.fieldsHaveDistinctKeys, Bool.and_eq_true] at distinct
    have found : ∀ other ∈ below.get? key, other.hasDistinctKeys = true := fun other lower =>
      Value.hasDistinctKeys_of_mem belowDistinct (Fields.mem_of_get? lower)
    rw [merge_cons]
    exact fieldsHaveDistinctKeys_merge distinct.2
      (Value.fieldsHaveDistinctKeys_put belowDistinct key (hasDistinctKeys_overlay distinct.1.2 found))
end

/-- Merging puts one theme over another and is settled after the first time. A theme over itself, and nothing over a
theme, change nothing. -/
theorem merge_settles (belowDistinct : Value.fieldsHaveDistinctKeys below = true)
    (aboveDistinct : Value.fieldsHaveDistinctKeys above = true) :
    IsOverlay below above (merge below above) ∧ Value.fieldsHaveDistinctKeys (merge below above) = true ∧
      merge (merge below above) above = merge below above ∧ merge below below = below ∧ merge below [] = below :=
  ⟨merge_isOverlay below aboveDistinct, fieldsHaveDistinctKeys_merge aboveDistinct belowDistinct,
    merge_merge below aboveDistinct, merge_self belowDistinct, by rw [merge]⟩

/-- A scalar over a scalar, a list over a list, an object over a scalar, a scalar over an object, and an object where
there was nothing. -/
theorem merge_settles_palette :
    let below : Fields Value := [("colors", .object [("primary", .text "red"), ("text", .text "black")]),
      ("stops", .list [.int 1, .int 2]), ("space", .int 4), ("font", .object [("size", .int 12)])]
    let above : Fields Value := [("colors", .object [("primary", .text "blue"), ("dark", .object [("base", .null)])]),
      ("stops", .list [.int 9]), ("space", .object [("", .int 2)]), ("font", .text "serif")]
    Value.fieldsHaveDistinctKeys below = true ∧ Value.fieldsHaveDistinctKeys above = true ∧
      follow? ["colors", "primary"] (merge below above) = some (.text "blue") ∧
      follow? ["colors", "text"] (merge below above) = some (.text "black") ∧
      follow? ["colors", "dark", "base"] (merge below above) = some .null ∧
      follow? ["stops"] (merge below above) = some (.list [.int 9]) ∧
      follow? ["space"] (merge below above) = some (.object [("", .int 2)]) ∧
      follow? ["font"] (merge below above) = some (.text "serif") ∧
      merge (merge below above) above = merge below above := by
  intro below above
  have belowDistinct : Value.fieldsHaveDistinctKeys below = true := by decide
  have aboveDistinct : Value.fieldsHaveDistinctKeys above = true := by decide
  obtain ⟨overlay, -, settled, -, -⟩ := merge_settles belowDistinct aboveDistinct
  have text := @overlay.inherited ["colors"] "text" _ _ rfl rfl rfl
  have space := @overlay.added ["space"] _ rfl fun _ => nofun
  exact ⟨belowDistinct, aboveDistinct, overlay.replaced rfl rfl, text, overlay.replaced rfl rfl,
    overlay.replaced rfl rfl, space, overlay.replaced rfl rfl, settled⟩

end Theme

end StaticStyle
