import StaticStyle.Proofs.Fields
import StaticStyle.Proofs.Text.Order
import StaticStyle.Usage

namespace StaticStyle.Usage

variable {usage usage' : Usage} {file other : Text} {identities : List Text}

theorem identitiesOf_recompute (usage : Usage) (file other : Text) (identities : List Text) :
    (usage.recompute file identities).identitiesOf other =
      if other = file then Text.distinct identities else usage.identitiesOf other := by
  simp only [identitiesOf, recompute, Fields.get?_put]
  split <;> rfl

theorem identitiesOf_recompute_self :
    (usage.recompute file identities).identitiesOf file = Text.distinct identities := by
  rw [identitiesOf_recompute, if_pos rfl]

theorem identitiesOf_remove (usage : Usage) (file other : Text) :
    (usage.remove file).identitiesOf other = if other = file then [] else usage.identitiesOf other := by
  simp only [identitiesOf, remove, Fields.get?_erase]
  split <;> rfl

theorem mem_live (files : usage.keys.Nodup) (identity : Text) :
    identity ∈ usage.live ↔ ∃ file, identity ∈ usage.identitiesOf file := by
  simp only [live, Text.mem_distinct, List.mem_flatMap, identitiesOf]
  constructor
  · rintro ⟨⟨file, identities⟩, member, found⟩
    exact ⟨file, by rw [Fields.get?_of_mem files member]; exact found⟩
  · rintro ⟨file, found⟩
    cases tracked : Fields.get? file usage with
    | none => simp [tracked] at found
    | some identities =>
      exact ⟨(file, identities), Fields.mem_of_get? tracked, by simpa [tracked] using found⟩

/-- Two records with the same identities of each file have the same identities in use. -/
theorem live_eq_of_identitiesOf (files : usage.keys.Nodup) (files' : usage'.keys.Nodup)
    (same : ∀ file, usage.identitiesOf file = usage'.identitiesOf file) : usage.live = usage'.live := by
  refine Text.distinct_eq_of_mem_iff fun identity => ?_
  have members := mem_live files identity
  have members' := mem_live files' identity
  simp only [live, Text.mem_distinct] at members members'
  simp only [members, members', same]

/-- Recording what is recorded already changes nothing, if the file is tracked or has some identities. -/
theorem recompute_eq_self (tracked : Fields.contains file usage = true ∨ identities ≠ [])
    (same : Text.distinct identities = usage.identitiesOf file) : usage.recompute file identities = usage := by
  refine Fields.put_of_get? ?_
  cases found : Fields.get? file usage with
  | some recorded => rw [same, identitiesOf, found, Option.getD_some]
  | none =>
    rw [identitiesOf, found, Option.getD_none] at same
    rcases tracked with tracked | some
    · simp [Fields.contains, found] at tracked
    · obtain ⟨identity, member⟩ := List.exists_mem_of_ne_nil _ some
      have recorded := Text.mem_distinct.mpr member
      simp [same] at recorded

/-- Each file is tracked once, with an ascending list of distinct identities. -/
structure Tidy (usage : Usage) : Prop where
  files : usage.keys.Nodup
  ascending : ∀ entry ∈ usage, Text.distinct entry.2 = entry.2

namespace Tidy

theorem recompute (tidy : usage.Tidy) (file : Text) (identities : List Text) :
    (usage.recompute file identities).Tidy where
  files := Fields.nodup_put tidy.files
  ascending entry member := by
    rcases Fields.mem_put member with rfl | member
    · exact Text.distinct_distinct identities
    · exact tidy.ascending entry member

theorem remove (tidy : usage.Tidy) (file : Text) : (usage.remove file).Tidy where
  files := Fields.nodup_erase tidy.files
  ascending entry member := tidy.ascending entry (List.mem_of_mem_filter member)

theorem distinct_identitiesOf (tidy : usage.Tidy) (file : Text) :
    Text.distinct (usage.identitiesOf file) = usage.identitiesOf file := by
  unfold identitiesOf
  cases found : usage.get? file with
  | none => simp [Text.distinct, Text.sort]
  | some identities => exact tidy.ascending (file, identities) (Fields.mem_of_get? found)

/-- A file without identities can be forgotten without a change of what is in use. -/
theorem live_remove (tidy : usage.Tidy) (unused : usage.identitiesOf file = []) :
    (usage.remove file).live = usage.live := by
  refine live_eq_of_identitiesOf (tidy.remove file).files tidy.files fun other => ?_
  rw [identitiesOf_remove]
  split
  · rename_i same
    rw [same, unused]
  · rfl

end Tidy

end StaticStyle.Usage
