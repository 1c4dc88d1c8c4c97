import StaticStyle.Bundle
import StaticStyle.Proofs.Source.Edit
import StaticStyle.Proofs.Text.Order

namespace StaticStyle

open Style (Rule)

namespace Fields

variable {α : Type}

theorem sorted_ascending (fields : Fields α) :
    fields.sorted.Pairwise fun a b => Text.le a.1 b.1 = true :=
  @List.pairwise_mergeSort _ (fun a b : Text × α => Text.le a.1 b.1) (fun _ _ _ => Text.le_trans)
    (fun a b => Text.le_total a.1 b.1) fields

theorem sorted_distinct {fields : Fields α} (nodup : (keys fields).Nodup) :
    fields.sorted.Pairwise fun a b => a.1 ≠ b.1 := by
  have sortedKeys : (keys fields.sorted).Nodup :=
    ((List.mergeSort_perm fields _).map Prod.fst).nodup_iff.mpr nodup
  exact List.pairwise_map.mp sortedKeys

end Fields

namespace Bundle

variable {candidates : Fields Rule} {artifacts : List Text}

theorem isReferenced_iff {rule : Rule} :
    isReferenced artifacts rule = true ↔ ∃ artifact ∈ artifacts, rule.className <:+: artifact := by
  rw [isReferenced, List.any_eq_true]
  constructor
  · rintro ⟨artifact, member, occurs⟩
    exact ⟨artifact, member, Text.occursIn_iff.mp occurs⟩
  · rintro ⟨artifact, member, inside⟩
    exact ⟨artifact, member, Text.occursIn_iff.mpr inside⟩

private theorem retained_eq : (partition candidates artifacts).1 =
    candidates.sorted.filter fun entry => isReferenced artifacts entry.2 := by
  rw [partition, List.partition_eq_filter_filter]

theorem mem_retained {entry : Text × Rule} : entry ∈ (partition candidates artifacts).1 ↔
    entry ∈ candidates ∧ ∃ artifact ∈ artifacts, entry.2.className <:+: artifact := by
  rw [retained_eq, List.mem_filter, isReferenced_iff, Fields.sorted,
    (List.mergeSort_perm _ _).mem_iff]

theorem retained_ascending (nodup : (Fields.keys candidates).Nodup) :
    (partition candidates artifacts).1.Pairwise fun a b => Text.le a.1 b.1 = true ∧ a.1 ≠ b.1 := by
  rw [retained_eq]
  exact ((Fields.sorted_ascending candidates).and (Fields.sorted_distinct nodup)).filter _

/-- Rules that are kept need not be sorted again. -/
theorem renderRules_retained : renderRules (partition candidates artifacts).1 =
    (partition candidates artifacts).1.flatMap fun entry => entry.2.css ++ [.char '\n'] := by
  have ascending : (partition candidates artifacts).1.Pairwise
      fun a b => Text.le a.1 b.1 = true := by
    rw [retained_eq]
    exact (Fields.sorted_ascending candidates).filter _
  rw [renderRules, Fields.sorted, List.mergeSort_of_pairwise ascending]

end Bundle

end StaticStyle
