import StaticStyle.Proofs.Sorting
import StaticStyle.Style.Compile

namespace StaticStyle

namespace Style

theorem cascadeRank_le (property : Text) : cascadeRank property ≤ longhandDepth := by
  have depth : ∀ property, (shorthandDepth? property).getD longhandDepth ≤ longhandDepth := by
    intro property
    unfold shorthandDepth?
    repeat' split
    all_goals decide
  exact depth _

/-- Declarations by rank, and those of one rank in the order in which they are given. -/
def inCascade (declarations : List Declaration) : List Declaration :=
  (List.range (longhandDepth + 1)).flatMap fun rank =>
    declarations.filter fun declaration => cascadeRank declaration.property = rank

theorem byRank_eq_inCascade (declarations : List Declaration) : byRank declarations = inCascade declarations :=
  mergeSort_eq_flatMap_filter (fun declaration : Declaration => cascadeRank declaration.property)
    fun declaration _ => Nat.lt_succ_of_le (cascadeRank_le declaration.property)

theorem mem_inCascade {declaration : Declaration} {declarations : List Declaration} :
    declaration ∈ inCascade declarations ↔ declaration ∈ declarations := by
  rw [← byRank_eq_inCascade]
  exact (List.mergeSort_perm _ _).mem_iff

end Style

end StaticStyle
