import StaticStyle.Proofs.Style.Nesting

namespace StaticStyle

theorem Text.le_refl (text : Text) : le text text = true := by
  simpa using le_total text text

namespace Style

/-- A declaration and the key of the entry that it stands for. -/
structure KeyedDeclaration extends Declaration where
  key : Text

/-- The declarations that an entry stands for, with its key. -/
def keyedDeclarations (stem : Text) (entry : Text × Value) : List KeyedDeclaration :=
  (entryDeclarations stem entry).map fun declaration => ⟨declaration, entry.1⟩

/-- The declarations of an object in the order of its block. -/
def ObjectNode.sequence (stem : Text) (node : ObjectNode) : List KeyedDeclaration :=
  (List.range (longhandDepth + 1)).flatMap fun rank =>
    (node.entries.sorted.flatMap (keyedDeclarations stem)).filter fun keyed => cascadeRank keyed.property = rank

/-- Whether one declaration may stand in front of another one: its rank is lower, or the ranks are the same and its key
is not behind the other one's. -/
def KeyedDeclaration.MayPrecede (first second : KeyedDeclaration) : Prop :=
  cascadeRank first.property < cascadeRank second.property ∨
    cascadeRank first.property = cascadeRank second.property ∧ Text.le first.key second.key = true

namespace ObjectNode

variable {stem selector : Text} {node : ObjectNode}

theorem sequence_declarations (stem selector : Text) (node : ObjectNode) :
    (node.sequence stem).map KeyedDeclaration.toDeclaration = (node.ruleset stem selector).declarations := by
  have plain (entry : Text × Value) :
      (keyedDeclarations stem entry).map KeyedDeclaration.toDeclaration = entryDeclarations stem entry := by
    rw [keyedDeclarations, List.map_map]
    exact List.map_id _
  have entries : (node.entries.sorted.flatMap (keyedDeclarations stem)).map KeyedDeclaration.toDeclaration =
      node.entries.sorted.flatMap (entryDeclarations stem) := by
    rw [List.map_flatMap]
    exact List.flatMap_congr fun entry _ => plain entry
  calc (node.sequence stem).map KeyedDeclaration.toDeclaration
    _ = inCascade ((node.entries.sorted.flatMap (keyedDeclarations stem)).map KeyedDeclaration.toDeclaration) := by
      rw [sequence, inCascade, List.map_flatMap]
      exact List.flatMap_congr fun rank _ => by rw [List.filter_map]; rfl
    _ = (node.ruleset stem selector).declarations := by rw [entries, ruleset]

/-- A declaration is one of the properties that its key stands for. -/
theorem mem_properties_of_mem_sequence {keyed : KeyedDeclaration} (member : keyed ∈ node.sequence stem) :
    keyed.property ∈ properties keyed.key := by
  obtain ⟨rank, -, ranked⟩ := List.mem_flatMap.mp member
  obtain ⟨⟨key, value⟩, -, keyedMember⟩ := List.mem_flatMap.mp (List.mem_filter.mp ranked).1
  obtain ⟨declaration, declared, rfl⟩ := List.mem_map.mp keyedMember
  unfold entryDeclarations at declared
  split at declared
  · simp at declared
  · split at declared
    · simp at declared
    · simp at declared
    · obtain ⟨property, stands, rfl⟩ := List.mem_map.mp declared
      exact stands

theorem sequence_pairwise (stem : Text) (node : ObjectNode) :
    (node.sequence stem).Pairwise KeyedDeclaration.MayPrecede := by
  have entries : (node.entries.sorted.flatMap (keyedDeclarations stem)).Pairwise fun first second =>
      Text.le first.key second.key = true := by
    have keys : node.entries.sorted.Pairwise fun first second => Text.le first.1 second.1 = true :=
      @List.pairwise_mergeSort _ (fun first second : Text × Value => Text.le first.1 second.1)
        (fun _ _ _ => Text.le_trans) (fun _ _ => Text.le_total _ _) _
    refine List.pairwise_flatMap.mpr ⟨fun entry _ => ?_, keys.imp ?_⟩
    · refine List.pairwise_map.mpr (List.pairwise_of_forall fun _ _ => Text.le_refl _)
    · intro entry entry' below first member second member'
      obtain ⟨_, -, rfl⟩ := List.mem_map.mp member
      obtain ⟨_, -, rfl⟩ := List.mem_map.mp member'
      exact below
  refine List.pairwise_flatMap.mpr ⟨fun rank _ => ?_, List.pairwise_lt_range.imp ?_⟩
  · refine (entries.filter _).imp_of_mem fun member member' below => .inr ⟨?_, below⟩
    simp only [List.mem_filter, decide_eq_true_eq] at member member'
    rw [member.2, member'.2]
  · intro rank rank' less first member second member'
    simp only [List.mem_filter, decide_eq_true_eq] at member member'
    exact .inl (by omega)

/-- A declaration that may not stand behind another one stands in front of it. -/
theorem lt_of_not_mayPrecede {i j : Nat} (inside : i < (node.sequence stem).length)
    (inside' : j < (node.sequence stem).length)
    (apart : ¬ (node.sequence stem)[j].MayPrecede (node.sequence stem)[i]) : i < j := by
  by_contra notLess
  rcases Nat.lt_or_eq_of_le (Nat.le_of_not_lt notLess) with less | rfl
  · exact apart (List.pairwise_iff_getElem.mp (sequence_pairwise stem node) j i inside' inside less)
  · exact apart (.inr ⟨rfl, Text.le_refl _⟩)

end ObjectNode

end Style

end StaticStyle
