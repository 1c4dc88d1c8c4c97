import StaticStyle.Proofs.Style.Shorthand

/-!
Keys that set two edges at once beside keys that set one of them. None of their properties is a listed shorthand, so
their declarations have the order of the keys, and an edge gets its value from the greatest key that sets it. An alias
of two edges is greater than every key of a single one.
-/

namespace StaticStyle

/-- A text that is in front of another one, but not its beginning, is so with anything behind it. -/
theorem Text.le_append {text other : Text} (below : le text other = true) (apart : ¬ text <+: other) (rest : Text) :
    le (text ++ rest) other = true := by
  induction text generalizing other with
  | nil => exact absurd List.nil_prefix apart
  | cons c text ih =>
    cases other with
    | nil => simp [le] at below
    | cons d other =>
      rw [List.cons_append]
      unfold le at below ⊢
      split
      · rfl
      · rename_i notLess
        rw [if_neg notLess] at below
        split at below
        · cases below
        · rename_i notGreater
          have same : c = d := CodePoint.toNat_injective (by omega)
          rw [if_neg notGreater]
          exact ih below fun begins => apart (same ▸ List.cons_prefix_cons.mpr ⟨rfl, begins⟩)

namespace Style

/-- Properties that set two edges at once, and the properties of these edges. -/
def edgePairs : List (Text × List Text) :=
  [("border-block-width", ["border-block-start-width", "border-block-end-width"]),
   ("border-block-style", ["border-block-start-style", "border-block-end-style"]),
   ("border-block-color", ["border-block-start-color", "border-block-end-color"]),
   ("border-inline-width", ["border-inline-start-width", "border-inline-end-width"]),
   ("border-inline-style", ["border-inline-start-style", "border-inline-end-style"]),
   ("border-inline-color", ["border-inline-start-color", "border-inline-end-color"])]

/-- The edges that a property sets at once, if it sets two. -/
def pairOf (property : Text) : List Text := (edgePairs.lookup property).getD []

/-- The edges that a key sets at once, if it sets several: as an alias of theirs, or with a property that does. -/
def broadEdges (key : Text) : List Text :=
  match properties key with
  | [property] => pairOf property
  | several => several

/-- Whether a property sets an edge, alone or together with the opposite one. -/
def setsEdge (edge property : Text) : Bool := property = edge || (pairOf property).contains edge

/-- The declaration that is in effect for an edge: the last one that sets it. -/
def inEffect? (edge : Text) (declarations : List KeyedDeclaration) : Option KeyedDeclaration :=
  (declarations.filter fun keyed => setsEdge edge keyed.property).getLast?

theorem mem_pairOf {edge property : Text} (member : edge ∈ pairOf property) :
    ∃ edges, (property, edges) ∈ edgePairs ∧ edge ∈ edges := by
  unfold pairOf at member
  cases found : edgePairs.lookup property with
  | none => simp [found] at member
  | some edges =>
    obtain ⟨before, after, split, -⟩ := List.lookup_eq_some_iff.mp found
    exact ⟨edges, split ▸ List.mem_append_right _ List.mem_cons_self, by simpa [found] using member⟩

/-- The properties of aliases that stand for several. -/
def aliasEdges : List Text :=
  (aliases.filter fun entry => 1 < entry.2.length).flatMap fun entry => entry.2.map kebabCase

private theorem aliasEdges_eq : aliasEdges = ["margin-left", "margin-right", "margin-top", "margin-bottom",
    "padding-left", "padding-right", "padding-top", "padding-bottom"] := by
  simp only [aliasEdges, aliases, Text.ofString, List.map, String.reduceToList]
  decide +kernel

/-- What is to be known about the names of edges: none of them is a listed shorthand or a pair of edges. -/
structure EdgeNames (pairs : List (Text × List Text)) (others : List Text) : Prop where
  apart : ∀ pair ∈ pairs, pair.1 ∉ pair.2
  headed : ∀ property ∈ (pairs.flatMap fun pair => pair.1 :: pair.2) ++ others,
    property.head?.any (· ≠ .char '-') = true
  unlisted : ∀ property ∈ (pairs.flatMap fun pair => pair.1 :: pair.2) ++ others, shorthandDepth? property = none

theorem edgeNames : EdgeNames edgePairs aliasEdges := by
  -- The names are spelled out once, which takes longer than to compare them.
  simp only [aliasEdges_eq, edgePairs, Text.ofString, List.map, String.reduceToList]
  constructor
  · decide +kernel
  · decide +kernel
  · simp only [shorthandDepth?, broadShorthands, narrowShorthands, narrowestShorthands, Text.ofString, List.map,
      String.reduceToList]
    decide +kernel

theorem cascadeRank_of_edge {property : Text}
    (named : property ∈ (edgePairs.flatMap fun pair => pair.1 :: pair.2) ++ aliasEdges) :
    cascadeRank property = longhandDepth := by
  have plain : withoutVendor property = property := by
    have headed := edgeNames.headed property named
    cases property with
    | nil => simp at headed
    | cons c property => exact withoutVendor_of_ne (by simpa using headed) property
  rw [cascadeRank, plain, edgeNames.unlisted property named, Option.getD_none]

/-- What is to be known about the names of aliases. -/
private structure AliasNames (aliases : List (Text × List Text)) : Prop where
  head : ∀ entry ∈ aliases, ∀ name ∈ entry.2, (kebabCase name).head? = entry.1.head?
  behind : ∀ entry ∈ aliases, 1 < entry.2.length → ∀ other ∈ aliases, other.2.length = 1 →
    other.1.head? = entry.1.head? → Text.le other.1 entry.1 = true
  begins : ∀ entry ∈ aliases, 1 < entry.2.length → ∀ name ∈ entry.2, .char '-' ∉ (kebabCase name).take 2 ∧
    Text.le ((kebabCase name).take 2) entry.1 = true ∧ ¬ (kebabCase name).take 2 <+: entry.1

private theorem aliasNames : AliasNames aliases := by
  simp only [aliases, Text.ofString, List.map, String.reduceToList]
  constructor <;> decide +kernel

variable {broad narrow edge property : Text}

theorem mem_aliasEdges {names : List Text} (listed : (broad, names) ∈ aliases) (several : 1 < names.length)
    (member : property ∈ names.map kebabCase) : property ∈ aliasEdges :=
  List.mem_flatMap.mpr ⟨(broad, names), List.mem_filter.mpr ⟨listed, by simpa using several⟩, member⟩

/-- The properties of a key that sets several edges are no shorthands, and neither are those of the edges. -/
theorem cascadeRank_of_broadEdges (member : edge ∈ broadEdges broad) :
    cascadeRank edge = longhandDepth ∧ ∀ property ∈ properties broad, cascadeRank property = longhandDepth := by
  have pair {property : Text} (member : edge ∈ pairOf property) :
      cascadeRank edge = longhandDepth ∧ cascadeRank property = longhandDepth := by
    obtain ⟨edges, listed, inside⟩ := mem_pairOf member
    have names (name : Text) (named : name ∈ property :: edges) : cascadeRank name = longhandDepth :=
      cascadeRank_of_edge (List.mem_append_left _ (List.mem_flatMap.mpr ⟨_, listed, named⟩))
    exact ⟨names edge (List.mem_cons_of_mem _ inside), names property List.mem_cons_self⟩
  unfold broadEdges at member
  split at member
  · rename_i property single
    simpa [single] using pair member
  · rename_i several
    rcases properties_cases broad with ⟨names, listed, stands⟩ | stands
    · have plural : 1 < names.length := by
        rw [stands] at member several
        match names, member, several with
        | [_], _, several => exact absurd rfl (several _)
        | _ :: _ :: _, _, _ => simp
      have names (name : Text) (named : name ∈ properties broad) : cascadeRank name = longhandDepth :=
        cascadeRank_of_edge (List.mem_append_right _ (mem_aliasEdges listed plural (stands ▸ named)))
      exact ⟨names edge member, names⟩
    · exact absurd stands (several _)

theorem ne_of_broadEdges (member : edge ∈ broadEdges broad) (single : properties narrow = [edge]) : broad ≠ narrow := by
  rintro rfl
  simp only [broadEdges, single] at member
  obtain ⟨edges, listed, inside⟩ := mem_pairOf member
  exact edgeNames.apart _ listed inside

theorem cascadeRank_of_setsEdge (member : edge ∈ broadEdges broad) (sets : setsEdge edge property = true) :
    cascadeRank property = longhandDepth := by
  simp only [setsEdge, Bool.or_eq_true, decide_eq_true_eq, List.contains_iff_mem] at sets
  rcases sets with rfl | inside
  · exact (cascadeRank_of_broadEdges member).1
  · obtain ⟨edges, listed, -⟩ := mem_pairOf inside
    exact cascadeRank_of_edge
      (List.mem_append_left _ (List.mem_flatMap.mpr ⟨_, listed, List.mem_cons_self⟩))

/-- An alias of several edges is behind every key of a single one. -/
theorem le_alias (several : 1 < (properties broad).length) (member : edge ∈ properties broad)
    (single : properties narrow = [edge]) : Text.le narrow broad = true := by
  rcases properties_cases broad with ⟨names, listed, stands⟩ | stands
  · rw [stands] at several member
    obtain ⟨name, named, rfl⟩ := List.mem_map.mp member
    have several : 1 < names.length := by simpa using several
    rcases properties_cases narrow with ⟨names', listed', stands'⟩ | stands'
    · obtain ⟨name', rfl, same⟩ : ∃ name', names' = [name'] ∧ kebabCase name' = kebabCase name := by
        simpa using List.map_eq_singleton_iff.mp (stands' ▸ single)
      refine aliasNames.behind _ listed several _ listed' rfl ?_
      rw [← aliasNames.head _ listed' _ List.mem_cons_self, ← aliasNames.head _ listed _ named, same]
    · have spelled : kebabCase narrow = kebabCase name := by simpa [stands'] using single
      have begins : (kebabCase name).take 2 <+: kebabCase narrow := by
        rw [spelled]
        exact List.take_prefix 2 _
      obtain ⟨dashless, below, apart⟩ := aliasNames.begins _ listed several name named
      obtain ⟨rest, same⟩ := prefix_of_kebabCase dashless begins
      rw [← same]
      exact Text.le_append below apart rest
  · simp [stands] at several

/-- The declarations of a key that sets several edges, and those of a key that sets one of them, have the order of the
keys. -/
theorem lt_iff_of_broadEdges {stem : Text} {node : ObjectNode} {i j : Nat} (inside : i < (node.sequence stem).length)
    (inside' : j < (node.sequence stem).length) (member : edge ∈ broadEdges (node.sequence stem)[i].key)
    (single : properties (node.sequence stem)[j].key = [edge]) :
    i < j ↔ Text.le (node.sequence stem)[j].key (node.sequence stem)[i].key = false := by
  have rank : cascadeRank (node.sequence stem)[i].property = longhandDepth :=
    (cascadeRank_of_broadEdges member).2 _ (ObjectNode.mem_properties_of_mem_sequence (List.getElem_mem inside))
  have rank' : cascadeRank (node.sequence stem)[j].property = longhandDepth := by
    have stands := ObjectNode.mem_properties_of_mem_sequence (List.getElem_mem inside')
    rw [single, List.mem_singleton] at stands
    rw [stands, (cascadeRank_of_broadEdges member).1]
  constructor
  · intro less
    have below : Text.le (node.sequence stem)[i].key (node.sequence stem)[j].key = true := by
      rcases List.pairwise_iff_getElem.mp (ObjectNode.sequence_pairwise stem node) i j inside inside' less with
        lower | ⟨-, below⟩
      · omega
      · exact below
    by_contra above
    exact ne_of_broadEdges member single (Text.le_antisymm below (by simpa using above))
  · intro behind
    refine ObjectNode.lt_of_not_mayPrecede inside inside' ?_
    rintro (lower | ⟨-, below⟩)
    · omega
    · simp [behind] at below

/-- The declaration in effect for an edge has the greatest key of all that set the edge. -/
theorem inEffect?_greatest {stem : Text} {node : ObjectNode} {keyed last : KeyedDeclaration}
    (member : edge ∈ broadEdges broad) (effective : inEffect? edge (node.sequence stem) = some last)
    (inside : keyed ∈ node.sequence stem) (sets : setsEdge edge keyed.property = true) :
    Text.le keyed.key last.key = true := by
  obtain ⟨others, split⟩ := List.getLast?_eq_some_iff.mp effective
  have order := (ObjectNode.sequence_pairwise stem node).filter fun keyed => setsEdge edge keyed.property
  have lastListed : last ∈ (node.sequence stem).filter fun keyed => setsEdge edge keyed.property :=
    split ▸ List.mem_append_right _ List.mem_cons_self
  have lastSets : setsEdge edge last.property = true := (List.mem_filter.mp lastListed).2
  have listed : keyed ∈ others ++ [last] := split ▸ List.mem_filter.mpr ⟨inside, sets⟩
  rw [split] at order
  rcases List.mem_append.mp listed with before | same
  · rcases (List.pairwise_append.mp order).2.2 keyed before last List.mem_cons_self with lower | ⟨-, below⟩
    · rw [cascadeRank_of_setsEdge member sets, cascadeRank_of_setsEdge member lastSets] at lower
      omega
    · exact below
  · rw [List.mem_singleton.mp same]
    exact Text.le_refl _

/-- In the blocks of a rule, the declarations of a key that sets several edges at once and those of a key that sets one
of them have the order of the keys, so the greatest key that sets an edge decides about it. An alias of several edges is
behind every key of a single one. -/
theorem edges_follow_keys (stem className identity : Text) (style : Fields Value) (rule : Rule)
    (compiled : (compile stem className identity style).result = .ok rule) :
    ∃ blocks, (compileBlocks stem (.char '.' :: className) style).result = .ok blocks ∧
      rule.primary :: rule.siblings = blocks.map Block.css ∧
      blocksRulesets [] blocks =
        (objects [] (.object style)).map (ObjectNode.ruleset stem (.char '.' :: className)) ∧
      ∀ node ∈ objects [] (.object style),
        (node.sequence stem).map KeyedDeclaration.toDeclaration =
          (node.ruleset stem (.char '.' :: className)).declarations ∧
        ∀ broad narrow edge, edge ∈ broadEdges broad → properties narrow = [edge] →
          (∀ (i j : Nat) (inside : i < (node.sequence stem).length) (inside' : j < (node.sequence stem).length),
            (node.sequence stem)[i].key = broad → (node.sequence stem)[j].key = narrow →
              (i < j ↔ Text.le narrow broad = false)) ∧
          (1 < (properties broad).length → Text.le narrow broad = true) ∧
          ∀ keyed ∈ node.sequence stem, keyed.key = narrow → ∃ last, inEffect? edge (node.sequence stem) = some last ∧
            ∀ other ∈ node.sequence stem, setsEdge edge other.property = true → Text.le other.key last.key = true := by
  obtain ⟨blocks, blocksOk, texts⟩ := blocks_of_compile compiled
  refine ⟨blocks, blocksOk, texts, rulesets_of_compileBlocks blocksOk, fun node _ => ?_⟩
  refine ⟨node.sequence_declarations stem _, fun broad narrow edge member single => ⟨?_, ?_, ?_⟩⟩
  · rintro i j inside inside' rfl rfl
    exact lt_iff_of_broadEdges inside inside' member single
  · intro several
    have stands : edge ∈ properties broad := by
      unfold broadEdges at member
      split at member
      · rename_i property alone
        simp [alone] at several
      · exact member
    exact le_alias several stands single
  · rintro keyed inside rfl
    have property : keyed.property = edge := by
      have stands := ObjectNode.mem_properties_of_mem_sequence inside
      rwa [single, List.mem_singleton] at stands
    have sets : setsEdge edge keyed.property = true := by simp [setsEdge, property]
    have listed : keyed ∈ (node.sequence stem).filter fun keyed => setsEdge edge keyed.property :=
      List.mem_filter.mpr ⟨inside, sets⟩
    obtain ⟨last, effective⟩ := Option.isSome_iff_exists.mp (List.getLast?_isSome.mpr (List.ne_nil_of_mem listed))
    exact ⟨last, effective, fun other inside sets => inEffect?_greatest member effective inside sets⟩

/-- A pair of edges whose key is in front of that of one edge, and an alias whose key is behind it. -/
theorem edges_follow_keys_of_both_kinds :
    let style : Fields Value := [("mx", .int 1), ("ml", .int 2), ("borderBlockEndColor", .text "red"),
      ("border-block-color", .text "blue")]
    let sequence := (ObjectNode.mk [] style).sequence "--theme"
    ∃ rule, (compile "--theme" "zx-1" "1" style).result = .ok rule ∧
      Text.ofString "border-block-end-color" ∈ broadEdges "border-block-color" ∧
      properties "borderBlockEndColor" = [Text.ofString "border-block-end-color"] ∧
      Text.ofString "margin-left" ∈ broadEdges "mx" ∧ properties "ml" = [Text.ofString "margin-left"] ∧
      (∀ (i j : Nat) (inside : i < sequence.length) (inside' : j < sequence.length),
        sequence[i].key = "border-block-color" → sequence[j].key = "borderBlockEndColor" → i < j) ∧
      ∀ (i j : Nat) (inside : i < sequence.length) (inside' : j < sequence.length),
        sequence[i].key = "mx" → sequence[j].key = "ml" → ¬ i < j := by
  intro style sequence
  obtain ⟨rule, compiled⟩ : ∃ rule, (compile "--theme" "zx-1" "1" style).result = .ok rule :=
    compile_ok_of_shapely _ _ _ (by decide +kernel)
  have color : Text.ofString "border-block-end-color" ∈ broadEdges "border-block-color" := by decide +kernel
  have colorAlone : properties "borderBlockEndColor" = [Text.ofString "border-block-end-color"] := by decide +kernel
  have margin : Text.ofString "margin-left" ∈ broadEdges "mx" := by decide +kernel
  have marginAlone : properties "ml" = [Text.ofString "margin-left"] := by decide +kernel
  obtain ⟨blocks, -, -, -, nodes⟩ := edges_follow_keys "--theme" "zx-1" "1" style rule compiled
  obtain ⟨-, keys⟩ := nodes ⟨[], style⟩ List.mem_cons_self
  refine ⟨rule, compiled, color, colorAlone, margin, marginAlone, ?_, ?_⟩
  · intro i j inside inside' broad narrow
    exact ((keys _ _ _ color colorAlone).1 i j inside inside' broad narrow).mpr (by decide +kernel)
  · intro i j inside inside' broad narrow less
    exact absurd (((keys _ _ _ margin marginAlone).1 i j inside inside' broad narrow).mp less) (by decide +kernel)

end Style

end StaticStyle
