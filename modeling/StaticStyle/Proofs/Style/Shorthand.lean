import StaticStyle.Proofs.Style.Sequence
import StaticStyle.Proofs.Style.Shape

/-!
Shorthands in a block. A listed shorthand stands in front of the properties whose names it begins, because its rank is
lower, or because its key is: the few listed shorthands that begin others of their own rank have one spelling, which
begins every key of the others.
-/

namespace StaticStyle

namespace Text

theorem le_append_cons (text : Text) (c : CodePoint) (rest : Text) : le (text ++ c :: rest) text = false := by
  induction text with
  | nil => rfl
  | cons d text ih => simp [le, ih]

end Text

namespace Style

/-- A beginning of a name without dashes is a beginning of every key that is written so in kebab case. -/
theorem prefix_of_kebabCase {beginning key : Text} (dashless : .char '-' ∉ beginning)
    (begins : beginning <+: kebabCase key) : beginning <+: key := by
  unfold kebabCase at begins
  split at begins
  · exact begins
  · rename_i plain
    clear plain
    induction beginning generalizing key with
    | nil => exact List.nil_prefix
    | cons c beginning ih =>
      rw [List.mem_cons, not_or] at dashless
      cases key with
      | nil => simp at begins
      | cons d key =>
        rw [List.flatMap_cons] at begins
        split at begins
        · exact absurd (List.cons_prefix_cons.mp begins).1.symm dashless.1
        · obtain ⟨rfl, behind⟩ := List.cons_prefix_cons.mp begins
          exact List.cons_prefix_cons.mpr ⟨rfl, ih dashless.2 behind⟩

/-- A key that is written without dashes in kebab case is written so itself. -/
theorem eq_of_kebabCase {key : Text} (dashless : .char '-' ∉ kebabCase key) : kebabCase key = key := by
  unfold kebabCase at dashless ⊢
  split
  · rfl
  · rename_i plain
    rw [if_neg plain, List.mem_flatMap] at dashless
    conv_rhs => rw [← List.flatMap_singleton' key]
    refine List.flatMap_congr fun c member => if_neg fun upper => dashless ⟨c, member, ?_⟩
    rw [if_pos upper]
    exact List.mem_cons_self

/-- A key is an alias, or it stands for the property that it is written for in kebab case. -/
theorem properties_cases (key : Text) :
    (∃ names, (key, names) ∈ aliases ∧ properties key = names.map kebabCase) ∨ properties key = [kebabCase key] := by
  unfold properties
  split
  · rename_i names found
    obtain ⟨before, after, split, -⟩ := List.lookup_eq_some_iff.mp found
    exact .inl ⟨names, split ▸ List.mem_append_right _ List.mem_cons_self, rfl⟩
  · exact .inr rfl

/-- The listed shorthands of each depth. -/
theorem shorthandDepth?_cases {property : Text} {depth : Nat} (listed : shorthandDepth? property = some depth) :
    depth = 0 ∧ property = Text.ofString "all" ∨ depth = 1 ∧ property ∈ broadShorthands ∨
      depth = 2 ∧ property ∈ narrowShorthands ∨ depth = 3 ∧ property ∈ narrowestShorthands := by
  unfold shorthandDepth? at listed
  simp only [List.contains_iff_mem] at listed
  repeat' split at listed
  all_goals simp_all

/-- Only one shorthand has the lowest rank. -/
theorem cascadeRank_eq_zero {property : Text} :
    cascadeRank property = 0 ↔ withoutVendor property = Text.ofString "all" := by
  constructor
  · intro zero
    unfold cascadeRank at zero
    cases listed : shorthandDepth? (withoutVendor property) with
    | none => simp [listed, longhandDepth] at zero
    | some depth =>
      obtain rfl : depth = 0 := by simpa [listed] using zero
      simpa using shorthandDepth?_cases listed
  · intro all
    simp [cascadeRank, all, shorthandDepth?]

/-- The marks of vendors that a name may have in front. -/
def vendorMarks : List Text := ["-webkit-", "-moz-", "-ms-", "-o-"]

theorem withoutVendor_append {vendor : Text} (member : vendor ∈ vendorMarks) (name : Text) :
    withoutVendor (vendor ++ name) = name := by
  simp only [vendorMarks, List.mem_cons, List.not_mem_nil, or_false] at member
  rcases member with rfl | rfl | rfl | rfl <;> rfl

theorem withoutVendor_of_ne {c : CodePoint} (different : c ≠ '-') (rest : Text) :
    withoutVendor (c :: rest) = c :: rest := by
  simp [withoutVendor, Text.ofString, Text.dropLeading?, Ne.symm different]

/-- What is to be known about the names of the listed shorthands: which of them begin others. -/
structure NamesApart (broad narrow : List Text) : Prop where
  headed : ∀ shorthand ∈ broad ++ narrow, shorthand.head?.any (· ≠ .char '-') = true
  dashed : ∀ shorthand ∈ narrow, .char '-' ∈ shorthand
  broad_begins : ∀ property ∈ broad, .char '-' ∈ property → ∀ shorthand ∈ broad,
    (shorthand ++ ("-" : Text)).isPrefixOf property = true → shorthand ∈ (["border", "flex"] : List Text)
  narrow_begins : ∀ property ∈ broad ++ narrow, 2 ≤ property.count (.char '-') → ∀ shorthand ∈ narrow,
    (shorthand ++ ("-" : Text)).isPrefixOf property = false

theorem namesApart : NamesApart broadShorthands (narrowShorthands ++ narrowestShorthands) := by
  -- The names are spelled out once, which takes far longer than to compare them.
  simp only [broadShorthands, narrowShorthands, narrowestShorthands, Text.ofString, List.map, List.cons_append,
    List.nil_append, String.reduceToList]
  constructor <;> decide +kernel

theorem withoutVendor_listed {shorthand : Text} (listed : (shorthandDepth? shorthand).isSome = true) (rest : Text) :
    withoutVendor (shorthand ++ rest) = shorthand ++ rest := by
  have headed : shorthand.head?.any (· ≠ .char '-') = true := by
    obtain ⟨depth, found⟩ := Option.isSome_iff_exists.mp listed
    rcases shorthandDepth?_cases found with ⟨-, rfl⟩ | ⟨-, member⟩ | ⟨-, member⟩ | ⟨-, member⟩
    · rfl
    all_goals exact namesApart.headed _ (by simp [member])
  cases shorthand with
  | nil => simp at headed
  | cons c shorthand =>
    rw [List.cons_append]
    exact withoutVendor_of_ne (by simpa using headed) _

/-- What a listed shorthand begins has a higher rank, unless the shorthand is one of two without a dash. -/
theorem cascadeRank_continued {shorthand : Text} (listed : (shorthandDepth? shorthand).isSome = true) (more : Text) :
    cascadeRank shorthand < cascadeRank (shorthand ++ .char '-' :: more) ∨
      cascadeRank shorthand = cascadeRank (shorthand ++ .char '-' :: more) ∧
        shorthand ∈ (["border", "flex"] : List Text) := by
  obtain ⟨depth, found⟩ := Option.isSome_iff_exists.mp listed
  have own : cascadeRank shorthand = depth := by
    have plain := withoutVendor_listed listed []
    rw [List.append_nil] at plain
    rw [cascadeRank, plain, found, Option.getD_some]
  rw [own, cascadeRank, withoutVendor_listed listed]
  have begins (text : Text) : (text ++ ("-" : Text)).isPrefixOf (text ++ .char '-' :: more) = true :=
    List.isPrefixOf_iff_prefix.mpr ⟨more, by simp [Text.ofString]⟩
  cases continued : shorthandDepth? (shorthand ++ .char '-' :: more) with
  | none =>
    refine .inl ?_
    rcases shorthandDepth?_cases found with ⟨rfl, -⟩ | ⟨rfl, -⟩ | ⟨rfl, -⟩ | ⟨rfl, -⟩ <;> decide
  | some depth' =>
    rw [Option.getD_some]
    have dashed : .char '-' ∈ shorthand ++ .char '-' :: more := by simp
    have notAll : shorthand ++ .char '-' :: more ≠ Text.ofString "all" := fun all =>
      absurd (all ▸ dashed) (by decide)
    have longer := shorthandDepth?_cases continued
    -- A narrow shorthand has a dash itself, and a listed name that it begins would have another one.
    have narrow (member : shorthand ∈ narrowShorthands ++ narrowestShorthands) : False := by
      have dashes : 2 ≤ (shorthand ++ .char '-' :: more).count (.char '-') := by
        have := List.count_pos_iff.mpr (namesApart.dashed _ member)
        rw [List.count_append, List.count_cons_self]
        omega
      have inside : shorthand ++ .char '-' :: more ∈ broadShorthands ++ (narrowShorthands ++ narrowestShorthands) := by
        rcases longer with ⟨-, all⟩ | ⟨-, inside⟩ | ⟨-, inside⟩ | ⟨-, inside⟩
        · exact absurd all notAll
        all_goals simp [inside]
      simpa [begins] using namesApart.narrow_begins _ inside dashes _ member
    rcases shorthandDepth?_cases found with ⟨rfl, -⟩ | ⟨rfl, member⟩ | ⟨rfl, member⟩ | ⟨rfl, member⟩
    · rcases longer with ⟨-, all⟩ | ⟨rfl, -⟩ | ⟨rfl, -⟩ | ⟨rfl, -⟩
      · exact absurd all notAll
      all_goals exact .inl (by decide)
    · rcases longer with ⟨-, all⟩ | ⟨rfl, member'⟩ | ⟨rfl, -⟩ | ⟨rfl, -⟩
      · exact absurd all notAll
      · exact .inr ⟨rfl, namesApart.broad_begins _ member' dashed _ member (begins _)⟩
      all_goals exact .inl (by decide)
    · exact (narrow (by simp [member])).elim
    · exact (narrow (by simp [member])).elim

private theorem aliases_begin : ∀ entry ∈ aliases, ∀ name ∈ entry.2,
    ∀ beginning ∈ (["border", "flex"] : List Text), beginning.isPrefixOf (kebabCase name) = false := by
  decide +kernel

private theorem eq_kebabCase_of_begins {key property beginning : Text}
    (dashless : beginning ∈ (["border", "flex"] : List Text)) (begins : beginning <+: property)
    (stands : property ∈ properties key) : property = kebabCase key := by
  rcases properties_cases key with ⟨names, listed, same⟩ | same
  · rw [same] at stands
    obtain ⟨name, member, rfl⟩ := List.mem_map.mp stands
    have apart := aliases_begin (key, names) listed name member beginning dashless
    rw [List.isPrefixOf_iff_prefix.mpr begins] at apart
    cases apart
  · rw [same] at stands
    exact List.mem_singleton.mp stands

/-- A declaration of what a listed shorthand begins may not stand in front of one of the shorthand. -/
theorem not_mayPrecede_of_listed {first second : KeyedDeclaration} {more : Text}
    (listed : (shorthandDepth? first.property).isSome = true)
    (begins : second.property = first.property ++ .char '-' :: more) (stands : first.property ∈ properties first.key)
    (stands' : second.property ∈ properties second.key) : ¬ second.MayPrecede first := by
  have ranks := cascadeRank_continued listed more
  rw [← begins] at ranks
  rcases ranks with lower | ⟨same, dashless⟩
  · rintro (less | ⟨same, -⟩) <;> omega
  · have noDash : .char '-' ∉ first.property := by
      have : ∀ shorthand ∈ (["border", "flex"] : List Text), .char '-' ∉ shorthand := by decide
      exact this _ dashless
    have own : first.property = kebabCase first.key := eq_kebabCase_of_begins dashless List.prefix_rfl stands
    have key : first.key = first.property := by
      rw [own] at noDash
      rw [own, eq_of_kebabCase noDash]
    have inside : first.property <+: second.property := ⟨_, begins.symm⟩
    have other : second.property = kebabCase second.key := eq_kebabCase_of_begins dashless inside stands'
    -- The key of the longer name goes on behind the shorthand, so it is behind the key of the shorthand.
    obtain ⟨rest, continued⟩ := prefix_of_kebabCase noDash (other ▸ inside)
    have behind : Text.le second.key first.key = false := by
      cases rest with
      | nil =>
        have keys : second.key = first.key := by rw [key, ← continued, List.append_nil]
        have longer : second.property ≠ first.property := by simp [begins]
        exact absurd (by rw [other, keys, ← own]) longer
      | cons c rest => rw [key, ← continued, Text.le_append_cons]
    rintro (less | ⟨-, below⟩)
    · omega
    · rw [behind] at below
      cases below

/-- Whether every declaration of one kind of property stands in front of every one of another kind. -/
def Precede (declarations : List Declaration) (first second : Text → Prop) : Prop :=
  ∀ (i j : Nat) (inside : i < declarations.length) (inside' : j < declarations.length),
    first declarations[i].property → second declarations[j].property → i < j

theorem precede_of_not_mayPrecede {stem selector : Text} {node : ObjectNode} {kind kind' : Text → Prop}
    (apart : ∀ first second : KeyedDeclaration, kind first.property → kind' second.property →
      first.property ∈ properties first.key → second.property ∈ properties second.key → ¬ second.MayPrecede first) :
    Precede (node.ruleset stem selector).declarations kind kind' := by
  rw [← ObjectNode.sequence_declarations]
  intro i j inside inside' first second
  rw [List.length_map] at inside inside'
  rw [List.getElem_map] at first second
  exact ObjectNode.lt_of_not_mayPrecede inside inside' (apart _ _ first second
    (ObjectNode.mem_properties_of_mem_sequence (List.getElem_mem _))
    (ObjectNode.mem_properties_of_mem_sequence (List.getElem_mem _)))

/-- In every block of a rule, a listed shorthand stands in front of all properties that its name begins. With the same
vendor's mark in front of both, it does so if the other name is not listed itself. What resets all properties stands in
front of everything else. -/
theorem shorthands_precede (stem className identity : Text) (style : Fields Value) (rule : Rule)
    (compiled : (compile stem className identity style).result = .ok rule) :
    ∃ blocks, (compileBlocks stem (.char '.' :: className) style).result = .ok blocks ∧
      rule.primary :: rule.siblings = blocks.map Block.css ∧
      ∀ ruleset ∈ blocksRulesets [] blocks,
        (∀ shorthand more, (shorthandDepth? shorthand).isSome = true →
          Precede ruleset.declarations (· = shorthand) (· = shorthand ++ .char '-' :: more)) ∧
        (∀ vendor ∈ vendorMarks, ∀ shorthand more, (shorthandDepth? shorthand).isSome = true →
          shorthandDepth? (shorthand ++ .char '-' :: more) = none →
            Precede ruleset.declarations (· = vendor ++ shorthand)
              (· = vendor ++ (shorthand ++ .char '-' :: more))) ∧
        Precede ruleset.declarations (· = Text.ofString "all") (withoutVendor · ≠ Text.ofString "all") := by
  obtain ⟨blocks, blocksOk, texts⟩ := blocks_of_compile compiled
  refine ⟨blocks, blocksOk, texts, fun ruleset member => ?_⟩
  rw [rulesets_of_compileBlocks blocksOk] at member
  obtain ⟨node, -, rfl⟩ := List.mem_map.mp member
  refine ⟨fun shorthand more listed => ?_, fun vendor marked shorthand more listed unlisted => ?_, ?_⟩
  · refine precede_of_not_mayPrecede fun first second same begins stands stands' => ?_
    exact not_mayPrecede_of_listed (same ▸ listed) (same ▸ begins) stands stands'
  · refine precede_of_not_mayPrecede fun first second same begins _ _ => ?_
    have lower : cascadeRank first.property < cascadeRank second.property := by
      obtain ⟨depth, found⟩ := Option.isSome_iff_exists.mp listed
      rw [same, begins, cascadeRank, cascadeRank, withoutVendor_append marked, withoutVendor_append marked, found,
        unlisted]
      rcases shorthandDepth?_cases found with ⟨rfl, -⟩ | ⟨rfl, -⟩ | ⟨rfl, -⟩ | ⟨rfl, -⟩ <;> decide
    rintro (less | ⟨same, -⟩) <;> omega
  · refine precede_of_not_mayPrecede fun first second all other _ _ => ?_
    have zero : cascadeRank first.property = 0 := cascadeRank_eq_zero.mpr (by rw [all]; rfl)
    have positive : cascadeRank second.property ≠ 0 := fun zero => other (cascadeRank_eq_zero.mp zero)
    rintro (less | ⟨same, -⟩) <;> omega

/-- Two shorthands of one rank, written in two ways, a vendor's mark, and a reset behind an at-rule. -/
theorem shorthands_precede_spellings :
    let inner : Fields Value := [("mt", .int 2), ("all", .text "unset"), ("--x", .int 1)]
    let style : Fields Value := [("borderBlock", .int 1), ("border", .int 0), ("@media print", .object inner),
      ("WebkitMaskImage", .text "none"), ("-webkit-mask", .text "url(a.svg)")]
    ∃ rule, (compile "--theme" "zx-1" "1" style).result = .ok rule ∧
      (shorthandDepth? "border").isSome = true ∧ (shorthandDepth? "mask").isSome = true ∧
      shorthandDepth? "mask-image" = none ∧
      ∃ blocks, (compileBlocks "--theme" ".zx-1" style).result = .ok blocks ∧
        rule.primary :: rule.siblings = blocks.map Block.css ∧
        ∀ ruleset ∈ blocksRulesets [] blocks,
          Precede ruleset.declarations (· = Text.ofString "border") (· = Text.ofString "border-block") ∧
          Precede ruleset.declarations (· = Text.ofString "-webkit-mask") (· = Text.ofString "-webkit-mask-image") ∧
          Precede ruleset.declarations (· = Text.ofString "all") (withoutVendor · ≠ Text.ofString "all") := by
  intro inner style
  obtain ⟨rule, compiled⟩ : ∃ rule, (compile "--theme" "zx-1" "1" style).result = .ok rule :=
    compile_ok_of_shapely _ _ _ (by decide +kernel)
  have border : (shorthandDepth? "border").isSome = true := by decide +kernel
  have mask : (shorthandDepth? "mask").isSome = true := by decide +kernel
  have image : shorthandDepth? "mask-image" = none := by decide +kernel
  obtain ⟨blocks, blocksOk, texts, precede⟩ := shorthands_precede "--theme" "zx-1" "1" style rule compiled
  refine ⟨rule, compiled, border, mask, image, blocks, blocksOk, texts, fun ruleset member => ?_⟩
  obtain ⟨plain, marked, reset⟩ := precede ruleset member
  exact ⟨plain "border" "block" border, marked "-webkit-" (by decide) "mask" "image" mask image, reset⟩

end Style

end StaticStyle
