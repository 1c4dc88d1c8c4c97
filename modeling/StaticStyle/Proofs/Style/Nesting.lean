import Mathlib.Data.List.Permutation
import StaticStyle.Proofs.Json.Order
import StaticStyle.Proofs.Style.Acceptance
import StaticStyle.Proofs.Style.Cascade
import StaticStyle.Proofs.Style.Lines

/-!
The blocks of a compiled style. Each object of a style, the style itself or one nested in it, has one block of
declarations, and the blocks are read in the order in which the objects are met when the keys of every level are gone
through in ascending order.
-/

namespace StaticStyle.Style

/-- A block of declarations as it is read in a style sheet, with the at-rules around it from the outermost on. -/
structure Ruleset where
  conditions : List Text
  selector : Text
  declarations : List Declaration
deriving DecidableEq, Repr

mutual
/-- The blocks of declarations in a block, in the order in which they are read. -/
def Block.rulesets (conditions : List Text) : Block → List Ruleset
  | .declarations selector declarations => [⟨conditions, selector, declarations⟩]
  | .conditional condition blocks => blocksRulesets (conditions ++ [condition]) blocks

def blocksRulesets (conditions : List Text) : List Block → List Ruleset
  | [] => []
  | block :: rest => block.rulesets conditions ++ blocksRulesets conditions rest
end

/-- An object of a style: the keys that lead to it, and its entries. -/
structure ObjectNode where
  path : List Text
  entries : Fields Value

mutual
/-- The objects in a value: first the value itself, then those behind its nested keys, in ascending order of these. -/
def objects (path : List Text) : Value → List ObjectNode
  | .object entries => ⟨path, entries⟩ :: (objectsBehind path entries).sorted.flatMap Prod.snd
  | _ => []

/-- The objects behind each key of a level. -/
def objectsBehind (path : List Text) : List (Text × Value) → Fields (List ObjectNode)
  | [] => []
  | (key, value) :: rest =>
    (key, if isNested key then objects (path ++ [key]) value else []) :: objectsBehind path rest
end

/-- The declarations that an entry stands for. Nulls and objects stand for none. -/
def entryDeclarations (stem : Text) (entry : Text × Value) : List Declaration :=
  if isNested entry.1 then []
  else
    match entry.2 with
    | .null | .object _ => []
    | value => (properties entry.1).map fun property => ⟨property, (resolveValue stem property value).1⟩

theorem entryDeclarations_scalar {stem key : Text} {value : Value} (plain : isNested key = false)
    (scalar : IsScalar value) :
    entryDeclarations stem (key, value) =
      (properties key).map fun property => ⟨property, (resolveValue stem property value).1⟩ := by
  rw [entryDeclarations, plain]
  cases value with
  | null => exact absurd rfl scalar.1
  | object inner => exact absurd rfl (scalar.2 inner)
  | _ => rfl

/-- The block that an object of a style has: around it are the at-rules on the way to it, its selector is that of the
class inside the other keys on the way, and its declarations are those of its entries. -/
def ObjectNode.ruleset (stem selector : Text) (node : ObjectNode) : Ruleset where
  conditions := node.path.filter fun key => isCondition key
  selector := (node.path.filter fun key => !isCondition key).foldl nestedSelector selector
  declarations := inCascade (node.entries.sorted.flatMap (entryDeclarations stem))

section Levels

variable {stem : Text}

theorem blocksRulesets_append (conditions : List Text) (blocks blocks' : List Block) :
    blocksRulesets conditions (blocks ++ blocks') =
      blocksRulesets conditions blocks ++ blocksRulesets conditions blocks' := by
  induction blocks with
  | nil => rfl
  | cons block blocks ih => simp [blocksRulesets, ih]

theorem blocksRulesets_blocks (conditions : List Text) (level : Level) (selector : Text) :
    blocksRulesets conditions (level.blocks selector) =
      ⟨conditions, selector, inCascade level.declarations⟩ :: blocksRulesets conditions level.nested := by
  rw [Level.blocks, byRank_eq_inCascade]
  rfl

/-- The at-rules around a level under a key. -/
def innerConditions (conditions : List Text) (key : Text) : List Text :=
  if isCondition key then conditions ++ [key] else conditions

theorem blocksRulesets_nestedBlocks (conditions : List Text) (level : Level) (selector key : Text) :
    blocksRulesets conditions (level.nestedBlocks selector key) =
      blocksRulesets (innerConditions conditions key) (level.blocks selector) := by
  unfold Level.nestedBlocks innerConditions
  split <;> simp [blocksRulesets, Block.rulesets]

mutual
/-- The blocks under a nested key, where every level is in order. -/
def nestedRulesets (stem : Text) (conditions : List Text) (selector : Text) : Value → List Ruleset
  | .object entries =>
    ⟨conditions, selector, inCascade (entries.flatMap (entryDeclarations stem))⟩ ::
      entriesRulesets stem conditions selector entries
  | _ => []

def entriesRulesets (stem : Text) (conditions : List Text) (selector : Text) : List (Text × Value) → List Ruleset
  | [] => []
  | (key, value) :: rest =>
    (if isNested key then nestedRulesets stem (innerConditions conditions key) (innerSelector selector key) value
      else []) ++ entriesRulesets stem conditions selector rest
end

theorem Report.bind_eq_ok {α β : Type} {report : Report α} {next : α → Report β} {b : β}
    (succeeds : (report.bind next).result = .ok b) : ∃ a, report.result = .ok a ∧ (next a).result = .ok b := by
  unfold Report.bind at succeeds
  cases result : report.result with
  | error invalid => simp [result] at succeeds
  | ok a =>
    rw [result] at succeeds
    exact ⟨a, rfl, succeeds⟩

theorem areFilled_blocks {level : Level} (filled : areFilled level.nested = true) (selector : Text) :
    areFilled (level.blocks selector) = true := by
  rw [Level.blocks, areFilled, filled]
  rfl

theorem areFilled_nestedBlocks {level : Level} (filled : areFilled level.nested = true) (selector key : Text) :
    areFilled (level.nestedBlocks selector key) = true := by
  unfold Level.nestedBlocks
  split
  · rw [areFilled, Block.isFilled, areFilled_blocks filled]
    rfl
  · exact areFilled_blocks filled selector

mutual
private theorem rulesets_of_compileNested (conditions : List Text) (selector key : Text) :
    ∀ {value : Value} {level : Level}, (compileNested stem selector key value).result = .ok level →
      areFilled level.nested = true ∧
        blocksRulesets conditions (level.blocks selector) = nestedRulesets stem conditions selector value
  | .object entries, level, compiled => by
    rw [compileNested] at compiled
    obtain ⟨filled, declared, nested⟩ := rulesets_of_compileEntries selector compiled
    exact ⟨filled, by rw [blocksRulesets_blocks, declared, nested conditions, nestedRulesets]⟩
  | .null, _, compiled | .bool _, _, compiled | .int _, _, compiled | .float _, _, compiled
  | .text _, _, compiled | .stamp _, _, compiled | .list _, _, compiled => by
    simp [compileNested, Report.fail] at compiled

/-- What the entries of a level are compiled to, if they are. -/
private theorem rulesets_of_compileEntries (selector : Text) :
    ∀ {entries : List (Text × Value)} {level : Level}, (compileEntries stem selector entries).result = .ok level →
      areFilled level.nested = true ∧ level.declarations = entries.flatMap (entryDeclarations stem) ∧ ∀ conditions,
        blocksRulesets conditions level.nested = entriesRulesets stem conditions selector entries
  | [], level, compiled => by
    cases compiled
    exact ⟨rfl, rfl, fun _ => rfl⟩
  | (key, value) :: rest, level, compiled => by
    cases nests : isNested key with
    | true =>
      unfold compileEntries at compiled
      rw [if_pos nests] at compiled
      obtain ⟨inner, innerOk, behind⟩ := Report.bind_eq_ok compiled
      obtain ⟨others, othersOk, same⟩ := Report.bind_eq_ok behind
      obtain rfl := Except.ok.inj same
      obtain ⟨filled, declared, nested⟩ := rulesets_of_compileEntries selector othersOk
      have innerRulesets conditions := rulesets_of_compileNested (innerConditions conditions key) _ key innerOk
      refine ⟨?_, by simp [declared, entryDeclarations, nests], fun conditions => ?_⟩
      · rw [areFilled_append, areFilled_nestedBlocks (innerRulesets []).1, filled]
        rfl
      · rw [blocksRulesets_append, blocksRulesets_nestedBlocks, (innerRulesets conditions).2, nested conditions,
          entriesRulesets, if_pos nests]
    | false =>
      have plain (conditions : List Text) : entriesRulesets stem conditions selector ((key, value) :: rest) =
          entriesRulesets stem conditions selector rest := by
        simp [entriesRulesets, nests]
      simp only [plain]
      rcases scalar_cases value with ⟨inner, rfl⟩ | rfl | scalar
      · simp [compileEntries, nests, Report.fail] at compiled
      · simp only [compileEntries, nests, Bool.false_eq_true, ↓reduceIte] at compiled
        obtain ⟨filled, declared, nested⟩ := rulesets_of_compileEntries selector compiled
        exact ⟨filled, by simp [declared, entryDeclarations], nested⟩
      · rw [compileEntries_scalar stem selector nests scalar] at compiled
        obtain ⟨declarations, declaredHere, behind⟩ := Report.bind_eq_ok compiled
        obtain ⟨others, othersOk, same⟩ := Report.bind_eq_ok behind
        obtain rfl := Except.ok.inj same
        obtain ⟨filled, declared, nested⟩ := rulesets_of_compileEntries selector othersOk
        refine ⟨filled, ?_, nested⟩
        rw [List.flatMap_cons, entryDeclarations_scalar nests scalar, ← declared,
          ← (declare_eq_ok_iff.mp declaredHere).2]
end

end Levels

section Nodes

variable {stem : Text}

private theorem entriesRulesets_eq_flatMap (conditions : List Text) (selector : Text) (entries : List (Text × Value)) :
    entriesRulesets stem conditions selector entries = entries.flatMap fun entry =>
      if isNested entry.1 then
        nestedRulesets stem (innerConditions conditions entry.1) (innerSelector selector entry.1) entry.2
      else [] := by
  induction entries with
  | nil => rfl
  | cons entry entries ih => rw [entriesRulesets, ih, List.flatMap_cons]

private theorem objectsBehind_eq_map (path : List Text) (entries : List (Text × Value)) :
    objectsBehind path entries = entries.map fun entry =>
      (entry.1, if isNested entry.1 then objects (path ++ [entry.1]) entry.2 else []) := by
  induction entries with
  | nil => rfl
  | cons entry entries ih => rw [objectsBehind, ih, List.map_cons]

theorem arrangedFields_eq_map (entries : List (Text × Value)) :
    arrangedFields entries = entries.map fun entry => (entry.1, entry.2.arranged) := by
  induction entries with
  | nil => rfl
  | cons entry entries ih => rw [arrangedFields, ih, List.map_cons]

private theorem entryDeclarations_arranged (entry : Text × Value) :
    entryDeclarations stem (entry.1, entry.2.arranged) = entryDeclarations stem entry := by
  obtain ⟨key, value⟩ := entry
  cases value <;> simp [entryDeclarations, Value.arranged]

private theorem declarations_arranged (entries : Fields Value) :
    (Fields.sorted (arrangedFields entries)).flatMap (entryDeclarations stem) =
      entries.sorted.flatMap (entryDeclarations stem) := by
  rw [arrangedFields_eq_map, Fields.sorted_map, List.flatMap_map]
  exact List.flatMap_congr fun entry _ => entryDeclarations_arranged entry

variable {selector : Text}

private theorem ruleset_step (path : List Text) (key : Text) (entries : Fields Value) :
    (⟨path ++ [key], entries⟩ : ObjectNode).ruleset stem selector =
      ⟨innerConditions (path.filter fun key => isCondition key) key,
        innerSelector ((path.filter fun key => !isCondition key).foldl nestedSelector selector) key,
        inCascade (entries.sorted.flatMap (entryDeclarations stem))⟩ := by
  cases condition : isCondition key <;>
    simp [ObjectNode.ruleset, innerConditions, innerSelector, List.filter_append, condition]

private theorem rulesets_of_level (conditions : List Text) (outer : Text) (path : List Text) {entries : Fields Value}
    (behind : ∀ entry ∈ entries, isNested entry.1 = true →
      nestedRulesets stem (innerConditions conditions entry.1) (innerSelector outer entry.1) entry.2.arranged =
        (objects (path ++ [entry.1]) entry.2).map (ObjectNode.ruleset stem selector)) :
    entriesRulesets stem conditions outer (Fields.sorted (arrangedFields entries)) =
      ((objectsBehind path entries).sorted.flatMap Prod.snd).map (ObjectNode.ruleset stem selector) := by
  rw [entriesRulesets_eq_flatMap, arrangedFields_eq_map, objectsBehind_eq_map, Fields.sorted_map, Fields.sorted_map,
    List.flatMap_map, List.flatMap_map, List.map_flatMap]
  refine List.flatMap_congr fun entry member => ?_
  split
  · rename_i nests
    exact behind entry ((Fields.sorted_perm entries).mem_iff.mp member) nests
  · rfl

mutual
private theorem rulesets_of_objects (path : List Text) (key : Text) : ∀ value : Value,
    nestedRulesets stem (innerConditions (path.filter fun key => isCondition key) key)
        (innerSelector ((path.filter fun key => !isCondition key).foldl nestedSelector selector) key) value.arranged =
      (objects (path ++ [key]) value).map (ObjectNode.ruleset stem selector)
  | .object entries => by
    have behind := rulesets_of_entries (path ++ [key]) entries
    rw [Value.arranged, nestedRulesets, declarations_arranged, objects, List.map_cons, ruleset_step]
    congr 1
    refine rulesets_of_level _ _ _ fun entry member nests => ?_
    rw [← behind entry member nests]
    cases condition : isCondition key <;>
      simp [innerConditions, innerSelector, List.filter_append, condition]
  | .null | .bool _ | .int _ | .float _ | .text _ | .stamp _ | .list _ => rfl

private theorem rulesets_of_entries (path : List Text) : ∀ entries : List (Text × Value), ∀ entry ∈ entries,
    isNested entry.1 = true →
      nestedRulesets stem (innerConditions (path.filter fun key => isCondition key) entry.1)
          (innerSelector ((path.filter fun key => !isCondition key).foldl nestedSelector selector) entry.1)
          entry.2.arranged =
        (objects (path ++ [entry.1]) entry.2).map (ObjectNode.ruleset stem selector)
  | [], _, member, _ => by simp at member
  | (key, value) :: rest, entry, member, nests => by
    rcases List.mem_cons.mp member with rfl | member
    · exact rulesets_of_objects path key value
    · exact rulesets_of_entries path rest entry member nests
end

end Nodes

/-- The blocks that a style is compiled to are those of its objects in pre-order. -/
theorem rulesets_of_compileBlocks {stem selector : Text} {style : Fields Value} {blocks : List Block}
    (compiled : (compileBlocks stem selector style).result = .ok blocks) :
    blocksRulesets [] blocks = (objects [] (.object style)).map (ObjectNode.ruleset stem selector) := by
  obtain ⟨level, levelOk, same⟩ := Report.bind_eq_ok compiled
  obtain rfl := Except.ok.inj same
  obtain ⟨-, declared, nested⟩ := rulesets_of_compileEntries _ levelOk
  rw [declarations_arranged] at declared
  rw [blocksRulesets_blocks, declared, nested [], objects, List.map_cons]
  congr 1
  exact rulesets_of_level _ _ _ (rulesets_of_entries [] style)

/-- The first block has the declarations of the style itself, and every at-rule holds a block. -/
theorem primary_of_compileBlocks {stem selector : Text} {style : Fields Value} {blocks : List Block}
    (compiled : (compileBlocks stem selector style).result = .ok blocks) :
    areFilled blocks = true ∧ ∃ siblings,
      blocks = .declarations selector (inCascade (style.sorted.flatMap (entryDeclarations stem))) :: siblings := by
  obtain ⟨level, levelOk, same⟩ := Report.bind_eq_ok compiled
  obtain rfl := Except.ok.inj same
  obtain ⟨filled, declared, -⟩ := rulesets_of_compileEntries _ levelOk
  rw [declarations_arranged] at declared
  exact ⟨areFilled_blocks filled selector, level.nested, by rw [Level.blocks, byRank_eq_inCascade, declared]⟩

/-- The texts of a rule are those of the blocks that its style is compiled to. -/
theorem blocks_of_compile {stem className identity : Text} {style : Fields Value} {rule : Rule}
    (compiled : (compile stem className identity style).result = .ok rule) :
    ∃ blocks, (compileBlocks stem (.char '.' :: className) style).result = .ok blocks ∧
      rule.primary :: rule.siblings = blocks.map Block.css := by
  obtain ⟨blocks, blocksOk, named⟩ := Report.bind_eq_ok compiled
  obtain ⟨level, -, same⟩ := Report.bind_eq_ok blocksOk
  obtain rfl := Except.ok.inj named
  obtain rfl := Except.ok.inj same
  exact ⟨_, blocksOk, rfl⟩

/-- A style that is compiled has one block of declarations for each of its objects, and no others. Read in order, those
of the primary block and of its siblings are the blocks of the objects in pre-order, with ascending keys at every level.
The primary block is the block of the style itself. Each block is written line by line: one for each declaration,
between those that open and close the block and the at-rules around it. -/
theorem compile_rulesets (stem className identity : Text) (style : Fields Value) (rule : Rule)
    (compiled : (compile stem className identity style).result = .ok rule) :
    ∃ primary siblings, rule.primary = Text.join "\n" primary.lines ∧
      rule.siblings = siblings.map (fun block => Text.join "\n" block.lines) ∧
      primary = .declarations (.char '.' :: className)
        (inCascade (style.sorted.flatMap (entryDeclarations stem))) ∧
      blocksRulesets [] (primary :: siblings) =
        (objects [] (.object style)).map (ObjectNode.ruleset stem (.char '.' :: className)) := by
  obtain ⟨blocks, blocksOk, texts⟩ := blocks_of_compile compiled
  obtain ⟨filled, siblings, rfl⟩ := primary_of_compileBlocks blocksOk
  rw [map_css_eq_join_lines filled, List.map_cons, List.cons.injEq] at texts
  exact ⟨_, siblings, texts.1, texts.2, rfl, rulesets_of_compileBlocks blocksOk⟩

/-- At-rules and selectors that alternate, a list of selectors, a null, and a shorthand behind its longhand. -/
theorem compile_rulesets_alternating :
    let innermost : Fields Value := [("mx", .int 1), ("color", .null), ("margin", .int 0)]
    let outer : Fields Value := [("& b", .object [("@supports (gap: 0)", .object innermost)]), ("zIndex", .int 2)]
    let style : Fields Value := [("@media print", .object outer), (":hover, &:focus", .object [("& i", .object [])])]
    ∃ rule, (compile "--theme" "zx-1" "1" style).result = .ok rule ∧
      ∃ primary siblings, rule.primary = Text.join "\n" primary.lines ∧
        rule.siblings = siblings.map (fun block => Text.join "\n" block.lines) ∧
        primary = .declarations ".zx-1" (inCascade (style.sorted.flatMap (entryDeclarations "--theme"))) ∧
        blocksRulesets [] (primary :: siblings) =
          ([⟨[], style⟩, ⟨[":hover, &:focus"], [("& i", .object [])]⟩, ⟨[":hover, &:focus", "& i"], []⟩,
            ⟨["@media print"], outer⟩, ⟨["@media print", "& b"], [("@supports (gap: 0)", .object innermost)]⟩,
            ⟨["@media print", "& b", "@supports (gap: 0)"], innermost⟩] : List ObjectNode).map
              (ObjectNode.ruleset "--theme" ".zx-1") := by
  intro innermost outer style
  have arranged : Fields.sorted (arrangedFields style) =
      ([(":hover, &:focus", .object [("& i", .object [])]), ("@media print", .object
        [("& b", .object [("@supports (gap: 0)", .object [("color", .null), ("margin", .int 0), ("mx", .int 1)])]),
          ("zIndex", .int 2)])] : Fields Value) := by cbv
  have succeeds : (compile "--theme" "zx-1" "1" style).result.toOption.isSome = true := by
    rw [compile, compileBlocks, arranged]
    decide +kernel
  obtain ⟨rule, compiled⟩ : ∃ rule, (compile "--theme" "zx-1" "1" style).result = .ok rule := by
    cases result : (compile "--theme" "zx-1" "1" style).result with
    | error invalid => simp [result, Except.toOption] at succeeds
    | ok rule => exact ⟨rule, rfl⟩
  obtain ⟨primary, siblings, own, others, block, rulesets⟩ :=
    compile_rulesets "--theme" "zx-1" "1" style rule compiled
  refine ⟨rule, compiled, primary, siblings, own, others, block, rulesets.trans (congrArg _ ?_)⟩
  cbv

/-- An alias stands for two longhands, which come behind the shorthand. -/
example : inCascade (([("color", .null), ("mx", .int 1), ("margin", .int 0)] : Fields Value).flatMap
    (entryDeclarations "--theme")) =
      [⟨"margin", "0px"⟩, ⟨"margin-left", "1px"⟩, ⟨"margin-right", "1px"⟩] := by decide +kernel

end StaticStyle.Style
