import StaticStyle.Proofs.Expression.Meaning
import StaticStyle.Proofs.Style.Figure
import StaticStyle.Proofs.Style.Shape

namespace StaticStyle.Style

open Expression

section Entries

variable {entry : Text × Value} {node : ObjectNode}

mutual
private theorem contains_of_objects : ∀ {path : List Text} {value : Value}, node ∈ objects path value →
    entry ∈ node.entries → ∃ entries, value = .object entries ∧ Contains entry entries
  | path, .object entries, member, inside => by
    rw [objects] at member
    rcases List.mem_cons.mp member with rfl | member
    · exact ⟨entries, rfl, .own inside⟩
    · obtain ⟨pair, behind, member⟩ := List.mem_flatMap.mp member
      exact ⟨entries, rfl, contains_of_objectsBehind ((Fields.sorted_perm _).mem_iff.mp behind) member inside⟩
  | _, .null, member, _ | _, .bool _, member, _ | _, .int _, member, _ | _, .float _, member, _
  | _, .text _, member, _ | _, .list _, member, _ => by simp [objects] at member

private theorem contains_of_objectsBehind : ∀ {path : List Text} {entries : List (Text × Value)}
    {pair : Text × List ObjectNode}, pair ∈ objectsBehind path entries → node ∈ pair.2 → entry ∈ node.entries →
      Contains entry entries
  | path, (key, value) :: rest, pair, member, behind, inside => by
    rw [objectsBehind] at member
    rcases List.mem_cons.mp member with rfl | member
    · dsimp only at behind
      split at behind
      · rename_i nests
        obtain ⟨inner, rfl, contains⟩ := contains_of_objects behind inside
        exact .nested List.mem_cons_self nests contains
      · cases behind
    · cases contains_of_objectsBehind member behind inside with
      | own member => exact .own (List.mem_cons_of_mem _ member)
      | nested member nests contains => exact .nested (List.mem_cons_of_mem _ member) nests contains
  | _, [], _, member, _, _ => by cases member
end

theorem Contains.holds {style : Fields Value} (contains : Contains entry style) :
    (Value.object style).Holds entry.2 := by
  induction contains with
  | own member => exact .field member (.whole _)
  | nested member _ _ ih => exact .field member ih

end Entries

/-- The unit behind a number: pixels, unless the property has no unit or is a custom one. -/
def unitOf (property : Text) : Text :=
  if unitlessProperties.contains property || isCustom property then [] else Text.ofString "px"

theorem entryDeclarations_number (stem : Text) {key : Text} (plain : isNested key = false) (number : Number) :
    entryDeclarations stem (key, number.toValue) =
      (properties key).map fun property => ⟨property, number.toValue.css ++ unitOf property⟩ := by
  cases number <;> simp only [entryDeclarations, plain, Number.toValue, resolveValue, unitOf, isUnitless] <;> rfl

/-- What a numeral is written as in a style sheet. A numeral that is too large is written as a name. -/
structure IsPrinted (raw : Text) (negated : Bool) (text : Text) : Prop where
  figure : ¬ Overflows raw → ∃ figure : Figure, text = figure.text
  name : Overflows raw → text = if negated then Text.ofString "-inf" else Text.ofString "inf"

/-- The number of a numeral, with a minus sign in front of it or without one. -/
def signed (negated : Bool) (literal : Number) : Number := if negated then literal.negate else literal

theorem IsPrinted.of_signed {raw : Text} (numeral : IsNumeral raw) : ∃ literal, decodeNumber? raw = some literal ∧
    ∀ negated, IsPrinted raw negated (signed negated literal).toValue.css := by
  obtain ⟨literal, decoded, large, small⟩ := numeral.exists_number
  refine ⟨literal, decoded, fun negated => ⟨fun fits => ?_, fun overflows => ?_⟩⟩
  · rw [← Number.isFinite_iff_figure]
    cases negated with
    | false => exact small fits
    | true => exact (Number.isFinite_negate literal).trans (small fits)
  · rw [large overflows]
    cases negated <;> rfl

theorem exists_signed {source : Text} {place : Place} {number : Number} (written : IsWritten place source number) :
    ∃ span raw negated literal, (⟨.number raw, span⟩ : Token) ∈ tokens .operand place source ∧
      decodeNumber? raw = some literal ∧ number = signed negated literal ∧ IsPrinted raw negated number.toValue.css := by
  obtain ⟨span, value, ⟨raw, member, rfl⟩, sign⟩ := written
  obtain ⟨literal, decoded, printed⟩ := IsPrinted.of_signed (isNumeral_of_mem_tokens member rfl)
  rw [decoded, Option.getD_some] at sign
  rcases sign with rfl | rfl
  · exact ⟨span, raw, false, _, member, decoded, rfl, printed false⟩
  · exact ⟨span, raw, true, literal, member, decoded, rfl, printed true⟩

/-- The numbers in an evaluated text are written in it. -/
theorem isWritten_of_evaluateObject {source : Text} {place : Place} {node : Node} {style : Fields Value}
    (parsed : parse source place = .ok node) (evaluated : evaluateObject node = .ok style) {number : Number}
    (held : (Value.object style).Holds number.toValue) : IsWritten place source number := by
  cases node with
  | object span entries =>
    have value : evaluate (.object span entries) = .ok (.object style) := by
      rw [evaluate, show evaluateEntries [] entries = .ok style from evaluated]
      rfl
    exact (parse_read parsed).isWritten.1 _ (denotes_of_evaluate value) number held
  | _ => cases evaluated

/-- Every number of a style that is compiled comes from a numeral of the source, in whatever spelling, with or without a
minus sign. It is declared for each property of its key, in the block of its object, and has the unit of the property
behind it. The number itself is a figure unless the numeral is too large. -/
theorem numbers_of_source {source stem className identity : Text} {place : Place} {node : Node} {style : Fields Value}
    {rule : Rule} (parsed : parse source place = .ok node) (evaluated : evaluateObject node = .ok style)
    (compiled : (compile stem className identity style).result = .ok rule) :
    ∃ primary siblings, rule.primary = primary.css ∧ rule.siblings = siblings.map Block.css ∧
      ∀ object ∈ objects [] (.object style),
        object.ruleset stem (.char '.' :: className) ∈ blocksRulesets [] (primary :: siblings) ∧
        ∀ key number, (key, Number.toValue number) ∈ object.entries →
          isNested key = false ∧
          (∀ property ∈ properties key, ⟨property, number.toValue.css ++ unitOf property⟩ ∈
            (object.ruleset stem (.char '.' :: className)).declarations) ∧
          ∃ span raw negated literal, (⟨.number raw, span⟩ : Token) ∈ tokens .operand place source ∧
            decodeNumber? raw = some literal ∧ number = signed negated literal ∧
            IsPrinted raw negated number.toValue.css := by
  obtain ⟨blocks, blocksOk, named⟩ := blocks_of_compile compiled
  obtain ⟨primary, siblings, rfl, own, others⟩ := List.map_eq_cons_iff.mp named.symm
  refine ⟨primary, siblings, own.symm, others.symm, fun object member => ⟨?_, fun key number entry => ?_⟩⟩
  · rw [rulesets_of_compileBlocks blocksOk]
    exact List.mem_map_of_mem member
  · obtain ⟨_, same, contains⟩ := contains_of_objects member entry
    obtain rfl := Value.object.inj same
    have plain : isNested key = false := by
      have fits := misshape?_of_compile compiled contains
      cases nests : isNested key with
      | false => rfl
      | true => cases number <;> simp [misshape?, nests, Number.toValue] at fits
    have written := isWritten_of_evaluateObject parsed evaluated contains.holds
    refine ⟨plain, fun property stands => ?_, exists_signed written⟩
    refine mem_inCascade.mpr (List.mem_flatMap.mpr ⟨_, (Fields.sorted_perm _).mem_iff.mpr entry, ?_⟩)
    rw [entryDeclarations_number stem plain]
    exact List.mem_map_of_mem stands

/-- A number with low lines under a minus sign, a hexadecimal one, and one that is too large. -/
theorem numbers_of_source_spellings :
    let source : Text := "\x7bwidth: -1_0.50, zIndex: 0xFF, ':hover': \x7bmx: 1e999\x7d\x7d"
    let place : Place := ⟨0, ⟨1, 1⟩⟩
    ∃ node style rule, parse source place = .ok node ∧ evaluateObject node = .ok style ∧
      (compile "--theme" "zx-1" "1" style).result = .ok rule ∧
      style.flatMap (fun entry => (entry.2.fields?.getD [entry]).map fun inner =>
        inner.1 ++ Text.ofString ": " ++ inner.2.css) = (["width: -10.5", "zIndex: 255", "mx: inf"] : List Text) ∧
      ∃ primary siblings, rule.primary = primary.css ∧ rule.siblings = siblings.map Block.css ∧
        ∀ object ∈ objects [] (.object style),
          object.ruleset "--theme" ".zx-1" ∈ blocksRulesets [] (primary :: siblings) ∧
          ∀ key number, (key, Number.toValue number) ∈ object.entries →
            isNested key = false ∧
            (∀ property ∈ properties key, ⟨property, number.toValue.css ++ unitOf property⟩ ∈
              (object.ruleset "--theme" ".zx-1").declarations) ∧
            ∃ span raw negated literal, (⟨.number raw, span⟩ : Token) ∈ tokens .operand place source ∧
              decodeNumber? raw = some literal ∧ number = signed negated literal ∧
              IsPrinted raw negated number.toValue.css := by
  intro source place
  have read : (parse source place).toOption.map (fun node => (evaluateObject node).toOption.map fun style =>
      (areShapely style, style.flatMap fun entry => (entry.2.fields?.getD [entry]).map fun inner =>
        inner.1 ++ Text.ofString ": " ++ inner.2.css)) =
          some (some (true, (["width: -10.5", "zIndex: 255", "mx: inf"] : List Text))) := by decide +kernel
  cases parsed : parse source place with
  | error fault => simp [parsed, Except.toOption] at read
  | ok node =>
    cases evaluated : evaluateObject node with
    | error rejection => simp [parsed, evaluated, Except.toOption] at read
    | ok style =>
      simp only [parsed, evaluated, Except.toOption, Option.map_some, Option.some.injEq, Prod.mk.injEq] at read
      obtain ⟨rule, compiled⟩ := compile_ok_of_shapely "--theme" "zx-1" "1" read.1
      exact ⟨node, style, rule, rfl, evaluated, compiled, read.2, numbers_of_source parsed evaluated compiled⟩

end StaticStyle.Style
