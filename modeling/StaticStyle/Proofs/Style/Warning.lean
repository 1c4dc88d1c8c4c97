import StaticStyle.Proofs.Style.Shape

/-!
How often a malformed reference is reported. The compilation visits every entry of a style once, but a value is written
for each property that its key stands for, and every time the reference in it is reported anew. So an entry is reported
once only if its key stands for one property.
-/

namespace StaticStyle.Style

/-- The malformed reference that an entry sets its properties to. -/
def malformedText? (entry : Text × Value) : Option Text :=
  match isNested entry.1, entry.2 with
  | false, .text text => if IsMalformed text then some text else none
  | _, _ => none

/-- The malformed references of a style with their keys, in the order in which its entries are visited. -/
def malformedEntries (style : Fields Value) : List (Text × Text) :=
  (visited (.object style)).filterMap fun entry => (malformedText? entry).map fun text => (entry.1, text)

theorem malformedText?_eq_some {key text : Text} {value : Value} :
    malformedText? (key, value) = some text ↔ value = .text text ∧ isNested key = false ∧ IsMalformed text := by
  unfold malformedText?
  cases nests : isNested key with
  | true => simp
  | false =>
    cases value with
    | text held =>
      simp only [Option.ite_none_right_eq_some, Option.some.injEq, Value.text.injEq, true_and]
      exact ⟨fun ⟨malformed, same⟩ => ⟨same, same ▸ malformed⟩, fun ⟨same, malformed⟩ => ⟨same ▸ malformed, same⟩⟩
    | _ => simp

/-- What is found about an entry that fits is the malformed reference in it, once for every property of its key. -/
theorem entryFindings_eq {key : Text} {value : Value} (fits : misshape? (key, value) = none) :
    entryFindings (key, value) = (malformedText? (key, value)).toList.flatMap fun text =>
      List.replicate (properties key).length (malformedReference text) := by
  rw [entryFindings]
  cases value with
  | text text =>
    have plain : isNested key = false := by
      by_contra nests
      simp [misshape?, Bool.eq_true_of_not_eq_false nests] at fits
    by_cases malformed : IsMalformed text
    · rw [malformedText?_eq_some.mpr ⟨rfl, plain, malformed⟩]
      simp only [valueFindings, if_pos malformed, Option.toList_some, List.flatMap_singleton]
      rw [← List.map_eq_flatMap, List.map_const']
    · simp [valueFindings, malformedText?, plain, malformed]
  | _ => cases nests : isNested key <;> simp [valueFindings, malformedText?, nests]

/-- The findings about a style that is compiled, in the order in which its entries are visited. -/
theorem findings_eq_flatMap {stem className identity : Text} {style : Fields Value} {rule : Rule}
    (compiled : (compile stem className identity style).result = .ok rule) :
    (compile stem className identity style).findings = (malformedEntries style).flatMap fun entry =>
      List.replicate (properties entry.1).length (malformedReference entry.2) := by
  have follows := follows_compile stem className identity style
  simp only [Report.Follows, compiled] at follows
  obtain ⟨fit, findings⟩ := follows
  rw [findings, malformedEntries]
  have each : ∀ entry ∈ visited (.object style), entryFindings entry =
      ((malformedText? entry).map fun text => (entry.1, text)).toList.flatMap fun entry =>
        List.replicate (properties entry.1).length (malformedReference entry.2) := by
    intro entry member
    rw [entryFindings_eq (fit entry member)]
    cases malformedText? entry <;> rfl
  rw [List.flatMap_congr each, ← List.flatMap_assoc, ← List.filterMap_eq_flatMap_toList]

section Multiplicity

variable {α β : Type} {times : α → Nat} {value : α → β} {members : List α}

private theorem le_length_flatMap_replicate (value : α → β) (some : ∀ a ∈ members, 0 < times a) :
    members.length ≤ (members.flatMap fun a => List.replicate (times a) (value a)).length := by
  induction members with
  | nil => simp
  | cons a members ih =>
    obtain ⟨first, others⟩ := List.forall_mem_cons.mp some
    have behind := ih others
    simp only [List.length_cons, List.flatMap_cons, List.length_append, List.length_replicate] at behind ⊢
    omega

private theorem length_flatMap_replicate_iff (some : ∀ a ∈ members, 0 < times a) :
    (members.flatMap fun a => List.replicate (times a) (value a)).length = members.length ↔
      ∀ a ∈ members, times a = 1 := by
  induction members with
  | nil => simp
  | cons a members ih =>
    obtain ⟨first, others⟩ := List.forall_mem_cons.mp some
    have behind := ih others
    have least := le_length_flatMap_replicate value others
    rw [List.forall_mem_cons, ← behind]
    simp only [List.length_cons, List.flatMap_cons, List.length_append, List.length_replicate] at least ⊢
    omega

private theorem flatMap_replicate_of_once (once : ∀ a ∈ members, times a = 1) :
    (members.flatMap fun a => List.replicate (times a) (value a)) = members.map value := by
  rw [List.map_eq_flatMap]
  refine List.flatMap_congr fun a member => ?_
  rw [once a member]
  rfl

end Multiplicity

/-- The findings about a style that is compiled are those of its malformed references in the order in which its entries
are visited, each one as often as its key stands for properties. So they are as many as the malformed references if and
only if no key of a malformed reference stands for several properties, and then each one is reported once. -/
theorem findings_of_malformed_entries {stem className identity : Text} {style : Fields Value} {rule : Rule}
    (compiled : (compile stem className identity style).result = .ok rule) :
    ((compile stem className identity style).findings = (malformedEntries style).flatMap fun entry =>
      List.replicate (properties entry.1).length (malformedReference entry.2)) ∧
    ((compile stem className identity style).findings.length = (malformedEntries style).length ↔
      ∀ entry ∈ malformedEntries style, (properties entry.1).length = 1) ∧
    ((∀ entry ∈ malformedEntries style, (properties entry.1).length = 1) →
      (compile stem className identity style).findings =
        (malformedEntries style).map fun entry => malformedReference entry.2) := by
  have some : ∀ entry ∈ malformedEntries style, 0 < (properties entry.1).length := fun entry _ =>
    List.length_pos_iff.mpr (properties_ne_nil entry.1)
  rw [findings_eq_flatMap compiled]
  exact ⟨rfl, length_flatMap_replicate_iff some, flatMap_replicate_of_once⟩

/-- A reference under an alias of one property is reported once, and one under an alias of two properties is reported
twice, behind those that are nested in front of it. -/
theorem findings_of_malformed_entries_nested :
    let inner : Fields Value := [("bg", .text "$theme.")]
    let style : Fields Value := [("mx", .text "$theme.a b"), ("&:hover", .object inner)]
    (∃ rule, (compile "--theme" "zx-1" "1" inner).result = .ok rule ∧
      (compile "--theme" "zx-1" "1" inner).findings = [malformedReference "$theme."]) ∧
    ∃ rule, (compile "--theme" "zx-1" "1" style).result = .ok rule ∧
      (compile "--theme" "zx-1" "1" style).findings =
        [malformedReference "$theme.", malformedReference "$theme.a b", malformedReference "$theme.a b"] := by
  intro inner style
  let nested : List (Text × Text) := [("bg", "$theme.")]
  let malformed : List (Text × Text) := [("bg", "$theme."), ("mx", "$theme.a b")]
  constructor
  · obtain ⟨rule, compiled⟩ : ∃ rule, (compile "--theme" "zx-1" "1" inner).result = .ok rule :=
      compile_ok_of_shapely _ _ _ (by decide +kernel)
    have visits : visited (.object inner) = inner := by cbv
    have entries : malformedEntries inner = nested := by
      rw [malformedEntries, visits]
      decide +kernel
    have once : ∀ entry ∈ malformedEntries inner, (properties entry.1).length = 1 := by
      rw [entries]
      decide +kernel
    refine ⟨rule, compiled, ?_⟩
    rw [(findings_of_malformed_entries compiled).2.2 once, entries]
    rfl
  · obtain ⟨rule, compiled⟩ : ∃ rule, (compile "--theme" "zx-1" "1" style).result = .ok rule :=
      compile_ok_of_shapely _ _ _ (by decide +kernel)
    let order : List (Text × Value) := [("&:hover", .object inner), ("bg", .text "$theme."), ("mx", .text "$theme.a b")]
    have visits : visited (.object style) = order := by cbv
    have entries : malformedEntries style = malformed := by
      rw [malformedEntries, visits]
      decide +kernel
    refine ⟨rule, compiled, ?_⟩
    rw [(findings_of_malformed_entries compiled).1, entries]
    decide +kernel

end StaticStyle.Style
