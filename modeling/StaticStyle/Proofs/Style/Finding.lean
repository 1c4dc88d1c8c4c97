import StaticStyle.Proofs.Style.Acceptance

/-!
What the compilation of a style finds. A style that is compiled has been gone through as a whole, so its findings are the
malformed references under its properties, at every depth, and nothing else.
-/

namespace StaticStyle.Style

/-- A text stands under a property of a style, at any depth. -/
inductive Holds (text : Text) : Fields Value → Prop where
  | property {fields : Fields Value} {key : Text} (member : (key, .text text) ∈ fields)
      (plain : isNested key = false) : Holds text fields
  | nested {fields inner : Fields Value} {key : Text} (member : (key, .object inner) ∈ fields)
      (nests : isNested key = true) (holds : Holds text inner) : Holds text fields

/-- A text that is a reference, with a path that names no variable as it stands. -/
def IsMalformed (text : Text) : Prop :=
  text.startsWith themeMarker = true ∧ isReferencePath (text.drop themeMarker.length) = false

instance (text : Text) : Decidable (IsMalformed text) :=
  inferInstanceAs (Decidable (_ ∧ _))

/-- The finding of a malformed reference in a style. -/
def IsFindingOf (style : Fields Value) (finding : Diagnostic) : Prop :=
  ∃ text, Holds text style ∧ IsMalformed text ∧ finding = malformedReference text

variable {text : Text} {fields : Fields Value} {finding : Diagnostic}

/-- A text stands in the first entry or in the others. -/
theorem holds_cons {entry : Text × Value} : Holds text (entry :: fields) ↔
    (entry.2 = .text text ∧ isNested entry.1 = false) ∨
      (∃ inner, entry.2 = .object inner ∧ isNested entry.1 = true ∧ Holds text inner) ∨
      Holds text fields := by
  constructor
  · rintro (⟨member, plain⟩ | ⟨member, nests, holds⟩)
    · rcases List.mem_cons.mp member with rfl | member
      · exact .inl ⟨rfl, plain⟩
      · exact .inr (.inr (.property member plain))
    · rcases List.mem_cons.mp member with rfl | member
      · exact .inr (.inl ⟨_, rfl, nests, holds⟩)
      · exact .inr (.inr (.nested member nests holds))
  · obtain ⟨key, value⟩ := entry
    rintro (⟨rfl, plain⟩ | ⟨inner, rfl, nests, holds⟩ | holds)
    · exact .property List.mem_cons_self plain
    · exact .nested List.mem_cons_self nests holds
    · cases holds with
      | property member plain => exact .property (List.mem_cons_of_mem _ member) plain
      | nested member nests holds => exact .nested (List.mem_cons_of_mem _ member) nests holds

private theorem not_holds_nil : ¬ Holds text [] := by
  rintro (⟨member, -⟩ | ⟨member, -, -⟩) <;> simp at member

private theorem mem_arrangedFields {key : Text} {value : Value} :
    (key, value) ∈ arrangedFields fields ↔ ∃ original, (key, original) ∈ fields ∧ original.arranged = value := by
  induction fields with
  | nil => simp [arrangedFields]
  | cons entry fields ih =>
    obtain ⟨other, first⟩ := entry
    simp only [arrangedFields, List.mem_cons, ih, Prod.mk.injEq]
    constructor
    · rintro (⟨rfl, rfl⟩ | ⟨original, member, rfl⟩)
      · exact ⟨first, .inl ⟨rfl, rfl⟩, rfl⟩
      · exact ⟨original, .inr member, rfl⟩
    · rintro ⟨original, ⟨rfl, rfl⟩ | member, rfl⟩
      · exact .inl ⟨rfl, rfl⟩
      · exact .inr ⟨original, member, rfl⟩

private theorem mem_arranged {key : Text} {value : Value} :
    (key, value) ∈ Fields.sorted (arrangedFields fields) ↔
      ∃ original, (key, original) ∈ fields ∧ original.arranged = value :=
  (List.mergeSort_perm _ _).mem_iff.trans mem_arrangedFields

/-- Arranging a style neither brings a text in nor takes one out. -/
theorem holds_arranged : Holds text (Fields.sorted (arrangedFields fields)) ↔ Holds text fields := by
  constructor
  · intro holds
    generalize same : Fields.sorted (arrangedFields fields) = arranged at holds
    induction holds generalizing fields with
    | property member plain =>
      obtain ⟨original, member, same⟩ := mem_arranged.mp (same ▸ member)
      cases original <;> simp only [Value.arranged, reduceCtorEq] at same
      exact .property (same ▸ member) plain
    | nested member nests _ ih =>
      obtain ⟨original, member, same⟩ := mem_arranged.mp (same ▸ member)
      cases original <;> simp only [Value.arranged, reduceCtorEq, Value.object.injEq] at same
      exact .nested member nests (ih same)
  · intro holds
    induction holds with
    | property member plain => exact .property (mem_arranged.mpr ⟨_, member, rfl⟩) plain
    | nested member nests _ ih =>
      exact .nested (mem_arranged.mpr ⟨_, member, by rw [Value.arranged]⟩) nests ih

/-- Every key stands for a property. -/
theorem properties_ne_nil (key : Text) : properties key ≠ [] := by
  unfold properties
  split
  · rename_i names found
    have named : ∀ entry ∈ aliases, entry.2 ≠ [] := by decide
    obtain ⟨name, member⟩ : ∃ name, (name, names) ∈ aliases := by
      obtain ⟨before, after, split, -⟩ := List.lookup_eq_some_iff.mp found
      exact ⟨key, split ▸ List.mem_append_right _ List.mem_cons_self⟩
    simpa using named _ member
  · simp

private theorem mem_declare {stem key : Text} {value : Value} :
    finding ∈ (declare stem key value).findings ↔
      ∃ text, value = .text text ∧ IsMalformed text ∧ finding = malformedReference text := by
  obtain ⟨property, member⟩ := List.exists_mem_of_ne_nil _ (properties_ne_nil key)
  have resolved (text : Text) (property : Text) :
      finding ∈ (resolveValue stem property (.text text)).2 ↔
        IsMalformed text ∧ finding = malformedReference text := by
    simp only [resolveValue, resolveReference, IsMalformed]
    split
    · rename_i marked
      cases isReferencePath (text.drop themeMarker.length) <;> simp [marked]
    · rename_i unmarked
      simp [unmarked]
  rw [declare_findings, List.mem_flatMap]
  constructor
  · rintro ⟨property, -, found⟩
    cases value with
    | text text => exact ⟨text, rfl, (resolved text property).mp found⟩
    | _ => simp [resolveValue] at found
  · rintro ⟨text, rfl, isMalformed⟩
    exact ⟨property, member, (resolved text property).mpr isMalformed⟩

private theorem mem_bind {α β : Type} (finding : Diagnostic) {report : Report α} {next : α → Report β} {b : β}
    (succeeds : (report.bind next).result = .ok b) :
    ∃ a, report.result = .ok a ∧ (next a).result = .ok b ∧
      (finding ∈ (report.bind next).findings ↔ finding ∈ report.findings ∨ finding ∈ (next a).findings) := by
  unfold Report.bind at succeeds ⊢
  cases result : report.result with
  | error invalid => simp [result] at succeeds
  | ok a =>
    rw [result] at succeeds
    exact ⟨a, rfl, succeeds, List.mem_append⟩

private theorem isFindingOf_cons {entry : Text × Value} : IsFindingOf (entry :: fields) finding ↔
    (∃ text, entry.2 = .text text ∧ isNested entry.1 = false ∧ IsMalformed text ∧
      finding = malformedReference text) ∨
      (∃ inner, entry.2 = .object inner ∧ isNested entry.1 = true ∧ IsFindingOf inner finding) ∨
      IsFindingOf fields finding := by
  simp only [IsFindingOf, holds_cons]
  constructor
  · rintro ⟨text, ⟨same, plain⟩ | ⟨inner, same, nests, holds⟩ | holds, found⟩
    · exact .inl ⟨text, same, plain, found⟩
    · exact .inr (.inl ⟨inner, same, nests, text, holds, found⟩)
    · exact .inr (.inr ⟨text, holds, found⟩)
  · rintro (⟨text, same, plain, found⟩ | ⟨inner, same, nests, text, holds, found⟩ | ⟨text, holds, found⟩)
    · exact ⟨text, .inl ⟨same, plain⟩, found⟩
    · exact ⟨text, .inr (.inl ⟨inner, same, nests, holds⟩), found⟩
    · exact ⟨text, .inr (.inr holds), found⟩

mutual
private theorem mem_compileNested (stem selector key : Text) : ∀ {value : Value} {level : Level},
    (compileNested stem selector key value).result = .ok level →
      (finding ∈ (compileNested stem selector key value).findings ↔
        ∃ inner, value = .object inner ∧ IsFindingOf inner finding)
  | .object inner, _, compiled => by
    rw [compileNested] at compiled ⊢
    rw [mem_compileEntries stem selector compiled]
    simp
  | .null, _, compiled | .bool _, _, compiled | .int _, _, compiled | .float _, _, compiled
  | .text _, _, compiled | .stamp _, _, compiled | .list _, _, compiled => by
    simp [compileNested, Report.fail] at compiled

private theorem mem_compileEntries (stem selector : Text) : ∀ {entries : Fields Value} {level : Level},
    (compileEntries stem selector entries).result = .ok level →
      (finding ∈ (compileEntries stem selector entries).findings ↔ IsFindingOf entries finding)
  | [], _, _ => by simp [compileEntries, Report.pure, IsFindingOf, not_holds_nil]
  | (key, value) :: rest, level, compiled => by
    rw [isFindingOf_cons]
    cases nests : isNested key with
    | true =>
      unfold compileEntries at compiled ⊢
      simp only [nests, ↓reduceIte] at compiled ⊢
      obtain ⟨inner, innerOk, behind, found⟩ := mem_bind finding compiled
      obtain ⟨others, othersOk, -, foundBehind⟩ := mem_bind finding behind
      rw [found, foundBehind, mem_compileNested _ _ _ innerOk, mem_compileEntries _ _ othersOk]
      simp [Report.pure]
    | false =>
      rcases scalar_cases value with ⟨inner, rfl⟩ | rfl | scalar
      · simp [compileEntries, nests, Report.fail] at compiled
      · simp only [compileEntries, nests, Bool.false_eq_true, ↓reduceIte] at compiled ⊢
        simpa using mem_compileEntries stem selector compiled
      · rw [compileEntries_scalar stem selector nests scalar] at compiled ⊢
        obtain ⟨declarations, -, behind, found⟩ := mem_bind finding compiled
        obtain ⟨others, othersOk, -, foundBehind⟩ := mem_bind finding behind
        rw [found, foundBehind, mem_declare, mem_compileEntries _ _ othersOk]
        simp [Report.pure]
end

/-- The findings about a style that is compiled are those of the malformed references under its properties. -/
theorem mem_findings {stem name identity : Text} {style : Fields Value} {rule : Rule}
    (compiled : (compile stem name identity style).result = .ok rule) :
    finding ∈ (compile stem name identity style).findings ↔ IsFindingOf style finding := by
  obtain ⟨blocks, blocksOk, -, found⟩ := mem_bind finding compiled
  obtain ⟨level, levelOk, -, foundBlocks⟩ := mem_bind finding blocksOk
  rw [compile, found, compileBlocks, foundBlocks, mem_compileEntries _ _ levelOk]
  simp [Report.pure, IsFindingOf, holds_arranged]

end StaticStyle.Style
