import StaticStyle.Proofs.Session.Run
import StaticStyle.Proofs.Session.Declaration
import StaticStyle.Proofs.Style.Finding

/-!
What is reported about a file. Findings are made when a style is compiled, and a style is compiled when its identity is
met for the first time. So a malformed reference is reported at the first declaration of its style, in the first file
that is compiled with it, and neither at later declarations nor for later files.
-/

namespace StaticStyle.Session

open Style

/-- A declaration that meets its identity for the first time: it is neither registered nor that of a declaration in front
of it. -/
def IsNew (config : Config) (registry : Registry) (styles : List PlacedStyle) (placed : PlacedStyle) : Prop :=
  ∃ before after identity, styles = before ++ placed :: after ∧
    identityOf? config placed.style = some identity ∧ Fields.contains identity registry = false ∧
    ∀ earlier ∈ before, identityOf? config earlier.style ≠ some identity

/-- A diagnostic tells of a finding about a style, in a file and at the position of the declaration. -/
def Locates (path : Text) (placed : PlacedStyle) (diagnostic : Diagnostic) : Prop :=
  ∃ text, Holds text placed.style ∧ IsMalformed text ∧ diagnostic =
    (malformedReference text).located path (some placed.position.line) (some placed.position.column)

variable {config : Config} {registry : Registry} {path : Text} {styles : List PlacedStyle} {plan : Plan}

private theorem isNew_concat {placed last : PlacedStyle} : IsNew config registry (styles ++ [last]) placed ↔
    IsNew config registry styles placed ∨ (placed = last ∧ ∃ identity,
      identityOf? config last.style = some identity ∧ Fields.contains identity registry = false ∧
      ∀ earlier ∈ styles, identityOf? config earlier.style ≠ some identity) := by
  constructor
  · rintro ⟨before, after, identity, split, named, unknown, first⟩
    rcases List.eq_nil_or_concat after with rfl | ⟨after, other, rfl⟩
    · obtain ⟨rfl, same⟩ := List.append_inj' split rfl
      rw [List.cons.injEq] at same
      exact .inr ⟨same.1.symm, identity, same.1 ▸ named, unknown, first⟩
    · rw [List.concat_eq_append, ← List.cons_append, ← List.append_assoc] at split
      obtain ⟨rfl, -⟩ := List.append_inj' split rfl
      exact .inl ⟨before, after, identity, rfl, named, unknown, first⟩
  · rintro (⟨before, after, identity, rfl, named, unknown, first⟩ | ⟨rfl, identity, named, unknown, first⟩)
    · exact ⟨before, after ++ [last], identity, by simp, named, unknown, first⟩
    · exact ⟨styles, [], identity, rfl, named, unknown, first⟩

/-- What a plan for some styles reports: the findings about those that are new. It has the rules of the same ones. -/
structure Reports (config : Config) (registry : Registry) (path : Text) (styles : List PlacedStyle) (plan : Plan) :
    Prop where
  known : ∀ identity, Fields.contains identity registry = false →
    (Fields.contains identity plan.rules = true ↔ ∃ placed ∈ styles, identityOf? config placed.style = some identity)
  diagnostics : ∀ diagnostic, diagnostic ∈ plan.diagnostics ↔
    ∃ placed, IsNew config registry styles placed ∧ Locates path placed diagnostic

/-- A style is compiled if it is new, and its findings are reported where it is declared. -/
private theorem addStyle_reports (reports : Reports config registry path styles plan) (last : PlacedStyle) :
    Leads
      (fun next => Reports config registry path (styles ++ [last])
        { next.1 with declarations := next.1.declarations + 1 })
      (fun _ => True) (plan.addStyle config registry path last.position last.style) := by
  refine (Leads.usable fun _ named => named).bind ?_
  rintro ⟨identity, name⟩ named
  have isNamed : identityOf? config last.style = some identity := by
    simp [identityOf?, named, Except.toOption]
  dsimp only
  split
  · rename_i met
    rw [Bool.or_eq_true] at met
    have isOld : ¬ ∃ own, identityOf? config last.style = some own ∧ Fields.contains own registry = false ∧
        ∀ earlier ∈ styles, identityOf? config earlier.style ≠ some own := by
      rintro ⟨own, ownNamed, unknown, first⟩
      obtain rfl : identity = own := by simpa [isNamed] using ownNamed
      rcases met with planned | registered
      · obtain ⟨earlier, member, same⟩ := (reports.known identity unknown).mp planned
        exact first earlier member same
      · simp [registered] at unknown
    refine ⟨fun other unknown => ?_, fun diagnostic => ?_⟩
    · refine (reports.known other unknown).trans ⟨?_, ?_⟩
      · rintro ⟨placed, member, same⟩
        exact ⟨placed, List.mem_append_left _ member, same⟩
      · rintro ⟨placed, member, same⟩
        rcases List.mem_append.mp member with member | member
        · exact ⟨placed, member, same⟩
        · rw [List.mem_singleton.mp member, isNamed, Option.some.injEq] at same
          subst same
          rcases met with planned | registered
          · exact (reports.known identity unknown).mp planned
          · simp [registered] at unknown
    · simp only [reports.diagnostics, isNew_concat, isOld, and_false, or_false]
  · rename_i unmet
    rw [Bool.not_eq_true, Bool.or_eq_false_iff] at unmet
    have first : ∀ earlier ∈ styles, identityOf? config earlier.style ≠ some identity := by
      intro earlier member same
      have planned := (reports.known identity unmet.2).mpr ⟨earlier, member, same⟩
      simp [unmet.1] at planned
    split
    · trivial
    · rename_i rule compiled
      refine ⟨fun other unknown => ?_, fun diagnostic => ?_⟩
      · simp only [Fields.contains_iff, Fields.get?_put]
        by_cases same : other = identity
        · subst same
          simp only [↓reduceIte, Option.some.injEq, exists_eq', true_iff]
          exact ⟨last, List.mem_append_right _ (List.mem_singleton.mpr rfl), isNamed⟩
        · rw [if_neg same, ← Fields.contains_iff, reports.known other unknown]
          simp [isNamed, Ne.symm same]
      · simp only [List.mem_append, reports.diagnostics, isNew_concat, List.mem_map, mem_findings compiled]
        constructor
        · rintro (⟨placed, isNew, located⟩ | ⟨finding, ⟨text, holds, isMalformed, rfl⟩, rfl⟩)
          · exact ⟨placed, .inl isNew, located⟩
          · exact ⟨last, .inr ⟨rfl, identity, isNamed, unmet.2, first⟩, text, holds, isMalformed, rfl⟩
        · rintro ⟨placed, isNew | ⟨rfl, -⟩, located⟩
          · exact .inl ⟨placed, isNew, located⟩
          · obtain ⟨text, holds, isMalformed, rfl⟩ := located
            exact .inr ⟨_, ⟨text, holds, isMalformed, rfl⟩, rfl⟩

private theorem reports_carries (config : Config) (registry : Registry) (path : Text) :
    Carries config registry path (Reports config registry path) where
  edit _ reports := ⟨reports.known, reports.diagnostics⟩
  style placed reports := addStyle_reports reports placed

/-- A plan for a source reports the findings about the styles that are new. -/
theorem plan_reports {source : Text} (planned : Session.plan config registry path source = .ok plan) :
    Reports config registry path (placedStyles config source) plan := by
  have start : Reports config registry path [] (.ofSource source) := by
    refine ⟨fun identity _ => ?_, fun diagnostic => ?_⟩
    · simp [Plan.ofSource, Fields.contains, Fields.get?]
    · simp [Plan.ofSource, IsNew]
  have leads := (reports_carries config registry path).planning start
  rw [planned] at leads
  exact leads

/-- Behind every run, the diagnostics of a file that is compiled are these: a warning for each malformed reference that
the style of a declaration holds, at any depth, with the path of the file and the position of the declaration, as long as
the identity of the style is not registered yet and no earlier declaration of the file has it. -/
theorem diagnostics_of_new_declarations (config : Config) (theme : Option Theme.Store) (operations : List Operation)
    (path source : Text) (output : Output)
    (transformed : ((run config theme operations).transform config path source).result = .ok (some output))
    (diagnostic : Diagnostic) :
    diagnostic ∈ output.diagnostics ↔
      ∃ placed, IsNew config (run config theme operations).registry (placedStyles config source) placed ∧
        ∃ text, Holds text placed.style ∧ IsMalformed text ∧ diagnostic =
          { rule := "malformed_theme_reference"
            severity := .warning
            message := "Malformed theme reference " ++ text.quoted ++ "; compiled best-effort"
            path := some path
            line := some placed.position.line
            column := some placed.position.column } := by
  obtain ⟨plan, editor, planned, -, rfl, -⟩ := transform_output transformed
  exact (plan_reports planned).diagnostics diagnostic

/-- A reference below a selector of an entry, in a file that shares its other style with an earlier file. -/
theorem diagnostics_of_new_declarations_nested_reference :
    let operations : List Operation := [.transform "B.tsx" "<p zx=\x7b\x7bm: '$theme.a b'\x7d\x7d />"]
    let source : Text := "<p zx=\x7b\x7bm: '$theme.a b'\x7d\x7d />;\ncreateStyles(\x7ba: \x7b':hover': \x7bcolor: '$theme.'\x7d\x7d\x7d)"
    let session := run Config.standard none operations
    ∃ output diagnostic, (session.transform Config.standard "A.tsx" source).result = .ok (some output) ∧
      output.diagnostics = [diagnostic] ∧ diagnostic.text =
        "WARNING [A.tsx:2:14]: Malformed theme reference '$theme.'; compiled best-effort" ∧
      ∃ placed, IsNew Config.standard session.registry (placedStyles Config.standard source) placed ∧
        ∃ text, Holds text placed.style ∧ IsMalformed text ∧ diagnostic =
          (malformedReference text).located (some "A.tsx") (some placed.position.line)
            (some placed.position.column) := by
  intro operations source session
  have reports : yields (session.transform Config.standard "A.tsx" source).result (fun output =>
      output.diagnostics.map Diagnostic.text =
        ["WARNING [A.tsx:2:14]: Malformed theme reference '$theme.'; compiled best-effort"]) = true := by
    decide +kernel
  obtain ⟨output, transformed, reported⟩ := eq_ok_of_yields reports
  obtain ⟨diagnostic, single, text⟩ := List.map_eq_singleton_iff.mp (of_decide_eq_true reported)
  have isReported := diagnostics_of_new_declarations Config.standard none operations "A.tsx" source output
    transformed diagnostic
  exact ⟨output, diagnostic, transformed, single, text, isReported.mp (by simp [single])⟩

end StaticStyle.Session
