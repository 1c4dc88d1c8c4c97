import StaticStyle.Proofs.Session.Locality
import StaticStyle.Proofs.Session.Refusal

/-!
What the compilation of a file touches, and what it blames. Outside of its declarations the text of a file is kept, but
for the line that loads the style sheet, and a file that is refused is refused for one of its declarations.
-/

namespace StaticStyle.Session

section Import

variable (config : Config) (registry : Registry) (path source : Text) (injectsImport : Bool)

private theorem addEntries_injectsImport (callee : Text) (position : Position) (plan : Plan) (entries : Fields Value) :
    Plan.addEntries { config with injectsImport } callee registry path position plan entries =
      Plan.addEntries config callee registry path position plan entries := by
  induction entries generalizing plan with
  | nil => rfl
  | cons entry entries ih =>
    obtain ⟨key, value⟩ := entry
    cases value with
    | object style =>
      simp only [Plan.addEntries, ih]
      rfl
    | _ => rfl

/-- The line for the style sheet plays no part in planning. -/
theorem plan_injectsImport :
    Session.plan { config with injectsImport } registry path source = Session.plan config registry path source := by
  have call : Plan.addCall { config with injectsImport } = Plan.addCall config := by
    funext callee registry path source plan call
    simp only [Plan.addCall, addEntries_injectsImport]
  simp only [Session.plan, call]
  rfl

end Import

variable {session : Session} {config : Config} {path source : Text}

/-- Without the line for the style sheet, the output of a file is what the editor of its plan renders. -/
theorem transform_without_import {output : Output} {plan : Plan}
    (transformed : (session.transform config path source).result = .ok (some output))
    (planned : Session.plan config session.registry path source = .ok plan) :
    (session.transform { config with injectsImport := false } path source).result =
      .ok (some ⟨plan.editor.render, plan.editor.edits, Text.distinct plan.identities, plan.diagnostics⟩) := by
  have handled : ({ config with injectsImport := false } : Config).handles path = config.handles path := rfl
  unfold transform at transformed ⊢
  rw [handled]
  cases handles : config.handles path with
  | error defect => simp [handles] at transformed
  | ok isHandled =>
    cases isHandled with
    | false => simp [handles] at transformed
    | true =>
      simp only [handles, compile, planned, plan_injectsImport] at transformed ⊢
      split at transformed
      · simp at transformed
      · rename_i declares
        rw [if_neg declares]
        rfl

/-- Of a file with an output, the ranges of some edits are replaced, which stand one behind the other in the source: each
lies within an attribute of an element that has the style attribute, or it is the span of a call. Nothing else is done
to the file, except that the line that loads the style sheet is inserted in front of everything, if it is wanted. -/
theorem output_replaces_declarations (session : Session) (config : Config) (path source : Text) (output : Output)
    (transformed : (session.transform config path source).result = .ok (some output)) :
    ∃ edits code,
      (∀ edit ∈ edits, edit.start ≤ edit.stop ∧ edit.stop ≤ source.length ∧ EditsDeclaration config source edit) ∧
      edits.Pairwise (fun a b => a.stop ≤ b.start) ∧ Replaces 0 source edits code ∧
      (session.transform { config with injectsImport := false } path source).result =
        .ok (some { output with code, edits }) ∧
      (config.injectsImport = false → output.edits = edits ∧ output.code = code) ∧
      (config.injectsImport = true → ∃ id, config.assetId.shown = .ok id ∧
        output.edits = ⟨0, 0, importLine id⟩ :: edits ∧ output.code = importLine id ++ code) := by
  obtain ⟨plan, editor, planned, final, same, -⟩ := transform_output transformed
  have confined := plan_confined planned
  have member {edit : Edit} : edit ∈ plan.editor.edits ↔ edit ∈ plan.editor.recorded :=
    (List.mergeSort_perm _ _).mem_iff
  obtain ⟨ascending, replaces⟩ := Editor.render_replaces confined.apart (confined.sameSource.symm ▸ confined.inside)
  rw [confined.sameSource] at replaces
  refine ⟨plan.editor.edits, plan.editor.render, fun edit found => ?_, ascending, replaces, ?_, ?_, ?_⟩
  · have recorded := member.mp found
    exact ⟨(confined.inside edit recorded).1, (confined.inside edit recorded).2, confined.declared edit recorded⟩
  · rw [transform_without_import transformed planned, same]
  · intro unwanted
    rcases finalEditor_cases final with ⟨-, rfl⟩ | ⟨wanted, -⟩
    · simp only [same, and_self]
    · simp [unwanted] at wanted
  · intro wanted
    rcases finalEditor_cases final with ⟨unwanted, -⟩ | ⟨-, id, shown, rfl⟩
    · simp [wanted] at unwanted
    · have front : ∀ edit ∈ plan.editor.recorded, Edit.le edit ⟨0, 0, importLine id⟩ = false := by
        intro edit recorded
        have behind := confined.behind edit recorded
        simp only [Edit.le, Bool.or_eq_false_iff, decide_eq_false_iff_not, Bool.and_eq_false_iff]
        omega
      have sorted : Editor.edits { plan.editor with recorded := plan.editor.recorded ++ [⟨0, 0, importLine id⟩] } =
          ⟨0, 0, importLine id⟩ :: plan.editor.edits := Edit.sort_concat_of_first front
      refine ⟨id, shown, ?_, ?_⟩
      · rw [same, sorted]
      · rw [same, Editor.render, sorted]
        rfl

/-- An element with a class attribute, and a call behind it. -/
theorem output_replaces_declarations_card_and_sheet :
    let source : Text := "<A className=\"a\" zx=\x7b\x7bm: 1\x7d\x7d />; createStyles(\x7ba: \x7bm: 1\x7d\x7d)"
    ∃ output, ((empty none).transform Config.standard "A.tsx" source).result = .ok (some output) ∧
      output.identities = [Text.ofString "8f79c69e"] ∧
      ∃ edits code, edits.Pairwise (fun a b => a.stop ≤ b.start) ∧ Replaces 0 source edits code ∧
        (∀ edit ∈ edits, EditsDeclaration Config.standard source edit) ∧
        output.code = "import 'virtual:style-zx.css';\n" ++ code := by
  intro source
  have yielded : yields ((empty none).transform Config.standard "A.tsx" source).result (fun output =>
      output.identities = [Text.ofString "8f79c69e"]) = true := by
    decide +kernel
  obtain ⟨output, transformed, identities⟩ := eq_ok_of_yields yielded
  obtain ⟨edits, code, declared, ascending, replaces, -, -, imported⟩ :=
    output_replaces_declarations (empty none) Config.standard "A.tsx" source output transformed
  obtain ⟨id, shown, -, written⟩ := imported rfl
  obtain rfl := Except.ok.inj shown
  exact ⟨output, transformed, of_decide_eq_true identities, edits, code, ascending, replaces,
    fun edit member => (declared edit member).2.2, written⟩

/-- A file is refused for a defect, or planning has stopped at one of its declarations. -/
theorem transform_stops {refusal : Refusal}
    (refused : (session.transform config path source).result = .error refusal) :
    (∃ defect, refusal.cause = .defect defect) ∨ ∃ findings,
      Session.plan config session.registry path source = .error ⟨refusal.cause, findings⟩ := by
  unfold transform at refused
  split at refused
  · obtain rfl := Except.error.inj refused
    exact .inl ⟨_, rfl⟩
  · cases refused
  · unfold compile at refused
    cases planned : Session.plan config session.registry path source with
    | error stop =>
      simp only [planned] at refused
      obtain rfl := Except.error.inj refused
      exact .inr ⟨stop.findings, rfl⟩
    | ok plan =>
      simp only [planned] at refused
      split at refused
      · cases refused
      · cases final : finalEditor config plan with
        | error defect =>
          simp only [commit, final] at refused
          obtain rfl := Except.error.inj refused
          exact .inl ⟨defect, rfl⟩
        | ok editor => simp [commit, final, Except.map] at refused

/-- A file that is refused for something else than a defect is refused for one of its declarations, when everything in
front of that has been planned. The position of the refusal is that of an offset in the declaration, except for two kinds
of causes that have none: edits in each other's way, and an entry of a call that is no object. -/
theorem refusal_tells_declaration (session : Session) (config : Config) (path source : Text) (refusal : Refusal)
    (refused : (session.transform config path source).result = .error refusal)
    (noDefect : ∀ defect, refusal.cause ≠ .defect defect) :
    ∃ findings start stop, StopsAt config session.registry path source ⟨refusal.cause, findings⟩ start stop ∧
      ((∃ offset, start ≤ offset ∧ offset < stop ∧ refusal.position? = some (Position.ofOffset source offset)) ∨
        (refusal.position? = none ∧ ((∃ fault, refusal.cause = .overlappingEdit fault) ∨
          ∃ key callee, refusal.cause = .invalidStyle ⟨key, .entryNeedsObject callee⟩ none))) := by
  rcases transform_stops refused with ⟨defect, same⟩ | ⟨findings, stopped⟩
  · exact absurd same (noDefect defect)
  · rcases plan_stops stopped with ⟨defect, same⟩ | ⟨start, stop, stopsAt, tells⟩
    · exact absurd same (noDefect defect)
    · refine ⟨findings, start, stop, stopsAt, ?_⟩
      cases tells with
      | placed starts stops told => exact .inl ⟨_, starts, stops, told⟩
      | defect same => exact absurd same (noDefect _)
      | conflict same => exact .inr ⟨congrArg Cause.position? same, .inl ⟨_, same⟩⟩
      | entry same => exact .inr ⟨congrArg Cause.position? same, .inr ⟨_, _, same⟩⟩

/-- A name among the values of a call, behind an element that is planned, is found where it stands. -/
theorem refusal_tells_declaration_name :
    let source : Text := "<p zx=\x7b\x7bm: 1\x7d\x7d />;\ncreateStyles(\x7ba: \x7bm: size\x7d\x7d)"
    let refusal : Refusal := ⟨"A.tsx", .rejected (.expression "Identifier" ⟨2, 22⟩)⟩
    ((empty none).transform Config.standard "A.tsx" source).result = .error refusal ∧
      (∀ defect, refusal.cause ≠ .defect defect) ∧
      ∃ findings start stop, StopsAt Config.standard [] "A.tsx" source ⟨refusal.cause, findings⟩ start stop ∧
        ∃ offset, start ≤ offset ∧ offset < stop ∧ Position.ofOffset source offset = ⟨2, 22⟩ := by
  intro source refusal
  have refused : ((empty none).transform Config.standard "A.tsx" source).result = .error refusal := by
    have found : isRefusedWith refusal ((empty none).transform Config.standard "A.tsx" source).result = true := by
      decide +kernel
    exact eq_error_of_isRefusedWith found
  have noDefect : ∀ defect, refusal.cause ≠ .defect defect := by simp [refusal]
  obtain ⟨findings, start, stop, stopsAt, placed | ⟨unplaced, -⟩⟩ :=
    refusal_tells_declaration (empty none) Config.standard "A.tsx" source refusal refused noDefect
  · obtain ⟨offset, starts, stops, told⟩ := placed
    exact ⟨refused, noDefect, findings, start, stop, stopsAt, offset, starts, stops, (Option.some.inj told).symm⟩
  · cases unplaced

end StaticStyle.Session
