import StaticStyle.Session.Basic

/-!
A refused file leaves no trace. Planning works on a copy of nothing that the session shares, so only
the steps behind it could break off in the middle; of these, none but the naming of the style sheet
can fail at all.
-/

namespace StaticStyle

private theorem Edit.overlaps_front (text : Text) (earlier : Edit) :
    (⟨0, 0, text⟩ : Edit).overlaps earlier = false := by
  simp [Edit.overlaps, Edit.isInsertion]

theorem Editor.prepend_eq (editor : Editor) (text : Text) :
    editor.prepend text =
      .ok { editor with recorded := editor.recorded ++ [⟨0, 0, text⟩] } := by
  have free : editor.recorded.find? (⟨0, 0, text⟩ : Edit).overlaps = none := by
    simp [List.find?_eq_none, Edit.overlaps_front]
  simp [Editor.prepend, Editor.insert, Editor.overwrite, Editor.record, free]

namespace Session

/-- The style sheet can be named in a file, if files have to name it. A text always can. -/
def CanNameSheet (config : Config) : Prop :=
  config.injectsImport = true → config.assetId.isWritable = true

instance (config : Config) : Decidable (CanNameSheet config) :=
  inferInstanceAs (Decidable (_ → _))

theorem finalEditor_ok {config : Config} (named : CanNameSheet config) (plan : Plan) :
    ∃ editor, finalEditor config plan = .ok editor := by
  unfold finalEditor
  split
  · rename_i wanted
    simp [Value.shown, named wanted, Except.map]
  · exact ⟨plan.editor, rfl⟩

/-- The edits of a file are those of its plan, with the line for the style sheet behind them if it is wanted. -/
theorem finalEditor_cases {config : Config} {plan : Plan} {editor : Editor}
    (final : finalEditor config plan = .ok editor) :
    (config.injectsImport = false ∧ editor = plan.editor) ∨
      (config.injectsImport = true ∧ ∃ id, config.assetId.shown = .ok id ∧
        editor = { plan.editor with recorded := plan.editor.recorded ++ [⟨0, 0, importLine id⟩] }) := by
  unfold finalEditor at final
  split at final
  · rename_i wanted
    cases shown : config.assetId.shown with
    | error defect => simp [shown, Except.map] at final
    | ok id =>
      simp only [shown, Except.map, Editor.prepend_eq, Except.ok.injEq] at final
      exact .inr ⟨wanted, id, rfl, final.symm⟩
  · rename_i unwanted
    simp only [Except.ok.injEq] at final
    exact .inl ⟨by simpa using unwanted, final.symm⟩

/-- Carrying out a plan comes to its end, with the text that its editor renders. -/
theorem commit_completes {config : Config} (named : CanNameSheet config) (session : Session)
    (path : Text) (plan : Plan) :
    ∃ editor, finalEditor config plan = .ok editor ∧
      (session.commit config path plan).result =
        .ok ⟨editor.render, editor.edits, Text.distinct plan.identities, plan.diagnostics⟩ := by
  obtain ⟨editor, final⟩ := finalEditor_ok named plan
  exact ⟨editor, final, by simp [commit, final]⟩

private theorem compile_refused {config : Config} (named : CanNameSheet config)
    {session : Session} {path source : Text} {refusal : Refusal}
    (refused : (session.compile config path source).result = .error refusal) :
    (session.compile config path source).session = session ∧
      (session.compile config path source).events = [] := by
  unfold compile at refused ⊢
  cases planned : Session.plan config session.registry path source with
  | error stop => simp
  | ok plan =>
    simp only [planned] at refused
    split at refused
    · simp at refused
    · obtain ⟨editor, -, completed⟩ := commit_completes named session path plan
      simp [completed, Except.map] at refused

theorem transform_refused {config : Config} (named : CanNameSheet config)
    {session : Session} {path source : Text} {refusal : Refusal}
    (refused : (session.transform config path source).result = .error refusal) :
    (session.transform config path source).session = session ∧
      (session.transform config path source).events = [] := by
  unfold transform at refused ⊢
  split
  · exact ⟨rfl, rfl⟩
  · exact ⟨rfl, rfl⟩
  · rename_i handled
    simp only [handled] at refused
    exact compile_refused named refused

private theorem change_refused {config : Config} (named : CanNameSheet config)
    {session : Session} {path source : Text} {refusal : Refusal}
    (refused : (session.change config path source).result = .error refusal) :
    (session.change config path source).session = session ∧
      (session.change config path source).events = [] := by
  cases transformed : (session.transform config path source).result with
  | error cause => exact transform_refused named transformed
  | ok output => simp [change, transformed, Except.map] at refused

/-- A file that is refused, when it is compiled or when it has changed, leaves the registry, the usage
and the events as they were. Behind planning nothing fails: a plan is carried out to the end, and
no edit is in the way of the line that names the style sheet. -/
theorem refusal_changes_nothing (session : Session) (config : Config) (path source : Text)
    (named : CanNameSheet config) :
    (∀ refusal, (session.transform config path source).result = .error refusal →
      (session.transform config path source).session = session ∧
        (session.transform config path source).events = []) ∧
    (∀ refusal, (session.change config path source).result = .error refusal →
      (session.change config path source).session = session ∧
        (session.change config path source).events = []) ∧
    (∀ plan : Plan, ∃ editor, finalEditor config plan = .ok editor ∧
      (session.commit config path plan).result =
        .ok ⟨editor.render, editor.edits, Text.distinct plan.identities, plan.diagnostics⟩) ∧
    ∀ (plan : Plan) (line : Text), plan.editor.prepend line =
      .ok { plan.editor with recorded := plan.editor.recorded ++ [⟨0, 0, line⟩] } :=
  ⟨fun _ => transform_refused named, fun _ => change_refused named,
    commit_completes named session path, fun plan => plan.editor.prepend_eq⟩

/-- In a file that was compiled before, the call behind a planned element is refused. -/
theorem refusal_changes_nothing_planned_element :
    let session := ((Session.empty none).transform Config.standard "A.tsx" "<p zx={{m: 1}} />").session
    let step := session.transform Config.standard "A.tsx" "<p zx={{m: 2}} />; createStyles({a: 1})"
    CanNameSheet Config.standard ∧ (∃ refusal, step.result = .error refusal) ∧
      step.session = session ∧ step.events = [] ∧ session.registry ≠ [] := by
  intro session step
  have named : CanNameSheet Config.standard := by decide
  have isRefused : step.result.toBool = false := by decide +kernel
  obtain ⟨refusal, refused⟩ : ∃ refusal, step.result = .error refusal := by
    cases found : step.result with
    | error refusal => exact ⟨refusal, rfl⟩
    | ok output => simp [found, Except.toBool] at isRefused
  have kept := (refusal_changes_nothing session Config.standard "A.tsx"
    "<p zx={{m: 2}} />; createStyles({a: 1})" named).1 refusal refused
  exact ⟨named, ⟨refusal, refused⟩, kept.1, kept.2, by decide +kernel⟩

/-- The standard configuration with a number for the name of the style sheet, too long to be written. -/
def unnamedSheet : Config := { Config.standard with assetId := .int Numeral.bound }

/-- Without a name that can be written, a file is refused behind its registration. -/
theorem refusal_may_come_late :
    ¬ ∀ (session : Session) (config : Config) (path source : Text) (refusal : Refusal),
      (session.transform config path source).result = .error refusal →
        (session.transform config path source).session.registry = session.registry := by
  intro unchanged
  let step := (Session.empty none).transform unnamedSheet "A.tsx" "<p zx={{m: 0}} />"
  have isRefused : step.result.toBool = false := by decide +kernel
  cases found : step.result with
  | ok output => simp [found, Except.toBool] at isRefused
  | error refusal =>
    have same := unchanged _ unnamedSheet "A.tsx" "<p zx={{m: 0}} />" refusal found
    have isRegistered : step.session.registry ≠ [] := by decide +kernel
    exact isRegistered same

end Session

end StaticStyle
