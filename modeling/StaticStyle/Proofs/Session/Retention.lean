import StaticStyle.Proofs.Bundle
import StaticStyle.Proofs.Json.Quoted
import StaticStyle.Proofs.Session.Atomicity
import StaticStyle.Proofs.Session.Run

/-!
The rule of a class that a file was compiled to is in every bundle with the compiled file. Whichever way the class
is written, the search for it finds it, with one exception: the members that replace a call are written in
JSON, and a class with something in it that JSON escapes does not stand there as it is.
-/

namespace StaticStyle.Session

open Style

/-- The beginning of classes is written the same in JSON as in a style sheet. -/
def HasPlainStem (config : Config) : Prop :=
  ∀ stem, config.classStem.shown = .ok stem → Json.isPlain stem = true

theorem isPlain_className {style : Value} {digits stem : Text} (digested : digest style = .ok digits)
    (plain : Json.isPlain stem = true) (length : Int) :
    Json.isPlain (className stem (digits.leading length)) = true :=
  all_className digested (by decide) (by decide) plain length

section Steps

variable {config : Config} {session : Session} {path source : Text}

theorem recorded_finalEditor {plan : Plan} {editor : Editor}
    (final : finalEditor config plan = .ok editor) {edit : Edit}
    (member : edit ∈ plan.editor.recorded) : edit ∈ editor.recorded := by
  rcases finalEditor_cases final with ⟨-, rfl⟩ | ⟨-, id, -, rfl⟩
  · exact member
  · exact List.mem_append_left _ member

private theorem transform_writes {output : Output}
    (transformed : (session.transform config path source).result = .ok (some output))
    {identity : Text} (member : identity ∈ output.identities) :
    WrittenIn config source output.code identity ∧
      Fields.contains identity (session.transform config path source).session.registry = true := by
  obtain ⟨plan, editor, planned, final, rfl, same⟩ := transform_output transformed
  have finished : Finished config session.registry source plan := by
    have leads : Leads (Finished config session.registry source) (Explained config source)
        (Session.plan config session.registry path source) := plan_leads path
    rw [planned] at leads
    exact leads
  rw [Text.mem_distinct] at member
  constructor
  · rcases finished.written identity member with never | ⟨edit, recorded, written⟩
    · exact never.elim
    · exact written.mono (Editor.infix_render (recorded_finalEditor final recorded))
  · rw [same]
    exact commit_registers finished member

private theorem WrittenIn.class_stands {text identity : Text} {rule : Rule}
    (written : WrittenIn config source text identity) (isCompiled : IsCompiled config identity rule)
    (plain : HasPlainStem config ∨ ¬ DeclaredByCall config source identity) :
    rule.className <:+: text := by
  obtain ⟨style, -, -, name, named, compiled⟩ := isCompiled
  obtain ⟨digits, length, stem, digested, -, shown, rfl, rfl⟩ := nameStyle_ok named
  rw [(compile_names compiled).2]
  obtain ⟨stem', shown', inside | ⟨byCall, inside⟩⟩ := written
  · rw [shown, Except.ok.injEq] at shown'
    rw [shown']
    exact inside
  · rw [shown, Except.ok.injEq] at shown'
    subst shown'
    rcases plain with plainStem | never
    · rw [Json.quoteAscii_of_isPlain (isPlain_className digested (plainStem stem shown) length)]
        at inside
      have quoted (name : Text) : name <:+: .char '"' :: name ++ [.char '"'] :=
        ⟨[.char '"'], [.char '"'], rfl⟩
      exact (quoted _).trans inside
    · exact absurd byCall never

end Steps

/-- A bundle with a compiled file keeps the classes of the file. In every run and for every output of it, the
style sheet of artifacts with the code of the output among them is made of the theme and of the rules that
are kept, each once and in ascending order of identities; and the rule of an identity of the output is among
these, if the class is not declared by a call or JSON has no escapes for it. -/
theorem finalize_keeps_classes (config : Config) (theme : Option Theme.Store)
    (before after : List Operation) (path source : Text) (artifacts : List Text) (output : Output)
    (transformed : ((run config theme before).transform config path source).result = .ok (some output))
    (bundled : ∃ artifact ∈ artifacts, output.code <:+: artifact) :
    let session := run config theme (before ++ .transform path source :: after)
    let retained := (Bundle.partition session.registry artifacts).1
    (session.finalize artifacts).result =
        session.themeCss ++ retained.flatMap (fun entry => entry.2.css ++ [.char '\n']) ∧
      retained.Pairwise (fun a b => Text.le a.1 b.1 = true ∧ a.1 ≠ b.1) ∧
      ∀ identity ∈ output.identities,
        HasPlainStem config ∨ ¬ DeclaredByCall config source identity →
          ∃ rule, Fields.get? identity session.registry = some rule ∧ (identity, rule) ∈ retained := by
  intro session retained
  have backed : Backed config session := run_backed config theme _
  refine ⟨?_, Bundle.retained_ascending backed.keys, fun identity member plain => ?_⟩
  · rw [← Bundle.renderRules_retained]
    rfl
  · obtain ⟨written, registered⟩ := transform_writes transformed member
    have grows : ((run config theme before).transform config path source).session.registry <+:
        session.registry := by
      have onward := @prefix_foldl config
        ((run config theme before).transform config path source).session after
      simpa only [session, run, List.foldl_append, List.foldl_cons, perform] using onward
    obtain ⟨rule, found⟩ := Fields.contains_iff.mp (Fields.contains_mono grows registered)
    have entry := Fields.mem_of_get? found
    obtain ⟨artifact, isArtifact, inside⟩ := bundled
    have named := (written.class_stands (backed.rules _ entry) plain).trans inside
    exact ⟨rule, found, Bundle.mem_retained.mpr ⟨entry, artifact, isArtifact, named⟩⟩

/-- A style that an element and a call declare, in a file that is forgotten before the bundle is made. -/
theorem finalize_keeps_classes_forgotten_file :
    let source : Text := "<p className='a' zx={{m: 1}} />; createStyles({a: {m: 1}})"
    let session := run Config.standard none [.transform "A.tsx" source, .remove "A.tsx"]
    ∃ output, ((run Config.standard none []).transform Config.standard "A.tsx" source).result =
        .ok (some output) ∧ output.identities ≠ [] ∧
      ∀ identity ∈ output.identities, ∃ rule, Fields.get? identity session.registry = some rule ∧
        (identity, rule) ∈ (Bundle.partition session.registry [output.code]).1 := by
  intro source session
  have declares : yields ((run Config.standard none []).transform Config.standard "A.tsx" source).result
      (fun output => !output.identities.isEmpty) = true := by
    decide +kernel
  obtain ⟨output, transformed, declared⟩ := eq_ok_of_yields declares
  have plain : HasPlainStem Config.standard := by
    rintro stem ⟨⟩
    rfl
  have kept := finalize_keeps_classes Config.standard none [] [.remove "A.tsx"] "A.tsx" source
    [output.code] output transformed ⟨output.code, by simp, List.infix_rfl⟩
  refine ⟨output, transformed, by simpa using declared, fun identity member => ?_⟩
  exact kept.2.2 identity member (.inl plain)

/-- The standard configuration with classes that do not begin with ASCII, and without a line that loads the
style sheet. -/
def accentedStem : Config :=
  { Config.standard with
    classStem := .text "é"
    classStem_truthy := by decide
    injectsImport := false }

/-- The class that a call declares is escaped in its member, where it is not found. -/
example :
    let step := (Session.empty none).transform accentedStem "A.tsx" "createStyles({a: {m: 1}})"
    ∃ output, step.result = .ok (some output) ∧ output.identities ≠ [] ∧
      (step.session.finalize [output.code]).result = [] := by
  intro step
  have misses : yields step.result (fun output =>
      !output.identities.isEmpty && (step.session.finalize [output.code]).result.isEmpty) = true := by
    decide +kernel
  obtain ⟨output, transformed, missed⟩ := eq_ok_of_yields misses
  rw [Bool.and_eq_true] at missed
  exact ⟨output, transformed, by simpa using missed.1, by simpa using missed.2⟩

end StaticStyle.Session
