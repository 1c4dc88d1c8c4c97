import StaticStyle.Proofs.Session.Run

/-!
What a file is compiled to does not depend on what was compiled before. A session only remembers rules of styles that
were declared to it, and where one identity means one canonical text, such a rule spares a compilation whose outcome is
known. What is spared with it are the findings, so these are no part of a rewrite.
-/

namespace StaticStyle.Session

open Style (Rule)

/-- The source that an operation compiles, if it compiles one. -/
def Operation.source? : Operation → Option Text
  | .transform _ source | .change _ source | .breakOff _ source _ => some source
  | _ => none

/-- The sources that operations compile. -/
def sourcesOf (operations : List Operation) : List Text := operations.filterMap Operation.source?

/-- What becomes of a file, apart from what was found on the way. -/
structure Rewrite where
  code : Text
  edits : List Edit
  identities : List Text
deriving DecidableEq, Repr

def Output.rewrite (output : Output) : Rewrite := ⟨output.code, output.edits, output.identities⟩

/-- No rewrite if a file is not handled or declares nothing, or the reason why it is refused. -/
def rewrite (session : Session) (config : Config) (path source : Text) :
    Except Refusal (Option Rewrite) :=
  (session.transform config path source).result.map (Option.map Output.rewrite)

variable {config : Config} {sources : List Text} {session session' : Session}

theorem RulesOf.mono {rules : Fields Rule} {sources' : List Text}
    (rulesOf : RulesOf config sources rules) (further : ∀ source ∈ sources, source ∈ sources') :
    RulesOf config sources' rules := by
  intro entry member
  obtain ⟨style, declared, name, named, compiled⟩ := rulesOf entry member
  obtain ⟨source, found, declared⟩ := List.mem_flatMap.mp declared
  exact ⟨style, List.mem_flatMap.mpr ⟨source, further source found, declared⟩, name, named, compiled⟩

private theorem commitRules_rulesOf (registered : RulesOf config sources session.registry)
    {path source : Text} (member : source ∈ sources) {plan : Plan}
    (planned : Session.plan config session.registry path source = .ok plan) {rules : List (Text × Rule)}
    (among : ∀ entry ∈ rules, entry ∈ plan.rules.sorted) :
    RulesOf config sources (session.commitRules path rules).1.registry := by
  have leads : Leads (Finished config session.registry source) (Explained config source)
      (Session.plan config session.registry path source) := plan_leads path
  rw [planned] at leads
  have finished : Finished config session.registry source plan := leads
  have planRules : RulesOf config sources plan.rules :=
    finished.rules.mono fun other found => List.mem_singleton.mp found ▸ member
  have isRules : ∀ entry ∈ rules, IsRuleOf config sources entry.1 entry.2 :=
    fun entry found => planRules entry ((List.mergeSort_perm _ _).mem_iff.mp (among entry found))
  intro entry found
  refine (mem_commitRules (fun entry found => ?_) found).elim (registered entry) (isRules entry)
  obtain ⟨style, -, name, -, compiled⟩ := isRules entry found
  exact (compile_names compiled).1

theorem transform_rulesOf (registered : RulesOf config sources session.registry)
    (path : Text) {source : Text} (member : source ∈ sources) :
    RulesOf config sources (session.transform config path source).session.registry := by
  unfold transform
  split
  · exact registered
  · exact registered
  · unfold compile
    cases planned : plan config session.registry path source with
    | error stop => exact registered
    | ok plan =>
      dsimp only
      split
      · split <;> exact registered
      · rw [commit_session]
        exact commitRules_rulesOf registered member planned fun entry found => found

private theorem perform_rulesOf (registered : RulesOf config sources session.registry)
    {operation : Operation} (member : ∀ source, operation.source? = some source → source ∈ sources) :
    RulesOf config sources (perform config session operation).registry := by
  cases operation with
  | transform path source => exact transform_rulesOf registered path (member source rfl)
  | change path source => exact transform_rulesOf registered path (member source rfl)
  | remove path =>
    rw [perform, remove]
    split <;> exact registered
  | styleSheet id => exact registered
  | finalize artifacts => exact registered
  | breakOff path source registrations =>
    rw [perform, breakOff]
    split
    · rename_i plan handled planned
      exact commitRules_rulesOf registered (member source rfl) planned
        fun entry found => List.mem_of_mem_take found
    · exact registered

/-- What a run has registered are rules of the sources that it compiled. -/
theorem run_rulesOf (config : Config) (theme : Option Theme.Store) (operations : List Operation)
    (member : ∀ source ∈ sourcesOf operations, source ∈ sources) :
    RulesOf config sources (run config theme operations).registry := by
  have start : RulesOf config sources (empty theme).registry := by simp [RulesOf, empty]
  unfold run
  refine List.foldlRecOn operations (perform config)
    (motive := fun session => RulesOf config sources session.registry) start ?_
  intro session registered operation found
  refine perform_rulesOf registered fun source compiles => member source ?_
  exact List.mem_filterMap.mpr ⟨operation, found, compiles⟩

private theorem finalEditor_eq {plan plan' : Plan} (editor : plan.editor = plan'.editor) :
    finalEditor config plan = finalEditor config plan' := by
  simp only [finalEditor, editor]

/-- Sessions that have registered rules of the same sources rewrite each of these alike. -/
private theorem rewrite_eq_of_rulesOf (noClash : NoClash config sources)
    (registered : RulesOf config sources session.registry)
    (registered' : RulesOf config sources session'.registry) (path : Text) {source : Text}
    (member : source ∈ sources) :
    session.rewrite config path source = session'.rewrite config path source := by
  unfold rewrite transform
  split
  · rfl
  · rfl
  · have agree := plan_agree noClash registered registered' path path member
    unfold compile
    cases planned : plan config session.registry path source with
    | error stop =>
      cases planned' : plan config session'.registry path source with
      | error stop' =>
        rw [planned, planned'] at agree
        have sameCause : stop.cause = stop'.cause := agree
        simp only [Except.map, sameCause]
      | ok plan' =>
        rw [planned, planned'] at agree
        exact agree.elim
    | ok plan =>
      cases planned' : Session.plan config session'.registry path source with
      | error stop' =>
        rw [planned, planned'] at agree
        exact agree.elim
      | ok plan' =>
        rw [planned, planned'] at agree
        have alike : Alike config sources session.registry session'.registry plan plan' := agree
        simp only [alike.declarations]
        split
        · rfl
        · simp only [commit, finalEditor_eq alike.editor, alike.identities]
          cases finalEditor config plan' with
          | error defect => rfl
          | ok editor => rfl

/-- The rewrite of a file does not depend on what was compiled before. Behind any two runs with one configuration, a
file is refused for the same cause, or it has no output, or it has the same code, the same edits and the same
identities, as long as no two styles that are declared in the file or in a source of one of the runs share an identity
without sharing their canonical text. -/
theorem rewrite_independent_of_run (config : Config) (theme theme' : Option Theme.Store)
    (operations operations' : List Operation) (path source : Text)
    (noClash : NoClash config (source :: sourcesOf operations ++ sourcesOf operations')) :
    (run config theme operations).rewrite config path source =
      (run config theme' operations').rewrite config path source := by
  refine rewrite_eq_of_rulesOf noClash (run_rulesOf config theme operations ?_)
    (run_rulesOf config theme' operations' ?_) path List.mem_cons_self
  · exact fun other found => List.mem_cons_of_mem _ (List.mem_append_left _ found)
  · exact fun other found => List.mem_cons_of_mem _ (List.mem_append_right _ found)

/-- One session has compiled one of the two styles of a file in a file that is deleted, and it was broken off while it
compiled the other one. The other session knows neither of them. -/
theorem rewrite_independent_of_run_known_styles :
    let operations : List Operation :=
      [.change "B.tsx" "<b zx=\x7b\x7bm: '$theme.a b'\x7d\x7d />", .remove "B.tsx",
        .breakOff "C.tsx" "createStyles({c: {m: 3}, d: {m: 4}})" 1, .finalize []]
    let source : Text := "<p zx=\x7b\x7bm: '$theme.a b'\x7d\x7d />; createStyles(\x7ba: \x7bm: 3\x7d\x7d)"
    NoClash Config.standard (source :: sourcesOf operations ++ sourcesOf []) ∧
      (run Config.standard none operations).rewrite Config.standard "A.tsx" source =
        (run Config.standard none []).rewrite Config.standard "A.tsx" source := by
  intro operations source
  have texts : ∀ style ∈ (source :: sourcesOf operations ++ sourcesOf []).flatMap
      (declaredStyles Config.standard),
      ∀ style' ∈ (source :: sourcesOf operations ++ sourcesOf []).flatMap
        (declaredStyles Config.standard),
        (Plan.nameStyle Config.standard (.object style)).toOption.map Prod.fst =
          (Plan.nameStyle Config.standard (.object style')).toOption.map Prod.fst →
            Json.canonical (.object style) = Json.canonical (.object style') := by
    decide +kernel
  have noClash : NoClash Config.standard (source :: sourcesOf operations ++ sourcesOf []) := by
    intro style member style' member' identity name name' named named'
    exact texts style member style' member' (by rw [named, named']; rfl)
  exact ⟨noClash, rewrite_independent_of_run Config.standard none none operations [] "A.tsx" source noClash⟩

end StaticStyle.Session
