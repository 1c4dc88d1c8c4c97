import StaticStyle.Proofs.Session.Declaration
import StaticStyle.Proofs.Session.Run
import StaticStyle.Proofs.Usage

namespace StaticStyle.Session

open Style (Rule)

/-- The identities that a source declares, in the order of the declarations. -/
def declaredIdentities (config : Config) (source : Text) : List Text :=
  (declaredStyles config source).filterMap (identityOf? config)

/-- Registers rules for a file and then replaces its identities, and tells what has changed. -/
def record (session : Session) (path : Text) (rules : List (Text × Rule)) (identities : List Text) :
    Session × List Event :=
  let registered := session.commitRules path rules
  let changed := registered.1.commitUsage path identities
  (changed.1, registered.2 ++ changed.2)

/-- Compiling a source records the identities that it declares, with rules for those that were not registered. -/
structure Records (config : Config) (session : Session) (path source : Text) (rules : List (Text × Rule)) :
    Prop where
  handled : config.handles path = .ok true
  named : ∀ entry ∈ rules, entry.2.identity = entry.1
  missing : ∀ entry ∈ rules, entry.1 ∈ declaredIdentities config source ∧
    Fields.contains entry.1 session.registry = false
  registered : ∀ identity ∈ declaredIdentities config source,
    Fields.contains identity (session.commitRules path rules).1.registry = true
  tracked : Fields.contains path session.usage = true ∨ declaredIdentities config source ≠ []

section Steps

variable {config : Config} {session : Session} {path source : Text}

theorem commit_eq_record (config : Config) (session : Session) (path : Text) (plan : Plan) :
    ((session.commit config path plan).session, (session.commit config path plan).events) =
      session.record path plan.rules.sorted plan.identities := by
  cases final : finalEditor config plan <;> simp only [commit, record, final]

theorem Sound.named {registry : Registry} {pending : Text → Prop} {plan : Plan}
    (sound : Sound config registry source pending plan) {entry : Text × Rule} (member : entry ∈ plan.rules.sorted) :
    entry.2.identity = entry.1 := by
  obtain ⟨style, -, name, -, compiled⟩ := sound.rules entry ((List.mergeSort_perm _ _).mem_iff.mp member)
  exact (compile_names compiled).1

private theorem records_plan (handled : config.handles path = .ok true) {plan : Plan}
    (planned : Session.plan config session.registry path source = .ok plan)
    (some : declaredIdentities config source ≠ []) :
    Records config session path source plan.rules.sorted := by
  have finished := plan_finished planned
  have declares := plan_declares planned
  have identities : plan.identities = declaredIdentities config source := declares.identities
  refine ⟨handled, fun entry member => finished.named member, fun entry member => ?_, fun identity member => ?_,
    .inr some⟩
  · rw [← identities]
    have member : entry ∈ plan.rules := (List.mergeSort_perm _ _).mem_iff.mp member
    exact declares.rules _ (Fields.contains_of_mem member)
  · have registered : Fields.contains identity (session.commit config path plan).session.registry = true :=
      commit_registers finished (identities ▸ member)
    rwa [commit_session] at registered

/-- Compiling a file changes nothing and tells nothing, or it records what the source declares. If it comes to its end
without a change, the file is not handled, or it was not tracked and its source declares nothing. -/
theorem transform_cases (config : Config) (session : Session) (path source : Text) :
    ((session.transform config path source).session = session ∧
      (session.transform config path source).events = [] ∧
      (config.handles path = .ok true → (session.transform config path source).result.toBool = true →
        Fields.contains path session.usage = false ∧ declaredIdentities config source = [])) ∨
    ∃ rules, Records config session path source rules ∧
      ((session.transform config path source).session, (session.transform config path source).events) =
        session.record path rules (declaredIdentities config source) := by
  unfold transform
  split
  · rename_i defect handles
    exact .inl ⟨rfl, rfl, fun handled => by simp [handles] at handled⟩
  · rename_i handles
    exact .inl ⟨rfl, rfl, fun handled => by simp [handles] at handled⟩
  · rename_i handled
    unfold compile
    cases planned : plan config session.registry path source with
    | error stop => exact .inl ⟨rfl, rfl, fun _ => nofun⟩
    | ok plan =>
      have declares := plan_declares planned
      have identities : plan.identities = declaredIdentities config source := declares.identities
      have counted : plan.declarations = 0 ↔ declaredIdentities config source = [] := by
        rw [declares.counted, identities, List.length_eq_zero_iff]
      dsimp only
      by_cases empty : plan.declarations = 0
      · have none := counted.mp empty
        simp only [empty, ↓reduceIte]
        by_cases tracked : Fields.contains path session.usage = true
        · refine .inr ⟨[], ⟨handled, by simp, by simp, by simp [none], .inl tracked⟩, ?_⟩
          simp [tracked, none, record, commitRules]
        · rw [Bool.not_eq_true] at tracked
          exact .inl ⟨by simp [tracked], by simp [tracked], fun _ _ => ⟨tracked, none⟩⟩
      · simp only [empty, ↓reduceIte]
        refine .inr ⟨plan.rules.sorted, records_plan handled planned (mt counted.mpr empty), ?_⟩
        rw [← identities]
        exact commit_eq_record config session path plan

theorem record_registry (session : Session) (path : Text) (rules : List (Text × Rule)) (identities : List Text) :
    (session.record path rules identities).1.registry = (session.commitRules path rules).1.registry := rfl

theorem record_usage (session : Session) (path : Text) (rules : List (Text × Rule)) (identities : List Text) :
    (session.record path rules identities).1.usage = session.usage.recompute path identities := by
  simp only [record, commitUsage, commitRules_usage]

/-- Nothing changes and nothing is told when all that is declared is registered and recorded already. -/
theorem Records.record_eq_self {rules : List (Text × Rule)} (records : Records config session path source rules)
    (known : ∀ identity ∈ declaredIdentities config source, Fields.contains identity session.registry = true)
    (same : Text.distinct (declaredIdentities config source) = session.usage.identitiesOf path) :
    session.record path rules (declaredIdentities config source) = (session, []) := by
  have nothing : rules = [] := by
    refine List.eq_nil_iff_forall_not_mem.mpr fun entry member => ?_
    obtain ⟨declared, missing⟩ := records.missing entry member
    rw [known _ declared] at missing
    simp at missing
  rw [nothing, record]
  simp only [commitRules, commitUsage, Usage.recompute_eq_self records.tracked same, ↓reduceIte, List.append_nil]

theorem breakOff_usage (registrations : Nat) :
    (session.breakOff config path source registrations).usage = session.usage := by
  unfold breakOff
  split
  · exact commitRules_usage
  · rfl

/-- Compiling a file leaves the record of usage as it is, or it replaces the identities of this file. -/
theorem transform_usage (config : Config) (session : Session) (path source : Text) :
    (session.transform config path source).session.usage = session.usage ∨
      (session.transform config path source).session.usage =
        session.usage.recompute path (declaredIdentities config source) := by
  rcases transform_cases config session path source with ⟨same, -⟩ | ⟨rules, -, recorded⟩
  · exact .inl (congrArg Session.usage same)
  · exact .inr ((congrArg (·.1.usage) recorded).trans (record_usage _ _ _ _))

private theorem tidy_transform (tidy : session.usage.Tidy) (path source : Text) :
    (session.transform config path source).session.usage.Tidy := by
  rcases transform_usage config session path source with same | replaced
  · rw [same]
    exact tidy
  · rw [replaced]
    exact tidy.recompute path _

/-- Every operation keeps the record of usage tidy. -/
theorem tidy_perform (tidy : session.usage.Tidy) (operation : Operation) :
    (perform config session operation).usage.Tidy := by
  cases operation with
  | transform path source => exact tidy_transform tidy path source
  | change path source => exact tidy_transform tidy path source
  | remove path =>
    simp only [perform, remove]
    split
    · exact tidy.remove path
    · exact tidy
  | styleSheet id => exact tidy
  | finalize artifacts => exact tidy
  | breakOff path source registrations =>
    rw [perform, breakOff_usage]
    exact tidy

theorem run_tidy (config : Config) (theme : Option Theme.Store) (operations : List Operation) :
    (run config theme operations).usage.Tidy := by
  have start : (Session.empty theme).usage.Tidy := ⟨List.nodup_nil, by simp [empty]⟩
  exact List.foldlRecOn (motive := fun session : Session => session.usage.Tidy) operations _ start
    fun session tidy operation _ => tidy_perform tidy operation

/-- The file that an operation is about. -/
def Operation.file? : Operation → Option Text
  | .transform path _ => some path
  | .change path _ => some path
  | .remove path => some path
  | .breakOff path _ _ => some path
  | .styleSheet _ => none
  | .finalize _ => none

private theorem get?_transform_of_ne {other : Text} (different : other ≠ path) :
    Fields.get? other (session.transform config path source).session.usage =
      Fields.get? other session.usage := by
  rcases transform_usage config session path source with same | replaced
  · rw [same]
  · rw [replaced]
    exact Fields.get?_put_of_ne different

/-- An operation leaves the other files as they are. -/
theorem get?_perform_of_ne {operation : Operation} (different : operation.file? ≠ some path) :
    Fields.get? path (perform config session operation).usage = Fields.get? path session.usage := by
  cases operation with
  | transform file source => exact get?_transform_of_ne fun same => different (congrArg some same.symm)
  | change file source => exact get?_transform_of_ne fun same => different (congrArg some same.symm)
  | remove file =>
    have other : path ≠ file := fun same => different (congrArg some same.symm)
    simp only [perform, remove]
    split
    · rw [Usage.remove, Fields.get?_erase, if_neg other]
    · rfl
  | styleSheet id => rfl
  | finalize artifacts => rfl
  | breakOff file source registrations => rw [perform, breakOff_usage]

theorem get?_foldl_of_ne {operations : List Operation}
    (different : ∀ operation ∈ operations, operation.file? ≠ some path) :
    Fields.get? path (operations.foldl (perform config) session).usage = Fields.get? path session.usage := by
  induction operations generalizing session with
  | nil => rfl
  | cons operation operations ih =>
    obtain ⟨first, others⟩ := List.forall_mem_cons.mp different
    rw [List.foldl_cons, ih others, get?_perform_of_ne first]

end Steps

end StaticStyle.Session
