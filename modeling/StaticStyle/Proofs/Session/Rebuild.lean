import StaticStyle.Proofs.Session.Atomicity
import StaticStyle.Proofs.Session.Planning
import StaticStyle.Proofs.Session.Registration
import StaticStyle.Proofs.Text.Order
import StaticStyle.Proofs.Usage

/-!
Building step by step leads to the same style sheet as building from scratch. Whatever happened to the files
of a session, the identities of a file are those of the source it was last compiled from, and the registry
has the rule of each; rules that are in use no more stay registered, but they are not written.
-/

namespace StaticStyle.Session

open Style (Rule)

/-- What can happen to a file of a session. -/
inductive FileAction where
  | transform (path source : Text)
  | change (path source : Text)
  | remove (path : Text)
deriving DecidableEq, Repr

/-- A session and its past: the files that it has compiled and not forgotten, each with the source it was
last compiled from, and every source that it has compiled. -/
structure History where
  session : Session
  files : Fields Text
  compiled : List Text

namespace History

def fresh (theme : Option Theme.Store) : History := ⟨.empty theme, [], []⟩

/-- Records a call that compiles a file. One that is refused, or whose file is not handled, compiles
nothing. -/
def record {α : Type} (config : Config) (path source : Text) (history : History)
    (step : Step (Except Refusal α)) : History :=
  match step.result, config.handles path with
  | .ok _, .ok true =>
    ⟨step.session, history.files.put path source, source :: history.compiled⟩
  | _, _ => { history with session := step.session }

def next (config : Config) (history : History) : FileAction → History
  | .transform path source =>
    history.record config path source (history.session.transform config path source)
  | .change path source =>
    history.record config path source (history.session.change config path source)
  | .remove path =>
    { history with
      session := (history.session.remove config path).session
      files := history.files.erase path }

/-- The history of a new session behind some actions. -/
def after (config : Config) (theme : Option Theme.Store) (actions : List FileAction) : History :=
  actions.foldl (next config) (fresh theme)

end History

/-- The identities that a file declares, whatever is registered. -/
def plannedIdentities (config : Config) (path source : Text) : List Text :=
  match plan config [] path source with
  | .ok plan => plan.identities
  | .error _ => []

/-- What a session keeps about its files: they can be compiled from scratch, their identities are those of
the sources they were last compiled from, and all of these are registered. -/
structure Consistent (config : Config) (theme : Option Theme.Store) (sources : List Text)
    (history : History) : Prop where
  theme : history.session.theme = theme
  rules : RulesOf config sources history.session.registry
  usageKeys : history.session.usage.keys.Nodup
  fileKeys : history.files.keys.Nodup
  files : ∀ path source, history.files.get? path = some source →
    config.handles path = .ok true ∧ source ∈ sources ∧
      ∃ plan, Session.plan config [] path source = .ok plan
  identities : ∀ path, history.session.usage.identitiesOf path =
    ((history.files.get? path).map fun source =>
      Text.distinct (plannedIdentities config path source)).getD []
  registered : ∀ path, ∀ identity ∈ history.session.usage.identitiesOf path,
    Fields.contains identity history.session.registry = true

section Rules

variable {config : Config} {sources : List Text}

private theorem IsRuleOf.identity_eq {identity : Text} {rule : Rule}
    (isRule : IsRuleOf config sources identity rule) : rule.identity = identity := by
  obtain ⟨style, -, name, -, compiled⟩ := isRule
  exact (compile_names compiled).1

private theorem commitRules_spec (path : Text) {rules : List (Text × Rule)} {session : Session}
    (registered : RulesOf config sources session.registry) (isRules : RulesOf config sources rules) :
    RulesOf config sources (session.commitRules path rules).1.registry ∧
      (session.commitRules path rules).1.usage = session.usage ∧
      (session.commitRules path rules).1.theme = session.theme ∧
      ∀ identity, Fields.contains identity session.registry = true ∨
        (∃ rule, (identity, rule) ∈ rules) →
          Fields.contains identity (session.commitRules path rules).1.registry = true := by
  have named : ∀ entry ∈ rules, entry.2.identity = entry.1 :=
    fun entry member => (isRules entry member).identity_eq
  refine ⟨?_, commitRules_usage, commitRules_theme, ?_⟩
  · intro entry member
    rcases mem_commitRules named member with member | member
    · exact registered entry member
    · exact isRules entry member
  · rintro identity (known | ⟨rule, member⟩)
    · exact Fields.contains_mono prefix_commitRules known
    · exact contains_commitRules named member

private theorem rulesOf_nil : RulesOf config sources [] := by simp [RulesOf]

private theorem compile_succeeds (named : CanNameSheet config) (noClash : NoClash config sources)
    {session : Session} (registered : RulesOf config sources session.registry) {path source : Text}
    (member : source ∈ sources) {plan : Plan}
    (planned : Session.plan config [] path source = .ok plan) :
    ∃ output, (session.compile config path source).result = .ok output := by
  have agree := plan_agree noClash registered rulesOf_nil path path member
  rw [planned] at agree
  cases planned' : Session.plan config session.registry path source with
  | error stop => rw [planned'] at agree; exact agree.elim
  | ok plan' =>
    unfold compile
    simp only [planned']
    split
    · exact ⟨_, rfl⟩
    · obtain ⟨editor, -, completed⟩ := commit_completes named session path plan'
      exact ⟨_, by simp only [completed]; rfl⟩

/-- What a session becomes when a file is compiled: the file has the identities that it declares, they are
registered, and nothing else is changed. -/
private theorem compile_session (noClash : NoClash config sources) {session : Session}
    (registered : RulesOf config sources session.registry) {path source : Text}
    (member : source ∈ sources) {output : Option Output}
    (compiled : (session.compile config path source).result = .ok output)
    (keys : session.usage.keys.Nodup) :
    (∃ plan, Session.plan config [] path source = .ok plan) ∧
      (session.compile config path source).session.theme = session.theme ∧
      RulesOf config sources (session.compile config path source).session.registry ∧
      (session.compile config path source).session.usage.keys.Nodup ∧
      (∀ other, (session.compile config path source).session.usage.identitiesOf other =
        if other = path then Text.distinct (plannedIdentities config path source)
        else session.usage.identitiesOf other) ∧
      ∀ identity, Fields.contains identity session.registry = true ∨
        identity ∈ plannedIdentities config path source →
          Fields.contains identity (session.compile config path source).session.registry = true := by
  have agree := plan_agree noClash registered rulesOf_nil path path member
  cases planned : Session.plan config session.registry path source with
  | error stop => simp [compile, planned] at compiled
  | ok plan =>
    rw [planned] at agree
    cases planned' : Session.plan config [] path source with
    | error stop => rw [planned'] at agree; exact agree.elim
    | ok plan' =>
      rw [planned'] at agree
      have alike : Alike config sources session.registry [] plan plan' := agree
      have declared : plannedIdentities config path source = plan.identities := by
        simp only [plannedIdentities, planned', alike.identities]
      rw [declared]
      refine ⟨⟨plan', rfl⟩, ?_⟩
      unfold compile
      simp only [planned]
      split
      · rename_i none
        have empty : plan.identities = [] := by
          rw [← List.length_eq_zero_iff, ← alike.grounded.counted, none]
        rw [empty]
        split
        · refine ⟨rfl, registered, Fields.nodup_put keys, fun other => Usage.identitiesOf_recompute _ _ other [], ?_⟩
          simp [commitUsage]
        · rename_i untracked
          refine ⟨rfl, registered, keys, ?_, by simp⟩
          intro other
          split
          · rename_i same
            cases found : Fields.get? path session.usage with
            | none => simp [Usage.identitiesOf, same, found, Text.distinct, Text.sort]
            | some identities => simp [Fields.contains, found] at untracked
          · rfl
      · have sorted : RulesOf config sources plan.rules.sorted := by
          intro entry member
          exact alike.grounded.rules entry ((List.mergeSort_perm _ _).mem_iff.mp member)
        obtain ⟨registered', usage, theme, kept⟩ :=
          commitRules_spec path registered sorted
        simp only [commit_session, commitUsage]
        refine ⟨theme, registered', ?_, ?_, ?_⟩
        · rw [usage]
          exact Fields.nodup_put keys
        · intro other
          rw [usage]
          exact Usage.identitiesOf_recompute _ _ other _
        · rintro identity (known | declared)
          · exact kept identity (.inl known)
          · rcases alike.grounded.known identity declared with ruled | known
            · obtain ⟨rule, found⟩ := Fields.contains_iff.mp ruled
              refine kept identity (.inr ⟨rule, ?_⟩)
              exact (List.mergeSort_perm _ _).mem_iff.mpr (Fields.mem_of_get? found)
            · exact kept identity (.inl known)

end Rules

section Runs

variable {config : Config} {theme : Option Theme.Store} {sources : List Text} {history : History}

private theorem fresh_consistent : Consistent config theme sources (.fresh theme) where
  theme := rfl
  rules := by simp [RulesOf, History.fresh, empty]
  usageKeys := by simp [History.fresh, empty, Fields.keys]
  fileKeys := by simp [History.fresh, Fields.keys]
  files := by simp [History.fresh, Fields.get?]
  identities := by simp [History.fresh, empty, Usage.identitiesOf, Fields.get?]
  registered := by simp [History.fresh, empty, Usage.identitiesOf, Fields.get?]

/-- A file that is compiled has the identities of its new source. -/
private theorem compile_consistent (noClash : NoClash config sources)
    (consistent : Consistent config theme sources history) {path source : Text}
    (handled : config.handles path = .ok true) (member : source ∈ sources) {output : Option Output}
    (compiled : (history.session.compile config path source).result = .ok output) :
    Consistent config theme sources ⟨(history.session.compile config path source).session,
      history.files.put path source, source :: history.compiled⟩ := by
  obtain ⟨planned, sameTheme, rules, keys, identities, registered⟩ :=
    compile_session noClash consistent.rules member compiled consistent.usageKeys
  refine ⟨sameTheme.trans consistent.theme, rules, keys, Fields.nodup_put consistent.fileKeys, ?_, ?_,
    ?_⟩
  · intro other source' found
    rw [Fields.get?_put] at found
    split at found
    · rename_i same
      rw [Option.some.injEq] at found
      subst same found
      exact ⟨handled, member, planned⟩
    · exact consistent.files other source' found
  · intro other
    rw [identities, Fields.get?_put]
    split
    · rename_i same
      rw [same]
      rfl
    · exact consistent.identities other
  · intro other identity found
    rw [identities] at found
    split at found
    · exact registered identity (.inr (Text.mem_distinct.mp found))
    · exact registered identity (.inl (consistent.registered other identity found))

/-- A call that compiles a file keeps a session consistent, whatever comes of it. -/
private theorem record_consistent (named : CanNameSheet config) (noClash : NoClash config sources)
    (consistent : Consistent config theme sources history) {path source : Text} {α : Type}
    {step : Step (Except Refusal α)}
    (sameSession : step.session = (history.session.transform config path source).session)
    (sameSuccess : (∃ a, step.result = .ok a) ↔
      ∃ output, (history.session.transform config path source).result = .ok output)
    (met : ∀ source' ∈ (history.record config path source step).compiled, source' ∈ sources) :
    Consistent config theme sources (history.record config path source step) := by
  cases handled : config.handles path with
  | error defect =>
    have kept : step.session = history.session := by
      rw [sameSession]
      simp only [transform, handled]
    cases result : step.result <;>
      simpa only [History.record, result, handled, kept] using consistent
  | ok isHandled =>
    cases isHandled with
    | false =>
      have kept : step.session = history.session := by
        rw [sameSession]
        simp only [transform, handled]
      cases result : step.result <;>
        simpa only [History.record, result, handled, kept] using consistent
    | true =>
      have compiles : history.session.transform config path source =
          history.session.compile config path source := by
        simp only [transform, handled]
      rw [compiles] at sameSession sameSuccess
      cases result : step.result with
      | error refusal =>
        have isRefused : ∃ refusal,
            (history.session.compile config path source).result = .error refusal := by
          cases compiled : (history.session.compile config path source).result with
          | error refusal => exact ⟨refusal, rfl⟩
          | ok output =>
            obtain ⟨a, succeeds⟩ := sameSuccess.mpr ⟨output, compiled⟩
            simp [result] at succeeds
        obtain ⟨refusal, refused⟩ := isRefused
        have kept := (transform_refused named (compiles ▸ refused)).1
        rw [compiles, ← sameSession] at kept
        simpa only [History.record, result, kept] using consistent
      | ok a =>
        obtain ⟨output, compiled⟩ := sameSuccess.mp ⟨a, result⟩
        simp only [History.record, result, handled] at met ⊢
        rw [sameSession]
        exact compile_consistent noClash consistent handled (met source List.mem_cons_self) compiled

/-- A file that is forgotten has no identities. -/
private theorem remove_consistent (consistent : Consistent config theme sources history)
    (path : Text) : Consistent config theme sources { history with
      session := (history.session.remove config path).session
      files := history.files.erase path } := by
  have removed (other : Text) :
      (history.session.remove config path).session.usage.identitiesOf other =
        if other = path then [] else history.session.usage.identitiesOf other := by
    unfold remove
    split
    · simp only [Usage.identitiesOf, Usage.remove, Fields.get?_erase]
      split <;> rfl
    · rename_i untracked
      split
      · rename_i same
        rw [same]
        cases found : Fields.get? path history.session.usage with
        | none => simp [Usage.identitiesOf, found]
        | some identities => simp [Fields.contains, found] at untracked
      · rfl
  have registry : (history.session.remove config path).session.registry =
      history.session.registry := by
    unfold remove
    split <;> rfl
  refine ⟨?_, ?_, ?_, Fields.nodup_erase consistent.fileKeys, ?_, ?_, ?_⟩
  · rw [← consistent.theme]
    unfold remove
    split <;> rfl
  · exact registry ▸ consistent.rules
  · unfold remove
    split
    · exact Fields.nodup_erase consistent.usageKeys
    · exact consistent.usageKeys
  · intro other source found
    rw [Fields.get?_erase] at found
    split at found
    · simp at found
    · exact consistent.files other source found
  · intro other
    rw [removed, Fields.get?_erase]
    split
    · rfl
    · exact consistent.identities other
  · intro other identity found
    rw [removed] at found
    split at found
    · simp at found
    · rw [registry]
      exact consistent.registered other identity found

private theorem next_consistent (named : CanNameSheet config) (noClash : NoClash config sources)
    (consistent : Consistent config theme sources history) {action : FileAction}
    (met : ∀ source ∈ (history.next config action).compiled, source ∈ sources) :
    Consistent config theme sources (history.next config action) := by
  cases action with
  | transform path source => exact record_consistent named noClash consistent rfl Iff.rfl met
  | change path source =>
    refine record_consistent named noClash consistent rfl ?_ met
    cases transformed : (history.session.transform config path source).result with
    | error refusal => simp [change, transformed, Except.map]
    | ok output => simp [change, transformed, Except.map]
  | remove path => exact remove_consistent consistent path

private theorem next_compiled (action : FileAction) {source : Text}
    (member : source ∈ history.compiled) : source ∈ (history.next config action).compiled := by
  have kept {α : Type} (path source' : Text) (step : Step (Except Refusal α)) :
      source ∈ (history.record config path source' step).compiled := by
    unfold History.record
    split
    · exact List.mem_cons_of_mem _ member
    · exact member
  cases action with
  | transform path source' => exact kept path source' _
  | change path source' => exact kept path source' _
  | remove path => exact member

private theorem foldl_compiled (actions : List FileAction) {source : Text}
    (member : source ∈ history.compiled) :
    source ∈ (actions.foldl (History.next config) history).compiled := by
  induction actions generalizing history with
  | nil => exact member
  | cons action actions ih => exact ih (next_compiled action member)

private theorem foldl_consistent (named : CanNameSheet config) (noClash : NoClash config sources)
    (consistent : Consistent config theme sources history) (actions : List FileAction)
    (met : ∀ source ∈ (actions.foldl (History.next config) history).compiled, source ∈ sources) :
    Consistent config theme sources (actions.foldl (History.next config) history) := by
  induction actions generalizing history with
  | nil => exact consistent
  | cons action actions ih =>
    refine ih (next_consistent named noClash consistent ?_) met
    exact fun source member => met source (foldl_compiled actions member)

private theorem foldl_transform (named : CanNameSheet config) (noClash : NoClash config sources)
    (consistent : Consistent config theme sources history) {files : Fields Text}
    (buildable : ∀ file ∈ files, config.handles file.1 = .ok true ∧ file.2 ∈ sources ∧
      ∃ plan, Session.plan config [] file.1 file.2 = .ok plan) :
    Consistent config theme sources
        ((files.map fun file => FileAction.transform file.1 file.2).foldl (History.next config) history) ∧
      ((files.map fun file => FileAction.transform file.1 file.2).foldl (History.next config)
        history).files = files.foldl (fun fields file => fields.put file.1 file.2) history.files := by
  induction files generalizing history with
  | nil => exact ⟨consistent, rfl⟩
  | cons file files ih =>
    obtain ⟨handled, member, plan, planned⟩ := buildable file List.mem_cons_self
    obtain ⟨output, compiled⟩ := compile_succeeds named noClash consistent.rules member planned
    have step : history.next config (.transform file.1 file.2) =
        ⟨(history.session.compile config file.1 file.2).session,
          history.files.put file.1 file.2, file.2 :: history.compiled⟩ := by
      simp only [History.next, History.record, transform, handled, compiled]
    rw [List.map_cons, List.foldl_cons, List.foldl_cons, step]
    exact ih (compile_consistent noClash consistent handled member compiled)
      (fun file member => buildable file (List.mem_cons_of_mem _ member))

/-- Consistent sessions with the same files have the same style sheet. -/
private theorem liveStyleSheet_eq (noClash : NoClash config sources) {history' : History}
    (consistent : Consistent config theme sources history)
    (consistent' : Consistent config theme sources history')
    (same : ∀ path, history.files.get? path = history'.files.get? path) (id : Text) :
    history.session.liveStyleSheet config id = history'.session.liveStyleSheet config id := by
  have usage (path : Text) : history.session.usage.identitiesOf path =
      history'.session.usage.identitiesOf path := by
    rw [consistent.identities, consistent'.identities, same]
  have live : history.session.usage.live = history'.session.usage.live :=
    Usage.live_eq_of_identitiesOf consistent.usageKeys consistent'.usageKeys usage
  have rules : ∀ identity ∈ history'.session.usage.live,
      history.session.registry.get? identity = history'.session.registry.get? identity := by
    intro identity member
    obtain ⟨path, found⟩ := (Usage.mem_live consistent'.usageKeys identity).mp member
    obtain ⟨rule', registered'⟩ := Fields.contains_iff.mp (consistent'.registered path identity found)
    rw [← usage] at found
    obtain ⟨rule, registered⟩ := Fields.contains_iff.mp (consistent.registered path identity found)
    have unique : rule = rule' := IsRuleOf.unique noClash
      (consistent.rules _ (Fields.mem_of_get? registered))
      (consistent'.rules _ (Fields.mem_of_get? registered'))
    rw [registered, registered', unique]
  have selected : history.session.registry.select history'.session.usage.live =
      history'.session.registry.select history'.session.usage.live := by
    unfold Registry.select
    refine List.filterMap_congr fun identity member => ?_
    rw [rules identity (Text.mem_distinct.mp member)]
  simp only [liveStyleSheet, themeCss, live, selected, consistent.theme, consistent'.theme]

private theorem liveStyleSheet_eq_of_files {actions : List FileAction}
    (noClash : NoClash config (History.after config theme actions).compiled) {files : Fields Text}
    (same : files.Perm (History.after config theme actions).files) (id : Text) :
    (History.after config theme (files.map fun file => .transform file.1 file.2)
      ).session.liveStyleSheet config id =
      (History.after config theme actions).session.liveStyleSheet config id := by
  cases sheet : config.assetId with
  | text name =>
    have named : CanNameSheet config := by simp [CanNameSheet, sheet, Value.isWritable]
    have consistent : Consistent config theme (History.after config theme actions).compiled
        (History.after config theme actions) :=
      foldl_consistent named noClash fresh_consistent actions fun _ member => member
    have keys : files.keys.Nodup := (same.map Prod.fst).nodup_iff.mpr consistent.fileKeys
    have fresh : Consistent config theme (History.after config theme actions).compiled
        (.fresh theme) := fresh_consistent
    obtain ⟨consistent', built⟩ := foldl_transform named noClash fresh fun file member =>
      consistent.files file.1 file.2
        (Fields.get?_of_mem consistent.fileKeys (same.mem_iff.mp member))
    refine liveStyleSheet_eq noClash consistent' consistent (fun path => ?_) id
    rw [built, Fields.get?_foldl_put keys, ← Fields.get?_eq_of_perm keys same]
    simp [History.fresh, Fields.get?]
  | _ => simp only [liveStyleSheet, sheet]

end Runs

/-- Whatever happened to the files of a new session, in any order and with calls that were refused, its style
sheet is that of a new session in which every file it still has is compiled once, from the source
that it was last compiled from. The order of these files does not matter. -/
theorem liveStyleSheet_rebuild (config : Config) (theme : Option Theme.Store)
    (actions : List FileAction)
    (noClash : NoClash config (History.after config theme actions).compiled) (files : Fields Text)
    (same : files.Perm (History.after config theme actions).files) :
    (∀ id, (History.after config theme (files.map fun file => .transform file.1 file.2)
      ).session.liveStyleSheet config id =
        (History.after config theme actions).session.liveStyleSheet config id) ∧
    ∀ id, config.assetId = .text id → ∃ css,
      (History.after config theme actions).session.liveStyleSheet config id = .ok (some css) := by
  refine ⟨fun id => ?_, fun id sheet => ?_⟩
  · exact liveStyleSheet_eq_of_files noClash same id
  · simp only [liveStyleSheet, sheet, true_or, ↓reduceIte]
    exact ⟨_, rfl⟩

/-- A file gets the style of another one, a change of it is refused, and a third file is deleted. -/
theorem liveStyleSheet_rebuild_edited_files :
    let actions : List FileAction :=
      [.transform "A.tsx" "<p zx={{m: 1}} />", .transform "B.tsx" "<p zx={{m: 2}} />",
        .change "A.tsx" "<a zx={{m: 2}} />", .change "A.tsx" "<p zx={{m: x}} />",
        .transform "C.tsx" "<p zx={{m: 3}} />", .remove "C.tsx"]
    let files : Fields Text :=
      [("B.tsx", "<p zx={{m: 2}} />"), ("A.tsx", "<a zx={{m: 2}} />")]
    let history := History.after Config.standard none actions
    NoClash Config.standard history.compiled ∧ files.Perm history.files ∧
      (History.after Config.standard none (files.map fun file => .transform file.1 file.2)
        ).session.liveStyleSheet Config.standard "virtual:style-zx.css" =
        history.session.liveStyleSheet Config.standard "virtual:style-zx.css" := by
  intro actions files history
  have same : files.Perm history.files := by decide +kernel
  have texts : ∀ style ∈ history.compiled.flatMap (declaredStyles Config.standard),
      ∀ style' ∈ history.compiled.flatMap (declaredStyles Config.standard),
        (Plan.nameStyle Config.standard (.object style)).toOption.map Prod.fst =
          (Plan.nameStyle Config.standard (.object style')).toOption.map Prod.fst →
            Json.canonical (.object style) = Json.canonical (.object style') := by
    decide +kernel
  have noClash : NoClash Config.standard history.compiled := by
    intro style member style' member' identity name name' named named'
    exact texts style member style' member' (by rw [named, named']; rfl)
  exact ⟨noClash, same, (liveStyleSheet_rebuild Config.standard none actions noClash files same).1 _⟩

end StaticStyle.Session
