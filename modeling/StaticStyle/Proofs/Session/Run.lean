import StaticStyle.Proofs.Session.Outcome
import StaticStyle.Proofs.Session.Registration

/-!
Runs of a session. Whatever is called, in whatever order, and whether or not a call comes to its end, every
identity in use has a rule, and every rule is what a style of its identity is compiled to.
-/

namespace StaticStyle.Session

open Style

/-- What can happen to a session. -/
inductive Operation where
  | transform (path source : Text)
  | change (path source : Text)
  | remove (path : Text)
  | styleSheet (id : Text)
  | finalize (artifacts : List Text)
  /-- A listener breaks off the compilation of a file when some of its rules have been registered. -/
  | breakOff (path source : Text) (registrations : Nat)
deriving DecidableEq, Repr

/-- The session when a listener has broken off the compilation of a file. -/
def breakOff (session : Session) (config : Config) (path source : Text) (registrations : Nat) :
    Session :=
  match config.handles path, plan config session.registry path source with
  | .ok true, .ok plan => (session.commitRules path (plan.rules.sorted.take registrations)).1
  | _, _ => session

/-- The session behind an operation. A style sheet is only looked at. -/
def perform (config : Config) (session : Session) : Operation → Session
  | .transform path source => (session.transform config path source).session
  | .change path source => (session.change config path source).session
  | .remove path => (session.remove config path).session
  | .styleSheet _ => session
  | .finalize artifacts => (session.finalize artifacts).session
  | .breakOff path source registrations => session.breakOff config path source registrations

/-- A new session behind some operations. -/
def run (config : Config) (theme : Option Theme.Store) (operations : List Operation) : Session :=
  operations.foldl (perform config) (.empty theme)

/-- A rule is what some style of an identity is compiled to. -/
def IsCompiled (config : Config) (identity : Text) (rule : Rule) : Prop :=
  ∃ style : Fields Value, Value.areListFree style = true ∧
    Value.fieldsHaveDistinctKeys style = true ∧ ∃ name,
      Plan.nameStyle config (.object style) = .ok (identity, name) ∧
        (Style.compile config.themeStem name identity style).result = .ok rule

theorem IsCompiled.identity_eq {config : Config} {identity : Text} {rule : Rule}
    (isCompiled : IsCompiled config identity rule) : rule.identity = identity := by
  obtain ⟨style, -, -, name, -, compiled⟩ := isCompiled
  exact (compile_names compiled).1

/-- What a session keeps: its rules are compiled from styles, each identity has one of them, and the identities
of the files are among these. -/
structure Backed (config : Config) (session : Session) : Prop where
  rules : ∀ entry ∈ session.registry, IsCompiled config entry.1 entry.2
  keys : (Fields.keys session.registry).Nodup
  registered : ∀ entry ∈ session.usage, ∀ identity ∈ entry.2,
    Fields.contains identity session.registry = true

section Steps

variable {config : Config} {session : Session} {path : Text}

theorem Backed.commitRules (backed : Backed config session) {rules : List (Text × Rule)}
    (isCompiled : ∀ entry ∈ rules, IsCompiled config entry.1 entry.2) :
    Backed config (session.commitRules path rules).1 where
  rules entry member := by
    have named : ∀ entry ∈ rules, entry.2.identity = entry.1 :=
      fun entry found => (isCompiled entry found).identity_eq
    rcases mem_commitRules named member with found | found
    · exact backed.rules entry found
    · exact isCompiled entry found
  keys := nodup_commitRules backed.keys
  registered entry member identity found := by
    rw [commitRules_usage] at member
    exact Fields.contains_mono prefix_commitRules (backed.registered entry member identity found)

theorem Backed.commitUsage (backed : Backed config session) {identities : List Text}
    (known : ∀ identity ∈ identities, Fields.contains identity session.registry = true) :
    Backed config (session.commitUsage path identities).1 where
  rules := backed.rules
  keys := backed.keys
  registered entry member identity found := by
    rcases Fields.mem_put member with rfl | member
    · exact known identity (Text.mem_distinct.mp found)
    · exact backed.registered entry member identity found

private theorem Sound.isCompiled {registry : Registry} {source : Text} {pending : Text → Prop}
    {plan : Plan} (sound : Sound config registry source pending plan) {entry : Text × Rule}
    (member : entry ∈ plan.rules.sorted) : IsCompiled config entry.1 entry.2 := by
  obtain ⟨style, declared, name, named, compiled⟩ :=
    sound.rules entry ((List.mergeSort_perm _ _).mem_iff.mp member)
  have declared : style ∈ declaredStyles config source := by simpa using declared
  exact ⟨style, declaredStyles_isListFree declared, declaredStyles_hasDistinctKeys declared, name, named,
    compiled⟩

private theorem Sound.registers {source : Text} {plan : Plan}
    (finished : Finished config session.registry source plan) {identity : Text}
    (member : identity ∈ plan.identities) :
    Fields.contains identity (session.commitRules path plan.rules.sorted).1.registry = true := by
  rcases finished.known identity member with planned | registered
  · obtain ⟨rule, found⟩ := Fields.contains_iff.mp planned
    exact contains_commitRules (fun entry found => (finished.isCompiled found).identity_eq)
      ((List.mergeSort_perm _ _).mem_iff.mpr (Fields.mem_of_get? found))
  · exact Fields.contains_mono prefix_commitRules registered

theorem commit_registers {source : Text} {plan : Plan}
    (finished : Finished config session.registry source plan) {identity : Text}
    (member : identity ∈ plan.identities) :
    Fields.contains identity (session.commit config path plan).session.registry = true := by
  rw [commit_session]
  exact finished.registers member

private theorem Backed.commit (backed : Backed config session) {source : Text} {plan : Plan}
    (finished : Finished config session.registry source plan) :
    Backed config (session.commit config path plan).session := by
  rw [commit_session]
  exact (backed.commitRules fun entry member => finished.isCompiled member).commitUsage
    fun identity member => finished.registers member

private theorem Backed.transform (backed : Backed config session) (source : Text) :
    Backed config (session.transform config path source).session := by
  unfold Session.transform
  split
  · exact backed
  · exact backed
  · have leads : Leads (Finished config session.registry source) (Explained config source)
        (plan config session.registry path source) := plan_leads path
    unfold Session.compile
    cases planned : plan config session.registry path source with
    | error stop => exact backed
    | ok plan =>
      rw [planned] at leads
      dsimp only
      split
      · split
        · exact backed.commitUsage (by simp)
        · exact backed
      · exact backed.commit leads

private theorem Backed.breakOff (backed : Backed config session) (source : Text)
    (registrations : Nat) :
    Backed config (session.breakOff config path source registrations) := by
  have leads : Leads (Finished config session.registry source) (Explained config source)
      (plan config session.registry path source) := plan_leads path
  unfold Session.breakOff
  split
  · rename_i plan handled planned
    rw [planned] at leads
    have finished : Finished config session.registry source plan := leads
    exact backed.commitRules fun entry member => finished.isCompiled (List.mem_of_mem_take member)
  · exact backed

private theorem Backed.remove (backed : Backed config session) :
    Backed config (session.remove config path).session := by
  unfold Session.remove
  split
  · refine ⟨backed.rules, backed.keys, fun entry member => ?_⟩
    exact backed.registered entry (List.mem_of_mem_filter member)
  · exact backed

/-- Every operation keeps a session backed. -/
theorem Backed.perform (backed : Backed config session) (operation : Operation) :
    Backed config (perform config session operation) := by
  cases operation with
  | transform path source => exact backed.transform source
  | change path source => exact backed.transform source
  | remove path => exact backed.remove
  | styleSheet id => exact backed
  | finalize artifacts => exact backed
  | breakOff path source registrations => exact backed.breakOff source registrations

theorem Backed.foldl (backed : Backed config session) (operations : List Operation) :
    Backed config (operations.foldl (Session.perform config) session) := by
  induction operations generalizing session with
  | nil => exact backed
  | cons operation operations ih => exact ih (backed.perform operation)

private theorem prefix_transform (source : Text) :
    session.registry <+: (session.transform config path source).session.registry := by
  unfold Session.transform
  split
  · exact List.prefix_rfl
  · exact List.prefix_rfl
  · unfold Session.compile
    cases plan config session.registry path source with
    | error stop => exact List.prefix_rfl
    | ok plan =>
      dsimp only
      split
      · split <;> exact List.prefix_rfl
      · rw [commit_session]
        exact prefix_commitRules

/-- No operation takes a rule out of the registry. -/
theorem prefix_perform (operation : Operation) :
    session.registry <+: (perform config session operation).registry := by
  cases operation with
  | transform path source => exact prefix_transform source
  | change path source => exact prefix_transform source
  | remove path =>
    rw [perform, Session.remove]
    split <;> exact List.prefix_rfl
  | styleSheet id => exact List.prefix_rfl
  | finalize artifacts => exact List.prefix_rfl
  | breakOff path source registrations =>
    rw [perform, Session.breakOff]
    split
    · exact prefix_commitRules
    · exact List.prefix_rfl

theorem prefix_foldl (operations : List Operation) :
    session.registry <+: (operations.foldl (perform config) session).registry := by
  induction operations generalizing session with
  | nil => exact List.prefix_rfl
  | cons operation operations ih => exact (prefix_perform operation).trans ih

end Steps

theorem run_backed (config : Config) (theme : Option Theme.Store) (operations : List Operation) :
    Backed config (run config theme operations) := by
  refine Backed.foldl ⟨?_, ?_, ?_⟩ operations
  · simp [empty]
  · simp [empty, Fields.keys]
  · simp [empty]

/-- In every session that a run leads to, each identity of each tracked file is registered. What is
registered for an identity is a rule of this identity and of its class, and it is what some style of the same
identity is compiled to. -/
theorem live_identity_has_rule (config : Config) (theme : Option Theme.Store)
    (operations : List Operation) :
    (∀ entry ∈ (run config theme operations).usage, ∀ identity ∈ entry.2,
      Fields.contains identity (run config theme operations).registry = true) ∧
    ∀ identity rule, (identity, rule) ∈ (run config theme operations).registry →
      rule.identity = identity ∧
      (∃ stem, config.classStem.shown = .ok stem ∧ rule.className = className stem identity) ∧
      ∃ (style : Fields Value) (length : Nat), Value.areListFree style = true ∧
        Value.fieldsHaveDistinctKeys style = true ∧ config.hashLength = .ok length ∧
        identify (.object style) length = .ok identity ∧
        (Style.compile config.themeStem rule.className identity style).result = .ok rule := by
  have backed := run_backed config theme operations
  refine ⟨backed.registered, fun identity rule member => ?_⟩
  obtain ⟨style, free, distinct, name, named, compiled⟩ := backed.rules _ member
  obtain ⟨sameIdentity, sameClass⟩ := compile_names compiled
  obtain ⟨digits, length, stem, digested, hashLength, shown, rfl, rfl⟩ := nameStyle_ok named
  refine ⟨sameIdentity, ⟨stem, shown, sameClass⟩, style, length, free, distinct, hashLength, ?_, ?_⟩
  · rw [identify, digested]
    rfl
  · rw [sameClass]
    exact compiled

end StaticStyle.Session
