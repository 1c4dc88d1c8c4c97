import Mathlib.Data.Finset.Basic
import Mathlib.Data.Finset.Lattice.Lemmas
import StaticStyle.Proofs.Session.Tracking

/-!
The events of a session tell everything about its state. Whoever starts with nothing and takes over what each event
says has the registered identities and the usage of every tracked file, at any time. Nothing is told twice.
-/

namespace StaticStyle.Session

open Style (Rule)

/-- What can be known about the state of a session: the registered identities, and the identities of each tracked
file. -/
@[ext]
structure Picture where
  registered : Finset Text
  usage : Text → Option (Finset Text)

namespace Picture

/-- Nothing is registered, and no file is tracked. -/
def blank : Picture := ⟨∅, fun _ => none⟩

/-- The identities of each tracked file. -/
def ofUsage (usage : Usage) : Text → Option (Finset Text) := fun file =>
  (Fields.get? file usage).map List.toFinset

def ofSession (session : Session) : Picture :=
  ⟨(Fields.keys session.registry).toFinset, ofUsage session.usage⟩

/-- The picture behind an event. -/
def see (picture : Picture) : Event → Picture
  | .styleRegistered identity _ _ => { picture with registered := insert identity picture.registered }
  | .fileUsageChanged path added removed =>
    let kept := (picture.usage path).getD ∅ \ removed.toFinset
    { picture with usage := Function.update picture.usage path (some (kept ∪ added.toFinset)) }
  | .fileDropped path => { picture with usage := Function.update picture.usage path none }
  | .bundleFinalized .. => picture

end Picture

/-- What has been told when a listener breaks off the compilation of a file: which rules were registered until then. -/
def breakOffEvents (session : Session) (config : Config) (path source : Text) (registrations : Nat) :
    List Event :=
  match config.handles path, plan config session.registry path source with
  | .ok true, .ok plan => (session.commitRules path (plan.rules.sorted.take registrations)).2
  | _, _ => []

/-- The events of an operation. -/
def emitted (config : Config) (session : Session) : Operation → List Event
  | .transform path source => (session.transform config path source).events
  | .change path source => (session.change config path source).events
  | .remove path => (session.remove config path).events
  | .styleSheet _ => []
  | .finalize artifacts => (session.finalize artifacts).events
  | .breakOff path source registrations => session.breakOffEvents config path source registrations

/-- The events of some operations, one after another. -/
def events (config : Config) (session : Session) : List Operation → List Event
  | [] => []
  | operation :: rest =>
    emitted config session operation ++ events config (perform config session operation) rest

/-- The identities that are announced as registered. -/
def announced (events : List Event) : List Text :=
  events.filterMap fun
    | .styleRegistered identity _ _ => some identity
    | _ => none

theorem announced_append (first second : List Event) :
    announced (first ++ second) = announced first ++ announced second :=
  List.filterMap_append

section Registering

variable {session : Session} {path : Text} {rules : List (Text × Rule)}

/-- Registering rules is told by events of one kind only. -/
theorem commitRules_events {event : Event} (member : event ∈ (session.commitRules path rules).2) :
    ∃ identity className, event = .styleRegistered identity className path := by
  induction rules generalizing session with
  | nil => simp [commitRules] at member
  | cons entry rules ih =>
    simp only [commitRules] at member
    split at member
    · rcases List.mem_cons.mp member with same | member
      · exact ⟨_, _, same⟩
      · exact ih member
    · exact ih member

/-- What is registered is announced, in the same order. -/
theorem keys_commitRules (named : ∀ entry ∈ rules, entry.2.identity = entry.1) :
    Fields.keys (session.commitRules path rules).1.registry =
      Fields.keys session.registry ++ announced (session.commitRules path rules).2 := by
  induction rules generalizing session with
  | nil => simp [commitRules, announced]
  | cons entry rules ih =>
    obtain ⟨own, others⟩ := List.forall_mem_cons.mp named
    have onward := @ih { session with registry := (session.registry.register entry.2).1 } others
    simp only [commitRules]
    rw [onward]
    cases known : Fields.contains entry.2.identity session.registry with
    | true =>
      have same : session.registry.register entry.2 = (session.registry, false) := by
        rw [Registry.register, if_pos known]
      simp only [same, Bool.false_eq_true, ↓reduceIte]
    | false =>
      have longer : session.registry.register entry.2 = (session.registry ++ [(entry.1, entry.2)], true) := by
        rw [Registry.register, known, own]
        rfl
      simp only [longer, ↓reduceIte, Fields.keys, List.map_append, List.map_cons, List.map_nil, List.append_assoc]
      rfl

end Registering

namespace Picture

variable {session : Session} {path : Text} {picture : Picture}

theorem registered_foldl (events : List Event) (picture : Picture) :
    (events.foldl see picture).registered = picture.registered ∪ (announced events).toFinset := by
  induction events generalizing picture with
  | nil => simp [announced]
  | cons event events ih =>
    rw [List.foldl_cons, ih]
    cases event <;> simp [see, announced, Finset.insert_union, Finset.union_insert]

theorem usage_commitRules {rules : List (Text × Rule)} :
    ((session.commitRules path rules).2.foldl see picture).usage = picture.usage := by
  refine List.foldlRecOn (motive := fun next : Picture => next.usage = picture.usage) _ _ rfl ?_
  intro next same event member
  obtain ⟨identity, className, rfl⟩ := commitRules_events member
  exact same

theorem getD_ofUsage (usage : Usage) (path : Text) :
    (ofUsage usage path).getD ∅ = (usage.identitiesOf path).toFinset := by
  unfold ofUsage Usage.identitiesOf
  cases Fields.get? path usage <;> rfl

/-- The picture of usage follows a change of the identities of a file that is tracked or has some. -/
theorem usage_commitUsage {identities : List Text} (seen : picture.usage = ofUsage session.usage)
    (tracked : Fields.contains path session.usage = true ∨ identities ≠ []) :
    ((session.commitUsage path identities).2.foldl see picture).usage =
      ofUsage (session.usage.recompute path identities) := by
  simp only [commitUsage, Usage.identitiesOf_recompute_self]
  split
  · rename_i same
    rw [Usage.recompute_eq_self tracked same]
    exact seen
  · funext file
    simp only [List.foldl_cons, List.foldl_nil, see, seen, getD_ofUsage]
    by_cases here : file = path
    · subst here
      rw [Function.update_self, ofUsage, Usage.recompute, Fields.get?_put_self, Option.map_some,
        Option.some.injEq]
      ext identity
      simp only [Finset.mem_union, Finset.mem_sdiff, List.mem_toFinset, List.mem_filter, Bool.not_eq_true',
        List.contains_eq_mem, decide_eq_false_iff_not]
      tauto
    · rw [Function.update_of_ne here, ofUsage, ofUsage, Usage.recompute, Fields.get?_put_of_ne here]

end Picture

section Steps

variable {config : Config} {session : Session} {path source : Text}

theorem announced_commitUsage (session : Session) (path : Text) (identities : List Text) :
    announced (session.commitUsage path identities).2 = [] := by
  simp only [commitUsage]
  split <;> rfl

private theorem keys_transform (config : Config) (session : Session) (path source : Text) :
    Fields.keys (session.transform config path source).session.registry =
      Fields.keys session.registry ++ announced (session.transform config path source).events := by
  rcases transform_cases config session path source with ⟨same, silent, -⟩ | ⟨rules, records, recorded⟩
  · rw [same, silent]
    exact (List.append_nil _).symm
  · rw [Prod.mk.injEq] at recorded
    rw [recorded.1, recorded.2, record_registry, keys_commitRules records.named, record, announced_append,
      announced_commitUsage, List.append_nil]

private theorem keys_breakOff (registrations : Nat) :
    Fields.keys (session.breakOff config path source registrations).registry =
      Fields.keys session.registry ++
        announced (session.breakOffEvents config path source registrations) := by
  unfold breakOff breakOffEvents
  cases config.handles path with
  | error defect => simp [announced]
  | ok handled =>
    cases planned : plan config session.registry path source with
    | error stop => cases handled <;> simp [announced]
    | ok plan =>
      cases handled with
      | false => simp [announced]
      | true =>
        exact keys_commitRules fun entry member => (plan_finished planned).named (List.mem_of_mem_take member)

/-- An operation announces what it registers. -/
theorem keys_perform (config : Config) (session : Session) (operation : Operation) :
    Fields.keys (perform config session operation).registry =
      Fields.keys session.registry ++ announced (emitted config session operation) := by
  cases operation with
  | transform path source => exact keys_transform config session path source
  | change path source => exact keys_transform config session path source
  | remove path =>
    simp only [perform, emitted, remove]
    split <;> simp [announced]
  | styleSheet id => simp [perform, emitted, announced]
  | finalize artifacts => simp [perform, emitted, finalize, announced]
  | breakOff path source registrations => exact keys_breakOff registrations

private theorem usage_transform {picture : Picture} (seen : picture.usage = Picture.ofUsage session.usage)
    (path source : Text) :
    ((session.transform config path source).events.foldl .see picture).usage =
      Picture.ofUsage (session.transform config path source).session.usage := by
  rcases transform_cases config session path source with ⟨same, silent, -⟩ | ⟨rules, records, recorded⟩
  · rw [same, silent]
    exact seen
  · rw [Prod.mk.injEq] at recorded
    have usage : (session.commitRules path rules).1.usage = session.usage := commitRules_usage
    rw [recorded.1, recorded.2, record_usage, record, List.foldl_append,
      Picture.usage_commitUsage (Picture.usage_commitRules.trans (usage ▸ seen)) (usage ▸ records.tracked), usage]

/-- The picture of usage follows an operation. -/
theorem usage_emitted {picture : Picture} (seen : picture.usage = Picture.ofUsage session.usage)
    (operation : Operation) :
    ((emitted config session operation).foldl .see picture).usage =
      Picture.ofUsage (perform config session operation).usage := by
  cases operation with
  | transform path source => exact usage_transform seen path source
  | change path source => exact usage_transform seen path source
  | remove path =>
    simp only [perform, emitted, remove]
    split
    · funext file
      simp only [List.foldl_cons, List.foldl_nil, Picture.see, seen, Picture.ofUsage, Usage.remove,
        Fields.get?_erase, Function.update_apply]
      split <;> rfl
    · exact seen
  | styleSheet id => exact seen
  | finalize artifacts => exact seen
  | breakOff path source registrations =>
    rw [perform, breakOff_usage, emitted, breakOffEvents]
    split
    · exact Picture.usage_commitRules.trans seen
    · exact seen

/-- What is told of a change of usage is a change: nothing is both added and removed, and something is one of both. -/
def IsChange : Event → Prop
  | .fileUsageChanged _ added removed => added.Disjoint removed ∧ ¬ (added = [] ∧ removed = [])
  | _ => True

private theorem commitUsage_isChange (tidy : session.usage.Tidy) {identities : List Text} {event : Event}
    (member : event ∈ (session.commitUsage path identities).2) : IsChange event := by
  simp only [commitUsage, Usage.identitiesOf_recompute_self] at member
  split at member
  · simp at member
  · rename_i different
    rw [List.mem_singleton] at member
    subst member
    refine ⟨?_, ?_⟩
    · intro identity added removed
      simp only [List.mem_filter, List.contains_eq_mem, Bool.not_eq_true', decide_eq_false_iff_not] at added removed
      exact removed.2 added.1
    · rintro ⟨noneAdded, noneRemoved⟩
      refine different ?_
      rw [← tidy.distinct_identitiesOf path, ← Text.distinct_distinct]
      refine Text.distinct_eq_of_mem_iff fun identity => ⟨fun now => ?_, fun before => ?_⟩
      · simpa using List.filter_eq_nil_iff.mp noneAdded identity now
      · simpa using List.filter_eq_nil_iff.mp noneRemoved identity before

private theorem commitRules_isChange {rules : List (Text × Rule)} {event : Event}
    (member : event ∈ (session.commitRules path rules).2) : IsChange event := by
  obtain ⟨identity, className, rfl⟩ := commitRules_events member
  trivial

private theorem transform_isChange (tidy : session.usage.Tidy) {event : Event}
    (member : event ∈ (session.transform config path source).events) : IsChange event := by
  rcases transform_cases config session path source with ⟨-, silent, -⟩ | ⟨rules, -, recorded⟩
  · simp [silent] at member
  · rw [Prod.mk.injEq] at recorded
    rw [recorded.2, record] at member
    rcases List.mem_append.mp member with registered | changed
    · exact commitRules_isChange registered
    · refine commitUsage_isChange ?_ changed
      rw [commitRules_usage]
      exact tidy

theorem emitted_isChange (tidy : session.usage.Tidy) {operation : Operation} {event : Event}
    (member : event ∈ emitted config session operation) : IsChange event := by
  cases operation with
  | transform path source => exact transform_isChange tidy member
  | change path source => exact transform_isChange tidy member
  | remove path =>
    simp only [emitted, remove] at member
    split at member
    · rw [List.mem_singleton.mp member]
      trivial
    · simp at member
  | styleSheet id => simp [emitted] at member
  | finalize artifacts =>
    rw [emitted, finalize, List.mem_singleton] at member
    rw [member]
    trivial
  | breakOff path source registrations =>
    rw [emitted, breakOffEvents] at member
    split at member
    · exact commitRules_isChange member
    · simp at member

/-- A source that was compiled to the end is compiled again without a word, as long as nothing else has happened to the
file. -/
theorem transform_repeated (completed : ∃ output, (session.transform config path source).result = .ok output)
    {later : Session} (registered : (session.transform config path source).session.registry <+: later.registry)
    (untouched : Fields.get? path later.usage =
      Fields.get? path (session.transform config path source).session.usage) :
    (later.transform config path source).events = [] := by
  rcases transform_cases config later path source with ⟨-, silent, -⟩ | ⟨again, records, recorded⟩
  · exact silent
  · rcases transform_cases config session path source with ⟨same, -, idle⟩ | ⟨rules, recordsFirst, first⟩
    · obtain ⟨output, result⟩ := completed
      obtain ⟨untracked, none⟩ := idle records.handled (by rw [result]; rfl)
      refine absurd records.tracked (not_or.mpr ⟨?_, by simp [none]⟩)
      rw [Fields.contains, untouched, same]
      simpa [Fields.contains] using untracked
    · rw [Prod.mk.injEq] at first recorded
      rw [first.1, record_registry] at registered
      have previous : later.usage.identitiesOf path = Text.distinct (declaredIdentities config source) := by
        rw [Usage.identitiesOf, untouched, first.1, record_usage]
        exact Usage.identitiesOf_recompute_self
      have known : ∀ identity ∈ declaredIdentities config source,
          Fields.contains identity later.registry = true :=
        fun identity member => Fields.contains_mono registered (recordsFirst.registered identity member)
      rw [recorded.2, records.record_eq_self known previous.symm]

end Steps

section Runs

variable {config : Config}

theorem keys_events (session : Session) (operations : List Operation) :
    Fields.keys (operations.foldl (perform config) session).registry =
      Fields.keys session.registry ++ announced (events config session operations) := by
  induction operations generalizing session with
  | nil => simp [events, announced]
  | cons operation operations ih =>
    rw [List.foldl_cons, ih, keys_perform, events, announced_append, List.append_assoc]

theorem usage_events {session : Session} {picture : Picture} (seen : picture.usage = Picture.ofUsage session.usage)
    (operations : List Operation) :
    ((events config session operations).foldl .see picture).usage =
      Picture.ofUsage (operations.foldl (perform config) session).usage := by
  induction operations generalizing session picture with
  | nil => exact seen
  | cons operation operations ih =>
    rw [events, List.foldl_append, List.foldl_cons]
    exact ih (usage_emitted seen operation)

theorem events_areChanges {session : Session} (tidy : session.usage.Tidy) (operations : List Operation) :
    ∀ event ∈ events config session operations, IsChange event := by
  induction operations generalizing session with
  | nil => simp [events]
  | cons operation operations ih =>
    rw [events, List.forall_mem_append]
    exact ⟨fun event => emitted_isChange tidy, ih (tidy_perform tidy operation)⟩

/-- An operation announces the identities that are registered behind it and were not registered in front of it. -/
theorem mem_announced_iff {session : Session} {operation : Operation}
    (nodup : (Fields.keys (perform config session operation).registry).Nodup) (identity : Text) :
    identity ∈ announced (emitted config session operation) ↔
      identity ∈ Fields.keys (perform config session operation).registry ∧
        identity ∉ Fields.keys session.registry := by
  rw [keys_perform] at nodup ⊢
  rw [List.mem_append]
  constructor
  · intro new
    exact ⟨.inr new, fun old => (List.nodup_append.mp nodup).2.2 identity old identity new rfl⟩
  · rintro ⟨now, notBefore⟩
    exact now.resolve_left notBefore

/-- The two ways to have a source compiled as a file. -/
def compilations (path source : Text) : List Operation := [.transform path source, .change path source]

theorem compilations_agree {path source : Text} {operation : Operation}
    (member : operation ∈ compilations path source) (session : Session) :
    perform config session operation = (session.transform config path source).session ∧
      emitted config session operation = (session.transform config path source).events := by
  simp only [compilations, List.mem_cons, List.not_mem_nil, or_false] at member
  rcases member with rfl | rfl
  · exact ⟨rfl, rfl⟩
  · exact ⟨rfl, rfl⟩

/-- The events of a run, taken over one after another from nothing, show the registered identities, the tracked files
and the identities of each of these. Every registered identity is announced once, in the order of registration, and by
the operation that registers it. A change of usage that is told is one. When a source that was compiled to its end is
compiled again, and no other operation was about the file in between, nothing is told. -/
theorem events_rebuild_session (config : Config) (theme : Option Theme.Store) (operations : List Operation) :
    let session := run config theme operations
    let told := events config (.empty theme) operations
    told.foldl Picture.see .blank = .ofSession session ∧
    (announced told = Fields.keys session.registry ∧ (announced told).Nodup) ∧
    (∀ operation identity, identity ∈ announced (emitted config session operation) ↔
      identity ∈ Fields.keys (perform config session operation).registry ∧
        identity ∉ Fields.keys session.registry) ∧
    (∀ path added removed, .fileUsageChanged path added removed ∈ told →
      added.Disjoint removed ∧ ¬ (added = [] ∧ removed = [])) ∧
    ∀ path source, (∃ output, (session.transform config path source).result = .ok output) →
      ∀ between : List Operation, (∀ operation ∈ between, operation.file? ≠ some path) →
        ∀ first ∈ compilations path source, ∀ again ∈ compilations path source,
          emitted config ((first :: between).foldl (perform config) session) again = [] := by
  intro session told
  have announces : announced told = Fields.keys session.registry := (keys_events (.empty theme) operations).symm
  have nodup : (Fields.keys session.registry).Nodup := (run_backed config theme operations).keys
  refine ⟨?_, ⟨announces, announces ▸ nodup⟩, ?_, ?_, ?_⟩
  · ext1
    · rw [Picture.registered_foldl, announces]
      exact Finset.empty_union _
    · exact @usage_events config (.empty theme) .blank rfl operations
  · intro operation identity
    exact mem_announced_iff ((run_backed config theme operations).perform operation).keys identity
  · intro path added removed member
    have tidy : (Session.empty theme).usage.Tidy := run_tidy config theme []
    exact events_areChanges tidy operations _ member
  · intro path source completed between others first isFirst again isAgain
    rw [List.foldl_cons, (compilations_agree isFirst session).1, (compilations_agree isAgain _).2]
    exact transform_repeated completed (prefix_foldl between) (get?_foldl_of_ne others)

/-- The second of two equal compilations tells nothing. -/
example :
    events Config.standard (.empty none) [.transform "A.tsx" "<p zx={{m: 1}} />",
        .change "A.tsx" "<p zx={{m: 1}} />", .remove "A.tsx"] =
      [.styleRegistered "8f79c69e" "zx-8f79c69e" "A.tsx", .fileUsageChanged "A.tsx" ["8f79c69e"] [],
        .fileDropped "A.tsx"] := by
  decide +kernel

end Runs

end StaticStyle.Session
