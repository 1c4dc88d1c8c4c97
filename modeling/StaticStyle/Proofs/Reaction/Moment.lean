import Mathlib.Logic.Function.Iterate
import StaticStyle.Reaction.Agenda

/-!
The moments of a run of listeners. What a step can come to is said once: a listener is called, or an action takes place
and the calls that it leads to come before those that are left, or an action breaks off, or nothing happens. In the
last two cases some of the calls that are left may be given up. A run is the steps up to an empty agenda.
-/

namespace StaticStyle.Reaction

variable {σ α π ε ρ : Type}

/-- The calls on an agenda, in order. -/
def outstanding : List (Task π) → List (Text × π)
  | [] => []
  | .call listener payload :: rest => (listener, payload) :: outstanding rest
  | .proceed _ :: rest | .shield :: rest => outstanding rest

theorem outstanding_append (first second : List (Task π)) :
    outstanding (first ++ second) = outstanding first ++ outstanding second := by
  induction first with
  | nil => rfl
  | cons task rest ih => cases task <;> simp [outstanding, ih]

theorem outstanding_calls (calls : List (Text × π)) :
    outstanding (calls.map fun (name, payload) => Task.call name payload) = calls := by
  induction calls with
  | nil => rfl
  | cons call rest ih => rw [List.map_cons, outstanding, ih]

theorem outstanding_sequel (listener : Text) (command : Command α) :
    outstanding (π := π) (command.sequel listener) = [] := by
  cases command <;> rfl

theorem outstanding_behindShield {agenda behind : List (Task π)} (found : behindShield? agenda = some behind) :
    outstanding behind <:+ outstanding agenda := by
  induction agenda with
  | nil => cases found
  | cons task rest ih =>
    cases task with
    | shield =>
      cases found
      exact List.suffix_rfl
    | call listener payload => exact (ih found).trans (List.suffix_cons _ _)
    | proceed listener => exact ih found

/-- Whether an action is neither rejected nor broken off. -/
def completes (perform : Performer σ α π ε ρ) (state : σ) (action : α) : Bool :=
  match perform state action with
  | .ok (.complete ..) => true
  | _ => false

theorem completes_iff {perform : Performer σ α π ε ρ} {state : σ} {action : α} :
    completes perform state action = true ↔
      ∃ next calls result, perform state action = .ok (.complete next calls result) := by
  unfold completes
  split
  · rename_i next calls result performed
    exact iff_of_true rfl ⟨next, calls, result, performed⟩
  · rename_i another
    exact iff_of_false Bool.false_ne_true fun ⟨next, calls, result, performed⟩ => another next calls result performed

/-- The action of a command, if it takes place to its end. -/
def accepted? (perform : Performer σ α π ε ρ) (state : σ) (command : Command α) : Option α :=
  command.action?.filter (completes perform state)

theorem completes_of_broken {perform : Performer σ α π ε ρ} {state left : σ} {action : α}
    (performed : perform state action = .ok (.broken left)) : completes perform state action = false := by
  rw [completes, performed]

theorem accepted?_eq_none {perform : Performer σ α π ε ρ} {state : σ} {command : Command α} {action : α}
    (acts : command.action? = some action) (incomplete : completes perform state action = false) :
    accepted? perform state command = none := by
  simp [accepted?, acts, incomplete]

/-- Whether a command breaks off the call that it belongs to. -/
def Command.isFailing (perform : Performer σ α π ε ρ) (state : σ) : Command α → Bool
  | .plain action | .introduce _ _ action => !completes perform state action
  | .attempt _ | .pause => false
  | .raise => true

/-- What a step can come to, by the command that is obeyed in it. -/
inductive Change (perform : Performer σ α π ε ρ) (moment next : Moment σ α π ε) : Option (Command α) → Prop
  /-- Nothing takes place, and calls are given up only if the command breaks off. -/
  | quiet {command : Option (Command α)}
      (rejected : ∀ obeyed ∈ command, ∀ action ∈ obeyed.action?,
        ∃ fault, perform moment.stage.state action = .error fault)
      (sameState : next.stage.state = moment.stage.state) (sameCalls : next.stage.calls = moment.stage.calls)
      (fewer : outstanding next.agenda <:+ outstanding moment.agenda)
      (kept : (∀ obeyed ∈ command, obeyed.isFailing perform moment.stage.state = false) →
        outstanding next.agenda = outstanding moment.agenda) : Change perform moment next command
  | call {listener : Text} {payload : π}
      (first : outstanding moment.agenda = (listener, payload) :: outstanding next.agenda)
      (sameState : next.stage.state = moment.stage.state)
      (called : next.stage.calls = moment.stage.calls ++ [⟨listener, payload, moment.stage.state⟩]) :
      Change perform moment next none
  | action {command : Command α} {action : α} {state : σ} {calls : List (Text × π)} {result : ρ}
      (takesPlace : accepted? perform moment.stage.state command = some action)
      (performed : perform moment.stage.state action = .ok (.complete state calls result))
      (newState : next.stage.state = state) (sameCalls : next.stage.calls = moment.stage.calls)
      (added : outstanding next.agenda = calls ++ outstanding moment.agenda) :
      Change perform moment next (some command)
  /-- The action leaves a state behind, and nobody is to be called for it. -/
  | broken {command : Command α} {action : α} {state : σ} (acts : command.action? = some action)
      (performed : perform moment.stage.state action = .ok (.broken state))
      (newState : next.stage.state = state) (sameCalls : next.stage.calls = moment.stage.calls)
      (fewer : outstanding next.agenda <:+ outstanding moment.agenda)
      (kept : command.isFailing perform moment.stage.state = false →
        outstanding next.agenda = outstanding moment.agenda) : Change perform moment next (some command)

theorem bind_accepted?_eq_none {perform : Performer σ α π ε ρ} {state : σ} {command : Option (Command α)}
    (rejected : ∀ obeyed ∈ command, ∀ action ∈ obeyed.action?, ∃ fault, perform state action = .error fault) :
    command.bind (accepted? perform state) = none := by
  refine Option.bind_eq_none_iff.mpr fun obeyed isObeyed => Option.filter_eq_none_iff.mpr fun action acts => ?_
  obtain ⟨fault, failed⟩ := rejected obeyed isObeyed action acts
  simp [completes, failed]

namespace Change

variable {perform : Performer σ α π ε ρ} {moment next : Moment σ α π ε} {command : Command α} {action : α}

theorem of_error (change : Change perform moment next (some command)) (acts : command.action? = some action)
    {fault : ε} (failed : perform moment.stage.state action = .error fault) :
    next.stage.state = moment.stage.state ∧ next.stage.calls = moment.stage.calls ∧
      outstanding next.agenda <:+ outstanding moment.agenda := by
  cases change with
  | quiet _ sameState sameCalls fewer => exact ⟨sameState, sameCalls, fewer⟩
  | action takesPlace performed =>
    cases acts.symm.trans (Option.filter_eq_some_iff.mp takesPlace).1
    cases failed.symm.trans performed
  | broken acts' performed =>
    cases acts.symm.trans acts'
    cases failed.symm.trans performed

theorem of_complete (change : Change perform moment next (some command)) (acts : command.action? = some action)
    {state : σ} {calls : List (Text × π)} {result : ρ}
    (completed : perform moment.stage.state action = .ok (.complete state calls result)) :
    next.stage.state = state ∧ next.stage.calls = moment.stage.calls ∧
      outstanding next.agenda = calls ++ outstanding moment.agenda := by
  cases change with
  | quiet rejected =>
    obtain ⟨fault, failed⟩ := rejected command rfl action acts
    cases completed.symm.trans failed
  | action takesPlace performed newState sameCalls added =>
    cases acts.symm.trans (Option.filter_eq_some_iff.mp takesPlace).1
    cases completed.symm.trans performed
    exact ⟨newState, sameCalls, added⟩
  | broken acts' performed =>
    cases acts.symm.trans acts'
    cases completed.symm.trans performed

theorem of_broken (change : Change perform moment next (some command)) (acts : command.action? = some action)
    {state : σ} (breaks : perform moment.stage.state action = .ok (.broken state)) :
    next.stage.state = state ∧ next.stage.calls = moment.stage.calls ∧
      outstanding next.agenda <:+ outstanding moment.agenda := by
  cases change with
  | quiet rejected =>
    obtain ⟨fault, failed⟩ := rejected command rfl action acts
    cases breaks.symm.trans failed
  | action takesPlace performed =>
    cases acts.symm.trans (Option.filter_eq_some_iff.mp takesPlace).1
    cases breaks.symm.trans performed
  | broken acts' performed newState sameCalls fewer =>
    cases acts.symm.trans acts'
    cases breaks.symm.trans performed
    exact ⟨newState, sameCalls, fewer⟩

end Change

namespace Moment

variable {perform : Performer σ α π ε ρ} {moment : Moment σ α π ε}

theorem stage_fail (moment : Moment σ α π ε) (failure : Failure ε) : (moment.fail failure).stage = moment.stage := by
  unfold fail
  split <;> rfl

theorem outstanding_fail (moment : Moment σ α π ε) (failure : Failure ε) :
    outstanding (moment.fail failure).agenda <:+ outstanding moment.agenda := by
  unfold fail
  split
  · rename_i found
    exact outstanding_behindShield found
  · exact List.nil_suffix

theorem act_of_error {action : α} {fault : ε} (rejected : perform moment.stage.state action = .error fault) :
    moment.act perform action = moment.fail (.fault fault) := by
  simp [act, rejected]

theorem act_of_complete {action : α} {state : σ} {calls : List (Text × π)} {result : ρ}
    (performed : perform moment.stage.state action = .ok (.complete state calls result)) :
    moment.act perform action =
      { moment with
        stage := { moment.stage with state }
        agenda := calls.map (fun (name, payload) => .call name payload) ++ moment.agenda } := by
  simp [act, performed]

theorem act_of_broken {action : α} {state : σ} (performed : perform moment.stage.state action = .ok (.broken state)) :
    moment.act perform action = { moment with stage := { moment.stage with state } }.fail .raised := by
  simp [act, performed]

/-- What comes of an action, before it is known whether a failure has a shield of its own. -/
private theorem change_act {command : Command α} {action : α} (acts : command.action? = some action)
    (kept : completes perform moment.stage.state action = false →
      command.isFailing perform moment.stage.state = false → ∀ (stage : Stage σ α π) (failure : Failure ε),
        outstanding ({ moment with stage }.fail failure).agenda = outstanding moment.agenda) :
    Change perform moment (moment.act perform action) (some command) := by
  cases performed : perform moment.stage.state action with
  | error fault =>
    rw [act_of_error performed]
    refine .quiet ?_ (by rw [stage_fail]) (by rw [stage_fail]) (outstanding_fail moment _) ?_
    · rintro _ ⟨⟩ other acts'
      cases acts.symm.trans acts'
      exact ⟨fault, performed⟩
    · exact fun succeeds => kept (by simp [completes, performed]) (succeeds command rfl) moment.stage _
  | ok effect =>
    cases effect with
    | complete state calls result =>
      rw [act_of_complete performed]
      refine .action ?_ performed rfl rfl ?_
      · simp [accepted?, acts, completes, performed]
      · rw [outstanding_append, outstanding_calls]
    | broken state =>
      rw [act_of_broken performed]
      refine .broken acts performed (by rw [stage_fail]) (by rw [stage_fail]) (outstanding_fail _ _) ?_
      exact fun succeeds => kept (completes_of_broken performed) succeeds _ _

/-- What comes of a command. An attempt has its shield on the agenda, or is made from outside. -/
theorem change_obey (perform : Performer σ α π ε ρ) (moment : Moment σ α π ε) (command : Command α)
    (shielded : ∀ action, command = .attempt action →
      moment.agenda = [] ∨ ∃ rest, moment.agenda = .shield :: rest) :
    Change perform moment (moment.obey perform command) (some command) := by
  cases command with
  | pause => exact .quiet (by rintro _ ⟨⟩ _ ⟨⟩) rfl rfl List.suffix_rfl fun _ => rfl
  | raise =>
    refine .quiet (by rintro _ ⟨⟩ _ ⟨⟩) (by rw [obey, stage_fail]) (by rw [obey, stage_fail])
      (outstanding_fail moment _) fun succeeds => ?_
    cases succeeds _ rfl
  | attempt action =>
    refine change_act rfl fun _ _ stage failure => ?_
    rcases shielded action rfl with idle | ⟨rest, isShield⟩
    · simp [fail, idle, behindShield?]
    · simp [fail, isShield, behindShield?, outstanding]
  | plain action | introduce listener script action =>
    refine change_act rfl fun incomplete succeeds => ?_
    simp [Command.isFailing, incomplete] at succeeds

private theorem failure_obey {command : Command α}
    (shielded : ∀ action, command = .attempt action → ∃ rest, moment.agenda = .shield :: rest)
    (succeeds : command.isFailing perform moment.stage.state = false) :
    (moment.obey perform command).failure = moment.failure := by
  have acts {action : α} (isComplete : completes perform moment.stage.state action = true) :
      (moment.act perform action).failure = moment.failure := by
    obtain ⟨state, calls, result, performed⟩ := completes_iff.mp isComplete
    rw [act_of_complete performed]
  cases command with
  | pause => rfl
  | raise => cases succeeds
  | plain action | introduce listener script action => exact acts (by simpa [Command.isFailing] using succeeds)
  | attempt action =>
    obtain ⟨rest, isShield⟩ := shielded action rfl
    rw [obey]
    cases performed : perform moment.stage.state action with
    | error fault => simp [act_of_error performed, fail, isShield, behindShield?]
    | ok effect =>
      cases effect with
      | complete state calls result => rw [act_of_complete performed]
      | broken state => simp [act_of_broken performed, fail, isShield, behindShield?]

/-- The command that the first task comes to, if it comes to one. -/
def command? (moment : Moment σ α π ε) : Option (Command α) :=
  match moment.agenda with
  | .proceed listener :: _ => (moment.stage.scripts.take? listener).map Prod.fst
  | _ => none

theorem change_next (perform : Performer σ α π ε ρ) :
    ∀ moment : Moment σ α π ε, Change perform moment (moment.next perform) moment.command?
  | ⟨_, [], _⟩ => .quiet nofun rfl rfl List.suffix_rfl fun _ => rfl
  | ⟨_, .call _ _ :: _, _⟩ => .call rfl rfl rfl
  | ⟨_, .shield :: _, _⟩ => .quiet nofun rfl rfl List.suffix_rfl fun _ => rfl
  | ⟨stage, .proceed listener :: rest, failure⟩ => by
    simp only [next, command?]
    cases taken : stage.scripts.take? listener with
    | none => exact .quiet nofun rfl rfl List.suffix_rfl fun _ => rfl
    | some entry =>
      obtain ⟨command, scripts⟩ := entry
      have left : outstanding (command.sequel listener ++ rest) = outstanding (.proceed listener :: rest) := by
        rw [outstanding_append, outstanding_sequel, outstanding, List.nil_append]
      have obeyed := change_obey perform
        ⟨{ stage with scripts := scripts.introduce command }, command.sequel listener ++ rest, failure⟩ command
        fun action attempted => .inr ⟨.proceed listener :: rest, by rw [attempted]; rfl⟩
      cases obeyed with
      | quiet rejected sameState sameCalls fewer kept =>
        exact .quiet rejected sameState sameCalls (left ▸ fewer) (fun succeeds => (kept succeeds).trans left)
      | action takesPlace performed newState sameCalls added =>
        exact .action takesPlace performed newState sameCalls (added.trans (by rw [left]))
      | broken acts performed newState sameCalls fewer kept =>
        exact .broken acts performed newState sameCalls (left ▸ fewer) (fun succeeds => (kept succeeds).trans left)

/-- A run goes on as long as no command breaks off. -/
theorem failure_next (perform : Performer σ α π ε ρ) :
    ∀ moment : Moment σ α π ε, (∀ command ∈ moment.command?, command.isFailing perform moment.stage.state = false) →
      (moment.next perform).failure = moment.failure
  | ⟨_, [], _⟩, _ | ⟨_, .call _ _ :: _, _⟩, _ | ⟨_, .shield :: _, _⟩, _ => rfl
  | ⟨stage, .proceed listener :: rest, failure⟩, succeeds => by
    simp only [next]
    simp only [command?] at succeeds
    cases taken : stage.scripts.take? listener with
    | none => rfl
    | some entry =>
      obtain ⟨command, scripts⟩ := entry
      rw [taken] at succeeds
      refine failure_obey (fun action attempted => ⟨.proceed listener :: rest, ?_⟩) (succeeds command rfl)
      rw [attempted]
      rfl

end Moment

theorem change_enter (perform : Performer σ α π ε ρ) {moment : Moment σ α π ε} (idle : moment.agenda = [])
    (command : Command α) : Change perform moment (enter perform moment.stage command) (some command) := by
  have obeyed := Moment.change_obey perform
    ⟨{ moment.stage with scripts := moment.stage.scripts.introduce command }, [], none⟩ command fun _ _ => .inl rfl
  cases obeyed with
  | quiet rejected sameState sameCalls fewer kept =>
    exact .quiet rejected sameState sameCalls (idle ▸ fewer) (idle ▸ kept)
  | action takesPlace performed newState sameCalls added =>
    exact .action takesPlace performed newState sameCalls (idle ▸ added)
  | broken acts performed newState sameCalls fewer kept =>
    exact .broken acts performed newState sameCalls (idle ▸ fewer) (idle ▸ kept)

theorem failure_enter {perform : Performer σ α π ε ρ} {stage : Stage σ α π} {command : Command α} {action : α}
    (takesPlace : accepted? perform stage.state command = some action) :
    (enter perform stage command).failure = none := by
  obtain ⟨acts, isComplete⟩ := Option.filter_eq_some_iff.mp takesPlace
  obtain ⟨state, calls, result, performed⟩ := completes_iff.mp isComplete
  cases command with
  | pause | raise => cases acts
  | plain _ | introduce _ _ _ | attempt _ =>
    cases acts
    rw [enter, Moment.obey, Moment.act_of_complete performed]

/-- One step, with the command that is obeyed in it: a command from outside, if nothing is left to do, or the first
task on the agenda. -/
inductive Step (perform : Performer σ α π ε ρ) (moment : Moment σ α π ε) :
    Option (Command α) → Moment σ α π ε → Prop
  | enter (idle : moment.agenda = []) (command : Command α) :
      Step perform moment (some command) (Reaction.enter perform moment.stage command)
  | next : Step perform moment moment.command? (moment.next perform)

theorem Step.change {perform : Performer σ α π ε ρ} {moment next : Moment σ α π ε} {command : Option (Command α)}
    (step : Step perform moment command next) : Change perform moment next command := by
  cases step with
  | enter idle command => exact change_enter perform idle command
  | next => exact Moment.change_next perform moment

/-- The moments that any commands from outside lead to, each with the actions that have taken place, in order. -/
inductive Reached (perform : Performer σ α π ε ρ) (start : Stage σ α π) : List α → Moment σ α π ε → Prop
  | start : Reached perform start [] ⟨start, [], none⟩
  | step {done : List α} {moment next : Moment σ α π ε} {command : Option (Command α)}
      (reached : Reached perform start done moment) (step : Step perform moment command next) :
      Reached perform start (done ++ (command.bind (accepted? perform moment.stage.state)).toList) next

namespace Reached

variable {perform : Performer σ α π ε ρ} {start : Stage σ α π} {done : List α} {moment : Moment σ α π ε}

/-- What holds at the start and is kept by every action, also by those that break off, holds throughout. -/
theorem invariant {holds : List α → σ → Prop} (reached : Reached perform start done moment)
    (atStart : holds [] start.state)
    (kept : ∀ {done state action next calls result}, holds done state →
      perform state action = .ok (.complete next calls result) → holds (done ++ [action]) next)
    (keptBroken : ∀ {done state action next}, holds done state → perform state action = .ok (.broken next) →
      holds done next) : holds done moment.stage.state := by
  induction reached with
  | start => exact atStart
  | step reached step ih =>
    cases step.change with
    | quiet rejected sameState =>
      rw [bind_accepted?_eq_none rejected, sameState, Option.toList_none, List.append_nil]
      exact ih
    | call first sameState =>
      rw [sameState, Option.bind_none, Option.toList_none, List.append_nil]
      exact ih
    | action takesPlace performed newState =>
      rw [Option.bind_some, takesPlace, newState, Option.toList_some]
      exact kept ih performed
    | broken acts performed newState =>
      have nothing := accepted?_eq_none acts (completes_of_broken performed)
      rw [Option.bind_some, nothing, newState, Option.toList_none, List.append_nil]
      exact keptBroken ih performed

theorem iterate (reached : Reached perform start done moment) (count : Nat) :
    ∃ more, Reached perform start (done ++ more) ((Moment.next perform)^[count] moment) := by
  induction count with
  | zero => exact ⟨[], by rwa [List.append_nil]⟩
  | succ count ih =>
    obtain ⟨more, ih⟩ := ih
    have onward := ih.step .next
    rw [List.append_assoc] at onward
    rw [Function.iterate_succ_apply']
    exact ⟨_, onward⟩

end Reached

namespace Moment

/-- A run goes on with the first task until none is left. -/
theorem run_eq_iterate (perform : Performer σ α π ε ρ) (moment : Moment σ α π ε) :
    ∃ count, moment.run perform = (next perform)^[count] moment ∧ (moment.run perform).agenda = [] := by
  induction moment using run.induct perform with
  | case1 moment idle =>
    rw [run, if_pos idle]
    exact ⟨0, rfl, List.isEmpty_iff.mp idle⟩
  | case2 moment busy ih =>
    obtain ⟨count, same, ends⟩ := ih
    rw [run, if_neg busy]
    exact ⟨count + 1, by rw [same, Function.iterate_succ_apply], ends⟩

/-- Behind the end of a run nothing happens, so what holds up to there holds throughout. -/
theorem forall_iterate_of_idle (perform : Performer σ α π ε ρ) (moment : Moment σ α π ε) (count : Nat)
    (idle : ((next perform)^[count] moment).agenda = []) (holds : Moment σ α π ε → Prop)
    (early : ∀ earlier < count + 1, holds ((next perform)^[earlier] moment)) (later : Nat) :
    holds ((next perform)^[later] moment) := by
  rcases Nat.lt_or_ge later count with isEarly | late
  · exact early later (Nat.lt_succ_of_lt isEarly)
  · obtain ⟨more, rfl⟩ := Nat.exists_eq_add_of_le' late
    have stays : next perform ((next perform)^[count] moment) = (next perform)^[count] moment := by
      rw [next, idle]
    rw [Function.iterate_add_apply, Function.iterate_fixed stays]
    exact early count (Nat.lt_succ_self count)

end Moment

theorem execute_stage (perform : Performer σ α π ε ρ) (stage : Stage σ α π) (command : Command α) :
    (execute perform stage command).1 = ((enter perform stage command).run perform).stage := by
  simp only [execute]
  split <;> rfl

theorem execute_result (perform : Performer σ α π ε ρ) (stage : Stage σ α π) (command : Command α)
    (unbroken : ((enter perform stage command).run perform).failure = none) :
    (execute perform stage command).2 = .ok (answer? perform stage.state command) := by
  simp only [execute, unbroken]

/-- A command from outside leads to a reached moment with nothing left to do, on the stage that its run ends with. -/
theorem Reached.execute {perform : Performer σ α π ε ρ} {start : Stage σ α π} {done : List α}
    {moment : Moment σ α π ε} (reached : Reached perform start done moment) (idle : moment.agenda = [])
    (command : Command α) :
    ∃ more final, Reached perform start (done ++ more) final ∧ final.agenda = [] ∧
      (execute perform moment.stage command).1 = final.stage := by
  obtain ⟨count, same, ends⟩ := (enter perform moment.stage command).run_eq_iterate perform
  obtain ⟨more, later⟩ := (reached.step (.enter idle command)).iterate count
  rw [List.append_assoc] at later
  exact ⟨_, _, same ▸ later, ends, execute_stage perform moment.stage command⟩

end StaticStyle.Reaction
