import StaticStyle.Reaction.Script

/-!
The run of listeners. What is still to be done stands on an agenda, the next task first. An action
puts the calls of its listeners in front of the agenda, so a listener's call is finished before the
next listener is called. A failure clears the agenda, down to the nearest attempt if there is one.
-/

namespace StaticStyle.Reaction

/-- What an action leads to. -/
inductive Effect (σ π ρ : Type) where
  /-- A state, the listeners to call with what they receive, and a result. -/
  | complete (state : σ) (calls : List (Text × π)) (result : ρ)
  /-- The action breaks off, and leaves a state behind. -/
  | broken (state : σ)

def Effect.result? {σ π ρ : Type} : Effect σ π ρ → Option ρ
  | complete _ _ result => some result
  | broken _ => none

/-- How actions of a kind take place. -/
abbrev Performer (σ α π ε ρ : Type) := σ → α → Except ε (Effect σ π ρ)

/-- A listener that was called, what it received, and the state at that moment. -/
structure Call (σ π : Type) where
  listener : Text
  payload : π
  state : σ
deriving Repr

inductive Failure (ε : Type) where
  | fault (fault : ε)
  /-- A listener or an action broke off. -/
  | raised
deriving Repr

/-- The state, the scripts of the listeners, and the calls so far. -/
structure Stage (σ α π : Type) where
  state : σ
  scripts : Scripts α
  calls : List (Call σ π)

inductive Task (π : Type) where
  | call (listener : Text) (payload : π)
  /-- Goes on with the script of a listener that has been called. -/
  | proceed (listener : Text)
  /-- The end of an attempt. A failure that gets here goes no further. -/
  | shield

/-- A call is two tasks, the call itself and its script. -/
def agendaSize {π : Type} : List (Task π) → Nat
  | [] => 0
  | .call _ _ :: rest => 2 + agendaSize rest
  | .proceed _ :: rest => 1 + agendaSize rest
  | .shield :: rest => 1 + agendaSize rest

/-- A moment of a run: the stage, the tasks that are left, and the failure that has ended the run. -/
structure Moment (σ α π ε : Type) where
  stage : Stage σ α π
  agenda : List (Task π)
  failure : Option (Failure ε)

variable {σ α π ε ρ : Type}

/-- The tasks behind the nearest attempt. -/
def behindShield? : List (Task π) → Option (List (Task π))
  | [] => none
  | .shield :: rest => some rest
  | _ :: rest => behindShield? rest

/-- What a listener still has to do behind a command, unless that fails. -/
def Command.sequel (listener : Text) : Command α → List (Task π)
  | .pause => []
  | .attempt _ => [.shield, .proceed listener]
  | _ => [.proceed listener]

namespace Moment

/-- A failure goes as far as the nearest attempt, or it ends the run. -/
def fail (moment : Moment σ α π ε) (failure : Failure ε) : Moment σ α π ε :=
  match behindShield? moment.agenda with
  | some agenda => { moment with agenda }
  | none => { moment with agenda := [], failure := some failure }

/-- Lets an action take place, and puts the calls that it leads to in front of the agenda. -/
def act (perform : Performer σ α π ε ρ) (moment : Moment σ α π ε) (action : α) : Moment σ α π ε :=
  match perform moment.stage.state action with
  | .error fault => moment.fail (.fault fault)
  | .ok (.broken state) => { moment with stage := { moment.stage with state } }.fail .raised
  | .ok (.complete state calls _) =>
    { moment with
      stage := { moment.stage with state }
      agenda := calls.map (fun (name, payload) => .call name payload) ++ moment.agenda }

/-- Obeys a command. What comes behind the command stands on the agenda already. -/
def obey (perform : Performer σ α π ε ρ) (moment : Moment σ α π ε) : Command α → Moment σ α π ε
  | .plain action | .introduce _ _ action | .attempt action => moment.act perform action
  | .pause => moment
  | .raise => moment.fail .raised

/-- The moment behind the first task on the agenda. -/
def next (perform : Performer σ α π ε ρ) (moment : Moment σ α π ε) : Moment σ α π ε :=
  match moment.agenda with
  | [] => moment
  | .call listener payload :: rest =>
    let calls := moment.stage.calls ++ [⟨listener, payload, moment.stage.state⟩]
    { moment with stage := { moment.stage with calls }, agenda := .proceed listener :: rest }
  | .shield :: rest => { moment with agenda := rest }
  | .proceed listener :: rest =>
    match moment.stage.scripts.take? listener with
    | none => { moment with agenda := rest }
    | some (command, scripts) =>
      let stage := { moment.stage with scripts := scripts.introduce command }
      { moment with stage, agenda := command.sequel listener ++ rest }.obey perform command

theorem scripts_fail (moment : Moment σ α π ε) (failure : Failure ε) :
    (moment.fail failure).stage.scripts = moment.stage.scripts := by
  unfold fail
  split <;> rfl

theorem scripts_obey (perform : Performer σ α π ε ρ) (moment : Moment σ α π ε) (command : Command α) :
    (moment.obey perform command).stage.scripts = moment.stage.scripts := by
  have acted (action : α) : (moment.act perform action).stage.scripts = moment.stage.scripts := by
    unfold act
    split
    · exact scripts_fail moment _
    · exact scripts_fail _ _
    · rfl
  cases command with
  | pause => rfl
  | raise => exact scripts_fail moment _
  | _ => exact acted _

/-- Each task either takes a command out of the scripts or leaves a smaller agenda. -/
theorem next_lt (perform : Performer σ α π ε ρ) {moment : Moment σ α π ε}
    (isBusy : ¬moment.agenda.isEmpty = true) :
    Prod.Lex (· < ·) (· < ·)
      ((moment.next perform).stage.scripts.size, agendaSize (moment.next perform).agenda)
      (moment.stage.scripts.size, agendaSize moment.agenda) := by
  unfold next
  split
  · rename_i nothing
    simp [nothing] at isBusy
  · rename_i isCall
    rw [isCall]
    exact .right _ (by simp [agendaSize])
  · rename_i isShield
    rw [isShield]
    exact .right _ (by simp [agendaSize])
  · rename_i listener rest proceeds
    split
    · rw [proceeds]
      exact .right _ (by simp [agendaSize])
    · rename_i command scripts taken
      rw [scripts_obey]
      exact .left _ _ (Scripts.size_run_lt listener moment.stage.scripts taken)

/-- Does the tasks of the agenda, up to a failure. -/
def run (perform : Performer σ α π ε ρ) (moment : Moment σ α π ε) : Moment σ α π ε :=
  if moment.agenda.isEmpty then moment else run perform (moment.next perform)
termination_by (moment.stage.scripts.size, agendaSize moment.agenda)
decreasing_by exact next_lt perform ‹_›

end Moment

/-- The moment behind a command from outside, before any listener is called. -/
def enter (perform : Performer σ α π ε ρ) (stage : Stage σ α π) (command : Command α) :
    Moment σ α π ε :=
  (⟨{ stage with scripts := stage.scripts.introduce command }, [], none⟩ : Moment σ α π ε).obey
    perform command

/-- The result of the action of a command, if it takes place. -/
def answer? (perform : Performer σ α π ε ρ) (state : σ) (command : Command α) : Option ρ :=
  command.action?.bind fun action => (perform state action).toOption.bind Effect.result?

/-- Runs one command from outside, with everything its listeners do. A command without an action has
no result. -/
def execute (perform : Performer σ α π ε ρ) (stage : Stage σ α π) (command : Command α) :
    Stage σ α π × Except (Failure ε) (Option ρ) :=
  let final := (enter perform stage command).run perform
  match final.failure with
  | some failure => (final.stage, .error failure)
  | none => (final.stage, .ok (answer? perform stage.state command))

end StaticStyle.Reaction
