import Mathlib.Tactic.IntervalCases
import StaticStyle.Proofs.Theme.Consistency

/-!
What listeners are told. A listener that replaces the theme while others have still to be told about the one before
makes them hear of the old theme last. Where listeners replace the theme only when nobody is left to be told, every
listener is told the theme that is active, and a listener that stays subscribed is told that theme last.
-/

namespace StaticStyle.Theme

open Reaction (Moment Reached accepted? outstanding)

/-- What a listener was told last. -/
def lastTold (listener : Text) (calls : List (Reaction.Call Stores (Fields Value))) : Option (Fields Value) :=
  (calls.filter fun call => call.listener = listener).getLast?.map Reaction.Call.payload

theorem lastTold_append_self (calls : List (Reaction.Call Stores (Fields Value)))
    (call : Reaction.Call Stores (Fields Value)) : lastTold call.listener (calls ++ [call]) = some call.payload := by
  simp [lastTold, List.filter_append]

theorem lastTold_append_of_ne {listener : Text} {call : Reaction.Call Stores (Fields Value)}
    (another : call.listener ≠ listener) (calls : List (Reaction.Call Stores (Fields Value))) :
    lastTold listener (calls ++ [call]) = lastTold listener calls := by
  simp [lastTold, List.filter_append, another]

namespace Stores

variable {stem : Text} {other : Option Text} {moment : Moment Stores Action (Fields Value) StoreFault}

/-- Whether the next step of a run breaks nothing off, and changes the theme only by an action that takes place when
nobody is left to be told. -/
structure IsOrderly (moment : Moment Stores Action (Fields Value) StoreFault) : Prop where
  unbroken : ∀ command ∈ moment.command?, command.isFailing perform moment.stage.state = false
  settled : (moment.next perform).stage.state.active.theme = moment.stage.state.active.theme ∨
    outstanding moment.agenda = [] ∧
      (moment.command?.bind (accepted? perform moment.stage.state)).isSome = true

/-- Whether a theme is the active one, and the variables are its own. -/
def IsActive (stem : Text) (stores : Stores) (theme : Fields Value) : Prop :=
  theme = stores.active.theme ∧ makeVariables stem theme = .ok stores.active.vars

/-- Whether the listeners in `stays` have been told the active theme, by the calls `told`, or will be told it. -/
structure Delivers (stem : Text) (stays : Text → Prop) (told : List (Reaction.Call Stores (Fields Value)))
    (moment : Moment Stores Action (Fields Value) StoreFault) : Prop where
  atMoment : ∀ call ∈ told, IsActive stem call.state call.payload
  upcoming : ∀ call ∈ outstanding moment.agenda, IsActive stem moment.stage.state call.2
  reaches : ∀ listener, stays listener → listener ∈ (outstanding moment.agenda).map Prod.fst ∨
    lastTold listener told = some moment.stage.state.active.theme

/-- Behind a replacement every listener has still to be told. -/
theorem delivers_of_replaced {stays : Text → Prop} {told : List (Reaction.Call Stores (Fields Value))}
    {next : Moment Stores Action (Fields Value) StoreFault} {left : List (Text × Fields Value)} {theme : Fields Value}
    (atMoment : ∀ call ∈ told, IsActive stem call.state call.payload) (isActive : IsActive stem next.stage.state theme)
    (before : ∀ call ∈ left, call.2 = theme)
    (added : outstanding next.agenda = next.stage.state.active.listeners.map (·, theme) ++ left)
    (stay : ∀ listener, stays listener → listener ∈ next.stage.state.active.listeners) :
    Delivers stem stays told next := by
  refine ⟨atMoment, fun call member => ?_, fun listener stays => .inl ?_⟩
  · have isTheme : call.2 = theme := by
      rcases List.mem_append.mp (added ▸ member) with isNew | isOld
      · obtain ⟨listener, -, rfl⟩ := List.mem_map.mp isNew
        rfl
      · exact before call isOld
    rwa [isTheme]
  · rw [added, List.map_append, List.map_map]
    exact List.mem_append_left _ (List.mem_map.mpr ⟨listener, stay listener stays, rfl⟩)

/-- An action that takes place when nobody is left to be told, or that keeps the theme. -/
theorem Delivers.action {done : List Action} {stays : Text → Prop}
    {told : List (Reaction.Call Stores (Fields Value))} {next : Moment Stores Action (Fields Value) StoreFault}
    {action : Action} {state : Stores} {calls : List (Text × Fields Value)} {result : Result}
    (delivers : Delivers stem stays told moment) (consistent : Consistent stem other.isNone done moment.stage.state)
    (performed : perform moment.stage.state action = .ok (.complete state calls result))
    (newState : next.stage.state = state) (added : outstanding next.agenda = calls ++ outstanding moment.agenda)
    (settled : outstanding moment.agenda = [] ∨
      next.stage.state.active.theme = moment.stage.state.active.theme)
    (stay : ∀ listener, stays listener → listener ∈ next.stage.state.active.listeners) :
    Delivers stem stays told next := by
  obtain ⟨atMoment, upcoming, reaches⟩ := delivers
  subst newState
  cases outcome performed with
  | replaced theme vars replaces flattened isState tells =>
    rw [consistent.stem] at flattened
    rw [tells] at added
    rw [isState] at settled
    have isActive : IsActive stem next.stage.state theme := by
      rw [isState]
      exact ⟨rfl, flattened⟩
    refine delivers_of_replaced atMoment isActive ?_ (by rw [added, isState]) stay
    rcases settled with nobody | same
    · simp [nobody]
    · exact fun call member => (upcoming call member).1.trans same.symm
  | elsewhere store theme vars isOther _ _ isState tells =>
    rw [tells, consistent.unheard store isOther, List.map_nil, List.nil_append] at added
    exact ⟨atMoment, by rwa [added, isState], by rwa [added, isState]⟩
  | reset isReset isState tells =>
    rw [isState] at settled
    rw [isState] at stay
    rw [tells, List.nil_append] at added
    refine ⟨atMoment, fun call member => ?_, fun listener stays => absurd (stay listener stays) List.not_mem_nil⟩
    rw [added] at member
    have isEmpty : call.2 = [] := by
      rcases settled with nobody | same
      · rw [nobody] at member
        cases member
      · exact (upcoming call member).1.trans same.symm
    rw [isEmpty, isState]
    exact ⟨rfl, rfl⟩
  | kept isOther noReset listeners active sameProcessWide sameListeners tells =>
    rw [tells, List.nil_append] at added
    exact ⟨atMoment, by simpa only [added, IsActive, active] using upcoming, by rwa [added, active]⟩

/-- An action that breaks off and keeps the theme. -/
theorem Delivers.broken {stays : Text → Prop} {told : List (Reaction.Call Stores (Fields Value))}
    {next : Moment Stores Action (Fields Value) StoreFault} {action : Action} {left : Stores}
    (delivers : Delivers stem stays told moment) (performed : perform moment.stage.state action = .ok (.broken left))
    (newState : next.stage.state = left) (same : next.stage.state.active.theme = moment.stage.state.active.theme)
    (sameAgenda : outstanding next.agenda = outstanding moment.agenda) : Delivers stem stays told next := by
  obtain ⟨atMoment, upcoming, reaches⟩ := delivers
  obtain ⟨theme, behindTheme⟩ := (remainder performed).active
  rw [newState, behindTheme] at same
  have active : next.stage.state.active = moment.stage.state.active := by
    rw [newState, behindTheme, show theme = moment.stage.state.active.theme from same]
  exact ⟨atMoment, by simpa only [sameAgenda, IsActive, active] using upcoming, by rwa [sameAgenda, active]⟩

/-- A listener is told the active theme. -/
theorem Delivers.call {stays : Text → Prop} {told : List (Reaction.Call Stores (Fields Value))}
    {next : Moment Stores Action (Fields Value) StoreFault} {listener : Text} {payload : Fields Value}
    (delivers : Delivers stem stays told moment)
    (first : outstanding moment.agenda = (listener, payload) :: outstanding next.agenda)
    (sameState : next.stage.state = moment.stage.state) :
    Delivers stem stays (told ++ [⟨listener, payload, moment.stage.state⟩]) next := by
  obtain ⟨atMoment, upcoming, reaches⟩ := delivers
  rw [first] at reaches
  obtain ⟨isActive, upcoming⟩ := List.forall_mem_cons.mp (first ▸ upcoming)
  refine ⟨List.forall_mem_append.mpr ⟨atMoment, List.forall_mem_singleton.mpr isActive⟩, by rwa [sameState],
    fun stayer stays => ?_⟩
  rw [sameState]
  by_cases isCalled : listener = stayer
  · subst isCalled
    exact .inr ((lastTold_append_self told ⟨listener, payload, _⟩).trans (congrArg some isActive.1))
  · rw [lastTold_append_of_ne isCalled]
    refine (reaches stayer stays).imp_left fun member => ?_
    exact (List.mem_cons.mp member).resolve_left (Ne.symm isCalled)

/-- One orderly step. -/
theorem Delivers.next {done : List Action} {stays : Text → Prop}
    {told : List (Reaction.Call Stores (Fields Value))} (delivers : Delivers stem stays told moment)
    (consistent : Consistent stem other.isNone done moment.stage.state) (orderly : IsOrderly moment)
    (stay : ∀ listener, stays listener → listener ∈ (moment.next perform).stage.state.active.listeners) :
    ∃ more, (moment.next perform).stage.calls = moment.stage.calls ++ more ∧
      Delivers stem stays (told ++ more) (moment.next perform) := by
  have change := moment.change_next perform
  obtain ⟨unbroken, settled⟩ := orderly
  generalize moment.command? = command at change unbroken settled
  cases change with
  | quiet rejected sameState sameCalls fewer kept =>
    refine ⟨[], by rw [sameCalls, List.append_nil], ?_⟩
    rw [List.append_nil]
    obtain ⟨atMoment, upcoming, reaches⟩ := delivers
    have left := kept unbroken
    exact ⟨atMoment, by rwa [left, sameState], by rwa [left, sameState]⟩
  | @call listener payload first sameState called =>
    refine ⟨[⟨listener, payload, moment.stage.state⟩], called, ?_⟩
    exact delivers.call first sameState
  | action takesPlace performed newState sameCalls added =>
    refine ⟨[], by rw [sameCalls, List.append_nil], ?_⟩
    rw [List.append_nil]
    exact delivers.action consistent performed newState added (settled.symm.imp_left And.left) stay
  | broken acts performed newState sameCalls fewer kept =>
    refine ⟨[], by rw [sameCalls, List.append_nil], ?_⟩
    rw [List.append_nil]
    have incomplete := Reaction.accepted?_eq_none acts (Reaction.completes_of_broken performed)
    refine delivers.broken performed newState (settled.resolve_right fun complete => ?_) (kept (unbroken _ rfl))
    rw [Option.bind_some, incomplete] at complete
    cases complete.2

/-- Behind a command that replaces the active theme every listener has still to be told. -/
theorem delivers_enter {done : List Action} (stays : Text → Prop)
    (consistent : Consistent stem other.isNone done moment.stage.state) (idle : moment.agenda = [])
    {command : Reaction.Command Action} {action : Action}
    (takesPlace : accepted? perform moment.stage.state command = some action)
    (replaces : action.replaces other.isNone = true)
    (stay : ∀ listener, stays listener →
      listener ∈ (Reaction.enter perform moment.stage command).stage.state.active.listeners) :
    (Reaction.enter perform moment.stage command).stage.calls = moment.stage.calls ∧
      Delivers stem stays [] (Reaction.enter perform moment.stage command) := by
  obtain ⟨acts, isComplete⟩ := Option.filter_eq_some_iff.mp takesPlace
  obtain ⟨state, calls, result, performed⟩ := Reaction.completes_iff.mp isComplete
  obtain ⟨newState, sameCalls, added⟩ := (Reaction.change_enter perform idle command).of_complete acts performed
  refine ⟨sameCalls, ?_⟩
  rw [← consistent.processWide] at replaces
  subst newState
  cases outcome performed with
  | replaced theme vars _ flattened isState tells =>
    rw [consistent.stem] at flattened
    rw [tells, idle] at added
    refine delivers_of_replaced (List.forall_mem_nil _) ?_ (List.forall_mem_nil _) (by rw [isState]; exact added) stay
    rw [isState]
    exact ⟨rfl, flattened⟩
  | elsewhere store theme vars isOther isElsewhere =>
    rw [isElsewhere, isOther] at replaces
    cases replaces
  | reset isReset =>
    rw [isReset] at replaces
    cases replaces
  | kept isOther =>
    rw [replaces] at isOther
    cases isOther

/-- Orderly steps behind a moment at which nothing has been told yet. -/
theorem Delivers.iterate {scripts : Reaction.Scripts Action} {calls : List (Reaction.Call Stores (Fields Value))}
    {done : List Action} {stays : Text → Prop} (delivers : Delivers stem stays [] moment)
    (reached : Reached perform ⟨fresh stem other, scripts, calls⟩ done moment) (unbroken : moment.failure = none)
    (orderly : ∀ count, IsOrderly ((Moment.next perform)^[count] moment))
    (stay : ∀ listener, stays listener → ∀ count,
      listener ∈ ((Moment.next perform)^[count] moment).stage.state.active.listeners) (count : Nat) :
    ∃ told, ((Moment.next perform)^[count] moment).stage.calls = moment.stage.calls ++ told ∧
      Delivers stem stays told ((Moment.next perform)^[count] moment) ∧
      ((Moment.next perform)^[count] moment).failure = none := by
  induction count with
  | zero => exact ⟨[], (List.append_nil _).symm, delivers, unbroken⟩
  | succ count ih =>
    obtain ⟨told, sameCalls, delivers, unbroken⟩ := ih
    obtain ⟨_, reachedNow⟩ := reached.iterate count
    have orderlyNow := orderly count
    have stayNow (listener : Text) (stays : stays listener) := stay listener stays (count + 1)
    simp only [Function.iterate_succ_apply'] at stayNow ⊢
    obtain ⟨more, called, delivers⟩ := delivers.next (consistent_of_reached reachedNow) orderlyNow stayNow
    refine ⟨told ++ more, by rw [called, sameCalls, List.append_assoc], delivers, ?_⟩
    rw [Moment.failure_next perform _ orderlyNow.unbroken, unbroken]

/-- A command that replaces the active theme, with everything that its listeners do: if each step is orderly, the
run comes to an end with the result of the command, each listener is told the theme that is active at that moment, and
each that is subscribed throughout was told the theme last that is active in the end. -/
theorem execute_delivers_active_theme {scripts : Reaction.Scripts Action}
    {calls : List (Reaction.Call Stores (Fields Value))} {done : List Action}
    (reached : Reached perform ⟨fresh stem other, scripts, calls⟩ done moment) (idle : moment.agenda = [])
    (command : Reaction.Command Action) {action : Action}
    (takesPlace : accepted? perform moment.stage.state command = some action)
    (replaces : action.replaces other.isNone = true)
    (orderly : ∀ count, IsOrderly ((Moment.next perform)^[count] (Reaction.enter perform moment.stage command))) :
    let final := (Reaction.execute perform moment.stage command).1
    (Reaction.execute perform moment.stage command).2 =
      .ok (Reaction.answer? perform moment.stage.state command) ∧
    ∃ told, final.calls = moment.stage.calls ++ told ∧
      (∀ call ∈ told, call.payload = call.state.active.theme ∧
        makeVariables stem call.payload = .ok call.state.active.vars) ∧
      ∀ listener,
        (∀ count, listener ∈ ((Moment.next perform)^[count]
          (Reaction.enter perform moment.stage command)).stage.state.active.listeners) →
        lastTold listener told = some final.state.active.theme := by
  intro final
  have reachedEntered := reached.step (.enter idle command)
  generalize isEntered : Reaction.enter perform moment.stage command = entered at orderly reachedEntered ⊢
  let stays (listener : Text) : Prop :=
    ∀ count, listener ∈ ((Moment.next perform)^[count] entered).stage.state.active.listeners
  obtain ⟨calledBefore, delivers⟩ := delivers_enter stays (consistent_of_reached reached) idle takesPlace replaces
    fun listener stays => isEntered ▸ stays 0
  have unbroken := Reaction.failure_enter takesPlace
  rw [isEntered] at calledBefore delivers unbroken
  obtain ⟨count, isFinal, ends⟩ := entered.run_eq_iterate perform
  obtain ⟨told, sameCalls, delivers, unbroken⟩ :=
    delivers.iterate reachedEntered unbroken orderly (fun _ stays => stays) count
  rw [← isFinal] at sameCalls delivers unbroken
  have sameStage : final = (entered.run perform).stage := by
    rw [← isEntered]
    exact Reaction.execute_stage perform moment.stage command
  rw [sameStage, ← calledBefore]
  refine ⟨Reaction.execute_result perform _ _ (by rwa [isEntered]), told, sameCalls, delivers.atMoment,
    fun listener stays => ?_⟩
  have reaches := delivers.reaches listener stays
  rw [ends] at reaches
  exact reaches.resolve_left List.not_mem_nil

/-- Two listeners with their scripts, before the theme is first replaced. -/
def listening (first second : List (Reaction.Command Action)) : Moment Stores Action (Fields Value) StoreFault :=
  let one := Reaction.enter perform ⟨fresh "--theme" none, [], []⟩ (.introduce "first" first (.subscribe "first"))
  Reaction.enter perform one.stage (.introduce "second" second (.subscribe "second"))

/-- The same listeners when the theme has been replaced, before any of them is told. -/
def listeningToRed (first second : List (Reaction.Command Action)) :
    Moment Stores Action (Fields Value) StoreFault :=
  Reaction.enter perform (listening first second).stage (.plain (.init [("color", .text "red")]))

/-- The second listener replaces the theme once more when it is told, and nobody is left to be told then. -/
theorem execute_delivers_active_theme_twice :
    let final := (Reaction.execute perform (listening [] [.plain (.replace [])]).stage
      (.plain (.init [("color", .text "red")]))).1
    ∃ told, final.calls = told ∧ lastTold "first" told = some final.state.active.theme ∧
      lastTold "second" told = some final.state.active.theme := by
  intro final
  have reached : Reached perform _ _ (listening [] [.plain (.replace [])]) :=
    (Reached.start.step (.enter rfl _)).step (.enter rfl _)
  have orderly := Moment.forall_iterate_of_idle perform (listeningToRed [] [.plain (.replace [])]) 9 rfl
    IsOrderly fun count isEarly => by
      refine ⟨fun command isNext => ?_, ?_⟩
      · interval_cases count <;> cases isNext
        rfl
      · interval_cases count <;> first | exact .inl rfl | exact .inr ⟨rfl, rfl⟩
  have subscribed (listener : Text) (isOne : listener ∈ (["first", "second"] : List Text)) :=
    Moment.forall_iterate_of_idle perform (listeningToRed [] [.plain (.replace [])]) 9 rfl
      (fun moment => listener ∈ moment.stage.state.active.listeners) fun count isEarly => by
        interval_cases count <;> exact isOne
  obtain ⟨-, told, called, -, last⟩ := execute_delivers_active_theme reached rfl _ rfl rfl orderly
  exact ⟨told, called, last _ (subscribed _ List.mem_cons_self),
    last _ (subscribed _ (List.mem_cons_of_mem _ List.mem_cons_self))⟩

/-- Not so if the first listener replaces the theme: what the second one is told last is the theme before. -/
example :
    let final := (Moment.next perform)^[9] (listeningToRed [.plain (.replace [])] [])
    final.agenda = [] ∧ final.stage.state.active.theme = [] ∧
      lastTold "second" final.stage.calls = some ([("color", .text "red")] : Fields Value) :=
  ⟨rfl, rfl, rfl⟩

end Stores

end StaticStyle.Theme
