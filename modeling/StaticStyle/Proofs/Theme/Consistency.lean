import StaticStyle.Proofs.Reaction.Moment
import StaticStyle.Theme.Store

/-!
The stores at every moment of every run. Whatever listeners do while they are called, also if they replace the theme
again, reset the store or break off, the variables are those of the theme, and the store is initialized exactly if its
theme has been replaced since the last reset. The exception is a theme that has no variables: it becomes active without
anything else being changed.
-/

namespace StaticStyle.Theme

open Reaction (Moment Reached Step outstanding)

/-- Stores that nothing has happened to. `other` is the stem of the process-wide store, if that is another one than the
store in use. -/
def Stores.fresh (stem : Text) (other : Option Text) : Stores := ⟨.empty stem, other.map .empty, []⟩

namespace Action

/-- Whether an action that takes place replaces the theme of the store in use. -/
def replaces (isProcessWide : Bool) : Action → Bool
  | init _ | replace _ => true
  | replaceProcessWide _ => isProcessWide
  | _ => false

/-- The theme that an action makes the active one of a store. -/
def theme? : Action → Option (Fields Value)
  | init theme | replace theme | replaceProcessWide theme => some theme
  | _ => none

def derives : Action → Bool
  | deriveScoped .. | derive .. => true
  | _ => false

end Action

theorem renderVariables_ne_nil (selector : Text) (vars : Fields Text) : renderVariables selector vars ≠ [] := by
  simp [renderVariables, Text.ofString]

namespace Store

theorem rootCss_eq_nil_iff (store : Store) (selector : Text) : store.rootCss selector = [] ↔ store.vars = [] := by
  rw [rootCss]
  split
  · rename_i empty
    exact iff_of_true rfl (List.isEmpty_iff.mp empty)
  · rename_i nonempty
    exact iff_of_false (renderVariables_ne_nil selector store.vars) (mt List.isEmpty_iff.mpr nonempty)

end Store

namespace Stores

/-- What an action that takes place comes to. -/
inductive Outcome (stores : Stores) (action : Action) (next : Stores) (calls : List (Text × Fields Value)) : Prop
  | replaced (theme : Fields Value) (vars : Fields Text)
      (replaces : action.replaces stores.processWide.isNone = true)
      (flattened : makeVariables stores.active.stem theme = .ok vars)
      (state : next = { stores with active := { stores.active with theme, vars, isInitialized := true } })
      (tells : calls = stores.active.listeners.map (·, theme))
  /-- The process-wide store is another one, and its theme is replaced. -/
  | elsewhere (store : Store) (theme : Fields Value) (vars : Fields Text) (other : stores.processWide = some store)
      (isOther : action = .replaceProcessWide theme) (flattened : makeVariables store.stem theme = .ok vars)
      (state : next = { stores with processWide := some { store with theme, vars, isInitialized := true } })
      (tells : calls = store.listeners.map (·, theme))
  | reset (isReset : action = .reset)
      (state : next = { stores with active := .empty stores.active.stem }) (tells : calls = [])
  /-- Neither the theme nor the variables change, and nobody is told. -/
  | kept (isOther : action.replaces stores.processWide.isNone = false) (noReset : action ≠ .reset)
      (listeners : List Text) (active : next.active = { stores.active with listeners })
      (sameProcessWide : next.processWide = stores.processWide)
      (sameListeners : action.derives = true → listeners = stores.active.listeners) (tells : calls = [])

/-- What an action that breaks off leaves behind: its theme, which has no variables, beside all that was there before,
or no change at all. -/
inductive Remainder (stores : Stores) (action : Action) (left : Stores) : Prop
  | replaced (theme : Fields Value) (defect : Defect) (isTheme : action.theme? = some theme)
      (replaces : action.replaces stores.processWide.isNone = true)
      (unflattened : makeVariables stores.active.stem theme = .error defect)
      (state : left = { stores with active := { stores.active with theme } })
  | elsewhere (store : Store) (theme : Fields Value) (defect : Defect) (other : stores.processWide = some store)
      (isOther : action = .replaceProcessWide theme) (unflattened : makeVariables store.stem theme = .error defect)
      (state : left = { stores with processWide := some { store with theme } })
  | derived (derives : action.derives = true) (state : left = stores)

/-- What an action comes to, if it is not rejected. -/
def Comes (stores : Stores) (action : Action) : StoreEffect → Prop
  | .complete next calls _ => Outcome stores action next calls
  | .broken left => Remainder stores action left

theorem announce_of_ok {store : Store} {theme : Fields Value} {vars : Fields Text}
    (flattened : makeVariables store.stem theme = .ok vars) (settle : Store → Stores) :
    announce store theme settle = .complete (settle { store with theme, vars, isInitialized := true })
      (store.listeners.map (·, theme)) (.theme theme) := by
  simp [announce, Store.replace, Store.notifications, flattened]

theorem announce_of_error {store : Store} {theme : Fields Value} {defect : Defect}
    (unflattened : makeVariables store.stem theme = .error defect) (settle : Store → Stores) :
    announce store theme settle = .broken (settle { store with theme }) := by
  simp [announce, Store.replace, unflattened]

theorem comes_replaceActive {stores : Stores} {action : Action} {theme : Fields Value}
    (isTheme : action.theme? = some theme) (replaces : action.replaces stores.processWide.isNone = true) :
    Comes stores action (stores.replaceActive theme) := by
  unfold replaceActive
  cases flattened : makeVariables stores.active.stem theme with
  | ok vars =>
    rw [announce_of_ok flattened]
    exact .replaced theme vars replaces flattened rfl rfl
  | error defect =>
    rw [announce_of_error flattened]
    exact .replaced theme defect isTheme replaces flattened rfl

theorem comes_remember {stores : Stores} {action : Action} (derives : action.derives = true) (name : Text)
    (scope : Except Defect Scope) : Comes stores action (stores.remember name scope) := by
  cases scope with
  | error defect => exact .derived derives rfl
  | ok scope =>
    refine .kept ?_ ?_ _ rfl rfl (fun _ => rfl) rfl
    · cases action <;> first | rfl | cases derives
    · rintro rfl
      cases derives

theorem comes_of_perform {stores : Stores} {action : Action} {effect : StoreEffect}
    (performed : stores.perform action = .ok effect) : Comes stores action effect := by
  cases action with
  | init theme =>
    rw [perform] at performed
    split at performed
    · cases performed
    · cases performed
      exact comes_replaceActive rfl rfl
  | replace theme =>
    cases performed
    exact comes_replaceActive rfl rfl
  | replaceProcessWide theme =>
    rw [perform] at performed
    cases other : stores.processWide with
    | none =>
      simp only [other] at performed
      cases performed
      exact comes_replaceActive rfl (by rw [other]; rfl)
    | some store =>
      simp only [other] at performed
      cases performed
      cases flattened : makeVariables store.stem theme with
      | ok vars =>
        rw [announce_of_ok flattened]
        exact .elsewhere store theme vars other rfl flattened rfl rfl
      | error defect =>
        rw [announce_of_error flattened]
        exact .elsewhere store theme defect other rfl flattened rfl
  | reset =>
    cases performed
    exact .reset rfl rfl rfl
  | subscribe _ | unsubscribe _ | readProcessWide | read | rootCss _ =>
    cases performed
    exact .kept rfl nofun _ rfl rfl nofun rfl
  | deriveScoped name _ _ =>
    cases performed
    exact comes_remember rfl name _
  | derive name _ _ =>
    rw [perform] at performed
    split at performed
    · cases performed
    · cases performed
      exact comes_remember rfl name _
  | scopeCss _ _ =>
    rw [perform] at performed
    split at performed
    · cases performed
    · cases performed
      exact .kept rfl nofun _ rfl rfl nofun rfl

theorem outcome {stores : Stores} {action : Action} {next : Stores} {calls : List (Text × Fields Value)}
    {result : Result} (performed : stores.perform action = .ok (.complete next calls result)) :
    Outcome stores action next calls :=
  comes_of_perform performed

theorem remainder {stores : Stores} {action : Action} {left : Stores}
    (performed : stores.perform action = .ok (.broken left)) : Remainder stores action left :=
  comes_of_perform performed

end Stores

/-- Whether the theme of the store in use has been replaced since the last reset, if any. -/
def IsReplaced (isProcessWide : Bool) (done : List Action) : Prop :=
  ∃ before action after, done = before ++ action :: after ∧ action.replaces isProcessWide = true ∧ .reset ∉ after

theorem isReplaced_append (isProcessWide : Bool) (done : List Action) (last : Action) :
    IsReplaced isProcessWide (done ++ [last]) ↔
      last.replaces isProcessWide = true ∨ last ≠ .reset ∧ IsReplaced isProcessWide done := by
  constructor
  · rintro ⟨before, action, after, same, replaces, noReset⟩
    rcases List.eq_nil_or_concat after with rfl | ⟨between, final, rfl⟩
    · obtain ⟨-, single⟩ := List.append_inj' same rfl
      cases single
      exact .inl replaces
    · rw [List.concat_eq_append] at same noReset
      rw [← List.cons_append, ← List.append_assoc] at same
      obtain ⟨rfl, single⟩ := List.append_inj' same rfl
      cases single
      rw [List.mem_append, List.mem_singleton, not_or] at noReset
      exact .inr ⟨Ne.symm noReset.2, before, action, between, rfl, replaces, noReset.1⟩
  · rintro (replaces | ⟨noReset, before, action, after, rfl, replaces, absent⟩)
    · exact ⟨done, last, [], rfl, replaces, List.not_mem_nil⟩
    · refine ⟨before, action, after ++ [last], by rw [List.append_assoc, List.cons_append], replaces, ?_⟩
      rw [List.mem_append, List.mem_singleton, not_or]
      exact ⟨absent, Ne.symm noReset⟩

namespace Stores

/-- The store in use and the process-wide one, if that is another one. -/
def all (stores : Stores) : List Store := stores.active :: stores.processWide.toList

/-- What holds of the stores after the actions that have taken place. -/
structure Consistent (stem : Text) (isProcessWide : Bool) (done : List Action) (stores : Stores) : Prop where
  stem : stores.active.stem = stem
  processWide : stores.processWide.isNone = isProcessWide
  vars : ∀ store ∈ stores.all, ∀ vars, makeVariables store.stem store.theme = .ok vars → store.vars = vars
  initialized : stores.active.isInitialized = true ↔ IsReplaced isProcessWide done
  /-- Listeners can only subscribe to the store in use. -/
  unheard : ∀ store ∈ stores.processWide, store.listeners = []

theorem consistent_fresh (stem : Text) (other : Option Text) :
    Consistent stem other.isNone [] (fresh stem other) where
  stem := rfl
  processWide := Option.isNone_map
  vars store member vars flattened := by
    rcases List.mem_cons.mp member with rfl | member
    · exact Except.ok.inj flattened
    · obtain ⟨stem, -, rfl⟩ := Option.map_eq_some_iff.mp (Option.mem_toList.mp member)
      exact Except.ok.inj flattened
  initialized := iff_of_false nofun (by simp [IsReplaced])
  unheard store member := by
    obtain ⟨stem, -, rfl⟩ := Option.map_eq_some_iff.mp member
    rfl

theorem consistent_complete {stem : Text} {isProcessWide : Bool} {done : List Action} {stores next : Stores}
    {action : Action} {calls : List (Text × Fields Value)} {result : Result}
    (consistent : Consistent stem isProcessWide done stores)
    (performed : stores.perform action = .ok (.complete next calls result)) :
    Consistent stem isProcessWide (done ++ [action]) next := by
  obtain ⟨sameStem, alone, vars, initialized, unheard⟩ := consistent
  rw [all, List.forall_mem_cons] at vars
  cases outcome performed with
  | replaced theme made replaces flattened state =>
    rw [alone] at replaces
    rw [state]
    refine ⟨sameStem, alone, List.forall_mem_cons.mpr ⟨fun other same => ?_, vars.2⟩, ?_, unheard⟩
    · exact Except.ok.inj (flattened.symm.trans same)
    · exact iff_of_true rfl ((isReplaced_append _ _ _).mpr (.inl replaces))
  | elsewhere store theme made other isOther flattened state =>
    subst isOther
    rw [state]
    rw [other] at alone unheard
    refine ⟨sameStem, alone, ?_, ?_, ?_⟩
    · refine List.forall_mem_cons.mpr ⟨vars.1, List.forall_mem_singleton.mpr fun other same => ?_⟩
      exact Except.ok.inj (flattened.symm.trans same)
    · rw [isReplaced_append, ← initialized, ← alone]
      simp [Action.replaces]
    · simpa using unheard
  | reset isReset state =>
    subst isReset
    rw [state]
    refine ⟨sameStem, alone, List.forall_mem_cons.mpr ⟨fun other same => Except.ok.inj same, vars.2⟩, ?_, unheard⟩
    rw [isReplaced_append]
    simp [Action.replaces, Store.empty]
  | kept isOther noReset listeners active sameProcessWide =>
    rw [alone] at isOther
    refine ⟨?_, ?_, ?_, ?_, ?_⟩
    · rw [active]
      exact sameStem
    · rw [sameProcessWide]
      exact alone
    · rw [all, active, sameProcessWide]
      exact List.forall_mem_cons.mpr vars
    · rw [active, isReplaced_append, ← initialized]
      simp [isOther, noReset]
    · rw [sameProcessWide]
      exact unheard

theorem consistent_broken {stem : Text} {isProcessWide : Bool} {done : List Action} {stores left : Stores}
    {action : Action} (consistent : Consistent stem isProcessWide done stores)
    (performed : stores.perform action = .ok (.broken left)) : Consistent stem isProcessWide done left := by
  obtain ⟨sameStem, alone, vars, initialized, unheard⟩ := consistent
  rw [all, List.forall_mem_cons] at vars
  cases remainder performed with
  | replaced theme defect _ replaces unflattened state =>
    rw [state]
    refine ⟨sameStem, alone, List.forall_mem_cons.mpr ⟨fun other same => ?_, vars.2⟩, initialized, unheard⟩
    rw [unflattened] at same
    cases same
  | elsewhere store theme defect other isOther unflattened state =>
    rw [state]
    rw [other] at alone unheard
    refine ⟨sameStem, alone, ?_, initialized, by simpa using unheard⟩
    refine List.forall_mem_cons.mpr ⟨vars.1, List.forall_mem_singleton.mpr fun other same => ?_⟩
    rw [unflattened] at same
    cases same
  | derived derives state =>
    rw [state]
    exact ⟨sameStem, alone, List.forall_mem_cons.mpr vars, initialized, unheard⟩

theorem consistent_of_reached {stem : Text} {other : Option Text} {scripts : Reaction.Scripts Action}
    {calls : List (Reaction.Call Stores (Fields Value))} {done : List Action}
    {moment : Moment Stores Action (Fields Value) StoreFault}
    (reached : Reached perform ⟨fresh stem other, scripts, calls⟩ done moment) :
    Consistent stem other.isNone done moment.stage.state :=
  reached.invariant (consistent_fresh stem other) consistent_complete consistent_broken

/-- An action that breaks off changes at most the theme of the store in use. -/
theorem Remainder.active {stores left : Stores} {action : Action} (remains : Remainder stores action left) :
    ∃ theme, left.active = { stores.active with theme } := by
  cases remains with
  | replaced theme _ _ _ _ state => exact ⟨theme, by rw [state]⟩
  | elsewhere _ _ _ _ _ _ state => exact ⟨stores.active.theme, by rw [state]⟩
  | derived _ state => exact ⟨stores.active.theme, by rw [state]⟩

/-- Deriving a scope changes no store, whether there are variables for it or not. -/
theorem all_of_derives {moment next : Moment Stores Action (Fields Value) StoreFault}
    {command : Reaction.Command Action} {action : Action} (step : Step perform moment (some command) next)
    (acts : command.action? = some action) (derives : action.derives = true) :
    next.stage.state.all = moment.stage.state.all ∧ next.stage.calls = moment.stage.calls ∧
      outstanding next.agenda <:+ outstanding moment.agenda := by
  have noReplacement {isProcessWide : Bool} : action.replaces isProcessWide = false := by
    cases action <;> first | rfl | cases derives
  cases performed : perform moment.stage.state action with
  | error fault =>
    obtain ⟨state, sameCalls, fewer⟩ := step.change.of_error acts performed
    exact ⟨by rw [state], sameCalls, fewer⟩
  | ok effect =>
    cases effect with
    | complete next' calls result =>
      obtain ⟨newState, sameCalls, added⟩ := step.change.of_complete acts performed
      cases outcome performed with
      | replaced theme vars replaces =>
        rw [noReplacement] at replaces
        cases replaces
      | elsewhere store theme vars other isOther | reset isOther =>
        rw [isOther] at derives
        cases derives
      | kept isOther noReset listeners active sameProcessWide sameListeners tellsNobody =>
        rw [newState, all, active, sameProcessWide, sameListeners derives]
        exact ⟨rfl, sameCalls, by simp [added, tellsNobody]⟩
    | broken left =>
      obtain ⟨newState, sameCalls, fewer⟩ := step.change.of_broken acts performed
      cases remainder performed with
      | replaced theme defect _ replaces =>
        rw [noReplacement] at replaces
        cases replaces
      | elsewhere store theme defect other isOther =>
        rw [isOther] at derives
        cases derives
      | derived _ state => exact ⟨by rw [newState, state], sameCalls, fewer⟩

/-- At every moment of every run, also while listeners act in the middle of being told: the variables of each store are
those of its theme, if this has any, the block of variables is empty exactly if there are none, and the store in use is
initialized exactly if its theme has been replaced since the last reset. A command to initialize it is rejected exactly
if it is initialized, and then it changes nothing and tells nobody. Deriving a scope leaves the stores as they are and
tells nobody, also if there are no variables for it. An action that breaks off leaves at most its theme behind, and
tells nobody. -/
theorem reached_consistent {stem : Text} {other : Option Text} {scripts : Reaction.Scripts Action}
    {calls : List (Reaction.Call Stores (Fields Value))} {done : List Action}
    {moment : Moment Stores Action (Fields Value) StoreFault}
    (reached : Reached perform ⟨fresh stem other, scripts, calls⟩ done moment) :
    moment.stage.state.active.stem = stem ∧
    (∀ store ∈ moment.stage.state.all,
      (∀ vars, makeVariables store.stem store.theme = .ok vars → store.vars = vars) ∧
      ∀ selector, store.rootCss selector = [] ↔ store.vars = []) ∧
    (moment.stage.state.active.isInitialized = true ↔ IsReplaced other.isNone done) ∧
    ∀ {command action next}, Step perform moment (some command) next → command.action? = some action →
      (∀ theme, action = .init theme →
        ((∃ fault, perform moment.stage.state action = .error fault) ↔
          moment.stage.state.active.isInitialized = true)) ∧
      (∀ fault, perform moment.stage.state action = .error fault →
        next.stage.state = moment.stage.state ∧ next.stage.calls = moment.stage.calls ∧
        outstanding next.agenda <:+ outstanding moment.agenda) ∧
      (action.derives = true →
        next.stage.state.all = moment.stage.state.all ∧ next.stage.calls = moment.stage.calls ∧
        outstanding next.agenda <:+ outstanding moment.agenda) ∧
      (∀ left, perform moment.stage.state action = .ok (.broken left) →
        Remainder moment.stage.state action next.stage.state ∧
        next.stage.calls = moment.stage.calls ∧ outstanding next.agenda <:+ outstanding moment.agenda) := by
  have consistent := consistent_of_reached reached
  refine ⟨consistent.stem, fun store member => ⟨consistent.vars store member, store.rootCss_eq_nil_iff⟩,
    consistent.initialized, fun {command action next} step acts => ⟨?_, ?_, all_of_derives step acts, ?_⟩⟩
  · rintro theme rfl
    cases initialized : moment.stage.state.active.isInitialized <;> simp [perform, initialized]
  · exact fun fault failed => step.change.of_error acts failed
  · intro left breaks
    obtain ⟨newState, sameCalls, fewer⟩ := step.change.of_broken acts breaks
    rw [newState]
    exact ⟨remainder breaks, sameCalls, fewer⟩

/-- The first listener replaces the theme while the second one has still to be told about the theme before. -/
theorem reached_consistent_between_listeners :
    let red : Fields Value := [("color", .text "red")]
    let subscribed := Reaction.enter perform ⟨fresh "--theme" none, [], []⟩
      (.introduce "first" [.plain (.replace [])] (.subscribe "first"))
    let both := Reaction.enter perform subscribed.stage (.plain (.subscribe "second"))
    let moment := (Reaction.enter perform both.stage (.plain (.init red))).next perform |>.next perform
    outstanding moment.agenda = ([("first", []), ("second", []), ("second", red)] : Fields (Fields Value)) ∧
      moment.stage.state.active.vars = flatten "--theme" moment.stage.state.active.theme ∧
      IsReplaced true [.subscribe "first", .subscribe "second", .init red, .replace []] := by
  intro red subscribed both moment
  have idle : Reached perform _ _ both := (Reached.start.step (.enter rfl _)).step (.enter rfl _)
  have reached : Reached perform _ _ moment := ((idle.step (.enter rfl _)).step .next).step .next
  obtain ⟨-, vars, initialized, -⟩ := reached_consistent reached
  exact ⟨rfl, (vars _ List.mem_cons_self).1 _ rfl, initialized.mp rfl⟩

/-- A theme without variables becomes active beside the variables of the theme before, and nobody is told. -/
theorem perform_replace_of_error {stores : Stores} {theme : Fields Value} {defect : Defect}
    (unflattened : makeVariables stores.active.stem theme = .error defect) :
    stores.perform (.replace theme) = .ok (.broken { stores with active := { stores.active with theme } }) := by
  rw [perform, replaceActive, announce_of_error unflattened]

end Stores

end StaticStyle.Theme
