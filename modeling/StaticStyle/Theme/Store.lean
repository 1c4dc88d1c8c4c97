import StaticStyle.Notice
import StaticStyle.Reaction.Agenda
import StaticStyle.Theme.Flatten
import StaticStyle.Theme.Merge

/-!
The active theme and its variables. Listeners are called whenever the theme is replaced, in the order
in which they subscribed. A theme becomes active before its variables are made, so one that has none
stays beside the variables of the theme before. Scopes are themes derived from another one; they are
values of their own.
-/

namespace StaticStyle.Theme

/-- The theme that is active, its variables, and who is told about changes. -/
structure Store where
  stem : Text
  theme : Fields Value
  vars : Fields Text
  listeners : List Text
  isInitialized : Bool
deriving Repr

namespace Store

def empty (stem : Text) : Store := ⟨stem, [], [], [], false⟩

/-- The store with another active theme, and the variables of this theme if it has some. -/
def replace (store : Store) (theme : Fields Value) : Store :=
  match makeVariables store.stem theme with
  | .ok vars => { store with theme, vars, isInitialized := true }
  | .error _ => { store with theme }

/-- The calls that tell the listeners about the active theme. -/
def notifications (store : Store) : List (Text × Fields Value) :=
  store.listeners.map fun listener => (listener, store.theme)

/-- The variables as a block, or nothing if there are none. -/
def rootCss (store : Store) (selector : Text) : Text :=
  if store.vars.isEmpty then [] else renderVariables selector store.vars

/-- The note that the active theme was replaced. -/
def notice (store : Store) : Notice :=
  ⟨.debug, .theme,
    "Theme replaced: " ++ Text.ofNat store.vars.length ++ " variables"⟩

/-- A store in one line. -/
def summary (store : Store) : Text :=
  "ThemeStore(variables=" ++ Text.ofNat store.vars.length ++ ", listeners=" ++
    Text.ofNat store.listeners.length ++ ")"

end Store

/-- A derived theme and its variables. -/
structure Scope where
  value : Fields Value
  vars : Fields Text
  stem : Text
deriving Repr

namespace Scope

def derive (stem : Text) (parent override : Fields Value) : Except Defect Scope :=
  let value := merge parent override
  (makeVariables stem value).map fun vars => ⟨value, vars, stem⟩

def css (scope : Scope) (selector : Text) : Text := renderVariables selector scope.vars

end Scope

/-- The store in use, the store of the whole process if it is another one, and the scopes by name. -/
structure Stores where
  active : Store
  processWide : Option Store
  scopes : Fields Scope
deriving Repr

inductive Action where
  | init (theme : Fields Value)
  | replace (theme : Fields Value)
  | replaceProcessWide (theme : Fields Value)
  | readProcessWide
  | read
  | rootCss (selector : Text)
  | subscribe (listener : Text)
  | unsubscribe (listener : Text)
  | reset
  /-- Derives a scope from a given parent or from the active theme. -/
  | deriveScoped (scope : Text) (override : Fields Value) (parent : Option (Fields Value))
  /-- Derives a scope from another one. -/
  | derive (scope source : Text) (override : Fields Value)
  | scopeCss (scope selector : Text)
deriving Repr

inductive Result where
  | nothing
  | theme (theme : Fields Value)
  | css (text : Text)
  | scope (scope : Scope)
deriving Repr

inductive StoreFault where
  | alreadyInitialized
  | unknownScope
deriving DecidableEq, Repr

def StoreFault.message : StoreFault → Text
  | alreadyInitialized => "Theme store is already initialized; use set_theme()"
  | unknownScope => "There is no scope of this name"

abbrev StoreEffect := Reaction.Effect Stores (Fields Value) Result

namespace Stores

def answer (stores : Stores) (result : Result) : StoreEffect := .complete stores [] result

/-- Replaces the theme of a store and tells its listeners. Nobody is told of a theme without variables. -/
def announce (store : Store) (theme : Fields Value) (settle : Store → Stores) : StoreEffect :=
  let replaced := store.replace theme
  match makeVariables store.stem theme with
  | .ok _ => .complete (settle replaced) replaced.notifications (.theme theme)
  | .error _ => .broken (settle replaced)

def replaceActive (stores : Stores) (theme : Fields Value) : StoreEffect :=
  announce stores.active theme fun active => { stores with active }

/-- Remembers a scope, if it could be derived. -/
def remember (stores : Stores) (name : Text) : Except Defect Scope → StoreEffect
  | .ok scope => .complete { stores with scopes := stores.scopes.put name scope } [] (.scope scope)
  | .error _ => .broken stores

/-- How an action takes place. -/
def perform (stores : Stores) (action : Action) : Except StoreFault StoreEffect :=
  let active := stores.active
  match action with
  | .init theme =>
    if active.isInitialized then .error .alreadyInitialized else .ok (stores.replaceActive theme)
  | .replace theme => .ok (stores.replaceActive theme)
  | .replaceProcessWide theme =>
    match stores.processWide with
    | none => .ok (stores.replaceActive theme)
    | some store =>
      .ok (announce store theme fun store => { stores with processWide := some store })
  | .readProcessWide => .ok (stores.answer (.theme (stores.processWide.getD active).theme))
  | .read => .ok (stores.answer (.theme active.theme))
  | .rootCss selector => .ok (stores.answer (.css (active.rootCss selector)))
  | .subscribe listener =>
    let active := { active with listeners := active.listeners ++ [listener] }
    .ok ({ stores with active }.answer .nothing)
  | .unsubscribe listener =>
    let active := { active with listeners := active.listeners.erase listener }
    .ok ({ stores with active }.answer .nothing)
  | .reset => .ok ({ stores with active := Store.empty active.stem }.answer .nothing)
  | .deriveScoped name override parent =>
    .ok (stores.remember name (Scope.derive active.stem (parent.getD active.theme) override))
  | .derive name source override =>
    match stores.scopes.get? source with
    | none => .error .unknownScope
    | some scope => .ok (stores.remember name (Scope.derive scope.stem scope.value override))
  | .scopeCss name selector =>
    match stores.scopes.get? name with
    | none => .error .unknownScope
    | some scope => .ok (stores.answer (.css (scope.css selector)))

end Stores

end StaticStyle.Theme
