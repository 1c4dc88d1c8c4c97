import StaticStyle.Event.Basic
import StaticStyle.Reaction.Agenda

namespace StaticStyle.Event

structure Bus where
  catchAll : List Text
  byKind : List (Kind × Text)
deriving DecidableEq, Repr

namespace Bus

def empty : Bus := ⟨[], []⟩

inductive Action where
  | subscribe (kind : Kind) (listener : Text)
  | unsubscribe (kind : Kind) (listener : Text)
  | onAll (listener : Text)
  | emit (event : Event)
deriving Repr

/-- The listeners that an event is delivered to. -/
def audience (bus : Bus) (event : Event) : List Text :=
  bus.catchAll ++ (bus.byKind.filter fun entry => entry.1 = event.kind).map Prod.snd

/-- How an action takes place. None of them fails. -/
def perform (bus : Bus) : Action → Except Empty (Reaction.Effect Bus Event Unit)
  | .subscribe kind listener =>
    .ok (.complete { bus with byKind := bus.byKind ++ [(kind, listener)] } [] ())
  | .unsubscribe kind listener =>
    .ok (.complete { bus with byKind := bus.byKind.erase (kind, listener) } [] ())
  | .onAll listener => .ok (.complete { bus with catchAll := bus.catchAll ++ [listener] } [] ())
  | .emit event =>
    .ok (.complete bus ((bus.audience event).map fun listener => (listener, event)) ())

end Bus

end StaticStyle.Event
