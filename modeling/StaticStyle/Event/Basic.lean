import StaticStyle.Text.Basic

namespace StaticStyle

inductive Event where
  | styleRegistered (identity className path : Text)
  /-- The identities a file refers to have changed; both lists are ascending. -/
  | fileUsageChanged (path : Text) (added removed : List Text)
  | fileDropped (path : Text)
  | bundleFinalized (retained dropped size : Nat)
deriving DecidableEq, Repr

inductive Event.Kind where
  | styleRegistered
  | fileUsageChanged
  | fileDropped
  | bundleFinalized
deriving DecidableEq, Repr

def Event.kind : Event → Kind
  | styleRegistered .. => .styleRegistered
  | fileUsageChanged .. => .fileUsageChanged
  | fileDropped .. => .fileDropped
  | bundleFinalized .. => .bundleFinalized

end StaticStyle
