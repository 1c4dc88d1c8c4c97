import StaticStyle.Proofs.Session.Confinement
import StaticStyle.Proofs.Session.Independence
import StaticStyle.Proofs.Session.Reporting

/-!
Which files are refused. Where one identity means one canonical text, a file is refused in every session that has
compiled other files of the same sources, or in none, under whatever path it is handled and whether or not the style
sheet is loaded from it.
-/

namespace StaticStyle.Session

def Cause.isDefect : Cause → Bool
  | defect _ => true
  | _ => false

/-- Whether a result is a refusal that has a message for a user. -/
def isRefusal {α : Type} : Except Refusal α → Bool
  | .error refusal => !refusal.cause.isDefect
  | .ok _ => false

variable {config : Config} {sources : List Text} {session session' : Session} {path path' source : Text}

/-- A handled file is refused if it cannot be planned. Behind its plan nothing can go wrong but a defect. -/
theorem isRefusal_transform (config : Config) (handled : config.handles path = .ok true) :
    isRefusal (session.transform config path source).result =
      match plan config session.registry path source with
      | .error stop => !stop.cause.isDefect
      | .ok _ => false := by
  unfold transform compile
  rw [handled]
  dsimp only
  cases plan config session.registry path source with
  | error stop => rfl
  | ok plan =>
    dsimp only
    split
    · rfl
    · unfold commit
      cases finalEditor config plan <;> rfl

theorem isRefusal_transform_eq (noClash : NoClash config sources)
    (registered : RulesOf config sources session.registry) (registered' : RulesOf config sources session'.registry)
    (member : source ∈ sources) (handled : config.handles path = .ok true) (handled' : config.handles path' = .ok true)
    (injectsImport : Bool) :
    isRefusal (session.transform { config with injectsImport } path source).result =
      isRefusal (session'.transform config path' source).result := by
  rw [isRefusal_transform { config with injectsImport } handled, isRefusal_transform config handled',
    plan_injectsImport]
  have agree := plan_agree noClash registered registered' path path' member
  revert agree
  cases plan config session.registry path source with
  | error stop =>
    cases plan config session'.registry path' source with
    | error stop' => exact fun sameCause => congrArg (fun cause => !Cause.isDefect cause) sameCause
    | ok plan' => exact False.elim
  | ok _ =>
    cases plan config session'.registry path' source with
    | error stop' => exact False.elim
    | ok plan' => exact fun _ => rfl

theorem isError_of_transform {output : Output}
    (transformed : (session.transform config path source).result = .ok (some output)) {diagnostic : Diagnostic}
    (member : diagnostic ∈ output.diagnostics) : diagnostic.isError = false := by
  obtain ⟨plan, editor, planned, -, rfl, -⟩ := transform_output transformed
  obtain ⟨placed, -, text, -, -, rfl⟩ := ((plan_reports planned).diagnostics diagnostic).mp member
  rfl

end StaticStyle.Session
