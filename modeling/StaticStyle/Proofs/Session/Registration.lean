import StaticStyle.Proofs.Fields
import StaticStyle.Session.Basic

namespace StaticStyle

open Style (Rule)

namespace Registry

variable {registry : Registry} {rule : Rule}

private theorem register_cases (registry : Registry) (rule : Rule) :
    (Fields.contains rule.identity registry = true ∧ (registry.register rule).1 = registry) ∨
      (Fields.contains rule.identity registry = false ∧
        (registry.register rule).1 = registry ++ [(rule.identity, rule)]) := by
  unfold register
  cases known : Fields.contains rule.identity registry with
  | true => exact .inl ⟨rfl, rfl⟩
  | false => exact .inr ⟨rfl, rfl⟩

theorem prefix_register : registry <+: (registry.register rule).1 := by
  rcases register_cases registry rule with ⟨-, same⟩ | ⟨-, longer⟩
  · simp only [same, List.prefix_rfl]
  · rw [longer]
    exact List.prefix_append _ _

theorem contains_register : Fields.contains rule.identity (registry.register rule).1 = true := by
  rcases register_cases registry rule with ⟨known, same⟩ | ⟨-, longer⟩
  · rw [same, known]
  · rw [longer]
    exact Fields.contains_of_mem (List.mem_append_right _ (List.mem_singleton.mpr rfl))

theorem mem_register {entry : Text × Rule} (member : entry ∈ (registry.register rule).1) :
    entry ∈ registry ∨ entry = (rule.identity, rule) := by
  rcases register_cases registry rule with ⟨-, same⟩ | ⟨-, longer⟩
  · rw [same] at member
    exact .inl member
  · rw [longer] at member
    exact (List.mem_append.mp member).imp_right List.mem_singleton.mp

theorem nodup_register (nodup : (Fields.keys registry).Nodup) :
    (Fields.keys (registry.register rule).1).Nodup := by
  rcases register_cases registry rule with ⟨-, same⟩ | ⟨absent, longer⟩
  · rw [same]
    exact nodup
  · rw [longer, Fields.keys, List.map_append]
    refine List.nodup_append.mpr ⟨nodup, by simp, ?_⟩
    intro key member key' single same
    obtain ⟨⟨_, other⟩, found, rfl⟩ := List.mem_map.mp member
    rw [List.map_singleton, List.mem_singleton] at single
    have known := Fields.contains_of_mem found
    dsimp only at same single
    rw [same, single, absent] at known
    simp at known

end Registry

namespace Session

variable {session : Session} {path : Text} {rules : List (Text × Rule)}

theorem commitRules_usage : (session.commitRules path rules).1.usage = session.usage := by
  induction rules generalizing session with
  | nil => rfl
  | cons entry rules ih => exact ih

theorem commitRules_theme : (session.commitRules path rules).1.theme = session.theme := by
  induction rules generalizing session with
  | nil => rfl
  | cons entry rules ih => exact ih

theorem prefix_commitRules : session.registry <+: (session.commitRules path rules).1.registry := by
  induction rules generalizing session with
  | nil => exact List.prefix_rfl
  | cons entry rules ih =>
    have onward := @ih { session with registry := (session.registry.register entry.2).1 }
    exact Registry.prefix_register.trans onward

theorem nodup_commitRules (nodup : (Fields.keys session.registry).Nodup) :
    (Fields.keys (session.commitRules path rules).1.registry).Nodup := by
  induction rules generalizing session with
  | nil => exact nodup
  | cons entry rules ih => exact ih (Registry.nodup_register nodup)

section Named

variable (named : ∀ entry ∈ rules, entry.2.identity = entry.1)
include named

/-- What is registered was registered before, or it is among the rules. -/
theorem mem_commitRules {entry : Text × Rule}
    (member : entry ∈ (session.commitRules path rules).1.registry) :
    entry ∈ session.registry ∨ entry ∈ rules := by
  induction rules generalizing session with
  | nil => exact .inl member
  | cons first rules ih =>
    have own := named first List.mem_cons_self
    rcases ih (fun entry found => named entry (List.mem_cons_of_mem _ found)) member with found | found
    · refine (Registry.mem_register found).imp_right fun same => ?_
      rw [same, own]
      exact List.mem_cons_self
    · exact .inr (List.mem_cons_of_mem _ found)

theorem contains_commitRules {identity : Text} {rule : Rule} (member : (identity, rule) ∈ rules) :
    Fields.contains identity (session.commitRules path rules).1.registry = true := by
  induction rules generalizing session with
  | nil => simp at member
  | cons first rules ih =>
    rcases List.mem_cons.mp member with rfl | member
    · have own : rule.identity = identity := named _ List.mem_cons_self
      have registered : Fields.contains identity (session.registry.register rule).1 = true :=
        own ▸ Registry.contains_register
      have onward := @prefix_commitRules { session with registry := (session.registry.register rule).1 }
        path rules
      exact Fields.contains_mono onward registered
    · exact ih (fun entry found => named entry (List.mem_cons_of_mem _ found)) member

end Named

theorem commit_session (config : Config) (plan : Plan) :
    (session.commit config path plan).session =
      ((session.commitRules path plan.rules.sorted).1.commitUsage path plan.identities).1 := by
  cases final : finalEditor config plan <;> simp only [commit, final]

/-- A file with an output has a plan, and its output is what the editor of the plan renders. -/
theorem transform_output {config : Config} {source : Text} {output : Output}
    (transformed : (session.transform config path source).result = .ok (some output)) :
    ∃ plan editor, Session.plan config session.registry path source = .ok plan ∧
      finalEditor config plan = .ok editor ∧
      output = ⟨editor.render, editor.edits, Text.distinct plan.identities, plan.diagnostics⟩ ∧
      (session.transform config path source).session = (session.commit config path plan).session := by
  unfold transform at transformed ⊢
  split at transformed
  · simp at transformed
  · simp at transformed
  · unfold compile at transformed ⊢
    dsimp only
    cases planned : Session.plan config session.registry path source with
    | error stop => simp [planned] at transformed
    | ok plan =>
      simp only [planned] at transformed ⊢
      split at transformed
      · simp at transformed
      · rename_i declares
        cases final : finalEditor config plan with
        | error defect => simp [commit, final, Except.map] at transformed
        | ok editor =>
          simp only [commit, final, Except.map, Except.ok.injEq, Option.some.injEq] at transformed
          exact ⟨plan, editor, rfl, final, transformed.symm, by rw [if_neg declares]⟩

/-- Whether a file has an output that passes a test. -/
def yields (result : Except Refusal (Option Output)) (test : Output → Bool) : Bool :=
  match result with
  | .ok (some output) => test output
  | _ => false

theorem eq_ok_of_yields {result : Except Refusal (Option Output)} {test : Output → Bool}
    (passes : yields result test = true) :
    ∃ output, result = .ok (some output) ∧ test output = true := by
  unfold yields at passes
  split at passes
  · exact ⟨_, rfl, passes⟩
  · cases passes

end Session

end StaticStyle
