import StaticStyle.Proofs.Session.Tracking

namespace StaticStyle.Session

variable {config : Config} {session : Session} {path source : Text}

theorem liveStyleSheet_congr {other : Session} (registry : other.registry = session.registry)
    (live : other.usage.live = session.usage.live) (theme : other.theme = session.theme) (id : Text) :
    other.liveStyleSheet config id = session.liveStyleSheet config id := by
  unfold liveStyleSheet themeCss
  rw [registry, live, theme]

/-- A compilation that leaves the identities of its file as they are changes nothing at all. What the source declares
was in use before, so it is registered, and no rule is missing. -/
theorem transform_eq_self (backed : Backed config session)
    (same : (session.transform config path source).session.usage.identitiesOf path =
      session.usage.identitiesOf path) :
    (session.transform config path source).session = session := by
  rcases transform_cases config session path source with ⟨unchanged, -⟩ | ⟨rules, records, recorded⟩
  · exact unchanged
  · rw [Prod.mk.injEq] at recorded
    rw [recorded.1, record_usage, Usage.identitiesOf_recompute_self] at same
    have known : ∀ identity ∈ declaredIdentities config source,
        Fields.contains identity session.registry = true := by
      intro identity member
      rw [← Text.mem_distinct, same, Usage.identitiesOf] at member
      cases found : Fields.get? path session.usage with
      | none => simp [found] at member
      | some identities =>
        rw [found, Option.getD_some] at member
        exact backed.registered _ (Fields.mem_of_get? found) identity member
    rw [recorded.1, records.record_eq_self known same]

/-- The session behind a change that asks for no style sheet is the session in front of it. -/
theorem change_eq_self (backed : Backed config session)
    (quiet : (session.change config path source).result = .ok []) :
    (session.change config path source).session = session := by
  refine transform_eq_self backed ?_
  simp only [change] at quiet
  cases completed : (session.transform config path source).result with
  | error refusal => simp [completed, Except.map] at quiet
  | ok output =>
    simp only [completed, Except.map, Except.ok.injEq, ite_eq_right_iff, List.cons_ne_nil, imp_false,
      bne_iff_ne, ne_eq, not_not] at quiet
    exact quiet

/-- A removal that asks for no style sheet forgets a file that used none of the classes, or no file at all. -/
theorem remove_live (tidy : session.usage.Tidy) (quiet : (session.remove config path).result = []) :
    (session.remove config path).session.usage.live = session.usage.live := by
  unfold remove at quiet ⊢
  split
  · rename_i tracked
    simp only [tracked, ↓reduceIte, ite_eq_right_iff, List.cons_ne_nil, imp_false, Bool.not_eq_true',
      Bool.not_eq_false, List.isEmpty_iff] at quiet
    exact tidy.live_remove quiet
  · rfl

/-- In every session that a run leads to, a changed or removed file for which no style sheet has to be loaded again
leaves the text of the style sheet as it was, under each of its names. -/
theorem liveStyleSheet_of_no_reload (config : Config) (theme : Option Theme.Store)
    (operations : List Operation) (path source id : Text) :
    let session := run config theme operations
    ((session.change config path source).result = .ok [] →
      (session.change config path source).session.liveStyleSheet config id =
        session.liveStyleSheet config id) ∧
    ((session.remove config path).result = [] →
      (session.remove config path).session.liveStyleSheet config id = session.liveStyleSheet config id) := by
  intro session
  refine ⟨fun quiet => ?_, fun quiet => ?_⟩
  · rw [change_eq_self (run_backed config theme operations) quiet]
  · have live := remove_live (run_tidy config theme operations) quiet
    refine liveStyleSheet_congr ?_ live ?_ id
    · unfold remove
      split <;> rfl
    · unfold remove
      split <;> rfl

/-- A file is written in another way with the same styles, and another one goes that had no styles left. -/
theorem liveStyleSheet_of_no_reload_reformatted :
    let operations : List Operation := [.transform "A.tsx" "<p zx={{m: 1}} />",
      .transform "B.tsx" "<p zx={{m: 1}} />", .transform "B.tsx" "<p />"]
    let session := run Config.standard none operations
    let id : Text := "virtual:style-zx.css"
    (session.change Config.standard "A.tsx" "<b zx={{ m: 1 }}></b>").result = .ok [] ∧
      (session.remove Config.standard "B.tsx").result = [] ∧
      (session.remove Config.standard "B.tsx").session.usage ≠ session.usage ∧
      (session.change Config.standard "A.tsx" "<b zx={{ m: 1 }}></b>").session.liveStyleSheet Config.standard id =
        session.liveStyleSheet Config.standard id ∧
      (session.remove Config.standard "B.tsx").session.liveStyleSheet Config.standard id =
        session.liveStyleSheet Config.standard id := by
  intro operations session id
  have isQuiet : (session.change Config.standard "A.tsx" "<b zx={{ m: 1 }}></b>").result.toOption.any
      List.isEmpty = true := by
    decide +kernel
  have changed : (session.change Config.standard "A.tsx" "<b zx={{ m: 1 }}></b>").result = .ok [] := by
    cases found : (session.change Config.standard "A.tsx" "<b zx={{ m: 1 }}></b>").result with
    | error refusal => simp [found, Except.toOption] at isQuiet
    | ok ids => simpa [found, Except.toOption] using isQuiet
  have removed : (session.remove Config.standard "B.tsx").result = [] := by decide +kernel
  refine ⟨changed, removed, by decide +kernel, ?_, ?_⟩
  · exact (liveStyleSheet_of_no_reload Config.standard none operations "A.tsx" "<b zx={{ m: 1 }}></b>" id).1 changed
  · exact (liveStyleSheet_of_no_reload Config.standard none operations "B.tsx" [] id).2 removed

end StaticStyle.Session
