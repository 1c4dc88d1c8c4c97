import StaticStyle.Proofs.Session.Outcome

/-!
What a plan says about the identities of a file. They are those of the styles that the source declares, in the order
of the declarations, and they do not depend on what is registered. Only the rules beside them do: a plan has rules for
identities that it names itself and that are not registered yet.

Planning goes through elements, attributes, calls and entries, and all of this only serves to plan the declared styles
one after another. So a property of plans that no edit affects is kept by all of planning if it is kept by planning one
more style.
-/

namespace StaticStyle.Session

open Expression Markup Style

namespace Leads

variable {α ι σ : Type} {bad : Cause → Prop}

/-- Planning item by item, when what is good depends on what has been planned so far. -/
theorem foldlM_flatMap {items : List ι} {step : α → ι → Planning α} {part : ι → List σ}
    {good : List σ → α → Prop}
    (leads : ∀ item done a, good done a → Leads (good (done ++ part item)) bad (step a item))
    (done : List σ) {a : α} (start : good done a) :
    Leads (good (done ++ items.flatMap part)) bad (items.foldlM step a) := by
  induction items generalizing a done with
  | nil => simpa [List.foldlM_nil, pure, Except.pure, Leads] using start
  | cons item items ih =>
    rw [List.foldlM_cons, List.flatMap_cons, ← List.append_assoc]
    exact (leads item done a start).bind fun next reached => ih _ reached

theorem usable {good : α → Prop} {plan : Plan} {outcome : Except Defect α}
    (found : ∀ a, outcome = .ok a → good a) : Leads good (fun _ => True) (plan.usable outcome) := by
  cases outcome with
  | ok a => exact found a rfl
  | error defect => trivial

/-- An evaluated expression has the fields that it stands for. -/
theorem evaluateAt {plan : Plan} (source text : Text) (offset : Nat) :
    Leads (fun fields => fieldsAt? source text offset = some fields) (fun _ => True)
      (plan.evaluateAt source text offset) := by
  unfold Plan.evaluateAt Plan.parseAt fieldsAt?
  cases parse text ⟨offset, Position.ofOffset source offset⟩ with
  | error fault => cases fault <;> trivial
  | ok node =>
    dsimp only
    cases evaluateObject node with
    | error rejection => trivial
    | ok fields => rfl

end Leads

/-- A style and the position of the declaration that it stands in. -/
structure PlacedStyle where
  position : Position
  style : Fields Value
deriving Repr

/-- The style that an element declares, at the position of its attribute. -/
def placedElementStyle? (attrName source : Text) (element : Element) : Option PlacedStyle :=
  (element.attribute? attrName).bind fun attr =>
    (elementStyle? attrName source element).map (⟨Position.ofOffset source attr.start, ·⟩)

/-- The styles that a call declares, all at the position of its argument. -/
def placedCallStyles (source : Text) (call : Call) : List PlacedStyle :=
  (callStyles source call).map (⟨Position.ofOffset source call.argumentStart, ·⟩)

/-- The styles that a source declares, each at its position. -/
def placedStyles (config : Config) (source : Text) : List PlacedStyle :=
  match config.attrName, config.callee with
  | .ok attrName, .ok callee =>
    (mentionedElements attrName source).filterMap (placedElementStyle? attrName source) ++
      (mentionedCalls callee source).flatMap (placedCallStyles source)
  | _, _ => []

private theorem placedElementStyle?_style (attrName source : Text) (element : Element) :
    (placedElementStyle? attrName source element).map PlacedStyle.style = elementStyle? attrName source element := by
  unfold placedElementStyle? elementStyle?
  cases element.attribute? attrName with
  | none => rfl
  | some attr => simp [Function.comp_def]

/-- Places are all that is added to the declared styles. -/
theorem placedStyles_style (config : Config) (source : Text) :
    (placedStyles config source).map PlacedStyle.style = declaredStyles config source := by
  unfold placedStyles declaredStyles
  cases config.attrName with
  | error defect => rfl
  | ok attrName =>
    cases config.callee with
    | error defect => rfl
    | ok callee =>
      simp [List.map_filterMap, placedElementStyle?_style, List.map_flatMap, placedCallStyles, Function.comp_def]

/-- A property of the plans for some styles that no edit affects and that is kept when one more style is planned and
counted. -/
structure Carries (config : Config) (registry : Registry) (path : Text)
    (good : List PlacedStyle → Plan → Prop) : Prop where
  edit : ∀ {styles plan} editor, good styles plan → good styles { plan with editor }
  style : ∀ {styles plan} placed, good styles plan →
    Leads (fun next => good (styles ++ [placed]) { next.1 with declarations := next.1.declarations + 1 })
      (fun _ => True) (plan.addStyle config registry path placed.position placed.style)

namespace Carries

variable {config : Config} {registry : Registry} {path : Text} {good : List PlacedStyle → Plan → Prop}
  {styles : List PlacedStyle} {plan : Plan}

private theorem overwrite (carries : Carries config registry path good) (holds : good styles plan)
    (start stop : Nat) (text : Text) :
    Leads (good styles) (fun _ => True) (plan.overwrite start stop text) := by
  unfold Plan.overwrite
  split
  · exact carries.edit _ holds
  · trivial

private theorem writeClass (carries : Carries config registry path good) (holds : good styles plan)
    (attr : Attribute) (name : Text) :
    Leads (good styles) (fun _ => True) (plan.writeClass config attr name) :=
  (Leads.usable fun _ _ => trivial).bind fun _ (_ : True) => carries.overwrite holds _ _ _

private theorem rewriteElement (carries : Carries config registry path good) (holds : good styles plan)
    (source : Text) (element : Element) (attr : Attribute) (name : Text) :
    Leads (good styles) (fun _ => True) (plan.rewriteElement config source element attr name) := by
  unfold Plan.rewriteElement
  split
  · exact carries.writeClass holds attr name
  · refine (carries.overwrite holds _ _ _).bind fun next holds => ?_
    unfold Plan.extendClass
    split
    · exact carries.overwrite holds _ _ _
    · exact carries.overwrite holds _ _ _
    · exact carries.writeClass holds _ _

private theorem addElement (carries : Carries config registry path good) (attrName source : Text)
    (element : Element) (holds : good styles plan) :
    Leads (good (styles ++ (placedElementStyle? attrName source element).toList)) (fun _ => True)
      (Plan.addElement config attrName registry path source plan element) := by
  unfold Plan.addElement placedElementStyle? elementStyle?
  cases element.attribute? attrName with
  | none => simpa [Leads] using holds
  | some attr =>
    by_cases expression : attr.kind = .expression
    · simp only [expression, ne_eq, not_true_eq_false, ↓reduceIte, Option.bind_some]
      refine (Leads.evaluateAt _ _ _).bind fun style evaluated => ?_
      rw [evaluated]
      refine (carries.style ⟨Position.ofOffset source attr.start, style⟩ holds).bind ?_
      rintro ⟨next, name⟩ holds
      exact carries.rewriteElement holds source element attr name
    · simp only [ne_eq, expression, not_false_eq_true, ↓reduceIte]
      trivial

private theorem addEntries (carries : Carries config registry path good) (callee : Text)
    (position : Position) {entries : Fields Value} (holds : good styles plan) :
    Leads
      (fun next => good (styles ++ (entries.filterMap fun entry => entry.2.fields?).map (⟨position, ·⟩)) next.1)
      (fun _ => True) (Plan.addEntries config callee registry path position plan entries) := by
  induction entries generalizing plan styles with
  | nil => simpa [Plan.addEntries, Leads] using holds
  | cons entry entries ih =>
    obtain ⟨key, value⟩ := entry
    cases value with
    | object style =>
      refine (carries.style ⟨position, style⟩ holds).bind ?_
      rintro ⟨next, name⟩ holds
      refine (ih holds).bind ?_
      rintro ⟨last, members⟩ holds
      simpa [Value.fields?, Leads] using holds
    | _ => trivial

private theorem addCall (carries : Carries config registry path good) (callee source : Text) (call : Call)
    (holds : good styles plan) :
    Leads (good (styles ++ placedCallStyles source call)) (fun _ => True)
      (Plan.addCall config callee registry path source plan call) := by
  unfold Plan.addCall placedCallStyles callStyles
  by_cases blank : (call.argumentText source).isAllBlank = true
  · simp only [blank, ↓reduceIte, List.map_nil, List.append_nil]
    exact holds
  · simp only [blank, Bool.false_eq_true, ↓reduceIte]
    refine (Leads.evaluateAt _ _ _).bind fun entries evaluated => ?_
    rw [evaluated, Option.getD_some]
    refine (carries.addEntries callee _ holds).bind ?_
    rintro ⟨next, members⟩ holds
    exact carries.overwrite holds _ _ _

/-- What is carried on from style to style holds of the plan for a source and its declared styles. -/
theorem planning (carries : Carries config registry path good) {source : Text}
    (start : good [] (.ofSource source)) :
    Leads (good (placedStyles config source)) (fun _ => True)
      (Session.plan config registry path source) := by
  unfold Session.plan
  refine (Leads.usable fun _ named => named).bind fun attrName attrOption => ?_
  refine (Leads.usable fun _ named => named).bind fun callee calleeOption => ?_
  have styles : placedStyles config source =
      (mentionedElements attrName source).flatMap (fun element =>
        (placedElementStyle? attrName source element).toList) ++
      (mentionedCalls callee source).flatMap (placedCallStyles source) := by
    simp only [placedStyles, attrOption, calleeOption, List.filterMap_eq_flatMap_toList]
  rw [styles]
  refine Leads.bind (Leads.foldlM_flatMap
    (fun element done plan holds => carries.addElement attrName source element holds) [] start)
    fun plan holds => ?_
  exact Leads.foldlM_flatMap (fun call done plan holds => carries.addCall callee source call holds) _ holds

end Carries

/-- The identity of a style, if it has one. -/
def identityOf? (config : Config) (style : Fields Value) : Option Text :=
  (Plan.nameStyle config (.object style)).toOption.map Prod.fst

/-- What a plan for some styles says: it names the identity of each and counts the styles, and it has rules only for
identities that it names and that are not registered. -/
structure Declares (config : Config) (registry : Registry) (styles : List (Fields Value)) (plan : Plan) :
    Prop where
  identities : plan.identities = styles.filterMap (identityOf? config)
  counted : plan.declarations = plan.identities.length
  rules : ∀ identity, Fields.contains identity plan.rules = true →
    identity ∈ plan.identities ∧ Fields.contains identity registry = false

variable {config : Config} {registry : Registry} {styles : List (Fields Value)} {plan : Plan}

/-- One more style has its identity named, and a rule is planned for it if there is none yet. -/
private theorem addStyle_declares (declares : Declares config registry styles plan) (path : Text)
    (position : Position) (style : Fields Value) :
    Leads
      (fun next => Declares config registry (styles ++ [style])
        { next.1 with declarations := next.1.declarations + 1 })
      (fun _ => True) (plan.addStyle config registry path position style) := by
  refine (Leads.usable fun _ named => named).bind ?_
  rintro ⟨identity, name⟩ named
  have identities : plan.identities ++ [identity] = (styles ++ [style]).filterMap (identityOf? config) := by
    simp [declares.identities, identityOf?, named, Except.toOption]
  have counted : plan.declarations + 1 = (plan.identities ++ [identity]).length := by
    simp [declares.counted]
  dsimp only
  split
  · refine ⟨identities, counted, fun other planned => ?_⟩
    exact (declares.rules other planned).imp_left (List.mem_append_left _)
  · rename_i unknown
    split
    · trivial
    · refine ⟨identities, counted, fun other planned => ?_⟩
      simp only [Fields.contains_iff, Fields.get?_put] at planned
      by_cases same : other = identity
      · subst same
        refine ⟨List.mem_append_right _ (List.mem_singleton.mpr rfl), ?_⟩
        simp only [Bool.or_eq_true, not_or, Bool.not_eq_true] at unknown
        exact unknown.2
      · rw [if_neg same] at planned
        exact (declares.rules other (Fields.contains_iff.mpr planned)).imp_left (List.mem_append_left _)

private theorem declares_carries (config : Config) (registry : Registry) (path : Text) :
    Carries config registry path fun styles => Declares config registry (styles.map PlacedStyle.style) where
  edit _ declares := ⟨declares.identities, declares.counted, declares.rules⟩
  style placed declares := by
    simpa using addStyle_declares declares path placed.position placed.style

/-- A plan for a source names the identities of the declared styles. -/
theorem plan_declares {path source : Text} (planned : Session.plan config registry path source = .ok plan) :
    Declares config registry (declaredStyles config source) plan := by
  have start : Declares config registry [] (.ofSource source) := by
    refine ⟨rfl, rfl, ?_⟩
    simp [Plan.ofSource, Fields.contains, Fields.get?]
  have leads := (declares_carries config registry path).planning start
  rw [planned] at leads
  exact placedStyles_style config source ▸ leads

theorem plan_finished {path source : Text} (planned : Session.plan config registry path source = .ok plan) :
    Finished config registry source plan := by
  have leads : Leads (Finished config registry source) (Explained config source)
      (Session.plan config registry path source) := plan_leads path
  rw [planned] at leads
  exact leads

end StaticStyle.Session
