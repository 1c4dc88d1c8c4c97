import StaticStyle.Proofs.Expression.Location
import StaticStyle.Proofs.Markup.Reading
import StaticStyle.Proofs.Session.Atomicity
import StaticStyle.Proofs.Session.Mention
import StaticStyle.Proofs.Session.Recording
import StaticStyle.Proofs.Source.Replacement

/-!
Planning is local. The edits of an element lie within its attributes and that of a call is the call, and what planning
stops for lies in the declaration that is being planned. Each function of planning has one lemma that says both.
-/

namespace StaticStyle.Session

open Expression Markup

/-- An edit of a declaration: it lies within an attribute of an element that has the style attribute, or it replaces a
call of the function for styles. -/
inductive EditsDeclaration (config : Config) (source : Text) (edit : Edit) : Prop where
  | attribute {attrName : Text} {element : Element} {attr : Attribute} (option : config.attrName = .ok attrName)
      (member : element ∈ elements source) (declares : (element.attribute? attrName).isSome = true)
      (belongs : attr ∈ element.attributes) (starts : attr.start ≤ edit.start) (stops : edit.stop ≤ attr.stop)
  | call {callee : Text} {call : Call} (option : config.callee = .ok callee) (member : call ∈ calls callee source)
      (starts : edit.start = call.start) (stops : edit.stop = call.stop)

/-- A plan for a source whose edits lie in the source, behind its beginning and apart from each other, and are edits of
declarations. -/
structure Confined (config : Config) (source : Text) (plan : Plan) : Prop where
  sameSource : plan.editor.source = source
  apart : plan.editor.recorded.Pairwise fun earlier later => later.overlaps earlier = false
  inside : ∀ edit ∈ plan.editor.recorded, edit.start ≤ edit.stop ∧ edit.stop ≤ source.length
  behind : ∀ edit ∈ plan.editor.recorded, 0 < edit.stop
  declared : ∀ edit ∈ plan.editor.recorded, EditsDeclaration config source edit

/-- A cause tells of a place between two offsets of a source, or it is one of those that tell of none: a defect, a
conflict of edits, or an entry of a call that is no object. -/
inductive Tells (source : Text) (start stop : Nat) (cause : Cause) : Prop where
  | placed {offset : Nat} (starts : start ≤ offset) (stops : offset < stop)
      (told : cause.position? = some (Position.ofOffset source offset))
  | defect {defect : Defect} (same : cause = .defect defect)
  | conflict {fault : EditFault} (same : cause = .overlappingEdit fault)
  | entry {key callee : Text} (same : cause = .invalidStyle ⟨key, .entryNeedsObject callee⟩ none)

/-- What is reached within a text is an offset of the source in which the text stands. -/
theorem Tells.of_reached {source text : Text} {start stop offset : Nat} {cause : Cause} {position : Position}
    (stands : source.StandsAt offset text) (starts : start ≤ offset) (nonempty : offset < stop)
    (ends : offset + text.length ≤ stop) (reached : Reached (Position.ofOffset source offset) text position)
    (told : cause.position? = some position) : Tells source start stop cause := by
  obtain ⟨count, bound, rfl⟩ := reached
  have part : source.StandsAt offset (text.take count) := (List.take_prefix count text).trans stands
  rw [Position.after_ofOffset part] at told
  have size : (text.take count).length ≤ count := List.length_take_le count text
  refine .placed ?_ ?_ told <;> omega

theorem Leads.weaken {α : Type} {good : α → Prop} {bad bad' : Cause → Prop} {planning : Planning α}
    (leads : Leads good bad planning) (wider : ∀ cause, bad cause → bad' cause) : Leads good bad' planning := by
  cases planning with
  | error stop => exact wider stop.cause leads
  | ok a => exact leads

section Steps

variable {config : Config} {registry : Registry} {path source : Text} {plan : Plan} {low high : Nat}

theorem Tells.usable {α : Type} {good : α → Prop} {outcome : Except Defect α} (found : ∀ a, outcome = .ok a → good a) :
    Leads good (Tells source low high) (plan.usable outcome) := by
  cases outcome with
  | ok a => exact found a rfl
  | error defect => exact .defect rfl

/-- An edit of a declaration is recorded, or there is a conflict. -/
theorem overwrite_confined (confined : Confined config source plan) {start stop : Nat} (text : Text)
    (ordered : start ≤ stop) (inside : stop ≤ source.length) (behind : 0 < stop)
    (declared : EditsDeclaration config source ⟨start, stop, text⟩) :
    Leads (Confined config source) (Tells source low high) (plan.overwrite start stop text) := by
  have recorded : Recorded source plan.editor.recorded plan := ⟨confined.sameSource, rfl, confined.apart⟩
  have records := overwrite_records recorded start stop text
  unfold Plan.overwrite at records ⊢
  cases overwritten : plan.editor.overwrite start stop text with
  | error fault => exact .conflict rfl
  | ok editor =>
    simp only [overwritten] at records
    have same : editor.recorded = plan.editor.recorded ++ [⟨start, stop, text⟩] := records.recorded
    refine ⟨records.sameSource, ?_, ?_, ?_, ?_⟩
    · dsimp only
      rw [same]
      exact records.apart
    all_goals
      dsimp only
      rw [same, List.forall_mem_append, List.forall_mem_singleton]
    · exact ⟨confined.inside, ordered, inside⟩
    · exact ⟨confined.behind, behind⟩
    · exact ⟨confined.declared, declared⟩

/-- A plan is confined by its editor alone. -/
theorem Confined.of_editor {next : Plan} (confined : Confined config source plan) (same : next.editor = plan.editor) :
    Confined config source next where
  sameSource := same ▸ confined.sameSource
  apart := same ▸ confined.apart
  inside := same ▸ confined.inside
  behind := same ▸ confined.behind
  declared := same ▸ confined.declared

theorem position?_ofStyle (invalid : Style.InvalidStyle) (position : Position) :
    (∃ defect, Cause.ofStyle invalid position = .defect defect) ∨
      (Cause.ofStyle invalid position).position? = some position := by
  unfold Cause.ofStyle
  cases invalid.defect? with
  | some defect => exact .inl ⟨defect, rfl⟩
  | none => exact .inr rfl

/-- What planning a style stops for is told at the position of its declaration. -/
theorem Plan.addStyle_local (config : Config) (registry : Registry) (path : Text) (position : Position)
    (style : Fields Value) (plan : Plan) :
    Leads (fun next => next.1.editor = plan.editor)
      (fun cause => (∃ defect, cause = .defect defect) ∨ cause.position? = some position)
      (plan.addStyle config registry path position style) := by
  unfold Plan.addStyle
  cases Plan.nameStyle config (.object style) with
  | error defect => exact .inl ⟨defect, rfl⟩
  | ok names =>
    simp only [Plan.usable, Except.bind]
    split
    · rfl
    · split
      · exact position?_ofStyle _ position
      · rfl

/-- What evaluating an expression stops for lies in its text. -/
theorem Plan.evaluateAt_local (plan : Plan) (source text : Text) (offset : Nat) :
    Leads (fun _ => True)
      (fun cause => (∃ defect, cause = .defect defect) ∨
        ∃ position, cause.position? = some position ∧ Reached (Position.ofOffset source offset) text position)
      (plan.evaluateAt source text offset) := by
  unfold Plan.evaluateAt Plan.parseAt
  cases parsed : parse text ⟨offset, Position.ofOffset source offset⟩ with
  | error fault =>
    cases fault with
    | outOfRange escape => exact .inl ⟨_, rfl⟩
    | unexpected position => exact .inr ⟨position, rfl, unexpected_reached parsed⟩
  | ok node =>
    dsimp only
    cases evaluated : evaluateObject node with
    | ok fields => trivial
    | error rejection => exact .inr ⟨_, rfl, evaluateObject_stands (parse_stands parsed) evaluated⟩

section Element

variable {attrName : Text} {element : Element} (option : config.attrName = .ok attrName)
  (member : element ∈ elements source) (declares : (element.attribute? attrName).isSome = true)
include option member declares

private theorem writeClass_confined (confined : Confined config source plan) {attr : Attribute}
    (belongs : attr ∈ element.attributes) (name : Text) :
    Leads (Confined config source) (Tells source low high) (plan.writeClass config attr name) := by
  have nonempty := (elements_proper member belongs).nonempty
  have inside := (elements_within member).attributes attr belongs
  refine (Tells.usable fun _ shown => shown).bind fun text _ => ?_
  refine overwrite_confined confined text (Nat.le_of_lt nonempty) ?_ ?_
    (.attribute option member declares belongs (Nat.le_refl _) (Nat.le_refl _))
  · exact inside.stop.trans (elements_within member).stop
  · omega

private theorem overwriteValue_confined (confined : Confined config source plan) {attr : Attribute}
    (belongs : attr ∈ element.attributes) (valued : attr.isValued = true) (text : Text) :
    Leads (Confined config source) (Tells source low high) (plan.overwrite attr.valueStart attr.valueStop text) := by
  have named := (elements_proper member belongs).named valued
  have inside := (elements_within member).attributes attr belongs
  refine overwrite_confined confined text inside.value ?_ ?_
    (.attribute option member declares belongs inside.valueStart inside.valueStop)
  · exact inside.valueStop.trans (inside.stop.trans (elements_within member).stop)
  · exact Nat.lt_of_lt_of_le (Nat.zero_lt_of_lt named) inside.value

private theorem rewriteElement_confined (confined : Confined config source plan) {attr : Attribute}
    (belongs : attr ∈ element.attributes) (name : Text) :
    Leads (Confined config source) (Tells source low high) (plan.rewriteElement config source element attr name) := by
  unfold Plan.rewriteElement
  split
  · exact writeClass_confined option member declares confined belongs name
  · rename_i classAttr found
    obtain ⟨className, -, found⟩ := Option.bind_eq_some_iff.mp found
    have belongs' : classAttr ∈ element.attributes := List.mem_of_find?_eq_some found
    have nonempty := (elements_proper member belongs).nonempty
    have inside := (elements_within member).attributes attr belongs
    have removed : Leads (Confined config source) (Tells source low high) (plan.overwrite attr.start attr.stop []) :=
      overwrite_confined confined [] (Nat.le_of_lt nonempty) (inside.stop.trans (elements_within member).stop)
        (by omega) (.attribute option member declares belongs (Nat.le_refl _) (Nat.le_refl _))
    refine removed.bind fun next confined => ?_
    unfold Plan.extendClass
    split
    · rename_i kind
      exact overwriteValue_confined option member declares confined belongs' (by simp [Attribute.isValued, kind]) _
    · rename_i kind
      exact overwriteValue_confined option member declares confined belongs' (by simp [Attribute.isValued, kind]) _
    · exact writeClass_confined option member declares confined belongs' name

/-- Planning an element stays within its attributes, and it stops for its style attribute only. -/
theorem addElement_local (confined : Confined config source plan) {attr : Attribute}
    (found : element.attribute? attrName = some attr) :
    Leads (Confined config source) (Tells source attr.start attr.stop)
      (Plan.addElement config attrName registry path source plan element) := by
  have belongs : attr ∈ element.attributes := List.mem_of_find?_eq_some found
  have proper := elements_proper member belongs
  have within := (elements_within member).attributes attr belongs
  have inside : attr.valueStop ≤ source.length :=
    within.valueStop.trans (within.stop.trans (elements_within member).stop)
  unfold Plan.addElement
  simp only [found]
  by_cases expression : attr.kind = .expression
  · simp only [expression, ne_eq, not_true_eq_false, ↓reduceIte]
    have closed := proper.closed expression
    have ordered := within.value
    have size : (source.slice attr.valueStart attr.valueStop).length = attr.valueStop - attr.valueStart :=
      Text.length_slice inside
    have evaluated : Leads (fun _ => True) (Tells source attr.start attr.stop)
        (plan.evaluateAt source (attr.valueText source) attr.valueStart) := by
      refine (plan.evaluateAt_local source (attr.valueText source) attr.valueStart).weaken ?_
      rintro cause (⟨defect, same⟩ | ⟨position, told, reached⟩)
      · exact .defect same
      · exact .of_reached (Text.standsAt_slice source _ _) within.valueStart (by omega) (by omega) reached told
    refine evaluated.bind fun style _ => ?_
    have added : Leads (fun next => next.1.editor = plan.editor) (Tells source attr.start attr.stop)
        (plan.addStyle config registry path (Position.ofOffset source attr.start) style) := by
      refine (plan.addStyle_local config registry path _ style).weaken ?_
      rintro cause (⟨defect, same⟩ | told)
      · exact .defect same
      · exact .placed (Nat.le_refl _) proper.nonempty told
    refine added.bind ?_
    rintro ⟨next, name⟩ same
    have counted : Confined config source { next with declarations := next.declarations + 1 } :=
      confined.of_editor same
    exact rewriteElement_confined option member declares counted belongs name
  · simp only [ne_eq, expression, not_false_eq_true, ↓reduceIte]
    exact .placed (Nat.le_refl _) proper.nonempty rfl

end Element

/-- What the entries of a call stop for is told at the position of its argument, unless an entry is no object. -/
theorem Plan.addEntries_local (config : Config) (callee : Text) (registry : Registry) (path : Text) (position : Position)
    (plan : Plan) (entries : Fields Value) :
    Leads (fun next => next.1.editor = plan.editor)
      (fun cause => (∃ defect, cause = .defect defect) ∨ cause.position? = some position ∨
        ∃ key, cause = .invalidStyle ⟨key, .entryNeedsObject callee⟩ none)
      (plan.addEntries config callee registry path position entries) := by
  induction entries generalizing plan with
  | nil => rfl
  | cons entry entries ih =>
    obtain ⟨key, value⟩ := entry
    cases value with
    | object style =>
      refine Leads.bind ((plan.addStyle_local config registry path position style).weaken
        fun cause => Or.imp_right .inl) ?_
      rintro ⟨next, name⟩ same
      refine (ih { next with declarations := next.declarations + 1 }).bind ?_
      rintro ⟨last, members⟩ further
      exact further.trans same
    | _ => exact .inr (.inr ⟨key, rfl⟩)

private theorem argumentExpression_prefix (argument : Text) : Plan.argumentExpression argument <+: argument := by
  have trimmed (p : CodePoint → Bool) (text : Text) : Text.dropTrailing p text <+: text := by
    rw [Text.dropTrailing, ← List.reverse_suffix, List.reverse_reverse]
    exact List.dropWhile_suffix p
  exact (trimmed _ _).trans (trimmed _ _)

/-- Planning a call overwrites the call, or it stops for it. -/
theorem addCall_local {callee : Text} {call : Call} (option : config.callee = .ok callee)
    (member : call ∈ calls callee source) (confined : Confined config source plan) :
    Leads (Confined config source) (Tells source call.start call.stop)
      (Plan.addCall config callee registry path source plan call) := by
  obtain ⟨starts, ordered, stops, inside⟩ := calls_within member
  unfold Plan.addCall
  by_cases blank : (call.argumentText source).isAllBlank = true
  · simp only [blank, ↓reduceIte]
    exact confined
  · simp only [blank, Bool.false_eq_true, ↓reduceIte]
    have size : (call.argumentText source).length = call.argumentStop - call.argumentStart :=
      Text.length_slice (stops.trans inside)
    have nonempty : 0 < (call.argumentText source).length := by
      refine List.length_pos_iff.mpr fun empty => ?_
      simp [empty, Text.isAllBlank] at blank
    have parsed : Plan.argumentExpression (call.argumentText source) <+: call.argumentText source :=
      argumentExpression_prefix _
    have shorter := parsed.length_le
    have evaluated : Leads (fun _ => True) (Tells source call.start call.stop)
        (plan.evaluateAt source (Plan.argumentExpression (call.argumentText source)) call.argumentStart) := by
      refine (plan.evaluateAt_local source _ call.argumentStart).weaken ?_
      rintro cause (⟨defect, same⟩ | ⟨position, told, reached⟩)
      · exact .defect same
      · exact .of_reached (parsed.trans (Text.standsAt_slice source _ _)) starts (by omega) (by omega) reached told
    refine evaluated.bind fun entries _ => ?_
    have added : Leads (fun next => next.1.editor = plan.editor) (Tells source call.start call.stop)
        (plan.addEntries config callee registry path (Position.ofOffset source call.argumentStart) entries) := by
      refine (plan.addEntries_local config callee registry path _ entries).weaken ?_
      rintro cause (⟨defect, same⟩ | told | ⟨key, same⟩)
      · exact .defect same
      · exact .placed starts (by omega) told
      · exact .entry same
    refine added.bind ?_
    rintro ⟨next, members⟩ same
    exact overwrite_confined (confined.of_editor same) _ (by omega) inside (by omega) (.call option member rfl rfl)

/-- Elements of the source leave a plan confined. -/
theorem elements_confined {attrName : Text} (option : config.attrName = .ok attrName) {items : List Element}
    (inside : ∀ element ∈ items, element ∈ elements source) :
    Leads (Confined config source) (fun _ => True)
      (items.foldlM (Plan.addElement config attrName registry path source) (.ofSource source)) := by
  have start : Confined config source (.ofSource source) := by
    refine ⟨rfl, .nil, ?_, ?_, ?_⟩ <;> simp [Plan.ofSource, Editor.ofSource]
  refine Leads.foldlM (fun element member plan confined => ?_) start
  cases found : element.attribute? attrName with
  | none => simpa only [Plan.addElement, found, Leads] using confined
  | some attr =>
    exact (addElement_local option (inside element member) (by simp [found]) confined found).weaken fun _ _ => trivial

theorem calls_confined {callee : Text} (option : config.callee = .ok callee) {items : List Call}
    (inside : ∀ call ∈ items, call ∈ calls callee source) (confined : Confined config source plan) :
    Leads (Confined config source) (fun _ => True)
      (items.foldlM (Plan.addCall config callee registry path source) plan) :=
  Leads.foldlM (fun call member _ confined =>
    (addCall_local option (inside call member) confined).weaken fun _ _ => trivial) confined

end Steps

variable {config : Config} {registry : Registry} {path source : Text}

/-- The edits of a plan for a source are apart from each other and within its declarations. -/
theorem plan_confined {plan : Plan} (planned : Session.plan config registry path source = .ok plan) :
    Confined config source plan := by
  have leads : Leads (Confined config source) (fun _ => True) (Session.plan config registry path source) := by
    unfold Session.plan
    refine (Leads.usable fun _ named => named).bind fun attrName attrOption => ?_
    refine (Leads.usable fun _ named => named).bind fun callee calleeOption => ?_
    refine (elements_confined attrOption fun _ => mem_of_mem_mentionedElements).bind fun plan confined => ?_
    exact calls_confined calleeOption (fun _ => mem_of_mem_mentionedCalls) confined
  rw [planned] at leads
  exact leads

/-- A declaration that planning stops at, when everything in front of it has been planned: the style attribute of an
element or a call, from its start to its end. -/
inductive StopsAt (config : Config) (registry : Registry) (path source : Text) (stop : Stop) : Nat → Nat → Prop where
  | element {attrName : Text} {before after : List Element} {element : Element} {attr : Attribute} {plan : Plan}
      (option : config.attrName = .ok attrName)
      (order : mentionedElements attrName source = before ++ element :: after)
      (planned : before.foldlM (Plan.addElement config attrName registry path source) (.ofSource source) = .ok plan)
      (declares : element.attribute? attrName = some attr)
      (stops : Plan.addElement config attrName registry path source plan element = .error stop) :
      StopsAt config registry path source stop attr.start attr.stop
  | call {attrName callee : Text} {before after : List Call} {call : Call} {first plan : Plan}
      (attrOption : config.attrName = .ok attrName) (option : config.callee = .ok callee)
      (elements : (mentionedElements attrName source).foldlM
        (Plan.addElement config attrName registry path source) (.ofSource source) = .ok first)
      (order : mentionedCalls callee source = before ++ call :: after)
      (planned : before.foldlM (Plan.addCall config callee registry path source) first = .ok plan)
      (stops : Plan.addCall config callee registry path source plan call = .error stop) :
      StopsAt config registry path source stop call.start call.stop

/-- What goes wrong with a list of items goes wrong with one of them, behind those in front of it. -/
theorem stops_of_foldlM {α ι : Type} {items : List ι} {step : α → ι → Planning α} {a : α} {stop : Stop}
    (stopped : items.foldlM step a = .error stop) :
    ∃ before item after b, items = before ++ item :: after ∧ before.foldlM step a = .ok b ∧
      step b item = .error stop := by
  induction items generalizing a with
  | nil => cases stopped
  | cons item items ih =>
    rw [List.foldlM_cons] at stopped
    cases stepped : step a item with
    | error other =>
      rw [stepped] at stopped
      exact ⟨[], item, items, a, rfl, rfl, stepped.trans stopped⟩
    | ok next =>
      rw [stepped] at stopped
      obtain ⟨before, other, after, b, rfl, planned, stops⟩ := ih stopped
      refine ⟨item :: before, other, after, b, rfl, ?_, stops⟩
      rw [List.foldlM_cons, stepped]
      exact planned

/-- Planning elements stops at one of them. -/
theorem elements_stop {attrName : Text} (option : config.attrName = .ok attrName) {stop : Stop}
    (stopped : (mentionedElements attrName source).foldlM
      (Plan.addElement config attrName registry path source) (.ofSource source) = .error stop) :
    ∃ start stop', StopsAt config registry path source stop start stop' ∧ Tells source start stop' stop.cause := by
  obtain ⟨before, element, after, plan, order, planned, stops⟩ := stops_of_foldlM stopped
  have inside : ∀ item ∈ before ++ element :: after, item ∈ elements source :=
    fun item member => mem_of_mem_mentionedElements (order ▸ member)
  have confined : Leads (Confined config source) (fun _ => True)
      (before.foldlM (Plan.addElement config attrName registry path source) (.ofSource source)) :=
    elements_confined option fun item member => inside item (List.mem_append_left _ member)
  rw [planned] at confined
  cases found : element.attribute? attrName with
  | none => simp [Plan.addElement, found] at stops
  | some attr =>
    have member := inside element (List.mem_append_right _ List.mem_cons_self)
    have leads : Leads (Confined config source) (Tells source attr.start attr.stop)
        (Plan.addElement config attrName registry path source plan element) :=
      addElement_local option member (by simp [found]) confined found
    rw [stops] at leads
    exact ⟨_, _, .element option order planned found stops, leads⟩

/-- Planning calls behind the elements stops at one of them. -/
theorem calls_stop {attrName callee : Text} (attrOption : config.attrName = .ok attrName)
    (option : config.callee = .ok callee) {first : Plan} {stop : Stop}
    (planned : (mentionedElements attrName source).foldlM
      (Plan.addElement config attrName registry path source) (.ofSource source) = .ok first)
    (stopped : (mentionedCalls callee source).foldlM (Plan.addCall config callee registry path source) first =
      .error stop) :
    ∃ start stop', StopsAt config registry path source stop start stop' ∧ Tells source start stop' stop.cause := by
  obtain ⟨before, call, after, plan, order, further, stops⟩ := stops_of_foldlM stopped
  have inside : ∀ item ∈ before ++ call :: after, item ∈ calls callee source :=
    fun item member => mem_of_mem_mentionedCalls (order ▸ member)
  have elementsConfined : Leads (Confined config source) (fun _ => True)
      ((mentionedElements attrName source).foldlM
        (Plan.addElement config attrName registry path source) (.ofSource source)) :=
    elements_confined attrOption fun _ => mem_of_mem_mentionedElements
  rw [planned] at elementsConfined
  have confined : Leads (Confined config source) (fun _ => True)
      (before.foldlM (Plan.addCall config callee registry path source) first) :=
    calls_confined option (fun item member => inside item (List.mem_append_left _ member)) elementsConfined
  rw [further] at confined
  have leads : Leads (Confined config source) (Tells source call.start call.stop)
      (Plan.addCall config callee registry path source plan call) :=
    addCall_local option (inside call (List.mem_append_right _ List.mem_cons_self)) confined
  rw [stops] at leads
  exact ⟨_, _, .call attrOption option planned order further stops, leads⟩

/-- Planning stops for a defect, or at a declaration that its cause lies in. -/
theorem plan_stops {stop : Stop} (stopped : Session.plan config registry path source = .error stop) :
    (∃ defect, stop.cause = .defect defect) ∨
      ∃ start stop', StopsAt config registry path source stop start stop' ∧ Tells source start stop' stop.cause := by
  unfold Session.plan at stopped
  cases attrOption : config.attrName with
  | error defect =>
    rw [attrOption] at stopped
    cases stopped
    exact .inl ⟨defect, rfl⟩
  | ok attrName =>
    cases option : config.callee with
    | error defect =>
      rw [attrOption, option] at stopped
      cases stopped
      exact .inl ⟨defect, rfl⟩
    | ok callee =>
      rw [attrOption, option] at stopped
      simp only [Plan.usable, Except.bind] at stopped
      right
      split at stopped
      · rename_i failed
        obtain rfl := Except.error.inj stopped
        exact elements_stop attrOption failed
      · rename_i planned
        exact calls_stop attrOption option planned stopped

end StaticStyle.Session
