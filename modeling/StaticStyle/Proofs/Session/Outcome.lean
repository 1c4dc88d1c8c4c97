import StaticStyle.Proofs.Markup.Span
import StaticStyle.Proofs.Session.Planning
import StaticStyle.Proofs.Source.Edit
import StaticStyle.Proofs.Style.Shape

/-!
What comes of planning a file. Either there is a plan, in which every identity has a rule and every class is
written by an edit, or planning has stopped for a cause that the options or the declarations of the source
explain. Each function of planning has one lemma that says so.
-/

namespace StaticStyle

/-- Every option is of the kind that it is declared with. -/
structure Config.IsTyped (config : Config) : Prop where
  classStem : ∃ text, config.classStem = .text text
  attrName : ∃ text, config.attrName = .ok text
  classAttr : ∃ text, config.classAttr = .text text
  callee : ∃ text, config.callee = .ok text
  hashLength : ∃ length, config.hashLength = .ok length
  extensions : ∀ ending ∈ config.extensions, ∃ text, ending = .ok text
  assetId : ∃ text, config.assetId = .text text

theorem Value.shown_text (text : Text) : (Value.text text).shown = .ok text := rfl

namespace Session

open Expression Markup Style

/-- Planning comes to a good end, or it stops for a cause of some kind. -/
def Leads {α : Type} (good : α → Prop) (bad : Cause → Prop) : Planning α → Prop
  | .ok a => good a
  | .error stop => bad stop.cause

namespace Leads

variable {α β : Type} {good : α → Prop} {good' : β → Prop} {bad : Cause → Prop}

theorem bind {first : Planning α} {next : α → Planning β} (leads : Leads good bad first)
    (onward : ∀ a, good a → Leads good' bad (next a)) : Leads good' bad (first.bind next) := by
  cases first with
  | error stop => exact leads
  | ok a => exact onward a leads

theorem foldlM {ι : Type} {items : List ι} {step : α → ι → Planning α}
    (leads : ∀ item ∈ items, ∀ a, good a → Leads good bad (step a item)) {a : α} (start : good a) :
    Leads good bad (items.foldlM step a) := by
  induction items generalizing a with
  | nil => exact start
  | cons item items ih =>
    rw [List.foldlM_cons]
    refine bind (leads item List.mem_cons_self a start) fun next reached => ?_
    exact ih (fun item member => leads item (List.mem_cons_of_mem _ member)) reached

end Leads

/-- The expression that an element declares a style by, and where it stands. -/
def elementText? (attrName source : Text) (element : Element) : Option (Text × Nat) :=
  (element.attribute? attrName).bind fun attr =>
    if attr.kind = .expression then some (attr.valueText source, attr.valueStart) else none

/-- The expression that a call declares styles by, and where it stands. -/
def callText? (source : Text) (call : Call) : Option (Text × Nat) :=
  let argument := call.argumentText source
  if argument.isAllBlank then none else some (Plan.argumentExpression argument, call.argumentStart)

/-- Every expression of a source that has to be a static object, and where it stands. -/
def declaredTexts (config : Config) (source : Text) : List (Text × Nat) :=
  match config.attrName, config.callee with
  | .ok attrName, .ok callee =>
    (mentionedElements attrName source).filterMap (elementText? attrName source) ++
      (mentionedCalls callee source).filterMap (callText? source)
  | _, _ => []

/-- The defects that declarations of a source can have: a string denotes no code point, or the canonical text
of a style cannot be written or has no bytes. -/
inductive DeclaredDefect (config : Config) (source : Text) : Defect → Prop where
  | outOfRange {text : Text} {offset : Nat} {escape : OutOfRange}
      (member : (text, offset) ∈ declaredTexts config source)
      (found : parse text ⟨offset, Position.ofOffset source offset⟩ = .error (.outOfRange escape)) :
      DeclaredDefect config source .outOfRange
  | undigested {style : Fields Value} {defect : Defect} (member : style ∈ declaredStyles config source)
      (found : digest (.object style) = .error defect) : DeclaredDefect config source defect

/-- Why planning may stop. A defect comes from an option or from a declaration, and no edit is outside the
source. -/
def Explained (config : Config) (source : Text) : Cause → Prop
  | .defect defect => ¬ config.IsTyped ∨ DeclaredDefect config source defect
  | .overlappingEdit (.outside ..) => False
  | _ => True

/-- A call of the source declares a style of an identity. -/
def DeclaredByCall (config : Config) (source identity : Text) : Prop :=
  ∃ callee, config.callee = .ok callee ∧ ∃ call ∈ mentionedCalls callee source,
    ∃ style ∈ callStyles source call, ∃ name,
      Plan.nameStyle config (.object style) = .ok (identity, name)

/-- The class of an identity stands in a text, as it is or, for a style that a call declares, in JSON. -/
def WrittenIn (config : Config) (source text identity : Text) : Prop :=
  ∃ stem, config.classStem.shown = .ok stem ∧
    (className stem identity <:+: text ∨
      (DeclaredByCall config source identity ∧ Json.quoteAscii (className stem identity) <:+: text))

theorem WrittenIn.mono {config : Config} {source text text' identity : Text}
    (written : WrittenIn config source text identity) (inside : text <:+: text') :
    WrittenIn config source text' identity := by
  obtain ⟨stem, shown, found | ⟨byCall, found⟩⟩ := written
  · exact ⟨stem, shown, .inl (found.trans inside)⟩
  · exact ⟨stem, shown, .inr ⟨byCall, found.trans inside⟩⟩

/-- What a plan for a source is good for beside a registry. Its rules are those of declared styles, its
identities have rules or are registered, and their classes are written by edits or are still to be written. -/
structure Sound (config : Config) (registry : Registry) (source : Text) (pending : Text → Prop)
    (plan : Plan) : Prop where
  sameSource : plan.editor.source = source
  rules : RulesOf config [source] plan.rules
  known : ∀ identity ∈ plan.identities,
    Fields.contains identity plan.rules = true ∨ Fields.contains identity registry = true
  written : ∀ identity ∈ plan.identities, pending identity ∨
    ∃ edit ∈ plan.editor.recorded, WrittenIn config source edit.text identity

/-- A plan with nothing left to be written. -/
abbrev Finished (config : Config) (registry : Registry) (source : Text) (plan : Plan) : Prop :=
  Sound config registry source (fun _ => False) plan

section Steps

variable {config : Config} {registry : Registry} {source : Text} {pending pending' : Text → Prop}
  {plan : Plan}

theorem Sound.weaken (sound : Sound config registry source pending plan)
    (further : ∀ identity, pending identity → pending' identity) :
    Sound config registry source pending' plan :=
  { sound with
    written := fun identity member => (sound.written identity member).imp_left (further identity) }

theorem Sound.count (sound : Sound config registry source pending plan) (declarations : Nat) :
    Sound config registry source pending { plan with declarations } :=
  ⟨sound.sameSource, sound.rules, sound.known, sound.written⟩

theorem ofSource_sound : Finished config registry source (.ofSource source) where
  sameSource := rfl
  rules := by simp [RulesOf, Plan.ofSource]
  known := by simp [Plan.ofSource]
  written := by simp [Plan.ofSource]

theorem usable_leads {α : Type} {outcome : Except Defect α}
    (typed : config.IsTyped → ∃ a, outcome = .ok a) :
    Leads (fun a => outcome = .ok a) (Explained config source) (plan.usable outcome) := by
  cases outcome with
  | ok a => rfl
  | error defect => exact .inl fun isTyped => by simpa using typed isTyped

/-- An edit inside the source is recorded, unless an earlier one is in its way. What is still to be written is
written by it, or it is left for later. -/
theorem overwrite_leads (sound : Sound config registry source pending plan) {start stop : Nat}
    (ordered : start ≤ stop) (inside : stop ≤ source.length) {text : Text}
    (writes : ∀ identity, pending identity →
      pending' identity ∨ WrittenIn config source text identity) :
    Leads (Sound config registry source pending') (Explained config source)
      (plan.overwrite start stop text) := by
  unfold Plan.overwrite
  rcases plan.editor.overwrite_cases text ordered (sound.sameSource ▸ inside) with recorded | refused
  · rw [recorded]
    refine ⟨sound.sameSource, sound.rules, sound.known, ?_⟩
    intro identity member
    rcases sound.written identity member with waits | ⟨edit, found, written⟩
    · refine (writes identity waits).imp_right fun written => ?_
      exact ⟨_, List.mem_append_right _ (List.mem_singleton.mpr rfl), written⟩
    · exact .inr ⟨edit, List.mem_append_left _ found, written⟩
  · obtain ⟨earlier, -, -, refused⟩ := refused
    rw [refused]
    trivial

/-- A declared text is parsed and evaluated to its fields. -/
theorem evaluateAt_leads {text : Text} {offset : Nat}
    (member : (text, offset) ∈ declaredTexts config source) :
    Leads (fun fields => fieldsAt? source text offset = some fields) (Explained config source)
      (plan.evaluateAt source text offset) := by
  cases parsed : parse text ⟨offset, Position.ofOffset source offset⟩ with
  | error fault =>
    cases fault with
    | unexpected position => simp only [Plan.evaluateAt, Plan.parseAt, parsed, Plan.stop, Leads, Explained]
    | outOfRange escape =>
      simp only [Plan.evaluateAt, Plan.parseAt, parsed, Plan.stop, Leads, Explained]
      exact .inr (.outOfRange member parsed)
  | ok node =>
    cases evaluated : evaluateObject node with
    | error rejection =>
      simp only [Plan.evaluateAt, Plan.parseAt, parsed, evaluated, Plan.stop, Leads, Explained]
    | ok fields =>
      simp only [Plan.evaluateAt, Plan.parseAt, parsed, evaluated, Leads, fieldsAt?, Except.toOption]

/-- A style has no name only if its text has no digest or an option is of the wrong kind. -/
theorem nameStyle_error {style : Value} {defect : Defect}
    (unnamed : Plan.nameStyle config style = .error defect) :
    ¬ config.IsTyped ∨ digest style = .error defect := by
  unfold Plan.nameStyle at unnamed
  cases digested : digest style with
  | error found =>
    simp only [bind, Except.bind, digested, Except.error.injEq] at unnamed
    exact .inr (congrArg _ unnamed)
  | ok digits =>
    left
    intro typed
    obtain ⟨length, hashLength⟩ := typed.hashLength
    obtain ⟨stem, classStem⟩ := typed.classStem
    simp [bind, Except.bind, pure, Except.pure, digested, hashLength, classStem,
      Value.shown_text] at unnamed

/-- A declared style has a name and a rule, or it cannot be planned. Its class is still to be written. -/
theorem addStyle_leads (sound : Sound config registry source pending plan) (path : Text)
    (position : Position) {style : Fields Value} (member : style ∈ declaredStyles config source) :
    Leads
      (fun next => ∃ identity, Plan.nameStyle config (.object style) = .ok (identity, next.2) ∧
        Sound config registry source (fun other => pending other ∨ other = identity) next.1)
      (Explained config source) (plan.addStyle config registry path position style) := by
  cases named : Plan.nameStyle config (.object style) with
  | error defect =>
    simp only [Plan.addStyle, named, Plan.usable, Plan.stop, Except.bind, Leads, Explained]
    exact (nameStyle_error named).imp_right (.undigested member)
  | ok names =>
    obtain ⟨identity, name⟩ := names
    have written (recorded : List Edit) (same : recorded = plan.editor.recorded) :
        ∀ other ∈ plan.identities ++ [identity], (pending other ∨ other = identity) ∨
          ∃ edit ∈ recorded, WrittenIn config source edit.text other := by
      intro other found
      rcases List.mem_append.mp found with found | found
      · rw [same]
        exact (sound.written other found).imp_left .inl
      · exact .inl (.inr (List.mem_singleton.mp found))
    simp only [Plan.addStyle, named, Plan.usable, Except.bind]
    split
    · rename_i known
      refine ⟨identity, rfl, sound.sameSource, sound.rules, ?_, written _ rfl⟩
      intro other found
      rcases List.mem_append.mp found with found | found
      · exact sound.known other found
      · rw [List.mem_singleton.mp found]
        exact Bool.or_eq_true_iff.mp known
    · cases compiled : (compile config.themeStem name identity style).result with
      | error invalid =>
        obtain ⟨_, _, _, digested, -⟩ := nameStyle_ok named
        have lacksStamps : (Value.object style).lacksStamps = true :=
          Value.fieldsLackStamps_of_areListFree (declaredStyles_isListFree member)
        have blamed := defect?_of_isWritable (isWritable_of_digest lacksStamps digested) compiled
        simp only [Cause.ofStyle, blamed]
        trivial
      | ok rule =>
        refine ⟨identity, rfl, sound.sameSource, ?_, ?_, written _ rfl⟩
        · intro entry found
          rcases Fields.mem_put found with rfl | found
          · exact ⟨style, by simpa using member, name, named, compiled⟩
          · exact sound.rules entry found
        · intro other found
          simp only [Fields.contains_iff, Fields.get?_put]
          by_cases same : other = identity
          · exact .inl ⟨rule, if_pos same⟩
          · have before : other ∈ plan.identities := by simpa [same] using found
            simpa only [Fields.contains_iff, if_neg same] using sound.known other before

theorem WrittenIn.of_name {style : Value} {identity name text : Text}
    (named : Plan.nameStyle config style = .ok (identity, name)) (inside : name <:+: text) :
    WrittenIn config source text identity := by
  obtain ⟨-, -, stem, -, -, shown, -, rfl⟩ := nameStyle_ok named
  exact ⟨stem, shown, .inl inside⟩

private theorem attribute_within {element : Element} {attr : Attribute} (member : element ∈ elements source)
    (found : attr ∈ element.attributes) : attr.Within 0 source.length :=
  have within := elements_within member
  (within.attributes attr found).widen (Nat.zero_le _) within.stop

section Rewriting

variable {style : Value} {identity name : Text}

private theorem writeClass_leads
    (sound : Sound config registry source (fun other => other = identity) plan)
    (named : Plan.nameStyle config style = .ok (identity, name)) {attr : Attribute}
    (within : attr.Within 0 source.length) :
    Leads (Finished config registry source) (Explained config source)
      (plan.writeClass config attr name) := by
  have typed : config.IsTyped → ∃ text, Plan.classAttribute config name = .ok text := by
    intro typed
    obtain ⟨attrName, classAttr⟩ := typed.classAttr
    exact ⟨attrName ++ "=\"" ++ name ++ "\"", by rw [Plan.classAttribute, classAttr]; rfl⟩
  refine (usable_leads typed).bind fun text written => ?_
  obtain ⟨attrName, -, rfl⟩ : ∃ attrName : Text, config.classAttr.shown = .ok attrName ∧
      attrName ++ "=\"" ++ name ++ "\"" = text := by
    unfold Plan.classAttribute at written
    cases shown : config.classAttr.shown with
    | error defect => simp [shown, Except.map] at written
    | ok attrName => exact ⟨attrName, rfl, by simpa [shown, Except.map] using written⟩
  have ordered : attr.start ≤ attr.stop :=
    within.valueStart.trans (within.value.trans within.valueStop)
  refine overwrite_leads sound ordered within.stop ?_
  rintro other rfl
  exact .inr (.of_name named (List.infix_append _ _ _))

private theorem extendClass_leads
    (sound : Sound config registry source (fun other => other = identity) plan)
    (named : Plan.nameStyle config style = .ok (identity, name)) {attr : Attribute}
    (within : attr.Within 0 source.length) :
    Leads (Finished config registry source) (Explained config source)
      (plan.extendClass config source attr name) := by
  have inside : attr.valueStop ≤ source.length := within.valueStop.trans within.stop
  unfold Plan.extendClass
  split
  · refine overwrite_leads sound within.value inside ?_
    rintro other rfl
    have joined : name <:+: if (source.slice (attr.valueStart + 1) (attr.valueStop - 1)).strip.isEmpty
        then name else source.slice (attr.valueStart + 1) (attr.valueStop - 1) ++ " " ++ name := by
      split
      · exact List.infix_rfl
      · exact (List.suffix_append _ _).isInfix
    exact .inr (.of_name named (joined.trans (List.infix_append _ _ _)))
  · refine overwrite_leads sound within.value inside ?_
    rintro other rfl
    exact .inr (.of_name named (List.infix_append _ _ _))
  · exact writeClass_leads sound named within

private theorem rewriteElement_leads
    (sound : Sound config registry source (fun other => other = identity) plan)
    (named : Plan.nameStyle config style = .ok (identity, name)) {element : Element} {attr : Attribute}
    (member : element ∈ elements source) (found : attr ∈ element.attributes) :
    Leads (Finished config registry source) (Explained config source)
      (plan.rewriteElement config source element attr name) := by
  have within := attribute_within member found
  unfold Plan.rewriteElement
  split
  · exact writeClass_leads sound named within
  · rename_i classAttr extended
    obtain ⟨className, -, extended⟩ := Option.bind_eq_some_iff.mp extended
    have ordered : attr.start ≤ attr.stop :=
      within.valueStart.trans (within.value.trans within.valueStop)
    refine (overwrite_leads sound ordered within.stop fun other => .inl).bind fun next sound => ?_
    exact extendClass_leads sound named
      (attribute_within member (List.mem_of_find?_eq_some extended))

end Rewriting

private theorem addElement_leads (sound : Finished config registry source plan) (path : Text)
    {attrName : Text} {element : Element} (member : element ∈ elements source)
    (declaredText : ∀ declared, elementText? attrName source element = some declared →
      declared ∈ declaredTexts config source)
    (declaredStyle : ∀ style, elementStyle? attrName source element = some style →
      style ∈ declaredStyles config source) :
    Leads (Finished config registry source) (Explained config source)
      (Plan.addElement config attrName registry path source plan element) := by
  unfold Plan.addElement
  cases found : element.attribute? attrName with
  | none => exact sound
  | some attr =>
    by_cases expression : attr.kind = .expression
    · simp only [expression, ne_eq, not_true_eq_false, ↓reduceIte]
      have text := declaredText (attr.valueText source, attr.valueStart)
        (by simp [elementText?, found, expression])
      refine (evaluateAt_leads text).bind fun style evaluated => ?_
      have isDeclared := declaredStyle style (by simp [elementStyle?, found, expression, evaluated])
      refine (addStyle_leads sound path _ isDeclared).bind ?_
      rintro ⟨next, name⟩ ⟨identity, named, reached⟩
      have waits : Sound config registry source (fun other => other = identity) next :=
        reached.weaken fun other => Or.rec False.elim id
      exact rewriteElement_leads (waits.count _) named member (List.mem_of_find?_eq_some found)
    · simp only [ne_eq, expression, not_false_eq_true, ↓reduceIte]
      trivial

/-- The styles of a call are planned with a member for each, in which its class is written. -/
private theorem addEntries_leads (path callee : Text) (position : Position) {entries : Fields Value}
    (declared : ∀ entry ∈ entries, ∀ style, entry.2.fields? = some style →
      style ∈ declaredStyles config source ∧
        ∀ identity name, Plan.nameStyle config (.object style) = .ok (identity, name) →
          DeclaredByCall config source identity)
    (sound : Sound config registry source pending plan) :
    Leads
      (fun next => Sound config registry source
        (fun identity => pending identity ∨ ∃ member ∈ next.2, WrittenIn config source member identity)
        next.1)
      (Explained config source)
      (Plan.addEntries config callee registry path position plan entries) := by
  induction entries generalizing plan pending with
  | nil => exact sound.weaken fun _ => .inl
  | cons entry entries ih =>
    obtain ⟨key, value⟩ := entry
    cases value with
    | object style =>
      obtain ⟨isDeclared, byCall⟩ := declared _ List.mem_cons_self style rfl
      refine (addStyle_leads sound path position isDeclared).bind ?_
      rintro ⟨next, name⟩ ⟨identity, named, reached⟩
      refine (ih (fun entry member => declared entry (List.mem_cons_of_mem _ member))
        (reached.count _)).bind ?_
      rintro ⟨last, members⟩ finished
      refine Sound.weaken finished ?_
      rintro other ((waits | rfl) | ⟨member, found, written⟩)
      · exact .inl waits
      · refine .inr ⟨_, List.mem_cons_self, ?_⟩
        obtain ⟨-, -, stem, -, -, shown, -, rfl⟩ := nameStyle_ok named
        exact ⟨stem, shown, .inr ⟨byCall _ _ named, (List.suffix_append _ _).isInfix⟩⟩
      · exact .inr ⟨member, List.mem_cons_of_mem _ found, written⟩
    | _ => trivial

private theorem addCall_leads (sound : Finished config registry source plan) (path : Text)
    {callee : Text} {call : Call} (option : config.callee = .ok callee)
    (member : call ∈ mentionedCalls callee source)
    (declaredText : ∀ declared, callText? source call = some declared →
      declared ∈ declaredTexts config source)
    (declaredStyle : ∀ style ∈ callStyles source call, style ∈ declaredStyles config source) :
    Leads (Finished config registry source) (Explained config source)
      (Plan.addCall config callee registry path source plan call) := by
  unfold Plan.addCall
  by_cases blank : (call.argumentText source).isAllBlank = true
  · simp only [blank, ↓reduceIte]
    exact sound
  · simp only [blank, Bool.false_eq_true, ↓reduceIte]
    have text := declaredText
      (Plan.argumentExpression (call.argumentText source), call.argumentStart)
      (by simp only [callText?, blank, Bool.false_eq_true, ↓reduceIte])
    refine (evaluateAt_leads text).bind fun entries evaluated => ?_
    have called : ∀ entry ∈ entries, ∀ style, entry.2.fields? = some style →
        style ∈ callStyles source call := by
      intro entry found style isStyle
      simp only [callStyles, blank, Bool.false_eq_true, ↓reduceIte, evaluated, Option.getD_some]
      exact List.mem_filterMap.mpr ⟨entry, found, isStyle⟩
    refine (addEntries_leads path callee _ ?_ sound).bind ?_
    · intro entry found style isStyle
      have isCalled := called entry found style isStyle
      exact ⟨declaredStyle style isCalled, fun identity name named =>
        ⟨callee, option, call, member, style, isCalled, name, named⟩⟩
    · rintro ⟨next, members⟩ reached
      have inside : call ∈ calls callee source := by
        unfold mentionedCalls at member
        split at member
        · exact member
        · simp at member
      obtain ⟨front, ordered, back, stop⟩ := calls_within inside
      refine overwrite_leads reached (front.trans (ordered.trans back)) stop ?_
      rintro identity (never | ⟨member, found, written⟩)
      · exact never.elim
      · refine .inr (written.mono ?_)
        exact (Text.infix_join found List.infix_rfl).trans (List.infix_append _ _ _)

/-- Planning a file ends with a plan that is finished, or it stops for a cause that the options or the
declarations explain. -/
theorem plan_leads (path : Text) :
    Leads (Finished config registry source) (Explained config source)
      (Session.plan config registry path source) := by
  unfold Session.plan
  refine (usable_leads fun typed => typed.attrName).bind fun attrName attrOption => ?_
  refine (usable_leads fun typed => typed.callee).bind fun callee calleeOption => ?_
  have texts : declaredTexts config source =
      (mentionedElements attrName source).filterMap (elementText? attrName source) ++
        (mentionedCalls callee source).filterMap (callText? source) := by
    simp only [declaredTexts, attrOption, calleeOption]
  have styles : declaredStyles config source =
      (mentionedElements attrName source).filterMap (elementStyle? attrName source) ++
        (mentionedCalls callee source).flatMap (callStyles source) := by
    simp only [declaredStyles, attrOption, calleeOption]
  have elementsLead : Leads (Finished config registry source) (Explained config source)
      ((mentionedElements attrName source).foldlM
        (Plan.addElement config attrName registry path source) (.ofSource source)) := by
    refine Leads.foldlM (fun element member plan sound => ?_) ofSource_sound
    have inside : element ∈ elements source := by
      unfold mentionedElements at member
      split at member
      · exact member
      · simp at member
    refine addElement_leads sound path inside (fun declared found => ?_) fun style found => ?_
    · rw [texts]
      exact List.mem_append_left _ (List.mem_filterMap.mpr ⟨element, member, found⟩)
    · rw [styles]
      exact List.mem_append_left _ (List.mem_filterMap.mpr ⟨element, member, found⟩)
  refine elementsLead.bind fun plan sound => Leads.foldlM (fun call member plan sound => ?_) sound
  refine addCall_leads sound path calleeOption member (fun declared found => ?_) fun style found => ?_
  · rw [texts]
    exact List.mem_append_right _ (List.mem_filterMap.mpr ⟨call, member, found⟩)
  · rw [styles]
    exact List.mem_append_right _ (List.mem_flatMap.mpr ⟨call, member, found⟩)

end Steps

end Session

end StaticStyle
