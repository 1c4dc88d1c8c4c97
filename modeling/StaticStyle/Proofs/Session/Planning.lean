import StaticStyle.Proofs.Expression.Evaluate
import StaticStyle.Proofs.Fields
import StaticStyle.Proofs.Style.Acceptance
import StaticStyle.Proofs.Style.KeyOrder
import StaticStyle.Session.Plan

/-!
Plans do not depend on what is registered. A style whose identity is known is not compiled again, so a fault
in it could go unseen; but what is known was compiled without a fault, and as long as one identity means one
canonical text, that was the same style up to the order of its keys.
-/

namespace StaticStyle.Session

open Expression Markup Style

/-- The fields that an expression stands for, if it is a static object. -/
def fieldsAt? (source text : Text) (offset : Nat) : Option (Fields Value) :=
  match parse text ⟨offset, Position.ofOffset source offset⟩ with
  | .ok node => (evaluateObject node).toOption
  | .error _ => none

/-- The style that an element declares, if it declares one. -/
def elementStyle? (attrName source : Text) (element : Element) : Option (Fields Value) :=
  (element.attribute? attrName).bind fun attr =>
    if attr.kind = .expression then fieldsAt? source (attr.valueText source) attr.valueStart
    else none

/-- The styles that a call declares. -/
def callStyles (source : Text) (call : Call) : List (Fields Value) :=
  let argument := call.argumentText source
  if argument.isAllBlank then []
  else
    let entries := fieldsAt? source (Plan.argumentExpression argument) call.argumentStart
    (entries.getD []).filterMap fun entry => entry.2.fields?

/-- The styles that a source declares. -/
def declaredStyles (config : Config) (source : Text) : List (Fields Value) :=
  match config.attrName, config.callee with
  | .ok attrName, .ok callee =>
    (mentionedElements attrName source).filterMap (elementStyle? attrName source) ++
      (mentionedCalls callee source).flatMap (callStyles source)
  | _, _ => []

/-- No two styles that the sources declare share an identity, unless their canonical texts are equal. -/
def NoClash (config : Config) (sources : List Text) : Prop :=
  ∀ style ∈ sources.flatMap (declaredStyles config),
    ∀ style' ∈ sources.flatMap (declaredStyles config),
      ∀ identity name name', Plan.nameStyle config (.object style) = .ok (identity, name) →
        Plan.nameStyle config (.object style') = .ok (identity, name') →
          Json.canonical (.object style) = Json.canonical (.object style')

/-- A rule is the compiled form of a style that one of the sources declares. -/
def IsRuleOf (config : Config) (sources : List Text) (identity : Text) (rule : Rule) : Prop :=
  ∃ style ∈ sources.flatMap (declaredStyles config), ∃ name,
    Plan.nameStyle config (.object style) = .ok (identity, name) ∧
      (compile config.themeStem name identity style).result = .ok rule

/-- A name is made of the digest of the style, of the number of digits and of the beginning of classes. -/
theorem nameStyle_ok {config : Config} {style : Value} {identity name : Text}
    (named : Plan.nameStyle config style = .ok (identity, name)) :
    ∃ digits length stem, digest style = .ok digits ∧ config.hashLength = .ok length ∧
      config.classStem.shown = .ok stem ∧ identity = digits.leading length ∧
      name = className stem identity := by
  unfold Plan.nameStyle at named
  cases digested : digest style with
  | error defect => simp [bind, Except.bind, digested] at named
  | ok digits =>
    cases hashLength : config.hashLength with
    | error defect => simp [bind, Except.bind, digested, hashLength] at named
    | ok length =>
      cases shown : config.classStem.shown with
      | error defect => simp [bind, Except.bind, digested, hashLength, shown] at named
      | ok stem =>
        simp only [bind, Except.bind, digested, hashLength, shown, pure, Except.pure,
          Except.ok.injEq, Prod.mk.injEq] at named
        exact ⟨digits, length, stem, rfl, rfl, rfl, named.1.symm, by rw [← named.2, ← named.1]⟩

/-- What holds of the sixteen digits, the hyphen and the beginning of a class holds of the whole class. -/
theorem all_className {p : CodePoint → Bool} {style : Value} {digits stem : Text} (digested : digest style = .ok digits)
    (digit : ∀ n < 16, p (.char (Nat.digitChar n)) = true) (hyphen : p '-' = true) (beginning : stem.all p = true)
    (length : Int) : (className stem (digits.leading length)).all p = true := by
  have allDigits : digits.all p = true := by
    obtain ⟨-, bytes, -, rfl⟩ := digest_eq_ok_iff.mp digested
    rw [Md5.hexDigest, List.all_flatMap, List.all_eq_true]
    exact fun byte _ => Json.all_hexDigits digit 2 byte.toNat
  have leading : (digits.leading length).all p = true := by
    rw [List.all_eq_true] at allDigits ⊢
    intro c member
    refine allDigits c ?_
    unfold Text.leading at member
    split at member <;> exact List.mem_of_mem_take member
  rw [className, List.all_append, List.all_cons, beginning, hyphen, leading]
  rfl

/-- A rule bears the identity and the class that its style was compiled for. -/
theorem compile_names {stem name identity : Text} {style : Fields Value} {rule : Rule}
    (compiled : (compile stem name identity style).result = .ok rule) :
    rule.identity = identity ∧ rule.className = name := by
  simp only [compile, Report.bind] at compiled
  split at compiled
  · simp at compiled
  · simp only [Report.pure, Except.ok.injEq] at compiled
    rw [← compiled]
    exact ⟨rfl, rfl⟩

/-- Every rule comes from the sources. -/
def RulesOf (config : Config) (sources : List Text) (rules : Fields Rule) : Prop :=
  ∀ entry ∈ rules, IsRuleOf config sources entry.1 entry.2

/-- What stands for fields is an expression that is evaluated to them. -/
theorem fieldsAt?_eq_some {source text : Text} {offset : Nat} {fields : Fields Value}
    (found : fieldsAt? source text offset = some fields) :
    ∃ node, evaluateObject node = .ok fields := by
  unfold fieldsAt? at found
  split at found
  · rename_i node parsed
    cases evaluated : evaluateObject node with
    | error rejection => simp [evaluated, Except.toOption] at found
    | ok fields' =>
      simp only [evaluated, Except.toOption, Option.some.injEq] at found
      exact ⟨node, by rw [evaluated, found]⟩
  · simp at found

/-- A declared style is what an expression stands for, or an entry of that. -/
theorem mem_declaredStyles {config : Config} {source : Text} {style : Fields Value}
    (member : style ∈ declaredStyles config source) :
    ∃ node fields, evaluateObject node = .ok fields ∧
      (style = fields ∨ ∃ key, (key, Value.object style) ∈ fields) := by
  unfold declaredStyles at member
  split at member
  · rcases List.mem_append.mp member with member | member
    · obtain ⟨element, -, found⟩ := List.mem_filterMap.mp member
      obtain ⟨attr, -, found⟩ := Option.bind_eq_some_iff.mp found
      split at found
      · obtain ⟨node, evaluated⟩ := fieldsAt?_eq_some found
        exact ⟨node, style, evaluated, .inl rfl⟩
      · simp at found
    · obtain ⟨call, -, member⟩ := List.mem_flatMap.mp member
      simp only [callStyles] at member
      split at member
      · simp at member
      · obtain ⟨⟨key, value⟩, member, found⟩ := List.mem_filterMap.mp member
        cases entries : fieldsAt? source (Plan.argumentExpression (call.argumentText source))
            call.argumentStart with
        | none => simp [entries] at member
        | some fields =>
          simp only [entries, Option.getD_some] at member
          obtain ⟨node, evaluated⟩ := fieldsAt?_eq_some entries
          cases value with
          | object inner =>
            simp only [Value.fields?, Option.some.injEq] at found
            exact ⟨node, fields, evaluated, .inr ⟨key, found ▸ member⟩⟩
          | _ => simp [Value.fields?] at found
  · simp at member

theorem declaredStyles_isListFree {config : Config} {source : Text} {style : Fields Value}
    (member : style ∈ declaredStyles config source) : Value.areListFree style = true := by
  obtain ⟨node, fields, evaluated, rfl | ⟨key, entry⟩⟩ := mem_declaredStyles member
  · exact evaluateObject_isListFree evaluated
  · exact Value.isListFree_of_mem (evaluateObject_isListFree evaluated) entry

theorem declaredStyles_hasDistinctKeys {config : Config} {source : Text} {style : Fields Value}
    (member : style ∈ declaredStyles config source) :
    Value.fieldsHaveDistinctKeys style = true := by
  obtain ⟨node, fields, evaluated, rfl | ⟨key, entry⟩⟩ := mem_declaredStyles member
  · exact evaluateObject_hasDistinctKeys evaluated
  · exact Value.hasDistinctKeys_of_mem (evaluateObject_hasDistinctKeys evaluated) entry

section Rules

variable {config : Config} {sources : List Text}

private theorem sources_isListFree {style : Fields Value}
    (member : style ∈ sources.flatMap (declaredStyles config)) :
    Value.areListFree style = true := by
  obtain ⟨source, -, member⟩ := List.mem_flatMap.mp member
  exact declaredStyles_isListFree member

private theorem nameStyle_name {style : Value} {identity name : Text}
    (named : Plan.nameStyle config style = .ok (identity, name)) :
    config.classStem.shown.map (className · identity) = .ok name := by
  obtain ⟨digits, length, stem, -, -, shown, -, rfl⟩ := nameStyle_ok named
  simp only [shown, Except.map]

/-- A style that is declared is compiled to the rule of its identity, if there is one. -/
theorem IsRuleOf.compile_eq (noClash : NoClash config sources) {identity name : Text} {rule : Rule}
    (isRule : IsRuleOf config sources identity rule) {style : Fields Value}
    (member : style ∈ sources.flatMap (declaredStyles config))
    (named : Plan.nameStyle config (.object style) = .ok (identity, name)) :
    (compile config.themeStem name identity style).result = .ok rule := by
  obtain ⟨style', member', name', named', compiled⟩ := isRule
  have same := noClash style member style' member' identity name name' named named'
  have names := (nameStyle_name named).symm.trans (nameStyle_name named')
  rw [Except.ok.injEq] at names
  rw [compile_eq_of_canonical_eq (sources_isListFree member) (sources_isListFree member') same, names,
    compiled]

/-- Two rules of one identity are the same. -/
theorem IsRuleOf.unique (noClash : NoClash config sources) {identity : Text} {rule rule' : Rule}
    (isRule : IsRuleOf config sources identity rule)
    (isRule' : IsRuleOf config sources identity rule') : rule = rule' := by
  obtain ⟨style, member, name, named, compiled⟩ := isRule'
  have compiled' := isRule.compile_eq noClash member named
  rw [compiled, Except.ok.injEq] at compiled'
  exact compiled'.symm

end Rules

/-- Two plannings agree if both stop for the same cause, or both succeed with related results. -/
def Agree {α : Type} (related : α → α → Prop) : Planning α → Planning α → Prop
  | .ok a, .ok b => related a b
  | .error stop, .error stop' => stop.cause = stop'.cause
  | _, _ => False

namespace Agree

variable {α β : Type} {related : α → α → Prop} {related' : β → β → Prop}

theorem bind {first second : Planning α} {next next' : α → Planning β}
    (agree : Agree related first second)
    (agree' : ∀ a b, related a b → Agree related' (next a) (next' b)) :
    Agree related' (first.bind next) (second.bind next') := by
  cases first <;> cases second
  · exact agree
  · exact agree.elim
  · exact agree.elim
  · exact agree' _ _ agree

theorem foldlM {ι : Type} {items : List ι} {step step' : α → ι → Planning α}
    (agree : ∀ item ∈ items, ∀ a b, related a b → Agree related (step a item) (step' b item))
    {a b : α} (start : related a b) :
    Agree related (items.foldlM step a) (items.foldlM step' b) := by
  induction items generalizing a b with
  | nil => exact start
  | cons item items ih =>
    rw [List.foldlM_cons, List.foldlM_cons]
    refine bind (agree item (by simp) a b start) ?_
    exact fun a b next => ih (fun item member => agree item (by simp [member])) next

end Agree

/-- What a plan is good for beside a registry: its rules come from the sources, its identities have rules or
are registered, and there is one for each declaration. -/
structure Grounded (config : Config) (sources : List Text) (registry : Registry) (plan : Plan) :
    Prop where
  rules : RulesOf config sources plan.rules
  known : ∀ identity ∈ plan.identities,
    Fields.contains identity plan.rules = true ∨ Fields.contains identity registry = true
  counted : plan.declarations = plan.identities.length

/-- Plans beside two registries that make the same edits and declare the same identities. -/
structure Alike (config : Config) (sources : List Text) (registry registry' : Registry)
    (plan plan' : Plan) : Prop where
  editor : plan.editor = plan'.editor
  identities : plan.identities = plan'.identities
  declarations : plan.declarations = plan'.declarations
  grounded : Grounded config sources registry plan
  grounded' : Grounded config sources registry' plan'

section Planning

variable {config : Config} {sources : List Text} {registry registry' : Registry}
  {plan plan' : Plan}

/-- Beside a registry with rules of the sources, a declared style is planned if and only if it can be
compiled. -/
private theorem addStyle_outcome (noClash : NoClash config sources)
    (registered : RulesOf config sources registry) (grounded : Grounded config sources registry plan)
    (path : Text) (position : Position) {style : Fields Value}
    (member : style ∈ sources.flatMap (declaredStyles config)) {identity name : Text}
    (named : Plan.nameStyle config (.object style) = .ok (identity, name)) :
    match (compile config.themeStem name identity style).result with
    | .error invalid => ∃ findings, plan.addStyle config registry path position style =
        .error ⟨.ofStyle invalid position, findings⟩
    | .ok _ => ∃ next, plan.addStyle config registry path position style = .ok (next, name) ∧
        next.editor = plan.editor ∧ next.identities = plan.identities ++ [identity] ∧
        next.declarations = plan.declarations ∧
        Grounded config sources registry { next with declarations := next.declarations + 1 } := by
  have usable : plan.usable (Plan.nameStyle config (.object style)) = .ok (identity, name) := by
    rw [named]; rfl
  by_cases known : (Fields.contains identity plan.rules || Fields.contains identity registry) = true
  · obtain ⟨rule, isRule⟩ : ∃ rule, IsRuleOf config sources identity rule := by
      rcases Bool.or_eq_true_iff.mp known with planned | found
      · obtain ⟨rule, found⟩ := Fields.contains_iff.mp planned
        exact ⟨rule, grounded.rules _ (Fields.mem_of_get? found)⟩
      · obtain ⟨rule, found⟩ := Fields.contains_iff.mp found
        exact ⟨rule, registered _ (Fields.mem_of_get? found)⟩
    rw [isRule.compile_eq noClash member named]
    refine ⟨{ plan with identities := plan.identities ++ [identity] },
      by simp only [Plan.addStyle, usable, Except.bind, known, ↓reduceIte], rfl, rfl, rfl,
      grounded.rules, ?_, ?_⟩
    · intro other member
      rcases List.mem_append.mp member with member | member
      · exact grounded.known other member
      · rw [List.mem_singleton.mp member]
        exact Bool.or_eq_true_iff.mp known
    · simp [grounded.counted]
  · cases compiled : (compile config.themeStem name identity style).result with
    | error invalid =>
      simp only [Plan.addStyle, usable, Except.bind, known, Bool.false_eq_true, ↓reduceIte, compiled]
      exact ⟨_, rfl⟩
    | ok rule =>
      refine ⟨{ plan with
          rules := plan.rules.put identity rule
          identities := plan.identities ++ [identity]
          diagnostics := plan.diagnostics ++
            (compile config.themeStem name identity style).findings.map fun finding =>
              finding.located path (some position.line) (some position.column) },
        by simp only [Plan.addStyle, usable, Except.bind, known, Bool.false_eq_true, ↓reduceIte,
          compiled], rfl, rfl, rfl, ?_, ?_, ?_⟩
      · intro entry found
        rcases Fields.mem_put found with rfl | found
        · exact ⟨style, member, name, named, compiled⟩
        · exact grounded.rules entry found
      · intro other member
        simp only [Fields.contains_iff, Fields.get?_put]
        rcases List.mem_append.mp member with member | member
        · by_cases same : other = identity
          · exact .inl ⟨rule, if_pos same⟩
          · simpa only [Fields.contains_iff, if_neg same] using grounded.known other member
        · exact .inl ⟨rule, if_pos (List.mem_singleton.mp member)⟩
      · simp [grounded.counted]

private theorem addStyle_agree (noClash : NoClash config sources)
    (registered : RulesOf config sources registry) (registered' : RulesOf config sources registry')
    (path path' : Text) (position : Position) {style : Fields Value}
    (member : style ∈ sources.flatMap (declaredStyles config))
    (alike : Alike config sources registry registry' plan plan') :
    Agree (fun first second => first.2 = second.2 ∧
        Alike config sources registry registry'
          { first.1 with declarations := first.1.declarations + 1 }
          { second.1 with declarations := second.1.declarations + 1 })
      (plan.addStyle config registry path position style)
      (plan'.addStyle config registry' path' position style) := by
  cases named : Plan.nameStyle config (.object style) with
  | error defect =>
    simp only [Plan.addStyle, named, Plan.usable, Plan.stop, Except.bind, Agree]
  | ok names =>
    obtain ⟨identity, name⟩ := names
    have first := addStyle_outcome noClash registered alike.grounded path position member named
    have second := addStyle_outcome noClash registered' alike.grounded' path' position member named
    cases compiled : (compile config.themeStem name identity style).result with
    | error invalid =>
      simp only [compiled] at first second
      obtain ⟨findings, stops⟩ := first
      obtain ⟨findings', stops'⟩ := second
      rw [stops, stops']
      rfl
    | ok rule =>
      simp only [compiled] at first second
      obtain ⟨next, succeeds, editor, identities, declarations, grounded⟩ := first
      obtain ⟨next', succeeds', editor', identities', declarations', grounded'⟩ := second
      rw [succeeds, succeeds']
      refine ⟨rfl, ?_, ?_, ?_, grounded, grounded'⟩
      · rw [editor, editor', alike.editor]
      · rw [identities, identities', alike.identities]
      · rw [declarations, declarations', alike.declarations]

private theorem usable_agree {α : Type} (outcome : Except Defect α) :
    Agree (fun a b : α => a = b) (plan.usable outcome) (plan'.usable outcome) := by
  cases outcome <;> rfl

private theorem overwrite_agree (alike : Alike config sources registry registry' plan plan')
    (start stop : Nat) (text : Text) :
    Agree (Alike config sources registry registry') (plan.overwrite start stop text)
      (plan'.overwrite start stop text) := by
  unfold Plan.overwrite
  rw [alike.editor]
  split
  · exact ⟨rfl, alike.identities, alike.declarations,
      ⟨alike.grounded.rules, alike.grounded.known, alike.grounded.counted⟩,
      ⟨alike.grounded'.rules, alike.grounded'.known, alike.grounded'.counted⟩⟩
  · rfl

private theorem writeClass_agree (alike : Alike config sources registry registry' plan plan')
    (attr : Attribute) (name : Text) :
    Agree (Alike config sources registry registry') (plan.writeClass config attr name)
      (plan'.writeClass config attr name) := by
  refine (usable_agree _).bind ?_
  rintro text _ rfl
  exact overwrite_agree alike attr.start attr.stop text

private theorem rewriteElement_agree (alike : Alike config sources registry registry' plan plan')
    (source : Text) (element : Element) (attr : Attribute) (name : Text) :
    Agree (Alike config sources registry registry')
      (plan.rewriteElement config source element attr name)
      (plan'.rewriteElement config source element attr name) := by
  unfold Plan.rewriteElement
  split
  · exact writeClass_agree alike attr name
  · rename_i classAttr found
    refine (overwrite_agree alike _ _ _).bind ?_
    intro plan plan' alike
    unfold Plan.extendClass
    split
    · exact overwrite_agree alike _ _ _
    · exact overwrite_agree alike _ _ _
    · exact writeClass_agree alike _ _

private theorem evaluateAt_agree (source text : Text) (offset : Nat) :
    Agree (fun first second => first = second ∧ fieldsAt? source text offset = some first)
      (plan.evaluateAt source text offset) (plan'.evaluateAt source text offset) := by
  cases parsed : parse text ⟨offset, Position.ofOffset source offset⟩ with
  | error fault =>
    cases fault <;>
      simp only [Plan.evaluateAt, Plan.parseAt, parsed, Plan.stop, Agree]
  | ok node =>
    cases evaluated : evaluateObject node with
    | error rejection =>
      simp only [Plan.evaluateAt, Plan.parseAt, parsed, evaluated, Plan.stop, Agree]
    | ok fields =>
      simp only [Plan.evaluateAt, Plan.parseAt, parsed, evaluated, Agree, fieldsAt?,
        Except.toOption, true_and]

private theorem addElement_agree (noClash : NoClash config sources)
    (registered : RulesOf config sources registry) (registered' : RulesOf config sources registry')
    (path path' : Text) {source attrName : Text} {element : Element}
    (declared : ∀ style, elementStyle? attrName source element = some style →
      style ∈ sources.flatMap (declaredStyles config))
    (alike : Alike config sources registry registry' plan plan') :
    Agree (Alike config sources registry registry')
      (Plan.addElement config attrName registry path source plan element)
      (Plan.addElement config attrName registry' path' source plan' element) := by
  unfold Plan.addElement
  cases found : element.attribute? attrName with
  | none => exact alike
  | some attr =>
    by_cases expression : attr.kind = .expression
    · simp only [expression, ne_eq, not_true_eq_false, ↓reduceIte]
      refine (evaluateAt_agree _ _ _).bind ?_
      rintro style _ ⟨rfl, evaluated⟩
      have member := declared style (by simp [elementStyle?, found, expression, evaluated])
      refine (addStyle_agree noClash registered registered' path path' _ member alike).bind ?_
      rintro ⟨plan, name⟩ ⟨plan', _⟩ ⟨rfl, alike⟩
      exact rewriteElement_agree alike source element attr name
    · simp only [ne_eq, expression, not_false_eq_true, ↓reduceIte]
      rfl

private theorem addEntries_agree (noClash : NoClash config sources)
    (registered : RulesOf config sources registry) (registered' : RulesOf config sources registry')
    (path path' callee : Text) (position : Position) {entries : List (Text × Value)}
    (declared : ∀ entry ∈ entries, ∀ style, entry.2.fields? = some style →
      style ∈ sources.flatMap (declaredStyles config))
    (alike : Alike config sources registry registry' plan plan') :
    Agree (fun first second => first.2 = second.2 ∧
        Alike config sources registry registry' first.1 second.1)
      (Plan.addEntries config callee registry path position plan entries)
      (Plan.addEntries config callee registry' path' position plan' entries) := by
  induction entries generalizing plan plan' with
  | nil => exact ⟨rfl, alike⟩
  | cons entry entries ih =>
    obtain ⟨key, value⟩ := entry
    cases value with
    | object style =>
      have member := declared _ List.mem_cons_self style rfl
      refine (addStyle_agree noClash registered registered' path path' position member alike).bind ?_
      rintro ⟨plan, name⟩ ⟨plan', _⟩ ⟨rfl, alike⟩
      refine (ih (fun entry member => declared entry (List.mem_cons_of_mem _ member)) alike).bind ?_
      rintro ⟨plan, members⟩ ⟨plan', _⟩ ⟨rfl, alike⟩
      exact ⟨rfl, alike⟩
    | _ => rfl

private theorem addCall_agree (noClash : NoClash config sources)
    (registered : RulesOf config sources registry) (registered' : RulesOf config sources registry')
    (path path' callee : Text) {source : Text} {call : Call}
    (declared : ∀ style ∈ callStyles source call, style ∈ sources.flatMap (declaredStyles config))
    (alike : Alike config sources registry registry' plan plan') :
    Agree (Alike config sources registry registry')
      (Plan.addCall config callee registry path source plan call)
      (Plan.addCall config callee registry' path' source plan' call) := by
  unfold Plan.addCall
  by_cases blank : (call.argumentText source).isAllBlank = true
  · simp only [blank, ↓reduceIte]
    exact alike
  · simp only [blank, Bool.false_eq_true, ↓reduceIte]
    refine (evaluateAt_agree _ _ _).bind ?_
    rintro entries _ ⟨rfl, evaluated⟩
    refine (addEntries_agree noClash registered registered' path path' callee _ ?_ alike).bind ?_
    · intro entry member style found
      refine declared style ?_
      simp only [callStyles, blank, Bool.false_eq_true, ↓reduceIte, evaluated, Option.getD_some]
      exact List.mem_filterMap.mpr ⟨entry, member, found⟩
    · rintro ⟨plan, members⟩ ⟨plan', _⟩ ⟨rfl, alike⟩
      exact overwrite_agree alike _ _ _

private theorem ofSource_alike (source : Text) :
    Alike config sources registry registry' (.ofSource source) (.ofSource source) := by
  have grounded (registry : Registry) : Grounded config sources registry (.ofSource source) := by
    refine ⟨?_, ?_, rfl⟩
    · simp [RulesOf, Plan.ofSource]
    · simp [Plan.ofSource]
  exact ⟨rfl, rfl, rfl, grounded registry, grounded registry'⟩

/-- Beside any two registries with rules of the sources, planning one of them stops for the same cause, or
it makes the same edits and declares the same identities. -/
theorem plan_agree (noClash : NoClash config sources)
    (registered : RulesOf config sources registry) (registered' : RulesOf config sources registry')
    (path path' : Text) {source : Text} (member : source ∈ sources) :
    Agree (Alike config sources registry registry') (Session.plan config registry path source)
      (Session.plan config registry' path' source) := by
  have declared : ∀ style ∈ declaredStyles config source,
      style ∈ sources.flatMap (declaredStyles config) :=
    fun style found => List.mem_flatMap.mpr ⟨source, member, found⟩
  unfold Session.plan
  cases named : config.attrName with
  | error defect => rfl
  | ok attrName =>
    cases named' : config.callee with
    | error defect => rfl
    | ok callee =>
      have styles : declaredStyles config source =
          (mentionedElements attrName source).filterMap (elementStyle? attrName source) ++
            (mentionedCalls callee source).flatMap (callStyles source) := by
        simp only [declaredStyles, named, named']
      rw [styles] at declared
      have elements : Agree (Alike config sources registry registry')
          ((mentionedElements attrName source).foldlM
            (Plan.addElement config attrName registry path source) (.ofSource source))
          ((mentionedElements attrName source).foldlM
            (Plan.addElement config attrName registry' path' source) (.ofSource source)) := by
        refine Agree.foldlM ?_ (ofSource_alike source)
        intro element found plan plan' alike
        refine addElement_agree noClash registered registered' path path' ?_ alike
        intro style evaluated
        exact declared style
          (List.mem_append_left _ (List.mem_filterMap.mpr ⟨element, found, evaluated⟩))
      refine elements.bind fun plan plan' alike => Agree.foldlM ?_ alike
      intro call found plan plan' alike
      refine addCall_agree noClash registered registered' path path' callee ?_ alike
      intro style evaluated
      exact declared style
        (List.mem_append_right _ (List.mem_flatMap.mpr ⟨call, found, evaluated⟩))

end Planning

end StaticStyle.Session
