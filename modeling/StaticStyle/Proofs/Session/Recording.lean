import StaticStyle.Proofs.Draft.Editing
import StaticStyle.Proofs.Session.Naming
import StaticStyle.Proofs.Session.Registration

namespace StaticStyle.Session

open Expression Markup Style

/-- A plan for a source with edits that do not overlap. -/
structure Recorded (source : Text) (edits : List Edit) (plan : Plan) : Prop where
  sameSource : plan.editor.source = source
  recorded : plan.editor.recorded = edits
  apart : edits.Pairwise fun earlier later => later.overlaps earlier = false

/-- The edits of an element in the order in which they are recorded. -/
def elementEdits (source : Text) (element : Element) : List Edit :=
  match element.attribute? "zx", element.style? source with
  | some attr, some text =>
    match element.attribute? "className" with
    | none => (Action.write (declaredClass text)).edits source attr
    | some classAttr => Action.erase.edits source attr ++ (Action.extend (declaredClass text)).edits source classAttr
  | _, _ => []

/-- The edit of a call that declares styles. -/
def callEdits (source : Text) (call : Call) : List Edit :=
  if (call.argumentText source).isAllBlank then [] else [call.edit naming source]

/-- If an element has a style attribute, that is an expression that stands for fields. -/
def StyleStands (source : Text) (element : Element) : Prop :=
  ∀ attr, element.attribute? "zx" = some attr →
    attr.kind = .expression ∧ (fieldsAt? (attr.valueText source) (attr.valueText source) 0).isSome = true

namespace Leads

theorem imp {α : Type} {good good' : α → Prop} {bad : Cause → Prop} {planning : Planning α}
    (leads : Leads good bad planning) (enough : ∀ a, good a → good' a) : Leads good' bad planning := by
  cases planning with
  | error stop => exact leads
  | ok a => exact enough a leads

end Leads

section Steps

variable {source path : Text} {registry : Registry} {edits : List Edit} {plan : Plan}

theorem overwrite_records (records : Recorded source edits plan) (start stop : Nat) (text : Text) :
    Leads (Recorded source (edits ++ [⟨start, stop, text⟩])) (fun _ => True) (plan.overwrite start stop text) := by
  unfold Plan.overwrite
  split
  · rename_i editor overwritten
    obtain ⟨rfl, free⟩ := Editor.overwrite_ok overwritten
    refine ⟨records.sameSource, by simp [records.recorded], List.pairwise_append.mpr
      ⟨records.apart, List.pairwise_singleton _ _, fun earlier member later single => ?_⟩⟩
    rw [List.mem_singleton.mp single]
    exact free earlier (records.recorded ▸ member)
  · trivial

theorem addStyle_records (records : Recorded source edits plan) (position : Position) (style : Fields Value) :
    Leads (fun next => Recorded source edits next.1 ∧ styleClass? style = some next.2) (fun _ => True)
      (plan.addStyle bareConfig registry path position style) := by
  unfold Plan.addStyle
  refine (Leads.usable fun _ named => named).bind ?_
  rintro ⟨identity, name⟩ named
  have found : styleClass? style = some name := by simp [styleClass?, named, Except.toOption]
  dsimp only
  split
  · exact ⟨⟨records.sameSource, records.recorded, records.apart⟩, found⟩
  · split
    · trivial
    · exact ⟨⟨records.sameSource, records.recorded, records.apart⟩, found⟩

theorem writeClass_records (records : Recorded source edits plan) (attr : Attribute) (name : Text) :
    Leads (Recorded source (edits ++ (Action.write name).edits source attr)) (fun _ => True)
      (plan.writeClass bareConfig attr name) := by
  refine (Leads.usable fun _ shown => shown).bind fun text shown => ?_
  obtain rfl : classText name = text := Except.ok.inj shown
  exact overwrite_records records _ _ _

theorem extendClass_records (records : Recorded source edits plan) (attr : Attribute) (name : Text) :
    Leads (Recorded source (edits ++ (Action.extend name).edits source attr)) (fun _ => True)
      (plan.extendClass bareConfig source attr name) := by
  unfold Plan.extendClass Action.edits
  cases attr.kind with
  | string | expression => exact overwrite_records records _ _ _
  | boolean | spread => exact writeClass_records records attr name

/-- An element is planned by recording its edits, and its style stands for fields. -/
theorem addElement_records (records : Recorded source edits plan) (element : Element) :
    Leads (fun next => Recorded source (edits ++ elementEdits source element) next ∧ StyleStands source element)
      (fun _ => True) (Plan.addElement bareConfig "zx" registry path source plan element) := by
  unfold Plan.addElement elementEdits StyleStands Element.style?
  cases found : element.attribute? "zx" with
  | none => simpa [Leads] using records
  | some attr =>
    by_cases expression : attr.kind = .expression
    · simp only [expression, ne_eq, not_true_eq_false, ↓reduceIte, Option.bind_some]
      refine (Leads.evaluateAt _ _ _).bind fun style evaluated => ?_
      refine (addStyle_records records (Position.ofOffset source attr.start) style).bind ?_
      rintro ⟨next, name⟩ ⟨records, named⟩
      have meant := fieldsAt?_eq (attr.valueText source) source (attr.valueText source) 0 attr.valueStart
      rw [evaluated] at meant
      have sameName : declaredClass (attr.valueText source) = name := by
        rw [declaredClass, meant, Option.bind_some, named, Option.getD_some]
      have records : Recorded source edits { next with declarations := next.declarations + 1 } :=
        ⟨records.sameSource, records.recorded, records.apart⟩
      have stands : ∀ other, some attr = some other → other.kind = .expression ∧
          (fieldsAt? (other.valueText source) (other.valueText source) 0).isSome = true := by
        rintro _ ⟨⟩
        exact ⟨expression, by rw [meant]; rfl⟩
      have option : Plan.classAttribute? bareConfig element = element.attribute? "className" := rfl
      rw [sameName, Plan.rewriteElement, option]
      cases element.attribute? "className" with
      | none => exact (writeClass_records records attr name).imp fun next records => ⟨records, stands⟩
      | some classAttr =>
        refine (overwrite_records records _ _ _).bind fun next records => ?_
        rw [← List.append_assoc]
        exact (extendClass_records records classAttr name).imp fun next records => ⟨records, stands⟩
    · simp only [ne_eq, expression, not_false_eq_true, ↓reduceIte]
      trivial

/-- The keys of the entries that are styles, with their classes. -/
def entryClasses (entries : Fields Value) : List (Text × Text) :=
  entries.filterMap fun entry => (entry.2.fields?.bind styleClass?).map (entry.1, ·)

theorem addEntries_records (callee : Text) (position : Position) {entries : Fields Value}
    (records : Recorded source edits plan) :
    Leads (fun next => Recorded source edits next.1 ∧ next.2 = (entryClasses entries).map Json.writeMember)
      (fun _ => True) (Plan.addEntries bareConfig callee registry path position plan entries) := by
  induction entries generalizing plan with
  | nil => exact ⟨records, rfl⟩
  | cons entry entries ih =>
    obtain ⟨key, value⟩ := entry
    cases value with
    | object style =>
      refine (addStyle_records records position style).bind ?_
      rintro ⟨next, name⟩ ⟨records, named⟩
      have records : Recorded source edits { next with declarations := next.declarations + 1 } :=
        ⟨records.sameSource, records.recorded, records.apart⟩
      refine (ih records).bind ?_
      rintro ⟨last, members⟩ ⟨records, rfl⟩
      refine ⟨records, ?_⟩
      simp [entryClasses, Value.fields?, named, Json.writeMember]
    | _ => trivial

theorem addCall_records (callee : Text) (call : Call) (records : Recorded source edits plan) :
    Leads (Recorded source (edits ++ callEdits source call)) (fun _ => True)
      (Plan.addCall bareConfig callee registry path source plan call) := by
  unfold Plan.addCall callEdits
  by_cases blank : (call.argumentText source).isAllBlank = true
  · simpa [blank, Leads] using records
  · simp only [blank, Bool.false_eq_true, ↓reduceIte]
    refine (Leads.evaluateAt _ _ _).bind fun entries evaluated => ?_
    refine (addEntries_records callee _ records).bind ?_
    rintro ⟨next, members⟩ ⟨records, rfl⟩
    have object : (naming.object (call.argumentText source)).code.print = Json.writeObject (entryClasses entries) := by
      rw [← Tree.Code.print_object]
      change (Tree.Code.object (declaredEntries _)).print = _
      rw [declaredEntries, fieldsAt?_eq _ source _ _ call.argumentStart, evaluated, Option.getD_some]
      rfl
    rw [Call.edit, object]
    exact overwrite_records records _ _ _

end Steps

/-- A plan records the edits of the elements and then those of the calls, and the styles of the elements stand for
fields. -/
theorem plan_records {registry : Registry} {path source : Text} {plan : Plan}
    (planned : Session.plan bareConfig registry path source = .ok plan) :
    Recorded source ((mentionedElements "zx" source).flatMap (elementEdits source) ++
        (mentionedCalls "createStyles" source).flatMap (callEdits source)) plan ∧
      ∀ element ∈ mentionedElements "zx" source, StyleStands source element := by
  have leads : Leads (fun plan => Recorded source ((mentionedElements "zx" source).flatMap (elementEdits source) ++
        (mentionedCalls "createStyles" source).flatMap (callEdits source)) plan ∧
      ∀ element ∈ mentionedElements "zx" source, StyleStands source element) (fun _ => True)
      (Session.plan bareConfig registry path source) := by
    let Gone (done : List Element) (plan : Plan) : Prop :=
      Recorded source (done.flatMap (elementEdits source)) plan ∧ ∀ element ∈ done, StyleStands source element
    have element (element : Element) (done : List Element) (plan : Plan) (gone : Gone done plan) :
        Leads (Gone (done ++ [element])) (fun _ => True)
          (Plan.addElement bareConfig "zx" registry path source plan element) := by
      refine (addElement_records gone.1 element).imp fun next records => ⟨?_, ?_⟩
      · simpa using records.1
      · simpa [or_imp, forall_and] using ⟨gone.2, records.2⟩
    have call (call : Call) (done : List Edit) (plan : Plan) (records : Recorded source done plan) :
        Leads (Recorded source (done ++ callEdits source call)) (fun _ => True)
          (Plan.addCall bareConfig "createStyles" registry path source plan call) :=
      addCall_records "createStyles" call records
    have start : Gone [] (.ofSource source) := ⟨⟨rfl, rfl, .nil⟩, by simp⟩
    refine (Leads.foldlM_flatMap element [] start).bind fun plan gone => ?_
    rw [List.nil_append, List.flatMap_singleton'] at gone
    exact (Leads.foldlM_flatMap call _ gone.1).imp fun plan records => ⟨records, gone.2⟩
  rw [planned] at leads
  exact leads

end StaticStyle.Session
