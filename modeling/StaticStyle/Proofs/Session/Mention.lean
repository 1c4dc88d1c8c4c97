import StaticStyle.Proofs.Markup.Reading
import StaticStyle.Proofs.Source.Edit
import StaticStyle.Session.Basic

/-!
Before a file is gone through for elements and for calls, two quick tests look for the name of the style attribute and
for the name of the function in its text. The test for the function never changes what comes of a file. The test for
the attribute changes nothing as long as some element gives the attribute a value, by a name that begins a word.
-/

namespace StaticStyle

namespace Markup.Call

/-- Calls are found only where the name of their function occurs. -/
theorem candidates_eq_nil {callee : Text} {before : Option CodePoint} {offset : Nat} {text : Text}
    (absent : ¬ callee <:+: text) : candidates callee before offset text = [] := by
  fun_induction candidates callee before offset text with
  | case1 => rfl
  | case2 before offset c rest found distance opens ih =>
    refine absurd ?_ absent
    simp only [found] at opens
    split at opens
    · simp at opens
    · obtain ⟨behind, dropped, -⟩ := Option.bind_eq_some_iff.mp opens
      rw [Text.dropLeading?_eq dropped]
      exact (List.prefix_append _ _).isInfix
  | case3 before offset c rest _ _ ih => exact ih fun inside => absent (List.infix_cons inside)

end Markup.Call

namespace Session

open Markup

/-- The test for the function passes over no call. -/
theorem mentionedCalls_eq (callee source : Text) : mentionedCalls callee source = calls callee source := by
  unfold mentionedCalls
  split
  · rfl
  · rename_i absent
    rw [Text.occursIn_iff] at absent
    rw [calls, Call.candidates_eq_nil absent, List.filterMap_nil]

theorem mem_of_mem_mentionedElements {attrName source : Text} {element : Element}
    (member : element ∈ mentionedElements attrName source) : element ∈ elements source := by
  unfold mentionedElements at member
  split at member
  · exact member
  · simp at member

theorem mem_of_mem_mentionedCalls {callee source : Text} {call : Call}
    (member : call ∈ mentionedCalls callee source) : call ∈ calls callee source := by
  rwa [mentionedCalls_eq] at member

theorem mentionsAttribute_behind {name rest : Text} {before : Option CodePoint} {c : CodePoint}
    (behind : mentionsAttribute name (some c) rest = true) :
    mentionsAttribute name before (c :: rest) = true := by
  rw [mentionsAttribute, behind, Bool.or_true]

theorem mentionsAttribute_append {name front rest : Text} {before : Option CodePoint}
    (behind : mentionsAttribute name (front.getLast?.or before) rest = true) :
    mentionsAttribute name before (front ++ rest) = true := by
  induction front generalizing before with
  | nil => exact behind
  | cons c front ih =>
    refine mentionsAttribute_behind (ih ?_)
    cases front with
    | nil => exact behind
    | cons d front =>
      have last := List.getLast?_eq_some_getLast (List.cons_ne_nil d front)
      rw [List.getLast?_cons_cons, last, Option.some_or] at behind
      rw [last, Option.some_or]
      exact behind

/-- A name that begins a word is mentioned where it stands apart with an equals sign behind it. -/
theorem mentionsAttribute_apart {name behind : Text} {before : Option CodePoint}
    (starts : name.head?.any isNameStart = true) (begins : name.head? ≠ some (.char '$'))
    (apart : Apart before (name ++ behind)) (assigned : (Text.dropBlank behind).head? = some (.char '=')) :
    mentionsAttribute name before (name ++ behind) = true := by
  cases name with
  | nil => simp at starts
  | cons c name =>
    simp only [List.head?_cons, Option.any_some, ne_eq, Option.some.injEq] at starts begins
    have noWord : before.any CodePoint.isWord = false := apart.resolve_right (by simp [starts])
    have dropped := Text.dropLeading?_append (c :: name) behind
    rw [List.cons_append] at dropped ⊢
    rw [mentionsAttribute, noWord, isWord_of_isNameStart starts begins]
    simp [dropped, assigned]

/-- An attribute that an element gives a value is mentioned, if its name begins a word. -/
theorem mentionsAttribute_valued {source : Text} {element : Element} {attr : Attribute}
    (member : element ∈ elements source) (belongs : attr ∈ element.attributes)
    (valued : attr.isValued = true) (begins : attr.name.head? ≠ some (.char '$')) :
    mentionsAttribute attr.name none source = true := by
  obtain ⟨front, behind, rfl, nonempty, apart, starts, assigned⟩ :=
    (elements_stand member attr belongs).assigned valued
  refine mentionsAttribute_append ?_
  rw [Option.or_none]
  exact mentionsAttribute_apart starts begins apart assigned

/-- If an element of a source has an attribute, some element gives the attribute a value, and its name begins a
word. -/
def Noticed (attrName source : Text) : Prop :=
  (∃ element ∈ elements source, (element.attribute? attrName).isSome = true) →
    attrName.head? ≠ some (.char '$') ∧
      ∃ element ∈ elements source, (element.attribute? attrName).any Attribute.isValued = true

instance (attrName source : Text) : Decidable (Noticed attrName source) :=
  inferInstanceAs (Decidable (_ → _))

/-- The test for the attribute passes over no element that has a noticed attribute. -/
theorem mentionedElements_cases {attrName source : Text} (noticed : Noticed attrName source) :
    mentionedElements attrName source = elements source ∨
      (mentionedElements attrName source = [] ∧
        ∀ element ∈ elements source, element.attribute? attrName = none) := by
  unfold mentionedElements
  split
  · exact .inl rfl
  · rename_i unmentioned
    refine .inr ⟨rfl, fun element member => Option.not_isSome_iff_eq_none.mp fun has => unmentioned ?_⟩
    obtain ⟨begins, other, found, valued⟩ := noticed ⟨element, member, has⟩
    obtain ⟨attr, same, valued⟩ := (Option.any_eq_true _ _).mp valued
    have named : attr.name = attrName := by simpa using List.find?_some same
    rw [← named] at begins ⊢
    exact mentionsAttribute_valued found (List.mem_of_find?_eq_some same) valued begins

/-- The plan for a source of which all elements and all calls are gone through, without the two tests. A name that is
no text is the name of no attribute. -/
def unfilteredPlan (config : Config) (registry : Registry) (path source : Text) : Planning Plan :=
  let start := Plan.ofSource source
  let planned := match config.attrName with
    | .ok attrName => (elements source).foldlM (Plan.addElement config attrName registry path source) start
    | .error _ => .ok start
  planned.bind fun plan =>
    (plan.usable config.callee).bind fun callee =>
      (calls callee source).foldlM (Plan.addCall config callee registry path source) plan

/-- What comes of a file for which planning came to an end. -/
def conclude (session : Session) (config : Config) (path : Text) :
    Planning Plan → Step (Except Refusal (Option Output))
  | .error stop => ⟨session, [], compilerNotices stop.findings, .error ⟨path, stop.cause⟩⟩
  | .ok plan =>
    if plan.declarations = 0 then
      let (session, events) := if Fields.contains path session.usage then
          session.commitUsage path []
        else (session, [])
      ⟨session, events, compilerNotices plan.diagnostics, .ok none⟩
    else
      let step := session.commit config path plan
      { step with result := step.result.map some }

/-- Compiles a file that is handled, without the two tests. -/
def compileUnfiltered (session : Session) (config : Config) (path source : Text) :
    Step (Except Refusal (Option Output)) :=
  session.conclude config path (unfilteredPlan config session.registry path source)

/-- Compiles a file, without the two tests. -/
def transformUnfiltered (session : Session) (config : Config) (path source : Text) :
    Step (Except Refusal (Option Output)) :=
  match config.handles path with
  | .error defect => ⟨session, [], [], .error ⟨path, .defect defect⟩⟩
  | .ok false => ⟨session, [], [], .ok none⟩
  | .ok true => session.compileUnfiltered config path source

theorem compile_eq_conclude (session : Session) (config : Config) (path source : Text) :
    session.compile config path source =
      session.conclude config path (plan config session.registry path source) := by
  unfold compile conclude
  cases plan config session.registry path source <;> rfl

/-- Elements without the attribute are passed over. -/
theorem addElements_none {config : Config} {attrName : Text} (registry : Registry) (path source : Text)
    {elements : List Element} (none : ∀ element ∈ elements, element.attribute? attrName = none) (plan : Plan) :
    elements.foldlM (Plan.addElement config attrName registry path source) plan = .ok plan := by
  induction elements with
  | nil => rfl
  | cons element elements ih =>
    have passed : Plan.addElement config attrName registry path source plan element = .ok plan := by
      rw [Plan.addElement, none element List.mem_cons_self]
    rw [List.foldlM_cons, passed]
    exact ih fun element member => none element (List.mem_cons_of_mem _ member)

theorem plan_eq_unfilteredPlan {config : Config} {attrName callee source : Text}
    (attrOption : config.attrName = .ok attrName) (calleeOption : config.callee = .ok callee)
    (noticed : Noticed attrName source) (registry : Registry) (path : Text) :
    plan config registry path source = unfilteredPlan config registry path source := by
  have planned : (mentionedElements attrName source).foldlM
        (Plan.addElement config attrName registry path source) (.ofSource source) =
      (elements source).foldlM (Plan.addElement config attrName registry path source) (.ofSource source) := by
    rcases mentionedElements_cases noticed with same | ⟨empty, none⟩
    · rw [same]
    · rw [empty, addElements_none registry path source none]
      rfl
  simp only [plan, unfilteredPlan, attrOption, calleeOption, Plan.usable, mentionedCalls_eq]
  simp only [Except.bind]
  rw [planned]

/-- The two tests never change what comes of a file in whose elements the style attribute is noticed: neither the
session behind it, nor the events and notices, nor the result or the refusal. -/
theorem transform_eq_transformUnfiltered (session : Session) {config : Config} {attrName callee source : Text}
    (attrOption : config.attrName = .ok attrName) (calleeOption : config.callee = .ok callee)
    (noticed : Noticed attrName source) (path : Text) :
    session.transform config path source = session.transformUnfiltered config path source := by
  have compiled : session.compile config path source = session.compileUnfiltered config path source := by
    rw [compile_eq_conclude, compileUnfiltered, plan_eq_unfilteredPlan attrOption calleeOption noticed]
  unfold transform transformUnfiltered
  cases config.handles path with
  | error defect => rfl
  | ok handled =>
    cases handled with
    | false => rfl
    | true => exact compiled

/-- A style attribute with blanks in front of its equals sign is noticed. -/
theorem transform_eq_transformUnfiltered_blanks :
    let source : Text := "<p zx\n = {{m: 1}} />"
    let session := empty none
    Config.standard.attrName = .ok "zx" ∧ Config.standard.callee = .ok "createStyles" ∧ Noticed "zx" source ∧
      (∃ element ∈ elements source, (element.attribute? "zx").isSome = true) ∧
      session.transform Config.standard "A.tsx" source =
        session.transformUnfiltered Config.standard "A.tsx" source := by
  intro source session
  have noticed : Noticed "zx" source := by decide +kernel
  exact ⟨rfl, rfl, noticed, by decide +kernel,
    transform_eq_transformUnfiltered session rfl rfl noticed "A.tsx"⟩

/-- A style attribute without a value goes unnoticed, and so does a name with a dollar sign in front of it. -/
example : ¬ Noticed "zx" "<p zx />" ∧ ¬ Noticed "$zx" "<p $zx={{m: 1}} />" := by decide +kernel

/-- What goes unnoticed is left as it is, though it would be refused. -/
example :
    let session := empty none
    (session.transform Config.standard "A.tsx" "<p zx />").result.toBool = true ∧
      (session.transformUnfiltered Config.standard "A.tsx" "<p zx />").result.toBool = false := by
  decide +kernel

end Session

end StaticStyle
