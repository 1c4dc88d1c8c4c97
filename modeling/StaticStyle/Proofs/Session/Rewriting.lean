import StaticStyle.Proofs.Draft.Clear
import StaticStyle.Proofs.Draft.Rewriting
import StaticStyle.Proofs.Session.Recording

namespace StaticStyle

open Markup

/-- What happens to the first attributes of two names. -/
def Change.ofPair (first second : Text) (action action' : Action) : Change := fun name =>
  if name = first then action else if name = second then action' else .keep

section Pair

variable {source first second : Text}

theorem Change.past_first (action action' : Action) :
    (ofPair first second action action').past first = ofPair first second .keep action' := by
  funext name
  unfold past ofPair
  grind

theorem Change.past_second (distinct : first ≠ second) (action action' : Action) :
    (ofPair first second action action').past second = ofPair first second action .keep := by
  funext name
  unfold past ofPair
  grind

theorem flatMap_keep (found : Option Attribute) : found.toList.flatMap (Action.keep.edits source) = [] := by
  cases found <;> rfl

/-- The edits of attributes are those of the first attributes to which something happens. -/
theorem Change.edits_perm (distinct : first ≠ second) (action action' : Action) (attributes : List Attribute) :
    ((ofPair first second action action').edits source attributes).Perm
      ((attributes.find? (·.name == first)).toList.flatMap (action.edits source) ++
        (attributes.find? (·.name == second)).toList.flatMap (action'.edits source)) := by
  induction attributes generalizing action action' with
  | nil => exact .nil
  | cons attr attributes ih =>
    by_cases isFirst : attr.name = first
    · have behind := ih .keep action'
      rw [flatMap_keep, List.nil_append] at behind
      have other : (attr.name == second) = false := by simp [isFirst, distinct]
      rw [edits, isFirst, past_first, List.find?_cons, List.find?_cons, other, isFirst, beq_self_eq_true]
      simpa [ofPair] using behind.append_left (action.edits source attr)
    · by_cases isSecond : attr.name = second
      · have behind := ih action .keep
        rw [flatMap_keep, List.append_nil] at behind
        have other : (attr.name == first) = false := by simp [isFirst]
        rw [edits, isSecond, past_second distinct, List.find?_cons, List.find?_cons, other, isSecond, beq_self_eq_true]
        simpa [ofPair, distinct.symm] using (behind.append_left (action'.edits source attr)).trans List.perm_append_comm
      · have kept : ofPair first second action action' attr.name = .keep := by simp [ofPair, isFirst, isSecond]
        rw [edits, past_keep kept, kept]
        simpa [Action.edits, isFirst, isSecond] using ih action action'

end Pair

namespace Session

variable {source : Text}

/-- The edits of an element are recorded in an order of their own. -/
theorem elementEdits_perm (source : Text) (element : Element) :
    (elementEdits source element).Perm (element.edits naming source) := by
  have pair (action action' : Action) := @Change.edits_perm source "zx" "className" (by decide) action action'
    element.attributes
  unfold elementEdits Element.edits Element.change
  cases styled : element.style? source with
  | none =>
    have kept := pair .keep .keep
    have same : Change.ofStyle naming none (element.attribute? "className").isSome =
        Change.ofPair "zx" "className" .keep .keep := by
      funext name
      simp [Change.ofStyle, Change.ofPair]
    rw [flatMap_keep, flatMap_keep] at kept
    rw [same]
    cases element.attribute? "zx" <;> exact kept.symm
  | some text =>
    obtain ⟨attr, found, -⟩ := Option.bind_eq_some_iff.mp styled
    rw [found]
    cases classed : element.attribute? "className" with
    | none =>
      have written := pair (.write (declaredClass text)) .keep
      have same : Change.ofStyle naming (some text) (none : Option Attribute).isSome =
          Change.ofPair "zx" "className" (.write (declaredClass text)) .keep := by
        funext name
        simp [Change.ofStyle, Change.ofPair, naming]
      rw [same]
      rw [flatMap_keep, List.append_nil] at written
      rw [Element.attribute?] at found
      rw [found] at written
      simpa using written.symm
    | some classAttr =>
      have extended := pair .erase (.extend (declaredClass text))
      have same : Change.ofStyle naming (some text) (some classAttr).isSome =
          Change.ofPair "zx" "className" .erase (.extend (declaredClass text)) := by
        funext name
        simp [Change.ofStyle, Change.ofPair, naming]
      rw [same]
      rw [Element.attribute?] at found classed
      rw [found, classed] at extended
      simpa using extended.symm

/-- The elements of a source are gone through if one of them has a style. -/
theorem mentionedElements_of_style {source text : Text} {element : Element} (member : element ∈ elements source)
    (styled : element.style? source = some text) : mentionedElements "zx" source = elements source := by
  obtain ⟨attr, found, expression⟩ := Option.bind_eq_some_iff.mp styled
  have kind : attr.kind = .expression := by
    by_contra other
    simp [other] at expression
  have name : attr.name = "zx" := by simpa using List.find?_some found
  have mentioned := mentionsAttribute_valued member (List.mem_of_find?_eq_some found)
    (by simp [Attribute.isValued, kind]) (by rw [name]; decide)
  rw [name] at mentioned
  rw [mentionedElements, if_pos mentioned]

theorem mentionedElements_flatMap (source : Text) :
    (mentionedElements "zx" source).flatMap (elementEdits source) =
      (elements source).flatMap (elementEdits source) := by
  by_cases styled : ∃ element ∈ elements source, ∃ text, element.style? source = some text
  · obtain ⟨element, member, text, styled⟩ := styled
    rw [mentionedElements_of_style member styled]
  · have none : ∀ element ∈ elements source, elementEdits source element = [] := by
      intro element member
      unfold elementEdits
      cases found : element.style? source with
      | some text => exact absurd ⟨element, member, text, found⟩ styled
      | none => cases element.attribute? "zx" <;> rfl
    rw [List.flatMap_eq_nil_iff.mpr none, mentionedElements]
    split
    · exact List.flatMap_eq_nil_iff.mpr none
    · rfl

/-- Code that stands for fields has no elements. -/
theorem areBarren_styles : AreBarren fun text => (fieldsAt? text text 0).isSome = true := by
  intro code before valid closed stands offset
  obtain ⟨style, found⟩ := Option.isSome_iff_exists.mp stands
  unfold fieldsAt? at found
  split at found
  · rename_i node parsed
    have evaluated : Expression.evaluateObject node = .ok style := by
      cases outcome : Expression.evaluateObject node with
      | ok style' => rw [outcome] at found; exact congrArg Except.ok (Option.some.inj found)
      | error error => rw [outcome] at found; cases found
    obtain ⟨code', written⟩ := Expression.exists_code .operand _ (Expression.unclosed_lexemes parsed evaluated)
    -- The same text is written by code without elements, up to a line feed behind it.
    let whole := code.append (.plain '\n' .nil)
    have print : whole.print = code'.print := by
      rw [written.print, Tree.Code.print_append]
      rfl
    have wholeValid : whole.isValid true before (some (.char '\x7d')) = true := by
      rw [Tree.Code.isValid_append, Tree.Code.isValid_behind code rfl valid]
      rfl
    have wholeClosed : whole.unclosed [] = some [] := by
      rw [Tree.Code.unclosed_append, closed]
      rfl
    have survey := Tree.Code.survey_value wholeValid wholeClosed 0 offset []
    rw [print, Tree.Code.survey_value (written.valid before _) written.closed 0 offset []] at survey
    have openings : code'.openings offset = whole.openings offset := congrArg Survey.elements survey
    rw [Tree.Code.openings_of_isCalm code' written.calm, Tree.Code.openings_append] at openings
    exact (List.append_eq_nil_iff.mp openings.symm).1
  · cases found

/-- The calls of a source that have something in their parentheses. -/
def callsWithStyles (source : Text) : List Call :=
  (calls "createStyles" source).filter fun call => !(call.argumentText source).isAllBlank

theorem calls_flatMap (source : Text) :
    (mentionedCalls "createStyles" source).flatMap (callEdits source) =
      (callsWithStyles source).map (Call.edit naming source) := by
  rw [mentionedCalls_eq, callsWithStyles]
  induction calls "createStyles" source with
  | nil => rfl
  | cons call others ih =>
    by_cases blank : (call.argumentText source).isAllBlank = true <;>
      simp [callEdits, blank, ih]

/-- A draft of a source: the tree is written as the scanner reads it, and the marked calls are those that the scanner
finds, as far as they have something in their parentheses. No `<` stands directly behind such a call. -/
structure Drafts (draft : Draft.Code) (source : Text) : Prop where
  printed : draft.source.print = source
  valid : draft.source.isValid false '\n' none = true
  closed : (draft.source.unclosed []).isSome = true
  marked : draft.calls 0 = callsWithStyles source
  free : ∀ call ∈ callsWithStyles source, source[call.stop]? ≠ some (.char '<')

namespace Drafts

variable {draft : Draft.Code} {source : Text}

theorem elements_eq (drafts : Drafts draft source) : elements source = draft.source.openings 0 := by
  obtain ⟨brackets, closed⟩ := Option.isSome_iff_exists.mp drafts.closed
  rw [← drafts.printed]
  exact Tree.Code.elements_eq_openings drafts.valid closed

theorem stands (drafts : Drafts draft source) : source.StandsAt 0 draft.source.print := by
  rw [drafts.printed]
  exact .whole source

theorem recorded_perm (drafts : Drafts draft source) {registry : Registry} {path : Text} {plan : Plan}
    (planned : Session.plan bareConfig registry path source = .ok plan) :
    plan.editor.recorded.Perm (draft.edits naming source 0) := by
  have records := (plan_records planned).1
  have elementwise : ((elements source).flatMap (elementEdits source)).Perm
      ((elements source).flatMap (Element.edits naming source)) :=
    List.Perm.flatMap_left _ fun element _ => elementEdits_perm source element
  rw [records.recorded, mentionedElements_flatMap, calls_flatMap]
  refine (elementwise.append_right _).trans ?_
  rw [drafts.elements_eq, ← drafts.marked]
  exact (draft.edits_perm naming drafts.stands).symm

theorem apart (drafts : Drafts draft source) {registry : Registry} {path : Text} {plan : Plan}
    (planned : Session.plan bareConfig registry path source = .ok plan) :
    Draft.Apart (draft.edits naming source 0) := by
  have records := (plan_records planned).1
  have apart : Draft.Apart plan.editor.recorded := by
    rw [records.recorded]
    exact records.apart.imp fun apart => by rwa [Edit.overlaps_comm]
  exact apart.perm (drafts.recorded_perm planned) fun {a b} apart => by rwa [Edit.overlaps_comm]

theorem isClear (drafts : Drafts draft source) {registry : Registry} {path : Text} {plan : Plan}
    (planned : Session.plan bareConfig registry path source = .ok plan)
    (closes : ∀ element ∈ elements source, element.ClosesClass source) : draft.IsClear naming source 0 := by
  have free : ∀ call ∈ draft.calls 0, source[call.stop]? ≠ some (.char '<') := by
    rw [drafts.marked]
    exact drafts.free
  refine draft.isClear areBarren_styles drafts.valid drafts.stands (drafts.apart planned) free fun element member => ?_
  rw [← drafts.elements_eq] at member
  refine ⟨fun text styled => ?_, closes element member⟩
  obtain ⟨attr, found, expression⟩ := Option.bind_eq_some_iff.mp styled
  have mentioned : element ∈ mentionedElements "zx" source := by rwa [mentionedElements_of_style member styled]
  obtain ⟨kind, stands⟩ := (plan_records planned).2 element mentioned attr found
  rw [if_pos kind] at expression
  rwa [← Option.some.inj expression]

/-- The result is the compiled form of a draft. -/
theorem result (drafts : Drafts draft source) {session : Session} {path : Text} {output : Output}
    (closes : ∀ element ∈ elements source, element.ClosesClass source)
    (transformed : (session.transform bareConfig path source).result = .ok (some output)) :
    draft.IsClear naming source 0 ∧ output.edits = draft.edits naming source 0 ∧
      output.code = (draft.compiled naming).print := by
  obtain ⟨plan, editor, planned, final, rfl, -⟩ := transform_output transformed
  obtain rfl : plan.editor = editor := Except.ok.inj final
  have clear := drafts.isClear planned closes
  have turns := draft.turns drafts.valid clear drafts.stands
  have turns' : Turns 0 plan.editor.source (draft.edits naming source 0) (draft.compiled naming).print := by
    rw [(plan_records planned).1.sameSource]
    rwa [drafts.printed] at turns
  exact ⟨clear, turns'.render_eq (drafts.recorded_perm planned)⟩

theorem compiled_read (drafts : Drafts draft source) (clear : draft.IsClear naming source 0) :
    (draft.compiled naming).isValid false '\n' none = true ∧
      ∃ brackets, draft.source.unclosed [] = some brackets ∧ (draft.compiled naming).unclosed [] = some brackets := by
  obtain ⟨brackets, closed⟩ := Option.isSome_iff_exists.mp drafts.closed
  refine ⟨Draft.Code.isValid_compiled naming_isSound draft clear drafts.valid (.inl rfl), brackets, closed, ?_⟩
  rw [Draft.Code.unclosed_compiled, closed]

theorem rewritten (drafts : Drafts draft source) {session : Session} {path : Text} {output : Output}
    (closes : ∀ element ∈ elements source, element.ClosesClass source)
    (transformed : (session.transform bareConfig path source).result = .ok (some output)) :
    List.Forall₂ (Element.Rewritten naming source output.code output.edits) (elements source)
      (elements output.code) := by
  obtain ⟨clear, edits, code⟩ := drafts.result closes transformed
  obtain ⟨valid, brackets, -, closed⟩ := drafts.compiled_read clear
  rw [edits, code, drafts.elements_eq, Tree.Code.elements_eq_openings valid closed]
  exact Draft.Code.rewritten draft drafts.valid clear (List.Subset.refl _) drafts.stands (.whole _)

end Drafts

/-- Every element of a source is found again in the result, in the same order and with the same tag. Its attributes
are those of the source, but that the class of its style stands in the place of the style, or in its class
attribute. -/
theorem elements_of_result (session : Session) (path source : Text) (draft : Draft.Code) (output : Output)
    (drafts : Drafts draft source)
    (closes : ∀ element ∈ elements source, element.ClosesClass source)
    (transformed : (session.transform bareConfig path source).result = .ok (some output)) :
    List.Forall₂ (Element.Rewritten naming source output.code output.edits) (elements source)
      (elements output.code) :=
  drafts.rewritten closes transformed

/-- The piece for text that stands for itself. -/
def textPiece (text : Text) : Flat := ⟨.plains text .nil, by simp [Tree.Code.isFlat]⟩

/-- The piece for an object with a number for a name. -/
def fieldPiece (text : Text) : Flat :=
  ⟨.opening .curly (.plains text (.closing .curly .nil)), by simp [Tree.Code.isFlat]⟩

/-- The argument of a call with one style. -/
def sheetArgument : Sealed :=
  ⟨⟨.opening .curly (.plains "a: " ((fieldPiece "m: 1").code.append (.closing .curly .nil))), rfl⟩, rfl⟩

/-- A call that declares styles in front of an element with a style and a class expression. -/
def sheetAndElement : Draft.Code :=
  .piece (textPiece "const s = ")
    (.call "" sheetArgument
      (.piece (textPiece ";\n")
        (.node
          (.selfClosing "p"
            (.expression " " "className" "" ""
              (.piece ⟨.plains "x " (.operator '<' (.plains " 2 && " .nil)), rfl⟩
                (.template (.code [] (.piece (textPiece "s.a") .nil) (.text [])) .nil))
              (.expression " " "zx" "" "" (.piece (fieldPiece "m: 1") .nil) .nil))
            " ")
          .nil)))

theorem elements_of_result_sheet_and_element :
    let session := empty none
    let source : Text :=
      "const s = createStyles(\x7ba: \x7bm: 1\x7d\x7d);\n<p className=\x7bx < 2 && \x60$\x7bs.a\x7d\x60\x7d " ++
        "zx=\x7b\x7bm: 1\x7d\x7d />"
    ∃ output, Drafts sheetAndElement source ∧ (∀ element ∈ elements source, element.ClosesClass source) ∧
      (session.transform bareConfig "A.tsx" source).result = .ok (some output) ∧
      List.Forall₂ (Element.Rewritten naming source output.code output.edits) (elements source)
        (elements output.code) := by
  intro session source
  have drafts : Drafts sheetAndElement source := by
    constructor <;> decide +kernel
  have closes : ∀ element ∈ elements source, element.ClosesClass source := by decide +kernel
  have yielded : yields (session.transform bareConfig "A.tsx" source).result (fun _ => true) = true := by
    decide +kernel
  obtain ⟨output, transformed, -⟩ := eq_ok_of_yields yielded
  exact ⟨output, drafts, closes, transformed,
    elements_of_result session "A.tsx" source sheetAndElement output drafts closes transformed⟩

end Session

end StaticStyle
