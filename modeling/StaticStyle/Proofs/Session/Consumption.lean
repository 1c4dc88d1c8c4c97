import StaticStyle.Proofs.Session.Mention
import StaticStyle.Proofs.Session.Rewriting

namespace StaticStyle

open Markup

/-- An element has no two attributes of a name. -/
def Markup.Element.HasOneAtMost (name : Text) (element : Element) : Prop :=
  element.attributes.countP (·.name == name) ≤ 1

instance (name : Text) : DecidablePred (Markup.Element.HasOneAtMost name) := fun element =>
  inferInstanceAs (Decidable (element.attributes.countP (·.name == name) ≤ 1))

namespace Markup.Becomes

variable {source code name : Text} {edits : List Edit} {change : Change} {olds news : List Attribute}

/-- The attributes of a name that is not that of classes come from attributes of the name. -/
theorem exists_old (becomes : Becomes source code edits change olds news) {new : Attribute} (member : new ∈ news)
    (noClass : new.name ≠ "className") : ∃ old ∈ olds, old.name = new.name := by
  induction becomes with
  | nil => cases member
  | keep _ kept _ ih =>
    obtain rfl | member := List.mem_cons.mp member
    · exact ⟨_, List.mem_cons_self, kept.name.symm⟩
    · exact (ih member).imp fun old known => known.imp_left (List.mem_cons_of_mem _)
  | erase _ _ ih => exact (ih member).imp fun old known => known.imp_left (List.mem_cons_of_mem _)
  | write _ isClass _ ih =>
    obtain rfl | member := List.mem_cons.mp member
    · exact absurd isClass.name noClass
    · exact (ih member).imp fun old known => known.imp_left (List.mem_cons_of_mem _)
  | extend _ gains _ ih =>
    obtain rfl | member := List.mem_cons.mp member
    · cases gains with
      | quoted sameName | expression sameName => exact ⟨_, List.mem_cons_self, sameName.symm⟩
      | boolean _ isClass => exact absurd isClass.name noClass
    · exact (ih member).imp fun old known => known.imp_left (List.mem_cons_of_mem _)

theorem not_mem_of_countP_eq_zero (becomes : Becomes source code edits change olds news) (noClass : name ≠ "className")
    (none : olds.countP (·.name == name) = 0) : ∀ new ∈ news, new.name ≠ name := by
  rintro new member rfl
  obtain ⟨old, known, same⟩ := becomes.exists_old member noClass
  exact List.countP_eq_zero.mp none old known (by simp [same])

/-- The only attribute of a name is gone if it is erased or a class attribute is written in its place. -/
theorem not_mem (becomes : Becomes source code edits change olds news) (noClass : name ≠ "className")
    (goes : change name = .erase ∨ ∃ className, change name = .write className)
    (single : olds.countP (·.name == name) ≤ 1) : ∀ new ∈ news, new.name ≠ name := by
  have past {change : Change} {old : Attribute} (isOther : old.name ≠ name) :
      (change.past old.name) name = change name := if_neg isOther.symm
  induction becomes with
  | nil => simp
  | @keep change old new olds news keeps kept rest ih =>
    have isOther : old.name ≠ name := by
      rintro rfl
      simp [keeps] at goes
    rw [List.countP_cons_of_neg (by simpa using isOther)] at single
    exact List.forall_mem_cons.mpr ⟨by rwa [kept.name], ih (by rwa [past isOther]) single⟩
  | @erase change old olds news erases rest ih =>
    by_cases isOld : old.name = name
    · rw [List.countP_cons_of_pos (by simpa using isOld)] at single
      exact rest.not_mem_of_countP_eq_zero noClass (by omega)
    · rw [List.countP_cons_of_neg (by simpa using isOld)] at single
      exact ih (by rwa [past isOld]) single
  | @write change className old new olds news writes isClass rest ih =>
    refine List.forall_mem_cons.mpr ⟨by rw [isClass.name]; exact noClass.symm, ?_⟩
    by_cases isOld : old.name = name
    · rw [List.countP_cons_of_pos (by simpa using isOld)] at single
      exact rest.not_mem_of_countP_eq_zero noClass (by omega)
    · rw [List.countP_cons_of_neg (by simpa using isOld)] at single
      exact ih (by rwa [past isOld]) single
  | @extend change className old new olds news adds gains rest ih =>
    have isOther : old.name ≠ name := by
      rintro rfl
      simp [adds] at goes
    rw [List.countP_cons_of_neg (by simpa using isOther)] at single
    refine List.forall_mem_cons.mpr ⟨?_, ih (by rwa [past isOther]) single⟩
    cases gains with
    | quoted sameName | expression sameName => rwa [sameName]
    | boolean _ isClass => rw [isClass.name]; exact noClass.symm

end Markup.Becomes

namespace Session

variable {source : Text}

/-- In a file that is planned, the style attributes are expressions. -/
theorem style?_isSome {registry : Registry} {path : Text} {plan : Plan}
    (planned : Session.plan bareConfig registry path source = .ok plan) (noticed : Noticed "zx" source)
    {element : Element} (member : element ∈ elements source) {attr : Attribute}
    (found : element.attribute? "zx" = some attr) : (element.style? source).isSome = true := by
  have mentioned : element ∈ mentionedElements "zx" source := by
    rcases mentionedElements_cases noticed with same | ⟨-, none⟩
    · rwa [same]
    · rw [none element member] at found
      cases found
  obtain ⟨expression, -⟩ := (plan_records planned).2 element mentioned attr found
  simp [Element.style?, found, expression]

/-- An element of the result that comes from an element with one style attribute at most has none. -/
theorem attribute?_of_rewritten {registry : Registry} {path code : Text} {plan : Plan} {edits : List Edit}
    (planned : Session.plan bareConfig registry path source = .ok plan) (noticed : Noticed "zx" source)
    {old new : Element} (member : old ∈ elements source) (single : old.HasOneAtMost "zx")
    (rewritten : old.Rewritten naming source code edits new) : new.attribute? "zx" = none := by
  refine List.find?_eq_none.mpr fun attr belongs => ?_
  rw [beq_iff_eq]
  have noClass : (Text.ofString "zx") ≠ "className" := by decide
  cases styled : old.style? source with
  | some text =>
    refine rewritten.attributes.not_mem noClass ?_ single attr belongs
    rw [Element.change, styled]
    cases (old.attribute? "className").isSome with
    | true => exact .inl rfl
    | false => exact .inr ⟨_, rfl⟩
  | none =>
    rintro name
    obtain ⟨other, known, same⟩ := rewritten.attributes.exists_old belongs (by rwa [name])
    cases found : old.attribute? "zx" with
    | none => exact List.find?_eq_none.mp found other known (by simp [same, name])
    | some first =>
      have isSome := style?_isSome planned noticed member found
      rw [styled] at isSome
      cases isSome

/-- No style attribute is left in the result, if no element has two of them. -/
theorem Drafts.no_style_of_result {draft : Draft.Code} (drafts : Drafts draft source) (noticed : Noticed "zx" source)
    {session : Session} {path : Text} {output : Output}
    (closes : ∀ element ∈ elements source, element.ClosesClass source)
    (single : ∀ element ∈ elements source, element.HasOneAtMost "zx")
    (transformed : (session.transform bareConfig path source).result = .ok (some output)) :
    ∀ element ∈ elements output.code, element.attribute? "zx" = none := by
  obtain ⟨plan, -, planned, -⟩ := transform_output transformed
  have rewritten := drafts.rewritten closes transformed
  intro new member
  obtain ⟨i, inside, rfl⟩ := List.getElem_of_mem member
  have inside' : i < (elements source).length := by rwa [rewritten.length_eq]
  have known := List.getElem_mem inside'
  exact attribute?_of_rewritten planned noticed known (single _ known) (rewritten.get inside' inside)

/-- The calls in the result have nothing in their parentheses, if the parentheses of those in the source close. -/
theorem Drafts.no_call_of_result {draft : Draft.Code} (drafts : Drafts draft source) {session : Session} {path : Text}
    {output : Output} (closes : ∀ element ∈ elements source, element.ClosesClass source)
    (callsClose : Call.AllClose "createStyles" source)
    (transformed : (session.transform bareConfig path source).result = .ok (some output)) :
    ∀ call ∈ calls "createStyles" output.code, (call.argumentText output.code).isAllBlank = true := by
  obtain ⟨clear, -, code⟩ := drafts.result closes transformed
  obtain ⟨valid, brackets, closed, closed'⟩ := drafts.compiled_read clear
  rw [code]
  intro call member
  by_contra filled
  have name : Call.IsName "createStyles" := ⟨by decide, by decide⟩
  have fills := Call.Fills.of_mem name member (by simpa using filled)
  have first : (Text.ofString "createStyles").head? = some (.char 'c') := by decide
  have spot := Tree.Code.mem_spots_of_fills (by decide) first valid closed' fills.filled
    ((Call.mem_calls name).mp member).2.1
  -- Both texts end behind the tree, and nothing stands in front of it.
  have surrounded : Call.Surrounded "createStyles" source (draft.compiled naming).print 0
      (0 + draft.source.print.length) 0 (0 + (draft.compiled naming).print.length) := by
    refine ⟨.refl [], ?_⟩
    rw [drafts.printed, Nat.zero_add, Nat.zero_add, List.drop_length, List.drop_length]
    exact .refl _ _
  have traces := draft.traces naming_isSound naming_isQuiet drafts.valid clear drafts.stands (.whole _) rfl rfl
    surrounded
  obtain ⟨old, spot, -, -, unmarked, fills⟩ := traces.found _ spot fills
  have shown := Tree.Code.isOpaque_of_mem_spots (by decide) drafts.valid closed spot
  rw [drafts.printed] at shown
  obtain ⟨known, found, rfl, filled⟩ := fills.exists_call name shown callsClose
  rw [drafts.marked] at unmarked
  exact unmarked known (List.mem_filter.mpr ⟨found, by simp [filled]⟩) rfl

/-- A file without style attributes and without calls that have something in their parentheses declares nothing. -/
theorem plan_of_nothing (registry : Registry) (path : Text)
    (noStyle : ∀ element ∈ elements source, element.attribute? "zx" = none)
    (noCall : ∀ call ∈ calls "createStyles" source, (call.argumentText source).isAllBlank = true) :
    Session.plan bareConfig registry path source = .ok (.ofSource source) := by
  have kept {α : Type} {step : Plan → α → Planning Plan} {plan : Plan} {items : List α}
      (same : ∀ item ∈ items, step plan item = .ok plan) : items.foldlM step plan = .ok plan := by
    induction items with
    | nil => rfl
    | cons item items ih =>
      obtain ⟨first, others⟩ := List.forall_mem_cons.mp same
      rw [List.foldlM_cons, first]
      exact ih others
  have elementwise : ∀ element ∈ mentionedElements "zx" source,
      Plan.addElement bareConfig "zx" registry path source (.ofSource source) element = .ok (.ofSource source) := by
    intro element member
    rw [Plan.addElement, noStyle element (mem_of_mem_mentionedElements member)]
  have callwise : ∀ call ∈ mentionedCalls "createStyles" source,
      Plan.addCall bareConfig "createStyles" registry path source (.ofSource source) call = .ok (.ofSource source) := by
    intro call member
    rw [mentionedCalls_eq] at member
    rw [Plan.addCall, if_pos (noCall call member)]
  calc
    Session.plan bareConfig registry path source
    _ = ((mentionedElements "zx" source).foldlM (Plan.addElement bareConfig "zx" registry path source)
          (Plan.ofSource source)).bind fun plan =>
            (mentionedCalls "createStyles" source).foldlM
              (Plan.addCall bareConfig "createStyles" registry path source) plan := rfl
    _ = .ok (.ofSource source) := by rw [kept elementwise, Except.bind, kept callwise]

/-- No declaration is left in the result, if no element has two style attributes and all parentheses of calls close. To
compile the result again comes to nothing. -/
theorem no_declaration_of_result (session : Session) (path source : Text) (draft : Draft.Code) (output : Output)
    (drafts : Drafts draft source) (noticed : Noticed "zx" source)
    (closes : ∀ element ∈ elements source, element.ClosesClass source)
    (single : ∀ element ∈ elements source, element.HasOneAtMost "zx")
    (callsClose : Call.AllClose "createStyles" source)
    (transformed : (session.transform bareConfig path source).result = .ok (some output)) :
    (∀ element ∈ elements output.code, element.attribute? "zx" = none) ∧
      (∀ call ∈ calls "createStyles" output.code, (call.argumentText output.code).isAllBlank = true) ∧
      ∀ again : Session, (again.transform bareConfig path output.code).result = .ok none := by
  have noStyle := drafts.no_style_of_result noticed closes single transformed
  have noCall := drafts.no_call_of_result closes callsClose transformed
  refine ⟨noStyle, noCall, fun again => ?_⟩
  unfold transform at transformed ⊢
  split at transformed
  · simp at transformed
  · simp at transformed
  · rw [compile, plan_of_nothing _ path noStyle noCall]
    rfl

/-- A call that declares styles, and an element with a style, a class and some text, in which a call has nothing in its
parentheses. -/
def styledText : Draft.Code :=
  .call "" sheetArgument
    (.piece (textPiece ";\n")
      (.node
        (.paired "p"
          (.quoted " " "className" "" "" '"' "a"
            (.expression " " "zx" "" "" (.piece (fieldPiece "m: 1") .nil) .nil))
          ""
          (.code "Text "
            (.piece ⟨.plains "createStyles" (.opening .round (.plains " " (.closing .round .nil))), rfl⟩ .nil)
            (.text "")))
        .nil))

theorem no_declaration_of_result_styled_text :
    let session := empty none
    let source : Text :=
      "createStyles(\x7ba: \x7bm: 1\x7d\x7d);\n<p className=\"a\" zx=\x7b\x7bm: 1\x7d\x7d>Text " ++
        "\x7bcreateStyles( )\x7d</p>"
    ∃ output, Drafts styledText source ∧ Noticed "zx" source ∧
      (∀ element ∈ elements source, element.ClosesClass source) ∧
      (∀ element ∈ elements source, element.HasOneAtMost "zx") ∧
      Call.AllClose "createStyles" source ∧
      (session.transform bareConfig "A.tsx" source).result = .ok (some output) ∧
      (∀ element ∈ elements output.code, element.attribute? "zx" = none) ∧
      (∀ call ∈ calls "createStyles" output.code, (call.argumentText output.code).isAllBlank = true) ∧
      ∀ again : Session, (again.transform bareConfig "A.tsx" output.code).result = .ok none := by
  intro session source
  have drafts : Drafts styledText source := by
    constructor <;> decide +kernel
  have noticed : Noticed "zx" source := by decide +kernel
  have closes : ∀ element ∈ elements source, element.ClosesClass source := by decide +kernel
  have single : ∀ element ∈ elements source, element.HasOneAtMost "zx" := by decide +kernel
  have callsClose : Call.AllClose "createStyles" source := by decide +kernel
  have yielded : yields (session.transform bareConfig "A.tsx" source).result (fun _ => true) = true := by
    decide +kernel
  obtain ⟨output, transformed, -⟩ := eq_ok_of_yields yielded
  exact ⟨output, drafts, noticed, closes, single, callsClose, transformed,
    no_declaration_of_result session "A.tsx" source styledText output drafts noticed closes single callsClose
      transformed⟩

end Session

end StaticStyle
