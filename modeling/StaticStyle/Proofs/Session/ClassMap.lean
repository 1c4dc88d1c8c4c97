import StaticStyle.Proofs.Json.Order
import StaticStyle.Proofs.Json.Reading
import StaticStyle.Proofs.Session.Locality
import StaticStyle.Proofs.Session.Mention
import StaticStyle.Proofs.Session.Retention

/-!
What a call with styles is replaced by. The object that is written for it, read as JSON, has the keys of its entries in
order, each with the class of its style. An entry is written as soon as its style is planned, and the object when all of
them are; what is recorded for a call stays recorded while the calls behind it are planned.
-/

namespace StaticStyle

namespace Json

/-- A text is read from its ASCII form as it was written. -/
def ReadsBack (text : Text) : Prop := read (quoteAscii text) = .ok (.text text)

theorem readsBack_iff_joinSurrogates {text : Text} : ReadsBack text ↔ text.joinSurrogates = text := by
  rw [ReadsBack, read_quoteAscii, Except.ok.injEq, Value.text.injEq]

theorem readsBack_iff {text : Text} : ReadsBack text ↔ text.IsPairless :=
  readsBack_iff_joinSurrogates.trans text.joinSurrogates_eq_self_iff

/-- An object of texts that come back is read as it was written, if no name is there twice. -/
theorem read_writeObject_of_readsBack {members : Fields Text} (nodup : members.keys.Nodup)
    (back : ∀ member ∈ members, ReadsBack member.1 ∧ ReadsBack member.2) :
    read (writeObject members) = .ok (.object (members.map fun member => (member.1, .text member.2))) := by
  have same : members.map readMember = members.map fun member => (member.1, .text member.2) := by
    refine List.map_congr_left fun member found => ?_
    obtain ⟨name, text⟩ := back member found
    rw [readMember, readsBack_iff_joinSurrogates.mp name, readsBack_iff_joinSurrogates.mp text]
  have nodup' : (Fields.keys (members.map fun member => (member.1, Value.text member.2))).Nodup := by
    simpa [Fields.keys, Function.comp_def] using nodup
  rw [read_writeObject, same, Fields.ofPairs_of_nodup nodup']

end Json

namespace Session

open Expression Markup Style

namespace Leads

variable {α ι : Type} {good good' : α → Prop} {bad : Cause → Prop} {planning : Planning α}

theorem and (leads : Leads good bad planning) (leads' : Leads good' (fun _ => True) planning) :
    Leads (fun a => good a ∧ good' a) bad planning := by
  cases planning with
  | error stop => exact leads
  | ok a => exact ⟨leads, leads'⟩

/-- Each item leaves a mark, and no item removes one. -/
theorem foldlM_marks {mark : ι → α → Prop} {step : α → ι → Planning α}
    (leads : ∀ item a, Leads (fun next => mark item next ∧ ∀ other, mark other a → mark other next) bad (step a item))
    (items : List ι) (a : α) :
    Leads (fun last => (∀ item ∈ items, mark item last) ∧ ∀ other, mark other a → mark other last) bad
      (items.foldlM step a) := by
  induction items generalizing a with
  | nil => exact ⟨by simp, fun _ => id⟩
  | cons item items ih =>
    rw [List.foldlM_cons]
    refine (leads item a).bind fun next ⟨marked, kept⟩ => (ih next).imp fun last ⟨all, onward⟩ => ?_
    exact ⟨List.forall_mem_cons.mpr ⟨onward item marked, all⟩, fun other before => onward other (kept other before)⟩

end Leads

/-- The class of a style: the beginning of classes and as many digits of its digest as an identity has. -/
def classOf (config : Config) (style : Value) : Except Defect Text := do
  let length ← config.hashLength
  let stem ← config.classStem.shown
  let identity ← identify style length
  return className stem identity

theorem classOf_of_nameStyle {config : Config} {style : Value} {identity name : Text}
    (named : Plan.nameStyle config style = .ok (identity, name)) : classOf config style = .ok name := by
  obtain ⟨digits, length, stem, digested, hashLength, shown, rfl, rfl⟩ := nameStyle_ok named
  simp only [classOf, hashLength, shown, identify, digested, Except.map]
  rfl

theorem classOf_ok {config : Config} {style : Value} {name : Text} (found : classOf config style = .ok name) :
    ∃ length stem digits, config.classStem.shown = .ok stem ∧ digest style = .ok digits ∧
      name = className stem (digits.leading length) := by
  unfold classOf identify at found
  cases hashLength : config.hashLength with
  | error defect => simp [bind, Except.bind, hashLength] at found
  | ok length =>
    cases shown : config.classStem.shown with
    | error defect => simp [bind, Except.bind, hashLength, shown] at found
    | ok stem =>
      cases digested : digest style with
      | error defect => simp [bind, Except.bind, hashLength, shown, digested, Except.map] at found
      | ok digits =>
        simp only [bind, Except.bind, pure, Except.pure, hashLength, shown, digested, Except.map,
          Except.ok.injEq] at found
        exact ⟨length, stem, digits, rfl, rfl, found.symm⟩

/-- A class comes back if the beginning of classes does, for behind that stand a hyphen and digits. -/
theorem readsBack_classOf {config : Config} {style : Value} {name : Text} (found : classOf config style = .ok name)
    (stemBack : ∀ stem, config.classStem.shown = .ok stem → Json.ReadsBack stem) : Json.ReadsBack name := by
  obtain ⟨length, stem, digits, shown, digested, rfl⟩ := classOf_ok found
  have stemPairless := Json.readsBack_iff.mp (stemBack stem shown)
  have chars : (className [] (digits.leading length)).all CodePoint.isChar = true :=
    all_className digested (fun _ _ => rfl) rfl rfl length
  have digitsPairless : (digits.leading length).IsPairless := Text.isPairless_of_all_isChar chars
  exact Json.readsBack_iff.mpr ((Text.isPairless_append_char stem _ '-').mpr ⟨stemPairless, digitsPairless⟩)

/-- Every key of some entries, in order, with the class of its style. -/
def IsClassMap (config : Config) (entries : Fields Value) (members : List (Text × Text)) : Prop :=
  List.Forall₂ (fun entry member => member.1 = entry.1 ∧ classOf config entry.2 = .ok member.2) entries members

theorem IsClassMap.keys {config : Config} {entries : Fields Value} {members : List (Text × Text)}
    (isMap : IsClassMap config entries members) : Fields.keys members = Fields.keys entries := by
  induction isMap with
  | nil => rfl
  | cons found _ ih => exact congrArg₂ List.cons found.1 ih

theorem IsClassMap.readsBack {config : Config} {entries : Fields Value} {members : List (Text × Text)}
    (isMap : IsClassMap config entries members) (keysBack : ∀ key ∈ Fields.keys entries, Json.ReadsBack key)
    (stemBack : ∀ stem, config.classStem.shown = .ok stem → Json.ReadsBack stem) :
    ∀ member ∈ members, Json.ReadsBack member.1 ∧ Json.ReadsBack member.2 := by
  induction isMap with
  | nil => simp
  | cons found _ ih =>
    obtain ⟨keyBack, keysBack⟩ := List.forall_mem_cons.mp keysBack
    exact List.forall_mem_cons.mpr ⟨⟨found.1 ▸ keyBack, readsBack_classOf found.2 stemBack⟩, ih keysBack⟩

/-- The fields that the argument of a call stands for. -/
def callFields? (source : Text) (call : Call) : Option (Fields Value) :=
  fieldsAt? source (Plan.argumentExpression (call.argumentText source)) call.argumentStart

theorem callFields?_nodup {source : Text} {call : Call} {entries : Fields Value}
    (found : callFields? source call = some entries) : entries.keys.Nodup := by
  obtain ⟨node, evaluated⟩ := fieldsAt?_eq_some found
  exact (Value.fieldsHaveDistinctKeys_iff.mp (evaluateObject_hasDistinctKeys evaluated)).1

/-- A call with an argument is replaced by an object with the classes of its entries. -/
def Replaces (config : Config) (source : Text) (edits : List Edit) (call : Call) : Prop :=
  (call.argumentText source).isAllBlank = false → ∃ entries members, callFields? source call = some entries ∧
    IsClassMap config entries members ∧ ⟨call.start, call.stop, Json.writeObject members⟩ ∈ edits

section Steps

variable {config : Config} {registry : Registry} {path source : Text}

theorem addStyle_class (plan : Plan) (position : Position) (style : Fields Value) :
    Leads (fun next => classOf config (.object style) = .ok next.2) (fun _ => True)
      (plan.addStyle config registry path position style) := by
  unfold Plan.addStyle
  refine (Leads.usable fun _ named => classOf_of_nameStyle named).bind fun ⟨identity, name⟩ found => ?_
  dsimp only
  split
  · exact found
  · split
    · trivial
    · exact found

/-- The members that are written for entries are their keys with the classes of their styles. -/
theorem addEntries_classMap (callee : Text) (position : Position) (plan : Plan) (entries : Fields Value) :
    Leads (fun next => ∃ members, IsClassMap config entries members ∧ next.2 = members.map Json.writeMember)
      (fun _ => True) (Plan.addEntries config callee registry path position plan entries) := by
  induction entries generalizing plan with
  | nil => exact ⟨[], .nil, rfl⟩
  | cons entry entries ih =>
    obtain ⟨key, value⟩ := entry
    cases value with
    | object style =>
      refine (addStyle_class plan position style).bind fun ⟨next, name⟩ found => ?_
      refine (ih _).bind ?_
      rintro ⟨last, written⟩ ⟨members, isMap, rfl⟩
      exact ⟨(key, name) :: members, .cons ⟨rfl, found⟩ isMap, rfl⟩
    | _ => trivial

/-- What is overwritten is recorded beside the edits that were there. -/
theorem Plan.overwrite_recorded (plan : Plan) (start stop : Nat) (text : Text) :
    Leads (fun next => next.editor.recorded = plan.editor.recorded ++ [⟨start, stop, text⟩]) (fun _ => True)
      (plan.overwrite start stop text) := by
  unfold Plan.overwrite
  split
  · rename_i editor overwritten
    obtain ⟨rfl, -⟩ := Editor.overwrite_ok overwritten
    rfl
  · trivial

/-- Planning a call replaces it, and takes no edit back. -/
theorem addCall_replaces (callee : Text) (call : Call) (plan : Plan) :
    Leads (fun next => Replaces config source next.editor.recorded call ∧
        ∀ other, Replaces config source plan.editor.recorded other → Replaces config source next.editor.recorded other)
      (fun _ => True) (Plan.addCall config callee registry path source plan call) := by
  unfold Plan.addCall
  by_cases blank : (call.argumentText source).isAllBlank = true
  · simp only [blank, ↓reduceIte]
    exact ⟨fun filled => by simp [blank] at filled, fun _ => id⟩
  · simp only [blank, Bool.false_eq_true, ↓reduceIte]
    refine (Leads.evaluateAt _ _ _).bind fun entries evaluated => ?_
    have added : Leads (fun next => (∃ members, IsClassMap config entries members ∧
        next.2 = members.map Json.writeMember) ∧ next.1.editor = plan.editor) (fun _ => True)
        (Plan.addEntries config callee registry path (Position.ofOffset source call.argumentStart) plan entries) :=
      (addEntries_classMap callee _ plan entries).and
        ((plan.addEntries_local config callee registry path _ entries).weaken fun _ _ => trivial)
    refine added.bind ?_
    rintro ⟨next, written⟩ ⟨⟨members, isMap, rfl⟩, same⟩
    refine (next.overwrite_recorded _ _ _).imp fun last recorded => ?_
    rw [recorded, same]
    refine ⟨fun _ => ⟨entries, members, evaluated, isMap, List.mem_append_right _ (List.mem_singleton.mpr rfl)⟩,
      fun other replaced filled => ?_⟩
    obtain ⟨entries, members, found, isMap, member⟩ := replaced filled
    exact ⟨entries, members, found, isMap, List.mem_append_left _ member⟩

/-- A plan replaces every call. -/
theorem plan_replaces {plan : Plan} (planned : Session.plan config registry path source = .ok plan) {callee : Text}
    (option : config.callee = .ok callee) {call : Call} (member : call ∈ calls callee source) :
    Replaces config source plan.editor.recorded call := by
  have leads : Leads
      (fun plan => ∀ call ∈ mentionedCalls callee source, Replaces config source plan.editor.recorded call)
      (fun _ => True) (Session.plan config registry path source) := by
    unfold Session.plan
    refine (Leads.usable fun _ _ => trivial).bind fun attrName (_ : True) => ?_
    refine (Leads.usable fun _ found => found).bind fun callee' found => ?_
    obtain rfl := Except.ok.inj (option.symm.trans found)
    have elements (planning : Planning Plan) : Leads (fun _ => True) (fun _ => True) planning := by
      cases planning <;> trivial
    refine (elements _).bind fun plan (_ : True) => ?_
    exact (Leads.foldlM_marks (fun call plan => addCall_replaces callee call plan) _ plan).imp fun _ => And.left
  rw [planned] at leads
  exact leads call (mentionedCalls_eq callee source ▸ member)

end Steps

/-- In a file that is compiled, every call with an argument is replaced by the object of its classes: its entries have
distinct keys, and the members of the object are these keys, in order, with the classes of their styles. Read as JSON
the text is the object of these members with their surrogate pairs joined; and it is the object of the members
themselves, if JSON brings back the keys and the beginning of classes as they were written. -/
theorem transform_writes_classMap (config : Config) (session : Session) (path source callee : Text) (output : Output)
    (call : Call) (transformed : (session.transform config path source).result = .ok (some output))
    (option : config.callee = .ok callee) (isCall : call ∈ calls callee source)
    (filled : (call.argumentText source).isAllBlank = false) :
    ∃ entries members, callFields? source call = some entries ∧ (Fields.keys entries).Nodup ∧
      IsClassMap config entries members ∧ ⟨call.start, call.stop, Json.writeObject members⟩ ∈ output.edits ∧
      Json.read (Json.writeObject members) = .ok (.object (Fields.ofPairs (members.map Json.readMember))) ∧
      ((∀ key ∈ Fields.keys entries, Json.ReadsBack key) →
        (∀ stem, config.classStem.shown = .ok stem → Json.ReadsBack stem) →
        Json.read (Json.writeObject members) =
          .ok (.object (members.map fun member => (member.1, .text member.2)))) := by
  obtain ⟨plan, editor, planned, final, rfl, -⟩ := transform_output transformed
  obtain ⟨entries, members, found, isMap, recorded⟩ := plan_replaces planned option isCall filled
  have distinct := callFields?_nodup found
  have applied : ⟨call.start, call.stop, Json.writeObject members⟩ ∈ editor.edits :=
    (List.mergeSort_perm _ _).mem_iff.mpr (recorded_finalEditor final recorded)
  refine ⟨entries, members, found, distinct, isMap, applied, Json.read_writeObject members, ?_⟩
  intro keysBack stemBack
  exact Json.read_writeObject_of_readsBack (isMap.keys ▸ distinct) (isMap.readsBack keysBack stemBack)

/-- Keys with the marks of JSON, a control character, a lone surrogate and nothing in them, of which one is there twice,
and a beginning of classes that is not ASCII. -/
theorem transform_writes_classMap_marks :
    let source : Text :=
      "createStyles(\x7b'a\"b': \x7bm: 1\x7d, '\\\\\x7d': \x7bm: 2\x7d, '\\0, ': \x7bm: 1\x7d, " ++
      "'\\ud800': \x7b\x7d, '': \x7bm: 3\x7d, 'a\"b': \x7bm: 2\x7d\x7d)"
    let keys : List Text := ["a\"b", "\\\x7d", "\x00, ", [.surrogate 0], ""]
    ∃ output call members, ((empty none).transform accentedStem "A.tsx" source).result = .ok (some output) ∧
      call ∈ calls "createStyles" source ∧ (call.argumentText source).isAllBlank = false ∧
      Fields.keys members = keys ∧ ⟨call.start, call.stop, Json.writeObject members⟩ ∈ output.edits ∧
      Json.read (Json.writeObject members) = .ok (.object (members.map fun member => (member.1, .text member.2))) := by
  intro source keys
  have yielded : yields ((empty none).transform accentedStem "A.tsx" source).result (fun _ => true) = true := by
    decide +kernel
  obtain ⟨output, transformed, -⟩ := eq_ok_of_yields yielded
  let call : Call := ⟨0, source.length, 13, source.length - 1⟩
  have isCall : call ∈ calls "createStyles" source := by decide +kernel
  have filled : (call.argumentText source).isAllBlank = false := by decide +kernel
  have declared : (callFields? source call).map Fields.keys = some keys := by decide +kernel
  obtain ⟨entries, members, found, -, isMap, written, -, denotes⟩ :=
    transform_writes_classMap accentedStem (empty none) "A.tsx" source "createStyles" output call transformed rfl isCall
      filled
  have sameKeys : Fields.keys entries = keys := by simpa [found] using declared
  have keysBack : ∀ key ∈ keys, key.IsPairless := by decide
  refine ⟨output, call, members, transformed, isCall, filled, isMap.keys.trans sameKeys, written, denotes ?_ ?_⟩
  · exact fun key member => Json.readsBack_iff.mpr (keysBack key (sameKeys ▸ member))
  · rintro stem ⟨⟩
    exact Json.readsBack_iff.mpr (by decide)

end Session

end StaticStyle
