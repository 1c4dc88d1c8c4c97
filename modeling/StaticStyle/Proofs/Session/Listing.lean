import StaticStyle.Proofs.Expression.Place
import StaticStyle.Proofs.Markup.Calm
import StaticStyle.Proofs.Session.Atomicity
import StaticStyle.Proofs.Session.Mention
import StaticStyle.Proofs.Source.Edit
import StaticStyle.Proofs.Style.Acceptance
import StaticStyle.Proofs.Style.KeyOrder
import StaticStyle.Proofs.Text.Order

namespace StaticStyle.Session

open Expression Markup StaticStyle.Markup.Tree Style

/-- The standard configuration without the line that loads the style sheet. -/
def bareConfig : Config := { Config.standard with injectsImport := false }

/-- An element with a style attribute. -/
def styledElement (text : Text) : Text := "<div zx=\x7b" ++ text ++ "\n\x7d />\n"

/-- The element with the class of an identity in place of its style. -/
def classedElement (identity : Text) : Text := "<div className=\"zx-" ++ identity ++ "\" />\n"

/-- A text that means a style, and the identity of the style. -/
structure StyleText where
  text : Text
  style : Fields Value
  identity : Text
  means : ∃ node, parse text ⟨0, ⟨1, 1⟩⟩ = .ok node ∧ evaluateObject node = .ok style
  named : identify (.object style) 8 = .ok identity
  compiles : ∀ name, (Style.compile bareConfig.themeStem name identity style).Succeeds

/-- What a plan becomes by further declarations. -/
structure Continues (plan plan' : Plan) (further : List Text) (edits : List Edit) : Prop where
  editor : plan'.editor = ⟨plan.editor.source, plan.editor.recorded ++ edits⟩
  identities : plan'.identities = plan.identities ++ further
  declarations : plan'.declarations = plan.declarations + further.length

/-- The edit of an element that begins at an offset. -/
def classEdit (offset : Nat) (styled : StyleText) : Edit :=
  ⟨offset + 5, offset + 5 + (styled.text.length + 6), "className=\"zx-" ++ styled.identity ++ "\""⟩

/-- The style attribute of an element that begins at an offset. -/
def styleAttribute (offset : Nat) (styled : StyleText) : Attribute :=
  ⟨"zx", .expression, (classEdit offset styled).start, (classEdit offset styled).stop, offset + 9,
    offset + 9 + (styled.text.length + 1)⟩

/-- The edits of elements one after another. -/
def classEdits (offset : Nat) : List StyleText → List Edit
  | [] => []
  | styled :: rest =>
    classEdit offset styled :: classEdits (offset + (styledElement styled.text).length) rest

def styledSource (styles : List StyleText) : Text :=
  styles.flatMap fun styled => styledElement styled.text

theorem styledSource_cons (styled : StyleText) (styles : List StyleText) :
    styledSource (styled :: styles) = styledElement styled.text ++ styledSource styles :=
  List.flatMap_cons

/-- The elements of such a source from an offset on. -/
def styledElements (offset : Nat) : List StyleText → List Element
  | [] => []
  | styled :: rest =>
    heldElement "div" "zx" offset (styled.text.length + 1) ::
      styledElements (offset + (styledElement styled.text).length) rest

theorem length_styledElement (text : Text) : (styledElement text).length = text.length + 15 := by
  simp [styledElement, Text.ofString]

theorem styledElement_eq (text rest : Text) :
    styledElement text ++ rest =
      heading "div" "zx" ++ .char '\x7b' :: (text ++ Text.ofString "\n" ++ .char '\x7d' ::
        (Text.ofString " />\n" ++ rest)) := by
  simp [styledElement, heading, Text.ofString]

theorem StyleText.exists_code (styled : StyleText) :
    ∃ code : Code, code.print = styled.text ++ "\n" ∧ code.IsContent := by
  obtain ⟨node, parsed, evaluated⟩ := styled.means
  obtain ⟨code, written⟩ := Expression.exists_code .operand _ (unclosed_lexemes parsed evaluated)
  exact ⟨code, written.print, written.valid _ _, beq_iff_eq.mpr written.closed, written.calm⟩

theorem exists_listing (styles : List StyleText) :
    ∃ codes : List Code, (∀ code ∈ codes, code.IsContent) ∧
      (listing "div" "zx" codes).print = styledSource styles ∧
      ∀ offset, (listing "div" "zx" codes).openings offset = styledElements offset styles := by
  induction styles with
  | nil => exact ⟨[], by simp, rfl, fun _ => rfl⟩
  | cons styled styles ih =>
    obtain ⟨code, print, content⟩ := styled.exists_code
    obtain ⟨codes, contents, prints, openings⟩ := ih
    refine ⟨code :: codes, List.forall_mem_cons.mpr ⟨content, contents⟩, ?_, fun offset => ?_⟩
    · rw [print_listing, print, prints, styledSource_cons, styledElement_eq]
    · have length : code.print.length = styled.text.length + 1 := by simp [print, Text.ofString]
      have size : offset + ((heading "div" "zx").length + 1) + (styled.text.length + 1 + 5) =
          offset + (styledElement styled.text).length := by
        have tag : (Text.ofString "div").length = 3 := by decide
        have name : (Text.ofString "zx").length = 2 := by decide
        rw [length_heading, length_styledElement, tag, name]
        omega
      rw [openings_listing content.calm, openings, length, size, styledElements]

theorem areNames : AreNames "div" "zx" := ⟨by decide, by decide⟩

theorem mentionsAttribute_styledElement (text rest : Text) :
    mentionsAttribute "zx" none (styledElement text ++ rest) = true := by
  obtain ⟨behind, shape⟩ : ∃ behind : Text, styledElement text ++ rest =
      .char '<' :: .char 'd' :: .char 'i' :: .char 'v' :: .char ' ' :: .char 'z' :: .char 'x' ::
        .char '=' :: behind :=
    ⟨_, rfl⟩
  have found : mentionsAttribute "zx" (some (.char ' '))
      (.char 'z' :: .char 'x' :: .char '=' :: behind) = true := by
    have bounded : ((some (CodePoint.char ' ')).any CodePoint.isWord != (CodePoint.char 'z').isWord) = true := by
      decide
    rw [mentionsAttribute, bounded]
    rfl
  rw [shape]
  iterate 5 refine mentionsAttribute_behind ?_
  exact found

theorem mentionedElements_styledSource {styles : List StyleText} (nonempty : styles ≠ []) :
    mentionedElements "zx" (styledSource styles) = styledElements 0 styles := by
  obtain ⟨codes, contents, prints, openings⟩ := exists_listing styles
  have mentioned : mentionsAttribute "zx" none (styledSource styles) = true := by
    cases styles with
    | nil => contradiction
    | cons styled styles => exact mentionsAttribute_styledElement _ _
  rw [mentionedElements, if_pos mentioned, ← prints, elements_listing areNames contents, openings]

theorem mentionedCalls_styledSource (styles : List StyleText) :
    mentionedCalls "createStyles" (styledSource styles) = [] := by
  obtain ⟨codes, contents, prints, -⟩ := exists_listing styles
  have none : calls "createStyles" (styledSource styles) = [] := by
    rw [← prints]
    exact calls_listing areNames contents _ (by decide)
  rw [mentionedCalls, none, ite_self]

section Planning

variable {plan : Plan} {source rest : Text} {offset : Nat} {styled : StyleText}

theorem StyleText.nameStyle (styled : StyleText) :
    Plan.nameStyle bareConfig (.object styled.style) =
      .ok (styled.identity, className "zx" styled.identity) := by
  have named := styled.named
  unfold identify at named
  cases digested : digest (.object styled.style) with
  | error defect => simp [digested, Except.map] at named
  | ok digits =>
    simp only [digested, Except.map, Except.ok.injEq] at named
    rw [← named]
    unfold Plan.nameStyle
    rw [digested]
    rfl

theorem evaluateAt_styled (styled : StyleText) (plan : Plan) (source : Text) (offset : Nat) :
    plan.evaluateAt source (styled.text ++ Text.ofString "\n") offset = .ok styled.style := by
  obtain ⟨node, parsed, evaluated⟩ := styled.means
  obtain ⟨node', parsed', evaluated'⟩ := evaluateObject_parse parsed evaluated
    (lexemes_lineFeed .operand styled.text) ⟨offset, Position.ofOffset source offset⟩
  have found : plan.parseAt source (styled.text ++ Text.ofString "\n") offset = .ok node' := by
    have read : parse (styled.text ++ Text.ofString "\n") ⟨offset, Position.ofOffset source offset⟩ =
        .ok node' := parsed'
    rw [Plan.parseAt, read]
  rw [Plan.evaluateAt, found]
  dsimp only
  rw [evaluated']

/-- Planning a style records its identity, and gives its class. -/
theorem addStyle_styled (styled : StyleText) (plan : Plan) (registry : Registry) (path : Text)
    (position : Position) :
    ∃ plan', plan.addStyle bareConfig registry path position styled.style =
        .ok (plan', className "zx" styled.identity) ∧
      plan'.editor = plan.editor ∧ plan'.identities = plan.identities ++ [styled.identity] ∧
      plan'.declarations = plan.declarations := by
  unfold Plan.addStyle
  rw [styled.nameStyle]
  simp only [Plan.usable, Except.bind]
  split
  · exact ⟨_, rfl, rfl, rfl, rfl⟩
  · obtain ⟨rule, compiled⟩ := styled.compiles (className "zx" styled.identity)
    rw [compiled]
    exact ⟨_, rfl, rfl, rfl, rfl⟩

theorem attribute?_styled (offset : Nat) (styled : StyleText) :
    (heldElement "div" "zx" offset (styled.text.length + 1)).attribute? "zx" =
      some (styleAttribute offset styled) := by
  simp [heldElement, Element.attribute?, styleAttribute, classEdit, heading, Text.ofString]
  omega

theorem classAttribute?_styled (offset length : Nat) :
    Plan.classAttribute? bareConfig (heldElement "div" "zx" offset length) = none := by
  simp [Plan.classAttribute?, bareConfig, Config.standard, Value.text?, heldElement, Element.attribute?,
    Text.ofString]

/-- The scanner hands the parser the text with the line feed behind it. -/
theorem valueText_styled (placed : source.drop offset = styledElement styled.text ++ rest) :
    (styleAttribute offset styled).valueText source = styled.text ++ Text.ofString "\n" := by
  have parts : source.drop offset = (heading "div" "zx" ++ Text.ofString "\x7b") ++
      ((styled.text ++ Text.ofString "\n") ++ .char '\x7d' :: (Text.ofString " />\n" ++ rest)) := by
    rw [placed, styledElement_eq, List.append_assoc]
    rfl
  have inside : source.drop (styleAttribute offset styled).valueStart = _ := Text.drop_of_drop parts rfl
  exact Text.slice_of_drop inside (by simp [styleAttribute, Text.ofString])

/-- Writing the class attribute records the edit, if all edits so far are in front of it. -/
theorem writeClass_styled (inside : offset + (styledElement styled.text).length ≤ plan.editor.source.length)
    (apart : ∀ earlier ∈ plan.editor.recorded, earlier.stop ≤ offset) :
    plan.writeClass bareConfig (styleAttribute offset styled) (className "zx" styled.identity) =
      .ok { plan with
        editor := ⟨plan.editor.source, plan.editor.recorded ++ [classEdit offset styled]⟩ } := by
  have text : Plan.classAttribute bareConfig (className "zx" styled.identity) =
      .ok (classEdit offset styled).text := by
    have shown : bareConfig.classAttr.shown = .ok "className" := rfl
    rw [Plan.classAttribute, shown]
    simp [Except.map, className, classEdit, Text.ofString]
  rw [length_styledElement] at inside
  have written := plan.editor.overwrite_of_apart (classEdit offset styled).text
    (show (classEdit offset styled).start < (classEdit offset styled).stop by
      simp only [classEdit]
      omega)
    (show (classEdit offset styled).stop ≤ plan.editor.source.length by
      simp only [classEdit]
      omega)
    (fun earlier member => Nat.le_trans (apart earlier member) (Nat.le_add_right _ _))
  rw [Plan.writeClass, text]
  simp only [Plan.usable, Except.bind, Plan.overwrite, styleAttribute]
  rw [written]

theorem addElement_styled (registry : Registry) (path : Text)
    (placed : source.drop offset = styledElement styled.text ++ rest)
    (same : plan.editor.source = source)
    (apart : ∀ earlier ∈ plan.editor.recorded, earlier.stop ≤ offset) :
    ∃ plan', plan.addElement bareConfig "zx" registry path source
        (heldElement "div" "zx" offset (styled.text.length + 1)) = .ok plan' ∧
      Continues plan plan' [styled.identity] [classEdit offset styled] := by
  obtain ⟨middle, added, editor, identities, declarations⟩ :=
    addStyle_styled styled plan registry path (Position.ofOffset source (offset + 5))
  have inside : offset + (styledElement styled.text).length ≤ source.length := by
    have length := congrArg List.length placed
    rw [List.length_drop, List.length_append, length_styledElement] at length
    rw [length_styledElement]
    omega
  let counted : Plan := { middle with declarations := middle.declarations + 1 }
  have planned : plan.addElement bareConfig "zx" registry path source
      (heldElement "div" "zx" offset (styled.text.length + 1)) =
        counted.writeClass bareConfig (styleAttribute offset styled) (className "zx" styled.identity) := by
    unfold Plan.addElement
    rw [attribute?_styled]
    dsimp only
    rw [if_neg (by simp [styleAttribute]), valueText_styled placed, evaluateAt_styled]
    simp only [Except.bind]
    rw [show (styleAttribute offset styled).start = offset + 5 from rfl, added]
    dsimp only
    rw [Plan.rewriteElement, classAttribute?_styled]
  have written := @writeClass_styled counted offset styled
    (by simp only [counted, editor, same, inside]) (by simpa only [counted, editor])
  refine ⟨_, planned.trans written, ?_⟩
  exact ⟨by simp only [counted, editor], identities, by simp only [counted, declarations]; rfl⟩

theorem stop_classEdit (offset : Nat) (styled : StyleText) :
    (classEdit offset styled).stop ≤ offset + (styledElement styled.text).length := by
  rw [length_styledElement]
  simp only [classEdit]
  omega

/-- Planning goes through all elements and records their edits. -/
theorem addElements_styled (registry : Registry) (path : Text) {styles : List StyleText}
    (placed : source.drop offset = styledSource styles) (same : plan.editor.source = source)
    (apart : ∀ earlier ∈ plan.editor.recorded, earlier.stop ≤ offset) :
    ∃ plan', (styledElements offset styles).foldlM
        (Plan.addElement bareConfig "zx" registry path source) plan = .ok plan' ∧
      Continues plan plan' (styles.map StyleText.identity) (classEdits offset styles) := by
  induction styles generalizing plan offset with
  | nil => exact ⟨plan, rfl, by simp [classEdits], by simp, rfl⟩
  | cons styled styles ih =>
    rw [styledSource_cons] at placed
    obtain ⟨middle, added, first⟩ := addElement_styled registry path placed same apart
    have further : source.drop (offset + (styledElement styled.text).length) = styledSource styles :=
      Text.drop_of_drop placed rfl
    have behind : ∀ earlier ∈ middle.editor.recorded,
        earlier.stop ≤ offset + (styledElement styled.text).length := by
      rw [first.editor]
      refine List.forall_mem_append.mpr ⟨fun earlier member => ?_, ?_⟩
      · exact Nat.le_trans (apart earlier member) (Nat.le_add_right _ _)
      · exact List.forall_mem_singleton.mpr (stop_classEdit offset styled)
    obtain ⟨plan', planned, others⟩ := ih further (by rw [first.editor, same]) behind
    refine ⟨plan', ?_, ?_, ?_, ?_⟩
    · rw [styledElements, List.foldlM_cons, added]
      exact planned
    · rw [others.editor, first.editor]
      simp [classEdits]
    · rw [others.identities, first.identities]
      simp
    · rw [others.declarations, first.declarations]
      simp only [List.length_map, List.length_cons, List.length_nil]
      omega

end Planning

theorem start_classEdits {offset : Nat} {styles : List StyleText} {edit : Edit}
    (member : edit ∈ classEdits offset styles) : offset < edit.start := by
  induction styles generalizing offset with
  | nil => cases member
  | cons styled styles ih =>
    rcases List.mem_cons.mp member with rfl | member
    · simp [classEdit]
    · exact Nat.lt_of_le_of_lt (Nat.le_add_right _ _) (ih member)

theorem classEdits_ascending (offset : Nat) (styles : List StyleText) :
    (classEdits offset styles).Pairwise fun a b => a.start < b.start := by
  induction styles generalizing offset with
  | nil => exact List.Pairwise.nil
  | cons styled styles ih =>
    refine List.pairwise_cons.mpr ⟨fun edit member => ?_, ih _⟩
    have behind := start_classEdits member
    rw [length_styledElement] at behind
    simp only [classEdit]
    omega

/-- The elements become the same elements with classes. -/
theorem renderFrom_classEdits {source : Text} {cursor offset : Nat} (behind : cursor ≤ offset)
    {styles : List StyleText} (placed : source.drop offset = styledSource styles) :
    Editor.renderFrom source cursor (classEdits offset styles) =
      source.slice cursor offset ++ styles.flatMap fun styled => classedElement styled.identity := by
  induction styles generalizing cursor offset with
  | nil =>
    rw [classEdits, Editor.renderFrom, ← Text.slice_append_drop source behind, placed]
    rfl
  | cons styled styles ih =>
    rw [styledSource_cons] at placed
    have further : source.drop (offset + (styledElement styled.text).length) = styledSource styles :=
      Text.drop_of_drop placed rfl
    have parts : source.drop offset = Text.ofString "<div " ++
        ((Text.ofString "zx=\x7b" ++ styled.text ++ Text.ofString "\n\x7d") ++
          (Text.ofString " />\n" ++ styledSource styles)) := by
      rw [placed]
      simp [styledElement, Text.ofString]
    have opening : source.slice offset (classEdit offset styled).start = Text.ofString "<div " :=
      Text.slice_of_drop parts rfl
    have value : source.drop (classEdit offset styled).start = _ := Text.drop_of_drop parts rfl
    have stops : (classEdit offset styled).stop = (classEdit offset styled).start +
        (Text.ofString "zx=\x7b" ++ styled.text ++ Text.ofString "\n\x7d").length := by
      simp [classEdit, Text.ofString]
    have tail : source.drop (classEdit offset styled).stop = _ := Text.drop_of_drop value stops
    have ending : source.slice (classEdit offset styled).stop
        (offset + (styledElement styled.text).length) = Text.ofString " />\n" := by
      refine Text.slice_of_drop tail ?_
      have length : (Text.ofString " />\n").length = 4 := by decide
      simp only [classEdit, length_styledElement, length]
      omega
    have before : offset ≤ (classEdit offset styled).start := Nat.le_add_right _ _
    rw [classEdits, Editor.renderFrom, ih (stop_classEdit offset styled) further, ending,
      ← Text.slice_append source behind before, opening, List.flatMap_cons]
    simp [classEdit, classedElement, Text.ofString]

/-- The plan for the source. -/
theorem plan_styled (registry : Registry) (path : Text) {styles : List StyleText}
    (nonempty : styles ≠ []) :
    ∃ plan, Session.plan bareConfig registry path (styledSource styles) = .ok plan ∧
      Continues (.ofSource (styledSource styles)) plan (styles.map StyleText.identity)
        (classEdits 0 styles) := by
  obtain ⟨plan, planned, continued⟩ := @addElements_styled (.ofSource (styledSource styles))
    (styledSource styles) 0 registry path styles rfl rfl (by simp [Plan.ofSource, Editor.ofSource])
  refine ⟨plan, ?_, continued⟩
  have attrName : bareConfig.attrName = .ok "zx" := rfl
  have callee : bareConfig.callee = .ok "createStyles" := rfl
  simp only [Session.plan, attrName, callee, Plan.usable, Except.bind,
    mentionedElements_styledSource nonempty, mentionedCalls_styledSource, planned, List.foldlM_nil]
  rfl

theorem transform_styled (theme : Option Theme.Store) {styles : List StyleText} (nonempty : styles ≠ []) :
    ∃ output, ((empty theme).transform bareConfig "A.tsx" (styledSource styles)).result =
        .ok (some output) ∧
      output.code = (styles.flatMap fun styled => classedElement styled.identity) ∧
      output.identities = Text.distinct (styles.map StyleText.identity) := by
  obtain ⟨plan, planned, continued⟩ := plan_styled (empty theme).registry "A.tsx" nonempty
  have handled : bareConfig.handles "A.tsx" = .ok true := by decide
  have declares : plan.declarations ≠ 0 := by
    rw [continued.declarations]
    cases styles with
    | nil => contradiction
    | cons styled styles => simp
  have rendered : plan.editor.render =
      styles.flatMap fun styled => classedElement styled.identity := by
    have recorded : plan.editor.recorded = classEdits 0 styles := by
      rw [continued.editor]
      rfl
    have ordered : plan.editor.edits = classEdits 0 styles := by
      rw [Editor.edits_of_ascending (recorded ▸ classEdits_ascending 0 styles), recorded]
    have source : plan.editor.source = styledSource styles := by
      rw [continued.editor]
      rfl
    rw [Editor.render, ordered, source]
    exact renderFrom_classEdits (Nat.le_refl 0) rfl
  have named : CanNameSheet bareConfig := nofun
  obtain ⟨editor, final, completed⟩ := commit_completes named (empty theme) "A.tsx" plan
  obtain rfl : plan.editor = editor := Except.ok.inj final
  refine ⟨⟨plan.editor.render, plan.editor.edits, Text.distinct plan.identities, plan.diagnostics⟩,
    ?_, rendered, ?_⟩
  · simp only [Session.transform, handled, Session.compile, planned, if_neg declares, completed]
    rfl
  · rw [continued.identities]
    rfl

/-- A text that means a style, which is compiled for some class and holds no surrogate. The compiler writes every
integer of a style, so none of them may be too long for that. -/
structure MeansStyle (text : Text) (style : Fields Value) : Prop where
  means : ∃ node, parse text ⟨0, ⟨1, 1⟩⟩ = .ok node ∧ evaluateObject node = .ok style
  compiles : ∃ name identity, (Style.compile bareConfig.themeStem name identity style).Succeeds
  writable : (Value.object style).isWritable = true
  lacking : (Value.object style).lacksSurrogates = true

theorem MeansStyle.exists_styled {text : Text} {style : Fields Value} (means : MeansStyle text style) :
    ∃ styled : StyleText, styled.text = text ∧ styled.style = style := by
  obtain ⟨node, -, evaluated⟩ := means.means
  have lacksStamps : (Value.object style).lacksStamps = true :=
    Value.fieldsLackStamps_of_areListFree (evaluateObject_isListFree evaluated)
  obtain ⟨digits, digested⟩ := digest_ok lacksStamps means.writable means.lacking
  obtain ⟨name, identity, compiled⟩ := means.compiles
  have named : identify (.object style) 8 = .ok (digits.leading 8) := by
    rw [identify, digested]
    rfl
  exact ⟨⟨text, style, _, means.means, named, fun name => compile_succeeds compiled name _⟩, rfl, rfl⟩

/-- Whether both values are the same text or the same integer. -/
private def isSameScalar : Value → Value → Bool
  | .text found, .text expected => decide (found = expected)
  | .int found, .int expected => decide (found = expected)
  | _, _ => false

private theorem eq_of_isSameScalar {found expected : Value}
    (same : isSameScalar found expected = true) : found = expected := by
  unfold isSameScalar at same
  split at same
  · rw [of_decide_eq_true same]
  · rw [of_decide_eq_true same]
  · cases same

/-- Whether a text means a style of one property. -/
private def declaresOnly (text key : Text) (value : Value) : Bool :=
  match parse text ⟨0, ⟨1, 1⟩⟩ with
  | .ok object =>
    match evaluateObject object with
    | .ok [(name, found)] => decide (name = key) && isSameScalar found value
    | _ => false
  | .error _ => false

private theorem MeansStyle.of_declaresOnly {text key : Text} {value : Value}
    (declares : declaresOnly text key value = true)
    (compiles : (Style.compile bareConfig.themeStem [] [] [(key, value)]).result.toBool = true)
    (writable : (Value.object [(key, value)]).isWritable = true)
    (lacking : (Value.object [(key, value)]).lacksSurrogates = true) :
    MeansStyle text [(key, value)] := by
  refine ⟨?_, ⟨[], [], ?_⟩, writable, lacking⟩
  · unfold declaresOnly at declares
    split at declares
    · rename_i node parsed
      split at declares
      · rename_i name found evaluated
        obtain ⟨named, same⟩ := Bool.and_eq_true_iff.mp declares
        rw [of_decide_eq_true named, eq_of_isSameScalar same] at evaluated
        exact ⟨node, parsed, evaluated⟩
      · cases declares
    · cases declares
  · cases result : (Style.compile bareConfig.themeStem [] [] [(key, value)]).result with
    | ok rule => exact ⟨rule, result⟩
    | error invalid => simp [result, Except.toBool] at compiles

/-- Elements with static styles are compiled, whatever strings, comments and brackets the styles are written with.
Each style attribute becomes the class of its style, the rest of the source stays as it is, and the identities of
the file are those of the styles. -/
theorem transform_static_texts (theme : Option Theme.Store) {declared : List (Text × Fields Value)}
    (nonempty : declared ≠ []) (static : ∀ pair ∈ declared, MeansStyle pair.1 pair.2) :
    ∃ (identities : List Text) (output : Output),
      declared.map (fun pair => identify (.object pair.2) 8) = identities.map .ok ∧
      ((empty theme).transform bareConfig "A.tsx"
        (declared.flatMap fun pair => styledElement pair.1)).result = .ok (some output) ∧
      output.code = identities.flatMap classedElement ∧
      ∀ identity, identity ∈ output.identities ↔ identity ∈ identities := by
  obtain ⟨styles, same⟩ : ∃ styles : List StyleText,
      styles.map (fun styled => (styled.text, styled.style)) = declared := by
    clear nonempty
    induction declared with
    | nil => exact ⟨[], rfl⟩
    | cons pair declared ih =>
      obtain ⟨means, others⟩ := List.forall_mem_cons.mp static
      obtain ⟨styled, text, style⟩ := means.exists_styled
      obtain ⟨styles, same⟩ := ih others
      exact ⟨styled :: styles, by rw [List.map_cons, same, text, style]⟩
  subst same
  have some : styles ≠ [] := fun empty => nonempty (by rw [empty, List.map_nil])
  obtain ⟨output, transformed, code, identities⟩ := transform_styled theme some
  have source : ((styles.map fun styled => (styled.text, styled.style)).flatMap
      fun pair => styledElement pair.1) = styledSource styles := by
    rw [List.flatMap_map]
    rfl
  refine ⟨styles.map StyleText.identity, output, ?_, ?_, ?_, fun identity => ?_⟩
  · rw [List.map_map, List.map_map]
    exact List.map_congr_left fun styled _ => styled.named
  · rw [source]
    exact transformed
  · rw [code, List.flatMap_map]
  · rw [identities, Text.mem_distinct]

/-- A comment with a quote and a bracket in it, an escape in a key, and a comment at the end of a text. -/
theorem transform_static_texts_commented :
    let declared : List (Text × Fields Value) :=
      [("\x7b /* '\x7d */ \"c\\u006flor\": '\x7d>', \x7d", [("color", .text "\x7d>")]),
        ("(\x7b margin: -4 \x7d) // ')", [("margin", .int (-4))])]
    declared ≠ [] ∧ (∀ pair ∈ declared, MeansStyle pair.1 pair.2) ∧
    ∃ (identities : List Text) (output : Output),
      declared.map (fun pair => identify (.object pair.2) 8) = identities.map .ok ∧
      ((empty none).transform bareConfig "A.tsx"
        (declared.flatMap fun pair => styledElement pair.1)).result = .ok (some output) ∧
      output.code = identities.flatMap classedElement ∧
      ∀ identity, identity ∈ output.identities ↔ identity ∈ identities := by
  intro declared
  have static : ∀ pair ∈ declared, MeansStyle pair.1 pair.2 := by
    refine List.forall_mem_cons.mpr ⟨?_, List.forall_mem_singleton.mpr ?_⟩
    · exact .of_declaresOnly (by decide +kernel) (by decide +kernel) (by decide +kernel) (by decide +kernel)
    · exact .of_declaresOnly (by decide +kernel) (by decide +kernel) (by decide +kernel) (by decide +kernel)
  exact ⟨List.cons_ne_nil _ _, static, transform_static_texts none (List.cons_ne_nil _ _) static⟩

end StaticStyle.Session
