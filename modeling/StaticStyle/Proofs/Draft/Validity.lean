import StaticStyle.Proofs.Draft.Basic

namespace StaticStyle

open Markup

/-- A code point that can stand in a class between any quotation marks. -/
def isClassPart (c : CodePoint) : Bool := !c.isQuote && c != '\\' && !c.isLineFeed

/-- Classes stand between any quotation marks, and objects are written as the scanner reads code, with a brace in
front. -/
structure Naming.IsSound (naming : Naming) : Prop where
  className : ∀ text, (naming.className text).all isClassPart = true
  object : ∀ text behind, (naming.object text).code.isValid false '\n' behind = true
  opens : ∀ text, (naming.object text).code.print.head? = some (.char '\x7b')

/-- The classes of a change stand between any quotation marks. -/
def Change.IsSound (change : Change) : Prop :=
  ∀ attr name, change attr = .write name ∨ change attr = .extend name → name.all isClassPart = true

theorem Change.IsSound.past {change : Change} (sound : change.IsSound) (attr : Text) : (change.past attr).IsSound := by
  intro other name acts
  unfold Change.past at acts
  split at acts
  · simp at acts
  · exact sound other name acts

theorem Naming.IsSound.ofStyle {naming : Naming} (sound : naming.IsSound) (style : Option Text) (hasClass : Bool) :
    (Change.ofStyle naming style hasClass).IsSound := by
  intro attr name acts
  cases style with
  | none => simp [Change.ofStyle] at acts
  | some text =>
    have named : naming.className text = name := by
      simp only [Change.ofStyle] at acts
      grind
    exact named ▸ sound.className text

namespace Markup.Tree

theorem Code.unclosed_mono (code : Code) {brackets brackets' : List Bracket}
    (closed : code.unclosed brackets = some brackets') (outer : List Bracket) :
    code.unclosed (brackets ++ outer) = some (brackets' ++ outer) := by
  match code with
  | .nil => simpa [Code.unclosed] using closed
  | .plain _ rest | .operator _ rest | .quoted _ _ rest | .template _ rest | .lineComment _ rest
  | .blockComment _ rest | .opening _ rest | .node _ rest => exact Code.unclosed_mono rest closed outer
  | .closing bracket rest =>
    cases brackets with
    | nil => simp [Code.unclosed] at closed
    | cons innermost brackets =>
      simp only [Code.unclosed, List.cons_append] at closed ⊢
      split at closed
      · rename_i fits
        rw [if_pos fits]
        exact Code.unclosed_mono rest closed outer
      · simp at closed

theorem Code.last_eq (code : Code) : code = .nil ∨ ∀ before before', code.last before = code.last before' := by
  cases code with
  | nil => exact .inl rfl
  | _ => exact .inr fun _ _ => rfl

def Tail.isValid (inValue : Bool) (tail : Tail) : Bool :=
  tail.1.isValid inValue && tail.2.all CodePoint.isBlank

theorem isGap_append {gap gap' : Text} (isGap : isGap gap = true) (isGap' : Tree.isGap gap' = true) :
    Tree.isGap (gap ++ gap') = true := by
  simp only [Tree.isGap, Bool.and_eq_true, Bool.not_eq_true', List.isEmpty_eq_false_iff] at *
  simp [isGap.1, isGap.2, isGap'.2]

theorem Tail.isValid_widen {inValue : Bool} {gap : Text} (gapped : isGap gap = true) {tail : Tail}
    (valid : tail.isValid inValue = true) : (tail.widen gap).isValid inValue = true := by
  have blank : gap.all CodePoint.isBlank = true := (Bool.and_eq_true_iff.mp gapped).2
  obtain ⟨attributes, space⟩ := tail
  simp only [isValid, Bool.and_eq_true] at valid ⊢
  cases attributes with
  | nil => simpa [widen, Attributes.isValid, blank] using valid
  | boolean gap' | quoted gap' | expression gap' | spread gap' =>
    simp only [widen, Attributes.isValid, Bool.and_eq_true] at valid ⊢
    simp [isGap_append gapped, valid]

/-- The code points of a class stand for themselves between quotation marks. -/
theorem isValid_plains_class {name : Text} (sound : name.all isClassPart = true) {mark : CodePoint}
    (isMark : mark.isQuote = true) : (name.map Stroke.plain).all (Stroke.isValid mark) = true := by
  rw [List.all_map, List.all_eq_true]
  intro c member
  have part := List.all_eq_true.mp sound c member
  simp only [isClassPart, Bool.and_eq_true, Bool.not_eq_true', bne_iff_ne] at part
  have noMark : c ≠ mark := by
    rintro rfl
    simp [isMark] at part
  simp [Stroke.isValid, noMark, part]

theorem flatMap_plain (text : Text) : (text.map Stroke.plain).flatMap Stroke.print = text := by
  induction text with
  | nil => rfl
  | cons c text ih => simpa [Stroke.print] using ih

theorem notMem_class {name : Text} (sound : name.all isClassPart = true) {mark : CodePoint}
    (isMark : mark.isQuote = true) : mark ∉ name := by
  intro member
  have part := List.all_eq_true.mp sound mark member
  simp [isClassPart, isMark] at part

theorem isPassedOver_quotation {mark : CodePoint} (isMark : mark.isQuote = true) {body : List Stroke}
    (valid : body.all (Stroke.isValid mark) = true) : isPassedOver (quotation mark body) = true := by
  have passed := closingDistance?_quotation .curly [] (Text.ofString "<\x7d") isMark valid
  have ends : closingDistance? [.bracket .curly] (Text.ofString "<\x7d") = some 1 := by decide
  rw [isPassedOver, Bracket.contentLength?, passed, ends]
  simp [Nat.add_comm]

/-- A class between quotation marks is a value. -/
theorem isQuotable_class {name : Text} (sound : name.all isClassPart = true) (inValue : Bool) {mark : CodePoint}
    (isMark : mark.isQuote = true) : isQuotable inValue mark name = true := by
  have passed := isPassedOver_quotation isMark (isValid_plains_class sound isMark)
  rw [quotation, flatMap_plain] at passed
  have absent : name.contains mark = false := by simpa using notMem_class sound isMark
  rw [isQuotable, isMark, absent, passed, Bool.or_true]
  rfl

/-- A value with a class behind it is a value. -/
theorem isQuotable_appended {value name : Text} (sound : name.all isClassPart = true) {inValue : Bool}
    {mark : CodePoint} (valid : isQuotable inValue mark value = true) :
    isQuotable inValue mark (appended value name) = true := by
  simp only [isQuotable, Bool.and_eq_true, Bool.not_eq_true', Bool.or_eq_true] at valid
  obtain ⟨⟨isMark, absent⟩, passed⟩ := valid
  unfold appended
  split
  · exact isQuotable_class sound inValue isMark
  · have absent : mark ∉ value := by simpa using absent
    have noSpace : mark ≠ ' ' := by
      rintro rfl
      revert isMark
      decide
    have absent' : (value ++ " " ++ name : Text).contains mark = false := by
      simp [Text.ofString, absent, noSpace, notMem_class sound isMark]
    cases inValue with
    | false => rw [isQuotable, isMark, absent', Bool.not_false, Bool.true_or]; rfl
    | true =>
      obtain ⟨body, strokes, rfl⟩ := exists_strokes_of_passedOver isMark absent (by simpa using passed)
      have strokes' : (body ++ Stroke.plain ' ' :: name.map Stroke.plain).all (Stroke.isValid mark) = true := by
        have space : Stroke.isValid mark (.plain ' ') = true := by
          simp [Stroke.isValid, noSpace.symm, CodePoint.isLineFeed]
        simp only [List.all_append, List.all_cons, strokes, space, isValid_plains_class sound isMark, Bool.and_self]
      have longer := isPassedOver_quotation isMark strokes'
      rw [quotation, List.flatMap_append, List.flatMap_cons, flatMap_plain, ← List.append_assoc] at longer
      rw [isQuotable, isMark, absent']
      exact longer

/-- An expression with one more class is code. -/
theorem isValid_joined {code : Code} {next : Option CodePoint} (valid : code.isValid true '\x7b' next = true)
    {name : Text} (sound : name.all isClassPart = true) (before : CodePoint) :
    (joined code name).isValid true before (some (.char '\x7d')) = true := by
  have stripped (rest : Text) (next : Option CodePoint) :
      code.strip.isValid true '[' ((", " ++ rest : Text).head?.or next) = true :=
    code.isValid_strip valid rfl rfl rfl
  have strokes : (name.map Stroke.plain).all (Stroke.isValid '"') = true := isValid_plains_class sound rfl
  have ends : joinCall.isValid true '"' (some (.char '\x7d')) = true := by decide
  have behind (before : CodePoint) : (joinEnd name).isValid true before (some (.char '\x7d')) = true :=
    Code.isValid_plains (by decide) (fun _ => by simp [Code.isValid, strokes, ends, CodePoint.isQuote]) before
  have print : (joinEnd name).print = ", " ++ (quotation '"' (name.map .plain) ++ joinCall.print) := by
    simp [joinEnd, Code.print]
  rw [joined, Code.isValid, Code.isValid_append, print, Bracket.opening, stripped, behind]
  rfl

theorem isBalanced_joined {code : Code} (balanced : code.isBalanced = true) (name : Text) :
    (joined code name).isBalanced = true := by
  simp only [Code.isBalanced, beq_iff_eq] at balanced ⊢
  have inside := code.unclosed_mono balanced [.square]
  simp only [List.nil_append] at inside
  simp [joined, Code.unclosed, Code.unclosed_strip, inside, joinEnd, joinCall]

theorem Tail.isValid_classed {inValue : Bool} {gap : Text} (gapped : isGap gap = true) {tail : Tail}
    (valid : tail.isValid inValue = true) {name : Text} (sound : name.all isClassPart = true) :
    (tail.classed gap name).isValid inValue = true := by
  simp only [Tail.isValid, Bool.and_eq_true] at valid
  have quotable : isQuotable inValue '"' name = true := isQuotable_class sound inValue rfl
  have named : isName isAttributeNamePart "className" = true := by decide
  simp [classed, Tail.isValid, Attributes.isValid, gapped, quotable, named, valid]

/-- Whatever happens to the attribute in front, a tail stays valid. -/
theorem Tail.isValid_act {inValue : Bool} {gap : Text} (gapped : isGap gap = true) {tail kept : Tail}
    {extended : Text → Tail} {action : Action} (valid : tail.isValid inValue = true)
    (sound : ∀ name, action = .write name ∨ action = .extend name → name.all isClassPart = true)
    (keptValid : kept.isValid inValue = true)
    (extendedValid : ∀ name, name.all isClassPart = true → (extended name).isValid inValue = true) :
    (tail.act gap kept extended action).isValid inValue = true := by
  cases action with
  | keep => exact keptValid
  | erase => exact Tail.isValid_widen gapped valid
  | write name => exact Tail.isValid_classed gapped valid (sound name (.inl rfl))
  | extend name => exact extendedValid name (sound name (.inr rfl))

end Markup.Tree

namespace Draft

variable {naming : Naming} {source : Text}

/-- An object or a call leaves the brackets around it as they are. -/
theorem Code.unclosed_compiled (draft : Code) (brackets : List Bracket) :
    (draft.compiled naming).unclosed brackets = draft.source.unclosed brackets := by
  match draft with
  | .nil => rfl
  | .piece flat rest =>
    simp only [Code.compiled, Code.source, Tree.Code.unclosed_append]
    congr 1
    funext inner
    exact Code.unclosed_compiled rest inner
  | .call gap argument rest =>
    have inside := argument.code.unclosed_mono argument.closed (.round :: brackets)
    have object := (naming.object argument.code.print).code.unclosed_mono (naming.object _).closed brackets
    simp only [List.nil_append] at inside object
    simp only [Code.compiled, Code.source, Tree.call, Tree.Code.unclosed_append, Tree.Code.unclosed_plains,
      Tree.Code.unclosed, inside, object, Option.bind_some, if_true]
    exact Code.unclosed_compiled rest brackets
  | .template _ rest | .node _ rest =>
    simp only [Code.compiled, Code.source, Tree.Code.unclosed]
    exact Code.unclosed_compiled rest brackets

theorem Code.isBalanced_compiled (naming : Naming) (draft : Code) :
    (draft.compiled naming).isBalanced = draft.source.isBalanced := by
  rw [Tree.Code.isBalanced, Code.unclosed_compiled draft, Tree.Code.isBalanced]

/-- The compiled form of a draft begins as its source does, but where that begins with a call. -/
theorem Code.head?_compiled (sound : naming.IsSound) (draft : Code) :
    (draft.compiled naming).print.head? = draft.source.print.head? ∨
      (draft.compiled naming).print.head? = some (.char '\x7b') := by
  match draft with
  | .nil => exact .inl rfl
  | .piece flat rest =>
    simp only [Code.compiled, Code.source, Tree.Code.print_append, List.head?_append]
    cases flat.code.print.head? with
    | none => exact Code.head?_compiled sound rest
    | some c => exact .inl rfl
  | .call gap argument rest =>
    refine .inr ?_
    rw [Code.compiled, Tree.Code.print_append, List.head?_append, sound.opens, Option.some_or]
  | .template content rest => exact .inl rfl
  | .node inner rest =>
    obtain ⟨text, same⟩ := Tree.Node.print_eq inner.source
    obtain ⟨text', same'⟩ := Tree.Node.print_eq (inner.compiled naming)
    refine .inl ?_
    rw [Code.compiled, Code.source, Tree.Code.print, Tree.Code.print, same, same']
    rfl

mutual

theorem Code.isValid_compiled (sound : naming.IsSound) (draft : Code) {inValue : Bool} {before before' : CodePoint}
    {next : Option CodePoint} {offset : Nat} (clear : draft.IsClear naming source offset)
    (valid : draft.source.isValid inValue before next = true)
    (same : endsOperand (some before') = endsOperand (some before) ∨ draft.source.print.head? ≠ some (.char '<')) :
    (draft.compiled naming).isValid inValue before' next = true := by
  match draft with
  | .nil => rfl
  | .piece flat rest =>
    rw [Code.source, Tree.Code.isValid_append, Bool.and_eq_true] at valid
    rw [Code.compiled, Tree.Code.isValid_append, Bool.and_eq_true]
    rw [Code.source, Tree.Code.print_append, List.head?_append] at same
    have front : flat.code.isValid inValue before (((rest.compiled naming).print.head?).or next) = true := by
      rcases Code.head?_compiled sound rest with kept | brace
      · rw [kept]
        exact valid.1
      · rw [brace]
        exact Tree.Code.isValid_behind flat.code rfl valid.1
    refine ⟨Tree.Code.isValid_before flat.code (same.imp_right fun other first => ?_) front,
      Code.isValid_compiled sound rest clear valid.2 ?_⟩
    · simp [first] at other
    · rcases flat.code.last_eq with none | ended
      · rw [none] at same ⊢
        exact same
      · exact .inl (congrArg (endsOperand ∘ some) (ended _ _))
  | .call gap argument rest =>
    rw [Code.source, Tree.call_eq_append, Tree.Code.isValid_append, Bool.and_eq_true] at valid
    rw [Code.compiled, Tree.Code.isValid_append, Bool.and_eq_true]
    have object (behind : Option CodePoint) :
        (naming.object argument.code.print).code.isValid inValue before' behind = true :=
      Tree.Code.isValid_before _ (.inr (by rw [sound.opens]; decide))
        (Tree.Code.isValid_of_isFlat _ (naming.object _).isFlat (sound.object _ behind) inValue)
    exact ⟨object _, Code.isValid_compiled sound rest clear.2 valid.2 (.inr clear.1)⟩
  | .template content rest =>
    simp only [Code.source, Code.compiled, Tree.Code.isValid, Bool.and_eq_true] at valid ⊢
    exact ⟨Template.isValid_compiled sound content clear.1 valid.1,
      Code.isValid_compiled sound rest clear.2 valid.2 (.inl rfl)⟩
  | .node inner rest =>
    obtain ⟨text, begins⟩ := Tree.Node.print_eq inner.source
    have same := same.resolve_right (by simp [Code.source, Tree.Code.print, begins])
    simp only [Code.source, Code.compiled, Tree.Code.isValid, Bool.and_eq_true, same] at valid ⊢
    exact ⟨⟨valid.1.1, Node.isValid_compiled sound inner clear.1 valid.1.2⟩,
      Code.isValid_compiled sound rest clear.2 valid.2 (.inl rfl)⟩

theorem Template.isValid_compiled (sound : naming.IsSound) (template : Template) {inValue : Bool} {offset : Nat}
    (clear : template.IsClear naming source offset) (valid : template.source.isValid inValue = true) :
    (template.compiled naming).isValid inValue = true := by
  match template with
  | .text body => exact valid
  | .code body inner rest =>
    simp only [Template.source, Template.compiled, Tree.Template.isValid, Bool.and_eq_true] at valid ⊢
    obtain ⟨⟨⟨textValid, codeValid⟩, balanced⟩, others⟩ := valid
    refine ⟨⟨⟨textValid, Code.isValid_compiled sound inner clear.1 codeValid (.inl rfl)⟩, ?_⟩,
      Template.isValid_compiled sound rest clear.2 others⟩
    rwa [Code.isBalanced_compiled naming inner]

theorem Node.isValid_compiled (sound : naming.IsSound) (node : Node) {inValue : Bool} {offset : Nat}
    (clear : node.IsClear naming source offset) (valid : node.source.isValid inValue = true) :
    (node.compiled naming).isValid inValue = true := by
  match node with
  | .selfClosing tag attributes space =>
    simp only [Node.source, Tree.Node.isValid, Bool.and_eq_true] at valid
    have changed := Attributes.isValid_compiled sound attributes (sound.ofStyle _ _) clear valid.1.2 valid.2
    simp only [Tree.Tail.isValid, Bool.and_eq_true] at changed
    simp only [Node.compiled, Tree.Node.isValid, Bool.and_eq_true]
    exact ⟨⟨valid.1.1, changed.1⟩, changed.2⟩
  | .paired tag attributes space children =>
    simp only [Node.source, Tree.Node.isValid, Bool.and_eq_true] at valid
    have changed := Attributes.isValid_compiled sound attributes (sound.ofStyle _ _) clear.1 valid.1.1.2 valid.1.2
    simp only [Tree.Tail.isValid, Bool.and_eq_true] at changed
    simp only [Node.compiled, Tree.Node.isValid, Bool.and_eq_true]
    exact ⟨⟨⟨valid.1.1.1, changed.1⟩, changed.2⟩, Children.isValid_compiled sound children clear.2 valid.2⟩
  | .fragment children => exact Children.isValid_compiled sound children clear valid

theorem Attributes.isValid_compiled (sound : naming.IsSound) (attributes : Attributes) {inValue : Bool}
    {change : Change} (changes : change.IsSound) {offset : Nat}
    (clear : attributes.IsClear naming source change offset) (valid : attributes.source.isValid inValue = true)
    {space : Text} (blank : space.all CodePoint.isBlank = true) :
    (attributes.compiled naming change space).isValid inValue = true := by
  match attributes with
  | .nil => simpa [Attributes.compiled, Tree.Tail.isValid, Tree.Attributes.isValid] using blank
  | .boolean gap name rest =>
    simp only [Attributes.source, Tree.Attributes.isValid, Bool.and_eq_true] at valid
    have behind := Attributes.isValid_compiled sound rest (changes.past name) clear valid.2 blank
    refine Tree.Tail.isValid_act valid.1.1 behind (changes name) ?_ fun className isClass => ?_
    · simpa [Tree.Tail.isValid, Tree.Attributes.isValid, valid.1, Bool.and_eq_true] using behind
    · exact Tree.Tail.isValid_classed valid.1.1 behind isClass
  | .quoted gap name before after mark value rest =>
    simp only [Attributes.source, Tree.Attributes.isValid, Bool.and_eq_true] at valid
    obtain ⟨⟨labelled, quotable⟩, others⟩ := valid
    have behind := Attributes.isValid_compiled sound rest (changes.past name) clear others blank
    refine Tree.Tail.isValid_act labelled.1.1.1 behind (changes name) ?_ fun className isClass => ?_
    · simpa [Tree.Tail.isValid, Tree.Attributes.isValid, labelled, quotable] using behind
    · have quotable := Tree.isQuotable_appended isClass quotable
      simpa [Tree.Tail.isValid, Tree.Attributes.isValid, labelled, quotable] using behind
  | .expression gap name before after code rest =>
    simp only [Attributes.source, Tree.Attributes.isValid, Bool.and_eq_true] at valid
    obtain ⟨⟨⟨labelled, codeValid⟩, balanced⟩, others⟩ := valid
    obtain ⟨codeClear, -, -, restClear⟩ := clear
    have behind := Attributes.isValid_compiled sound rest (changes.past name) restClear others blank
    have codeValid := Code.isValid_compiled sound code codeClear codeValid (.inl rfl)
    rw [← Code.isBalanced_compiled naming code] at balanced
    refine Tree.Tail.isValid_act labelled.1.1.1 behind (changes name) ?_ fun className isClass => ?_
    · simpa [Tree.Tail.isValid, Tree.Attributes.isValid, labelled, codeValid, balanced] using behind
    · have joinedValid := Tree.isValid_joined codeValid isClass '\x7b'
      have joinedBalanced := Tree.isBalanced_joined balanced className
      simpa [Tree.Tail.isValid, Tree.Attributes.isValid, labelled, joinedValid, joinedBalanced] using behind
  | .spread gap code rest =>
    simp only [Attributes.source, Tree.Attributes.isValid, Bool.and_eq_true] at valid
    obtain ⟨⟨⟨gapped, codeValid⟩, balanced⟩, others⟩ := valid
    have behind := Attributes.isValid_compiled sound rest changes clear.2 others blank
    have codeValid := Code.isValid_compiled sound code clear.1 codeValid (.inl rfl)
    rw [← Code.isBalanced_compiled naming code] at balanced
    simpa [Attributes.compiled, Tree.Tail.isValid, Tree.Attributes.isValid, gapped, codeValid, balanced] using behind

theorem Children.isValid_compiled (sound : naming.IsSound) (children : Children) {inValue : Bool} {offset : Nat}
    (clear : children.IsClear naming source offset) (valid : children.source.isValid inValue = true) :
    (children.compiled naming).isValid inValue = true := by
  match children with
  | .text text => exact valid
  | .node text inner rest =>
    simp only [Children.source, Children.compiled, Tree.Children.isValid, Bool.and_eq_true] at valid ⊢
    exact ⟨⟨valid.1.1, Node.isValid_compiled sound inner clear.1 valid.1.2⟩,
      Children.isValid_compiled sound rest clear.2 valid.2⟩
  | .code text inner rest =>
    simp only [Children.source, Children.compiled, Tree.Children.isValid, Bool.and_eq_true] at valid ⊢
    obtain ⟨⟨⟨textValid, codeValid⟩, balanced⟩, others⟩ := valid
    refine ⟨⟨⟨textValid, Code.isValid_compiled sound inner clear.1 codeValid (.inl rfl)⟩, ?_⟩,
      Children.isValid_compiled sound rest clear.2 others⟩
    rwa [Code.isBalanced_compiled naming inner]

end

end Draft

end StaticStyle
