import StaticStyle.Proofs.Markup.Walk

namespace StaticStyle.Markup.Tree

open Walker

mutual
/-- The opaque ranges of code that begins at an offset. -/
def Code.opaqueExtents (offset : Nat) : Code → List Extent
  | .nil => []
  | .plain _ rest | .operator _ rest | .opening _ rest | .closing _ rest => rest.opaqueExtents (offset + 1)
  | .quoted mark body rest =>
    let stop := offset + (quotation mark body).length
    ⟨offset, stop⟩ :: rest.opaqueExtents stop
  | .template content rest =>
    content.opaqueExtents offset (offset + 1) ++ rest.opaqueExtents (offset + content.print.length + 2)
  | .lineComment body rest =>
    let stop := offset + body.length + 3
    ⟨offset, stop⟩ :: rest.opaqueExtents stop
  | .blockComment body rest =>
    let stop := offset + body.length + 4
    ⟨offset, stop⟩ :: rest.opaqueExtents stop
  | .node node rest =>
    node.opaqueExtents offset ++ rest.opaqueExtents (offset + node.print.length)

/-- The text of a template is opaque, from an offset in front of it on, and its marks are. -/
def Template.opaqueExtents (since offset : Nat) : Template → List Extent
  | .text body => extent since (offset + (body.flatMap Stroke.print).length + 1)
  | .code body code rest =>
    let stop := offset + (body.flatMap Stroke.print).length
    let behind := stop + 2 + code.print.length + 1
    extent since stop ++ code.opaqueExtents (stop + 2) ++ rest.opaqueExtents behind behind

def Node.opaqueExtents (offset : Nat) : Node → List Extent
  | .selfClosing tag attributes space =>
    let inside := offset + 1 + tag.length
    let stop := inside + attributes.print.length + space.length + 2
    Element.quotedExtents ⟨tag, offset, stop, attributes.read inside⟩ ++
      attributes.opaqueExtents inside
  | .paired tag attributes space children =>
    let inside := offset + 1 + tag.length
    let stop := inside + attributes.print.length + space.length + 1
    Element.quotedExtents ⟨tag, offset, stop, attributes.read inside⟩ ++
      attributes.opaqueExtents inside ++ children.opaqueExtents stop
  | .fragment children => children.opaqueExtents (offset + 2)

/-- The opaque ranges of the code in the values of attributes. -/
def Attributes.opaqueExtents (offset : Nat) : Attributes → List Extent
  | .nil => []
  | .boolean gap name rest => rest.opaqueExtents (offset + gap.length + name.length)
  | .quoted gap name before behind _ value rest =>
    rest.opaqueExtents (offset + gap.length + name.length + before.length + 1 + behind.length +
      value.length + 2)
  | .expression gap name before behind code rest =>
    let valueStart := offset + gap.length + name.length + before.length + 1 + behind.length + 1
    code.opaqueExtents valueStart ++ rest.opaqueExtents (valueStart + code.print.length + 1)
  | .spread gap code rest =>
    let valueStart := offset + gap.length + 4
    code.opaqueExtents valueStart ++ rest.opaqueExtents (valueStart + code.print.length + 1)

/-- The text between tags is opaque. -/
def Children.opaqueExtents (offset : Nat) : Children → List Extent
  | .text text => extent offset (offset + text.length)
  | .node text node rest =>
    let start := offset + text.length
    extent offset start ++ node.opaqueExtents start ++
      rest.opaqueExtents (start + node.print.length)
  | .code text code rest =>
    let start := offset + text.length + 1
    extent offset (offset + text.length) ++ code.opaqueExtents start ++
      rest.opaqueExtents (start + code.print.length + 1)
end

def Code.survey (offset : Nat) (code : Code) : Survey :=
  ⟨code.openings offset, code.opaqueExtents offset⟩

def Template.survey (since offset : Nat) (template : Template) : Survey :=
  ⟨template.openings offset, template.opaqueExtents since offset⟩

def Node.survey (offset : Nat) (node : Node) : Survey :=
  ⟨node.openings offset, node.opaqueExtents offset⟩

def Children.survey (offset : Nat) (children : Children) : Survey :=
  ⟨children.openings offset, children.opaqueExtents offset⟩

/-- The regions of code inside brackets. -/
def within (brackets : List Bracket) (closing : Option Bracket) (outer : List Region) :
    List Region :=
  brackets.map (fun bracket => .code (some bracket)) ++ .code closing :: outer

private theorem within_eq (brackets : List Bracket) (closing : Option Bracket)
    (outer : List Region) :
    ∃ innermost below, within brackets closing outer = .code innermost :: below := by
  cases brackets with
  | nil => exact ⟨closing, outer, rfl⟩
  | cons bracket brackets => exact ⟨some bracket, _, rfl⟩

private theorem drop_further {whole text : Text} {base offset offset' : Nat}
    (placed : whole.drop (offset - base) = text) (below : base ≤ offset) (first second : Text)
    (split : text = first ++ second) (further : offset' = offset + first.length) :
    whole.drop (offset' - base) = second := by
  have distance : offset' - base = offset - base + first.length := by omega
  rw [distance, ← List.drop_drop, placed, split, List.drop_left]

private theorem valueSurveys_cons {attr : Attribute} {attributes : List Attribute} {base : Nat}
    {whole : Text} (isCode : attr.kind = .expression ∨ attr.kind = .spread) :
    valueSurveys (attr :: attributes) base whole =
      walk ⟨[.code (some .curly)], attr.valueStart, some (.char '\x7b'), attr.valueStart⟩
        (whole.drop (attr.valueStart - base)) :: valueSurveys attributes base whole := by
  rcases isCode with kind | kind <;> simp [valueSurveys, Element.codeStarts, kind]

/-- The walk over code ends behind its closing brace. -/
theorem walk_value {code : Code} {start offset : Nat} {before behind : Option CodePoint}
    {rest : Text}
    (walked : walk ⟨within [] (some .curly) [], start, before, offset⟩
      (code.print ++ .char '\x7d' :: rest) = code.survey offset ++
        walk ⟨within [] (some .curly) [], start, behind, offset + code.print.length⟩
          (.char '\x7d' :: rest)) :
    walk ⟨[.code (some .curly)], start, before, offset⟩ (code.print ++ .char '\x7d' :: rest) =
      code.survey offset := by
  have closed := walk_closing [] start behind (offset + code.print.length) rest .curly
  simp only [Bracket.closing] at closed
  simp only [within, List.map_nil, List.nil_append] at walked
  rw [walked, closed, walk_outside]
  simp [Survey.append_eq]

/-- Whether printed code is walked from some regions to others, with its own survey. -/
private def Code.Walks (code : Code) (rest : Text) (regions regions' : List Region) (since since' : Nat)
    (before : Option CodePoint) (offset : Nat) : Prop :=
  ∃ behind, walk ⟨regions, since, before, offset⟩ (code.print ++ rest) =
    code.survey offset ++ walk ⟨regions', since', behind, offset + code.print.length⟩ rest

private theorem Code.Walks.behind {code whole : Code} {rest : Text} {regions regions' outer : List Region}
    {since since' start : Nat} {before last : Option CodePoint} {offset offset' : Nat}
    (walks : code.Walks rest regions regions' since since' before offset) (front : Text) (ahead : Survey)
    (prints : whole.print = front ++ code.print)
    (surveyed : whole.survey offset' = ahead ++ code.survey offset) (further : offset = offset' + front.length)
    (walked : walk ⟨outer, start, last, offset'⟩ (front ++ (code.print ++ rest)) =
      ahead ++ walk ⟨regions, since, before, offset⟩ (code.print ++ rest)) :
    whole.Walks rest outer regions' start since' last offset' := by
  obtain ⟨behind, walks⟩ := walks
  have stop : offset' + whole.print.length = offset + code.print.length := by
    rw [prints, List.length_append, further, Nat.add_assoc]
  refine ⟨behind, ?_⟩
  rw [stop, surveyed, prints, List.append_assoc, walked, walks, Survey.append_assoc]

mutual

theorem Code.walk_print (code : Code) {inValue : Bool} {before : CodePoint}
    {brackets brackets' : List Bracket} (closing : Option Bracket)
    (outer : List Region) (since since' offset : Nat) (rest : Text)
    (valid : code.isValid inValue before rest.head? = true) (closed : code.unclosed brackets = some brackets') :
    ∃ behind, walk ⟨within brackets closing outer, since, some before, offset⟩
        (code.print ++ rest) = code.survey offset ++
        walk ⟨within brackets' closing outer, since', behind, offset + code.print.length⟩ rest := by
  obtain ⟨innermost, below, same⟩ := within_eq brackets closing outer
  match code with
  | .nil =>
    simp only [Code.unclosed, Option.some.injEq] at closed
    refine ⟨some before, ?_⟩
    rw [← closed, same, walk_code_since since since']
    simp [Code.print, Code.survey, Code.openings, Code.opaqueExtents, Survey.empty_append]
  | .plain c code =>
    simp only [Code.isValid, Bool.and_eq_true] at valid
    have walks : code.Walks _ _ _ _ _ _ _ := Code.walk_print code closing outer since since' (offset + 1) rest valid.2
      (by simpa [Code.unclosed] using closed)
    rw [same] at walks ⊢
    exact walks.behind [c] ⟨[], []⟩ rfl rfl rfl (walk_plain _ _ _ _ _ _ valid.1)
  | .operator sign code =>
    simp only [Code.isValid, Bool.and_eq_true] at valid
    have walks : code.Walks _ _ _ _ _ _ _ := Code.walk_print code closing outer since since' (offset + 1) rest valid.2
      (by simpa [Code.unclosed] using closed)
    rw [← List.head?_append] at valid
    rw [same] at walks ⊢
    exact walks.behind [sign] ⟨[], []⟩ rfl rfl rfl (walk_operator _ _ _ _ _ valid.1)
  | .quoted mark body code =>
    simp only [Code.isValid, Bool.and_eq_true] at valid
    have walks : code.Walks _ _ _ _ _ _ _ := Code.walk_print code closing outer since since'
      (offset + (quotation mark body).length) rest valid.2 (by simpa [Code.unclosed] using closed)
    rw [same] at walks ⊢
    exact walks.behind (quotation mark body) _ rfl rfl rfl (walk_quotation _ _ _ _ _ _ valid.1.1 valid.1.2)
  | .template content code =>
    simp only [Code.isValid, Bool.and_eq_true] at valid
    have walks : code.Walks _ _ _ _ _ _ _ := Code.walk_print code closing outer (offset + content.print.length + 2)
      since' (offset + content.print.length + 2) rest valid.2 (by simpa [Code.unclosed] using closed)
    rw [same] at walks ⊢
    have further : offset + 1 + content.print.length + 1 = offset + content.print.length + 2 := by omega
    refine walks.behind (.char '\x60' :: (content.print ++ [.char '\x60'])) (content.survey offset (offset + 1)) ?_ rfl
      (by simp [Nat.add_assoc]) ?_
    · simp [Code.print, Text.ofString]
    · rw [List.cons_append, List.append_assoc, List.singleton_append, walk_enterTemplate,
        Template.walk_print content valid.1, further]
  | .lineComment body code =>
    simp only [Code.isValid, Bool.and_eq_true, Bool.not_eq_true'] at valid
    have walks : code.Walks _ _ _ _ _ _ _ := Code.walk_print code closing outer since since'
      (offset + body.length + 3) rest valid.2 (by simpa [Code.unclosed] using closed)
    rw [same] at walks ⊢
    refine walks.behind ("//" ++ body ++ "\n") _ rfl rfl ?_ (walk_lineComment _ _ _ _ _ _ valid.1)
    simp [Text.ofString]
    omega
  | .blockComment body code =>
    simp only [Code.isValid, Bool.and_eq_true, Bool.not_eq_true'] at valid
    have walks : code.Walks _ _ _ _ _ _ _ := Code.walk_print code closing outer since since'
      (offset + body.length + 4) rest valid.2 (by simpa [Code.unclosed] using closed)
    rw [same] at walks ⊢
    refine walks.behind ("/*" ++ body ++ "*/") _ rfl rfl ?_ (walk_blockComment _ _ _ _ _ _ valid.1)
    simp [Text.ofString]
    omega
  | .opening bracket code =>
    have walks : code.Walks _ _ _ _ _ _ _ := Code.walk_print code closing outer (offset + 1) since' (offset + 1) rest
      valid closed
    have deeper : within (bracket :: brackets) closing outer =
        .code (some bracket) :: within brackets closing outer := rfl
    rw [deeper, same] at walks
    rw [same]
    exact walks.behind [bracket.opening] ⟨[], []⟩ rfl rfl rfl (walk_opening _ _ _ _ _ _ bracket)
  | .closing bracket code =>
    cases brackets with
    | nil => simp [Code.unclosed] at closed
    | cons innermost brackets =>
      by_cases fits : innermost = bracket
      · subst fits
        have walks : code.Walks _ _ _ _ _ _ _ := Code.walk_print code closing outer (offset + 1) since' (offset + 1)
          rest valid (by simpa [Code.unclosed] using closed)
        exact walks.behind [innermost.closing] ⟨[], []⟩ rfl rfl rfl (walk_closing _ _ _ _ _ innermost)
      · simp [Code.unclosed, fits] at closed
  | .node node code =>
    simp only [Code.isValid, Bool.and_eq_true, Bool.not_eq_true'] at valid
    obtain ⟨⟨noOperand, nodeValid⟩, codeValid⟩ := valid
    have walks : code.Walks _ _ _ _ _ _ _ := Code.walk_print code closing outer (offset + node.print.length) since'
      (offset + node.print.length) rest codeValid (by simpa [Code.unclosed] using closed)
    rw [same] at walks ⊢
    have tag := takesTag_code innermost below since noOperand offset
    exact walks.behind node.print (node.survey offset) rfl rfl rfl (Node.walk_print node nodeValid tag _)

theorem Template.walk_print (template : Template) {inValue : Bool} (valid : template.isValid inValue = true)
    (outer : List Region) (since : Nat) (before : Option CodePoint) (offset : Nat) (rest : Text) :
    walk ⟨.template :: outer, since, before, offset⟩ (template.print ++ .char '\x60' :: rest) =
      template.survey since offset ++
        walk ⟨outer, offset + template.print.length + 1, some (.char '\x60'), offset + template.print.length + 1⟩
          rest := by
  match template with
  | .text body =>
    obtain ⟨before', walked⟩ := walk_templateText outer since before offset (.char '\x60' :: rest) valid (by simp)
    rw [Template.print, walked, walk_leaveTemplate]
    rfl
  | .code body code template =>
    simp only [Template.isValid, Code.isBalanced, beq_iff_eq, Bool.and_eq_true] at valid
    obtain ⟨⟨⟨textValid, codeValid⟩, balanced⟩, others⟩ := valid
    let tail := template.print ++ .char '\x60' :: rest
    let stop := offset + (body.flatMap Stroke.print).length
    obtain ⟨before', walked⟩ := walk_templateText outer since before offset
      (.char '$' :: .char '\x7b' :: (code.print ++ .char '\x7d' :: tail)) textValid (by simp)
    obtain ⟨last, coded⟩ := Code.walk_print code (some .curly) (.template :: outer) (stop + 2) 0 (stop + 2)
      (.char '\x7d' :: tail) codeValid balanced
    have closed := walk_closing (.template :: outer) 0 last (stop + 2 + code.print.length) tail .curly
    have behind := Template.walk_print template others outer (stop + 2 + code.print.length + 1)
      (some (.char '\x7d')) (stop + 2 + code.print.length + 1) rest
    have shape : (Template.code body code template).print ++ .char '\x60' :: rest =
        body.flatMap Stroke.print ++ .char '$' :: .char '\x7b' :: (code.print ++ .char '\x7d' :: tail) := by
      simp [Template.print, Text.ofString, tail]
    have length : offset + (Template.code body code template).print.length + 1 =
        stop + 2 + code.print.length + 1 + template.print.length + 1 := by
      rw [Template.stop_code]
    simp only [within, List.map_nil, List.nil_append] at coded
    simp only [Bracket.closing] at closed
    rw [shape, length, walked, walk_enterCode, coded, closed, behind]
    simp only [Template.survey, Code.survey, Template.openings, Template.opaqueExtents, Survey.append_eq,
      List.nil_append, List.append_assoc, stop]

theorem Node.walk_print (node : Node) {inValue : Bool} (valid : node.isValid inValue = true)
    {walker : Walker} {marks : List Extent} (takes : TakesTag walker marks) (rest : Text) :
    walk walker (node.print ++ rest) =
      (⟨[], marks⟩ : Survey) ++ (node.survey walker.offset ++
        walk ⟨walker.regions, walker.offset + node.print.length, some (.char '>'),
          walker.offset + node.print.length⟩ rest) := by
  match node with
  | .selfClosing tag attributes space =>
    simp only [Node.isValid, Bool.and_eq_true] at valid
    obtain ⟨⟨named, attributesValid⟩, blank⟩ := valid
    obtain ⟨elements, opaqueExtents⟩ := Attributes.walk_values attributes attributesValid
      (walker.offset + 1) (walker.offset + 1 + tag.length)
      (tag ++ (attributes.print ++ (space ++ (tagEnd true ++ rest))))
      (space ++ (tagEnd true ++ rest)) (by simp) (by omega)
    have opened := walk_openingTag takes named attributesValid blank true rest elements
      opaqueExtents
    have shape : (Node.selfClosing tag attributes space).print ++ rest =
        .char '<' :: (tag ++ (attributes.print ++ (space ++ (tagEnd true ++ rest)))) := by
      simp [Node.print, tagEnd, Text.ofString]
    have size : (tagEnd true).length = 2 := rfl
    rw [shape, opened, Node.stop_selfClosing]
    simp only [size, Node.survey, Node.openings, Node.opaqueExtents, Survey.append_eq,
      List.nil_append, List.cons_append, List.append_assoc, ↓reduceIte]
  | .paired tag attributes space children =>
    simp only [Node.isValid, Bool.and_eq_true] at valid
    obtain ⟨⟨⟨named, attributesValid⟩, blank⟩, childrenValid⟩ := valid
    have noEnd : tag.contains (.char '>') = false := by
      cases tag with
      | nil => rfl
      | cons c tag =>
        simp only [isName, Bool.and_eq_true, List.all_eq_true] at named
        have first : c ≠ .char '>' := ne_of_nameStart named.1 (by decide)
        have others : .char '>' ∉ tag := fun member => absurd (named.2 _ member) (by decide)
        simp [first.symm, others]
    let behind := children.print ++ .char '<' :: .char '/' :: (tag ++ .char '>' :: rest)
    obtain ⟨elements, opaqueExtents⟩ := Attributes.walk_values attributes attributesValid
      (walker.offset + 1) (walker.offset + 1 + tag.length)
      (tag ++ (attributes.print ++ (space ++ (tagEnd false ++ behind))))
      (space ++ (tagEnd false ++ behind)) (by simp) (by omega)
    have opened := walk_openingTag takes named attributesValid blank false behind elements
      opaqueExtents
    have shape : (Node.paired tag attributes space children).print ++ rest =
        .char '<' :: (tag ++ (attributes.print ++ (space ++ (tagEnd false ++ behind)))) := by
      simp [Node.print, tagEnd, Text.ofString, behind]
    have size : (tagEnd false).length = 1 := rfl
    rw [shape, opened, Node.stop_paired]
    simp only [size, Bool.false_eq_true, ↓reduceIte, behind]
    rw [Children.walk_print children childrenValid noEnd]
    simp only [Node.survey, Children.survey, Node.openings, Node.opaqueExtents, Survey.append_eq,
      List.nil_append, List.cons_append, List.append_assoc]
  | .fragment children =>
    have stepped := takes.2 (.char '>' :: (children.print ++ .char '<' :: .char '/' :: .char '>' ::
      rest)) (by simp)
    have shape : (Node.fragment children).print ++ rest = .char '<' :: .char '>' ::
        (children.print ++ .char '<' :: .char '/' :: .char '>' :: rest) := by
      simp [Node.print, Text.ofString]
    have noEnd : List.contains [] (CodePoint.char '>') = false := rfl
    have inside := Children.walk_print children valid noEnd walker.regions (some (.char '>'))
      (walker.offset + 2) rest
    simp only [Walker.tag, enter, List.append_nil] at stepped
    rw [shape, Node.stop_fragment, walk_step stepped]
    simp only [List.drop_succ_cons, List.drop_zero, List.nil_append] at inside ⊢
    simp [inside, Node.survey, Children.survey, Node.openings, Node.opaqueExtents, Survey.append_eq]

/-- The code in the values of attributes, which stand at an offset of a text that begins at
`base`. -/
private theorem Attributes.walk_values (attributes : Attributes) {inValue : Bool}
    (valid : attributes.isValid inValue = true) (base offset : Nat) (whole rest : Text)
    (placed : whole.drop (offset - base) = attributes.print ++ rest) (below : base ≤ offset) :
    (valueSurveys (attributes.read offset) base whole).flatMap Survey.elements =
        attributes.openings offset ∧
      (valueSurveys (attributes.read offset) base whole).flatMap Survey.opaqueExtents =
        attributes.opaqueExtents offset := by
  match attributes with
  | .nil => exact ⟨rfl, rfl⟩
  | .boolean gap name attributes =>
    simp only [Attributes.isValid, Bool.and_eq_true] at valid
    have further : whole.drop (offset + gap.length + name.length - base) =
        attributes.print ++ rest :=
      drop_further placed below (gap ++ name) _ (by simp [Attributes.print])
        (by simp [Nat.add_assoc])
    have others := Attributes.walk_values attributes valid.2 base _ whole rest further (by omega)
    exact others
  | .quoted gap name before behind mark value attributes =>
    simp only [Attributes.isValid, Bool.and_eq_true] at valid
    have further : whole.drop (offset + gap.length + name.length + before.length + 1 +
        behind.length + value.length + 2 - base) = attributes.print ++ rest :=
      drop_further placed below
        (gap ++ name ++ before ++ "=" ++ behind ++ [mark] ++ value ++ [mark]) _
        (by simp [Attributes.print]) (by simp [Text.ofString]; omega)
    have others := Attributes.walk_values attributes valid.2 base _ whole rest further (by omega)
    exact others
  | .expression gap name before behind code attributes =>
    simp only [Attributes.isValid, Code.isBalanced, beq_iff_eq, Bool.and_eq_true] at valid
    obtain ⟨⟨⟨-, codeValid⟩, balanced⟩, attributesValid⟩ := valid
    have inside : whole.drop (offset + gap.length + name.length + before.length + 1 +
        behind.length + 1 - base) = code.print ++ .char '\x7d' :: (attributes.print ++ rest) :=
      drop_further placed below (gap ++ name ++ before ++ "=" ++ behind ++ "\x7b") _
        (by simp [Attributes.print, Text.ofString]) (by simp [Text.ofString]; omega)
    have further : whole.drop (offset + gap.length + name.length + before.length + 1 +
        behind.length + 1 + code.print.length + 1 - base) = attributes.print ++ rest :=
      drop_further inside (by omega) (code.print ++ "\x7d") _ (by simp [Text.ofString])
        (by simp [Text.ofString]; omega)
    have others := Attributes.walk_values attributes attributesValid base _ whole rest further
      (by omega)
    obtain ⟨last, walked⟩ := Code.walk_print code (some .curly) []
      (offset + gap.length + name.length + before.length + 1 + behind.length + 1)
      (offset + gap.length + name.length + before.length + 1 + behind.length + 1)
      (offset + gap.length + name.length + before.length + 1 + behind.length + 1)
      (.char '\x7d' :: (attributes.print ++ rest)) codeValid balanced
    simp only [Attributes.read]
    rw [valueSurveys_cons (.inl rfl)]
    simp only [inside, walk_value walked, List.flatMap_cons, others]
    exact ⟨rfl, rfl⟩
  | .spread gap code attributes =>
    simp only [Attributes.isValid, Code.isBalanced, beq_iff_eq, Bool.and_eq_true] at valid
    obtain ⟨⟨⟨-, codeValid⟩, balanced⟩, attributesValid⟩ := valid
    have inside : whole.drop (offset + gap.length + 1 - base) =
        code.dotted.print ++ .char '\x7d' :: (attributes.print ++ rest) :=
      drop_further placed below (gap ++ "\x7b") _
        (by simp [Attributes.print, Text.ofString, Code.dotted, Code.print])
        (by simp [Text.ofString]; omega)
    have further : whole.drop (offset + gap.length + 4 + code.print.length + 1 - base) =
        attributes.print ++ rest :=
      drop_further inside (by omega) (code.dotted.print ++ "\x7d") _ (by simp [Text.ofString])
        (by simp [Text.ofString, Code.dotted, Code.print]; omega)
    have others := Attributes.walk_values attributes attributesValid base _ whole rest further
      (by omega)
    obtain ⟨last, walked⟩ := Code.walk_print code (some .curly) [] (offset + gap.length + 1)
      (offset + gap.length + 1) (offset + gap.length + 4) (.char '\x7d' :: (attributes.print ++ rest)) codeValid
      balanced
    have dot : isPlain '.' = true := by decide
    have dotted : walk ⟨[.code (some .curly)], offset + gap.length + 1, some (.char '\x7b'),
        offset + gap.length + 1⟩ (code.dotted.print ++ .char '\x7d' :: (attributes.print ++ rest)) =
          code.survey (offset + gap.length + 4) := by
      simp only [Code.dotted, Code.print, List.cons_append, walk_plain _ _ _ _ _ _ dot]
      exact walk_value walked
    simp only [Attributes.read]
    rw [valueSurveys_cons (.inr rfl)]
    simp only [inside, dotted, List.flatMap_cons, others]
    exact ⟨rfl, rfl⟩

private theorem Children.walk_print (children : Children) {inValue : Bool}
    (valid : children.isValid inValue = true) {tag : Text}
    (noEnd : tag.contains (.char '>') = false) (outer : List Region) (before : Option CodePoint)
    (offset : Nat) (rest : Text) :
    walk ⟨.children :: outer, offset, before, offset⟩
        (children.print ++ .char '<' :: .char '/' :: (tag ++ .char '>' :: rest)) =
      children.survey offset ++
        walk ⟨outer, offset + children.print.length + (tag.length + 3), some (.char '>'),
          offset + children.print.length + (tag.length + 3)⟩ rest := by
  match children with
  | .text text =>
    simp only [Children.isValid, isText, Bool.and_eq_true] at valid
    obtain ⟨before', walked⟩ := walk_text valid.1 outer offset before offset
      (.char '<' :: .char '/' :: (tag ++ .char '>' :: rest))
    rw [Children.print, walked, walk_closingTag noEnd]
    simp only [Children.survey, Children.openings, Children.opaqueExtents]
  | .node text node children =>
    simp only [Children.isValid, isText, Bool.and_eq_true] at valid
    obtain ⟨⟨⟨noSign, -⟩, nodeValid⟩, childrenValid⟩ := valid
    obtain ⟨before', walked⟩ := walk_text noSign outer offset before offset
      (node.print ++ (children.print ++ .char '<' :: .char '/' :: (tag ++ .char '>' :: rest)))
    have behind := Children.walk_print children childrenValid noEnd outer (some (.char '>'))
      (offset + text.length + node.print.length) rest
    have takes := takesTag_children outer offset before' (offset + text.length)
    rw [Children.print, List.append_assoc, List.append_assoc, walked,
      Node.walk_print node nodeValid takes, behind]
    simp only [Children.survey, Node.survey, Children.openings, Children.opaqueExtents,
      List.length_append, Nat.add_assoc, Survey.append_eq, List.nil_append, List.append_assoc]
  | .code text code children =>
    simp only [Children.isValid, isText, Code.isBalanced, beq_iff_eq, Bool.and_eq_true] at valid
    obtain ⟨⟨⟨⟨noSign, -⟩, codeValid⟩, balanced⟩, childrenValid⟩ := valid
    let tail := children.print ++ .char '<' :: .char '/' :: (tag ++ .char '>' :: rest)
    obtain ⟨before', walked⟩ := walk_text noSign outer offset before offset
      (.char '\x7b' :: (code.print ++ .char '\x7d' :: tail))
    have behind := Children.walk_print children childrenValid noEnd outer (some (.char '\x7d'))
      (offset + text.length + 1 + code.print.length + 1) rest
    have stepped (text' : Text) :
        step ⟨.children :: outer, offset, before', offset + text.length⟩ '\x7b' text' =
          some ⟨.code (some .curly) :: .children :: outer, offset + text.length + 1, 0 + 1,
            extent offset (offset + text.length), none⟩ := by
      simp [step, enter, closeText]
    obtain ⟨last, coded⟩ := Code.walk_print code (some .curly) (.children :: outer) (offset + text.length + 1) 0
      (offset + text.length + 1) (.char '\x7d' :: tail) codeValid balanced
    have shape : (Children.code text code children).print ++
        .char '<' :: .char '/' :: (tag ++ .char '>' :: rest) =
          text ++ .char '\x7b' :: (code.print ++ .char '\x7d' :: tail) := by
      simp [Children.print, Text.ofString, tail]
    have closed := walk_closing (.children :: outer) 0 last
      (offset + text.length + 1 + code.print.length) tail .curly
    simp only [within, List.map_nil, List.nil_append] at coded
    rw [shape, Children.stop_code, walked, walk_step (stepped _)]
    simp only [List.take_succ_cons, List.take_zero, List.getLast?_singleton, List.drop_succ_cons,
      List.drop_zero, Nat.zero_add]
    rw [coded]
    simp only [Bracket.closing] at closed
    rw [closed, behind]
    simp only [Children.survey, Code.survey, Children.openings, Children.opaqueExtents,
      Nat.add_assoc, Survey.append_eq, List.nil_append, List.append_assoc]

end

/-- The survey of the value of an attribute is that of its code. -/
theorem Code.survey_value {code : Code} {inValue : Bool} {before : CodePoint}
    (valid : code.isValid inValue before (some (.char '\x7d')) = true) (balanced : code.unclosed [] = some [])
    (start offset : Nat) (rest : Text) :
    walk ⟨[.code (some .curly)], start, some before, offset⟩ (code.print ++ .char '\x7d' :: rest) =
      code.survey offset := by
  obtain ⟨behind, walked⟩ := Code.walk_print code (some .curly) [] start start offset (.char '\x7d' :: rest) valid
    balanced
  exact walk_value walked

/-- Elements in the order of their starts, all of them between two offsets. -/
private def Ordered (low high : Nat) (elements : List Element) : Prop :=
  elements.Pairwise (fun a b => a.start ≤ b.start) ∧
    ∀ element ∈ elements, low ≤ element.start ∧ element.start ≤ high

private theorem Ordered.nil (low high : Nat) : Ordered low high [] :=
  ⟨List.Pairwise.nil, fun _ member => absurd member List.not_mem_nil⟩

private theorem Ordered.widen {low low' high high' : Nat} {elements : List Element}
    (ordered : Ordered low high elements) (below : low' ≤ low) (above : high ≤ high') :
    Ordered low' high' elements :=
  ⟨ordered.1, fun element member =>
    ⟨Nat.le_trans below (ordered.2 element member).1,
      Nat.le_trans (ordered.2 element member).2 above⟩⟩

private theorem Ordered.append {low middle middle' high : Nat} {first second : List Element}
    (ordered : Ordered low middle first) (ordered' : Ordered middle' high second)
    (between : middle ≤ middle') (below : low ≤ middle') (above : middle ≤ high) :
    Ordered low high (first ++ second) := by
  refine ⟨List.pairwise_append.mpr ⟨ordered.1, ordered'.1, ?_⟩, ?_⟩
  · intro a member b member'
    exact Nat.le_trans (ordered.2 a member).2 (Nat.le_trans between (ordered'.2 b member').1)
  · intro element member
    rcases List.mem_append.mp member with member | member
    · exact (ordered.widen (Nat.le_refl _) above).2 element member
    · exact (ordered'.widen below (Nat.le_refl _)).2 element member

private theorem Ordered.cons {element : Element} {start low high : Nat} {elements : List Element}
    (ordered : Ordered low high elements) (begins : element.start = start) (below : start ≤ low)
    (above : start ≤ high) : Ordered start high (element :: elements) := by
  have alone : Ordered start start [element] := ⟨List.pairwise_singleton _ _, by simp [begins]⟩
  exact alone.append ordered below below above

mutual

private theorem Code.openings_ordered (code : Code) (offset : Nat) :
    Ordered offset (offset + code.print.length) (code.openings offset) := by
  match code with
  | .nil => exact Ordered.nil _ _
  | .plain _ code | .operator _ code | .opening _ code | .closing _ code =>
    have others := code.openings_ordered (offset + 1)
    exact others.widen (by omega) (by simp only [Code.print, List.length_cons]; omega)
  | .quoted mark body code =>
    have others := code.openings_ordered (offset + (quotation mark body).length)
    exact others.widen (by omega) (by simp only [Code.print, List.length_append]; omega)
  | .template content code =>
    have others := code.openings_ordered (offset + content.print.length + 2)
    have whole := (content.openings_ordered (offset + 1)).append others (by omega) (by omega) (by omega)
    rw [Code.stop_template]
    exact whole.widen (by omega) (Nat.le_refl _)
  | .lineComment body code =>
    have others := code.openings_ordered (offset + body.length + 3)
    rw [Code.stop_lineComment]
    exact others.widen (by omega) (Nat.le_refl _)
  | .blockComment body code =>
    have others := code.openings_ordered (offset + body.length + 4)
    rw [Code.stop_blockComment]
    exact others.widen (by omega) (Nat.le_refl _)
  | .node node code =>
    have others := code.openings_ordered (offset + node.print.length)
    have whole := (node.openings_ordered offset).append others (by omega) (by omega) (by omega)
    exact whole.widen (by omega) (by simp only [Code.print, List.length_append]; omega)

private theorem Template.openings_ordered (template : Template) (offset : Nat) :
    Ordered offset (offset + template.print.length) (template.openings offset) := by
  match template with
  | .text _ => exact Ordered.nil _ _
  | .code body code template =>
    let start := offset + (body.flatMap Stroke.print).length + 2
    have inside := code.openings_ordered start
    have others := template.openings_ordered (start + code.print.length + 1)
    have whole := inside.append others (by omega) (by omega) (by omega)
    rw [Template.stop_code]
    exact whole.widen (by omega) (Nat.le_refl _)

private theorem Node.openings_ordered (node : Node) (offset : Nat) :
    Ordered offset (offset + node.print.length) (node.openings offset) := by
  match node with
  | .selfClosing tag attributes space =>
    have inside := attributes.openings_ordered (offset + 1 + tag.length)
    have length := Node.stop_selfClosing tag attributes space offset
    have wide := inside.widen (Nat.le_refl _)
      (show _ ≤ offset + (Node.selfClosing tag attributes space).print.length by omega)
    exact wide.cons rfl (by omega) (by omega)
  | .paired tag attributes space children =>
    have inside := attributes.openings_ordered (offset + 1 + tag.length)
    have behind := children.openings_ordered
      (offset + 1 + tag.length + attributes.print.length + space.length + 1)
    have length := Node.stop_paired tag attributes space children offset
    have wide := (inside.append behind (by omega) (by omega) (by omega)).widen (Nat.le_refl _)
      (show _ ≤ offset + (Node.paired tag attributes space children).print.length by omega)
    exact wide.cons rfl (by omega) (by omega)
  | .fragment children =>
    have inside := children.openings_ordered (offset + 2)
    rw [Node.stop_fragment]
    exact inside.widen (by omega) (by omega)

private theorem Attributes.openings_ordered (attributes : Attributes) (offset : Nat) :
    Ordered offset (offset + attributes.print.length) (attributes.openings offset) := by
  match attributes with
  | .nil => exact Ordered.nil _ _
  | .boolean gap name attributes =>
    have others := attributes.openings_ordered (offset + gap.length + name.length)
    rw [Attributes.stop_boolean]
    exact others.widen (by omega) (Nat.le_refl _)
  | .quoted gap name before behind mark value attributes =>
    have others := attributes.openings_ordered (offset + gap.length + name.length +
      before.length + 1 + behind.length + value.length + 2)
    rw [Attributes.stop_quoted]
    exact others.widen (by omega) (Nat.le_refl _)
  | .expression gap name before behind code attributes =>
    let valueStart := offset + gap.length + name.length + before.length + 1 + behind.length + 1
    have inside := code.openings_ordered valueStart
    have others := attributes.openings_ordered (valueStart + code.print.length + 1)
    have whole := inside.append others (by omega) (by omega) (by omega)
    rw [Attributes.stop_expression]
    exact whole.widen (by omega) (Nat.le_refl _)
  | .spread gap code attributes =>
    let valueStart := offset + gap.length + 4
    have inside := code.openings_ordered valueStart
    have others := attributes.openings_ordered (valueStart + code.print.length + 1)
    have whole := inside.append others (by omega) (by omega) (by omega)
    rw [Attributes.stop_spread]
    exact whole.widen (by omega) (Nat.le_refl _)

private theorem Children.openings_ordered (children : Children) (offset : Nat) :
    Ordered offset (offset + children.print.length) (children.openings offset) := by
  match children with
  | .text _ => exact Ordered.nil _ _
  | .node text node children =>
    have inside := node.openings_ordered (offset + text.length)
    have others := children.openings_ordered (offset + text.length + node.print.length)
    have whole := inside.append others (by omega) (by omega) (by omega)
    rw [Children.stop_node]
    exact whole.widen (by omega) (Nat.le_refl _)
  | .code text code children =>
    have inside := code.openings_ordered (offset + text.length + 1)
    have others := children.openings_ordered (offset + text.length + 1 + code.print.length + 1)
    have whole := inside.append others (by omega) (by omega) (by omega)
    rw [Children.stop_code]
    exact whole.widen (by omega) (Nat.le_refl _)

end

theorem mergeSort_openings (node : Node) (offset : Nat) :
    (node.openings offset).mergeSort (fun a b => a.start ≤ b.start) = node.openings offset := by
  apply List.mergeSort_of_pairwise
  simpa using (node.openings_ordered offset).1

/-- All that matters of the code point in front is whether it ends an operand. -/
theorem walk_before {before before' : Option CodePoint}
    (same : endsOperand before = endsOperand before') (regions : List Region) (since offset : Nat)
    (text : Text) :
    walk ⟨regions, since, before, offset⟩ text = walk ⟨regions, since, before', offset⟩ text := by
  cases text with
  | nil =>
    rw [walk, walk]
    rfl
  | cons c rest =>
    have tags (text : Text) : Walker.tag ⟨regions, since, before, offset⟩ text =
        Walker.tag ⟨regions, since, before', offset⟩ text := by
      unfold Walker.tag
      split
      · rfl
      · dsimp only
        rw [same]
        rfl
    have stepped : step ⟨regions, since, before, offset⟩ c rest =
        step ⟨regions, since, before', offset⟩ c rest := by
      unfold step
      dsimp only
      split
      · rfl
      · unfold codeStep
        simp only [tags]
        rfl
      · rfl
      · rfl
      · rfl
      · rfl
      · unfold childTag
        simp only [tags]
        rfl
    rw [walk, walk, stepped]

/-- The survey of printed code that stands for a whole source. -/
theorem Code.survey_print {code : Code} {brackets : List Bracket}
    (valid : code.isValid false '\n' none = true) (closed : code.unclosed [] = some brackets) :
    Markup.survey code.print = code.survey 0 := by
  obtain ⟨behind, walked⟩ := Code.walk_print code none [] 0 0 0 [] valid closed
  obtain ⟨innermost, outer, same⟩ := within_eq brackets none []
  have ends (offset : Nat) : walk ⟨within brackets none [], 0, behind, offset⟩ [] = ⟨[], []⟩ := by
    rw [same, walk, finish]
  rw [List.append_nil, ends] at walked
  simp only [Survey.append_eq, List.append_nil] at walked
  have begins : endsOperand none = endsOperand (some (.char '\n')) := by decide
  rw [Markup.survey, walk_before begins]
  exact walked

theorem Code.elements_eq_openings {code : Code} {brackets : List Bracket}
    (valid : code.isValid false '\n' none = true) (closed : code.unclosed [] = some brackets) :
    elements code.print = code.openings 0 := by
  rw [elements, Code.survey_print valid closed]
  apply List.mergeSort_of_pairwise
  simpa [Code.survey] using (code.openings_ordered 0).1

/-- The scanner finds exactly the opening elements of a printed tree in document order, each with
its tag, its span, and its attributes with their kinds and the spans of their values. -/
theorem elements_print (root : Node) (valid : root.isValid false = true) :
    elements root.print = root.openings 0 := by
  have noOperand : endsOperand none = false := rfl
  have walked := Node.walk_print root valid (takesTag_code none [] 0 noOperand 0) []
  have behind (offset : Nat) : walk ⟨[.code none], offset, some (.char '>'), offset⟩ [] =
      ⟨[], []⟩ := by
    simp [walk, finish]
  simp only [List.append_nil, Node.survey, behind, Survey.append_eq, List.nil_append] at walked
  rw [elements, survey, walked]
  exact mergeSort_openings root 0

/-- An element with every kind of attribute, an element in a value, and every kind of child. -/
def card : Node :=
  .paired "Card"
    (.boolean " " "open" (.quoted "\n  " "title" " " " " '"' "It's \x7bhere\x7d"
      (.expression " " "icon" [] []
        (.opening .round (.node (.selfClosing "Icon" (.spread " " (.plain 'p' .nil) .nil) " ")
          (.closing .round (.blockComment " '\x7d' " .nil)))) .nil))) "\n"
    (.node "Don't stop " (.fragment (.text "now"))
      (.code " " (.plain 'x' (.plain ' ' (.plain '>' (.plain ' '
        (.quoted '"' [.plain '<', .escaped '"'] (.node (.selfClosing "b" .nil []) .nil))))))
        (.text [])))

theorem elements_print_card :
    card.isValid false = true ∧ elements card.print = card.openings 0 ∧
      (card.openings 0).map Element.tag =
        ["Card", "Icon", "b"].map Text.ofString :=
  ⟨by decide +kernel, elements_print card (by decide +kernel), by decide +kernel⟩

/-- A tag with a comment between its attributes is not found, and neither is one with an odd quotation mark in the text of
an element in a value. -/
example :
    let commented : Node := .selfClosing "a" (.quoted " /* c */ " "b" "" "" '"' "x" .nil) " "
    let torn : Node :=
      .selfClosing "A" (.expression " " "r" "" "" (.node (.paired "p" .nil "" (.text "it's")) .nil) .nil) " "
    commented.print = Text.ofString "<a /* c */ b=\"x\" />" ∧ elements commented.print = [] ∧
      commented.openings 0 = [⟨"a", 0, 19, [⟨"b", .string, 11, 16, 13, 16⟩]⟩] ∧
      torn.print = Text.ofString "<A r=\x7b<p>it's</p>\x7d />" ∧ elements torn.print = [⟨"p", 6, 9, []⟩] ∧
      torn.openings 0 = [⟨"A", 0, 21, [⟨"r", .expression, 3, 18, 6, 17⟩]⟩, ⟨"p", 6, 9, []⟩] := by
  decide +kernel

end StaticStyle.Markup.Tree
