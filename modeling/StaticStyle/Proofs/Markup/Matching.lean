import StaticStyle.Proofs.Markup.Enclosure

/-!
The search for a closing bracket passes over printed code. Code is passed over by its brackets,
quoted texts, templates and comments; elements in it are read as names, signs and quoted texts, with the
brackets around the code of their attributes and children.
-/

namespace StaticStyle.Markup.Tree

private theorem isNeutral_of (has : CodePoint → Bool)
    (lacks : (Text.ofString "\"\x27\x60/([\x7b)]\x7d").all (!has ·) = true) {c : CodePoint}
    (holds : has c = true) : isNeutral c = true := by
  cases neutral : isNeutral c with
  | true => rfl
  | false =>
    have mark : c ∈ Text.ofString "\"\x27\x60/([\x7b)]\x7d" := by
      simp only [isNeutral, CodePoint.isQuote, Bracket.ofOpening?, Bracket.ofClosing?] at neutral
      simp [Text.ofString]
      grind
    have absent := List.all_eq_true.mp lacks c mark
    simp [holds] at absent

theorem isNeutral_blank {c : CodePoint} (blank : c.isBlank = true) : isNeutral c = true :=
  isNeutral_of _ (by decide +kernel) blank

theorem isNeutral_tagNamePart {c : CodePoint} (part : isTagNamePart c = true) :
    isNeutral c = true :=
  isNeutral_of _ (by decide +kernel) part

theorem isNeutral_attributeNamePart {c : CodePoint} (part : isAttributeNamePart c = true) :
    isNeutral c = true :=
  isNeutral_of _ (by decide +kernel) part

theorem isNeutral_nameStart {c : CodePoint} (start : isNameStart c = true) : isNeutral c = true :=
  isNeutral_of _ (by decide +kernel) start

theorem isNeutral_plain {c : CodePoint} (plain : isPlain c = true) : isNeutral c = true := by
  simp only [isPlain, isNeutral, Bool.and_eq_true] at plain ⊢
  obtain ⟨⟨⟨others, -⟩, noOpening⟩, noClosing⟩ := plain
  exact ⟨⟨others, noOpening⟩, noClosing⟩

private theorem isNeutral_name {isPart : CodePoint → Bool}
    (neutral : ∀ {c}, isPart c = true → isNeutral c = true) {name : Text}
    (valid : isName isPart name = true) : ∀ c ∈ name, isNeutral c = true := by
  cases name with
  | nil => simp
  | cons c rest =>
    simp only [isName, Bool.and_eq_true, List.all_eq_true] at valid
    intro d member
    rcases List.mem_cons.mp member with rfl | member
    · exact isNeutral_nameStart valid.1
    · exact neutral (valid.2 d member)

private theorem isNeutral_blanks {space : Text} (blank : space.all CodePoint.isBlank = true) :
    ∀ c ∈ space, isNeutral c = true :=
  fun c member => isNeutral_blank (List.all_eq_true.mp blank c member)

/-- The search comes from inside `stack` in front of a text to inside `stack'` behind it. -/
def Passes (stack : List Enclosure) (text : Text) (stack' : List Enclosure) (rest : Text) :
    Prop :=
  closingDistance? stack (text ++ rest) = (closingDistance? stack' rest).map (· + text.length)

theorem Passes.nil (stack : List Enclosure) (rest : Text) : Passes stack [] stack rest := by
  simp [Passes]

theorem Passes.append {stack stack' stack'' : List Enclosure} {text text' rest : Text}
    (first : Passes stack text stack' (text' ++ rest)) (second : Passes stack' text' stack'' rest) :
    Passes stack (text ++ text') stack'' rest := by
  unfold Passes at *
  rw [List.append_assoc, first, second, map_add_map, List.length_append]

theorem neutral_passes (bracket : Bracket) (outer : List Enclosure) (rest : Text)
    {text : Text} (neutral : ∀ c ∈ text, isNeutral c = true) :
    Passes (.bracket bracket :: outer) text (.bracket bracket :: outer) rest :=
  closingDistance?_all_neutral bracket outer rest neutral

private theorem innermost (brackets : List Bracket) (bracket : Bracket) (outer : List Enclosure) :
    ∃ top below, brackets.map Enclosure.bracket ++ .bracket bracket :: outer =
      .bracket top :: below := by
  cases brackets with
  | nil => exact ⟨bracket, outer, rfl⟩
  | cons top below => exact ⟨top, _, rfl⟩

theorem opening_passes (brackets : List Bracket) (inner bracket : Bracket)
    (outer : List Enclosure) (rest : Text) :
    Passes (brackets.map .bracket ++ .bracket bracket :: outer) [inner.opening]
      ((inner :: brackets).map .bracket ++ .bracket bracket :: outer) rest := by
  obtain ⟨top, below, same⟩ := innermost brackets bracket outer
  rw [List.map_cons, List.cons_append, same]
  exact closingDistance?_opening top below rest inner

theorem closing_passes (brackets : List Bracket) (inner bracket : Bracket)
    (outer : List Enclosure) (rest : Text) :
    Passes ((inner :: brackets).map .bracket ++ .bracket bracket :: outer) [inner.closing]
      (brackets.map .bracket ++ .bracket bracket :: outer) rest := by
  obtain ⟨top, below, same⟩ := innermost brackets bracket outer
  rw [List.map_cons, List.cons_append, same]
  exact closingDistance?_closing inner below rest top

private theorem name_passes (bracket : Bracket) (outer : List Enclosure) (rest : Text)
    {isPart : CodePoint → Bool} (neutral : ∀ {c}, isPart c = true → isNeutral c = true)
    {name : Text} (valid : isName isPart name = true) :
    Passes (.bracket bracket :: outer) name (.bracket bracket :: outer) rest :=
  neutral_passes bracket outer rest (isNeutral_name neutral valid)

private theorem space_passes (bracket : Bracket) (outer : List Enclosure) (rest : Text)
    {space : Text} (blank : space.all CodePoint.isBlank = true) :
    Passes (.bracket bracket :: outer) space (.bracket bracket :: outer) rest :=
  neutral_passes bracket outer rest (isNeutral_blanks blank)

private theorem sign_passes (bracket : Bracket) (outer : List Enclosure) (rest : Text)
    {sign : String} (neutral : (Text.ofString sign).all isNeutral = true) :
    Passes (.bracket bracket :: outer) sign (.bracket bracket :: outer) rest :=
  neutral_passes bracket outer rest (List.all_eq_true.mp neutral)

private theorem braces_pass (bracket : Bracket) (outer : List Enclosure) (rest : Text)
    {content : Text}
    (inside : Passes (.bracket .curly :: .bracket bracket :: outer) content
      (.bracket .curly :: .bracket bracket :: outer) (.char '\x7d' :: rest)) :
    Passes (.bracket bracket :: outer) ("\x7b" ++ content ++ "\x7d") (.bracket bracket :: outer)
      rest :=
  Passes.append
    (Passes.append (opening_passes [] .curly bracket outer _) inside)
    (closing_passes [] .curly bracket outer rest)

private theorem text_passes (bracket : Bracket) (outer : List Enclosure) (rest : Text)
    {text : Text} (valid : isText true text = true) {d : CodePoint} (noLine : d ≠ '/')
    (noBlock : d ≠ '*') :
    Passes (.bracket bracket :: outer) text (.bracket bracket :: outer) (d :: rest) := by
  simp only [isText, Bool.not_true, Bool.false_or, Bool.and_eq_true] at valid
  exact closingDistance?_passedOver bracket outer (d :: rest) valid.2
    fun _ _ => .inr (by simp [noLine, noBlock])

theorem Node.print_eq (node : Node) : ∃ rest, node.print = .char '<' :: rest := by
  cases node <;> exact ⟨_, rfl⟩

/-- A slash that a name or the end of a tag follows. -/
private theorem closingTag_passes (bracket : Bracket) (outer : List Enclosure) (rest : Text)
    {tag : Text} (valid : tag = [] ∨ isName isTagNamePart tag = true) :
    Passes (.bracket bracket :: outer) ("</" ++ tag ++ ">") (.bracket bracket :: outer) rest := by
  have neutral : ∀ c ∈ tag, isNeutral c = true := by
    rcases valid with rfl | valid
    · simp
    · exact isNeutral_name isNeutral_tagNamePart valid
  have behind : Passes (.bracket bracket :: outer) (tag ++ ">") (.bracket bracket :: outer) rest :=
    Passes.append (neutral_passes bracket outer _ neutral)
      (sign_passes bracket outer rest (by decide))
  obtain ⟨d, text, same, noLine, noBlock⟩ :
      ∃ d text, tag ++ Text.ofString ">" = d :: text ∧ d ≠ .char '/' ∧ d ≠ .char '*' := by
    cases tag with
    | nil => exact ⟨_, _, rfl, by decide, by decide⟩
    | cons c tag =>
      have start : isNameStart c = true := by
        simp only [List.cons_ne_nil, isName, Bool.and_eq_true, false_or] at valid
        exact valid.1
      refine ⟨c, _, rfl, ?_, ?_⟩ <;>
      · rintro rfl
        revert start
        decide
  have slash : Passes (.bracket bracket :: outer) (Text.ofString "/") (.bracket bracket :: outer)
      (tag ++ ">" ++ rest) := by
    rw [same]
    exact closingDistance?_slash bracket outer (text ++ rest) noLine noBlock
  have sign : Passes (.bracket bracket :: outer) (Text.ofString "<") (.bracket bracket :: outer)
      (Text.ofString "/" ++ (tag ++ ">") ++ rest) := sign_passes bracket outer _ (by decide)
  have whole := sign.append (slash.append behind)
  simpa [Text.ofString] using whole

private theorem label_passes (bracket : Bracket) (outer : List Enclosure) (rest : Text)
    {gap name before behind : Text} (gapBlank : gap.all CodePoint.isBlank = true)
    (named : isName isAttributeNamePart name = true)
    (beforeBlank : before.all CodePoint.isBlank = true)
    (behindBlank : behind.all CodePoint.isBlank = true) :
    Passes (.bracket bracket :: outer) (gap ++ name ++ before ++ "=" ++ behind)
      (.bracket bracket :: outer) rest :=
  Passes.append (Passes.append (Passes.append (Passes.append
    (space_passes bracket outer _ gapBlank)
    (name_passes bracket outer _ isNeutral_attributeNamePart named))
    (space_passes bracket outer _ beforeBlank))
    (sign_passes bracket outer _ (by decide)))
    (space_passes bracket outer rest behindBlank)

mutual

private theorem Code.passes (code : Code) {before : CodePoint} {brackets brackets' : List Bracket}
    (bracket : Bracket) (outer : List Enclosure) (rest : Text) (valid : code.isValid true before rest.head? = true)
    (closed : code.unclosed brackets = some brackets') :
    Passes (brackets.map .bracket ++ .bracket bracket :: outer) code.print
      (brackets'.map .bracket ++ .bracket bracket :: outer) rest := by
  obtain ⟨top, below, same⟩ := innermost brackets bracket outer
  match code with
  | .nil =>
    simp only [Code.unclosed, Option.some.injEq] at closed
    simp only [Code.print, closed]
    exact Passes.nil _ rest
  | .plain c code =>
    simp only [Code.isValid, Bool.and_eq_true] at valid
    have behind := Code.passes code bracket outer rest valid.2 (by simpa [Code.unclosed] using closed)
    rw [same] at behind ⊢
    have sign : Passes (.bracket top :: below) [c] (.bracket top :: below) (code.print ++ rest) :=
      neutral_passes top below _ (by simpa using isNeutral_plain valid.1)
    exact Passes.append sign behind
  | .operator sign code =>
    simp only [Code.isValid, Bool.and_eq_true] at valid
    have behind := Code.passes code bracket outer rest valid.2 (by simpa [Code.unclosed] using closed)
    rw [same] at behind ⊢
    rw [← List.head?_append] at valid
    have stands : Passes (.bracket top :: below) [sign] (.bracket top :: below) (code.print ++ rest) :=
      closingDistance?_operator top below _ valid.1
    exact Passes.append stands behind
  | .quoted mark body code =>
    simp only [Code.isValid, Bool.and_eq_true] at valid
    have behind := Code.passes code bracket outer rest valid.2 (by simpa [Code.unclosed] using closed)
    rw [same] at behind ⊢
    exact Passes.append (closingDistance?_quotation top below _ valid.1.1 valid.1.2) behind
  | .template content code =>
    simp only [Code.isValid, Bool.and_eq_true] at valid
    have behind := Code.passes code bracket outer rest valid.2 (by simpa [Code.unclosed] using closed)
    rw [same] at behind ⊢
    have begins : Passes (.bracket top :: below) (Text.ofString "\x60") (.template :: .bracket top :: below)
        (content.print ++ Text.ofString "\x60" ++ (code.print ++ rest)) := closingDistance?_enterTemplate ..
    have whole := (begins.append (Template.passes content valid.1 top below (code.print ++ rest))).append behind
    simpa [Code.print] using whole
  | .lineComment body code =>
    simp only [Code.isValid, Bool.and_eq_true, Bool.not_eq_true'] at valid
    have behind := Code.passes code bracket outer rest valid.2 (by simpa [Code.unclosed] using closed)
    rw [same] at behind ⊢
    refine Passes.append ?_ behind
    have passed := closingDistance?_lineComment top below (code.print ++ rest) valid.1
    simpa [Passes, Text.ofString] using passed
  | .blockComment body code =>
    simp only [Code.isValid, Bool.and_eq_true, Bool.not_eq_true'] at valid
    have behind := Code.passes code bracket outer rest valid.2 (by simpa [Code.unclosed] using closed)
    rw [same] at behind ⊢
    refine Passes.append ?_ behind
    have passed := closingDistance?_blockComment top below (code.print ++ rest) valid.1
    simpa [Passes, Text.ofString] using passed
  | .opening inner code =>
    exact Passes.append (opening_passes brackets inner bracket outer _)
      (Code.passes code bracket outer rest valid closed)
  | .closing inner code =>
    cases brackets with
    | nil => simp [Code.unclosed] at closed
    | cons innermost brackets =>
      by_cases fits : innermost = inner
      · subst fits
        exact Passes.append (closing_passes brackets innermost bracket outer _)
          (Code.passes code bracket outer rest valid (by simpa [Code.unclosed] using closed))
      · simp [Code.unclosed, fits] at closed
  | .node node code =>
    simp only [Code.isValid, Bool.and_eq_true] at valid
    have behind := Code.passes code bracket outer rest valid.2 (by simpa [Code.unclosed] using closed)
    rw [same] at behind ⊢
    exact Passes.append (Node.passes node valid.1.2 top below _) behind

private theorem Template.passes (template : Template) (valid : template.isValid true = true) (bracket : Bracket)
    (outer : List Enclosure) (rest : Text) :
    Passes (.template :: .bracket bracket :: outer) (template.print ++ "\x60") (.bracket bracket :: outer) rest := by
  have ends : Passes (.template :: .bracket bracket :: outer) (Text.ofString "\x60") (.bracket bracket :: outer)
      rest := closingDistance?_leaveTemplate ..
  have text {body : List Stroke} (valid : isTemplateText body = true) {d : CodePoint} (noBrace : d ≠ '\x7b')
      (rest : Text) : Passes (.template :: .bracket bracket :: outer) (body.flatMap Stroke.print)
        (.template :: .bracket bracket :: outer) (d :: rest) :=
    closingDistance?_templateText bracket outer _ valid (by simpa using noBrace)
  match template with
  | .text body => exact (text valid (by decide) rest).append ends
  | .code body code template =>
    simp only [Template.isValid, Code.isBalanced, beq_iff_eq, Bool.and_eq_true] at valid
    obtain ⟨⟨⟨textValid, codeValid⟩, balanced⟩, others⟩ := valid
    let behind := template.print ++ Text.ofString "\x60" ++ rest
    have further := Template.passes template others bracket outer rest
    have begins : Passes (.template :: .bracket bracket :: outer) (Text.ofString "$\x7b")
        (.bracket .curly :: .template :: .bracket bracket :: outer) (code.print ++ (Text.ofString "\x7d" ++ behind)) :=
      closingDistance?_enterCode ..
    have inside := Code.passes code .curly (.template :: .bracket bracket :: outer) (.char '\x7d' :: behind) codeValid
      balanced
    have closes : Passes (.bracket .curly :: .template :: .bracket bracket :: outer) (Text.ofString "\x7d")
        (.template :: .bracket bracket :: outer) behind := closingDistance?_leaveCode ..
    have whole := (text textValid (by decide) _).append (((begins.append inside).append closes).append further)
    simpa [Template.print] using whole

private theorem Node.passes (node : Node) (valid : node.isValid true = true) (bracket : Bracket)
    (outer : List Enclosure) (rest : Text) :
    Passes (.bracket bracket :: outer) node.print (.bracket bracket :: outer) rest := by
  match node with
  | .selfClosing tag attributes space =>
    simp only [Node.isValid, Bool.and_eq_true] at valid
    refine Passes.append (Passes.append (Passes.append (Passes.append
      (sign_passes bracket outer _ (by decide))
      (name_passes bracket outer _ isNeutral_tagNamePart valid.1.1))
      (Attributes.passes attributes valid.1.2 bracket outer _))
      (space_passes bracket outer _ valid.2)) ?_
    have slash : Passes (.bracket bracket :: outer) (Text.ofString "/") (.bracket bracket :: outer)
        (Text.ofString ">" ++ rest) :=
      closingDistance?_slash bracket outer rest (by decide) (by decide)
    exact Passes.append slash (sign_passes bracket outer _ (by decide))
  | .paired tag attributes space children =>
    simp only [Node.isValid, Bool.and_eq_true] at valid
    have closingTag := closingTag_passes bracket outer rest (.inr valid.1.1.1)
    rw [Node.print, List.append_assoc _ tag, List.append_assoc _ (Text.ofString "</"),
      ← List.append_assoc (Text.ofString "</")]
    exact Passes.append (Passes.append (Passes.append (Passes.append (Passes.append (Passes.append
      (sign_passes bracket outer _ (by decide))
      (name_passes bracket outer _ isNeutral_tagNamePart valid.1.1.1))
      (Attributes.passes attributes valid.1.1.2 bracket outer _))
      (space_passes bracket outer _ valid.1.2))
      (sign_passes bracket outer _ (by decide)))
      (Children.passes children valid.2 bracket outer _)) closingTag
  | .fragment children =>
    have closingTag := closingTag_passes bracket outer rest (.inl rfl)
    exact Passes.append (Passes.append (sign_passes bracket outer _ (by decide))
      (Children.passes children valid bracket outer _)) closingTag

private theorem Attributes.passes (attributes : Attributes)
    (valid : attributes.isValid true = true) (bracket : Bracket) (outer : List Enclosure)
    (rest : Text) :
    Passes (.bracket bracket :: outer) attributes.print (.bracket bracket :: outer) rest := by
  match attributes with
  | .nil => exact Passes.nil _ rest
  | .boolean gap name attributes =>
    simp only [Attributes.isValid, isGap, Bool.and_eq_true] at valid
    obtain ⟨⟨⟨-, gapBlank⟩, named⟩, others⟩ := valid
    exact Passes.append (Passes.append (space_passes bracket outer _ gapBlank)
      (name_passes bracket outer _ isNeutral_attributeNamePart named))
      (Attributes.passes attributes others bracket outer rest)
  | .quoted gap name before behind mark value attributes =>
    simp only [Attributes.isValid, isGap, isQuotable, Bool.and_eq_true, Bool.not_true,
      Bool.false_or] at valid
    obtain ⟨⟨⟨⟨⟨⟨-, gapBlank⟩, named⟩, beforeBlank⟩, behindBlank⟩, ⟨isMark, -⟩, passed⟩, others⟩ :=
      valid
    have quotation : Passes (.bracket bracket :: outer) (mark :: value ++ [mark])
        (.bracket bracket :: outer) (attributes.print ++ rest) :=
      closingDistance?_passedOver bracket outer _ passed fun c last => .inl (by
        simp only [List.getLast?_append, List.getLast?_singleton, Option.some_or,
          Option.some.injEq] at last
        exact last ▸ isMark)
    have label := label_passes bracket outer (mark :: value ++ [mark] ++ attributes.print ++ rest)
      gapBlank named beforeBlank behindBlank
    have behind := Attributes.passes attributes others bracket outer rest
    have whole := Passes.append label (quotation.append behind)
    simpa [Attributes.print] using whole
  | .expression gap name before behind code attributes =>
    simp only [Attributes.isValid, isGap, Code.isBalanced, beq_iff_eq, Bool.and_eq_true] at valid
    obtain ⟨⟨⟨label, codeValid⟩, balanced⟩, others⟩ := valid
    obtain ⟨⟨⟨⟨-, gapBlank⟩, named⟩, beforeBlank⟩, behindBlank⟩ := label
    have braces := braces_pass bracket outer (attributes.print ++ rest)
      (Code.passes code .curly (.bracket bracket :: outer) _ codeValid balanced)
    have behind := braces.append (Attributes.passes attributes others bracket outer rest)
    have label := label_passes bracket outer
      ("\x7b" ++ code.print ++ "\x7d" ++ attributes.print ++ rest) gapBlank named beforeBlank
      behindBlank
    have whole := label.append behind
    simpa [Attributes.print] using whole
  | .spread gap code attributes =>
    simp only [Attributes.isValid, isGap, Code.isBalanced, beq_iff_eq, Bool.and_eq_true] at valid
    obtain ⟨⟨⟨⟨-, gapBlank⟩, codeValid⟩, balanced⟩, others⟩ := valid
    have dotted : Passes (.bracket .curly :: .bracket bracket :: outer) ("..." ++ code.print)
        (.bracket .curly :: .bracket bracket :: outer) (.char '\x7d' :: (attributes.print ++ rest)) :=
      Passes.append (sign_passes .curly (.bracket bracket :: outer) _ (by decide))
        (Code.passes code .curly (.bracket bracket :: outer) _ codeValid balanced)
    have braces := braces_pass bracket outer (attributes.print ++ rest) dotted
    have whole := Passes.append (space_passes bracket outer _ gapBlank)
      (Passes.append braces (Attributes.passes attributes others bracket outer rest))
    simpa [Attributes.print, Text.ofString] using whole

private theorem Children.passes (children : Children) (valid : children.isValid true = true)
    (bracket : Bracket) (outer : List Enclosure) (rest : Text) :
    Passes (.bracket bracket :: outer) children.print (.bracket bracket :: outer)
      (.char '<' :: rest) := by
  match children with
  | .text text => exact text_passes bracket outer rest valid (by decide) (by decide)
  | .node text node children =>
    simp only [Children.isValid, Bool.and_eq_true] at valid
    obtain ⟨⟨textValid, nodeValid⟩, others⟩ := valid
    have behind := Passes.append (Node.passes node nodeValid bracket outer _)
      (Children.passes children others bracket outer rest)
    rw [Children.print, List.append_assoc]
    refine Passes.append ?_ behind
    obtain ⟨inside, same⟩ := Node.print_eq node
    rw [same]
    exact text_passes bracket outer _ textValid (by decide) (by decide)
  | .code text code children =>
    simp only [Children.isValid, Code.isBalanced, beq_iff_eq, Bool.and_eq_true] at valid
    obtain ⟨⟨⟨textValid, codeValid⟩, balanced⟩, others⟩ := valid
    have braces := braces_pass bracket outer (children.print ++ .char '<' :: rest)
      (Code.passes code .curly (.bracket bracket :: outer) _ codeValid balanced)
    have behind := Passes.append braces (Children.passes children others bracket outer rest)
    simp only [Children.print, List.append_assoc] at behind ⊢
    exact Passes.append (text_passes bracket outer _ textValid (by decide) (by decide)) behind

end

theorem Code.closingDistance?_print (code : Code) {before : CodePoint} (bracket : Bracket) (outer : List Enclosure)
    (rest : Text) (valid : code.isValid true before rest.head? = true) (balanced : code.unclosed [] = some []) :
    closingDistance? (.bracket bracket :: outer) (code.print ++ rest) =
      (closingDistance? (.bracket bracket :: outer) rest).map (· + code.print.length) :=
  Code.passes code bracket outer rest valid balanced

/-- Balanced code in an attribute ends where its closing brace is found. -/
theorem Code.contentLength?_print (code : Code) {before : CodePoint}
    (valid : code.isValid true before (some (.char '\x7d')) = true) (balanced : code.isBalanced = true) (rest : Text) :
    Bracket.curly.contentLength? (code.print ++ .char '\x7d' :: rest) =
      some code.print.length := by
  simp only [Code.isBalanced, beq_iff_eq] at balanced
  have passed := Code.passes code .curly [] (.char '\x7d' :: rest) valid balanced
  have found := closingDistance?_last .curly rest .curly
  simp only [Passes, List.map_nil, List.nil_append] at passed
  rw [Bracket.contentLength?, passed]
  simpa [Bracket.closing] using found

end StaticStyle.Markup.Tree
