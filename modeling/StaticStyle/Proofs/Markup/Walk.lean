import StaticStyle.Proofs.Markup.Tag

namespace StaticStyle.Markup

/-- One survey behind another. -/
def Survey.append (first second : Survey) : Survey :=
  ⟨first.elements ++ second.elements, first.opaqueExtents ++ second.opaqueExtents⟩

instance : Append Survey := ⟨Survey.append⟩

theorem Survey.append_eq (first second : Survey) :
    first ++ second =
      ⟨first.elements ++ second.elements, first.opaqueExtents ++ second.opaqueExtents⟩ := rfl

theorem Survey.append_assoc (first second third : Survey) :
    first ++ second ++ third = first ++ (second ++ third) := by
  simp [Survey.append_eq]

theorem Survey.empty_append (survey : Survey) : (⟨[], []⟩ : Survey) ++ survey = survey := by
  simp [Survey.append_eq]

namespace Walker

/-- A step without an element. -/
theorem walk_step {walker : Walker} {text : Text} {regions : List Region} {since length : Nat}
    {marks : List Extent} {c : CodePoint}
    (stepped : walker.step c text = some ⟨regions, since, length + 1, marks, none⟩) :
    walk walker (c :: text) =
      (⟨[], marks⟩ : Survey) ++
        walk ⟨regions, since, ((c :: text).take (length + 1)).getLast?,
          walker.offset + (length + 1)⟩ ((c :: text).drop (length + 1)) := by
  rw [walk, stepped]
  simp [Survey.append_eq]

theorem walk_step_one {walker : Walker} {text : Text} {regions : List Region} {since : Nat}
    {c : CodePoint} (stepped : walker.step c text = some ⟨regions, since, 1, [], none⟩) :
    walk walker (c :: text) = walk ⟨regions, since, some c, walker.offset + 1⟩ text := by
  rw [walk_step stepped]
  simp [Survey.empty_append]

/-- In code, a step is either one over a code point, or independent of where opaque text began. -/
private theorem codeStep_since (a b offset : Nat) (closing : Option Bracket) (outer : List Region)
    (before : Option CodePoint) (c : CodePoint) (rest : Text) :
    codeStep ⟨.code closing :: outer, a, before, offset⟩ closing outer c rest =
        codeStep ⟨.code closing :: outer, b, before, offset⟩ closing outer c rest ∨
      ∀ since, codeStep ⟨.code closing :: outer, since, before, offset⟩ closing outer c rest =
        ⟨.code closing :: outer, since, 1, [], none⟩ := by
  unfold codeStep
  split
  · exact .inl rfl
  · split
    · exact .inl rfl
    · split
      · exact .inl rfl
      · split
        · exact .inl rfl
        · split
          · exact .inl rfl
          · split
            · exact .inl rfl
            · split
              · left
                unfold tag
                split
                · rfl
                · simp [pass]
              · exact .inr fun _ => rfl

theorem walk_code_since (a b : Nat) (closing : Option Bracket) (outer : List Region)
    (before : Option CodePoint) (offset : Nat) (text : Text) :
    walk ⟨.code closing :: outer, a, before, offset⟩ text =
      walk ⟨.code closing :: outer, b, before, offset⟩ text := by
  induction text generalizing before offset with
  | nil => simp [walk, finish]
  | cons c rest ih =>
    rcases codeStep_since a b offset closing outer before c rest with same | passes
    · rw [walk, walk]
      simp only [step, same]
    · have stepped (since : Nat) : step ⟨.code closing :: outer, since, before, offset⟩ c rest =
          some ⟨.code closing :: outer, since, 1, [], none⟩ := by
        simp only [step, passes since]
      rw [walk_step_one (stepped a), walk_step_one (stepped b)]
      exact ih (some c) (offset + 1)

open StaticStyle.Markup.Tree

section Code

variable (closing : Option Bracket) (outer : List Region) (since : Nat) (before : Option CodePoint)
  (offset : Nat) (rest : Text)

theorem isNone_closing {c : CodePoint} (noClosing : Bracket.ofClosing? c = none) :
    (closing.any fun bracket => bracket.closing == c) = false := by
  cases closing with
  | none => rfl
  | some bracket =>
    have other : bracket.closing ≠ c := by
      rintro rfl
      cases bracket <;> simp [Bracket.closing, Bracket.ofClosing?] at noClosing
    simp [other]

theorem walk_plain {c : CodePoint} (plain : isPlain c = true) :
    walk ⟨.code closing :: outer, since, before, offset⟩ (c :: rest) =
      walk ⟨.code closing :: outer, since, some c, offset + 1⟩ rest := by
  simp only [isPlain, Bool.and_eq_true, Bool.not_eq_true', bne_iff_ne, ne_eq,
    Option.isNone_iff_eq_none] at plain
  obtain ⟨⟨⟨⟨⟨noQuote, noTick⟩, noSlash⟩, noTag⟩, noOpening⟩, noClosing⟩ := plain
  apply walk_step_one
  simp [step, codeStep, isNone_closing closing noClosing, noQuote, noTick, noSlash, noTag,
    noOpening, pass]

theorem walk_operator {before sign : CodePoint} (stands : isOperator before rest.head? sign = true) :
    walk ⟨.code closing :: outer, since, some before, offset⟩ (sign :: rest) =
      walk ⟨.code closing :: outer, since, some sign, offset + 1⟩ rest := by
  unfold isOperator at stands
  split at stands
  · rename_i slash
    subst slash
    simp only [Bool.and_eq_true, bne_iff_ne] at stands
    have noClosing := isNone_closing closing (show Bracket.ofClosing? '/' = none by decide)
    have noOpening : Bracket.ofOpening? '/' = none := by decide
    have noQuote : CodePoint.isQuote '/' = false := by decide
    apply walk_step_one
    simp [step, codeStep, noClosing, noQuote, noOpening, stands, pass]
  · simp only [Bool.and_eq_true, beq_iff_eq, bne_iff_ne, ne_eq, Bool.or_eq_true, Bool.not_eq_true'] at stands
    obtain ⟨⟨rfl, noFragment⟩, noTag⟩ := stands
    have noClosing := isNone_closing closing (show Bracket.ofClosing? '<' = none by decide)
    have noOpening : Bracket.ofOpening? '<' = none := by decide
    have noQuote : CodePoint.isQuote '<' = false := by decide
    have passes : Walker.tag ⟨.code closing :: outer, since, some before, offset⟩ rest =
        ⟨.code closing :: outer, offset + 1, 1, [], none⟩ := by
      unfold Walker.tag
      split
      · simp at noFragment
      · rcases noTag with operand | noName
        · simp [operand, Region.isCode, pass]
        · have noTag : readElement? offset rest = none := by
            cases rest with
            | nil => rfl
            | cons c rest =>
              have empty : leadingName isTagNamePart (c :: rest) = [] := by
                simpa [leadingName] using noName
              simp [readElement?, empty]
          simp [noTag, pass]
    have stepped : step ⟨.code closing :: outer, since, before, offset⟩ '<' rest =
        some ⟨.code closing :: outer, offset + 1, 1, [], none⟩ := by
      simp [step, codeStep, noClosing, noOpening, noQuote, passes]
    rw [walk_step_one stepped]
    exact walk_code_since _ _ _ _ _ _ _

theorem walk_opening (bracket : Bracket) :
    walk ⟨.code closing :: outer, since, before, offset⟩ (bracket.opening :: rest) =
      walk ⟨.code (some bracket) :: .code closing :: outer, offset + 1, some bracket.opening,
        offset + 1⟩ rest := by
  have noClosing : Bracket.ofClosing? bracket.opening = none := by cases bracket <;> decide
  have opens : Bracket.ofOpening? bracket.opening = some bracket := by cases bracket <;> decide
  have others : bracket.opening.isQuote = false ∧ bracket.opening ≠ '\x60' ∧
      bracket.opening ≠ '/' := by
    cases bracket <;> decide
  apply walk_step_one
  simp [step, codeStep, isNone_closing closing noClosing, others, opens, enter]

theorem walk_closing (bracket : Bracket) :
    walk ⟨.code (some bracket) :: outer, since, before, offset⟩ (bracket.closing :: rest) =
      walk ⟨outer, offset + 1, some bracket.closing, offset + 1⟩ rest := by
  apply walk_step_one
  simp [step, codeStep]

private theorem walk_strokes {mark : CodePoint} (isMark : mark.isQuote = true) {body : List Stroke}
    (valid : body.all (Stroke.isValid mark) = true) :
    walk ⟨.quoted mark :: outer, since, before, offset⟩
        (body.flatMap Stroke.print ++ mark :: rest) =
      (⟨[], extent since (offset + (body.flatMap Stroke.print).length + 1)⟩ : Survey) ++
        walk ⟨outer, offset + (body.flatMap Stroke.print).length + 1, some mark,
          offset + (body.flatMap Stroke.print).length + 1⟩ rest := by
  induction body generalizing before offset with
  | nil =>
    have noEscape : mark ≠ '\\' := by
      rintro rfl
      revert isMark
      decide
    have stepped : step ⟨.quoted mark :: outer, since, before, offset⟩ mark rest =
        some ⟨outer, offset + 1, 0 + 1, extent since (offset + 1), none⟩ := by
      simp [step, noEscape, leave]
    simp only [List.flatMap_nil, List.nil_append, walk_step stepped]
    simp
  | cons stroke body ih =>
    simp only [List.all_cons, Bool.and_eq_true] at valid
    cases stroke with
    | plain c =>
      have plain := valid.1
      simp only [Stroke.isValid, Bool.and_eq_true, bne_iff_ne, ne_eq, Bool.not_eq_true'] at plain
      obtain ⟨⟨noMark, noEscape⟩, noLine⟩ := plain
      have stepped (text : Text) : step ⟨.quoted mark :: outer, since, before, offset⟩ c text =
          some ⟨.quoted mark :: outer, since, 1, [], none⟩ := by
        simp [step, noMark, noEscape, noLine, pass]
      simp only [List.flatMap_cons, Stroke.print, List.cons_append, List.nil_append]
      rw [walk_step_one (stepped _), ih _ _ valid.2]
      simp [Nat.add_assoc, Nat.add_comm 1]
    | escaped c =>
      have stepped (text : Text) : step ⟨.quoted mark :: outer, since, before, offset⟩ '\\'
          (c :: text) = some ⟨.quoted mark :: outer, since, 1 + 1, [], none⟩ := by
        simp [step, passEscape, pass]
      simp only [List.flatMap_cons, Stroke.print, List.cons_append, List.nil_append]
      rw [walk_step (stepped _), Survey.empty_append]
      simp only [List.drop_succ_cons, List.drop_zero]
      have length : offset + (1 + 1) + (body.flatMap Stroke.print).length + 1 =
          offset + (.char '\\' :: c :: body.flatMap Stroke.print).length + 1 := by
        simp only [List.length_cons]
        omega
      rw [ih _ _ valid.2, length]

theorem walk_quotation {mark : CodePoint} (isMark : mark.isQuote = true) {body : List Stroke}
    (valid : body.all (Stroke.isValid mark) = true) :
    walk ⟨.code closing :: outer, since, before, offset⟩ (quotation mark body ++ rest) =
      (⟨[], [⟨offset, offset + (quotation mark body).length⟩]⟩ : Survey) ++
        walk ⟨.code closing :: outer, since, some mark, offset + (quotation mark body).length⟩
          rest := by
  have noClosing : Bracket.ofClosing? mark = none := by
    simp only [CodePoint.isQuote, Bool.or_eq_true, beq_iff_eq] at isMark
    rcases isMark with rfl | rfl <;> decide
  have stepped (text : Text) : step ⟨.code closing :: outer, since, before, offset⟩ mark text =
      some ⟨.quoted mark :: .code closing :: outer, offset, 1, [], none⟩ := by
    simp [step, codeStep, isNone_closing closing noClosing, isMark, enterHere]
  have length : offset + 1 + (body.flatMap Stroke.print).length + 1 =
      offset + (quotation mark body).length := by
    simp only [quotation, List.length_append, List.length_cons, List.length_nil]
    omega
  have inside : offset < offset + (quotation mark body).length := by omega
  simp only [quotation, List.cons_append, List.append_assoc, List.nil_append]
  rw [walk_step_one (stepped _), walk_strokes _ _ _ _ _ isMark valid, length,
    walk_code_since _ since, extent, if_pos inside]
  rfl

theorem walk_enterTemplate :
    walk ⟨.code closing :: outer, since, before, offset⟩ (.char '\x60' :: rest) =
      walk ⟨.template :: .code closing :: outer, offset, some (.char '\x60'), offset + 1⟩ rest := by
  have noClosing := isNone_closing closing (show Bracket.ofClosing? '\x60' = none by decide)
  have noQuote : CodePoint.isQuote '\x60' = false := by decide
  apply walk_step_one
  simp [step, codeStep, noClosing, noQuote, enterHere]

theorem walk_leaveTemplate :
    walk ⟨.template :: outer, since, before, offset⟩ (.char '\x60' :: rest) =
      (⟨[], extent since (offset + 1)⟩ : Survey) ++
        walk ⟨outer, offset + 1, some (.char '\x60'), offset + 1⟩ rest := by
  have stepped : step ⟨.template :: outer, since, before, offset⟩ '\x60' rest =
      some ⟨outer, offset + 1, 0 + 1, extent since (offset + 1), none⟩ := by
    simp [step, leave]
  rw [walk_step stepped]
  simp

/-- Code begins in a template, and the text in front of it is opaque. -/
theorem walk_enterCode :
    walk ⟨.template :: outer, since, before, offset⟩ (.char '$' :: .char '\x7b' :: rest) =
      (⟨[], extent since offset⟩ : Survey) ++
        walk ⟨.code (some .curly) :: .template :: outer, offset + 2, some (.char '\x7b'), offset + 2⟩ rest := by
  have stepped : step ⟨.template :: outer, since, before, offset⟩ '$' (.char '\x7b' :: rest) =
      some ⟨.code (some .curly) :: .template :: outer, offset + 2, 1 + 1, extent since offset, none⟩ := by
    simp [step, enter, closeText]
  rw [walk_step stepped]
  simp

/-- The walk passes over the text of a template. -/
theorem walk_templateText {body : List Stroke} (valid : isTemplateText body = true)
    (noBrace : rest.head? ≠ some (.char '\x7b')) :
    ∃ before', walk ⟨.template :: outer, since, before, offset⟩ (body.flatMap Stroke.print ++ rest) =
      walk ⟨.template :: outer, since, before', offset + (body.flatMap Stroke.print).length⟩ rest := by
  induction body generalizing before offset with
  | nil => exact ⟨before, rfl⟩
  | cons stroke body ih =>
    cases stroke with
    | plain c =>
      simp only [isTemplateText, Bool.and_eq_true, bne_iff_ne, ne_eq, Bool.not_eq_true'] at valid
      obtain ⟨⟨⟨noEnd, noEscape⟩, noCode⟩, others⟩ := valid
      have noPair := not_code_of_text noCode noBrace
      have stepped : step ⟨.template :: outer, since, before, offset⟩ c (body.flatMap Stroke.print ++ rest) =
          some ⟨.template :: outer, since, 1, [], none⟩ := by
        simp only [step, if_neg noEnd, if_neg noEscape, if_neg noPair, pass]
      obtain ⟨before', same⟩ := ih (some c) (offset + 1) others
      refine ⟨before', ?_⟩
      simp only [List.flatMap_cons, Stroke.print, List.cons_append, List.nil_append]
      rw [walk_step_one stepped, same, List.length_cons, Nat.add_assoc, Nat.add_comm 1]
    | escaped c =>
      have stepped (text : Text) : step ⟨.template :: outer, since, before, offset⟩ '\\'
          (c :: text) = some ⟨.template :: outer, since, 1 + 1, [], none⟩ := by
        simp [step, passEscape, pass]
      obtain ⟨before', same⟩ := ih (some c) (offset + 2) valid
      refine ⟨before', ?_⟩
      simp only [List.flatMap_cons, Stroke.print, List.cons_append, List.nil_append]
      rw [walk_step (stepped _), Survey.empty_append]
      simp only [List.drop_succ_cons, List.drop_zero, List.take_succ_cons, List.take_zero, List.getLast?_cons_cons,
        List.getLast?_singleton]
      rw [same, List.length_cons, List.length_cons, Nat.add_assoc, Nat.add_comm 2]

theorem walk_lineComment {body : Text} (noLine : body.any CodePoint.isLineFeed = false) :
    walk ⟨.code closing :: outer, since, before, offset⟩ ("//" ++ body ++ "\n" ++ rest) =
      (⟨[], [⟨offset, offset + body.length + 3⟩]⟩ : Survey) ++
        walk ⟨.code closing :: outer, since, some (.char '\n'), offset + body.length + 3⟩ rest := by
  have inside (text : Text) (noLine : text.any CodePoint.isLineFeed = false)
      (before : Option CodePoint) (start : Nat) :
      walk ⟨.lineComment :: .code closing :: outer, offset, before, start⟩
          (text ++ .char '\n' :: rest) =
        (⟨[], extent offset (start + text.length + 1)⟩ : Survey) ++
          walk ⟨.code closing :: outer, start + text.length + 1, some (.char '\n'),
            start + text.length + 1⟩ rest := by
    induction text generalizing before start with
    | nil =>
      have stepped : step ⟨.lineComment :: .code closing :: outer, offset, before, start⟩ '\n'
          rest = some ⟨.code closing :: outer, start + 1, 0 + 1, extent offset (start + 1), none⟩ := by
        simp [step, leave, CodePoint.isLineFeed]
      rw [List.nil_append, walk_step stepped]
      simp
    | cons c text ih =>
      simp only [List.any_cons, Bool.or_eq_false_iff] at noLine
      have stepped (text : Text) :
          step ⟨.lineComment :: .code closing :: outer, offset, before, start⟩ c text =
            some ⟨.lineComment :: .code closing :: outer, offset, 1, [], none⟩ := by
        simp [step, noLine.1, pass]
      rw [List.cons_append, walk_step_one (stepped _), ih noLine.2, List.length_cons]
      simp only [Nat.add_assoc, Nat.add_comm 1]
  have stepped (text : Text) : step ⟨.code closing :: outer, since, before, offset⟩ '/'
      (.char '/' :: text) =
        some ⟨.lineComment :: .code closing :: outer, offset, 1 + 1, [], none⟩ := by
    have noClosing := isNone_closing closing (show Bracket.ofClosing? '/' = none by decide)
    have noQuote : CodePoint.isQuote '/' = false := by decide
    simp [step, codeStep, noClosing, noQuote, enterHere]
  have parts : ("//" ++ body ++ "\n" ++ rest : Text) =
      .char '/' :: .char '/' :: (body ++ .char '\n' :: rest) := by
    simp [Text.ofString]
  have length : offset + (1 + 1) + body.length + 1 = offset + body.length + 3 := by omega
  have nonempty : offset < offset + body.length + 3 := by omega
  rw [parts, walk_step (stepped _), Survey.empty_append]
  simp only [List.drop_succ_cons, List.drop_zero]
  rw [inside body noLine, length, walk_code_since _ since, extent, if_pos nonempty]

theorem walk_blockComment {body : Text} (noEnd : Text.occursIn "*/" body = false) :
    walk ⟨.code closing :: outer, since, before, offset⟩ ("/*" ++ body ++ "*/" ++ rest) =
      (⟨[], [⟨offset, offset + body.length + 4⟩]⟩ : Survey) ++
        walk ⟨.code closing :: outer, since, some (.char '/'), offset + body.length + 4⟩ rest := by
  have inside (text : Text) (noEnd : Text.occursIn "*/" text = false)
      (before : Option CodePoint) (start : Nat) :
      walk ⟨.blockComment :: .code closing :: outer, offset, before, start⟩
          (text ++ .char '*' :: .char '/' :: rest) =
        (⟨[], extent offset (start + text.length + 2)⟩ : Survey) ++
          walk ⟨.code closing :: outer, start + text.length + 2, some (.char '/'),
            start + text.length + 2⟩ rest := by
    induction text generalizing before start with
    | nil =>
      have stepped : step ⟨.blockComment :: .code closing :: outer, offset, before, start⟩ '*'
          (.char '/' :: rest) =
            some ⟨.code closing :: outer, start + 2, 1 + 1, extent offset (start + 2), none⟩ := by
        simp [step, leave]
      rw [List.nil_append, walk_step stepped]
      simp
    | cons c text ih =>
      simp only [Text.occursIn, Bool.or_eq_false_iff] at noEnd
      have noPair : ¬(c = '*' ∧ (text ++ .char '*' :: .char '/' :: rest).head? =
          some (.char '/')) := by
        rintro ⟨same, head⟩
        cases text with
        | nil => simp at head
        | cons d text =>
          have pair := noEnd.1
          simp only [List.cons_append, List.head?_cons, Option.some.injEq] at head
          simp [same, head, Text.ofString] at pair
      have stepped : step ⟨.blockComment :: .code closing :: outer, offset, before, start⟩ c
          (text ++ .char '*' :: .char '/' :: rest) =
            some ⟨.blockComment :: .code closing :: outer, offset, 1, [], none⟩ := by
        simp only [step, if_neg noPair, pass]
      rw [List.cons_append, walk_step_one stepped, ih noEnd.2, List.length_cons]
      simp only [Nat.add_assoc, Nat.add_comm 1]
  have stepped (text : Text) : step ⟨.code closing :: outer, since, before, offset⟩ '/'
      (.char '*' :: text) =
        some ⟨.blockComment :: .code closing :: outer, offset, 1 + 1, [], none⟩ := by
    have noClosing := isNone_closing closing (show Bracket.ofClosing? '/' = none by decide)
    have noQuote : CodePoint.isQuote '/' = false := by decide
    simp [step, codeStep, noClosing, noQuote, enterHere]
  have parts : ("/*" ++ body ++ "*/" ++ rest : Text) =
      .char '/' :: .char '*' :: (body ++ .char '*' :: .char '/' :: rest) := by
    simp [Text.ofString]
  have length : offset + (1 + 1) + body.length + 2 = offset + body.length + 4 := by omega
  have nonempty : offset < offset + body.length + 4 := by omega
  rw [parts, walk_step (stepped _), Survey.empty_append]
  simp only [List.drop_succ_cons, List.drop_zero]
  rw [inside body noEnd, length, walk_code_since _ since, extent, if_pos nonempty]

end Code

/-- The surveys of the code in the values of attributes. The text begins at the offset `base`. -/
def valueSurveys (attributes : List Attribute) (base : Nat) (text : Text) : List Survey :=
  (Element.codeStarts ⟨[], 0, 0, attributes⟩).map fun start =>
    walk ⟨[.code (some .curly)], start, some (.char '\x7b'), start⟩ (text.drop (start - base))

private theorem walk_element {walker : Walker} {text : Text} {regions : List Region}
    {since length : Nat} {marks : List Extent} {element : Element} {c : CodePoint}
    (stepped : walker.step c text = some ⟨regions, since, length + 1, marks, some element⟩) :
    let inside := valueSurveys element.attributes (walker.offset + 1) text
    walk walker (c :: text) =
      (⟨element :: inside.flatMap Survey.elements, marks ++ inside.flatMap Survey.opaqueExtents⟩ :
        Survey) ++
        walk ⟨regions, since, ((c :: text).take (length + 1)).getLast?,
          walker.offset + (length + 1)⟩ ((c :: text).drop (length + 1)) := by
  rw [walk, stepped]
  simp [Survey.append_eq, valueSurveys, Nat.sub_sub, Element.codeStarts]

theorem walk_outside (since offset : Nat) (before : Option CodePoint) (text : Text) :
    walk ⟨[], since, before, offset⟩ text = ⟨[], []⟩ := by
  cases text with
  | nil => simp [walk, finish]
  | cons c text => simp [walk, step]

/-- The step at a printed opening tag. -/
private theorem tag_print (walker : Walker) {tag space : Text} {attributes : Attributes}
    {inValue : Bool} (named : isName isTagNamePart tag = true)
    (valid : attributes.isValid inValue = true) (blank : space.all CodePoint.isBlank = true)
    (noOperand : (walker.regions.head?.any Region.isCode && endsOperand walker.before) = false)
    (isSelfClosing : Bool) (rest : Text) :
    let inside := walker.offset + 1 + tag.length
    let stop := inside + attributes.print.length + space.length + (tagEnd isSelfClosing).length
    let element : Element := ⟨tag, walker.offset, stop, attributes.read inside⟩
    walker.tag (tag ++ (attributes.print ++ (space ++ (tagEnd isSelfClosing ++ rest)))) =
      ⟨if isSelfClosing then walker.regions else .children :: walker.regions, stop,
        stop - walker.offset, element.quotedExtents, some element⟩ := by
  intro inside stop element
  have read := readElement?_print named valid blank isSelfClosing walker.offset rest
  unfold Walker.tag
  split
  · rename_i same
    cases tag with
    | nil => simp [isName] at named
    | cons c tag =>
      simp only [isName, Bool.and_eq_true] at named
      simp only [List.cons_append, List.cons.injEq] at same
      rw [same.1] at named
      exact absurd named.1 (by decide)
  · rw [read]
    simp [noOperand, element, stop, inside]

/-- The walker takes a sign of a tag for one, and marks what is opaque in front of it. -/
def TakesTag (walker : Walker) (marks : List Extent) : Prop :=
  (walker.regions.head?.any Region.isCode && endsOperand walker.before) = false ∧
    ∀ text : Text, text.head? ≠ some (.char '/') → walker.step '<' text =
      some { walker.tag text with marks := marks ++ (walker.tag text).marks }

/-- The walk over a printed opening tag. -/
theorem walk_openingTag {walker : Walker} {marks : List Extent}
    (takes : TakesTag walker marks) {tag space : Text} {attributes : Attributes}
    {inValue : Bool} (named : isName isTagNamePart tag = true)
    (valid : attributes.isValid inValue = true) (blank : space.all CodePoint.isBlank = true)
    (isSelfClosing : Bool) (rest : Text) {openings : List Element} {extents : List Extent} :
    let text := tag ++ (attributes.print ++ (space ++ (tagEnd isSelfClosing ++ rest)))
    let inside := walker.offset + 1 + tag.length
    let stop := inside + attributes.print.length + space.length + (tagEnd isSelfClosing).length
    let element : Element := ⟨tag, walker.offset, stop, attributes.read inside⟩
    let surveys := valueSurveys (attributes.read inside) (walker.offset + 1) text
    surveys.flatMap Survey.elements = openings →
    surveys.flatMap Survey.opaqueExtents = extents →
    walk walker (.char '<' :: text) =
      (⟨element :: openings, marks ++ (element.quotedExtents ++ extents)⟩ : Survey) ++
        walk ⟨if isSelfClosing then walker.regions else .children :: walker.regions, stop,
          some (.char '>'), stop⟩ rest := by
  intro text inside stop element surveys elements opaqueExtents
  have noSlash : text.head? ≠ some (.char '/') := by
    cases tag with
    | nil => simp [isName] at named
    | cons c tag =>
      simp only [isName, Bool.and_eq_true] at named
      have other : c ≠ .char '/' := ne_of_nameStart named.1 (by decide)
      simpa [text] using other
  obtain ⟨length, total⟩ : ∃ length, stop - walker.offset = length + 1 :=
    ⟨stop - walker.offset - 1, by omega⟩
  have stepped : walker.step '<' text = some ⟨if isSelfClosing then walker.regions else
      .children :: walker.regions, stop, length + 1, marks ++ element.quotedExtents,
        some element⟩ := by
    rw [takes.2 text noSlash, tag_print walker named valid blank takes.1 isSelfClosing rest,
      ← total]
  have split : .char '<' :: text = (.char '<' :: tag ++ attributes.print ++ space ++
      tagEnd isSelfClosing) ++ rest := by
    simp [text]
  have size : (.char '<' :: tag ++ attributes.print ++ space ++ tagEnd isSelfClosing).length =
      length + 1 := by
    simp only [List.length_append, List.length_cons]
    omega
  have last : (.char '<' :: tag ++ attributes.print ++ space ++ tagEnd isSelfClosing).getLast? =
      some (.char '>') := by
    have closes : (tagEnd isSelfClosing).getLast? = some (.char '>') := by
      cases isSelfClosing <;> rfl
    rw [List.getLast?_append, closes, Option.some_or]
  have behind : walker.offset + (length + 1) = stop := by omega
  rw [walk_element stepped, split, List.take_left' size, List.drop_left' size, last, behind]
  simp only [element, List.append_assoc]
  rw [elements, opaqueExtents]

theorem walk_text {text : Text} (noSign : text.all (fun c => c != '<' && c != '\x7b') = true)
    (outer : List Region) (since : Nat) (before : Option CodePoint) (offset : Nat) (rest : Text) :
    ∃ before', walk ⟨.children :: outer, since, before, offset⟩ (text ++ rest) =
      walk ⟨.children :: outer, since, before', offset + text.length⟩ rest := by
  induction text generalizing before offset with
  | nil => exact ⟨before, rfl⟩
  | cons c text ih =>
    simp only [List.all_cons, Bool.and_eq_true, bne_iff_ne, ne_eq] at noSign
    obtain ⟨⟨noTag, noBrace⟩, others⟩ := noSign
    have stepped (text : Text) : step ⟨.children :: outer, since, before, offset⟩ c text =
        some ⟨.children :: outer, since, 1, [], none⟩ := by
      simp [step, noTag, noBrace, pass]
    obtain ⟨before', same⟩ := ih others (some c) (offset + 1)
    refine ⟨before', ?_⟩
    rw [List.cons_append, walk_step_one (stepped _), same, List.length_cons, Nat.add_assoc,
      Nat.add_comm 1]

theorem walk_closingTag {tag : Text} (noEnd : tag.contains (.char '>') = false)
    (outer : List Region) (since : Nat) (before : Option CodePoint) (offset : Nat) (rest : Text) :
    walk ⟨.children :: outer, since, before, offset⟩
        (.char '<' :: .char '/' :: (tag ++ .char '>' :: rest)) =
      (⟨[], extent since offset⟩ : Survey) ++
        walk ⟨outer, offset + (tag.length + 3), some (.char '>'), offset + (tag.length + 3)⟩
          rest := by
  have found : Text.indexOf? '>' (.char '/' :: (tag ++ .char '>' :: rest)) =
      some (tag.length + 1) := by
    have within : (CodePoint.char '/' :: tag).contains (.char '>') = false := by
      simpa using noEnd
    exact indexOf?_append within rest
  have stepped : step ⟨.children :: outer, since, before, offset⟩ '<'
      (.char '/' :: (tag ++ .char '>' :: rest)) =
        some ⟨outer, offset + (tag.length + 3), tag.length + 2 + 1, extent since offset, none⟩ := by
    simp [step, childTag, found, closeText]
  have split : .char '<' :: .char '/' :: (tag ++ .char '>' :: rest) =
      (.char '<' :: .char '/' :: tag ++ [.char '>']) ++ rest := by
    simp
  have size : (CodePoint.char '<' :: .char '/' :: tag ++ [CodePoint.char '>']).length =
      tag.length + 2 + 1 := by
    simp
  rw [walk_step stepped, split, List.take_left' size, List.drop_left' size, List.getLast?_concat]

theorem takesTag_children (outer : List Region) (since : Nat) (before : Option CodePoint)
    (offset : Nat) :
    TakesTag ⟨.children :: outer, since, before, offset⟩ (extent since offset) := by
  refine ⟨rfl, ?_⟩
  intro text noSlash
  have other : childTag ⟨.children :: outer, since, before, offset⟩ outer text =
      tag ⟨.children :: outer, since, before, offset⟩ text := by
    unfold childTag
    split
    · simp at noSlash
    · rfl
  simp [step, closeText, other]

theorem takesTag_code (closing : Option Bracket) (outer : List Region) (since : Nat)
    {before : Option CodePoint} (noOperand : endsOperand before = false) (offset : Nat) :
    TakesTag ⟨.code closing :: outer, since, before, offset⟩ [] := by
  refine ⟨by simp [noOperand], ?_⟩
  intro text noSlash
  have noClosing := isNone_closing closing (show Bracket.ofClosing? '<' = none by decide)
  have noOpening : Bracket.ofOpening? '<' = none := by decide
  have noQuote : CodePoint.isQuote '<' = false := by decide
  simp [step, codeStep, noClosing, noOpening, noQuote]

end Walker

end StaticStyle.Markup
