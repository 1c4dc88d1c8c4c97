import StaticStyle.Proofs.Markup.Elements
import StaticStyle.Proofs.Text.Strip

namespace StaticStyle

namespace Markup.Tree

/-- A node ends with the sign of a tag. -/
theorem Node.print_ends (node : Node) : ∃ front, node.print = front ++ [.char '>'] := by
  cases node with
  | selfClosing tag attributes space =>
    exact ⟨"<" ++ tag ++ attributes.print ++ space ++ "/", by simp [print, Text.ofString]⟩
  | paired tag attributes space children =>
    exact ⟨"<" ++ tag ++ attributes.print ++ space ++ ">" ++ children.print ++ "</" ++ tag, by
      simp [print, Text.ofString]⟩
  | fragment children => exact ⟨"<>" ++ children.print ++ "</", by simp [print, Text.ofString]⟩

mutual
/-- Whether code has no element in it. -/
def Code.isFlat : Code → Bool
  | .nil => true
  | .plain _ rest | .operator _ rest | .quoted _ _ rest | .lineComment _ rest | .blockComment _ rest
  | .opening _ rest | .closing _ rest => rest.isFlat
  | .template content rest => content.isFlat && rest.isFlat
  | .node .. => false

def Template.isFlat : Template → Bool
  | .text _ => true
  | .code _ code rest => code.isFlat && rest.isFlat
end

mutual

theorem Code.isValid_of_isFlat (code : Code) {inValue : Bool} {before : CodePoint} {next : Option CodePoint}
    (flat : code.isFlat = true)
    (valid : code.isValid inValue before next = true) (inValue' : Bool) :
    code.isValid inValue' before next = true := by
  match code with
  | .nil => rfl
  | .plain _ rest | .operator _ rest | .quoted _ _ rest | .lineComment _ rest | .blockComment _ rest =>
    simp only [Code.isValid, Bool.and_eq_true] at valid ⊢
    exact ⟨valid.1, Code.isValid_of_isFlat rest flat valid.2 _⟩
  | .template content rest =>
    simp only [Code.isValid, Code.isFlat, Bool.and_eq_true] at valid flat ⊢
    exact ⟨Template.isValid_of_isFlat content flat.1 valid.1 _, Code.isValid_of_isFlat rest flat.2 valid.2 _⟩
  | .opening _ rest | .closing _ rest => exact Code.isValid_of_isFlat rest flat valid _
  | .node .. => simp [Code.isFlat] at flat

theorem Template.isValid_of_isFlat (template : Template) {inValue : Bool} (flat : template.isFlat = true)
    (valid : template.isValid inValue = true) (inValue' : Bool) : template.isValid inValue' = true := by
  match template with
  | .text body => exact valid
  | .code body code rest =>
    simp only [Template.isValid, Template.isFlat, Bool.and_eq_true] at valid flat ⊢
    obtain ⟨⟨⟨textValid, codeValid⟩, balanced⟩, others⟩ := valid
    exact ⟨⟨⟨textValid, Code.isValid_of_isFlat code flat.1 codeValid _⟩, balanced⟩,
      Template.isValid_of_isFlat rest flat.2 others _⟩

end

mutual

theorem Code.openings_of_isFlat (code : Code) (flat : code.isFlat = true) (offset : Nat) : code.openings offset = [] := by
  match code with
  | .nil => rfl
  | .plain _ rest | .operator _ rest | .quoted _ _ rest | .lineComment _ rest | .blockComment _ rest
  | .opening _ rest | .closing _ rest => exact Code.openings_of_isFlat rest flat _
  | .template content rest =>
    simp only [Code.isFlat, Bool.and_eq_true] at flat
    rw [Code.openings, Template.openings_of_isFlat content flat.1, Code.openings_of_isFlat rest flat.2]
    rfl
  | .node .. => simp [Code.isFlat] at flat

theorem Template.openings_of_isFlat (template : Template) (flat : template.isFlat = true)
    (offset : Nat) : template.openings offset = [] := by
  match template with
  | .text body => rfl
  | .code body code rest =>
    simp only [Template.isFlat, Bool.and_eq_true] at flat
    rw [Template.openings, Code.openings_of_isFlat code flat.1, Template.openings_of_isFlat rest flat.2]
    rfl

end

/-- Whether an operator in front of a code point stands for itself, whatever is in front of that. -/
def sparesOperators (c : CodePoint) : Bool := c != '/' && c != '*' && c != '>' && !isNameStart c

theorem isOperator_of_spares {before sign : CodePoint} {behind behind' : Option CodePoint}
    (spares : behind'.all sparesOperators = true) (stands : isOperator before behind sign = true) :
    isOperator before behind' sign = true := by
  unfold isOperator at stands ⊢
  cases behind' with
  | none => split <;> simp_all
  | some c =>
    simp only [Option.all_some, sparesOperators, Bool.and_eq_true, bne_iff_ne, Bool.not_eq_true'] at spares
    split <;> simp_all

theorem isOperator_before {before before' sign : CodePoint} {behind : Option CodePoint}
    (same : endsOperand before' = endsOperand before ∨ sign ≠ '<') (stands : isOperator before behind sign = true) :
    isOperator before' behind sign = true := by
  unfold isOperator at stands ⊢
  rcases same with same | other
  · rwa [same]
  · split
    · simp_all
    · simp [other] at stands
      simp_all

/-- An operator is a slash or a `<`. -/
theorem isOperator_cases {before sign : CodePoint} {behind : Option CodePoint}
    (stands : isOperator before behind sign = true) : sign = '/' ∨ sign = '<' := by
  unfold isOperator at stands
  split at stands
  · exact .inl ‹_›
  · simp only [Bool.and_eq_true, beq_iff_eq] at stands
    exact .inr stands.1.1

theorem isBlank_operator {before sign : CodePoint} {behind : Option CodePoint}
    (stands : isOperator before behind sign = true) : sign.isBlank = false := by
  rcases isOperator_cases stands with rfl | rfl <;> decide

theorem endsOperand_blank {c : CodePoint} (blank : c.isBlank = true) : endsOperand (some c) = false := by
  have other : c.isOneOf "_$)]" = false := by
    by_contra member
    simp only [Bool.not_eq_false, CodePoint.isOneOf, Text.ofString] at member
    simp at member
    rcases member with rfl | rfl | rfl | rfl <;> revert blank <;> decide
  simp [endsOperand, isAlphanumeric_blank blank, other]

namespace Code

/-- One piece of code behind another. -/
def append : Code → Code → Code
  | .nil, behind => behind
  | .plain c rest, behind => .plain c (rest.append behind)
  | .operator sign rest, behind => .operator sign (rest.append behind)
  | .quoted mark body rest, behind => .quoted mark body (rest.append behind)
  | .template content rest, behind => .template content (rest.append behind)
  | .lineComment body rest, behind => .lineComment body (rest.append behind)
  | .blockComment body rest, behind => .blockComment body (rest.append behind)
  | .opening bracket rest, behind => .opening bracket (rest.append behind)
  | .closing bracket rest, behind => .closing bracket (rest.append behind)
  | .node inner rest, behind => .node inner (rest.append behind)

/-- Plain code points in front of code. -/
def plains (text : Text) (rest : Code) : Code := text.foldr .plain rest

/-- The code point in front of what stands behind code. -/
def last (before : CodePoint) : Code → CodePoint
  | .nil => before
  | .plain c rest | .operator c rest => rest.last c
  | .quoted mark _ rest => rest.last mark
  | .template _ rest => rest.last '\x60'
  | .lineComment _ rest => rest.last '\n'
  | .blockComment _ rest => rest.last '/'
  | .opening bracket rest => rest.last bracket.opening
  | .closing bracket rest => rest.last bracket.closing
  | .node _ rest => rest.last '>'

variable {code code' : Code} {inValue : Bool} {before before' : CodePoint} {next next' : Option CodePoint}

attribute [local simp] append last isFlat

@[simp] theorem print_append (code code' : Code) : (code.append code').print = code.print ++ code'.print := by
  match code with
  | .nil => rfl
  | .plain _ rest | .operator _ rest | .quoted _ _ rest | .template _ rest | .lineComment _ rest
  | .blockComment _ rest | .opening _ rest | .closing _ rest | .node _ rest =>
    simp [print, print_append rest]

@[simp] theorem print_plains (text : Text) (rest : Code) : (plains text rest).print = text ++ rest.print := by
  induction text with
  | nil => rfl
  | cons c text ih => simpa [plains, print] using ih

theorem plains_append (text : Text) (code code' : Code) :
    (plains text code).append code' = plains text (code.append code') := by
  induction text with
  | nil => rfl
  | cons c text ih => simpa [plains] using ih

theorem append_assoc (first second third : Code) :
    (first.append second).append third = first.append (second.append third) := by
  match first with
  | .nil => rfl
  | .plain _ rest | .operator _ rest | .quoted _ _ rest | .template _ rest | .lineComment _ rest
  | .blockComment _ rest | .opening _ rest | .closing _ rest | .node _ rest =>
    simp [append_assoc rest]

theorem last_append (code code' : Code) (before : CodePoint) :
    (code.append code').last before = code'.last (code.last before) := by
  match code with
  | .nil => rfl
  | .plain _ rest | .operator _ rest | .quoted _ _ rest | .template _ rest | .lineComment _ rest
  | .blockComment _ rest | .opening _ rest | .closing _ rest | .node _ rest =>
    simp [last_append rest]

@[simp] theorem isValid_append (code code' : Code) (inValue : Bool) (before : CodePoint)
    (next : Option CodePoint) :
    (code.append code').isValid inValue before next =
      (code.isValid inValue before (code'.print.head?.or next) &&
        code'.isValid inValue (code.last before) next) := by
  match code with
  | .nil => simp [isValid]
  | .plain _ rest | .operator _ rest | .quoted _ _ rest | .template _ rest | .lineComment _ rest
  | .blockComment _ rest | .opening _ rest | .closing _ rest | .node _ rest =>
    simp [isValid, isValid_append rest, Bool.and_assoc, Option.or_assoc]

@[simp] theorem unclosed_append (code code' : Code) (brackets : List Bracket) :
    (code.append code').unclosed brackets = (code.unclosed brackets).bind code'.unclosed := by
  match code with
  | .nil => rfl
  | .plain _ rest | .operator _ rest | .quoted _ _ rest | .template _ rest | .lineComment _ rest
  | .blockComment _ rest | .opening _ rest | .node _ rest =>
    simp [unclosed, unclosed_append rest]
  | .closing bracket rest =>
    cases brackets with
    | nil => rfl
    | cons innermost outer =>
      by_cases fits : innermost = bracket
      · simp [unclosed, fits, unclosed_append rest]
      · simp [unclosed, fits]

@[simp] theorem openings_append (code code' : Code) (offset : Nat) :
    (code.append code').openings offset =
      code.openings offset ++ code'.openings (offset + code.print.length) := by
  match code with
  | .nil => rfl
  | .plain _ rest | .operator _ rest | .quoted _ _ rest | .opening _ rest | .closing _ rest | .node _ rest =>
    simp [openings, print, openings_append rest, Nat.add_assoc, Nat.add_comm, Nat.add_left_comm]
  | .template content rest =>
    rw [stop_template, append, openings, openings_append rest, openings, List.append_assoc]
  | .lineComment body rest =>
    rw [stop_lineComment]
    exact openings_append rest code' _
  | .blockComment body rest =>
    rw [stop_blockComment]
    exact openings_append rest code' _

@[simp] theorem unclosed_plains (text : Text) (rest : Code) (brackets : List Bracket) :
    (plains text rest).unclosed brackets = rest.unclosed brackets := by
  induction text with
  | nil => rfl
  | cons c text ih => simpa [plains, unclosed] using ih

@[simp] theorem openings_plains (text : Text) (rest : Code) (offset : Nat) :
    (plains text rest).openings offset = rest.openings (offset + text.length) := by
  induction text generalizing offset with
  | nil => rfl
  | cons c text ih =>
    have inside := ih (offset + 1)
    simp only [plains, List.foldr_cons, openings, List.length_cons] at inside ⊢
    rw [inside, Nat.add_assoc, Nat.add_comm 1]

@[simp] theorem isFlat_plains (text : Text) (rest : Code) : (plains text rest).isFlat = rest.isFlat := by
  induction text with
  | nil => rfl
  | cons c text ih => simpa [plains] using ih

/-- Only an element and a `<` depend on what stands in front of them. -/
theorem isValid_before (code : Code)
    (same : endsOperand before' = endsOperand before ∨ code.print.head? ≠ some (.char '<'))
    (valid : code.isValid inValue before next = true) : code.isValid inValue before' next = true := by
  cases code with
  | operator sign rest =>
    simp only [isValid, Bool.and_eq_true] at valid ⊢
    exact ⟨isOperator_before (same.imp_right fun other => by simpa [print] using other) valid.1, valid.2⟩
  | node inner rest =>
    obtain ⟨text, begins⟩ := Node.print_eq inner
    have same := same.resolve_right (by simp [print, begins])
    simpa only [isValid, same] using valid
  | _ => exact valid

/-- What stands behind code matters to an operator at its end. -/
theorem isValid_behind (code : Code) {before : CodePoint} (spares : next'.all sparesOperators = true)
    (valid : code.isValid inValue before next = true) : code.isValid inValue before next' = true := by
  match code with
  | .nil => rfl
  | .plain _ rest | .quoted _ _ rest | .template _ rest | .lineComment _ rest | .blockComment _ rest
  | .node _ rest =>
    simp only [isValid, Bool.and_eq_true] at valid ⊢
    exact ⟨valid.1, isValid_behind rest spares valid.2⟩
  | .operator sign rest =>
    simp only [isValid, Bool.and_eq_true] at valid ⊢
    refine ⟨?_, isValid_behind rest spares valid.2⟩
    cases first : rest.print.head? with
    | none =>
      rw [first, Option.none_or] at valid
      exact isOperator_of_spares spares valid.1
    | some c => simpa [first] using valid.1
  | .opening _ rest | .closing _ rest => exact isValid_behind rest spares valid

theorem isValid_plains {text : Text} {rest : Code} (plain : text.all isPlain = true)
    (valid : ∀ before, rest.isValid inValue before next = true) (before : CodePoint) :
    (plains text rest).isValid inValue before next = true := by
  induction text generalizing before with
  | nil => exact valid before
  | cons c text ih =>
    simp only [List.all_cons, Bool.and_eq_true] at plain
    simpa [plains, isValid, plain.1] using ih plain.2 c

/-- Blanks end no operand. -/
theorem isValid_of_blanks {text : Text} {rest : Code} (blank : text.all CodePoint.isBlank = true)
    (valid : (plains text rest).isValid inValue before next = true) :
    ∃ before' : CodePoint, (endsOperand before = false → endsOperand before' = false) ∧
      rest.isValid inValue before' next = true := by
  induction text generalizing before with
  | nil => exact ⟨before, id, valid⟩
  | cons c text ih =>
    simp only [plains, List.foldr_cons, isValid, Bool.and_eq_true] at valid
    rw [List.all_cons, Bool.and_eq_true] at blank
    obtain ⟨before', ends, valid'⟩ := ih blank.2 valid.2
    exact ⟨before', fun _ => ends (endsOperand_blank blank.1), valid'⟩

/-- Code without the blanks in front. -/
def dropBlank : Code → Code
  | .plain c rest => if c.isBlank then rest.dropBlank else .plain c rest
  | code => code

def isAllBlank : Code → Bool
  | .nil => true
  | .plain c rest => c.isBlank && rest.isAllBlank
  | _ => false

/-- Code without the blanks at the end. -/
def dropTrailing : Code → Code
  | .nil => .nil
  | .plain c rest => if c.isBlank && rest.isAllBlank then .nil else .plain c rest.dropTrailing
  | .operator sign rest => .operator sign rest.dropTrailing
  | .quoted mark body rest => .quoted mark body rest.dropTrailing
  | .template content rest => .template content rest.dropTrailing
  | .lineComment body rest => .lineComment body rest.dropTrailing
  | .blockComment body rest => .blockComment body rest.dropTrailing
  | .opening bracket rest => .opening bracket rest.dropTrailing
  | .closing bracket rest => .closing bracket rest.dropTrailing
  | .node inner rest => .node inner rest.dropTrailing

/-- Code without the blanks at both ends. -/
def strip (code : Code) : Code := code.dropBlank.dropTrailing

/-- Whether a line comment is the last thing in code apart from blanks. Its line feed is a blank at the end of the
text. -/
def endsInComment : Code → Bool
  | .nil => false
  | .lineComment _ rest => rest.isAllBlank || rest.endsInComment
  | .plain _ rest | .operator _ rest | .quoted _ _ rest | .template _ rest | .blockComment _ rest
  | .opening _ rest | .closing _ rest | .node _ rest => rest.endsInComment

private theorem head_print (code : Code) {before : CodePoint} (valid : code.isValid inValue before next = true)
    (noPlain : ∀ c rest, code ≠ .plain c rest) : code.print.head?.all (!·.isBlank) = true := by
  match code with
  | .nil => rfl
  | .plain c rest => exact absurd rfl (noPlain c rest)
  | .quoted mark body rest =>
    simp only [isValid, CodePoint.isQuote, Bool.and_eq_true, Bool.or_eq_true, beq_iff_eq] at valid
    rcases valid.1.1 with rfl | rfl <;> rfl
  | .operator sign rest =>
    simp only [isValid, Bool.and_eq_true] at valid
    simp [print, isBlank_operator valid.1]
  | .template .. | .lineComment .. | .blockComment .. => rfl
  | .opening bracket _ | .closing bracket _ => cases bracket <;> rfl
  | .node inner rest =>
    obtain ⟨text, same⟩ := Node.print_eq inner
    rw [print, same]
    rfl

theorem print_dropBlank (code : Code) {before : CodePoint} (valid : code.isValid inValue before next = true) :
    code.dropBlank.print = Text.dropBlank code.print := by
  have other (noPlain : ∀ c rest, code ≠ .plain c rest) : code.print = Text.dropBlank code.print := by
    have head := head_print code valid noPlain
    cases same : code.print with
    | nil => rfl
    | cons c text =>
      rw [same] at head
      rw [Text.dropBlank, List.dropWhile_cons_of_neg (by simpa using head)]
  cases code with
  | plain c rest =>
    simp only [isValid, Bool.and_eq_true] at valid
    by_cases blank : c.isBlank = true
    · simp [dropBlank, print, Text.dropBlank, blank, print_dropBlank rest valid.2]
    · simp [dropBlank, print, Text.dropBlank, blank]
  | _ => exact other (by simp)

theorem all_isBlank_print (code : Code) {before : CodePoint} (valid : code.isValid inValue before next = true) :
    code.print.all CodePoint.isBlank = code.isAllBlank := by
  have other (noPlain : ∀ c rest, code ≠ .plain c rest) (nonempty : code.print ≠ []) :
      code.print.all CodePoint.isBlank = false := by
    obtain ⟨c, text, same⟩ := List.exists_cons_of_ne_nil nonempty
    have head := head_print code valid noPlain
    rw [same] at head ⊢
    simp only [List.head?_cons, Option.all_some, Bool.not_eq_true'] at head
    rw [List.all_cons, head, Bool.false_and]
  match code with
  | .nil => rfl
  | .plain c rest =>
    simp only [isValid, Bool.and_eq_true] at valid
    rw [print, List.all_cons, all_isBlank_print rest valid.2, isAllBlank]
  | .operator .. | .quoted .. | .template .. | .lineComment .. | .blockComment .. | .opening .. | .closing .. =>
    exact other nofun nofun
  | .node inner rest =>
    obtain ⟨text, same⟩ := Node.print_eq inner
    exact other nofun (by simp [print, same])

theorem print_dropTrailing (code : Code) {before : CodePoint} (valid : code.isValid inValue before next = true)
    (uncommented : code.endsInComment = false) :
    code.dropTrailing.print = code.print.dropTrailing CodePoint.isBlank := by
  match code with
  | .nil => rfl
  | .plain c rest =>
    simp only [isValid, Bool.and_eq_true] at valid
    have behind := print_dropTrailing rest valid.2 uncommented
    have blanks := all_isBlank_print rest valid.2
    by_cases visible : rest.isAllBlank = true
    · by_cases blank : c.isBlank = true
      · have all : (c :: rest.print).all CodePoint.isBlank = true := by simp [blank, blanks, visible]
        rw [print, Text.dropTrailing_of_all all]
        simp [dropTrailing, blank, visible, print]
      · simp only [dropTrailing, blank, Bool.false_and, Bool.false_eq_true, if_false, print, behind]
        exact (Text.dropTrailing_behind [] (by simpa using blank) rest.print).symm
    · have remains : rest.print.all CodePoint.isBlank = false := by simpa [blanks] using visible
      simp only [dropTrailing, visible, Bool.and_false, Bool.false_eq_true, if_false, print, behind]
      exact (Text.dropTrailing_append [c] remains).symm
  | .lineComment body rest =>
    simp only [isValid, Bool.and_eq_true] at valid
    simp only [endsInComment, Bool.or_eq_false_iff] at uncommented
    have behind := print_dropTrailing rest valid.2 uncommented.2
    have remains : rest.print.all CodePoint.isBlank = false := by
      rw [all_isBlank_print rest valid.2, uncommented.1]
    rw [dropTrailing, print, print, behind, Text.dropTrailing_append _ remains]
  | .quoted mark body rest =>
    simp only [isValid, CodePoint.isQuote, Bool.and_eq_true, Bool.or_eq_true, beq_iff_eq] at valid
    have visible : mark.isBlank = false := by rcases valid.1.1 with rfl | rfl <;> rfl
    have behind := print_dropTrailing rest valid.2 uncommented
    simpa [dropTrailing, print, quotation, behind] using
      (Text.dropTrailing_behind (mark :: body.flatMap Stroke.print) visible rest.print).symm
  | .operator sign rest =>
    simp only [isValid, Bool.and_eq_true] at valid
    have behind := print_dropTrailing rest valid.2 uncommented
    simpa [dropTrailing, print, behind] using
      (Text.dropTrailing_behind [] (isBlank_operator valid.1) rest.print).symm
  | .template content rest =>
    simp only [isValid, Bool.and_eq_true] at valid
    have visible : CodePoint.isBlank '\x60' = false := rfl
    have behind := print_dropTrailing rest valid.2 uncommented
    simpa [dropTrailing, print, behind, Text.ofString] using
      (Text.dropTrailing_behind ("\x60" ++ content.print) visible rest.print).symm
  | .blockComment body rest =>
    simp only [isValid, Bool.and_eq_true] at valid
    have visible : CodePoint.isBlank '/' = false := rfl
    have behind := print_dropTrailing rest valid.2 uncommented
    simpa [dropTrailing, print, behind, Text.ofString] using
      (Text.dropTrailing_behind ("/*" ++ body ++ "*") visible rest.print).symm
  | .opening bracket rest =>
    have visible : bracket.opening.isBlank = false := by cases bracket <;> rfl
    have behind := print_dropTrailing rest valid uncommented
    simpa [dropTrailing, print, behind] using (Text.dropTrailing_behind [] visible rest.print).symm
  | .closing bracket rest =>
    have visible : bracket.closing.isBlank = false := by cases bracket <;> rfl
    have behind := print_dropTrailing rest valid uncommented
    simpa [dropTrailing, print, behind] using (Text.dropTrailing_behind [] visible rest.print).symm
  | .node inner rest =>
    simp only [isValid, Bool.and_eq_true] at valid
    obtain ⟨front, ends⟩ := Node.print_ends inner
    have visible : CodePoint.isBlank '>' = false := rfl
    have behind := print_dropTrailing rest valid.2 uncommented
    simpa [dropTrailing, print, behind, ends] using (Text.dropTrailing_behind front visible rest.print).symm

theorem exists_blanks_front (code : Code) :
    ∃ blank : Text, blank.all CodePoint.isBlank = true ∧ code = plains blank code.dropBlank := by
  match code with
  | .plain c rest =>
    by_cases isBlank : c.isBlank = true
    · obtain ⟨blank, blanks, same⟩ := exists_blanks_front rest
      refine ⟨c :: blank, by simp [isBlank, blanks], ?_⟩
      simpa [dropBlank, isBlank, plains] using same
    · exact ⟨[], rfl, by simp [dropBlank, isBlank, plains]⟩
  | .nil | .operator .. | .quoted .. | .template .. | .lineComment .. | .blockComment .. | .opening .. | .closing ..
  | .node .. =>
    exact ⟨[], rfl, rfl⟩

theorem eq_plains_of_isAllBlank (code : Code) (blank : code.isAllBlank = true) :
    ∃ blank : Text, blank.all CodePoint.isBlank = true ∧ code = plains blank .nil := by
  match code with
  | .nil => exact ⟨[], rfl, rfl⟩
  | .plain c rest =>
    simp only [isAllBlank, Bool.and_eq_true] at blank
    obtain ⟨blanks, all, same⟩ := eq_plains_of_isAllBlank rest blank.2
    exact ⟨c :: blanks, by simp [blank.1, all], by simpa [plains] using same⟩
  | .operator .. | .quoted .. | .template .. | .lineComment .. | .blockComment .. | .opening .. | .closing ..
  | .node .. =>
    simp [isAllBlank] at blank

theorem exists_blanks_behind (code : Code) :
    ∃ blank : Text, blank.all CodePoint.isBlank = true ∧ code = code.dropTrailing.append (plains blank .nil) := by
  match code with
  | .nil => exact ⟨[], rfl, rfl⟩
  | .plain c rest =>
    rw [dropTrailing]
    split
    · rename_i blank
      exact eq_plains_of_isAllBlank (.plain c rest) blank
    · obtain ⟨blank, blanks, same⟩ := exists_blanks_behind rest
      exact ⟨blank, blanks, congrArg (plain c) same⟩
  | .operator _ rest | .quoted _ _ rest | .template _ rest | .lineComment _ rest | .blockComment _ rest
  | .opening _ rest | .closing _ rest | .node _ rest =>
    obtain ⟨blank, blanks, same⟩ := exists_blanks_behind rest
    exact ⟨blank, blanks, by rw [dropTrailing, append, ← same]⟩

theorem endsInComment_plains (text : Text) (rest : Code) :
    (plains text rest).endsInComment = rest.endsInComment := by
  induction text with
  | nil => rfl
  | cons c text ih => simpa [plains, endsInComment] using ih

theorem exists_blanks (code : Code) :
    ∃ front back : Text, front.all CodePoint.isBlank = true ∧ back.all CodePoint.isBlank = true ∧
      code = plains front (code.strip.append (plains back .nil)) := by
  obtain ⟨front, frontBlank, same⟩ := exists_blanks_front code
  obtain ⟨back, backBlank, same'⟩ := exists_blanks_behind code.dropBlank
  exact ⟨front, back, frontBlank, backBlank, by rw [strip, ← same', ← same]⟩

/-- Code without the blanks at its ends has the text without the blanks at its ends, unless a comment takes away its
end. -/
theorem print_strip (code : Code) {before : CodePoint} (valid : code.isValid inValue before next = true)
    (uncommented : code.endsInComment = false) : code.strip.print = code.print.strip := by
  obtain ⟨front, blank, same⟩ := exists_blanks_front code
  have inside : ∃ before, code.dropBlank.isValid inValue before next = true := by
    rw [same] at valid
    exact (isValid_of_blanks blank valid).imp fun _ found => found.2
  have ends : code.dropBlank.endsInComment = false := by
    rw [same, endsInComment_plains] at uncommented
    exact uncommented
  rw [strip, print_dropTrailing _ inside.choose_spec ends, print_dropBlank code valid, Text.strip]

theorem isValid_strip (code : Code) {before : CodePoint} (valid : code.isValid inValue before next = true)
    (noOperand : endsOperand before = false) (noOperand' : endsOperand before' = false)
    (spares : next'.all sparesOperators = true) : code.strip.isValid inValue before' next' = true := by
  obtain ⟨front, back, blank, -, same⟩ := exists_blanks code
  rw [same] at valid
  obtain ⟨first, ends, inside⟩ := isValid_of_blanks blank valid
  rw [isValid_append, Bool.and_eq_true] at inside
  exact isValid_behind _ spares (isValid_before _ (.inl (noOperand'.trans (ends noOperand).symm)) inside.1)

theorem unclosed_strip (code : Code) (brackets : List Bracket) :
    code.strip.unclosed brackets = code.unclosed brackets := by
  obtain ⟨front, back, -, -, same⟩ := exists_blanks code
  calc
    code.strip.unclosed brackets
    _ = (plains front (code.strip.append (plains back .nil))).unclosed brackets := by simp [unclosed]
    _ = code.unclosed brackets := by rw [← same]

/-- A line comment is the last thing in code apart from blanks. -/
def HasLastComment (code : Code) : Prop :=
  ∃ (front : Code) (body blank : Text), blank.all CodePoint.isBlank = true ∧
    code = front.append (.lineComment body (plains blank .nil))

private theorem HasLastComment.behind {rest : Code} (commented : rest.HasLastComment) (first : Code → Code)
    (same : ∀ front behind, (first front).append behind = first (front.append behind)) :
    (first rest).HasLastComment := by
  obtain ⟨front, body, blank, blanks, rfl⟩ := commented
  exact ⟨first front, body, blank, blanks, (same _ _).symm⟩

theorem hasLastComment (code : Code) (commented : code.endsInComment = true) : code.HasLastComment := by
  match code with
  | .nil => simp [endsInComment] at commented
  | .lineComment body rest =>
    simp only [endsInComment, Bool.or_eq_true] at commented
    by_cases blank : rest.isAllBlank = true
    · obtain ⟨blank, blanks, same⟩ := eq_plains_of_isAllBlank rest blank
      exact ⟨.nil, body, blank, blanks, by rw [append, same]⟩
    · exact (hasLastComment rest (commented.resolve_left blank)).behind (.lineComment body) fun _ _ => rfl
  | .plain c rest => exact (hasLastComment rest commented).behind (.plain c) fun _ _ => rfl
  | .operator sign rest => exact (hasLastComment rest commented).behind (.operator sign) fun _ _ => rfl
  | .template content rest => exact (hasLastComment rest commented).behind (.template content) fun _ _ => rfl
  | .quoted mark body rest => exact (hasLastComment rest commented).behind (.quoted mark body) fun _ _ => rfl
  | .blockComment body rest => exact (hasLastComment rest commented).behind (.blockComment body) fun _ _ => rfl
  | .opening bracket rest => exact (hasLastComment rest commented).behind (.opening bracket) fun _ _ => rfl
  | .closing bracket rest => exact (hasLastComment rest commented).behind (.closing bracket) fun _ _ => rfl
  | .node inner rest => exact (hasLastComment rest commented).behind (.node inner) fun _ _ => rfl

theorem closingDistance?_unended {outer : List Enclosure} {text : Text}
    (noLine : text.any CodePoint.isLineFeed = false) :
    closingDistance? (.lineComment :: outer) text = none := by
  induction text with
  | nil => rfl
  | cons c text ih =>
    rw [List.any_cons, Bool.or_eq_false_iff] at noLine
    rw [closingDistance?]
    simp [noLine.1, ih noLine.2]

/-- A line comment at the end takes the brace behind code with it, when the blanks with its line feed are taken away. -/
theorem contentLength?_strip (code : Code) {before : CodePoint} (valid : code.isValid true before next = true)
    (balanced : code.unclosed [] = some []) (commented : code.endsInComment = true) :
    Bracket.curly.contentLength? (code.print.strip ++ "\x7d") = none := by
  obtain ⟨blank, blanks, same⟩ := exists_blanks_front code
  rw [same, endsInComment_plains] at commented
  rw [same, unclosed_plains] at balanced
  obtain ⟨before, -, valid'⟩ := isValid_of_blanks blanks (same ▸ valid)
  obtain ⟨front, body, blank', blanks, same'⟩ := hasLastComment _ commented
  rw [same', isValid_append, isValid, Bool.and_eq_true, Bool.and_eq_true, Bool.not_eq_true'] at valid'
  rw [same', unclosed_append] at balanced
  have closed : front.unclosed [] = some [] := by
    cases inside : front.unclosed [] with
    | none => simp [inside] at balanced
    | some brackets => simpa [inside, unclosed] using balanced
  have noLine : (body.dropTrailing CodePoint.isBlank ++ "\x7d" : Text).any CodePoint.isLineFeed = false := by
    rw [List.any_append, Bool.or_eq_false_iff]
    refine ⟨?_, rfl⟩
    simp only [List.any_eq_false] at valid' ⊢
    exact fun c member => valid'.2.1 c (Text.mem_of_mem_dropTrailing member)
  have stripped : code.print.strip = front.print ++ ("//" ++ body.dropTrailing CodePoint.isBlank) := by
    have blanks' : (.char '\n' :: blank' : Text).all CodePoint.isBlank = true := by
      rw [List.all_cons, blanks]
      rfl
    have kept := Text.dropTrailing_behind (front.print ++ "/") (rfl : CodePoint.isBlank '/' = false)
      (body ++ .char '\n' :: blank')
    rw [Text.strip, ← print_dropBlank code valid, same', print_append]
    rw [Text.dropTrailing_append_of_all body blanks'] at kept
    simpa [print, Text.ofString] using kept
  calc
    Bracket.curly.contentLength? (code.print.strip ++ "\x7d")
    _ = closingDistance? [.bracket .curly]
          (front.print ++ ("//" ++ (body.dropTrailing CodePoint.isBlank ++ "\x7d"))) := by
      rw [stripped, Bracket.contentLength?, List.append_assoc, List.append_assoc]
    _ = none := by
      rw [front.closingDistance?_print .curly [] _ valid'.1 closed]
      have comment (text : Text) : closingDistance? [.bracket .curly] ("//" ++ text) =
          (closingDistance? [.lineComment, .bracket .curly] text).map (· + 2) := rfl
      rw [comment, closingDistance?_unended noLine]
      rfl

/-- Code has its stripped form in it, and its opening elements are the ones of that. -/
theorem openings_strip (code : Code) :
    ∃ front back : Text, code.print = front ++ (code.strip.print ++ back) ∧
      ∀ offset, code.openings offset = code.strip.openings (offset + front.length) := by
  obtain ⟨front, back, -, -, same⟩ := exists_blanks code
  refine ⟨front, back, ?_, fun offset => ?_⟩
  · calc
      code.print
      _ = (plains front (code.strip.append (plains back .nil))).print := by rw [← same]
      _ = front ++ (code.strip.print ++ back) := by simp [print]
  · calc
      code.openings offset
      _ = (plains front (code.strip.append (plains back .nil))).openings offset := by rw [← same]
      _ = code.strip.openings (offset + front.length) := by simp [openings]

end Code

end Markup.Tree

end StaticStyle
