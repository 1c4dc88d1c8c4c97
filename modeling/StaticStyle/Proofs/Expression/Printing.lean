import StaticStyle.Expression.Parse
import StaticStyle.Proofs.Expression.Spelling

namespace StaticStyle.Expression

/-- The symbols that may stand in front of an operand. -/
def frontSymbols : List Text := ["+", "-", "!", "typeof"].map Text.ofString

/-- The symbols that may stand between two operands. -/
def betweenSymbols : List Text := ["+", "-"].map Text.ofString ++ operatorSymbols

/-- The lexeme of a symbol in front of an operand. -/
def frontLexeme (symbol : Text) : Lexeme :=
  if symbol = Text.ofString "typeof" then .name symbol
  else if symbol = Text.ofString "!" then .exclamation
  else .sign symbol

/-- The lexeme of a symbol between two operands. -/
def betweenLexeme (symbol : Text) : Lexeme :=
  if symbol ∈ operatorSymbols then .operator symbol else .sign symbol

/-- Whether a name is kept for a literal or an operator. -/
def isReserved (name : Text) : Bool := (["true", "false", "null", "typeof"].map Text.ofString).contains name

namespace Number

/-- Whether a number is one that decimal digits denote exactly. -/
def isCount : Number → Bool
  | whole n => decide (0 ≤ n ∧ n < 2 ^ 53)
  | real _ => false

def digits : Number → Text
  | whole n => Text.ofNat n.toNat
  | real x => x.write

theorem decode_digits {number : Number} (count : number.isCount = true) :
    decodeNumber? number.digits = some number := by
  cases number with
  | real x => cases count
  | whole n =>
    obtain ⟨nonneg, small⟩ := of_decide_eq_true count
    obtain ⟨n, rfl⟩ := Int.eq_ofNat_of_zero_le nonneg
    exact decodeNumber?_ofNat (by omega)

end Number

/-- Lexemes in parentheses, if they are asked for. -/
def enclosed (asked : Bool) (found : List Lexeme) : List Lexeme :=
  if asked then .opening .round :: found ++ [.closing .round] else found

/-- Several parts with commas between them. -/
def separated : List (List Lexeme) → List Lexeme
  | [] => []
  | first :: others => first ++ others.flatMap (Lexeme.comma :: ·)

namespace Node

/-- Whether a node is made of operands, with symbols in front of or between them. -/
def isOperation : Node → Bool
  | unary .. | binary .. | conditional .. => true
  | _ => false

def isSpread : Node → Bool
  | spread .. => true
  | _ => false

/-- Whether a node is an entry of an object. -/
def isEntry : Node → Bool
  | property .. | computedProperty .. | shorthand .. | spread .. => true
  | _ => false

/-- Whether a node may stand where an expression is called for. -/
def isExpression : Node → Bool
  | identifier _ name => !isReserved name
  | node => !node.isEntry

/-- Whether a node may stand in an array or among the arguments of a call. -/
def isItem (node : Node) : Bool := node.isExpression || node.isSpread

def isKey : Node → Bool
  | identifier .. | string .. | number .. => true
  | _ => false

def isIdentifier : Node → Bool
  | identifier .. => true
  | _ => false

def isTemplate : Node → Bool
  | template .. => true
  | _ => false

mutual
/-- Whether the grammar has a tree: its literals, names and operators are ones that can be written, and each part
is of a kind that may stand where it does. -/
def isWellFormed : Node → Bool
  | string .. | boolean .. | null .. => true
  | number _ value => value.isCount
  | identifier _ name | shorthand _ name => isName name
  | template _ raw => isTemplateBody raw
  | object _ entries => entries.all isEntry && areWellFormed entries
  | array _ items => items.all isItem && areWellFormed items
  | property _ key value => key.isKey && key.isWellFormed && (value.isExpression && value.isWellFormed)
  | computedProperty _ key value =>
    key.isExpression && key.isWellFormed && (value.isExpression && value.isWellFormed)
  | spread _ argument => argument.isExpression && argument.isWellFormed
  | member _ target name => target.isExpression && target.isWellFormed && (name.isIdentifier && name.isWellFormed)
  | index _ target key => target.isExpression && target.isWellFormed && (key.isExpression && key.isWellFormed)
  | call _ callee arguments =>
    callee.isExpression && callee.isWellFormed && (arguments.all isItem && areWellFormed arguments)
  | taggedTemplate _ tag quasi => tag.isExpression && tag.isWellFormed && (quasi.isTemplate && quasi.isWellFormed)
  | unary _ operator operand => frontSymbols.contains operator && (operand.isExpression && operand.isWellFormed)
  | binary _ operator left right =>
    betweenSymbols.contains operator &&
      (left.isExpression && left.isWellFormed && (right.isExpression && right.isWellFormed))
  | conditional _ test consequent alternative =>
    test.isExpression && test.isWellFormed &&
      (consequent.isExpression && consequent.isWellFormed && (alternative.isExpression && alternative.isWellFormed))

def areWellFormed : List Node → Bool
  | [] => true
  | node :: rest => node.isWellFormed && areWellFormed rest
end

mutual
/-- The lexemes that a tree is printed as, with parentheses around those expressions that they are asked for. -/
def lexemes (asked : Node → Bool) : Node → List Lexeme
  | string _ value => [.string (Json.quote value)]
  | number _ value => [.number value.digits]
  | boolean _ value => [.name (if value then "true" else "false")]
  | null _ => [.name "null"]
  | identifier _ name | shorthand _ name => [.name name]
  | template _ raw => [.template (templateOf raw)]
  | object _ entries => .opening .curly :: separated (partLexemes asked entries) ++ [.closing .curly]
  | array _ items => .opening .square :: separated (partLexemes asked items) ++ [.closing .square]
  | property _ key value => key.lexemes asked ++ .colon :: enclosed (asked value) (value.lexemes asked)
  | computedProperty _ key value =>
    .opening .square :: enclosed (asked key) (key.lexemes asked) ++
      .closing .square :: .colon :: enclosed (asked value) (value.lexemes asked)
  | spread _ argument => .ellipsis :: enclosed (asked argument) (argument.lexemes asked)
  | member _ target name =>
    enclosed (asked target || target.isOperation) (target.lexemes asked) ++ .dot :: name.lexemes asked
  | index _ target key =>
    enclosed (asked target || target.isOperation) (target.lexemes asked) ++
      .opening .square :: enclosed (asked key) (key.lexemes asked) ++ [.closing .square]
  | call _ callee arguments =>
    enclosed (asked callee || callee.isOperation) (callee.lexemes asked) ++
      .opening .round :: separated (partLexemes asked arguments) ++ [.closing .round]
  | taggedTemplate _ tag quasi =>
    enclosed (asked tag || tag.isOperation) (tag.lexemes asked) ++ quasi.lexemes asked
  | unary _ operator operand =>
    frontLexeme operator :: enclosed (asked operand || operand.isOperation) (operand.lexemes asked)
  | binary _ operator left right =>
    enclosed (asked left || left.isOperation) (left.lexemes asked) ++
      betweenLexeme operator :: enclosed (asked right || right.isOperation) (right.lexemes asked)
  | conditional _ test consequent alternative =>
    enclosed (asked test || test.isOperation) (test.lexemes asked) ++
      .question :: enclosed (asked consequent || consequent.isOperation) (consequent.lexemes asked) ++
        .colon :: enclosed (asked alternative || alternative.isOperation) (alternative.lexemes asked)

def partLexemes (asked : Node → Bool) : List Node → List (List Lexeme)
  | [] => []
  | part :: rest => enclosed (asked part && !part.isEntry) (part.lexemes asked) :: partLexemes asked rest
end

/-- The text of a tree, with a blank between any two lexemes. -/
def print (asked : Node → Bool) (node : Node) : Text :=
  Text.join " " ((node.lexemes asked).map Lexeme.text)

end Node

@[simp] theorem allFit_enclosed (asked : Bool) (found : List Lexeme) :
    AllFit .operand (enclosed asked found) ↔ AllFit .operand found := by
  cases asked <;> simp [enclosed, Lexeme.Fits, Lexeme.next]

theorem awaited_enclosed (asked : Bool) {found : List Lexeme} (complete : awaited .operand found = .operator) :
    awaited .operand (enclosed asked found) = .operator := by
  cases asked
  · exact complete
  · simp [enclosed, Lexeme.next]

theorem allFit_separated {parts : List (List Lexeme)} (fit : ∀ part ∈ parts, AllFit .operand part) :
    AllFit .operand (separated parts) := by
  have behind (awaiting : Awaiting) {others : List (List Lexeme)} (fit : ∀ part ∈ others, AllFit .operand part) :
      AllFit awaiting (others.flatMap (Lexeme.comma :: ·)) := by
    induction others generalizing awaiting with
    | nil => simp
    | cons part others ih =>
      obtain ⟨here, others⟩ := List.forall_mem_cons.mp fit
      simp [Lexeme.Fits, Lexeme.next, here, ih _ others]
  cases parts with
  | nil => exact allFit_nil _
  | cons part others =>
    obtain ⟨here, others⟩ := List.forall_mem_cons.mp fit
    exact (allFit_append _ _ _).mpr ⟨here, behind _ others⟩

theorem frontSymbols_cases {symbol : Text} (front : frontSymbols.contains symbol = true) :
    symbol = Text.ofString "+" ∨ symbol = Text.ofString "-" ∨ symbol = Text.ofString "!" ∨
      symbol = Text.ofString "typeof" := by
  simpa [frontSymbols] using List.contains_iff_mem.mp front

private theorem front_fits {symbol : Text} (front : frontSymbols.contains symbol = true) :
    (frontLexeme symbol).Fits .operand ∧ (frontLexeme symbol).next .operand = .operand := by
  rcases frontSymbols_cases front with rfl | rfl | rfl | rfl
  · exact ⟨.inl rfl, rfl⟩
  · exact ⟨.inr rfl, rfl⟩
  · have front : Awaiting.operand ≠ .operator := by decide
    exact ⟨front, rfl⟩
  · exact ⟨rfl, rfl⟩

private theorem between_fits {symbol : Text} (between : betweenSymbols.contains symbol = true) :
    (betweenLexeme symbol).Fits .operator := by
  unfold betweenLexeme
  split
  · rename_i member
    exact ⟨member, rfl⟩
  · rename_i other
    rcases List.mem_append.mp (List.contains_iff_mem.mp between) with sign | member
    · simpa [Lexeme.Fits] using sign
    · exact absurd member other

private theorem next_between (symbol : Text) (awaiting : Awaiting) :
    (betweenLexeme symbol).next awaiting = .operand := by
  unfold betweenLexeme
  split <;> rfl

/-- Whether the lexemes of a tree fit, and those of an expression let an operator follow. -/
structure FitsPrinted (asked : Node → Bool) (node : Node) : Prop where
  fit : AllFit .operand (node.lexemes asked)
  complete : node.isExpression = true → awaited .operand (node.lexemes asked) = .operator

section

variable {asked : Node → Bool}

attribute [local simp] Node.lexemes

private theorem FitsPrinted.enclosed {node : Node} (fits : FitsPrinted asked node)
    (expression : node.isExpression = true) (parentheses : Bool) :
    AllFit .operand (enclosed parentheses (node.lexemes asked)) ∧
      awaited .operand (enclosed parentheses (node.lexemes asked)) = .operator :=
  ⟨(allFit_enclosed _ _).mpr fits.fit, awaited_enclosed _ (fits.complete expression)⟩

private theorem next_name {name : Text} (unreserved : isReserved name = false) (awaiting : Awaiting) :
    (Lexeme.name name).next awaiting = .operator := by
  have other : name ≠ Text.ofString "typeof" := by
    rintro rfl
    exact absurd unreserved (by decide)
  exact if_neg fun same => other same.1

namespace FitsPrinted

variable {node : Node}

theorem of_complete (fit : AllFit .operand (node.lexemes asked))
    (complete : awaited .operand (node.lexemes asked) = .operator) : FitsPrinted asked node :=
  ⟨fit, fun _ => complete⟩

theorem of_entry (entry : node.isExpression = false) (fit : AllFit .operand (node.lexemes asked)) :
    FitsPrinted asked node where
  fit := fit
  complete expression := by
    rw [entry] at expression
    cases expression

theorem number (span : Span) {value : Number} (count : value.isCount = true) :
    FitsPrinted asked (.number span value) := by
  cases value with
  | real x => cases count
  | whole n => exact .of_complete ⟨⟨n.toNat, rfl⟩, trivial⟩ rfl

theorem object (span : Span) {entries : List Node}
    (fit : ∀ part ∈ Node.partLexemes asked entries, AllFit .operand part) :
    FitsPrinted asked (.object span entries) := by
  have parts := allFit_separated fit
  refine .of_complete ?_ ?_
  · simp [Lexeme.Fits, Lexeme.next, parts]
  · simp [Lexeme.next]

theorem array (span : Span) {items : List Node}
    (fit : ∀ part ∈ Node.partLexemes asked items, AllFit .operand part) : FitsPrinted asked (.array span items) := by
  have parts := allFit_separated fit
  refine .of_complete ?_ ?_
  · simp [Lexeme.Fits, Lexeme.next, parts]
  · simp [Lexeme.next]

theorem call (span : Span) {callee : Node} {arguments : List Node} (fits : FitsPrinted asked callee)
    (fit : ∀ part ∈ Node.partLexemes asked arguments, AllFit .operand part) :
    FitsPrinted asked (.call span callee arguments) := by
  have parts := allFit_separated fit
  refine .of_complete ?_ ?_
  · simp [Lexeme.Fits, Lexeme.next, fits.fit, parts]
  · simp [Lexeme.next]

theorem index (span : Span) {target key : Node} (fits : FitsPrinted asked target) (keyFits : FitsPrinted asked key) :
    FitsPrinted asked (.index span target key) := by
  refine .of_complete ?_ ?_
  · simp [Lexeme.Fits, Lexeme.next, fits.fit, keyFits.fit]
  · simp [Lexeme.next]

theorem member (span : Span) {target name : Node} (fits : FitsPrinted asked target)
    (identifier : name.isIdentifier = true) (formed : name.isWellFormed = true) :
    FitsPrinted asked (.member span target name) := by
  cases name with
  | identifier _ name =>
    have nameFits : isName name = true := formed
    refine .of_complete ?_ ?_
    · simp [Lexeme.Fits, Lexeme.next, fits.fit, nameFits]
    · simp [Lexeme.next]
  | _ => cases identifier

theorem taggedTemplate (span : Span) {tag quasi : Node} (fits : FitsPrinted asked tag)
    (template : quasi.isTemplate = true) (formed : quasi.isWellFormed = true) :
    FitsPrinted asked (.taggedTemplate span tag quasi) := by
  cases quasi with
  | template _ raw =>
    have bodyFits : (Lexeme.template (templateOf raw)).Fits (awaited .operand
        (Expression.enclosed (asked tag || tag.isOperation) (tag.lexemes asked))) := ⟨raw, formed, rfl⟩
    refine .of_complete ?_ ?_
    · simp [fits.fit, bodyFits]
    · simp [Lexeme.next]
  | _ => cases template

theorem unary (span : Span) {operator : Text} {operand : Node} (front : frontSymbols.contains operator = true)
    (fits : FitsPrinted asked operand) (expression : operand.isExpression = true) :
    FitsPrinted asked (.unary span operator operand) := by
  obtain ⟨fit, complete⟩ := fits.enclosed expression (asked operand || operand.isOperation)
  obtain ⟨symbolFits, symbolNext⟩ := front_fits front
  refine .of_complete ?_ ?_
  · rw [Node.lexemes, allFit_cons, symbolNext]
    exact ⟨symbolFits, fit⟩
  · rw [Node.lexemes, awaited_cons, symbolNext, complete]

theorem binary (span : Span) {operator : Text} {left right : Node} (between : betweenSymbols.contains operator = true)
    (fits : FitsPrinted asked left) (expression : left.isExpression = true) (fits' : FitsPrinted asked right)
    (expression' : right.isExpression = true) : FitsPrinted asked (.binary span operator left right) := by
  have leftFits := fits.enclosed expression (asked left || left.isOperation)
  have rightFits := fits'.enclosed expression' (asked right || right.isOperation)
  refine .of_complete ?_ ?_
  · simp [between_fits between, next_between, leftFits, fits'.fit]
  · simp [next_between, rightFits]

theorem conditional (span : Span) {test consequent alternative : Node} (testFits : FitsPrinted asked test)
    (consequentFits : FitsPrinted asked consequent) (fits : FitsPrinted asked alternative)
    (expression : alternative.isExpression = true) :
    FitsPrinted asked (.conditional span test consequent alternative) := by
  have complete := (fits.enclosed expression (asked alternative || alternative.isOperation)).2
  refine .of_complete ?_ ?_
  · simp [Lexeme.Fits, Lexeme.next, testFits.fit, consequentFits.fit, fits.fit]
  · simp [Lexeme.next, complete]

end FitsPrinted

mutual
theorem Node.fits_lexemes : ∀ {node : Node}, node.isWellFormed = true → FitsPrinted asked node
  | .string _ value, _ => .of_complete ⟨⟨value, rfl⟩, trivial⟩ rfl
  | .number span _, count => .number span count
  | .boolean _ value, _ => by cases value <;> exact .of_complete ⟨rfl, trivial⟩ rfl
  | .null _, _ => .of_complete ⟨rfl, trivial⟩ rfl
  | .identifier _ name, wellFormed => by
    refine ⟨⟨wellFormed, trivial⟩, fun expression => ?_⟩
    exact next_name (by simpa [Node.isExpression] using expression) _
  | .shorthand _ name, wellFormed => .of_entry rfl ⟨wellFormed, trivial⟩
  | .template _ raw, wellFormed => .of_complete ⟨⟨raw, wellFormed, rfl⟩, trivial⟩ rfl
  | .object span entries, wellFormed => by
    obtain ⟨-, others⟩ := Bool.and_eq_true_iff.mp wellFormed
    exact .object span (Node.partLexemes_fit others)
  | .array span items, wellFormed => by
    obtain ⟨-, others⟩ := Bool.and_eq_true_iff.mp wellFormed
    exact .array span (Node.partLexemes_fit others)
  | .property _ key value, wellFormed => by
    simp only [Node.isWellFormed, Bool.and_eq_true] at wellFormed
    obtain ⟨⟨-, keyFormed⟩, -, valueFormed⟩ := wellFormed
    have keyFits := (Node.fits_lexemes keyFormed).fit
    have valueFits := (Node.fits_lexemes valueFormed).fit
    exact .of_entry rfl (by simp [Lexeme.Fits, Lexeme.next, keyFits, valueFits])
  | .computedProperty _ key value, wellFormed => by
    simp only [Node.isWellFormed, Bool.and_eq_true] at wellFormed
    obtain ⟨⟨-, keyFormed⟩, -, valueFormed⟩ := wellFormed
    have keyFits := (Node.fits_lexemes keyFormed).fit
    have valueFits := (Node.fits_lexemes valueFormed).fit
    exact .of_entry rfl (by simp [Lexeme.Fits, Lexeme.next, keyFits, valueFits])
  | .spread _ argument, wellFormed => by
    obtain ⟨-, formed⟩ := Bool.and_eq_true_iff.mp wellFormed
    have fits := (Node.fits_lexemes formed).fit
    exact .of_entry rfl (by simp [Lexeme.Fits, Lexeme.next, fits])
  | .member span target name, wellFormed => by
    simp only [Node.isWellFormed, Bool.and_eq_true] at wellFormed
    obtain ⟨⟨-, targetFormed⟩, identifier, nameFormed⟩ := wellFormed
    exact .member span (Node.fits_lexemes targetFormed) identifier nameFormed
  | .index span target key, wellFormed => by
    simp only [Node.isWellFormed, Bool.and_eq_true] at wellFormed
    obtain ⟨⟨-, targetFormed⟩, -, keyFormed⟩ := wellFormed
    exact .index span (Node.fits_lexemes targetFormed) (Node.fits_lexemes keyFormed)
  | .call span callee arguments, wellFormed => by
    simp only [Node.isWellFormed, Bool.and_eq_true] at wellFormed
    obtain ⟨⟨-, calleeFormed⟩, -, others⟩ := wellFormed
    exact .call span (Node.fits_lexemes calleeFormed) (Node.partLexemes_fit others)
  | .taggedTemplate span tag quasi, wellFormed => by
    simp only [Node.isWellFormed, Bool.and_eq_true] at wellFormed
    obtain ⟨⟨-, tagFormed⟩, template, quasiFormed⟩ := wellFormed
    exact .taggedTemplate span (Node.fits_lexemes tagFormed) template quasiFormed
  | .unary span operator operand, wellFormed => by
    simp only [Node.isWellFormed, Bool.and_eq_true] at wellFormed
    obtain ⟨front, expression, formed⟩ := wellFormed
    exact .unary span front (Node.fits_lexemes formed) expression
  | .binary span operator left right, wellFormed => by
    simp only [Node.isWellFormed, Bool.and_eq_true] at wellFormed
    obtain ⟨between, ⟨leftExpression, leftFormed⟩, rightExpression, rightFormed⟩ := wellFormed
    exact .binary span between (Node.fits_lexemes leftFormed) leftExpression (Node.fits_lexemes rightFormed)
      rightExpression
  | .conditional span test consequent alternative, wellFormed => by
    simp only [Node.isWellFormed, Bool.and_eq_true] at wellFormed
    obtain ⟨⟨-, testFormed⟩, ⟨-, consequentFormed⟩, expression, alternativeFormed⟩ := wellFormed
    exact .conditional span (Node.fits_lexemes testFormed) (Node.fits_lexemes consequentFormed)
      (Node.fits_lexemes alternativeFormed) expression

theorem Node.partLexemes_fit : ∀ {nodes : List Node}, areWellFormed nodes = true →
    ∀ part ∈ partLexemes asked nodes, AllFit .operand part
  | [], _ => by simp [partLexemes]
  | node :: rest, wellFormed => by
    obtain ⟨here, others⟩ := Bool.and_eq_true_iff.mp wellFormed
    exact List.forall_mem_cons.mpr
      ⟨(allFit_enclosed _ _).mpr (Node.fits_lexemes here).fit, Node.partLexemes_fit others⟩
end

theorem lexemes_print {node : Node} (wellFormed : node.isWellFormed = true) :
    lexemes .operand (node.print asked) = node.lexemes asked :=
  lexemes_join (Node.fits_lexemes wellFormed).fit

end

end StaticStyle.Expression
