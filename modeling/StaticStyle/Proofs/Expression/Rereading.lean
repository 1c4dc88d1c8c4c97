import StaticStyle.Proofs.Expression.Place
import StaticStyle.Proofs.Expression.Printing

namespace StaticStyle.Expression

/-- A lexeme that stands nowhere. -/
def Lexeme.token (lexeme : Lexeme) : Token := ⟨lexeme, .nowhere⟩

/-- The state of the parser behind some lexemes. -/
def run (state : Stack × Phase) (found : List Lexeme) : Option (Stack × Phase) :=
  found.foldlM (fun state lexeme => step state.1 state.2 lexeme.token) state

/-- Whether some lexemes are read as an operand, on every stack. -/
def Reads (found : List Lexeme) (node : Node) : Prop :=
  ∀ stack, run (stack, .operand) found = some (stack, .extension node)

/-- Whether no operator at the top of a stack waits for its operand. -/
def Delimited (stack : Stack) : Prop := ∀ node, reduce stack node = (stack, node)

/-- Whether some lexemes are read as an expression, which its end may have to complete. -/
def Yields (found : List Lexeme) (node : Node) : Prop :=
  ∀ stack, Delimited stack → ∃ stack' node', run (stack, .operand) found = some (stack', .extension node') ∧
    settle stack' node' = settle stack node

/-- Whether a comma or a closing bracket is taken in a state as it is behind an expression. -/
def Ends (state : Stack × Phase) (stack : Stack) (node : Node) : Prop :=
  ∀ lexeme : Lexeme, (lexeme = .comma ∨ ∃ bracket, lexeme = .closing bracket) →
    step state.1 state.2 lexeme.token = endExpression stack node lexeme.token

section Run

variable {state : Stack × Phase} {stack stack' : Stack} {found first second : List Lexeme} {lexeme : Lexeme}
  {node node' : Node}

@[simp] theorem run_nil : run state [] = some state := rfl

@[simp] theorem run_cons : run state (lexeme :: found) = (step state.1 state.2 lexeme.token).bind (run · found) := rfl

@[simp] theorem run_append : run state (first ++ second) = (run state first).bind (run · second) := by
  simp [run, List.foldlM_append]

theorem parseTokens_run {last : Position} {phase : Phase}
    (taken : run (stack, phase) found = some (stack', .extension node)) (settled : settle stack' node = ([], node')) :
    parseTokens last stack phase (found.map Lexeme.token) = .ok node' := by
  induction found generalizing last stack phase with
  | nil =>
    obtain ⟨rfl, rfl⟩ := Prod.mk.inj (Option.some.inj taken)
    simp [parseTokens, settled]
  | cons lexeme found ih =>
    rw [run_cons] at taken
    obtain ⟨⟨stack, phase⟩, stepped, taken⟩ := Option.bind_eq_some_iff.mp taken
    rw [List.map_cons, parseTokens, stepped]
    exact ih taken

theorem endExpression_congr (same : settle stack' node' = settle stack node) (token : Token) :
    endExpression stack' node' token = endExpression stack node token := by
  rw [endExpression, endExpression, same]

theorem Ends.of_settle (same : settle stack' node' = settle stack node) :
    Ends (stack', .extension node') stack node := by
  rintro lexeme (rfl | ⟨bracket, rfl⟩)
  all_goals exact endExpression_congr same _

theorem delimited_nil : Delimited [] := fun _ => rfl

theorem Reads.yields (reads : Reads found node) : Yields found node :=
  fun stack _ => ⟨stack, node, reads stack, rfl⟩

/-- Parentheses complete an expression. -/
theorem Yields.enclosed (yields : Yields found node) : Reads (enclosed true found) node := by
  intro stack
  obtain ⟨stack', node', taken, settled⟩ := yields (.group :: stack) fun _ => rfl
  have opened : step stack .operand (Lexeme.opening .round).token = some (.group :: stack, .operand) := rfl
  have closed : step stack' (.extension node') (Lexeme.closing .round).token = some (stack, .extension node) :=
    endExpression_congr settled _
  simp [Expression.enclosed, opened, taken, closed]

theorem Yields.front {symbol : Text} (front : frontSymbols.contains symbol = true) (reads : Reads found node)
    (placed : node.span = .nowhere) : Yields (frontLexeme symbol :: found) (.unary .nowhere symbol node) := by
  intro stack _
  have opened : step stack .operand (frontLexeme symbol).token = some (.unary symbol .nowhere :: stack, .operand) := by
    rcases frontSymbols_cases front with rfl | rfl | rfl | rfl <;> rfl
  refine ⟨.unary symbol .nowhere :: stack, node, ?_, ?_⟩
  · rw [run_cons, opened]
    exact reads _
  · rw [settle, placed, Span.through_nowhere]

theorem Yields.between {symbol : Text} {left : Node} (reads : Reads first left) (reads' : Reads second node)
    (placed : left.span = .nowhere) (placed' : node.span = .nowhere) :
    Yields (first ++ betweenLexeme symbol :: second) (.binary .nowhere symbol left node) := by
  intro stack delimited
  have joined : step stack (.extension left) (betweenLexeme symbol).token =
      some (.binary left symbol :: stack, .operand) := by
    unfold betweenLexeme
    split <;> simp [step, extend, Lexeme.token, delimited left]
  refine ⟨.binary left symbol :: stack, node, ?_, ?_⟩
  · simp [reads stack, joined, reads' _]
  · rw [settle, placed, placed', Span.through_nowhere]

theorem Yields.conditional {third : List Lexeme} {test consequent : Node} (reads : Reads first test)
    (reads' : Reads second consequent) (reads'' : Reads third node) (placed : test.span = .nowhere)
    (placed' : node.span = .nowhere) :
    Yields (first ++ .question :: second ++ .colon :: third) (.conditional .nowhere test consequent node) := by
  intro stack delimited
  have asked : step stack (.extension test) Lexeme.question.token = some (.test test :: stack, .operand) := by
    simp [step, extend, Lexeme.token, delimited test]
  have chosen : step (.test test :: stack) (.extension consequent) Lexeme.colon.token =
      some (.alternative test consequent :: stack, .operand) := rfl
  refine ⟨.alternative test consequent :: stack, node, ?_, ?_⟩
  · simp [reads stack, asked, reads' _, chosen, reads'' _]
  · rw [settle, placed, placed', Span.through_nowhere]

theorem Reads.member {target : Node} (reads : Reads found target) (placed : target.span = .nowhere) (name : Text) :
    Reads (found ++ [.dot, .name name]) (.member .nowhere target (.identifier .nowhere name)) := by
  intro stack
  have pointed : step stack (.extension target) Lexeme.dot.token = some (stack, .memberName target) := rfl
  have named : step stack (.memberName target) (Lexeme.name name).token =
      some (stack, .extension (.member (target.span.through .nowhere) target (.identifier .nowhere name))) := rfl
  simp [reads stack, pointed, named, placed]

theorem Reads.index {target : Node} (reads : Reads first target) (yields : Yields second node)
    (placed : target.span = .nowhere) :
    Reads (first ++ .opening .square :: second ++ [.closing .square]) (.index .nowhere target node) := by
  intro stack
  obtain ⟨stack', node', taken, settled⟩ := yields (.index target :: stack) fun _ => rfl
  have opened : step stack (.extension target) (Lexeme.opening .square).token =
      some (.index target :: stack, .operand) := rfl
  have closed : step stack' (.extension node') (Lexeme.closing .square).token =
      some (stack, .extension (.index (target.span.through .nowhere) target node)) :=
    endExpression_congr settled _
  simp [reads stack, opened, taken, closed, placed]

theorem Reads.taggedTemplate {tag : Node} (reads : Reads found tag) (placed : tag.span = .nowhere) (body : Text) :
    Reads (found ++ [.template (templateOf body)]) (.taggedTemplate .nowhere tag (.template .nowhere body)) := by
  intro stack
  have inner : ofTemplate .nowhere (templateOf body) = .template .nowhere body :=
    congrArg (Node.template .nowhere) List.dropLast_concat
  have tagged : step stack (.extension tag) (Lexeme.template (templateOf body)).token =
      some (stack, .extension (.taggedTemplate (tag.span.through .nowhere) tag
        (ofTemplate .nowhere (templateOf body)))) := rfl
  simp [reads stack, tagged, placed, inner]

end Run

/-- A list that is being read: what it is a part of, apart from its parts. -/
inductive Series where
  | array
  | call (callee : Node)
  | object

namespace Series

def bracket : Series → Bracket
  | array => .square
  | call _ => .round
  | object => .curly

/-- What a part begins with. -/
def phase : Series → Phase
  | array | call _ => .operand
  | object => .entry

def frame (parts : List Node) : Series → Frame
  | array => .array .nowhere parts
  | call callee => .call callee parts
  | object => .object .nowhere parts

def node (parts : List Node) : Series → Node
  | array => .array .nowhere parts
  | call callee => .call .nowhere callee parts
  | object => .object .nowhere parts

/-- Whether the list may have a node as a part. -/
def admits : Series → Node → Bool
  | array, part | call _, part => part.isItem
  | object, part => part.isEntry

/-- Whether what is called stands nowhere. -/
def Placed : Series → Prop
  | call callee => callee.span = .nowhere
  | _ => True

/-- Whether some lexemes are read as a part of the list, whatever its parts in front are. -/
def Takes (series : Series) (found : List Lexeme) (part : Node) : Prop :=
  ∀ parts stack, ∃ state, run (series.frame parts :: stack, series.phase) found = some state ∧
    Ends state (series.frame parts :: stack) part

variable {series : Series} {found : List Lexeme} {others : List (List Lexeme)} {part : Node} {nodes : List Node}

theorem delimited_frame (series : Series) (parts : List Node) (stack : Stack) :
    Delimited (series.frame parts :: stack) := by
  cases series <;> exact fun _ => rfl

private theorem endExpression_comma (parts : List Node) (stack : Stack) (part : Node) :
    endExpression (series.frame parts :: stack) part Lexeme.comma.token =
      some (series.frame (parts ++ [part]) :: stack, series.phase) := by
  cases series <;> rfl

private theorem node_call {callee : Node} (placed : callee.span = .nowhere) (parts : List Node) :
    (call callee).node parts = .call (callee.span.through .nowhere) callee parts := by
  rw [placed, Span.through_nowhere]
  rfl

private theorem endExpression_closing (placed : series.Placed)
    (parts : List Node) (stack : Stack) (part : Node) :
    endExpression (series.frame parts :: stack) part (Lexeme.closing series.bracket).token =
      some (stack, .extension (series.node (parts ++ [part]))) := by
  cases series with
  | array | object => rfl
  | call callee =>
    rw [node_call placed]
    rfl

private theorem step_closing (placed : series.Placed)
    (parts : List Node) (stack : Stack) :
    step (series.frame parts :: stack) series.phase (Lexeme.closing series.bracket).token =
      some (stack, .extension (series.node parts)) := by
  cases series with
  | array | object => rfl
  | call callee =>
    rw [node_call placed]
    rfl

private theorem run_others (placed : series.Placed)
    (takes : List.Forall₂ series.Takes others nodes) {state : Stack × Phase} {parts : List Node} {stack : Stack}
    (ends : Ends state (series.frame parts :: stack) part) :
    run state (others.flatMap (Lexeme.comma :: ·) ++ [.closing series.bracket]) =
      some (stack, .extension (series.node (parts ++ part :: nodes))) := by
  induction takes generalizing state parts part with
  | nil =>
    have closed := (ends _ (.inr ⟨series.bracket, rfl⟩)).trans (endExpression_closing placed parts stack part)
    simp [closed]
  | @cons found next others nodes first _ ih =>
    have further := (ends _ (.inl rfl)).trans (endExpression_comma parts stack part)
    obtain ⟨state', taken, ends'⟩ := first (parts ++ [part]) stack
    have rest := ih ends'
    rw [List.append_assoc, List.singleton_append] at rest
    simp [further, taken, ← rest]

/-- The parts of a list are taken one by one, up to the bracket that closes it. -/
theorem run_separated (placed : series.Placed)
    (takes : List.Forall₂ series.Takes others nodes) (stack : Stack) :
    run (series.frame [] :: stack, series.phase) (separated others ++ [.closing series.bracket]) =
      some (stack, .extension (series.node nodes)) := by
  cases takes with
  | nil => simp [separated, step_closing placed]
  | @cons found part others nodes first takes =>
    obtain ⟨state, taken, ends⟩ := first [] stack
    rw [separated, List.append_assoc, run_append, taken]
    exact run_others placed takes ends

theorem takes_expression {found : List Lexeme} (operand : series.phase = .operand) (yields : Yields found part) :
    series.Takes found part := by
  intro parts stack
  obtain ⟨stack', node', taken, settled⟩ := yields _ (series.delimited_frame parts stack)
  exact ⟨_, operand ▸ taken, Ends.of_settle settled⟩

theorem takes_spread (series : Series) (yields : Yields found part) (placed : part.span = .nowhere) :
    series.Takes (.ellipsis :: found) (.spread .nowhere part) := by
  intro parts stack
  obtain ⟨stack', node', taken, settled⟩ := yields (.spread .nowhere :: series.frame parts :: stack) fun _ => rfl
  have opened : step (series.frame parts :: stack) series.phase Lexeme.ellipsis.token =
      some (.spread .nowhere :: series.frame parts :: stack, .operand) := by
    cases series <;> rfl
  refine ⟨(stack', .extension node'), ?_, Ends.of_settle (settled.trans ?_)⟩
  · rw [run_cons, opened]
    exact taken
  · rw [settle, placed, Span.through_nowhere]

theorem takes_shorthand (name : Text) : object.Takes [.name name] (.shorthand .nowhere name) := by
  intro parts stack
  refine ⟨(object.frame parts :: stack, .key (.identifier .nowhere name) (some (.shorthand .nowhere name))), rfl, ?_⟩
  rintro lexeme (rfl | ⟨bracket, rfl⟩)
  · rfl
  · cases bracket <;> rfl

theorem takes_property {key : Node} {shorthand : Option Node} {front : List Lexeme}
    (named : ∀ parts stack, run (object.frame parts :: stack, .entry) front =
      some (object.frame parts :: stack, .key key shorthand))
    (yields : Yields found part) (keyPlaced : key.span = .nowhere) (placed : part.span = .nowhere) :
    object.Takes (front ++ .colon :: found) (.property .nowhere key part) := by
  intro parts stack
  obtain ⟨stack', node', taken, settled⟩ := yields (.propertyValue key :: object.frame parts :: stack) fun _ => rfl
  have opened : step (object.frame parts :: stack) (.key key shorthand) Lexeme.colon.token =
      some (.propertyValue key :: object.frame parts :: stack, .operand) := rfl
  refine ⟨(stack', .extension node'), ?_, Ends.of_settle (settled.trans ?_)⟩
  · simp [phase, named, opened, taken]
  · rw [settle, keyPlaced, placed, Span.through_nowhere]

theorem takes_computedProperty {key : Node} {front : List Lexeme} (keyYields : Yields front key)
    (yields : Yields found part) (placed : part.span = .nowhere) :
    object.Takes (.opening .square :: front ++ .closing .square :: .colon :: found)
      (.computedProperty .nowhere key part) := by
  intro parts stack
  obtain ⟨stack', node', keyTaken, keySettled⟩ :=
    keyYields (.computedKey .nowhere :: object.frame parts :: stack) fun _ => rfl
  obtain ⟨stack'', node'', taken, settled⟩ :=
    yields (.computedValue .nowhere key :: object.frame parts :: stack) fun _ => rfl
  have opened : step (object.frame parts :: stack) .entry (Lexeme.opening .square).token =
      some (.computedKey .nowhere :: object.frame parts :: stack, .operand) := rfl
  have closed : step stack' (.extension node') (Lexeme.closing .square).token =
      some (object.frame parts :: stack, .computedKey .nowhere key) :=
    endExpression_congr keySettled _
  have valued : step (object.frame parts :: stack) (.computedKey .nowhere key) Lexeme.colon.token =
      some (.computedValue .nowhere key :: object.frame parts :: stack, .operand) := rfl
  refine ⟨(stack'', .extension node''), ?_, Ends.of_settle (settled.trans ?_)⟩
  · simp [phase, opened, keyTaken, closed, valued, taken]
  · rw [settle, placed, Span.through_nowhere]

theorem reads {front : List Lexeme} (placed : series.Placed) (takes : List.Forall₂ series.Takes others nodes)
    (opened : ∀ stack, run (stack, .operand) front = some (series.frame [] :: stack, series.phase)) :
    Reads (front ++ separated others ++ [.closing series.bracket]) (series.node nodes) := by
  intro stack
  rw [List.append_assoc, run_append, opened, Option.bind_some, run_separated placed takes]

end Series

/-- Whether the lexemes of a printed tree are read as the tree, wherever it may stand. -/
structure Reread (asked : Node → Bool) (node : Node) : Prop where
  yields : node.isExpression = true → Yields (node.lexemes asked) node.unplaced
  reads : node.isExpression = true → node.isOperation = false → Reads (node.lexemes asked) node.unplaced
  takes : node.isEntry = true → ∀ series : Series, series.admits node = true →
    series.Takes (node.lexemes asked) node.unplaced

namespace Reread

variable {asked : Node → Bool} {node : Node}

theorem operand (reread : Reread asked node) (expression : node.isExpression = true) :
    Reads (enclosed (asked node || node.isOperation) (node.lexemes asked)) node.unplaced := by
  cases parentheses : asked node || node.isOperation with
  | true => exact (reread.yields expression).enclosed
  | false => exact reread.reads expression (Bool.or_eq_false_iff.mp parentheses).2

theorem nested (reread : Reread asked node) (expression : node.isExpression = true) :
    Yields (enclosed (asked node) (node.lexemes asked)) node.unplaced := by
  cases asked node with
  | true => exact (reread.yields expression).enclosed.yields
  | false => exact reread.yields expression

theorem part (reread : Reread asked node) {series : Series} (admitted : series.admits node = true) :
    series.Takes (enclosed (asked node && !node.isEntry) (node.lexemes asked)) node.unplaced := by
  cases entry : node.isEntry with
  | true =>
    rw [Bool.not_true, Bool.and_false]
    exact reread.takes entry series admitted
  | false =>
    have item : node.isSpread = false := by cases node <;> first | rfl | cases entry
    have expression : series.phase = .operand ∧ node.isExpression = true := by
      cases series <;> simp_all [Series.admits, Series.phase, Node.isItem]
    rw [Bool.not_false, Bool.and_true]
    exact Series.takes_expression expression.1 (reread.nested expression.2)

theorem of_reads (other : node.isEntry = false)
    (reads : node.isExpression = true → Reads (node.lexemes asked) node.unplaced) : Reread asked node where
  yields expression := (reads expression).yields
  reads expression _ := reads expression
  takes entry := by simp [other] at entry

theorem of_yields (other : node.isEntry = false) (operation : node.isOperation = true)
    (yields : Yields (node.lexemes asked) node.unplaced) : Reread asked node where
  yields _ := yields
  reads _ simple := by simp [operation] at simple
  takes entry := by simp [other] at entry

theorem of_takes (entry : node.isEntry = true)
    (takes : ∀ series : Series, series.admits node = true → series.Takes (node.lexemes asked) node.unplaced) :
    Reread asked node := by
  have other : node.isExpression = false := by cases node <;> first | rfl | cases entry
  exact ⟨by simp [other], by simp [other], fun _ => takes⟩

end Reread

private theorem ofString_quote (span : Span) (value : Text) :
    ofString span (Json.quote value) = .string span value := by
  rw [ofString, decodeString_quote]
  rfl

private theorem ofNumber_digits {value : Number} (count : value.isCount = true) (span : Span) :
    ofNumber span value.digits = .number span value := by
  rw [ofNumber, Number.decode_digits count]
  rfl

private theorem ofName_unreserved {name : Text} (unreserved : isReserved name = false) (span : Span) :
    ofName span name = .identifier span name ∧ name ≠ Text.ofString "typeof" := by
  simp only [isReserved, List.map_cons, List.map_nil, List.contains_eq_mem, decide_eq_false_iff_not, List.mem_cons,
    List.not_mem_nil, or_false, not_or] at unreserved
  obtain ⟨noTrue, noFalse, noNull, noTypeof⟩ := unreserved
  exact ⟨by rw [ofName, if_neg noTrue, if_neg noFalse, if_neg noNull], noTypeof⟩

section

variable {asked : Node → Bool}

private theorem run_key (asked : Node → Bool) {key : Node} (isKey : key.isKey = true)
    (wellFormed : key.isWellFormed = true) :
    ∃ shorthand, ∀ stack, run (stack, .entry) (key.lexemes asked) = some (stack, .key key.unplaced shorthand) := by
  cases key with
  | identifier _ name => exact ⟨some (.shorthand .nowhere name), fun _ => rfl⟩
  | string _ value =>
    refine ⟨none, fun stack => ?_⟩
    have read : run (stack, .entry) [.string (Json.quote value)] =
        some (stack, .key (ofString .nowhere (Json.quote value)) none) := rfl
    rw [Node.lexemes, read, ofString_quote]
    rfl
  | number _ value =>
    refine ⟨none, fun stack => ?_⟩
    have read : run (stack, .entry) [.number value.digits] =
        some (stack, .key (ofNumber .nowhere value.digits) none) := rfl
    rw [Node.lexemes, read, ofNumber_digits wellFormed]
    rfl
  | _ => cases isKey

namespace Reread

theorem string (span : Span) (value : Text) : Reread asked (.string span value) := by
  refine .of_reads rfl fun _ stack => ?_
  have read : run (stack, .operand) [.string (Json.quote value)] =
      some (stack, .extension (ofString .nowhere (Json.quote value))) := rfl
  rw [Node.lexemes, read, ofString_quote]
  rfl

theorem number (span : Span) {value : Number} (count : value.isCount = true) : Reread asked (.number span value) := by
  refine .of_reads rfl fun _ stack => ?_
  have read : run (stack, .operand) [.number value.digits] =
      some (stack, .extension (ofNumber .nowhere value.digits)) := rfl
  rw [Node.lexemes, read, ofNumber_digits count]
  rfl

theorem identifier (span : Span) (name : Text) : Reread asked (.identifier span name) := by
  refine .of_reads rfl fun expression stack => ?_
  have unreserved : isReserved name = false := by simpa [Node.isExpression] using expression
  obtain ⟨read, noTypeof⟩ := ofName_unreserved unreserved .nowhere
  simp [Node.lexemes, step, beginOperand, Lexeme.token, noTypeof, read, Node.unplaced]

theorem template (span : Span) (raw : Text) : Reread asked (.template span raw) := by
  refine .of_reads rfl fun _ stack => ?_
  have inner : ofTemplate .nowhere (templateOf raw) = .template .nowhere raw :=
    congrArg (Node.template .nowhere) List.dropLast_concat
  have read : run (stack, .operand) [.template (templateOf raw)] =
      some (stack, .extension (ofTemplate .nowhere (templateOf raw))) := rfl
  rw [Node.lexemes, read, inner]
  rfl

theorem object (span : Span) {entries : List Node}
    (takes : List.Forall₂ Series.object.Takes (Node.partLexemes asked entries) (unplacedNodes entries)) :
    Reread asked (.object span entries) := by
  have opened (stack : Stack) :
      run (stack, .operand) [.opening .curly] = some (Series.object.frame [] :: stack, .entry) := rfl
  have placed : Series.object.Placed := trivial
  exact .of_reads rfl fun _ => Series.reads placed takes opened

theorem array (span : Span) {items : List Node}
    (takes : List.Forall₂ Series.array.Takes (Node.partLexemes asked items) (unplacedNodes items)) :
    Reread asked (.array span items) := by
  have opened (stack : Stack) :
      run (stack, .operand) [.opening .square] = some (Series.array.frame [] :: stack, .operand) := rfl
  have placed : Series.array.Placed := trivial
  exact .of_reads rfl fun _ => Series.reads placed takes opened

theorem call (span : Span) {callee : Node} {arguments : List Node} (reread : Reread asked callee)
    (expression : callee.isExpression = true)
    (takes : List.Forall₂ (Series.call callee.unplaced).Takes (Node.partLexemes asked arguments)
      (unplacedNodes arguments)) : Reread asked (.call span callee arguments) := by
  have opened (stack : Stack) :
      run (stack, .operand)
          (enclosed (asked callee || callee.isOperation) (callee.lexemes asked) ++ [.opening .round]) =
        some ((Series.call callee.unplaced).frame [] :: stack, .operand) := by
    rw [run_append, reread.operand expression stack]
    rfl
  have placed : (Series.call callee.unplaced).Placed := Node.span_unplaced callee
  have reads := Series.reads placed takes opened
  rw [List.append_assoc (enclosed _ _), List.singleton_append] at reads
  exact .of_reads rfl fun _ => reads

/-- Only objects have entries. -/
theorem of_entry (entry : node.isEntry = true) (noItem : node.isItem = false)
    (takes : Series.object.Takes (node.lexemes asked) node.unplaced) : Reread asked node := by
  refine .of_takes entry fun series admitted => ?_
  cases series with
  | object => exact takes
  | array | call callee =>
    rw [Series.admits, noItem] at admitted
    cases admitted

theorem property (span : Span) {key value : Node} (isKey : key.isKey = true) (keyFormed : key.isWellFormed = true)
    (reread : Reread asked value) (expression : value.isExpression = true) :
    Reread asked (.property span key value) := by
  obtain ⟨shorthand, named⟩ := run_key asked isKey keyFormed
  exact .of_entry rfl rfl (Series.takes_property (fun _ _ => named _) (reread.nested expression)
    (Node.span_unplaced key) (Node.span_unplaced value))

theorem member (span : Span) {target name : Node} (reread : Reread asked target)
    (expression : target.isExpression = true) (identifier : name.isIdentifier = true) :
    Reread asked (.member span target name) := by
  have targetReads := reread.operand expression
  cases name with
  | identifier _ name => exact .of_reads rfl fun _ => targetReads.member (Node.span_unplaced _) name
  | _ => cases identifier

theorem taggedTemplate (span : Span) {tag quasi : Node} (reread : Reread asked tag)
    (expression : tag.isExpression = true) (template : quasi.isTemplate = true) :
    Reread asked (.taggedTemplate span tag quasi) := by
  have tagReads := reread.operand expression
  cases quasi with
  | template _ body => exact .of_reads rfl fun _ => tagReads.taggedTemplate (Node.span_unplaced _) body
  | _ => cases template

end Reread

mutual
theorem Node.reread : ∀ {node : Node}, node.isWellFormed = true → Reread asked node
  | .string span value, _ => .string span value
  | .number span _, count => .number span count
  | .boolean _ value, _ => .of_reads rfl fun _ stack => by cases value <;> rfl
  | .null _, _ => .of_reads rfl fun _ stack => rfl
  | .identifier span name, _ => .identifier span name
  | .template span raw, _ => .template span raw
  | .object span entries, wellFormed => by
    obtain ⟨parts, others⟩ := Bool.and_eq_true_iff.mp wellFormed
    exact .object span (Node.parts_reread (List.all_eq_true.mp parts) others)
  | .array span items, wellFormed => by
    obtain ⟨parts, others⟩ := Bool.and_eq_true_iff.mp wellFormed
    exact .array span (Node.parts_reread (List.all_eq_true.mp parts) others)
  | .call span callee arguments, wellFormed => by
    simp only [Node.isWellFormed, Bool.and_eq_true] at wellFormed
    obtain ⟨⟨expression, calleeFormed⟩, parts, others⟩ := wellFormed
    exact .call span (Node.reread calleeFormed) expression (Node.parts_reread (List.all_eq_true.mp parts) others)
  | .property span key value, wellFormed => by
    simp only [Node.isWellFormed, Bool.and_eq_true] at wellFormed
    obtain ⟨⟨isKey, keyFormed⟩, expression, valueFormed⟩ := wellFormed
    exact .property span isKey keyFormed (Node.reread valueFormed) expression
  | .computedProperty _ key value, wellFormed => by
    simp only [Node.isWellFormed, Bool.and_eq_true] at wellFormed
    obtain ⟨⟨keyExpression, keyFormed⟩, expression, valueFormed⟩ := wellFormed
    have keyReread := (Node.reread keyFormed).nested keyExpression
    have valueReread := (Node.reread valueFormed).nested expression
    exact .of_entry rfl rfl (Series.takes_computedProperty keyReread valueReread (Node.span_unplaced _))
  | .shorthand _ name, _ => .of_entry rfl rfl (Series.takes_shorthand name)
  | .spread _ argument, wellFormed => by
    obtain ⟨expression, formed⟩ := Bool.and_eq_true_iff.mp wellFormed
    have argumentReread := (Node.reread formed).nested expression
    exact .of_takes rfl fun series _ => series.takes_spread argumentReread (Node.span_unplaced _)
  | .member span target name, wellFormed => by
    simp only [Node.isWellFormed, Bool.and_eq_true] at wellFormed
    obtain ⟨⟨expression, targetFormed⟩, identifier, -⟩ := wellFormed
    exact .member span (Node.reread targetFormed) expression identifier
  | .index _ target key, wellFormed => by
    simp only [Node.isWellFormed, Bool.and_eq_true] at wellFormed
    obtain ⟨⟨expression, targetFormed⟩, keyExpression, keyFormed⟩ := wellFormed
    have targetReads := (Node.reread targetFormed).operand expression
    have keyReread := (Node.reread keyFormed).nested keyExpression
    exact .of_reads rfl fun _ => targetReads.index keyReread (Node.span_unplaced _)
  | .taggedTemplate span tag quasi, wellFormed => by
    simp only [Node.isWellFormed, Bool.and_eq_true] at wellFormed
    obtain ⟨⟨expression, tagFormed⟩, template, -⟩ := wellFormed
    exact .taggedTemplate span (Node.reread tagFormed) expression template
  | .unary _ operator operand, wellFormed => by
    simp only [Node.isWellFormed, Bool.and_eq_true] at wellFormed
    obtain ⟨front, expression, formed⟩ := wellFormed
    have operandReads := (Node.reread formed).operand expression
    exact .of_yields rfl rfl (.front front operandReads (Node.span_unplaced _))
  | .binary _ operator left right, wellFormed => by
    simp only [Node.isWellFormed, Bool.and_eq_true] at wellFormed
    obtain ⟨-, ⟨leftExpression, leftFormed⟩, rightExpression, rightFormed⟩ := wellFormed
    have leftReads := (Node.reread leftFormed).operand leftExpression
    have rightReads := (Node.reread rightFormed).operand rightExpression
    exact .of_yields rfl rfl (.between leftReads rightReads (Node.span_unplaced _) (Node.span_unplaced _))
  | .conditional _ test consequent alternative, wellFormed => by
    simp only [Node.isWellFormed, Bool.and_eq_true] at wellFormed
    obtain ⟨⟨testExpression, testFormed⟩, ⟨consequentExpression, consequentFormed⟩, expression, alternativeFormed⟩ :=
      wellFormed
    have testReads := (Node.reread testFormed).operand testExpression
    have consequentReads := (Node.reread consequentFormed).operand consequentExpression
    have alternativeReads := (Node.reread alternativeFormed).operand expression
    exact .of_yields rfl rfl
      (.conditional testReads consequentReads alternativeReads (Node.span_unplaced _) (Node.span_unplaced _))

theorem Node.parts_reread {series : Series} : ∀ {nodes : List Node}, (∀ node ∈ nodes, series.admits node = true) →
    areWellFormed nodes = true → List.Forall₂ series.Takes (partLexemes asked nodes) (unplacedNodes nodes)
  | [], _, _ => .nil
  | node :: rest, admitted, wellFormed => by
    obtain ⟨here, others⟩ := Bool.and_eq_true_iff.mp wellFormed
    obtain ⟨part, parts⟩ := List.forall_mem_cons.mp admitted
    exact .cons ((Node.reread here).part part) (Node.parts_reread parts others)
end

/-- A text with the lexemes of a tree that the grammar has is parsed to that tree, up to the spans. -/
theorem parse_of_lexemes_eq {node : Node} (expression : node.isExpression = true)
    (wellFormed : node.isWellFormed = true) {text : Text} (same : lexemes .operand text = node.lexemes asked)
    (place : Place) :
    ∃ parsed, parse text place = .ok parsed ∧ parsed.unplaced = node.unplaced := by
  obtain ⟨stack, last, taken, settled⟩ := (Node.reread wellFormed).yields expression [] delimited_nil
  have parsed : parseTokens place.position [] .operand ((node.lexemes asked).map Lexeme.token) = .ok node.unplaced :=
    parseTokens_run taken settled
  have fits : FitsPrinted asked node := Node.fits_lexemes wellFormed
  apply parse_of_lexemes
  · rw [same]
    exact parsed
  · rw [same]
    exact fun _ => fits.fit.decodes

end

/-- Parsing undoes printing: the printed text of a tree that the grammar has is parsed to the same tree, whatever
parentheses it is printed with. -/
theorem parse_print (asked : Node → Bool) {node : Node} (expression : node.isExpression = true)
    (wellFormed : node.isWellFormed = true) (place : Place) :
    ∃ parsed, parse (node.print asked) place = .ok parsed ∧ parsed.unplaced = node.unplaced :=
  parse_of_lexemes_eq expression wellFormed (lexemes_print wellFormed) place

/-- A tree with nodes of every kind. -/
def Node.sampler : Node :=
  let name (text : String) : Node := .identifier .nowhere text
  .object .nowhere
    [.property .nowhere (name "typeof")
      (.conditional .nowhere (.binary .nowhere "&&" (name "a") (.unary .nowhere "!" (name "b")))
        (.call .nowhere (.member .nowhere (name "f") (name "null"))
          [.number .nowhere (.whole 12), .spread .nowhere (.array .nowhere [.null .nowhere, .boolean .nowhere true])])
        (.unary .nowhere "-" (.unary .nowhere "typeof" (.index .nowhere (name "c") (.string .nowhere "\"/*"))))),
      .computedProperty .nowhere (.binary .nowhere "+" (name "k") (.number .nowhere (.whole 0)))
        (.taggedTemplate .nowhere (name "css") (.template .nowhere "$\x7bx\x7d")),
      .property .nowhere (.string .nowhere "&:hover") (.template .nowhere ""), .shorthand .nowhere "true",
      .spread .nowhere (name "rest")]

theorem parse_print_sampler :
    ∃ parsed, parse (Node.sampler.print fun _ => false) ⟨0, ⟨1, 1⟩⟩ = .ok parsed ∧
      parsed.unplaced = Node.sampler.unplaced :=
  parse_print (fun _ => false) (by decide) (by decide +kernel) ⟨0, ⟨1, 1⟩⟩

end StaticStyle.Expression
