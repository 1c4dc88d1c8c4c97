import StaticStyle.Proofs.Expression.Evaluate
import StaticStyle.Proofs.Expression.Rereading
import StaticStyle.Proofs.Json.Order

namespace StaticStyle

namespace Value

mutual
/-- Whether a value is made of texts, whole numbers of at most 53 bits, truth values, nulls and objects of these. -/
def isLiteral : Value → Bool
  | text _ | bool _ | null => true
  | int n => decide (n.natAbs < 2 ^ 53)
  | float _ | stamp _ | list _ => false
  | object fields => areLiteral fields

def areLiteral : List (Text × Value) → Bool
  | [] => true
  | (_, value) :: rest => value.isLiteral && areLiteral rest
end

theorem areLiteral_iff {fields : List (Text × Value)} :
    areLiteral fields = true ↔ ∀ field ∈ fields, field.2.isLiteral = true := by
  induction fields with
  | nil => simp [areLiteral]
  | cons field fields ih => rw [areLiteral, Bool.and_eq_true, ih, List.forall_mem_cons]

mutual
theorem isLiteral_ordered : ∀ {value : Value}, value.isLiteral = true → value.ordered.isLiteral = true
  | .null, _ | .bool _, _ | .text _, _ => rfl
  | .int _, literal => by simpa [ordered] using literal
  | .object _, literal => by
    rw [isLiteral] at literal
    rw [ordered, isLiteral, areLiteral_iff]
    intro field member
    exact areLiteral_iff.mp (areLiteral_orderedFields literal) field ((Fields.sorted_perm _).mem_iff.mp member)
  | .float _, literal | .stamp _, literal | .list _, literal => by simp [isLiteral] at literal

theorem areLiteral_orderedFields : ∀ {fields : List (Text × Value)}, areLiteral fields = true →
    areLiteral (orderedFields fields) = true
  | [], _ => rfl
  | (_, _) :: _, literal => by
    obtain ⟨here, others⟩ := Bool.and_eq_true_iff.mp literal
    rw [orderedFields, areLiteral, isLiteral_ordered here, areLiteral_orderedFields others]
    rfl
end

end Value

namespace Expression

mutual
/-- The tree of a literal. A negative number has a minus sign in front. -/
def literal : Value → Node
  | .text t => .string .nowhere t
  | .bool b => .boolean .nowhere b
  | .int (.ofNat n) => .number .nowhere (.whole n)
  | .int (.negSucc n) => .unary .nowhere "-" (.number .nowhere (.whole (n + 1 : Nat)))
  | .object fields => .object .nowhere (fieldLiterals fields)
  | _ => .null .nowhere

/-- The entries of an object literal, with keys in quotes. -/
def fieldLiterals : List (Text × Value) → List Node
  | [] => []
  | (key, value) :: rest => .property .nowhere (.string .nowhere key) (literal value) :: fieldLiterals rest
end

theorem isExpression_literal (value : Value) : (literal value).isExpression = true := by
  cases value with
  | int n => cases n <;> rfl
  | _ => rfl

theorem all_isEntry_fieldLiterals (fields : List (Text × Value)) : (fieldLiterals fields).all Node.isEntry = true := by
  induction fields with
  | nil => rfl
  | cons field fields ih =>
    rw [fieldLiterals, List.all_cons, ih]
    rfl

mutual
theorem isWellFormed_literal : ∀ {value : Value}, value.isLiteral = true → (literal value).isWellFormed = true
  | .null, _ | .bool _, _ | .text _, _ => rfl
  | .int (.ofNat n), small => by
    simp only [Value.isLiteral, decide_eq_true_eq, Int.ofNat_eq_natCast, Int.natAbs_natCast] at small
    simp only [literal, Node.isWellFormed, Number.isCount, decide_eq_true_eq]
    omega
  | .int (.negSucc n), small => by
    simp only [Value.isLiteral, decide_eq_true_eq] at small
    have front : frontSymbols.contains (Text.ofString "-") = true := by decide
    simp only [literal, Node.isWellFormed, Node.isExpression, Node.isEntry, front, Number.isCount, Bool.true_and,
      Bool.not_false, decide_eq_true_eq]
    omega
  | .object fields, literal => by
    rw [Value.isLiteral] at literal
    exact Bool.and_eq_true_iff.mpr ⟨all_isEntry_fieldLiterals fields, areWellFormed_fieldLiterals literal⟩
  | .float _, literal | .stamp _, literal | .list _, literal => by simp [Value.isLiteral] at literal

theorem areWellFormed_fieldLiterals : ∀ {fields : List (Text × Value)}, Value.areLiteral fields = true →
    Node.areWellFormed (fieldLiterals fields) = true
  | [], _ => rfl
  | (key, value) :: rest, literal => by
    obtain ⟨here, others⟩ := Bool.and_eq_true_iff.mp literal
    simp [fieldLiterals, Node.areWellFormed, Node.isWellFormed, Node.isKey, isExpression_literal,
      isWellFormed_literal here, areWellFormed_fieldLiterals others]
end

/-- The lexemes of a literal, which needs no parentheses. -/
def literalLexemes (value : Value) : List Lexeme := (literal value).lexemes fun _ => false

/-- The lexemes of the entries of an object literal. -/
def entryLexemes (fields : List (Text × Value)) : List (List Lexeme) :=
  Node.partLexemes (fun _ => false) (fieldLiterals fields)

private theorem entryLexemes_cons (key : Text) (value : Value) (rest : List (Text × Value)) :
    entryLexemes ((key, value) :: rest) =
      (.string (Json.quote key) :: .colon :: literalLexemes value) :: entryLexemes rest := rfl

private theorem lexemes_quote (awaiting : Awaiting) (value behind : Text) :
    lexemes awaiting (Json.quote value ++ behind) = .string (Json.quote value) :: lexemes .operator behind := by
  have fits : (Lexeme.string (Json.quote value)).Fits awaiting := ⟨value, rfl⟩
  exact lexemes_text fits (.inl rfl)

private theorem lexemes_ofNat (n : Nat) {behind : Text} (parted : Parted behind) :
    lexemes .operand (Text.ofNat n ++ behind) = .number (Text.ofNat n) :: lexemes .operator behind := by
  have fits : (Lexeme.number (Text.ofNat n)).Fits .operand := ⟨n, rfl⟩
  exact lexemes_text fits (.inr parted)

private theorem lexemes_word {word : Text} (named : isName word = true) (other : word ≠ Text.ofString "typeof")
    {behind : Text} (parted : Parted behind) :
    lexemes .operand (word ++ behind) = .name word :: lexemes .operator behind := by
  have fits : (Lexeme.name word).Fits .operand := named
  have next : (Lexeme.name word).next .operand = .operator := if_neg fun same => other same.1
  rw [← next]
  exact lexemes_text fits (.inr parted)

private theorem lexemes_closing (awaiting : Awaiting) (behind : Text) :
    lexemes awaiting (.char '\x7d' :: behind) = .closing .curly :: lexemes .operator behind := by
  have fits : (Lexeme.closing .curly).Fits awaiting := trivial
  exact lexemes_text fits (.inl rfl)

private theorem parted_closing (behind : Text) : Parted (.char '\x7d' :: behind) := by
  intro c first
  obtain rfl := Option.some.inj first
  decide

private theorem parted_others (fields : List (Text × Value)) (behind : Text) :
    Parted ((Json.writeFields Json.quote fields).flatMap ([CodePoint.char ','] ++ ·) ++ .char '\x7d' :: behind) := by
  cases fields with
  | nil => exact parted_closing behind
  | cons field fields =>
    intro c first
    obtain rfl := Option.some.inj first
    decide

private theorem lexemes_entry (awaiting : Awaiting) (key : Text) {value : Value} {rest : Text}
    (read : lexemes .operand (Json.write Json.quote value ++ rest) = literalLexemes value ++ lexemes .operator rest) :
    lexemes awaiting (Json.quote key ++ .char ':' :: Json.write Json.quote value ++ rest) =
      .string (Json.quote key) :: .colon :: literalLexemes value ++ lexemes .operator rest := by
  have colonFits : Lexeme.colon.Fits .operator := trivial
  have colon : lexemes .operator (.char ':' :: (Json.write Json.quote value ++ rest)) =
      .colon :: lexemes .operand (Json.write Json.quote value ++ rest) :=
    lexemes_text colonFits (.inl rfl)
  rw [List.append_assoc, lexemes_quote, List.cons_append, colon, read]
  rfl

mutual
/-- The text of a value is read as its literal. -/
theorem lexemes_write : ∀ {value : Value} {behind : Text}, value.isLiteral = true → Parted behind →
    lexemes .operand (Json.write Json.quote value ++ behind) = literalLexemes value ++ lexemes .operator behind
  | .null, _, _, parted => lexemes_word (by decide) (by decide) parted
  | .bool b, _, _, parted => by cases b <;> exact lexemes_word (by decide) (by decide) parted
  | .text t, behind, _, _ => lexemes_quote .operand t behind
  | .int (.ofNat n), _, _, parted => lexemes_ofNat n parted
  | .int (.negSucc n), behind, _, parted => by
    have fits : (Lexeme.sign (Text.ofString "-")).Fits .operand := .inr rfl
    have minus : lexemes .operand (Text.ofString "-" ++ (Text.ofNat (n + 1) ++ behind)) =
        .sign (Text.ofString "-") :: lexemes .operand (Text.ofNat (n + 1) ++ behind) :=
      lexemes_text fits (.inl rfl)
    rw [lexemes_ofNat (n + 1) parted] at minus
    exact minus
  | .object fields, behind, literal, _ => by
    have fits : (Lexeme.opening .curly).Fits .operand := trivial
    rw [Value.isLiteral] at literal
    have entries := lexemes_fields literal behind
    have opened : lexemes .operand
        (.char '\x7b' :: (Text.join [.char ','] (Json.writeFields Json.quote fields) ++ .char '\x7d' :: behind)) =
          .opening .curly :: lexemes .operand
            (Text.join [.char ','] (Json.writeFields Json.quote fields) ++ .char '\x7d' :: behind) :=
      lexemes_text fits (.inl rfl)
    rw [Json.write, Json.enclose, List.cons_append, List.cons_append, List.append_assoc, List.singleton_append]
    rw [opened, entries]
    simp [literalLexemes, Expression.literal, Node.lexemes, entryLexemes]
  | .float _, _, literal, _ | .stamp _, _, literal, _ | .list _, _, literal, _ => by
    simp [Value.isLiteral] at literal

theorem lexemes_fields : ∀ {fields : List (Text × Value)}, Value.areLiteral fields = true → ∀ behind : Text,
    lexemes .operand (Text.join [.char ','] (Json.writeFields Json.quote fields) ++ .char '\x7d' :: behind) =
      separated (entryLexemes fields) ++ .closing .curly :: lexemes .operator behind
  | [], _, behind => lexemes_closing .operand behind
  | (key, value) :: rest, literal, behind => by
    obtain ⟨here, others⟩ := Bool.and_eq_true_iff.mp literal
    rw [Json.writeFields, Text.join_cons, List.append_assoc,
      lexemes_entry .operand key (lexemes_write here (parted_others rest behind)),
      lexemes_others others .operator behind, entryLexemes_cons, separated]
    simp

/-- The entries of an object behind the first one. -/
theorem lexemes_others : ∀ {fields : List (Text × Value)}, Value.areLiteral fields = true →
    ∀ (awaiting : Awaiting) (behind : Text),
      lexemes awaiting
          ((Json.writeFields Json.quote fields).flatMap ([CodePoint.char ','] ++ ·) ++ .char '\x7d' :: behind) =
        (entryLexemes fields).flatMap (Lexeme.comma :: ·) ++ .closing .curly :: lexemes .operator behind
  | [], _, awaiting, behind => lexemes_closing awaiting behind
  | (key, value) :: rest, literal, awaiting, behind => by
    obtain ⟨here, others⟩ := Bool.and_eq_true_iff.mp literal
    have fits : Lexeme.comma.Fits awaiting := trivial
    have comma (text : Text) : lexemes awaiting ([.char ','] ++ text) = .comma :: lexemes .operand text :=
      lexemes_text fits (.inl rfl)
    rw [Json.writeFields, List.flatMap_cons, List.append_assoc, List.append_assoc, comma,
      lexemes_entry .operand key (lexemes_write here (parted_others rest behind)),
      lexemes_others others .operator behind, entryLexemes_cons, List.flatMap_cons]
    simp
end

mutual
/-- The literal of a value has that value. -/
theorem evaluate_literal : ∀ {value : Value}, value.isLiteral = true → value.hasDistinctKeys = true →
    evaluate (literal value) = .ok value
  | .null, _, _ | .bool _, _, _ | .text _, _, _ => rfl
  | .int (.ofNat n), _, _ => rfl
  | .int (.negSucc n), _, _ => by
    rw [literal, evaluate, if_pos rfl]
    rfl
  | .object fields, isLiteral, distinct => by
    rw [Value.isLiteral] at isLiteral
    have entries : evaluateEntries [] (fieldLiterals fields) = .ok ([] ++ fields) :=
      evaluateEntries_fieldLiterals isLiteral distinct (by simp [Fields.keys])
    rw [literal, evaluate, entries]
    rfl
  | .float _, isLiteral, _ | .stamp _, isLiteral, _ | .list _, isLiteral, _ => by
    simp [Value.isLiteral] at isLiteral

theorem evaluateEntries_fieldLiterals : ∀ {fields : List (Text × Value)} {before : Fields Value},
    Value.areLiteral fields = true → Value.fieldsHaveDistinctKeys fields = true →
      (∀ field ∈ fields, field.1 ∉ Fields.keys before) →
        evaluateEntries before (fieldLiterals fields) = .ok (before ++ fields)
  | [], before, _, _, _ => by rw [fieldLiterals, evaluateEntries, List.append_nil]
  | (key, value) :: rest, before, isLiteral, distinct, absent => by
    obtain ⟨here, others⟩ := Bool.and_eq_true_iff.mp isLiteral
    obtain ⟨absentHere, absentOthers⟩ := List.forall_mem_cons.mp absent
    simp only [Value.fieldsHaveDistinctKeys, Bool.and_eq_true, Bool.not_eq_true'] at distinct
    obtain ⟨⟨single, distinctHere⟩, distinctOthers⟩ := distinct
    have appended : Fields.put key value before = before ++ [(key, value)] := Fields.put_of_notMem absentHere
    have further : ∀ field ∈ rest, field.1 ∉ Fields.keys (before ++ [(key, value)]) := by
      intro field member found
      rw [Fields.keys, List.map_append, List.mem_append, List.map_singleton, List.mem_singleton] at found
      rcases found with found | same
      · exact absentOthers field member found
      · have present : Fields.contains (key, value).1 rest = true := same ▸ Fields.contains_of_mem member
        simp [single] at present
    rw [fieldLiterals, evaluateEntries, staticKey, evaluate_literal here distinctHere]
    dsimp only
    rw [appended, evaluateEntries_fieldLiterals others distinctOthers further, List.append_assoc, List.singleton_append]
end

/-- The canonical text of a style is a style literal for the same style, wherever it stands: it is parsed and has a
value, which is the style up to the order of its keys and has the same canonical text. -/
theorem evaluateObject_canonical {style : Fields Value} (literal : Value.areLiteral style = true)
    (distinct : Value.fieldsHaveDistinctKeys style = true) (place : Place) :
    ∃ node fields, parse (Json.canonical (.object style)) place = .ok node ∧ evaluateObject node = .ok fields ∧
      (Value.object style).IsSame (.object fields) ∧
        Json.canonical (.object fields) = Json.canonical (.object style) := by
  have styleLiteral : (Value.object style).isLiteral = true := by rwa [Value.isLiteral]
  have ordered : (Value.object style).ordered = .object (Fields.sorted (orderedFields style)) := by rw [Value.ordered]
  have orderedLiteral := Value.isLiteral_ordered styleLiteral
  have orderedDistinct : (Value.object style).ordered.hasDistinctKeys = true := Value.hasDistinctKeys_ordered distinct
  have same : (Value.object style).IsSame (Value.object style).ordered := Value.isSame_ordered distinct
  have again := Json.canonical_ordered (.object style)
  have read : lexemes .operand (Json.canonical (.object style)) = literalLexemes (Value.object style).ordered := by
    have whole := lexemes_write orderedLiteral parted_nil
    rwa [List.append_nil, lexemes_nil, List.append_nil] at whole
  obtain ⟨node, parsed, unplaced⟩ :=
    parse_of_lexemes_eq (isExpression_literal _) (isWellFormed_literal orderedLiteral) read place
  rw [ordered] at orderedLiteral orderedDistinct same again unplaced
  generalize Fields.sorted (orderedFields style) = fields at *
  refine ⟨node, fields, parsed, evaluateObject_unplaced unplaced.symm ?_, same, again⟩
  rw [Value.isLiteral] at orderedLiteral
  rw [Expression.literal, evaluateObject]
  exact evaluateEntries_fieldLiterals orderedLiteral orderedDistinct (by simp [Fields.keys])

/-- Keys and texts with quotes, comments, braces and control characters in them. -/
theorem evaluateObject_canonical_marks :
    let style : Fields Value :=
      [("zIndex", .int (-3)), ("\"/*", .text "// \x7b\x00\\n"), ("", .object [("typeof", .null), ("a", .bool true)])]
    Value.areLiteral style = true ∧ Value.fieldsHaveDistinctKeys style = true ∧
      ∃ node fields, parse (Json.canonical (.object style)) ⟨7, ⟨2, 5⟩⟩ = .ok node ∧
        evaluateObject node = .ok fields ∧ (Value.object style).IsSame (.object fields) ∧
          Json.canonical (.object fields) = Json.canonical (.object style) := by
  intro style
  have literal : Value.areLiteral style = true := by decide
  have distinct : Value.fieldsHaveDistinctKeys style = true := by decide
  exact ⟨literal, distinct, evaluateObject_canonical literal distinct ⟨7, ⟨2, 5⟩⟩⟩

end Expression

end StaticStyle
