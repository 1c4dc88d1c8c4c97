import StaticStyle.Proofs.Expression.Offence
import StaticStyle.Proofs.Fields

namespace StaticStyle

/-- A part of a value is the value itself, or a part of one of its items or fields. -/
inductive Value.Holds : Value → Value → Prop where
  | whole (value : Value) : value.Holds value
  | item {items : List Value} {item part : Value} (member : item ∈ items) (held : item.Holds part) :
      (Value.list items).Holds part
  | field {fields : Fields Value} {key : Text} {value part : Value} (member : (key, value) ∈ fields)
      (held : value.Holds part) : (Value.object fields).Holds part

namespace Expression

/-- The name that a key gives to an entry. -/
def Node.name? : Node → Option Text
  | .identifier _ name => some name
  | .string _ value => some value
  | _ => none

mutual
/-- Whether a tree is a string, a number, a boolean or null, a number with a minus sign in front of it, or an object of
such values under names that are not computed. -/
def Node.isLiteral : Node → Bool
  | .string .. | .number .. | .boolean .. | .null .. => true
  | .unary _ operator (.number ..) => operator = Text.ofString "-"
  | .object _ entries => entriesAreLiteral entries
  | _ => false

def Node.entriesAreLiteral : List Node → Bool
  | [] => true
  | .property _ key value :: rest => key.name?.isSome && value.isLiteral && entriesAreLiteral rest
  | _ => false
end

mutual
/-- A literal denotes a value. An object collects what its entries denote. -/
inductive Denotes : Node → Value → Prop where
  | string (span : Span) (text : Text) : Denotes (.string span text) (.text text)
  | number (span : Span) (number : Number) : Denotes (.number span number) number.toValue
  | boolean (span : Span) (b : Bool) : Denotes (.boolean span b) (.bool b)
  | null (span : Span) : Denotes (.null span) .null
  | negative (span inner : Span) (number : Number) :
      Denotes (.unary span "-" (.number inner number)) number.negate.toValue
  | object (span : Span) {entries : List Node} {pairs : List (Text × Value)} {fields : Fields Value}
      (denoted : List.Forall₂ DenotesEntry entries pairs) (collects : fields.Collects pairs) :
      Denotes (.object span entries) (.object fields)

/-- An entry denotes a pair of its name and the value behind it. -/
inductive DenotesEntry : Node → Text × Value → Prop where
  | property (span : Span) {key node : Node} {name : Text} {value : Value} (named : key.name? = some name)
      (denotes : Denotes node value) : DenotesEntry (.property span key node) (name, value)
end

theorem staticKey_eq_ok {key : Node} {name : Text} : staticKey key = .ok name ↔ key.name? = some name := by
  cases key <;> simp [staticKey, Node.name?]

/-- What evaluation puts into the fields of an object comes from one property after another. -/
theorem evaluateEntries_cons_ok {fields fields' : Fields Value} {entry : Node} {rest : List Node} :
    evaluateEntries fields (entry :: rest) = .ok fields' ↔
      ∃ span key node name value, entry = .property span key node ∧ key.name? = some name ∧
        evaluate node = .ok value ∧ evaluateEntries (fields.put name value) rest = .ok fields' := by
  constructor
  · intro evaluated
    cases entry with
    | property span key node =>
      rw [evaluateEntries] at evaluated
      cases named : staticKey key with
      | error rejection => simp [named] at evaluated
      | ok name =>
        cases valued : evaluate node with
        | error rejection => simp [named, valued] at evaluated
        | ok value =>
          simp only [named, valued] at evaluated
          exact ⟨span, key, node, name, value, rfl, staticKey_eq_ok.mp named, valued, evaluated⟩
    | _ => simp [evaluateEntries] at evaluated
  · rintro ⟨span, key, node, name, value, rfl, named, valued, evaluated⟩
    rw [evaluateEntries, staticKey_eq_ok.mpr named]
    simp only [valued, evaluated]

mutual
theorem denotes_of_evaluate : ∀ {node : Node} {value : Value}, evaluate node = .ok value → Denotes node value
  | .object span entries, value, evaluated => by
    rw [evaluate] at evaluated
    cases inner : evaluateEntries [] entries with
    | error rejection => simp [inner, Except.map] at evaluated
    | ok fields =>
      obtain ⟨pairs, denoted, rfl⟩ := denotes_of_evaluateEntries inner
      rw [inner] at evaluated
      obtain rfl := Except.ok.inj evaluated
      exact .object span denoted (Fields.ofPairs_collects pairs)
  | .unary span operator operand, value, evaluated => by
    cases operand with
    | number inner number =>
      rw [evaluate] at evaluated
      split at evaluated
      · rename_i minus
        obtain rfl := Except.ok.inj evaluated
        exact minus ▸ .negative span inner number
      · cases evaluated
    | _ => simp [evaluate] at evaluated
  | .string .., _, evaluated | .number .., _, evaluated | .boolean .., _, evaluated | .null .., _, evaluated => by
    obtain rfl := Except.ok.inj evaluated
    constructor
  | .identifier .., _, evaluated | .template .., _, evaluated | .property .., _, evaluated
  | .computedProperty .., _, evaluated | .shorthand .., _, evaluated | .spread .., _, evaluated
  | .array .., _, evaluated | .member .., _, evaluated | .index .., _, evaluated | .call .., _, evaluated
  | .taggedTemplate .., _, evaluated | .binary .., _, evaluated | .conditional .., _, evaluated => by
    simp [evaluate] at evaluated

theorem denotes_of_evaluateEntries : ∀ {fields fields' : Fields Value} {entries : List Node},
    evaluateEntries fields entries = .ok fields' → ∃ pairs, List.Forall₂ DenotesEntry entries pairs ∧
      fields' = pairs.foldl (fun fields pair => fields.put pair.1 pair.2) fields
  | _, _, [], evaluated => ⟨[], .nil, (Except.ok.inj evaluated).symm⟩
  | _, _, .property span key node :: rest, evaluated => by
    obtain ⟨_, _, _, name, value, same, named, valued, others⟩ := evaluateEntries_cons_ok.mp evaluated
    cases same
    obtain ⟨pairs, denoted, rfl⟩ := denotes_of_evaluateEntries others
    exact ⟨(name, value) :: pairs, .cons (.property span named (denotes_of_evaluate valued)) denoted, rfl⟩
  | _, _, .string .. :: _, evaluated | _, _, .number .. :: _, evaluated | _, _, .boolean .. :: _, evaluated
  | _, _, .null .. :: _, evaluated | _, _, .identifier .. :: _, evaluated | _, _, .template .. :: _, evaluated
  | _, _, .object .. :: _, evaluated | _, _, .computedProperty .. :: _, evaluated
  | _, _, .shorthand .. :: _, evaluated | _, _, .spread .. :: _, evaluated | _, _, .array .. :: _, evaluated
  | _, _, .member .. :: _, evaluated | _, _, .index .. :: _, evaluated | _, _, .call .. :: _, evaluated
  | _, _, .taggedTemplate .. :: _, evaluated | _, _, .unary .. :: _, evaluated | _, _, .binary .. :: _, evaluated
  | _, _, .conditional .. :: _, evaluated => by
    obtain ⟨_, _, _, _, _, same, -⟩ := evaluateEntries_cons_ok.mp evaluated
    cases same
end

mutual
theorem isLiteral_iff : ∀ node : Node, node.isLiteral = true ↔ ∃ value, evaluate node = .ok value
  | .object span entries => by
    rw [Node.isLiteral, entriesAreLiteral_iff entries [], evaluate]
    cases evaluateEntries [] entries <;> simp [Except.map]
  | .unary span operator operand => by
    cases operand with
    | number inner number => by_cases minus : operator = Text.ofString "-" <;> simp [Node.isLiteral, evaluate, minus]
    | _ => simp [Node.isLiteral, evaluate]
  | .string .. | .number .. | .boolean .. | .null .. => by
    simp [Node.isLiteral, evaluate]
  | .identifier .. | .template .. | .property .. | .computedProperty .. | .shorthand .. | .spread .. | .array ..
  | .member .. | .index .. | .call .. | .taggedTemplate .. | .binary .. | .conditional .. => by
    simp [Node.isLiteral, evaluate]

theorem entriesAreLiteral_iff : ∀ (entries : List Node) (fields : Fields Value),
    Node.entriesAreLiteral entries = true ↔ ∃ fields', evaluateEntries fields entries = .ok fields'
  | [], _ => by simp [Node.entriesAreLiteral, evaluateEntries]
  | .property span key node :: rest, fields => by
    have inner := isLiteral_iff node
    have others := entriesAreLiteral_iff rest
    simp only [Node.entriesAreLiteral, Bool.and_eq_true, Option.isSome_iff_exists, inner]
    constructor
    · rintro ⟨⟨⟨name, named⟩, value, valued⟩, literal⟩
      obtain ⟨fields', evaluated⟩ := (others (fields.put name value)).mp literal
      exact ⟨fields', evaluateEntries_cons_ok.mpr ⟨span, key, node, name, value, rfl, named, valued, evaluated⟩⟩
    · rintro ⟨fields', evaluated⟩
      obtain ⟨_, _, _, name, value, same, named, valued, evaluated⟩ := evaluateEntries_cons_ok.mp evaluated
      cases same
      exact ⟨⟨⟨name, named⟩, value, valued⟩, (others _).mpr ⟨fields', evaluated⟩⟩
  | .string .. :: _, _ | .number .. :: _, _ | .boolean .. :: _, _ | .null .. :: _, _ | .identifier .. :: _, _
  | .template .. :: _, _ | .object .. :: _, _ | .computedProperty .. :: _, _ | .shorthand .. :: _, _
  | .spread .. :: _, _ | .array .. :: _, _ | .member .. :: _, _ | .index .. :: _, _ | .call .. :: _, _
  | .taggedTemplate .. :: _, _ | .unary .. :: _, _ | .binary .. :: _, _ | .conditional .. :: _, _ => by
    simp [Node.entriesAreLiteral, evaluateEntries]
end

/-- A number is not zero unless it is whole. -/
def Number.IsClear (number : Number) : Prop := ∀ x, number = .real x → x.isZero = false

@[simp] theorem Number.isClear_whole (n : Int) : (Number.whole n).IsClear := by
  intro x same
  cases same

theorem toInt?_of_isZero {x : Binary64} (zero : x.isZero = true) : x.toInt? = some 0 := by
  cases x with
  | finite negative significand exponent canonical =>
    cases significand with
    | zero => by_cases whole : 0 ≤ exponent <;> simp [Binary64.toInt?, Binary64.quotient, whole]
    | succ => cases zero
  | nan | infinity => cases zero

theorem ofBinary_isClear (x : Binary64) : (ofBinary x).IsClear := by
  intro y kept
  cases zero : y.isZero with
  | false => rfl
  | true =>
    have same : x = y := by
      unfold ofBinary at kept
      split at kept
      · split at kept
        · cases kept
        · exact Number.real.inj kept
      · exact Number.real.inj kept
    rw [ofBinary, same, toInt?_of_isZero zero] at kept
    simp at kept

theorem decodeNumber?_isClear (raw : Text) : ((decodeNumber? raw).getD (.whole 0)).IsClear := by
  have read (text : Text) : (((Binary64.read? text).map ofBinary).getD (.whole 0)).IsClear := by
    cases Binary64.read? text with
    | none => exact Number.isClear_whole 0
    | some x => exact ofBinary_isClear x
  unfold decodeNumber?
  dsimp only
  split
  · split
    · rename_i digits _ _
      cases readHexLiteral? (Text.dropTrailing Binary64.isPadding digits) <;> simp
    · exact read _
  · exact read _

theorem Number.IsClear.negate {number : Number} (clear : number.IsClear) : number.negate.IsClear := by
  cases number with
  | whole n => exact Number.isClear_whole (-n)
  | real x =>
    have positive := clear x rfl
    intro y kept
    simp only [Number.negate, positive, Bool.false_eq_true, ↓reduceIte, Number.real.injEq] at kept
    subst kept
    cases x with
    | finite negative significand exponent canonical =>
      cases significand with
      | zero => cases positive
      | succ => rfl
    | nan | infinity => rfl

theorem Number.eq_of_holds {number other : Number} (held : number.toValue.Holds other.toValue) : other = number := by
  cases number <;> cases other <;> cases held <;> rfl

theorem Number.exists_field {fields : Fields Value} {number : Number}
    (held : (Value.object fields).Holds number.toValue) :
    ∃ key value, (key, value) ∈ fields ∧ value.Holds number.toValue := by
  cases number <;> cases held with
  | field member held => exact ⟨_, _, member, held⟩

/-- The number of a numeral in a text, with or without a minus sign. -/
def IsWritten (place : Place) (text : Text) (number : Number) : Prop :=
  ∃ span value, HasNumeral place text span value ∧ (number = value ∨ number = value.negate)

theorem IsWritten.isClear {place : Place} {text : Text} {number : Number} (written : IsWritten place text number) :
    number.IsClear := by
  obtain ⟨span, value, ⟨raw, -, rfl⟩, rfl | rfl⟩ := written
  · exact decodeNumber?_isClear raw
  · exact (decodeNumber?_isClear raw).negate

private theorem exists_denotesEntry {entries : List Node} {pairs : List (Text × Value)} {pair : Text × Value}
    (denoted : List.Forall₂ DenotesEntry entries pairs) (member : pair ∈ pairs) :
    ∃ entry ∈ entries, DenotesEntry entry pair := by
  induction denoted with
  | nil => cases member
  | cons first _ ih =>
    rcases List.mem_cons.mp member with rfl | member
    · exact ⟨_, List.mem_cons_self, first⟩
    · obtain ⟨entry, present, denotes⟩ := ih member
      exact ⟨entry, List.mem_cons_of_mem _ present, denotes⟩

/-- The numbers of what a tree denotes are written in the text from which the tree was read. -/
theorem Node.IsRead.isWritten {place : Place} {text : Text} {node : Node} (read : node.IsRead place text) :
    (∀ value, Denotes node value → ∀ number : Number, value.Holds number.toValue → IsWritten place text number) ∧
    ∀ pair, DenotesEntry node pair → ∀ number : Number, pair.2.Holds number.toValue → IsWritten place text number := by
  induction read with
  | intro span numeral children inside ordered ih =>
    refine ⟨fun value denotes number held => ?_, fun pair denotes => ?_⟩
    · cases denotes with
      | string | boolean | null => cases number <;> cases held
      | number place value =>
        exact ⟨place, value, numeral place value rfl, .inl (Number.eq_of_holds held)⟩
      | negative place inner value =>
        obtain ⟨-, literal, -⟩ := children (.number inner value) (by simp [Node.children])
        exact ⟨inner, value, literal inner value rfl, .inr (Number.eq_of_holds held)⟩
      | object place denoted collects =>
        obtain ⟨key, value, member, held⟩ := Number.exists_field held
        obtain ⟨entry, present, denotes⟩ := exists_denotesEntry denoted (collects.mem member)
        exact (ih entry present).2 _ denotes number held
    · cases denotes with
      | property place named denotes => exact (ih _ (by simp [Node.children])).1 _ denotes

/-- A parsed text evaluates exactly if it is a static literal. If it is none, it is rejected for the first of its
constructs that is not allowed, in the order in which they stand, an entry in front of its key, the key in front of the
value, and an outer construct in front of the inner ones. Its value is what it denotes, without a negative zero. -/
theorem evaluate_parsed {text : Text} {place : Place} {node : Node} (parsed : parse text place = .ok node) :
    (node.isLiteral = true ↔ ∃ value, evaluate node = .ok value) ∧
    (∀ rejection, evaluate node = .error rejection ↔
      ∃ offender, (Construct.value node).offender? = some offender ∧ offender.rejection = rejection) ∧
    (Construct.value node).all.Pairwise (fun a b => a.span.start ≤ b.span.start) ∧
    ∀ value, evaluate node = .ok value → Denotes node value ∧ ∀ x, value.Holds (.float x) → x ≠ .zero true := by
  have read := parse_read parsed
  refine ⟨isLiteral_iff node, fun rejection => ?_, (read.all_ordered (.value node) rfl).2, fun value evaluated => ?_⟩
  · rw [← Option.map_eq_some_iff, ← evaluate_offender]
    cases evaluate node <;> simp [refusal?]
  · have denotes := denotes_of_evaluate evaluated
    refine ⟨denotes, fun x held zero => ?_⟩
    have positive := (read.isWritten.1 value denotes (.real x) held).isClear x rfl
    rw [zero] at positive
    cases positive

/-- A key that is written twice keeps its place, and a computed key is told in front of the value behind it. -/
theorem evaluate_parsed_keys :
    (∃ node value, parse "\x7ba: 1, \x27b\x27: \x7bc: -0\x7d, a: null\x7d" ⟨0, ⟨1, 1⟩⟩ = .ok node ∧
      evaluate node = .ok value ∧ value.fields?.map Fields.keys = some (["a", "b"] : List Text) ∧ Denotes node value) ∧
    ∃ node offender, parse "\x7ba: 1, [b]: c\x7d" ⟨0, ⟨1, 1⟩⟩ = .ok node ∧ ¬ node.isLiteral = true ∧
      (Construct.value node).offender? = some offender ∧ offender.rejection = .key "computed key" ⟨1, 9⟩ := by
  constructor
  · have read : (parse "\x7ba: 1, \x27b\x27: \x7bc: -0\x7d, a: null\x7d" ⟨0, ⟨1, 1⟩⟩).toOption.map (fun node =>
        (evaluate node).toOption.map fun value => value.fields?.map Fields.keys) =
          some (some (some (["a", "b"] : List Text))) := by decide +kernel
    cases parsed : parse "\x7ba: 1, \x27b\x27: \x7bc: -0\x7d, a: null\x7d" ⟨0, ⟨1, 1⟩⟩ with
    | error fault =>
      rw [parsed] at read
      cases read
    | ok node =>
      rw [parsed] at read
      cases evaluated : evaluate node with
      | error rejection => simp [evaluated, Except.toOption] at read
      | ok value =>
        have keys : value.fields?.map Fields.keys = some (["a", "b"] : List Text) := by
          simpa [evaluated, Except.toOption] using read
        exact ⟨node, value, rfl, evaluated, keys, ((evaluate_parsed parsed).2.2.2 value evaluated).1⟩
  · have read : (parse "\x7ba: 1, [b]: c\x7d" ⟨0, ⟨1, 1⟩⟩).toOption.map (fun node => refusal? (evaluate node)) =
        some (some (.key "computed key" ⟨1, 9⟩)) := by decide +kernel
    cases parsed : parse "\x7ba: 1, [b]: c\x7d" ⟨0, ⟨1, 1⟩⟩ with
    | error fault =>
      rw [parsed] at read
      cases read
    | ok node =>
      rw [parsed] at read
      cases evaluated : evaluate node with
      | ok value => simp [evaluated, refusal?, Except.toOption] at read
      | error rejection =>
        obtain ⟨literal, told, -⟩ := evaluate_parsed parsed
        obtain ⟨offender, found, same⟩ := (told rejection).mp evaluated
        have expected : rejection = .key "computed key" ⟨1, 9⟩ := by
          simpa [evaluated, refusal?, Except.toOption] using read
        refine ⟨node, offender, rfl, ?_, found, same.trans expected⟩
        rw [literal, evaluated]
        rintro ⟨value, ok⟩
        cases ok

end Expression

end StaticStyle
