import StaticStyle.Proofs.Json.Canonical
import StaticStyle.Style.Compile
import StaticStyle.Style.Identity

/-!
Which styles are compiled and named. Neither depends on the class: a style is compiled for every class or for
none, and it has an identity if its integers can be written and its texts become bytes.
-/

namespace StaticStyle

def CodePoint.isCharacter : CodePoint → Bool
  | char _ => true
  | surrogate _ => false

namespace Value

mutual
/-- Whether no text in a value has a surrogate, keys included. -/
def lacksSurrogates : Value → Bool
  | text t => t.all CodePoint.isCharacter
  | list items => itemsLackSurrogates items
  | object fields => fieldsLackSurrogates fields
  | _ => true

def itemsLackSurrogates : List Value → Bool
  | [] => true
  | item :: rest => item.lacksSurrogates && itemsLackSurrogates rest

def fieldsLackSurrogates : List (Text × Value) → Bool
  | [] => true
  | (key, value) :: rest =>
    key.all CodePoint.isCharacter && value.lacksSurrogates && fieldsLackSurrogates rest
end

theorem fieldsLackSurrogates_iff {fields : List (Text × Value)} :
    fieldsLackSurrogates fields = true ↔ ∀ field ∈ fields,
      field.1.all CodePoint.isCharacter = true ∧ field.2.lacksSurrogates = true := by
  induction fields with
  | nil => simp [fieldsLackSurrogates]
  | cons field fields ih =>
    rw [fieldsLackSurrogates, Bool.and_eq_true, Bool.and_eq_true, ih, List.forall_mem_cons]

theorem fieldsLackSurrogates_sorted {fields : Fields Value}
    (lacking : fieldsLackSurrogates fields = true) :
    fieldsLackSurrogates (Fields.sorted fields) = true :=
  fieldsLackSurrogates_iff.mpr fun field member =>
    fieldsLackSurrogates_iff.mp lacking field ((List.mergeSort_perm _ _).mem_iff.mp member)

mutual
theorem lacksSurrogates_ordered : ∀ {value : Value}, value.lacksSurrogates = true →
    value.ordered.lacksSurrogates = true
  | .null, _ | .bool _, _ | .int _, _ | .float _, _ | .stamp _, _ => rfl
  | .text _, lacking => lacking
  | .list _, lacking => itemsLackSurrogates_ordered lacking
  | .object _, lacking => fieldsLackSurrogates_sorted (fieldsLackSurrogates_ordered lacking)

theorem itemsLackSurrogates_ordered : ∀ {items : List Value}, itemsLackSurrogates items = true →
    itemsLackSurrogates (orderedItems items) = true
  | [], _ => rfl
  | _ :: _, lacking => by
    simp only [itemsLackSurrogates, Bool.and_eq_true] at lacking
    rw [orderedItems, itemsLackSurrogates, lacksSurrogates_ordered lacking.1,
      itemsLackSurrogates_ordered lacking.2]
    rfl

theorem fieldsLackSurrogates_ordered : ∀ {fields : List (Text × Value)},
    fieldsLackSurrogates fields = true → fieldsLackSurrogates (orderedFields fields) = true
  | [], _ => rfl
  | (_, _) :: _, lacking => by
    simp only [fieldsLackSurrogates, Bool.and_eq_true] at lacking
    rw [orderedFields, fieldsLackSurrogates, lacking.1.1, lacksSurrogates_ordered lacking.1.2,
      fieldsLackSurrogates_ordered lacking.2]
    rfl
end

end Value

/-- A text of characters only has bytes. -/
theorem Text.Utf8.encode?_of_isCharacter {text : Text} (characters : text.all CodePoint.isCharacter = true) :
    ∃ bytes, encode? text = some bytes := by
  induction text with
  | nil => exact ⟨[], rfl⟩
  | cons c rest ih =>
    obtain ⟨first, others⟩ := Bool.and_eq_true_iff.mp (List.all_cons.symm.trans characters)
    obtain ⟨bytes, encoded⟩ := ih others
    cases c with
    | char c => exact ⟨_, by rw [encode?, encoded]; rfl⟩
    | surrogate index => cases first

namespace Json

private theorem isCharacter_of_isNumeric {c : CodePoint} (numeric : isNumeric c = true) :
    c.isCharacter = true := by
  cases c with
  | char c => rfl
  | surrogate index => simp [isNumeric, CodePoint.isAsciiDigit, CodePoint.isOneOf, Text.ofString] at numeric

private theorem quote_characters {text : Text} (characters : text.all CodePoint.isCharacter = true) :
    (quote text).all CodePoint.isCharacter = true := by
  have digits (width number : Nat) : (hexDigits width number).all CodePoint.isCharacter = true := by
    induction width generalizing number with
    | zero => rfl
    | succ width ih =>
      rw [hexDigits, List.all_append, ih]
      rfl
  have escaped : (text.flatMap escape).all CodePoint.isCharacter = true := by
    rw [List.all_flatMap]
    refine List.all_eq_true.mpr fun c member => ?_
    unfold escape
    split
    · rfl
    · split
      · exact digits 4 c.toNat
      · rw [List.all_cons, List.all_eq_true.mp characters c member]
        rfl
  rw [quote, List.cons_append, List.all_cons, List.all_append, escaped]
  rfl

private theorem padded_characters (width n : Nat) : (Text.padded width n).all CodePoint.isCharacter = true := by
  have digits : (Text.ofNat n).all CodePoint.isCharacter = true := by
    rw [Text.ofNat, List.all_map]
    exact List.all_eq_true.mpr fun _ _ => rfl
  rw [Text.padded, List.all_append, digits, List.all_replicate]
  simp [CodePoint.isCharacter]

private theorem stamp_characters (stamp : Stamp) : stamp.text.all CodePoint.isCharacter = true := by
  have day (date : Date) : date.text.all CodePoint.isCharacter = true := by
    simp only [Date.text, List.all_append, padded_characters]
    rfl
  have clock (time : TimeOfDay) : time.text.all CodePoint.isCharacter = true := by
    simp only [TimeOfDay.text, List.all_append, padded_characters]
    split <;> simp [padded_characters, CodePoint.isCharacter, Text.ofString]
  have zone (offset : Offset) : offset.text.all CodePoint.isCharacter = true := by
    simp only [Offset.text, List.all_append, padded_characters]
    split <;> rfl
  cases stamp with
  | date date => exact day date
  | time time => exact clock time
  | dateTime date time offset =>
    simp only [Stamp.text, List.all_append, day, clock]
    cases offset with
    | none => rfl
    | some offset => exact zone offset

private theorem enclose_characters {opening closing : CodePoint} {items : List Text}
    (opens : opening.isCharacter = true) (closes : closing.isCharacter = true)
    (characters : ∀ item ∈ items, item.all CodePoint.isCharacter = true) :
    (enclose opening closing items).all CodePoint.isCharacter = true := by
  have joined : (Text.join [.char ','] items).all CodePoint.isCharacter = true := by
    induction items with
    | nil => rfl
    | cons item items ih =>
      obtain ⟨first, others⟩ := List.forall_mem_cons.mp characters
      cases items with
      | nil => simpa [Text.join] using first
      | cons next items =>
        have rest := ih others
        rw [Text.join] at rest ⊢
        rw [List.intersperse_cons_cons, List.flatten_cons, List.flatten_cons, List.all_append, first,
          List.all_append, rest]
        rfl
  rw [enclose, List.cons_append, List.all_cons, opens, List.all_append, joined, List.all_cons, closes]
  rfl

private theorem bare_characters {value : Value} (bare : value.isBare = true) :
    (write quote value).all CodePoint.isCharacter = true := by
  cases numeral : value.isNumeral with
  | true =>
    exact List.all_eq_true.mpr fun c member => isCharacter_of_isNumeric (write_numeral numeral member)
  | false => rcases word_cases bare numeral with rfl | rfl | rfl | rfl | rfl | rfl <;> decide

mutual
theorem write_characters : ∀ {value : Value}, value.lacksSurrogates = true →
    (write quote value).all CodePoint.isCharacter = true
  | .null, _ | .bool _, _ | .int _, _ | .float _, _ => bare_characters rfl
  | .text _, lacking => quote_characters lacking
  | .stamp s, _ => quote_characters (stamp_characters s)
  | .list _, lacking => enclose_characters rfl rfl (writeItems_characters lacking)
  | .object _, lacking => enclose_characters rfl rfl (writeFields_characters lacking)

theorem writeItems_characters : ∀ {items : List Value}, Value.itemsLackSurrogates items = true →
    ∀ item ∈ writeItems quote items, item.all CodePoint.isCharacter = true
  | [], _ => by simp [writeItems]
  | _ :: _, lacking => by
    simp only [Value.itemsLackSurrogates, Bool.and_eq_true] at lacking
    exact List.forall_mem_cons.mpr ⟨write_characters lacking.1, writeItems_characters lacking.2⟩

theorem writeFields_characters : ∀ {fields : List (Text × Value)},
    Value.fieldsLackSurrogates fields = true →
      ∀ field ∈ writeFields quote fields, field.all CodePoint.isCharacter = true
  | [], _ => by simp [writeFields]
  | (_, _) :: _, lacking => by
    simp only [Value.fieldsLackSurrogates, Bool.and_eq_true] at lacking
    refine List.forall_mem_cons.mpr ⟨?_, writeFields_characters lacking.2⟩
    rw [List.all_append, List.all_cons, quote_characters lacking.1.1, write_characters lacking.1.2]
    rfl
end

end Json

namespace Style

theorem digest_eq_ok_iff {style : Value} {digits : Text} : digest style = .ok digits ↔
    Json.defect? style.ordered = none ∧
      ∃ bytes, Text.Utf8.encode? (Json.canonical style) = some bytes ∧ Md5.hexDigest bytes = digits := by
  unfold digest
  cases Json.defect? style.ordered <;> cases Text.Utf8.encode? (Json.canonical style) <;> simp

theorem digest_eq_error_iff {style : Value} {defect : Defect} : digest style = .error defect ↔
    Json.defect? style.ordered = some defect ∨
      Json.defect? style.ordered = none ∧ Text.Utf8.encode? (Json.canonical style) = none ∧ defect = .unencodable := by
  unfold digest
  cases Json.defect? style.ordered <;> cases Text.Utf8.encode? (Json.canonical style) <;> simp [eq_comm]

theorem digest_ok {style : Value} (lacksStamps : style.lacksStamps = true) (writable : style.isWritable = true)
    (lacking : style.lacksSurrogates = true) : ∃ digits, digest style = .ok digits := by
  obtain ⟨bytes, encoded⟩ := Text.Utf8.encode?_of_isCharacter
    (Json.write_characters (Value.lacksSurrogates_ordered lacking))
  refine ⟨Md5.hexDigest bytes, digest_eq_ok_iff.mpr ⟨?_, bytes, encoded, rfl⟩⟩
  rw [Json.defect?_ordered lacksStamps, if_pos writable]

theorem isWritable_of_digest {style : Value} {digits : Text} (lacksStamps : style.lacksStamps = true)
    (digested : digest style = .ok digits) : style.isWritable = true := by
  have written := (digest_eq_ok_iff.mp digested).1
  rw [Json.defect?_ordered lacksStamps] at written
  by_contra unwritable
  rw [if_neg unwritable] at written
  cases written

/-- Whether a report has a result. -/
def Report.Succeeds {α : Type} (report : Report α) : Prop := ∃ a, report.result = .ok a

theorem Report.succeeds_bind {α β : Type} {report : Report α} {next : α → Report β} :
    (report.bind next).Succeeds ↔ ∃ a, report.result = .ok a ∧ (next a).Succeeds := by
  unfold Report.bind Report.Succeeds
  cases report.result <;> simp

theorem declare_eq_ok_iff {stem key : Text} {value : Value} {declarations : List Declaration} :
    (declare stem key value).result = .ok declarations ↔ value.isWritable = true ∧
      declarations = (properties key).map fun property => ⟨property, (resolveValue stem property value).1⟩ := by
  unfold declare
  split
  · rename_i writable
    simp only [writable, true_and, List.map_map, Except.ok.injEq]
    exact eq_comm
  · rename_i unwritable
    simp [unwritable, Report.fail]

/-- What stands in a style sheet: neither a null nor an object. -/
def IsScalar (value : Value) : Prop := value ≠ .null ∧ ∀ inner, value ≠ .object inner

theorem scalar_cases (value : Value) : (∃ inner, value = .object inner) ∨ value = .null ∨ IsScalar value := by
  cases value with
  | object inner => exact .inl ⟨inner, rfl⟩
  | null => exact .inr (.inl rfl)
  | _ => exact .inr (.inr ⟨nofun, nofun⟩)

theorem compileEntries_scalar (stem selector : Text) {key : Text} {value : Value} (plain : isNested key = false)
    (scalar : IsScalar value) (rest : List (Text × Value)) :
    compileEntries stem selector ((key, value) :: rest) = (declare stem key value).bind fun declarations =>
      (compileEntries stem selector rest).bind fun others =>
        .pure ⟨declarations ++ others.declarations, others.nested⟩ := by
  rw [compileEntries, plain]
  · exact if_neg Bool.false_ne_true
  · exact scalar.2
  · exact scalar.1

/-- Only texts have findings, and these can be written. -/
theorem declare_findings (stem key : Text) (value : Value) :
    (declare stem key value).findings =
      (properties key).flatMap fun property => (resolveValue stem property value).2 := by
  unfold declare
  split
  · exact List.flatMap_map ..
  · rename_i unwritable
    cases value with
    | text text => exact absurd rfl unwritable
    | _ => simp [Report.fail, resolveValue]

mutual
theorem compileNested_succeeds (stem : Text) (selector selector' key : Text) :
    ∀ value, (compileNested stem selector key value).Succeeds →
      (compileNested stem selector' key value).Succeeds
  | .object fields, compiled => compileEntries_succeeds stem selector selector' fields compiled
  | .null, compiled | .bool _, compiled | .int _, compiled | .float _, compiled
  | .text _, compiled | .stamp _, compiled | .list _, compiled => compiled

theorem compileEntries_succeeds (stem : Text) (selector selector' : Text) :
    ∀ entries, (compileEntries stem selector entries).Succeeds →
      (compileEntries stem selector' entries).Succeeds
  | [], _ => ⟨_, rfl⟩
  | (key, value) :: rest, compiled => by
    have others := compileEntries_succeeds stem selector selector' rest
    by_cases nested : isNested key = true
    · have inside := compileNested_succeeds stem (innerSelector selector key)
        (innerSelector selector' key) key value
      unfold compileEntries at compiled ⊢
      rw [if_pos nested] at compiled ⊢
      obtain ⟨inner, innerOk, behind⟩ := Report.succeeds_bind.mp compiled
      obtain ⟨level, levelOk, -⟩ := Report.succeeds_bind.mp behind
      obtain ⟨inner', innerOk'⟩ := inside ⟨inner, innerOk⟩
      obtain ⟨level', levelOk'⟩ := others ⟨level, levelOk⟩
      exact Report.succeeds_bind.mpr
        ⟨inner', innerOk', Report.succeeds_bind.mpr ⟨level', levelOk', _, rfl⟩⟩
    · unfold compileEntries at compiled ⊢
      rw [if_neg nested] at compiled ⊢
      cases value with
      | object fields => exact compiled
      | null => exact others compiled
      | _ =>
        obtain ⟨declarations, declared, behind⟩ := Report.succeeds_bind.mp compiled
        obtain ⟨level, levelOk, -⟩ := Report.succeeds_bind.mp behind
        obtain ⟨level', levelOk'⟩ := others ⟨level, levelOk⟩
        exact Report.succeeds_bind.mpr
          ⟨declarations, declared, Report.succeeds_bind.mpr ⟨level', levelOk', _, rfl⟩⟩
end

/-- A style that is compiled for one class is compiled for every class. -/
theorem compile_succeeds {stem name identity : Text} {style : Fields Value}
    (compiled : (compile stem name identity style).Succeeds) (name' identity' : Text) :
    (compile stem name' identity' style).Succeeds := by
  obtain ⟨blocks, blocksOk, -⟩ := Report.succeeds_bind.mp compiled
  obtain ⟨level, levelOk, -⟩ := Report.succeeds_bind.mp ⟨blocks, blocksOk⟩
  obtain ⟨level', levelOk'⟩ := compileEntries_succeeds stem _ (.char '.' :: name') _ ⟨level, levelOk⟩
  have blocks' : (compileBlocks stem (.char '.' :: name') style).Succeeds :=
    Report.succeeds_bind.mpr ⟨level', levelOk', _, rfl⟩
  exact Report.succeeds_bind.mpr ⟨blocks'.choose, blocks'.choose_spec, _, rfl⟩

end Style

end StaticStyle
