import StaticStyle.Json.Canonical
import StaticStyle.Proofs.Binary64.Notation
import StaticStyle.Proofs.Json.Quoted

/-!
The JSON text of a value is unambiguous: it determines the value, numbers of either kind included, if no date
or time is in it. So the canonical text determines a value up to the order of keys.
-/

namespace StaticStyle

namespace Value

mutual
/-- Whether no part of a value is a date or a time. -/
def lacksStamps : Value → Bool
  | stamp _ => false
  | list items => itemsLackStamps items
  | object fields => fieldsLackStamps fields
  | _ => true

def itemsLackStamps : List Value → Bool
  | [] => true
  | item :: rest => item.lacksStamps && itemsLackStamps rest

def fieldsLackStamps : List (Text × Value) → Bool
  | [] => true
  | (_, value) :: rest => value.lacksStamps && fieldsLackStamps rest
end

theorem fieldsLackStamps_iff {fields : List (Text × Value)} :
    fieldsLackStamps fields = true ↔ ∀ field ∈ fields, field.2.lacksStamps = true := by
  induction fields with
  | nil => simp [fieldsLackStamps]
  | cons field fields ih => rw [fieldsLackStamps, Bool.and_eq_true, ih, List.forall_mem_cons]

mutual
theorem lacksStamps_ordered : ∀ {value : Value}, value.lacksStamps = true → value.ordered.lacksStamps = true
  | .null, _ | .bool _, _ | .int _, _ | .float _, _ | .text _, _ => rfl
  | .list _, lacking => itemsLackStamps_ordered lacking
  | .object _, lacking => fieldsLackStamps_iff.mpr fun field member =>
      fieldsLackStamps_iff.mp (fieldsLackStamps_ordered lacking) field ((List.mergeSort_perm _ _).mem_iff.mp member)

theorem itemsLackStamps_ordered : ∀ {items : List Value}, itemsLackStamps items = true →
    itemsLackStamps (orderedItems items) = true
  | [], _ => rfl
  | _ :: _, lacking => by
    simp only [itemsLackStamps, Bool.and_eq_true] at lacking
    rw [orderedItems, itemsLackStamps, lacksStamps_ordered lacking.1, itemsLackStamps_ordered lacking.2]
    rfl

theorem fieldsLackStamps_ordered : ∀ {fields : List (Text × Value)}, fieldsLackStamps fields = true →
    fieldsLackStamps (orderedFields fields) = true
  | [], _ => rfl
  | (_, _) :: _, lacking => by
    simp only [fieldsLackStamps, Bool.and_eq_true] at lacking
    rw [orderedFields, fieldsLackStamps, lacksStamps_ordered lacking.1, fieldsLackStamps_ordered lacking.2]
    rfl
end

theorem fieldsAreWritable_iff {fields : List (Text × Value)} :
    fieldsAreWritable fields = true ↔ ∀ field ∈ fields, field.2.isWritable = true := by
  induction fields with
  | nil => simp [fieldsAreWritable]
  | cons field fields ih => rw [fieldsAreWritable, Bool.and_eq_true, ih, List.forall_mem_cons]

theorem fieldsAreWritable_sorted (fields : Fields Value) :
    fieldsAreWritable (Fields.sorted fields) = fieldsAreWritable fields := by
  rw [Bool.eq_iff_iff, fieldsAreWritable_iff, fieldsAreWritable_iff]
  exact forall_congr' fun field => imp_congr_left (List.mergeSort_perm _ _).mem_iff

mutual
theorem isWritable_ordered : ∀ value : Value, value.ordered.isWritable = value.isWritable
  | .null | .bool _ | .int _ | .float _ | .text _ | .stamp _ => rfl
  | .list items => areWritable_orderedItems items
  | .object fields => by
    rw [ordered, isWritable, isWritable, fieldsAreWritable_sorted, fieldsAreWritable_orderedFields fields]

theorem areWritable_orderedItems : ∀ items : List Value, areWritable (orderedItems items) = areWritable items
  | [] => rfl
  | item :: rest => by
    rw [orderedItems, areWritable, areWritable, isWritable_ordered item, areWritable_orderedItems rest]

theorem fieldsAreWritable_orderedFields : ∀ fields : List (Text × Value),
    fieldsAreWritable (orderedFields fields) = fieldsAreWritable fields
  | [] => rfl
  | (key, value) :: rest => by
    rw [orderedFields, fieldsAreWritable, fieldsAreWritable, isWritable_ordered value,
      fieldsAreWritable_orderedFields rest]
end

end Value

/-- Values without parts and without quotes. -/
def Value.isBare : Value → Bool
  | .null | .bool _ | .int _ | .float _ => true
  | _ => false

/-- Bare values whose text is a numeral rather than a word. -/
def Value.isNumeral : Value → Bool
  | .int _ | .float (.finite ..) => true
  | _ => false

namespace Text

theorem ofNat_digits {n : Nat} {c : CodePoint} (member : c ∈ ofNat n) : c.isAsciiDigit = true := by
  obtain ⟨d, found, rfl⟩ := List.mem_map.mp member
  exact Nat.isDigit_of_mem_toDigits (by omega) (by omega) found

theorem ofNat_injective {m n : Nat} (same : ofNat m = ofNat n) : m = n := by
  have digits := List.map_injective_iff.mpr (fun _ _ equal => CodePoint.char.inj equal) same
  rw [← Nat.ofDigitChars_ten_toDigits (n := m), digits, Nat.ofDigitChars_ten_toDigits]

theorem ofInt_digits {n : Int} {c : CodePoint} (member : c ∈ ofInt n) :
    c.isAsciiDigit = true ∨ c = .char '-' := by
  cases n with
  | ofNat n => exact .inl (ofNat_digits member)
  | negSucc n =>
    rcases List.mem_cons.mp member with rfl | digit
    · exact .inr rfl
    · exact .inl (ofNat_digits digit)

theorem ofInt_injective {m n : Int} (same : ofInt m = ofInt n) : m = n := by
  have unsigned {m n : Nat} : ofNat m ≠ .char '-' :: ofNat n := by
    intro equal
    have member : CodePoint.char '-' ∈ ofNat m := by simp [equal]
    exact absurd (ofNat_digits member) (by decide)
  cases m with
  | ofNat m =>
    cases n with
    | ofNat n => rw [ofNat_injective same]
    | negSucc n => exact absurd same unsigned
  | negSucc m =>
    cases n with
    | ofNat n => exact absurd same.symm unsigned
    | negSucc n => rw [Nat.succ.inj (ofNat_injective (List.cons.inj same).2)]

end Text

namespace Json

mutual
theorem defect?_eq : ∀ {value : Value}, value.lacksStamps = true →
    defect? value = if value.isWritable then none else some .oversizedInteger
  | .null, _ | .bool _, _ | .float _, _ | .text _, _ | .int _, _ => rfl
  | .list _, lacking => itemsDefect?_eq lacking
  | .object _, lacking => fieldsDefect?_eq lacking

theorem itemsDefect?_eq : ∀ {items : List Value}, Value.itemsLackStamps items = true →
    itemsDefect? items = if Value.areWritable items then none else some .oversizedInteger
  | [], _ => rfl
  | item :: rest, lacking => by
    simp only [Value.itemsLackStamps, Bool.and_eq_true] at lacking
    rw [itemsDefect?, defect?_eq lacking.1, itemsDefect?_eq lacking.2, Value.areWritable]
    cases item.isWritable <;> simp

theorem fieldsDefect?_eq : ∀ {fields : List (Text × Value)}, Value.fieldsLackStamps fields = true →
    fieldsDefect? fields = if Value.fieldsAreWritable fields then none else some .oversizedInteger
  | [], _ => rfl
  | (_, value) :: rest, lacking => by
    simp only [Value.fieldsLackStamps, Bool.and_eq_true] at lacking
    rw [fieldsDefect?, defect?_eq lacking.1, fieldsDefect?_eq lacking.2, Value.fieldsAreWritable]
    cases value.isWritable <;> simp
end

theorem defect?_ordered {value : Value} (lacking : value.lacksStamps = true) :
    defect? value.ordered = if value.isWritable then none else some .oversizedInteger := by
  rw [defect?_eq (Value.lacksStamps_ordered lacking), Value.isWritable_ordered]

/-- The marks that begin, separate and end values with parts or quotes. -/
def isMark (c : CodePoint) : Bool := c.isOneOf "\"[]\x7b\x7d,"

/-- The code points of numerals. -/
def isNumeric (c : CodePoint) : Bool := c.isAsciiDigit || c.isOneOf ".+-e"

private theorem isMark_of_isNumeric {c : CodePoint} (numeric : isNumeric c = true) :
    isMark c = false := by
  by_contra mark
  simp only [Bool.not_eq_false, isMark, CodePoint.isOneOf, Text.ofString] at mark
  simp at mark
  rcases mark with rfl | rfl | rfl | rfl | rfl | rfl <;> revert numeric <;> decide

theorem write_numeral {value : Value} (numeral : value.isNumeral = true) {c : CodePoint}
    (member : c ∈ write quote value) : isNumeric c = true := by
  match value with
  | .int n =>
    rcases Text.ofInt_digits member with digit | rfl
    · simp [isNumeric, digit]
    · decide
  | .float (.finite negative significand exponent canonical) =>
    simp only [write, writeFloat, Binary64.write_finite, List.mem_append, List.mem_map] at member
    rcases member with sign | ⟨d, found, rfl⟩
    · cases negative <;> simp at sign
      subst sign
      decide
    · rcases Decimal.mem_write found with digit | rfl | rfl | rfl | rfl
      · simp [isNumeric, CodePoint.isAsciiDigit, digit]
      all_goals decide

/-- Bare values are numerals or one of six words. -/
theorem word_cases {value : Value} (bare : value.isBare = true)
    (word : value.isNumeral = false) :
    value = .null ∨ value = .bool false ∨ value = .bool true ∨ value = .float .nan ∨
      value = .float (.infinity false) ∨ value = .float (.infinity true) := by
  cases value with
  | null => simp
  | bool b => cases b <;> simp
  | int n => simp [Value.isNumeral] at word
  | float x =>
    cases x with
    | nan => simp
    | infinity negative => cases negative <;> simp
    | finite negative significand exponent canonical => simp [Value.isNumeral] at word
  | text t => simp [Value.isBare] at bare
  | stamp s => simp [Value.isBare] at bare
  | list items => simp [Value.isBare] at bare
  | object fields => simp [Value.isBare] at bare

private theorem write_word {value : Value} (bare : value.isBare = true)
    (word : value.isNumeral = false) :
    (∃ c ∈ write quote value, isNumeric c = false) ∧ ∀ c ∈ write quote value, isMark c = false := by
  rcases word_cases bare word with rfl | rfl | rfl | rfl | rfl | rfl <;> decide

private theorem write_no_mark {value : Value} (bare : value.isBare = true) {c : CodePoint}
    (member : c ∈ write quote value) : isMark c = false := by
  by_cases numeral : value.isNumeral = true
  · exact isMark_of_isNumeric (write_numeral numeral member)
  · exact (write_word bare (Bool.not_eq_true _ ▸ numeral)).2 c member

private theorem write_nonempty {value : Value} (bare : value.isBare = true) :
    write quote value ≠ [] := by
  cases numeral : value.isNumeral
  · rcases word_cases bare numeral with rfl | rfl | rfl | rfl | rfl | rfl <;> decide
  · match value with
    | .int (.ofNat n) => simp [write, Text.ofInt, Text.ofNat]
    | .int (.negSucc n) => simp [write, Text.ofInt]
    | .float (.finite negative significand exponent canonical) =>
      obtain ⟨c, head, -⟩ := (Binary64.numeral significand exponent).head?_write
      simp only [write, writeFloat, Binary64.write_finite]
      intro empty
      simp only [List.append_eq_nil_iff, List.map_eq_nil_iff] at empty
      simp [empty.2] at head

private theorem ofInt_ne_write {n : Int} {negative : Bool} {significand : Nat} {exponent : Int}
    (canonical : Binary64.IsCanonical significand exponent) :
    Text.ofInt n ≠ (Binary64.finite negative significand exponent canonical).write := by
  intro same
  rw [Binary64.write_finite] at same
  obtain ⟨c, mark, member⟩ : ∃ c : Char, (c = '.' ∨ c = 'e') ∧
      c ∈ (Binary64.numeral significand exponent).write := by
    rcases (Binary64.numeral significand exponent).mark_mem_write with point | exponent
    · exact ⟨_, .inl rfl, point⟩
    · exact ⟨_, .inr rfl, exponent⟩
  have inside : CodePoint.char c ∈ Text.ofInt n := by
    rw [same]
    exact List.mem_append_right _ (List.mem_map_of_mem member)
  rcases Text.ofInt_digits inside with digit | minus
  · rcases mark with rfl | rfl <;> revert digit <;> decide
  · rcases mark with rfl | rfl <;> revert minus <;> decide

private theorem write_injective_numeral {value value' : Value} (numeral : value.isNumeral = true)
    (numeral' : value'.isNumeral = true) (same : write quote value = write quote value') :
    value = value' := by
  match value, value' with
  | .int m, .int n => rw [Text.ofInt_injective same]
  | .int m, .float (.finite _ _ _ canonical) => exact absurd same (ofInt_ne_write canonical)
  | .float (.finite _ _ _ canonical), .int n => exact absurd same.symm (ofInt_ne_write canonical)
  | .float (.finite ..), .float (.finite ..) => rw [Binary64.finite_eq_of_write_eq same]

private theorem write_injective_bare {value value' : Value} (bare : value.isBare = true)
    (bare' : value'.isBare = true) (same : write quote value = write quote value') :
    value = value' := by
  cases numeral : value.isNumeral <;> cases numeral' : value'.isNumeral
  · rcases word_cases bare numeral with rfl | rfl | rfl | rfl | rfl | rfl <;>
      rcases word_cases bare' numeral' with rfl | rfl | rfl | rfl | rfl | rfl <;>
      first | rfl | exact absurd same (by decide)
  · obtain ⟨⟨c, member, other⟩, -⟩ := write_word bare numeral
    rw [same] at member
    simp [write_numeral numeral' member] at other
  · obtain ⟨⟨c, member, other⟩, -⟩ := write_word bare' numeral'
    rw [← same] at member
    simp [write_numeral numeral member] at other
  · exact write_injective_numeral numeral numeral' same

/-- What can follow a value inside a text. -/
def FollowsValue (rest : Text) : Prop :=
  ∀ c ∈ rest.head?, isMark c = true

private theorem unmarked_cancel {text text' rest rest' : Text}
    (unmarked : ∀ c ∈ text, isMark c = false) (unmarked' : ∀ c ∈ text', isMark c = false)
    (follows : FollowsValue rest) (follows' : FollowsValue rest')
    (same : text ++ rest = text' ++ rest') : text = text' ∧ rest = rest' := by
  induction text generalizing text' with
  | nil =>
    cases text' with
    | nil => exact ⟨rfl, same⟩
    | cons d text' =>
      have mark := follows d (by rw [← List.nil_append rest, same]; rfl)
      simp [unmarked' d (by simp)] at mark
  | cons c text ih =>
    cases text' with
    | nil =>
      have mark := follows' c (by rw [← List.nil_append rest', ← same]; rfl)
      simp [unmarked c (by simp)] at mark
    | cons d text' =>
      obtain ⟨rfl, rests⟩ := List.cons.inj same
      obtain ⟨rfl, equal⟩ := ih (fun c member => unmarked c (by simp [member]))
        (fun c member => unmarked' c (by simp [member])) rests
      exact ⟨rfl, equal⟩

/-- The mark that a value with parts or quotes begins with. -/
private def opening : Value → CodePoint
  | .list _ => .char '['
  | .object _ => .char '\x7b'
  | _ => .char '"'

private theorem write_opening {value : Value} (enclosed : value.isBare = false) :
    ∃ rest, write quote value = opening value :: rest := by
  cases value <;> first | exact ⟨_, rfl⟩ | simp [Value.isBare] at enclosed

private theorem isMark_opening (value : Value) : isMark (opening value) = true := by
  cases value <;> (simp only [opening]; decide)

private theorem bare_ne_enclosed {value value' : Value} {rest rest' : Text}
    (bare : value.isBare = true) (enclosed : value'.isBare = false) :
    write quote value ++ rest ≠ write quote value' ++ rest' := by
  intro same
  obtain ⟨inner, begins⟩ := write_opening enclosed
  have unmarked := fun c => write_no_mark bare (c := c)
  cases written : write quote value with
  | nil => exact write_nonempty bare written
  | cons c text =>
    rw [written, begins] at same
    obtain ⟨rfl, -⟩ := List.cons.inj same
    have plain := unmarked (opening value') (by simp [written])
    simp [isMark_opening] at plain

private theorem bare_cancel {value value' : Value} {rest rest' : Text} (bare : value.isBare = true)
    (follows : FollowsValue rest) (follows' : FollowsValue rest')
    (same : write quote value ++ rest = write quote value' ++ rest') :
    value = value' ∧ rest = rest' := by
  cases bare' : value'.isBare
  · exact absurd same (bare_ne_enclosed bare bare')
  · obtain ⟨texts, rests⟩ := unmarked_cancel (fun _ => write_no_mark bare)
      (fun _ => write_no_mark bare') follows follows' same
    exact ⟨write_injective_bare bare bare' texts, rests⟩

private theorem head?_write (value : Value) :
    ∃ c text, write quote value = c :: text ∧ c ≠ .char ']' ∧ c ≠ .char '\x7d' := by
  cases bare : value.isBare
  · obtain ⟨text, begins⟩ := write_opening bare
    refine ⟨_, text, begins, ?_, ?_⟩ <;> cases value <;> simp [opening]
  · cases written : write quote value with
    | nil => exact absurd written (write_nonempty bare)
    | cons c text =>
      have unmarked := write_no_mark bare (c := c) (by simp [written])
      exact ⟨c, text, rfl, by rintro rfl; revert unmarked; decide,
        by rintro rfl; revert unmarked; decide⟩

/-- What follows the first of several parts: the other parts, the closing mark and the rest. -/
private def behindFirst (closing : CodePoint) (parts : List Text) (rest : Text) : Text :=
  match parts with
  | [] => closing :: rest
  | part :: parts => .char ',' :: (Text.join [.char ','] (part :: parts) ++ closing :: rest)

private theorem join_cons (closing : CodePoint) (part : Text) (parts : List Text) (rest : Text) :
    Text.join [.char ','] (part :: parts) ++ closing :: rest =
      part ++ behindFirst closing parts rest := by
  cases parts <;> simp [Text.join, behindFirst]

private theorem follows_behindFirst {closing : CodePoint} (mark : isMark closing = true)
    (parts : List Text) (rest : Text) : FollowsValue (behindFirst closing parts rest) := by
  cases parts with
  | nil => simpa [FollowsValue, behindFirst] using mark
  | cons part parts =>
    simp only [FollowsValue, behindFirst, List.head?_cons, Option.mem_some_iff, forall_eq']
    decide

private theorem behindFirst_cancel {closing : CodePoint} (other : closing ≠ .char ',')
    {parts parts' : List Text} {rest rest' : Text}
    (same : behindFirst closing parts rest = behindFirst closing parts' rest') :
    Text.join [.char ','] parts ++ closing :: rest =
      Text.join [.char ','] parts' ++ closing :: rest' := by
  cases parts <;> cases parts' <;> simp_all [behindFirst, Text.join, eq_comm]

mutual
/-- A value is told from what follows it. -/
theorem write_cancel : ∀ (value value' : Value) {rest rest' : Text}, value.lacksStamps = true →
    value'.lacksStamps = true → FollowsValue rest → FollowsValue rest' →
      write quote value ++ rest = write quote value' ++ rest' → value = value' ∧ rest = rest'
  | .null, _, _, _, _, _, follows, follows', same => bare_cancel rfl follows follows' same
  | .bool _, _, _, _, _, _, follows, follows', same => bare_cancel rfl follows follows' same
  | .int _, _, _, _, _, _, follows, follows', same => bare_cancel rfl follows follows' same
  | .float _, _, _, _, _, _, follows, follows', same => bare_cancel rfl follows follows' same
  | .text text, value', _, _, _, lacking', _, _, same => by
    cases value' with
    | text text' =>
      obtain ⟨rfl, rests⟩ := quote_cancel same
      exact ⟨rfl, rests⟩
    | stamp s => simp [Value.lacksStamps] at lacking'
    | list items => simp [write, quote, enclose] at same
    | object fields => simp [write, quote, enclose] at same
    | _ => exact absurd same.symm (bare_ne_enclosed rfl rfl)
  | .list items, value', _, _, lacking, lacking', _, _, same => by
    cases value' with
    | list items' =>
      simp only [write, enclose, List.cons_append, List.append_assoc, List.nil_append,
        List.cons.injEq, true_and] at same
      obtain ⟨rfl, rests⟩ := items_cancel items items' lacking lacking' same
      exact ⟨rfl, rests⟩
    | text text => simp [write, quote, enclose] at same
    | stamp s => simp [Value.lacksStamps] at lacking'
    | object fields => simp [write, enclose] at same
    | _ => exact absurd same.symm (bare_ne_enclosed rfl rfl)
  | .object fields, value', _, _, lacking, lacking', _, _, same => by
    cases value' with
    | object fields' =>
      simp only [write, enclose, List.cons_append, List.append_assoc, List.nil_append,
        List.cons.injEq, true_and] at same
      obtain ⟨rfl, rests⟩ := fields_cancel fields fields' lacking lacking' same
      exact ⟨rfl, rests⟩
    | text text => simp [write, quote, enclose] at same
    | stamp s => simp [Value.lacksStamps] at lacking'
    | list items => simp [write, enclose] at same
    | _ => exact absurd same.symm (bare_ne_enclosed rfl rfl)

theorem items_cancel : ∀ (items items' : List Value) {rest rest' : Text},
    Value.itemsLackStamps items = true → Value.itemsLackStamps items' = true →
    Text.join [.char ','] (writeItems quote items) ++ .char ']' :: rest =
      Text.join [.char ','] (writeItems quote items') ++ .char ']' :: rest' →
        items = items' ∧ rest = rest'
  | [], items', _, _, _, _, same => by
    cases items' with
    | nil => exact ⟨rfl, by simpa [writeItems, Text.join] using same⟩
    | cons item items' =>
      obtain ⟨c, text, begins, noClosing, -⟩ := head?_write item
      rw [writeItems, writeItems, join_cons, begins] at same
      exact absurd (List.cons.inj same).1.symm noClosing
  | item :: items, items', _, _, lacking, lacking', same => by
    cases items' with
    | nil =>
      obtain ⟨c, text, begins, noClosing, -⟩ := head?_write item
      rw [writeItems, writeItems, join_cons, begins] at same
      exact absurd (List.cons.inj same).1 noClosing
    | cons item' items' =>
      simp only [Value.itemsLackStamps, Bool.and_eq_true] at lacking lacking'
      rw [writeItems, writeItems, join_cons, join_cons] at same
      obtain ⟨rfl, rests⟩ := write_cancel item item' lacking.1 lacking'.1
        (follows_behindFirst (by decide) _ _) (follows_behindFirst (by decide) _ _) same
      obtain ⟨rfl, equal⟩ := items_cancel items items' lacking.2 lacking'.2
        (behindFirst_cancel (by decide) rests)
      exact ⟨rfl, equal⟩

theorem fields_cancel : ∀ (fields fields' : List (Text × Value)) {rest rest' : Text},
    Value.fieldsLackStamps fields = true → Value.fieldsLackStamps fields' = true →
    Text.join [.char ','] (writeFields quote fields) ++ .char '\x7d' :: rest =
      Text.join [.char ','] (writeFields quote fields') ++ .char '\x7d' :: rest' →
        fields = fields' ∧ rest = rest'
  | [], fields', _, _, _, _, same => by
    cases fields' with
    | nil => exact ⟨rfl, by simpa [writeFields, Text.join] using same⟩
    | cons field fields' =>
      rw [writeFields, writeFields, join_cons] at same
      simp [Text.join, quote] at same
  | (key, value) :: fields, fields', _, _, lacking, lacking', same => by
    cases fields' with
    | nil =>
      rw [writeFields, writeFields, join_cons] at same
      simp [Text.join, quote] at same
    | cons field' fields' =>
      obtain ⟨key', value'⟩ := field'
      simp only [Value.fieldsLackStamps, Bool.and_eq_true] at lacking lacking'
      rw [writeFields, writeFields, join_cons, join_cons, List.append_assoc, List.append_assoc] at same
      obtain ⟨rfl, values⟩ := quote_cancel same
      obtain ⟨rfl, rests⟩ := write_cancel value value' lacking.1 lacking'.1
        (follows_behindFirst (by decide) _ _) (follows_behindFirst (by decide) _ _) (List.cons.inj values).2
      obtain ⟨rfl, equal⟩ := fields_cancel fields fields' lacking.2 lacking'.2
        (behindFirst_cancel (by decide) rests)
      exact ⟨rfl, equal⟩
end

/-- Values that are written alike are the same. -/
theorem write_injective {value value' : Value} (lacking : value.lacksStamps = true)
    (lacking' : value'.lacksStamps = true) (same : write quote value = write quote value') : value = value' := by
  have empty : FollowsValue [] := by simp [FollowsValue]
  exact (write_cancel value value' lacking lacking' empty empty (by simpa using same)).1

/-- Values with the same canonical text differ in the order of keys only. -/
theorem ordered_eq_of_canonical_eq {value value' : Value} (lacking : value.lacksStamps = true)
    (lacking' : value'.lacksStamps = true) (same : canonical value = canonical value') :
    value.ordered = value'.ordered :=
  write_injective (Value.lacksStamps_ordered lacking) (Value.lacksStamps_ordered lacking') same

end Json

end StaticStyle
