import StaticStyle.Config.Load
import StaticStyle.Theme.Load

namespace StaticStyle

namespace Text

private theorem toString?_char (c : Char) (text : Text) :
    toString? (.char c :: text) = text.toString?.map fun s => String.ofList (c :: s.toList) := by
  unfold toString?
  rw [List.mapM_cons]
  generalize List.mapM (m := Option) _ text = chars
  cases chars with
  | none => rfl
  | some chars => simp

theorem toString?_eq_some_iff {text : Text} {s : String} : text.toString? = some s ↔ text = ofString s := by
  induction text generalizing s with
  | nil =>
    rw [show toString? [] = some "" from rfl, Option.some.injEq, ofString, List.nil_eq, List.map_eq_nil_iff]
    exact ⟨fun same => same ▸ rfl, fun empty => (String.toList_eq_nil_iff.mp empty).symm⟩
  | cons c text ih =>
    cases c with
    | surrogate index => cases chars : s.toList <;> simp [toString?, ofString, chars]
    | char c =>
      rw [toString?_char, Option.map_eq_some_iff]
      constructor
      · rintro ⟨rest, found, rfl⟩
        simp [ih.mp found, ofString]
      · intro same
        cases chars : s.toList with
        | nil => simp [ofString, chars] at same
        | cons first rest =>
          simp only [ofString, chars, List.map_cons, List.cons.injEq, CodePoint.char.injEq] at same
          obtain ⟨rfl, rfl⟩ := same
          refine ⟨String.ofList rest, ih.mpr (by simp [ofString]), ?_⟩
          rw [String.toList_ofList, ← chars, String.ofList_toList]

end Text

/-- Whether a value can be compared with a number. -/
def Value.isNumber : Value → Bool
  | .bool _ => true
  | .int _ => true
  | .float _ => true
  | _ => false

namespace Options

def names : List String :=
  ["class_prefix", "attribute", "class_attribute", "styles_callee", "theme_prefix", "hash_length", "extensions",
    "virtual_module_id", "inject_import"]

/-- A name as an option may be written, with dashes for low lines. -/
def IsNamed (option : String) (name : Text) : Prop := Text.substitute '-' [.char '_'] name = Text.ofString option

instance (option : String) (name : Text) : Decidable (IsNamed option name) := inferInstanceAs (Decidable (_ = _))

/-- An entry of a table that can be an option: it has the name of one, and extensions have items. -/
structure IsTaken (entry : Text × Value) : Prop where
  named : ∃ option ∈ names, IsNamed option entry.1
  listed : IsNamed "extensions" entry.1 → items? entry.2 ≠ none

/-- The value that a table has for an option: the last one under its name. -/
def setting? (option : String) : Fields Value → Option Value
  | [] => none
  | (name, value) :: rest => (setting? option rest).or (if IsNamed option name then some value else none)

/-- Why an entry is refused. -/
def refusal (entry : Text × Value) : ConfigFault :=
  if IsNamed "extensions" entry.1 then .defect .mistyped else .unknownOption entry.1

section Settings

variable {options settled : Options} {name : Text} {value : Value} {fields : Fields Value} {fault : ConfigFault}

private theorem isNamed_of_toString? {option : String}
    (written : (Text.substitute '-' [.char '_'] name).toString? = some option) : IsNamed option name :=
  Text.toString?_eq_some_iff.mp written

private theorem IsNamed.unique {option option' : String} (named : IsNamed option name)
    (named' : IsNamed option' name) : option = option' := by
  have same := Text.toString?_eq_some_iff.mpr (named.symm.trans named')
  rw [Text.toString?_eq_some_iff.mpr rfl] at same
  exact Option.some.inj same

/-- An entry is set or refused. -/
theorem set_cases (options : Options) (name : Text) (value : Value) :
    (IsTaken (name, value) ∧ ∃ settled, options.set name value = .ok settled ∧
      settled.classStem = (if IsNamed "class_prefix" name then value else options.classStem) ∧
      settled.themeStem = (if IsNamed "theme_prefix" name then value else options.themeStem) ∧
      settled.hashLength = if IsNamed "hash_length" name then value else options.hashLength) ∨
    ¬ IsTaken (name, value) ∧ options.set name value = .error (refusal (name, value)) := by
  have other {option option' : String} (named : IsNamed option name) (differs : option ≠ option') :
      ¬ IsNamed option' name := fun named' => differs (named.unique named')
  unfold set
  split
  case h_7 written =>
    have named := isNamed_of_toString? written
    cases listed : items? value with
    | none =>
      refine .inr ⟨fun taken => taken.listed named listed, ?_⟩
      simp [refusal, named]
    | some extensions =>
      refine .inl ⟨⟨⟨_, by decide, named⟩, fun _ => by simp [listed]⟩, _, rfl, ?_⟩
      simp [other named]
  case h_10 =>
    have unnamed : ∀ option ∈ names, ¬ IsNamed option name := by
      intro option member named
      have written := Text.toString?_eq_some_iff.mpr named
      simp only [names, List.mem_cons, List.not_mem_nil, or_false] at member
      rcases member with rfl | rfl | rfl | rfl | rfl | rfl | rfl | rfl | rfl <;> contradiction
    refine .inr ⟨fun ⟨⟨option, member, named⟩, _⟩ => unnamed option member named, ?_⟩
    rw [refusal, if_neg (unnamed "extensions" (by decide))]
  all_goals
    rename_i written
    have named := isNamed_of_toString? written
    refine .inl ⟨⟨⟨_, by decide, named⟩, fun listed => absurd listed (other named (by decide))⟩, _, rfl, ?_⟩
    simp [named, other named]

/-- The first entry that is refused decides. -/
theorem foldlM_set_error_iff (options : Options) :
    fields.foldlM (fun options entry => options.set entry.1 entry.2) options = .error fault ↔
    ∃ front entry behind, fields = front ++ entry :: behind ∧ (∀ taken ∈ front, IsTaken taken) ∧ ¬ IsTaken entry ∧
      fault = refusal entry := by
  induction fields generalizing options with
  | nil => simp [pure, Except.pure]
  | cons first rest ih =>
    rw [List.foldlM_cons]
    rcases set_cases options first.1 first.2 with ⟨taken, settled, set, -⟩ | ⟨refused, set⟩
    · rw [set]
      change (rest.foldlM _ settled = _) ↔ _
      rw [ih]
      constructor
      · rintro ⟨front, entry, behind, rfl, all, refused, same⟩
        exact ⟨first :: front, entry, behind, rfl, List.forall_mem_cons.mpr ⟨taken, all⟩, refused, same⟩
      · rintro ⟨front, entry, behind, whole, all, refused, same⟩
        cases front with
        | nil =>
          obtain ⟨rfl, rfl⟩ := List.cons.inj whole
          exact absurd taken refused
        | cons first' front =>
          obtain ⟨rfl, rfl⟩ := List.cons.inj whole
          exact ⟨front, entry, behind, rfl, (List.forall_mem_cons.mp all).2, refused, same⟩
    · rw [set]
      change (Except.error (refusal first) = .error fault) ↔ _
      rw [Except.error.injEq]
      constructor
      · rintro rfl
        exact ⟨[], first, rest, rfl, by simp, refused, rfl⟩
      · rintro ⟨front, entry, behind, whole, all, -, same⟩
        cases front with
        | nil => rw [same, (List.cons.inj whole).1]
        | cons first' front =>
          obtain ⟨rfl, -⟩ := List.cons.inj whole
          exact absurd (all first List.mem_cons_self) refused

/-- Entries that are all taken leave the last value of each option. -/
theorem foldlM_set_ok (taken : ∀ entry ∈ fields, IsTaken entry) (options : Options) :
    ∃ settled, fields.foldlM (fun options entry => options.set entry.1 entry.2) options = .ok settled ∧
      settled.classStem = (setting? "class_prefix" fields).getD options.classStem ∧
      settled.themeStem = (setting? "theme_prefix" fields).getD options.themeStem ∧
      settled.hashLength = (setting? "hash_length" fields).getD options.hashLength := by
  induction fields generalizing options with
  | nil => exact ⟨options, rfl, rfl, rfl, rfl⟩
  | cons first rest ih =>
    obtain ⟨takenFirst, takenRest⟩ := List.forall_mem_cons.mp taken
    rcases set_cases options first.1 first.2 with ⟨-, next, set, values⟩ | ⟨refused, -⟩
    · obtain ⟨settled, read, settledValues⟩ := ih takenRest next
      refine ⟨settled, ?_, ?_⟩
      · rw [List.foldlM_cons, set]
        exact read
      · simp only [settledValues, values, setting?]
        refine ⟨?_, ?_, ?_⟩ <;> cases setting? _ rest <;> split <;> simp_all
    · exact absurd takenFirst refused

end Settings

end Options

namespace Config

open Options

/-- Defects of a table of options, each where the entries that are looked at before have none. -/
inductive TableBreaks (fields : Fields Value) : Defect → Prop where
  /-- The first entry that is refused has the extensions, and its value has no items. -/
  | extensions {front behind : Fields Value} {name : Text} {value : Value}
      (whole : fields = front ++ (name, value) :: behind) (taken : ∀ entry ∈ front, IsTaken entry)
      (named : IsNamed "extensions" name) (unlisted : items? value = none) : TableBreaks fields .mistyped
  | hashLength {value : Value} (taken : ∀ entry ∈ fields, IsTaken entry)
      (set : setting? "hash_length" fields = some value) (uncounted : value.isNumber = false) :
      TableBreaks fields .mistyped
  /-- A number of digits that is out of range and too long to be shown. -/
  | shownLength {n : Int} (taken : ∀ entry ∈ fields, IsTaken entry)
      (set : setting? "hash_length" fields = some (.int n)) (oversized : Numeral.bound ≤ n.natAbs) :
      TableBreaks fields .oversizedInteger
  | themeStem {value : Value} (taken : ∀ entry ∈ fields, IsTaken entry)
      (length : ∀ length, setting? "hash_length" fields = some length → isHashLength? length = some true)
      (classStem : ∀ stem, setting? "class_prefix" fields = some stem → stem.isTruthy = true)
      (set : setting? "theme_prefix" fields = some value) (noText : value.text? = none) : TableBreaks fields .notText

section Checks

variable {value : Value} {options : Options} {fields : Fields Value} {defect : Defect}

theorem isHashLength?_eq_none_iff : isHashLength? value = none ↔ value.isNumber = false := by
  cases value <;> simp [isHashLength?, Value.isNumber]

theorem isNumber_of_isHashLength? {inside : Bool} (range : isHashLength? value = some inside) :
    value.isNumber = true :=
  (Bool.not_eq_false _).mp fun uncounted => by simp [isHashLength?_eq_none_iff.mpr uncounted] at range

private theorem lt_bound : 32 < Numeral.bound := by
  have limit : 2 ≤ Numeral.digitLimit := by decide
  unfold Numeral.bound
  generalize Numeral.digitLimit = most at limit ⊢
  exact Nat.lt_of_lt_of_le (by decide : 32 < 10 ^ 2) (Nat.pow_le_pow_right (by decide) limit)

/-- A number of digits that is out of range is told, unless it is too long for that. -/
theorem lengthFault_eq_defect_iff (outside : isHashLength? value = some false) :
    lengthFault value = .defect defect ↔
      (∃ n, value = .int n ∧ Numeral.bound ≤ n.natAbs) ∧ defect = .oversizedInteger := by
  cases value with
  | int n =>
    by_cases writable : n.natAbs < Numeral.bound
    · simp [lengthFault, Value.shown, Value.isWritable, writable, Nat.not_le_of_lt writable]
    · simp [lengthFault, Value.shown, Value.isWritable, writable, Nat.le_of_not_lt writable, eq_comm]
  | bool b => simp [lengthFault, Value.shown, Value.isWritable]
  | float x => simp [lengthFault, Value.shown, Value.isWritable]
  | _ => simp [isHashLength?] at outside

theorem isHashLength?_of_oversized {n : Int} (oversized : Numeral.bound ≤ n.natAbs) :
    isHashLength? (.int n) = some false := by
  have large := lt_bound
  simp only [isHashLength?, Option.some.injEq, Bool.and_eq_false_iff, decide_eq_false_iff_not]
  generalize Numeral.bound = bound at oversized large
  omega

/-- The checks of the options come one after another. -/
theorem ofOptions_defect_iff : ofOptions options = .error (.defect defect) ↔
    options.hashLength.isNumber = false ∧ defect = .mistyped ∨
    (∃ n, options.hashLength = .int n ∧ Numeral.bound ≤ n.natAbs) ∧ defect = .oversizedInteger ∨
    isHashLength? options.hashLength = some true ∧ options.classStem.isTruthy = true ∧
      options.themeStem.text? = none ∧ defect = .notText := by
  unfold ofOptions
  split
  · rename_i range
    have uncounted := isHashLength?_eq_none_iff.mp range
    have noInt : ¬ ∃ n, options.hashLength = .int n ∧ Numeral.bound ≤ n.natAbs := by
      rintro ⟨n, same, -⟩
      simp [same, Value.isNumber] at uncounted
    simpa [range, uncounted, noInt] using eq_comm
  · rename_i range
    have counted := isNumber_of_isHashLength? range
    rw [Except.error.injEq, lengthFault_eq_defect_iff range]
    simp [range, counted]
  · rename_i range
    have counted := isNumber_of_isHashLength? range
    have short : ¬ ∃ n, options.hashLength = .int n ∧ Numeral.bound ≤ n.natAbs := by
      rintro ⟨n, same, oversized⟩
      simp [same, isHashLength?_of_oversized oversized] at range
    by_cases truthy : options.classStem.isTruthy = true
    · rw [dif_pos truthy]
      cases stem : options.themeStem with
      | text themeStem =>
        by_cases dashes : themeStem.startsWith "--" = true <;> simp [counted, short, dashes, Value.text?]
      | _ => simpa [range, counted, short, truthy, Value.text?] using eq_comm
    · simp [truthy, counted, short]

private theorem ofFields_of_taken (taken : ∀ entry ∈ fields, IsTaken entry) :
    ∃ options, ofFields fields = ofOptions options ∧
      options.classStem = (setting? "class_prefix" fields).getD (.text "zx") ∧
      options.themeStem = (setting? "theme_prefix" fields).getD (.text "--theme") ∧
      options.hashLength = (setting? "hash_length" fields).getD (.int 8) := by
  obtain ⟨settled, read, values⟩ := foldlM_set_ok taken .standard
  refine ⟨settled, ?_, values⟩
  rw [ofFields, Options.ofFields, read]
  rfl

private theorem ofFields_of_refused {entry : Text × Value} {front behind : Fields Value}
    (whole : fields = front ++ entry :: behind) (taken : ∀ entry ∈ front, IsTaken entry) (refused : ¬ IsTaken entry) :
    ofFields fields = .error (refusal entry) := by
  rw [ofFields, Options.ofFields,
    (foldlM_set_error_iff .standard).mpr ⟨front, entry, behind, whole, taken, refused, rfl⟩]
  rfl

theorem TableBreaks.ofFields_eq (breaks : TableBreaks fields defect) : ofFields fields = .error (.defect defect) := by
  cases breaks with
  | extensions whole taken named unlisted =>
    rw [ofFields_of_refused whole taken fun taken => taken.listed named unlisted, refusal, if_pos named]
  | hashLength taken set uncounted =>
    obtain ⟨options, checked, -, -, hashLength⟩ := ofFields_of_taken taken
    rw [checked, ofOptions_defect_iff, hashLength, set]
    exact .inl ⟨uncounted, rfl⟩
  | shownLength taken set oversized =>
    obtain ⟨options, checked, -, -, hashLength⟩ := ofFields_of_taken taken
    rw [checked, ofOptions_defect_iff, hashLength, set]
    exact .inr (.inl ⟨⟨_, rfl, oversized⟩, rfl⟩)
  | themeStem taken length classStem set noText =>
    obtain ⟨options, checked, stem, themeStem, hashLength⟩ := ofFields_of_taken taken
    rw [checked, ofOptions_defect_iff, hashLength, stem, themeStem, set]
    refine .inr (.inr ⟨?_, ?_, noText, rfl⟩)
    · cases found : setting? "hash_length" fields with
      | none => rfl
      | some value => exact length value found
    · cases found : setting? "class_prefix" fields with
      | none => rfl
      | some value => exact classStem value found

/-- A defect of a table comes from nothing else. -/
theorem tableBreaks_of_defect (defective : ofFields fields = .error (.defect defect)) : TableBreaks fields defect := by
  by_cases taken : ∀ entry ∈ fields, IsTaken entry
  · obtain ⟨options, checked, stem, themeStem, hashLength⟩ := ofFields_of_taken taken
    rw [checked, ofOptions_defect_iff, hashLength, stem, themeStem] at defective
    -- An option that is not set has its standard value, and this one is as it should be.
    rcases defective with ⟨uncounted, rfl⟩ | ⟨⟨n, same, oversized⟩, rfl⟩ | ⟨length, truthy, noText, rfl⟩
    · cases set : setting? "hash_length" fields with
      | none => simp [set, Value.isNumber] at uncounted
      | some value => exact .hashLength taken set (by simpa [set] using uncounted)
    · cases set : setting? "hash_length" fields with
      | none =>
        have eight : n = 8 := by simpa [set, eq_comm] using same
        rw [eight] at oversized
        exact absurd (Nat.lt_of_lt_of_le lt_bound oversized) (by decide)
      | some value => exact .shownLength taken (set.trans (by simpa [set] using same)) oversized
    · cases set : setting? "theme_prefix" fields with
      | none => simp [set, Value.text?] at noText
      | some value =>
        refine .themeStem taken (fun value found => ?_) (fun value found => ?_) set (by simpa [set] using noText)
        · simpa [found] using length
        · simpa [found] using truthy
  · classical
    obtain ⟨entry, found⟩ : ∃ entry, fields.find? (fun entry => ¬ IsTaken entry) = some entry :=
      Option.isSome_iff_exists.mp (by simpa using taken)
    obtain ⟨refused, front, behind, whole, all⟩ := List.find?_eq_some_iff_append.mp found
    have refused : ¬ IsTaken entry := by simpa using refused
    have all : ∀ entry ∈ front, IsTaken entry := by simpa using all
    have same := Except.error.inj ((ofFields_of_refused whole all refused).symm.trans defective)
    unfold refusal at same
    split at same
    · rename_i named
      obtain rfl := ConfigFault.defect.inj same
      exact .extensions whole all named
        (Classical.byContradiction fun listed => refused ⟨⟨"extensions", by decide, named⟩, fun _ => listed⟩)
    · cases same

end Checks

/-- Defects of the bytes of a configuration file. -/
inductive Breaks (bytes : Bytes) : Defect → Prop where
  | undecodable (undecodable : Text.Utf8.decode? bytes = none) : Breaks bytes .undecodable
  /-- A decimal integer with too many digits in front of anything that is malformed. -/
  | oversizedInteger {text : Text} (decoded : Text.Utf8.decode? bytes = some text)
      (unread : Toml.read text = .error .oversizedInteger) : Breaks bytes .oversizedInteger
  | tools {text : Text} {document : Fields Value} {value : Value} (decoded : Text.Utf8.decode? bytes = some text)
      (read : Toml.read text = .ok document) (found : Fields.get? "tool" document = some value)
      (noTable : value.fields? = none) : Breaks bytes .notTable
  | options {text : Text} {document tools fields : Fields Value} {defect : Defect}
      (decoded : Text.Utf8.decode? bytes = some text) (read : Toml.read text = .ok document)
      (tool : Fields.get? "tool" document = some (.object tools))
      (found : Fields.get? "stylezx" tools = some (.object fields)) (breaks : TableBreaks fields defect) :
      Breaks bytes defect

section Contents

variable {path : Text} {bytes : Bytes} {defect : Defect} {text : Text} {document : Fields Value}

private theorem load_of_undecodable (undecodable : Text.Utf8.decode? bytes = none) :
    load path (some bytes) = .error (.defect .undecodable) := by
  simp [load, Options.load, undecodable, Except.bind]

private theorem load_of_unread {flaw : Toml.Flaw} (decoded : Text.Utf8.decode? bytes = some text)
    (unread : Toml.read text = .error flaw) :
    load path (some bytes) =
      .error (match flaw with | .malformed => .unreadable path | .oversizedInteger => .defect .oversizedInteger) := by
  cases flaw <;> simp [load, Options.load, decoded, unread, Except.bind]

private theorem load_of_read (decoded : Text.Utf8.decode? bytes = some text) (read : Toml.read text = .ok document) :
    load path (some bytes) = (Options.ofDocument document).bind ofOptions := by
  simp [load, Options.load, decoded, read]

private theorem ofDocument_cases (document : Fields Value) :
    (Options.ofDocument document).bind ofOptions = ofFields [] ∨
    (Options.ofDocument document).bind ofOptions = .error .notTable ∨
    (∃ value, Fields.get? "tool" document = some value ∧ value.fields? = none ∧
      (Options.ofDocument document).bind ofOptions = .error (.defect .notTable)) ∨
    ∃ tools fields, Fields.get? "tool" document = some (.object tools) ∧
      Fields.get? "stylezx" tools = some (.object fields) ∧
      (Options.ofDocument document).bind ofOptions = ofFields fields := by
  unfold Options.ofDocument
  cases tool : Fields.get? "tool" document with
  | none => exact .inl rfl
  | some value =>
    cases value with
    | object tools =>
      cases found : Fields.get? "stylezx" tools with
      | none => exact .inl (by simp [found]; rfl)
      | some value =>
        cases value with
        | object fields => exact .inr (.inr (.inr ⟨tools, fields, rfl, found, by simp [found]; rfl⟩))
        | _ => exact .inr (.inl (by simp [found, Except.bind]))
    | _ => exact .inr (.inr (.inl ⟨_, rfl, rfl, rfl⟩))

theorem Breaks.load_eq (breaks : Breaks bytes defect) : load path (some bytes) = .error (.defect defect) := by
  cases breaks with
  | undecodable undecodable => exact load_of_undecodable undecodable
  | oversizedInteger decoded unread => exact load_of_unread decoded unread
  | tools decoded read found noTable =>
    rw [load_of_read decoded read, Options.ofDocument, found]
    rename_i value
    cases value <;> first | rfl | cases noTable
  | options decoded read tool found breaks =>
    rw [load_of_read decoded read, Options.ofDocument, tool]
    dsimp only [Option.getD_some]
    rw [found]
    exact breaks.ofFields_eq

theorem breaks_of_defect (defective : load path (some bytes) = .error (.defect defect)) : Breaks bytes defect := by
  cases decoded : Text.Utf8.decode? bytes with
  | none =>
    rw [load_of_undecodable decoded] at defective
    obtain rfl := ConfigFault.defect.inj (Except.error.inj defective)
    exact .undecodable decoded
  | some text =>
    cases read : Toml.read text with
    | error flaw =>
      rw [load_of_unread decoded read] at defective
      cases flaw with
      | malformed => cases defective
      | oversizedInteger =>
        obtain rfl := ConfigFault.defect.inj (Except.error.inj defective)
        exact .oversizedInteger decoded read
    | ok document =>
      rw [load_of_read decoded read] at defective
      rcases ofDocument_cases document with
        same | same | ⟨value, found, noTable, same⟩ | ⟨tools, fields, tool, found, same⟩
      all_goals rw [same] at defective
      · cases tableBreaks_of_defect defective with
        | extensions whole => simp at whole
        | hashLength _ set | shownLength _ set | themeStem _ _ _ set => cases set
      · cases defective
      · obtain rfl := ConfigFault.defect.inj (Except.error.inj defective)
        exact .tools decoded read found noTable
      · exact .options decoded read tool found (tableBreaks_of_defect defective)

end Contents

end Config

namespace Theme

/-- Defects of the bytes of a theme file. -/
inductive Breaks (bytes : Bytes) : Defect → Prop where
  | undecodable (undecodable : Text.Utf8.decode? bytes = none) : Breaks bytes .undecodable
  /-- An integer with too many digits in front of any other flaw. -/
  | oversizedInteger {text : Text} {offset : Nat} (decoded : Text.Utf8.decode? bytes = some text)
      (unread : Json.read text.unifyLineEnds = .error ⟨.tooManyDigits, offset⟩) : Breaks bytes .oversizedInteger

section Contents

variable {path : Text} {bytes : Bytes} {defect : Defect}

theorem Breaks.load_eq (breaks : Breaks bytes defect) : load path (some bytes) = .error (.defect defect) := by
  cases breaks with
  | undecodable undecodable => simp [load, undecodable]
  | oversizedInteger decoded unread => simp [load, ofJson, decoded, unread]

theorem breaks_of_defect (defective : load path (some bytes) = .error (.defect defect)) : Breaks bytes defect := by
  cases decoded : Text.Utf8.decode? bytes with
  | none =>
    simp only [load, decoded, Except.error.injEq, LoadFault.defect.injEq] at defective
    exact defective ▸ .undecodable decoded
  | some text =>
    simp only [load, decoded, ofJson] at defective
    split at defective
    · cases defective
    · cases defective
    · rename_i unread
      obtain rfl := LoadFault.defect.inj (Except.error.inj defective)
      exact .oversizedInteger decoded unread
    · cases defective

end Contents

end Theme

/-- A configuration and a theme are loaded, or there is a fault with an error of its own, unless the bytes of the file
are defective. A missing file is not, and neither is any text that cannot be read because of its syntax. -/
theorem load_defect_iff (path : Text) (content : Option Bytes) (defect : Defect) :
    (Config.load path content = .error (.defect defect) ↔ ∃ bytes, content = some bytes ∧ Config.Breaks bytes defect) ∧
    (Theme.load path content = .error (.defect defect) ↔ ∃ bytes, content = some bytes ∧ Theme.Breaks bytes defect) := by
  cases content with
  | none => simp [Config.load, Options.load, Theme.load, Except.bind]
  | some bytes =>
    refine ⟨⟨fun defective => ⟨bytes, rfl, Config.breaks_of_defect defective⟩, ?_⟩,
      ⟨fun defective => ⟨bytes, rfl, Theme.breaks_of_defect defective⟩, ?_⟩⟩
    · rintro ⟨_, same, breaks⟩
      exact Option.some.inj same ▸ breaks.load_eq
    · rintro ⟨_, same, breaks⟩
      exact Option.some.inj same ▸ breaks.load_eq

end StaticStyle
