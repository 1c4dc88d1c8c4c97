import StaticStyle.Proofs.Style.Finding
import StaticStyle.Proofs.Style.Nesting

/-!
Which styles are refused. The entries of a style are visited one after another, each one in front of the entries below
it, and the first one whose value has the wrong shape for its key, or cannot be written, ends the compilation. The
findings made until then are those about the entries in front of it.
-/

namespace StaticStyle.Style

/-- What is wrong with the value of an entry: a nested key needs an object, and no other key can have one; what another
key has is written. -/
def misshape? (entry : Text × Value) : Option Misshape :=
  match isNested entry.1, entry.2 with
  | true, .object _ => none
  | true, _ => some .nestedNeedsObject
  | false, .object _ => some .propertyNeedsScalar
  | false, value => if value.isWritable then none else some .unwritable

/-- An entry whose value has the wrong shape, whether it can be written or not. -/
def HasWrongShape (entry : Text × Value) : Prop := ¬ (isNested entry.1 = true ↔ ∃ inner, entry.2 = .object inner)

/-- For the wrong shape of a value its key is blamed, and for nothing else. -/
theorem defect?_eq_none_iff_hasWrongShape {invalid : InvalidStyle} {value : Value}
    (wrong : misshape? (invalid.key, value) = some invalid.misshape) :
    invalid.defect? = none ↔ HasWrongShape (invalid.key, value) := by
  unfold InvalidStyle.defect? HasWrongShape
  unfold misshape? at wrong
  split at wrong
  · cases wrong
  · rename_i nests noObject
    simp only [← Option.some.inj wrong, reduceCtorEq, ↓reduceIte, true_iff]
    exact fun same => noObject _ (same.mp nests).choose_spec
  · rename_i plain isObject
    simp only [← Option.some.inj wrong, reduceCtorEq, ↓reduceIte, true_iff]
    exact fun same => absurd (same.mpr ⟨_, isObject⟩) (by simp [plain])
  · rename_i plain noObject
    split at wrong
    · cases wrong
    · simp only [← Option.some.inj wrong, ↓reduceIte, reduceCtorEq, false_iff, not_not]
      exact ⟨fun nests => absurd nests (by simp [plain]), fun ⟨inner, same⟩ => (noObject inner same).elim⟩

/-- An entry of a style, or of an object in it that is reached through the objects under nested keys. -/
inductive Contains (entry : Text × Value) : Fields Value → Prop where
  | own {fields : Fields Value} (member : entry ∈ fields) : Contains entry fields
  | nested {fields inner : Fields Value} {key : Text} (member : (key, .object inner) ∈ fields)
      (nests : isNested key = true) (inside : Contains entry inner) : Contains entry fields

mutual
/-- The entries below a value in the order in which they are visited: those of an object in ascending order of their
keys, each one followed by the entries below it. -/
def visited : Value → List (Text × Value)
  | .object entries => (visitedBehind entries).sorted.flatMap Prod.snd
  | _ => []

/-- The entries that are visited for each key of a level. -/
def visitedBehind : List (Text × Value) → Fields (List (Text × Value))
  | [] => []
  | (key, value) :: rest =>
    (key, (key, value) :: if isNested key then visited value else []) :: visitedBehind rest
end

/-- The finding about a value, if it is a malformed reference. -/
def valueFindings : Value → List Diagnostic
  | .text text => if IsMalformed text then [malformedReference text] else []
  | _ => []

/-- The findings about an entry: those about its value, for every property that its key stands for. -/
def entryFindings (entry : Text × Value) : List Diagnostic :=
  (properties entry.1).flatMap fun _ => valueFindings entry.2

/-- A report that goes through entries until one is misshapen. -/
def Report.Follows {α : Type} (report : Report α) (entries : List (Text × Value)) : Prop :=
  match report.result with
  | .ok _ => (∀ entry ∈ entries, misshape? entry = none) ∧ report.findings = entries.flatMap entryFindings
  | .error invalid => ∃ before value after, entries = before ++ (invalid.key, value) :: after ∧
      (∀ entry ∈ before, misshape? entry = none) ∧ misshape? (invalid.key, value) = some invalid.misshape ∧
      report.findings = before.flatMap entryFindings

namespace Report.Follows

variable {α β : Type} {report : Report α} {entries others : List (Text × Value)}

theorem pure (a : α) : (Report.pure a).Follows [] := ⟨by simp, rfl⟩

theorem fail {key : Text} {value : Value} {misshape : Misshape}
    (shape : misshape? (key, value) = some misshape) (others : List (Text × Value)) :
    (Report.fail key misshape : Report α).Follows ((key, value) :: others) :=
  ⟨[], value, others, rfl, by simp, shape, rfl⟩

/-- What follows a report goes through the entries behind, unless the report has ended. -/
theorem bind {next : α → Report β} (follows : report.Follows entries)
    (followsNext : ∀ a, report.result = .ok a → (next a).Follows others) :
    (report.bind next).Follows (entries ++ others) := by
  unfold Report.Follows at follows
  cases result : report.result with
  | error invalid =>
    simp only [result] at follows
    obtain ⟨before, value, after, rfl, fit, shape, findings⟩ := follows
    have ended : report.bind next = ⟨report.findings, .error invalid⟩ := by rw [Report.bind, result]
    rw [ended]
    exact ⟨before, value, after ++ others, by simp, fit, shape, findings⟩
  | ok a =>
    simp only [result] at follows
    obtain ⟨fit, findings⟩ := follows
    have behind := followsNext a result
    have continued : report.bind next = ⟨report.findings ++ (next a).findings, (next a).result⟩ := by
      rw [Report.bind, result]
    rw [continued]
    unfold Report.Follows at behind ⊢
    cases resultNext : (next a).result with
    | error invalid =>
      simp only [resultNext] at behind ⊢
      obtain ⟨before, value, after, rfl, fitNext, shape, findingsNext⟩ := behind
      refine ⟨entries ++ before, value, after, by simp, ?_, shape, by simp [findings, findingsNext]⟩
      exact List.forall_mem_append.mpr ⟨fit, fitNext⟩
    | ok b =>
      simp only [resultNext] at behind ⊢
      exact ⟨List.forall_mem_append.mpr ⟨fit, behind.1⟩, by simp [findings, behind.2]⟩

theorem cons {entry : Text × Value} (fits : misshape? entry = none) (none : entryFindings entry = [])
    (follows : report.Follows entries) : report.Follows (entry :: entries) := by
  have passed : (Report.pure ()).Follows [entry] := ⟨by simpa using fits, by simp [none, Report.pure]⟩
  have same : ((Report.pure ()).bind fun _ => report) = report := by cases report; rfl
  exact same ▸ passed.bind fun _ _ => follows

end Report.Follows

private theorem resolveValue_findings (stem property : Text) (value : Value) :
    (resolveValue stem property value).2 = valueFindings value := by
  cases value with
  | text text =>
    by_cases marked : text.startsWith themeMarker = true <;>
      cases path : isReferencePath (text.drop themeMarker.length) <;>
      simp [resolveValue, resolveReference, valueFindings, IsMalformed, marked, path]
  | _ => rfl

theorem misshape?_of_scalar {key : Text} {value : Value} (plain : isNested key = false)
    (scalar : ∀ inner, value ≠ .object inner) :
    misshape? (key, value) = if value.isWritable then none else some .unwritable := by
  rw [misshape?, plain]
  cases value with
  | object inner => exact absurd rfl (scalar inner)
  | _ => rfl

private theorem follows_declare {stem key : Text} {value : Value} (plain : isNested key = false)
    (scalar : ∀ inner, value ≠ .object inner) : (declare stem key value).Follows [(key, value)] := by
  have shape := misshape?_of_scalar plain scalar
  by_cases writable : value.isWritable = true
  · rw [if_pos writable] at shape
    have declared : (declare stem key value).result = .ok _ := declare_eq_ok_iff.mpr ⟨writable, rfl⟩
    unfold Report.Follows
    rw [declared]
    exact ⟨by simpa using shape, by simp [declare_findings, resolveValue_findings, entryFindings]⟩
  · rw [if_neg writable] at shape
    rw [declare, if_neg writable]
    exact .fail shape []

mutual
/-- The entries below a value, in the order that they have. -/
def below : Value → List (Text × Value)
  | .object entries => entriesBelow entries
  | _ => []

def entriesBelow : List (Text × Value) → List (Text × Value)
  | [] => []
  | (key, value) :: rest => ((key, value) :: if isNested key then below value else []) ++ entriesBelow rest
end

mutual
private theorem follows_compileNested (stem selector key : Text) (nests : isNested key = true) : ∀ value : Value,
    (compileNested stem selector key value).Follows ((key, value) :: below value)
  | .object entries =>
    .cons (by simp [misshape?, nests]) (by simp [entryFindings, valueFindings])
      (follows_compileEntries stem selector entries)
  | .null | .bool _ | .int _ | .float _ | .text _ | .stamp _ | .list _ => .fail (by simp [misshape?, nests]) _

private theorem follows_compileEntries (stem selector : Text) : ∀ entries : List (Text × Value),
    (compileEntries stem selector entries).Follows (entriesBelow entries)
  | [] => .pure _
  | (key, value) :: rest => by
    have others (selector : Text) := follows_compileEntries stem selector rest
    unfold entriesBelow
    by_cases nests : isNested key = true
    · simp only [compileEntries, nests, ↓reduceIte]
      refine (follows_compileNested stem _ key nests value).bind fun inner _ => ?_
      rw [← List.append_nil (entriesBelow rest)]
      exact (others selector).bind fun _ _ => .pure _
    · have plain := Bool.eq_false_of_not_eq_true nests
      simp only [nests, ↓reduceIte, Bool.false_eq_true, List.singleton_append]
      rcases scalar_cases value with ⟨inner, rfl⟩ | rfl | scalar
      · simp only [compileEntries, nests, ↓reduceIte, Bool.false_eq_true]
        exact .fail (by simp [misshape?, nests]) _
      · have fits : misshape? (key, .null) = none := misshape?_of_scalar plain nofun
        simp only [compileEntries, nests, ↓reduceIte, Bool.false_eq_true]
        exact .cons fits (by simp [entryFindings, valueFindings]) (others selector)
      · rw [compileEntries_scalar stem selector plain scalar]
        refine (follows_declare plain scalar.2).bind fun declarations _ => ?_
        rw [← List.append_nil (entriesBelow rest)]
        exact (others selector).bind fun _ _ => .pure _
end

/-- An entry with its value arranged. -/
private def arrangedEntry (entry : Text × Value) : Text × Value := (entry.1, entry.2.arranged)

private theorem misshape?_arranged (entry : Text × Value) : misshape? (arrangedEntry entry) = misshape? entry := by
  obtain ⟨key, value⟩ := entry
  cases value <;> cases nests : isNested key <;> simp [arrangedEntry, misshape?, Value.arranged, nests]

private theorem entryFindings_arranged (entry : Text × Value) :
    entryFindings (arrangedEntry entry) = entryFindings entry := by
  obtain ⟨key, value⟩ := entry
  cases value <;> simp [arrangedEntry, entryFindings, valueFindings, Value.arranged]

private theorem entriesBelow_eq_flatMap (entries : List (Text × Value)) : entriesBelow entries =
    entries.flatMap fun entry => entry :: if isNested entry.1 then below entry.2 else [] := by
  induction entries with
  | nil => rfl
  | cons entry entries ih => rw [entriesBelow, ih, List.flatMap_cons]

private theorem visitedBehind_eq_map (entries : List (Text × Value)) : visitedBehind entries =
    entries.map fun entry => (entry.1, entry :: if isNested entry.1 then visited entry.2 else []) := by
  induction entries with
  | nil => rfl
  | cons entry entries ih => rw [visitedBehind, ih, List.map_cons]

theorem visited_object (entries : Fields Value) : visited (.object entries) =
    entries.sorted.flatMap fun entry => entry :: if isNested entry.1 then visited entry.2 else [] := by
  rw [visited, visitedBehind_eq_map, Fields.sorted_map, List.flatMap_map]

mutual
private theorem below_arranged : ∀ value : Value, below value.arranged = (visited value).map arrangedEntry
  | .object entries => by
    rw [Value.arranged, below, entriesBelow_eq_flatMap, arrangedFields_eq_map, Fields.sorted_map, List.flatMap_map,
      visited_object, List.map_flatMap]
    refine List.flatMap_congr fun entry member => ?_
    have behind := below_of_entries entries entry ((Fields.sorted_perm entries).mem_iff.mp member)
    rw [List.map_cons, apply_ite (List.map arrangedEntry), List.map_nil, ← behind]
    rfl
  | .null | .bool _ | .int _ | .float _ | .text _ | .stamp _ | .list _ => rfl

private theorem below_of_entries : ∀ entries : List (Text × Value), ∀ entry ∈ entries,
    below entry.2.arranged = (visited entry.2).map arrangedEntry
  | [], _, member => by simp at member
  | (key, value) :: rest, entry, member => by
    rcases List.mem_cons.mp member with rfl | member
    · exact below_arranged value
    · exact below_of_entries rest entry member
end

mutual
private theorem contains_of_visited {entry : Text × Value} : ∀ value : Value, entry ∈ visited value →
    ∃ entries, value = .object entries ∧ Contains entry entries
  | .object entries, member => by
    rw [visited_object] at member
    obtain ⟨other, inside, member⟩ := List.mem_flatMap.mp member
    have inside := (Fields.sorted_perm entries).mem_iff.mp inside
    rcases List.mem_cons.mp member with rfl | member
    · exact ⟨entries, rfl, .own inside⟩
    · exact ⟨entries, rfl, contains_of_visitedBehind entries other inside member⟩
  | .null, member | .bool _, member | .int _, member | .float _, member | .text _, member
  | .list _, member => by simp [visited] at member

private theorem contains_of_visitedBehind {entry : Text × Value} : ∀ entries : List (Text × Value),
    ∀ other ∈ entries, (entry ∈ if isNested other.1 then visited other.2 else []) → Contains entry entries
  | [], _, inside, _ => by simp at inside
  | (key, value) :: rest, other, inside, member => by
    rcases List.mem_cons.mp inside with rfl | inside
    · split at member
      · rename_i nests
        obtain ⟨inner, rfl, contains⟩ := contains_of_visited value member
        exact .nested List.mem_cons_self nests contains
      · simp at member
    · cases contains_of_visitedBehind rest other inside member with
      | own member => exact .own (List.mem_cons_of_mem _ member)
      | nested member nests contains => exact .nested (List.mem_cons_of_mem _ member) nests contains
end

/-- All entries of a style are visited, and no others. -/
theorem mem_visited {entry : Text × Value} {style : Fields Value} :
    entry ∈ visited (.object style) ↔ Contains entry style := by
  constructor
  · intro member
    obtain ⟨entries, same, contains⟩ := contains_of_visited _ member
    exact Value.object.inj same ▸ contains
  · intro contains
    induction contains with
    | own member =>
      rw [visited_object]
      exact List.mem_flatMap.mpr ⟨entry, (Fields.sorted_perm _).mem_iff.mpr member, List.mem_cons_self⟩
    | @nested fields inner key member nests _ ih =>
      rw [visited_object]
      refine List.mem_flatMap.mpr ⟨(key, .object inner), (Fields.sorted_perm _).mem_iff.mpr member, ?_⟩
      rw [if_pos nests]
      exact List.mem_cons_of_mem _ ih

private theorem Report.Follows.of_arranged {α : Type} {report : Report α} {entries : List (Text × Value)}
    (follows : report.Follows (entries.map arrangedEntry)) : report.Follows entries := by
  have findings (entries : List (Text × Value)) :
      (entries.map arrangedEntry).flatMap entryFindings = entries.flatMap entryFindings := by
    rw [List.flatMap_map]
    exact List.flatMap_congr fun entry _ => entryFindings_arranged entry
  have fit {entries : List (Text × Value)} (fit : ∀ entry ∈ entries.map arrangedEntry, misshape? entry = none) :
      ∀ entry ∈ entries, misshape? entry = none := fun entry member =>
    misshape?_arranged entry ▸ fit _ (List.mem_map_of_mem member)
  unfold Report.Follows at follows ⊢
  cases result : report.result with
  | ok a =>
    simp only [result] at follows
    exact ⟨fit follows.1, follows.2.trans (findings entries)⟩
  | error invalid =>
    simp only [result] at follows
    obtain ⟨before, value, after, same, fitBefore, shape, found⟩ := follows
    obtain ⟨before', rest, rfl, rfl, behind⟩ := List.map_eq_append_iff.mp same
    obtain ⟨⟨key, original⟩, after', rfl, arranged, rfl⟩ := List.map_eq_cons_iff.mp behind
    obtain ⟨rfl, rfl⟩ := Prod.mk.inj arranged
    exact ⟨before', original, after', rfl, fit fitBefore, (misshape?_arranged _).symm.trans shape,
      found.trans (findings before')⟩

/-- The compilation of a style visits its entries until one is misshapen. -/
theorem follows_compile (stem className identity : Text) (style : Fields Value) :
    (compile stem className identity style).Follows (visited (.object style)) := by
  have entries : entriesBelow (Fields.sorted (arrangedFields style)) =
      (visited (.object style)).map arrangedEntry := by
    rw [← below_arranged, Value.arranged, below]
  have level := follows_compileEntries stem (.char '.' :: className) (Fields.sorted (arrangedFields style))
  rw [entries] at level
  rw [← List.append_nil (visited _), ← List.append_nil (visited _ ++ [])]
  exact (level.of_arranged.bind fun _ _ => .pure _).bind fun _ _ => .pure _

/-- No entry of a style that is compiled is misshapen. -/
theorem misshape?_of_compile {stem className identity : Text} {style : Fields Value} {rule : Rule}
    (compiled : (compile stem className identity style).result = .ok rule) {entry : Text × Value}
    (contains : Contains entry style) : misshape? entry = none := by
  have follows := follows_compile stem className identity style
  unfold Report.Follows at follows
  rw [compiled] at follows
  exact follows.1 entry (mem_visited.mpr contains)

mutual
/-- Whether no entry below a value is misshapen. -/
def isShapely : Value → Bool
  | .object entries => areShapely entries
  | _ => true

def areShapely : List (Text × Value) → Bool
  | [] => true
  | (key, value) :: rest =>
    (misshape? (key, value)).isNone && (!isNested key || isShapely value) && areShapely rest
end

private theorem of_mem_shapely {entries : List (Text × Value)} (shapely : areShapely entries = true)
    {entry : Text × Value} (member : entry ∈ entries) :
    misshape? entry = none ∧ (isNested entry.1 = true → isShapely entry.2 = true) := by
  induction entries with
  | nil => simp at member
  | cons first entries ih =>
    simp only [areShapely, Bool.and_eq_true, Bool.or_eq_true, Bool.not_eq_true', Option.isNone_iff_eq_none] at shapely
    rcases List.mem_cons.mp member with rfl | member
    · exact ⟨shapely.1.1, fun nests => shapely.1.2.resolve_left (by simp [nests])⟩
    · exact ih shapely.2 member

theorem misshape?_of_contains {style : Fields Value} (shapely : areShapely style = true) {entry : Text × Value}
    (contains : Contains entry style) : misshape? entry = none := by
  induction contains with
  | own member => exact (of_mem_shapely shapely member).1
  | nested member nests _ ih => exact ih ((of_mem_shapely shapely member).2 nests)

/-- A style without misshapen entries is compiled. -/
theorem compile_ok_of_shapely (stem className identity : Text) {style : Fields Value}
    (shapely : areShapely style = true) : ∃ rule, (compile stem className identity style).result = .ok rule := by
  have follows := follows_compile stem className identity style
  unfold Report.Follows at follows
  cases result : (compile stem className identity style).result with
  | ok rule => exact ⟨rule, rfl⟩
  | error invalid =>
    simp only [result] at follows
    obtain ⟨before, value, after, same, -, shape, -⟩ := follows
    have contains : Contains (invalid.key, value) style :=
      mem_visited.mp (same ▸ List.mem_append_right _ List.mem_cons_self)
    rw [misshape?_of_contains shapely contains] at shape
    cases shape

/-- A style is refused if and only if the value of some entry, at any depth, has the wrong shape for its key or cannot be
written. The fault is that of the first such entry in the order in which entries are visited; its key is blamed for the
wrong shape, and for nothing else. The findings are those about the entries in front of it. -/
theorem compile_refusal (stem className identity : Text) (style : Fields Value) :
    ((∃ invalid, (compile stem className identity style).result = .error invalid) ↔
      ∃ entry, Contains entry style ∧ (misshape? entry).isSome) ∧
    ∀ invalid, (compile stem className identity style).result = .error invalid →
      ∃ before value after, visited (.object style) = before ++ (invalid.key, value) :: after ∧
        (∀ entry ∈ before, misshape? entry = none) ∧ misshape? (invalid.key, value) = some invalid.misshape ∧
        (invalid.defect? = none ↔ HasWrongShape (invalid.key, value)) ∧
        (compile stem className identity style).findings = before.flatMap entryFindings := by
  have follows := follows_compile stem className identity style
  unfold Report.Follows at follows
  cases result : (compile stem className identity style).result with
  | ok rule =>
    simp only [result] at follows
    refine ⟨⟨by simp, ?_⟩, by simp⟩
    rintro ⟨entry, contains, misshapen⟩
    rw [follows.1 entry (mem_visited.mpr contains)] at misshapen
    cases misshapen
  | error invalid =>
    simp only [result] at follows
    refine ⟨⟨fun _ => ?_, fun _ => ⟨invalid, rfl⟩⟩, ?_⟩
    · obtain ⟨before, value, after, same, -, shape, -⟩ := follows
      refine ⟨(invalid.key, value), mem_visited.mp ?_, by simp [shape]⟩
      rw [same]
      exact List.mem_append_right _ List.mem_cons_self
    · rintro _ ⟨⟩
      obtain ⟨before, value, after, same, fit, shape, findings⟩ := follows
      exact ⟨before, value, after, same, fit, shape, defect?_eq_none_iff_hasWrongShape shape, findings⟩

/-- A null under an at-rule, behind two findings about one entry and in front of another misshapen entry. -/
theorem compile_refusal_behind_findings :
    let inner : Fields Value := [("mx", .text "$theme.a b"), ([], .null)]
    let style : Fields Value := [("m", .object []), (":hover", .object inner), ("@media print", .null)]
    let order : List (Text × Value) :=
      [(":hover", .object inner), ([], .null), ("mx", .text "$theme.a b"), ("@media print", .null), ("m", .object [])]
    ∃ invalid, (compile "--theme" "zx-1" "1" style).result = .error invalid ∧
      ∃ before value after, order = before ++ (invalid.key, value) :: after ∧
        (∀ entry ∈ before, misshape? entry = none) ∧ misshape? (invalid.key, value) = some invalid.misshape ∧
        (invalid.defect? = none ↔ HasWrongShape (invalid.key, value)) ∧
        (compile "--theme" "zx-1" "1" style).findings = before.flatMap entryFindings := by
  intro inner style order
  have visits : visited (.object style) = order := by cbv
  obtain ⟨refused, first⟩ := compile_refusal "--theme" "zx-1" "1" style
  obtain ⟨invalid, fault⟩ := refused.mpr ⟨("m", .object []), .own (by simp [style]), by decide⟩
  exact ⟨invalid, fault, visits ▸ first invalid fault⟩

theorem isWritable_of_contains {style : Fields Value} (writable : Value.fieldsAreWritable style = true)
    {entry : Text × Value} (contains : Contains entry style) : entry.2.isWritable = true := by
  induction contains with
  | own member => exact Value.fieldsAreWritable_iff.mp writable _ member
  | nested member _ _ ih => exact ih (Value.fieldsAreWritable_iff.mp writable _ member)

/-- Where every integer can be written, a style is refused for the shape of a value. -/
theorem defect?_of_isWritable {stem className identity : Text} {style : Fields Value} {invalid : InvalidStyle}
    (writable : (Value.object style).isWritable = true)
    (refused : (compile stem className identity style).result = .error invalid) : invalid.defect? = none := by
  have follows := follows_compile stem className identity style
  simp only [Report.Follows, refused] at follows
  obtain ⟨before, value, after, same, -, shape, -⟩ := follows
  have contains : Contains (invalid.key, value) style :=
    mem_visited.mp (same ▸ List.mem_append_right _ List.mem_cons_self)
  have written : value.isWritable = true := isWritable_of_contains writable contains
  rw [defect?_eq_none_iff_hasWrongShape shape]
  intro fits
  cases nests : isNested invalid.key with
  | true =>
    obtain ⟨inner, rfl⟩ := fits.mp nests
    simp [misshape?, nests] at shape
  | false =>
    have scalar : ∀ inner, value ≠ .object inner := fun inner same => by simp [nests, same] at fits
    rw [misshape?_of_scalar nests scalar, if_pos written] at shape
    cases shape

/-- A key is blamed if and only if the value of some entry has the wrong shape. -/
def BlamesWrongShapes (style : Fields Value) : Prop :=
  (∃ invalid, (compile "--theme" "zx-1" "1" style).result = .error invalid ∧ invalid.defect? = none) ↔
    ∃ entry, Contains entry style ∧ HasWrongShape entry

private theorem result_of_visited_cons {stem className identity : Text} {style : Fields Value} {entry : Text × Value}
    {rest : List (Text × Value)} {wrong : Misshape} (visits : visited (.object style) = entry :: rest)
    (misshapen : misshape? entry = some wrong) :
    (compile stem className identity style).result = .error ⟨entry.1, wrong⟩ := by
  have follows := follows_compile stem className identity style
  unfold Report.Follows at follows
  cases result : (compile stem className identity style).result with
  | ok rule =>
    simp only [result] at follows
    rw [follows.1 entry (visits ▸ List.mem_cons_self)] at misshapen
    cases misshapen
  | error invalid =>
    simp only [result] at follows
    obtain ⟨before, value, after, same, fit, shape, -⟩ := follows
    cases before with
    | nil =>
      obtain ⟨rfl, -⟩ := List.cons.inj (visits.symm.trans same)
      obtain rfl := Option.some.inj (misshapen.symm.trans shape)
      rfl
    | cons first before =>
      obtain ⟨rfl, -⟩ := List.cons.inj (visits.symm.trans same)
      rw [fit entry List.mem_cons_self] at misshapen
      cases misshapen

/-- In front of a value of the wrong shape, an integer that cannot be written ends the compilation. -/
theorem compile_may_end_unwritable : ¬ BlamesWrongShapes [("a", .int Numeral.bound), ("b", .object [])] := by
  have oversized : ¬ (Value.int Numeral.bound).isWritable = true := by
    simp only [Value.isWritable, Int.natAbs_natCast, Nat.lt_irrefl, decide_false, Bool.false_eq_true,
      not_false_eq_true]
  generalize (Numeral.bound : Int) = n at oversized ⊢
  have unwritable : misshape? ("a", .int n) = some .unwritable := by
    rw [misshape?_of_scalar (by decide) (fun _ => by simp), if_neg oversized]
  let style : Fields Value := [("a", .int n), ("b", .object [])]
  have visits : visited (.object style) = style := by
    have ascends : Fields.sorted style = style := List.mergeSort_of_pairwise (by simp [style]; decide)
    rw [visited_object, ascends]
    rfl
  have contains : Contains ("b", .object []) style := .own (by simp [style])
  have wrong : HasWrongShape ("b", .object []) := fun fits =>
    absurd (fits.mpr ⟨[], rfl⟩) (by decide)
  intro blames
  obtain ⟨invalid, refused, blamed⟩ := blames.mpr ⟨_, contains, wrong⟩
  rw [result_of_visited_cons visits unwritable] at refused
  cases refused
  cases blamed

end StaticStyle.Style
