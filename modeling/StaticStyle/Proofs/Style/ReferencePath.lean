import StaticStyle.Proofs.Markup.Tag
import StaticStyle.Proofs.Theme.Reference

/-!
Which references are reported. A path is well formed if it is made of segments with points between them, and then the
name of its variable is made of the same segments with dashes between them. The three ways to look at a path agree: it
is split at its points to be checked, its points are replaced, and what a name may not hold is taken out. The only
thing that the check passes over is a line feed at the end, which is taken out as well.
-/

namespace StaticStyle.Style

/-- The ASCII letters and digits, the underscore and the dash. -/
def nameAlphabet : Text := "ABCDEFGHIJKLMNOPQRSTUVWXYZabcdefghijklmnopqrstuvwxyz0123456789_-"

private theorem toNat_lt_of_isVariablePart {c : Char} (part : isVariablePart c = true) : c.toNat < 128 := by
  simp only [isVariablePart, CodePoint.isAsciiAlphanumeric, Bool.or_eq_true, beq_iff_eq, CodePoint.char.injEq] at part
  rcases part with ((letter | digit) | rfl) | rfl
  · have bounds := Markup.Tree.isAsciiLetter_bounds letter
    simp only [CodePoint.toNat] at bounds
    omega
  · have bounds := (Bool.and_eq_true _ _).mp digit
    exact Nat.lt_of_le_of_lt (UInt32.le_iff_toNat_le.mp (of_decide_eq_true bounds.2)) (by decide)
  · decide
  · decide

theorem isVariablePart_iff {c : CodePoint} : isVariablePart c = true ↔ c ∈ nameAlphabet := by
  have listed : ∀ n < 128, isVariablePart (Char.ofNat n) = true → CodePoint.char (Char.ofNat n) ∈ nameAlphabet := by
    decide +kernel
  have parts : ∀ c ∈ nameAlphabet, isVariablePart c = true := by decide
  refine ⟨fun part => ?_, parts c⟩
  cases c with
  | char c =>
    have found := listed c.toNat (toNat_lt_of_isVariablePart part)
    rw [Char.ofNat_toNat] at found
    exact found part
  | surrogate index => simp [isVariablePart, CodePoint.isAsciiAlphanumeric, CodePoint.isAsciiLetter,
      CodePoint.isAsciiDigit] at part

/-- The segments of a well-formed path. -/
structure AreSegments (segments : List Text) : Prop where
  nonempty : segments ≠ []
  each : ∀ segment ∈ segments, segment ≠ [] ∧ ∀ c ∈ segment, c ∈ nameAlphabet

namespace AreSegments

variable {segments : List Text}

theorem parts (are : AreSegments segments) {segment : Text} (member : segment ∈ segments) :
    segment ≠ [] ∧ segment.all isVariablePart = true :=
  ⟨(are.each segment member).1,
    List.all_eq_true.mpr fun c inside => isVariablePart_iff.mpr ((are.each segment member).2 c inside)⟩

theorem undotted (are : AreSegments segments) : ∀ segment ∈ segments, CodePoint.char '.' ∉ segment := by
  intro segment member inside
  exact absurd (isVariablePart_iff.mpr ((are.each segment member).2 _ inside)) (by decide)

theorem ends (are : AreSegments segments) : (Text.join "." segments).getLast? ≠ some (.char '\n') := by
  intro last
  have member := List.getLast_mem are.nonempty
  obtain ⟨front, same⟩ := Text.getLast_suffix_join "." are.nonempty
  rw [← same, List.getLast?_append_of_ne_nil _ (are.each _ member).1] at last
  exact absurd (isVariablePart_iff.mpr ((are.each _ member).2 _ (List.mem_of_getLast? last))) (by decide)

theorem variableName_eq (are : AreSegments segments) :
    variableName (Text.join "." segments) = Text.join "-" segments := by
  rw [variableName_join are.nonempty fun _ member => are.parts member]
  obtain ⟨first, others, rfl⟩ := List.exists_cons_of_ne_nil are.nonempty
  rw [Text.join_cons]
  exact Theme.foldl_extendPath (are.each first List.mem_cons_self).1 others

end AreSegments

/-- The segments that a path is checked for are those between its points. -/
theorem all_split_iff {path : Text} :
    ((Text.split '.' path).all fun segment => !segment.isEmpty && segment.all isVariablePart) = true ↔
      ∃ segments, AreSegments segments ∧ path = Text.join "." segments := by
  constructor
  · intro wellFormed
    refine ⟨Text.split '.' path, ⟨Text.split_ne_nil _ _, fun segment member => ?_⟩, (Text.join_split _ _).symm⟩
    have parts := List.all_eq_true.mp wellFormed segment member
    rw [Bool.and_eq_true, List.all_eq_true] at parts
    exact ⟨by simpa using parts.1, fun c inside => isVariablePart_iff.mp (parts.2 c inside)⟩
  · rintro ⟨segments, are, rfl⟩
    obtain ⟨first, others, rfl⟩ := List.exists_cons_of_ne_nil are.nonempty
    have same : Text.split '.' (Text.join "." (first :: others)) = first :: others := Text.split_join are.undotted
    rw [same, List.all_eq_true]
    intro segment member
    simpa using are.parts member

/-- A path is made of some segments, with or without a line feed behind them. -/
def IsSpelled (path : Text) (segments : List Text) : Prop :=
  path = Text.join "." segments ∨ path = Text.join "." segments ++ "\n"

theorem isReferencePath_iff {path : Text} :
    isReferencePath path = true ↔ ∃ segments, AreSegments segments ∧ IsSpelled path segments := by
  rw [isReferencePath, all_split_iff]
  split
  · rename_i last
    have whole : path = path.dropLast ++ "\n" := (List.dropLast_append_getLast? _ last).symm
    constructor
    · rintro ⟨segments, are, same⟩
      exact ⟨segments, are, .inr (same ▸ whole)⟩
    · rintro ⟨segments, are, rfl | same⟩
      · exact absurd last are.ends
      · exact ⟨segments, are, List.append_cancel_right (whole.symm.trans same)⟩
  · rename_i last
    constructor
    · rintro ⟨segments, are, same⟩
      exact ⟨segments, are, .inl same⟩
    · rintro ⟨segments, are, same | rfl⟩
      · exact ⟨segments, are, same⟩
      · exact absurd (by simp [Text.ofString]) last

/-- A reference uses the variable of some name that is made of letters, digits, underscores and dashes. It is reported,
once, unless its path is made of segments with points between them, with or without a line feed at the end, and then the
name is made of these segments with dashes between them. -/
theorem reference_reported_iff (stem path : Text) :
    ∃ name, (resolveReference stem (themeMarker ++ path)).1 = "var(" ++ stem ++ "-" ++ name ++ ")" ∧
      (∀ c ∈ name, c ∈ nameAlphabet) ∧
      ((resolveReference stem (themeMarker ++ path)).2 = [malformedReference (themeMarker ++ path)] ↔
        ¬ ∃ segments, AreSegments segments ∧ IsSpelled path segments) ∧
      ((resolveReference stem (themeMarker ++ path)).2 = [] ↔
        ∃ segments, AreSegments segments ∧ IsSpelled path segments) ∧
      ∀ segments, AreSegments segments → IsSpelled path segments → name = Text.join "-" segments := by
  refine ⟨variableName path, by rw [resolveReference, List.drop_left], fun c member => ?_, ?_, ?_, ?_⟩
  · exact isVariablePart_iff.mp (List.mem_filter.mp member).2
  · rw [← isReferencePath_iff, resolveReference, List.drop_left]
    cases isReferencePath path <;> simp
  · rw [← isReferencePath_iff, resolveReference, List.drop_left]
    cases isReferencePath path <;> simp
  · rintro segments are (rfl | rfl)
    · exact are.variableName_eq
    · have lineFeed : variableName "\n" = [] := by decide
      rw [variableName_append, lineFeed, List.append_nil, are.variableName_eq]

/-- Two segments with a dash, a digit and an underscore, and a line feed behind them that is not reported. -/
theorem reference_reported_iff_line_feed :
    let segments : List Text := ["dark-2", "base_1"]
    let reference : Text := themeMarker ++ "dark-2.base_1\n"
    AreSegments segments ∧ IsSpelled "dark-2.base_1\n" segments ∧
      (resolveReference "--theme" reference).1 = Text.ofString "var(--theme-dark-2-base_1)" ∧
      (resolveReference "--theme" reference).2 = [] := by
  intro segments reference
  have are : AreSegments segments := ⟨by decide, by decide⟩
  have spelled : IsSpelled "dark-2.base_1\n" segments := .inr (by decide)
  obtain ⟨name, text, -, -, silent, named⟩ := reference_reported_iff "--theme" "dark-2.base_1\n"
  refine ⟨are, spelled, ?_, silent.mpr ⟨segments, are, spelled⟩⟩
  rw [text, named segments are spelled]
  decide

end StaticStyle.Style
