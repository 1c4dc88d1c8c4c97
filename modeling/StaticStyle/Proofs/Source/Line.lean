import Mathlib.Data.List.Basic
import StaticStyle.Proofs.Source.Position

/-!
Offsets and positions determine each other. A position is read off the line feeds in front of it, so it grows with the
offset, leads back to it, and can be counted from any place in between.
-/

namespace StaticStyle

/-- The offsets at which the lines of a text begin: its beginning, and behind each line feed. -/
def Text.lineStarts (source : Text) : List Nat := 0 :: (source.findIdxs CodePoint.isLineFeed).map (· + 1)

theorem Text.lineStarts_append (first second : Text) : Text.lineStarts (first ++ second) =
    Text.lineStarts first ++ (second.findIdxs CodePoint.isLineFeed).map (· + (first.length + 1)) := by
  have moved : (second.findIdxs CodePoint.isLineFeed first.length).map (· + 1) =
      (second.findIdxs CodePoint.isLineFeed).map (· + (first.length + 1)) := by
    rw [List.findIdxs_start, List.map_map]
    exact List.map_congr_left fun offset _ => Nat.add_assoc offset first.length 1
  rw [Text.lineStarts, List.findIdxs_append, List.map_append, Nat.zero_add, moved]
  rfl

namespace Position

/-- Whether a position comes first, by its line or in the same line by its column. -/
def IsBefore (first second : Position) : Prop :=
  first.line < second.line ∨ first.line = second.line ∧ first.column < second.column

/-- The position in a text of what has a position in a part of it, if the part begins at `start`. Only in the first line
of the part do the columns count on. -/
def movedTo (position start : Position) : Position where
  line := start.line + position.line - 1
  column := if position.line = 1 then start.column + position.column - 1 else position.column

section Steps

variable {position start : Position} {c : CodePoint} {text : Text}

theorem next_of_feed (feed : c.isLineFeed = true) : position.next c = ⟨position.line + 1, 1⟩ := if_pos feed

theorem next_of_not_feed (feed : ¬ c.isLineFeed = true) : position.next c = ⟨position.line, position.column + 1⟩ :=
  if_neg feed

theorem after_concat : position.after (text ++ [c]) = (position.after text).next c := after_append position text [c]

theorem IsBefore.trans {first second third : Position} (before : first.IsBefore second)
    (behind : second.IsBefore third) : first.IsBefore third := by
  unfold IsBefore at *
  omega

theorem isBefore_next (position : Position) (c : CodePoint) : position.IsBefore (position.next c) := by
  by_cases feed : c.isLineFeed = true
  · exact .inl (next_of_feed feed ▸ Nat.lt_succ_self _)
  · exact .inr (next_of_not_feed feed ▸ ⟨rfl, Nat.lt_succ_self _⟩)

/-- Every text leads further on. -/
theorem isBefore_after (position : Position) (some : text ≠ []) : position.IsBefore (position.after text) := by
  induction text generalizing position with
  | nil => exact absurd rfl some
  | cons c rest ih =>
    cases rest with
    | nil => exact isBefore_next position c
    | cons d rest => exact (isBefore_next position c).trans (ih (position.next c) (List.cons_ne_nil d rest))

/-- Lines and columns count from one. -/
theorem one_le_after (text : Text) : 1 ≤ ((⟨1, 1⟩ : Position).after text).line ∧
    1 ≤ ((⟨1, 1⟩ : Position).after text).column := by
  induction text using List.reverseRecOn with
  | nil => exact ⟨Nat.le_refl 1, Nat.le_refl 1⟩
  | append_singleton text c ih =>
    rw [after_concat]
    by_cases feed : c.isLineFeed = true
    · exact next_of_feed feed ▸ ⟨Nat.le_add_left 1 _, Nat.le_refl 1⟩
    · exact next_of_not_feed feed ▸ ⟨ih.1, Nat.le_add_left 1 _⟩

/-- Counting on from a position is the same as counting from the beginning and moving the result there. -/
theorem after_eq_movedTo (start : Position) (text : Text) :
    start.after text = ((⟨1, 1⟩ : Position).after text).movedTo start := by
  induction text using List.reverseRecOn with
  | nil => rfl
  | append_singleton text c ih =>
    have counted := one_le_after text
    rw [after_concat, after_concat, ih]
    by_cases feed : c.isLineFeed = true
    · have below : ((⟨1, 1⟩ : Position).after text).line + 1 ≠ 1 := by omega
      rw [next_of_feed feed, next_of_feed feed, movedTo, movedTo, if_neg below]
      dsimp only
      congr 1
      omega
    · rw [next_of_not_feed feed, next_of_not_feed feed, movedTo, movedTo]
      dsimp only
      congr 1
      split <;> omega

/-- A position names the line that begins last and how far behind its beginning the text ends. -/
theorem after_lineStart (text : Text) :
    ∃ start, text.lineStarts[((⟨1, 1⟩ : Position).after text).line - 1]? = some start ∧
      ((⟨1, 1⟩ : Position).after text).line = text.lineStarts.length ∧
      text.length = start + ((⟨1, 1⟩ : Position).after text).column - 1 := by
  induction text using List.reverseRecOn with
  | nil => exact ⟨0, rfl, rfl, rfl⟩
  | append_singleton text c ih =>
    obtain ⟨start, found, last, behind⟩ := ih
    have counted := one_le_after text
    rw [after_concat, Text.lineStarts_append]
    by_cases feed : c.isLineFeed = true
    · refine ⟨text.length + 1, ?_, ?_, ?_⟩ <;> simp [next_of_feed feed, feed, last]
    · refine ⟨start, ?_, ?_, ?_⟩
      · simpa [next_of_not_feed feed, feed] using found
      · simpa [next_of_not_feed feed, feed] using last
      · simp only [next_of_not_feed feed, List.length_append, List.length_singleton]
        omega

end Steps

section Offsets

variable {source : Text} {offset later : Nat}

theorem after_slice (ordered : offset ≤ later) (inside : later ≤ source.length) :
    (ofOffset source offset).after (source.slice offset later) = ofOffset source later := by
  rw [after_ofOffset (Text.standsAt_slice source offset later), Text.length_slice inside, Nat.add_sub_cancel' ordered]

theorem isBefore_ofOffset (less : offset < later) (inside : later ≤ source.length) :
    (ofOffset source offset).IsBefore (ofOffset source later) := by
  rw [← after_slice (Nat.le_of_lt less) inside]
  refine isBefore_after _ (List.ne_nil_of_length_pos ?_)
  rw [Text.length_slice inside]
  omega

theorem one_le_ofOffset (inside : offset ≤ source.length) :
    1 ≤ (ofOffset source offset).line ∧ 1 ≤ (ofOffset source offset).column := by
  rw [ofOffset_eq_after inside]
  exact one_le_after _

/-- The position of an offset leads back to it: its line begins at or in front of the offset, and its column is the
distance from there. -/
theorem ofOffset_lineStart (inside : offset ≤ source.length) :
    ∃ start, source.lineStarts[(ofOffset source offset).line - 1]? = some start ∧
      offset = start + (ofOffset source offset).column - 1 := by
  obtain ⟨start, found, -, behind⟩ := after_lineStart (source.take offset)
  rw [← ofOffset_eq_after inside] at found behind
  rw [List.length_take_of_le inside] at behind
  refine ⟨start, ?_, behind⟩
  obtain ⟨short, -⟩ := List.getElem?_eq_some_iff.mp found
  have starts := Text.lineStarts_append (source.take offset) (source.drop offset)
  rw [List.take_append_drop] at starts
  rw [starts, List.getElem?_append_left short]
  exact found

/-- The position of a later offset is that of the rest of the text, moved to where the rest begins. -/
theorem ofOffset_eq_movedTo (ordered : offset ≤ later) (inside : later ≤ source.length) :
    ofOffset source later =
      (ofOffset (source.drop offset) (later - offset)).movedTo (ofOffset source offset) := by
  have part : (source.drop offset).take (later - offset) = source.slice offset later := by
    rw [Text.slice, List.drop_take]
  have short : later - offset ≤ (source.drop offset).length := by
    rw [List.length_drop]
    omega
  rw [← after_slice ordered inside, after_eq_movedTo, ofOffset_eq_after short, part]

end Offsets

/-- Positions are faithful to the offsets of a text. They ascend strictly, line before column. Lines and columns count
from one, and the offset is found again from the offset at which the line begins, which is the beginning of the text or
behind a line feed. And the text can be split in front of an offset anywhere: the position in the whole follows from the
one of the split and the one in the rest. -/
theorem ofOffset_faithful (source : Text) :
    (∀ offset later, offset < later → later ≤ source.length →
      (ofOffset source offset).IsBefore (ofOffset source later)) ∧
    ∀ offset, offset ≤ source.length →
      (1 ≤ (ofOffset source offset).line ∧ 1 ≤ (ofOffset source offset).column) ∧
      (∃ start, source.lineStarts[(ofOffset source offset).line - 1]? = some start ∧
        offset = start + (ofOffset source offset).column - 1) ∧
      ∀ split, split ≤ offset → ofOffset source offset =
        (ofOffset (source.drop split) (offset - split)).movedTo (ofOffset source split) :=
  ⟨fun _ _ less inside => isBefore_ofOffset less inside, fun _ inside =>
    ⟨one_le_ofOffset inside, ofOffset_lineStart inside, fun _ ordered => ofOffset_eq_movedTo ordered inside⟩⟩

/-- Three lines, the second one empty, split in the middle of the first one and at a line feed. -/
theorem ofOffset_faithful_lines :
    let source : Text := "ab\n\ncd"
    (ofOffset source 2).IsBefore (ofOffset source 3) ∧
    source.lineStarts[(ofOffset source 6).line - 1]? = some 4 ∧
    ofOffset source 2 = (ofOffset (source.drop 1) 1).movedTo (ofOffset source 1) ∧
    ofOffset source 6 = (ofOffset (source.drop 3) 3).movedTo (ofOffset source 3) := by
  intro source
  obtain ⟨ascending, each⟩ := ofOffset_faithful source
  have size : source.length = 6 := by decide
  obtain ⟨-, ⟨start, found, behind⟩, splits⟩ := each 6 (by omega)
  obtain rfl : start = 4 := by
    have column : (ofOffset source 6).column = 3 := by decide
    omega
  exact ⟨ascending 2 3 (by omega) (by omega), found, (each 2 (by omega)).2.2 1 (by omega), splits 3 (by omega)⟩

end Position

end StaticStyle
