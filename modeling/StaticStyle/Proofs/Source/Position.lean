import StaticStyle.Proofs.Source.Turn
import StaticStyle.Source.Position

namespace StaticStyle.Position

theorem after_append (position : Position) (first second : Text) :
    position.after (first ++ second) = (position.after first).after second :=
  List.foldl_append

private theorem afterLast_concat (text : Text) (c : CodePoint) :
    Text.afterLast '\n' (text ++ [c]) = if c.isLineFeed then [] else Text.afterLast '\n' text ++ [c] := by
  by_cases feed : c = .char '\n'
  · simp [Text.afterLast, CodePoint.isLineFeed, feed]
  · simp [Text.afterLast, CodePoint.isLineFeed, feed]

/-- The position of an offset in a text is the one behind what stands in front of it. -/
theorem ofOffset_eq_after {source : Text} {offset : Nat} (inside : offset ≤ source.length) :
    ofOffset source offset = (⟨1, 1⟩ : Position).after (source.take offset) := by
  induction offset with
  | zero => simp [ofOffset, after, Text.afterLast]
  | succ offset ih =>
    have before := ih (Nat.le_of_succ_le inside)
    have present : offset < source.length := inside
    rw [List.take_succ_eq_append_getElem present, after_append, ← before]
    simp only [ofOffset, List.take_succ_eq_append_getElem present, List.countP_append, afterLast_concat,
      Nat.sub_eq_zero_of_le inside, Nat.sub_eq_zero_of_le (Nat.le_of_succ_le inside), after, List.foldl_cons,
      List.foldl_nil, next]
    by_cases feed : source[offset].isLineFeed = true
    · simp [feed]
    · simp [feed]

/-- Going over a part of a text leads from its position to that of its end. -/
theorem after_ofOffset {source part : Text} {offset : Nat} (stands : source.StandsAt offset part) :
    (ofOffset source offset).after part = ofOffset source (offset + part.length) := by
  cases part with
  | nil => rfl
  | cons c part =>
    have size := stands.length_le
    rw [List.length_drop, List.length_cons] at size
    have whole : source.take (offset + (c :: part).length) = source.take offset ++ c :: part := by
      rw [List.take_add, ← List.prefix_iff_eq_take.mp stands]
    rw [ofOffset_eq_after (by omega), ofOffset_eq_after (by simp; omega), ← after_append, whole]

end StaticStyle.Position
