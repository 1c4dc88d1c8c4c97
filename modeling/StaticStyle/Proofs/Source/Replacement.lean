import StaticStyle.Proofs.Source.Edit

/-!
What the edits of an editor do to its source. Edits that do not overlap are applied from the front to the back, each
behind the one before it, and outside of their ranges the source is kept.
-/

namespace StaticStyle

/-- Edits turn the text from an offset on into another one: what stands in front of the first edit is kept, the range
of the edit is replaced by its text, and the other edits go on behind that range. -/
inductive Replaces : Nat → Text → List Edit → Text → Prop where
  | nil (offset : Nat) (text : Text) : Replaces offset text [] text
  | cons {offset : Nat} {edit : Edit} {edits : List Edit} {kept old rest new : Text}
      (starts : edit.start = offset + kept.length) (stops : edit.stop = edit.start + old.length)
      (onward : Replaces edit.stop rest edits new) :
      Replaces offset (kept ++ old ++ rest) (edit :: edits) (kept ++ edit.text ++ new)

theorem Edit.stop_le_start {a b : Edit} (apart : a.overlaps b = false) (before : Edit.le a b = true)
    (ordered : b.start ≤ b.stop) : a.stop ≤ b.start := by
  simp only [Edit.le, Bool.or_eq_true, decide_eq_true_eq, Bool.and_eq_true, beq_iff_eq] at before
  have ends : ¬ (a.start < b.stop ∧ b.start < a.stop) := by rw [← overlaps_iff_lt, apart]; simp
  omega

/-- Edits that stand one behind the other replace their ranges. -/
theorem Editor.renderFrom_replaces {source : Text} {cursor : Nat} {edits : List Edit}
    (ascending : edits.Pairwise fun a b => a.stop ≤ b.start) (front : ∀ edit ∈ edits, cursor ≤ edit.start)
    (inside : ∀ edit ∈ edits, edit.start ≤ edit.stop ∧ edit.stop ≤ source.length) :
    Replaces cursor (source.drop cursor) edits (renderFrom source cursor edits) := by
  induction edits generalizing cursor with
  | nil => exact .nil cursor _
  | cons edit edits ih =>
    obtain ⟨after, ascending⟩ := List.pairwise_cons.mp ascending
    obtain ⟨here, others⟩ := List.forall_mem_cons.mp inside
    have starts := front edit List.mem_cons_self
    have whole : source.drop cursor =
        source.slice cursor edit.start ++ source.slice edit.start edit.stop ++ source.drop edit.stop := by
      rw [List.append_assoc, Text.slice_append_drop source here.1, Text.slice_append_drop source starts]
    rw [whole, renderFrom]
    refine .cons ?_ ?_ (ih ascending after others)
    · rw [Text.length_slice (here.1.trans here.2)]
      omega
    · rw [Text.length_slice here.2]
      omega

/-- An editor with edits of its source that do not overlap replaces their ranges, in the order in which they stand. -/
theorem Editor.render_replaces {editor : Editor}
    (apart : editor.recorded.Pairwise fun earlier later => later.overlaps earlier = false)
    (inside : ∀ edit ∈ editor.recorded, edit.start ≤ edit.stop ∧ edit.stop ≤ editor.source.length) :
    editor.edits.Pairwise (fun a b => a.stop ≤ b.start) ∧
      Replaces 0 editor.source editor.edits editor.render := by
  have permuted : editor.edits.Perm editor.recorded := List.mergeSort_perm _ _
  have inside' : ∀ edit ∈ editor.edits, edit.start ≤ edit.stop ∧ edit.stop ≤ editor.source.length :=
    fun edit member => inside edit (permuted.mem_iff.mp member)
  have free : editor.edits.Pairwise fun a b => a.overlaps b = false := by
    refine (permuted.pairwise_iff fun {a b} none => ?_).mpr (apart.imp fun {a b} none => ?_)
    · rwa [Edit.overlaps_comm]
    · rwa [Edit.overlaps_comm]
  have ascending : editor.edits.Pairwise fun a b => a.stop ≤ b.start := by
    refine (editor.edits_sorted.and free).imp_of_mem fun {a b} first second both => ?_
    exact Edit.stop_le_start both.2 both.1 (inside' b second).1
  exact ⟨ascending, renderFrom_replaces ascending (fun edit _ => Nat.zero_le _) inside'⟩

end StaticStyle
