import Mathlib.Data.List.Nodup
import StaticStyle.Proofs.Source.Edit

/-!
Edits that turn one text into another. Texts that stand one behind the other are turned by edits that stand one
behind the other, so what the edits of a whole source render is put together from its parts.
-/

namespace StaticStyle

namespace Text

/-- A part of a text begins at an offset. -/
def StandsAt (text : Text) (offset : Nat) (part : Text) : Prop := part <+: text.drop offset

namespace StandsAt

variable {text first second part : Text} {offset : Nat}

theorem whole (text : Text) : text.StandsAt 0 text := List.prefix_rfl

theorem left (stands : text.StandsAt offset (first ++ second)) : text.StandsAt offset first :=
  (List.prefix_append first second).trans stands

theorem right (stands : text.StandsAt offset (first ++ second)) {n : Nat}
    (behind : n = offset + first.length) : text.StandsAt n second := by
  obtain ⟨rest, same⟩ := stands
  refine ⟨rest, ?_⟩
  rw [behind, ← List.drop_drop, ← same, List.append_assoc, List.drop_left]

theorem head {c : CodePoint} (stands : text.StandsAt offset (c :: part)) : text.StandsAt offset [c] := by
  rw [← List.singleton_append] at stands
  exact stands.left

theorem getElem? {c : CodePoint} (stands : text.StandsAt offset (c :: part)) : text[offset]? = some c := by
  obtain ⟨rest, same⟩ := stands
  rw [← List.head?_drop, ← same]
  rfl

theorem tail {c : CodePoint} (stands : text.StandsAt offset (c :: part)) : text.StandsAt (offset + 1) part := by
  rw [← List.singleton_append] at stands
  exact stands.right rfl

theorem slice (stands : text.StandsAt offset part) {stop : Nat} (ends : stop = offset + part.length) :
    text.slice offset stop = part := by
  obtain ⟨rest, same⟩ := stands
  exact slice_of_drop same.symm ends

theorem take (stands : text.StandsAt offset part) {distance : Nat} (inside : distance ≤ part.length) :
    text.take (offset + distance) = text.take offset ++ part.take distance := by
  obtain ⟨rest, same⟩ := stands
  rw [List.take_add, ← same, List.take_append_of_le_length inside]

theorem drop (stands : text.StandsAt offset part) {distance : Nat} (inside : distance ≤ part.length) :
    text.drop (offset + distance) = part.drop distance ++ text.drop (offset + part.length) := by
  obtain ⟨rest, same⟩ := stands
  rw [← List.drop_drop, ← List.drop_drop, ← same, List.drop_left, List.drop_append_of_le_length inside]

theorem drop_eq (stands : text.StandsAt offset part) : text.drop offset = part ++ text.drop (offset + part.length) :=
  stands.drop (Nat.zero_le _)

end StandsAt

theorem standsAt_slice (text : Text) (start stop : Nat) : text.StandsAt start (text.slice start stop) :=
  (List.take_prefix stop text).drop start

end Text

/-- Edits of a text that begins at an offset turn it into another one. They are in the order of their starts, and
each starts inside the text. Something of the text stands in front of an insertion. -/
structure Turns (offset : Nat) (old : Text) (edits : List Edit) (new : Text) : Prop where
  renders : ∀ {source : Text} (rest : List Edit), source.StandsAt offset old →
    (∀ edit ∈ rest.head?, offset + old.length ≤ edit.start) →
    Editor.renderFrom source offset (edits ++ rest) =
      new ++ Editor.renderFrom source (offset + old.length) rest
  ascending : edits.Pairwise fun a b => a.start < b.start
  inside : ∀ edit ∈ edits, offset ≤ edit.start ∧ edit.start ≤ edit.stop ∧
    edit.start < offset + old.length ∧ edit.stop ≤ offset + old.length
  front : ∀ edit ∈ edits, edit.start = edit.stop → offset < edit.start

namespace Turns

variable {offset : Nat} {old old' new new' : Text} {edits edits' : List Edit}

/-- A text without edits is kept. -/
theorem keep (offset : Nat) (text : Text) : Turns offset text [] text where
  renders {source} rest stands behind := by
    cases rest with
    | nil =>
      obtain ⟨tail, same⟩ := stands
      rw [List.nil_append, Editor.renderFrom, Editor.renderFrom, ← List.drop_drop, ← same, List.drop_left]
    | cons edit rest =>
      have reached := behind edit rfl
      rw [List.nil_append, Editor.renderFrom, Editor.renderFrom, ← List.append_assoc, ← List.append_assoc]
      congr 2
      rw [← Text.slice_append source (Nat.le_add_right _ _) reached, stands.slice rfl]
  ascending := .nil
  inside _ member := absurd member List.not_mem_nil
  front _ member := absurd member List.not_mem_nil

/-- A text that is overwritten. -/
theorem overwrite (offset : Nat) {old : Text} (nonempty : old ≠ []) (new : Text) :
    Turns offset old [⟨offset, offset + old.length, new⟩] new where
  renders _ _ _ := by
    rw [List.cons_append, List.nil_append, Editor.renderFrom, Text.slice, List.drop_take, Nat.sub_self,
      List.take_zero, List.nil_append]
  ascending := List.pairwise_singleton _ _
  inside edit member := by
    have size := List.length_pos_iff.mpr nonempty
    rw [List.mem_singleton.mp member]
    dsimp only
    omega
  front edit member inserts := by
    have size := List.length_pos_iff.mpr nonempty
    rw [List.mem_singleton.mp member] at inserts
    dsimp only at inserts
    omega

theorem append (first : Turns offset old edits new) {offset' : Nat} (second : Turns offset' old' edits' new')
    (further : offset' = offset + old.length) : Turns offset (old ++ old') (edits ++ edits') (new ++ new') where
  renders {source} rest stands behind := by
    subst further
    rw [List.length_append, ← Nat.add_assoc] at behind ⊢
    rw [List.append_assoc, first.renders _ stands.left, second.renders rest (stands.right rfl) behind,
      List.append_assoc]
    intro edit found
    cases edits' with
    | nil => exact (Nat.le_add_right _ _).trans (behind edit found)
    | cons head edits' =>
      obtain rfl := Option.some.inj found
      exact (second.inside _ List.mem_cons_self).1
  ascending := by
    refine List.pairwise_append.mpr ⟨first.ascending, second.ascending, fun a member b member' => ?_⟩
    have before := (first.inside a member).2.2.1
    have after := (second.inside b member').1
    omega
  inside edit member := by
    rw [List.length_append]
    rcases List.mem_append.mp member with member | member
    · have bounds := first.inside edit member
      omega
    · have bounds := second.inside edit member
      omega
  front edit member inserts := by
    rcases List.mem_append.mp member with member | member
    · exact first.front edit member inserts
    · have later := second.front edit member inserts
      omega

theorem behind (front : Text) {offset' : Nat} (turns : Turns offset' old edits new)
    (further : offset' = offset + front.length) : Turns offset (front ++ old) edits (front ++ new) :=
  (keep offset front).append turns further

theorem before (turns : Turns offset old edits new) (rest : Text) :
    Turns offset (old ++ rest) edits (new ++ rest) := by
  simpa using turns.append (keep _ rest) rfl

/-- The value between two signs is overwritten, also if there is nothing in it. -/
theorem value (offset : Nat) (b : CodePoint) (old new : Text) (c : CodePoint) :
    Turns offset (b :: old ++ [c]) [⟨offset + 1, offset + 1 + old.length, new⟩] (b :: new ++ [c]) := by
  cases old with
  | cons d old => exact ((overwrite (offset + 1) (List.cons_ne_nil d old) new).before [c]).behind [b] rfl
  | nil =>
    refine ⟨fun {source} rest stands behind => ?_, List.pairwise_singleton _ _, fun edit member => ?_,
      fun edit member _ => ?_⟩
    · have kept := (keep (offset + 1) [c]).renders rest stands.tail behind
      have sign : source.slice offset (offset + 1) = [b] := stands.head.slice rfl
      rw [List.nil_append] at kept
      rw [List.cons_append, List.nil_append, Editor.renderFrom, List.length_nil, Nat.add_zero, kept, sign]
      simp
    · rw [List.mem_singleton.mp member]
      simp
    · rw [List.mem_singleton.mp member]
      simp

/-- A part of a text is overwritten. -/
theorem replace (front : Text) {part : Text} (nonempty : part ≠ []) (text : Text) {start stop : Nat}
    (starts : start = offset + front.length) (stops : stop = start + part.length)
    (turns : Turns stop old edits new) :
    Turns offset (front ++ part ++ old) (⟨start, stop, text⟩ :: edits) (front ++ text ++ new) := by
  subst stops
  rw [List.append_assoc, List.append_assoc]
  exact ((overwrite start nonempty text).append turns rfl).behind front starts

/-- A value between two signs is overwritten, also if there is nothing in it. -/
theorem replaceValue (front : Text) (b : CodePoint) (part text : Text) (c : CodePoint) {start stop : Nat}
    (starts : start = offset + front.length + 1) (stops : stop = start + part.length)
    (turns : Turns (stop + 1) old edits new) :
    Turns offset (front ++ b :: part ++ c :: old) (⟨start, stop, text⟩ :: edits)
      (front ++ b :: text ++ c :: new) := by
  subst stops starts
  have whole := ((value (offset + front.length) b part text c).append turns (by simp; omega)).behind front rfl
  simpa using whole

/-- The edited source is what the edits turn the source into, in whichever order they were recorded. -/
theorem render_eq {editor : Editor} (turns : Turns 0 editor.source edits new)
    (recorded : editor.recorded.Perm edits) : editor.edits = edits ∧ editor.render = new := by
  have sorted : editor.edits = edits := by
    have permuted : editor.edits.Perm edits := (List.mergeSort_perm _ _).trans recorded
    have apart : (edits.map Edit.start).Nodup := List.pairwise_map.mpr (turns.ascending.imp Nat.ne_of_lt)
    refine permuted.eq_of_pairwise (fun a b found found' le ge => ?_) editor.edits_sorted
      (turns.ascending.imp fun before => by simp [Edit.le, before])
    refine List.inj_on_of_nodup_map apart (permuted.mem_iff.mp found) found' ?_
    simp only [Edit.le, Bool.or_eq_true, decide_eq_true_eq, Bool.and_eq_true, beq_iff_eq] at le ge
    omega
  refine ⟨sorted, ?_⟩
  have rendered := turns.renders [] (Text.StandsAt.whole _) (by simp)
  rw [List.append_nil] at rendered
  rw [Editor.render, sorted, rendered]
  simp [Editor.renderFrom]

end Turns

end StaticStyle
