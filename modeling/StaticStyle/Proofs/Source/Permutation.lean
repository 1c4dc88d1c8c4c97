import Mathlib.Data.List.Nodup
import StaticStyle.Proofs.Source.Application

/-!
The order in which edits are recorded. Some edits are refused exactly if two of them are in each other's way, whichever
of them comes first. Otherwise they are applied in the order of their ranges, which are all different unless two of them
insert at one offset.
-/

namespace StaticStyle

/-- No two of some edits are in each other's way. -/
def AreApart (edits : List Edit) : Prop := edits.Pairwise fun earlier later => later.overlaps earlier = false

/-- No two of some edits insert at one offset. -/
def InsertApart (edits : List Edit) : Prop :=
  edits.Pairwise fun a b => ¬ (a.isInsertion = true ∧ b.isInsertion = true ∧ a.start = b.start)

instance (edits : List Edit) : Decidable (AreApart edits) := inferInstanceAs (Decidable (List.Pairwise _ edits))

instance (edits : List Edit) : Decidable (InsertApart edits) := inferInstanceAs (Decidable (List.Pairwise _ edits))

namespace AreApart

variable {edits edits' : List Edit}

theorem perm (permuted : edits.Perm edits') : AreApart edits ↔ AreApart edits' :=
  permuted.pairwise_iff fun {a b} apart => by rwa [Edit.overlaps_comm]

/-- The ranges of edits tell them apart, as two replacements of one range would be in each other's way. -/
theorem nodup_ranges (apart : AreApart edits) (inserts : InsertApart edits)
    (ordered : ∀ edit ∈ edits, edit.start ≤ edit.stop) :
    (edits.map fun edit => (edit.start, edit.stop)).Nodup := by
  refine List.pairwise_map.mpr ((apart.and inserts).imp_of_mem fun {a b} member _ both same => ?_)
  obtain ⟨free, notBoth⟩ := both
  obtain ⟨start, stop⟩ := Prod.mk.inj same
  have nonempty := ordered a member
  by_cases empty : a.start = a.stop
  · exact notBoth ⟨beq_iff_eq.mpr empty, beq_iff_eq.mpr (by omega), start⟩
  · have overlap : b.overlaps a = true := Edit.overlaps_iff_lt.mpr (by omega)
    rw [free] at overlap
    cases overlap

/-- Edits are sorted in one way only. -/
theorem sort_eq (apart : AreApart edits) (inserts : InsertApart edits)
    (ordered : ∀ edit ∈ edits, edit.start ≤ edit.stop) (permuted : edits.Perm edits') :
    edits.mergeSort Edit.le = edits'.mergeSort Edit.le := by
  have sorted (list : List Edit) := List.pairwise_mergeSort Edit.le_trans Edit.le_total list
  have same : (edits.mergeSort Edit.le).Perm (edits'.mergeSort Edit.le) :=
    (List.mergeSort_perm _ _).trans (permuted.trans (List.mergeSort_perm _ _).symm)
  refine same.eq_of_pairwise (fun a b found found' le ge => ?_) (sorted edits) (sorted edits')
  have member : b ∈ edits := permuted.mem_iff.mpr (List.mem_mergeSort.mp found')
  refine List.inj_on_of_nodup_map (apart.nodup_ranges inserts ordered) (List.mem_mergeSort.mp found) member ?_
  simp only [Edit.le, Bool.or_eq_true, decide_eq_true_eq, Bool.and_eq_true, beq_iff_eq] at le ge
  simp only [Prod.mk.injEq]
  omega

end AreApart

namespace Editor

variable {editor : Editor} {source : Text} {requests requests' : List Request}

/-- Records one edit behind another, up to the first one that is refused. -/
def answerAll (editor : Editor) (requests : List Request) : Except EditFault Editor := requests.foldlM answer editor

/-- One of the edits to be recorded for a source is refused for an earlier one. -/
def MeetsConflict (source : Text) (requests : List Request) : Prop :=
  ∃ start stop earlier, answerAll (ofSource source) requests = .error (.conflict start stop earlier)

/-- Edits inside the source are all recorded, if no two of them or of the earlier ones are in each other's way, or else
one of them is refused for an earlier one. -/
theorem answerAll_cases (apart : AreApart editor.recorded)
    (inside : ∀ request ∈ requests, request.IsInside editor.source.length) :
    (AreApart (editor.recorded ++ requests.map Request.edit) ∧ editor.answerAll requests =
      .ok { editor with recorded := editor.recorded ++ requests.map Request.edit }) ∨
    (¬ AreApart (editor.recorded ++ requests.map Request.edit) ∧
      ∃ start stop earlier, editor.answerAll requests = .error (.conflict start stop earlier)) := by
  induction requests generalizing editor with
  | nil => exact .inl ⟨by simpa using apart, by simp [answerAll, pure, Except.pure]⟩
  | cons request requests ih =>
    obtain ⟨here, others⟩ := List.forall_mem_cons.mp inside
    rcases answer_cases here with ⟨free, accepted⟩ | ⟨earlier, member, overlap, refused⟩
    · have next : AreApart (editor.recorded ++ [request.edit]) :=
        List.pairwise_append.mpr ⟨apart, List.pairwise_singleton _ _, by simpa using free⟩
      have onward := @ih { editor with recorded := editor.recorded ++ [request.edit] } next others
      have first : editor.answerAll (request :: requests) =
          answerAll { editor with recorded := editor.recorded ++ [request.edit] } requests := by
        rw [answerAll, List.foldlM_cons, accepted]
        rfl
      rw [first, List.map_cons]
      simpa only [List.append_assoc, List.cons_append, List.nil_append] using onward
    · refine .inr ⟨fun whole => ?_, request.edit.start, request.edit.stop, earlier, ?_⟩
      · have free := (List.pairwise_append.mp whole).2.2 earlier member request.edit List.mem_cons_self
        rw [overlap] at free
        cases free
      · rw [answerAll, List.foldlM_cons, refused]
        rfl

/-- Edits of a source meet a conflict exactly if two of them are in each other's way. -/
theorem meetsConflict_iff (inside : ∀ request ∈ requests, request.IsInside source.length) :
    MeetsConflict source requests ↔ ¬ AreApart (requests.map Request.edit) := by
  have empty : AreApart (ofSource source).recorded := .nil
  rcases answerAll_cases empty inside with ⟨apart, accepted⟩ | ⟨clash, refused⟩
  · refine ⟨?_, fun clash => absurd apart clash⟩
    rintro ⟨start, stop, earlier, refused⟩
    rw [accepted] at refused
    cases refused
  · exact ⟨fun _ => clash, fun _ => refused⟩

/-- Edits of a source that are not in each other's way are recorded in the order in which they are given. -/
theorem answerAll_of_apart (inside : ∀ request ∈ requests, request.IsInside source.length)
    (apart : AreApart (requests.map Request.edit)) :
    answerAll (ofSource source) requests = .ok ⟨source, requests.map Request.edit⟩ := by
  have empty : AreApart (ofSource source).recorded := .nil
  rcases answerAll_cases empty inside with ⟨-, accepted⟩ | ⟨clash, -⟩
  · exact accepted
  · exact absurd apart clash

/-- Edits of which no two insert at one offset may be recorded in any order: either one of them is refused for an
earlier one in every order, or none is in any, and then they are applied in the same order with the same edited text. -/
theorem answerAll_perm (source : Text) {requests requests' : List Request}
    (inside : ∀ request ∈ requests, request.IsInside source.length)
    (inserts : InsertApart (requests.map Request.edit)) (permuted : requests.Perm requests') :
    (MeetsConflict source requests ↔ MeetsConflict source requests') ∧
      (¬ MeetsConflict source requests → ∃ editor editor', answerAll (ofSource source) requests = .ok editor ∧
        answerAll (ofSource source) requests' = .ok editor' ∧ editor.edits = editor'.edits ∧
        editor.render = editor'.render) := by
  have inside' : ∀ request ∈ requests', request.IsInside source.length :=
    fun request member => inside request (permuted.mem_iff.mpr member)
  have alike := AreApart.perm (permuted.map Request.edit)
  refine ⟨by rw [meetsConflict_iff inside, meetsConflict_iff inside', alike], fun free => ?_⟩
  have apart : AreApart (requests.map Request.edit) := by
    by_contra clash
    exact free ((meetsConflict_iff inside).mpr clash)
  have ordered : ∀ edit ∈ requests.map Request.edit, edit.start ≤ edit.stop := by
    intro edit member
    obtain ⟨request, belongs, rfl⟩ := List.mem_map.mp member
    exact (inside request belongs).edit.1
  have edits := apart.sort_eq inserts ordered (permuted.map Request.edit)
  refine ⟨_, _, answerAll_of_apart inside apart, answerAll_of_apart inside' (alike.mp apart), edits, ?_⟩
  rw [render, render, Editor.edits, Editor.edits, edits]

/-- A replacement with an insertion in front of it and one behind it, and a removal, recorded the other way round. -/
theorem answerAll_perm_reversed :
    let requests : List Request := [.overwrite 6 11 "there", .insert 11 "!", .remove 0 2, .insert 6 "<"]
    InsertApart (requests.map Request.edit) ∧
      ∃ editor editor', answerAll (ofSource "hello world") requests = .ok editor ∧
        answerAll (ofSource "hello world") requests.reverse = .ok editor' ∧ editor.edits = editor'.edits ∧
        editor.render = editor'.render := by
  intro requests
  have inserts : InsertApart (requests.map Request.edit) := by decide
  have inside : ∀ request ∈ requests, request.IsInside (Text.ofString "hello world").length := by decide
  have free : ¬ MeetsConflict "hello world" requests := by
    rw [meetsConflict_iff inside, not_not]
    decide
  exact ⟨inserts, (answerAll_perm "hello world" inside inserts (List.reverse_perm requests).symm).2 free⟩

end Editor

end StaticStyle
