import Mathlib.Data.List.Basic

namespace StaticStyle

/-- Sorting keeps the order among members that are all below each other. -/
theorem filter_mergeSort_of_alike {α : Type} {le : α → α → Bool}
    (trans : ∀ a b c, le a b = true → le b c = true → le a c = true) (total : ∀ a b, (le a b || le b a) = true)
    {p : α → Bool} (alike : ∀ a b, p a = true → p b = true → le a b = true) (members : List α) :
    (members.mergeSort le).filter p = members.filter p := by
  have group : (members.filter p).Pairwise fun a b => le a b = true :=
    List.pairwise_of_forall_mem_list fun a member b member' =>
      alike a b (List.mem_filter.mp member).2 (List.mem_filter.mp member').2
  have inside := (List.sublist_mergeSort trans total group List.filter_sublist).filter p
  simp only [List.filter_filter, Bool.and_self] at inside
  exact (inside.eq_of_length ((List.mergeSort_perm members le).filter p).length_eq.symm).symm

section Ranked

variable {α : Type} (rank : α → Nat)

private theorem ranked_trans (a b c : α) (below : decide (rank a ≤ rank b) = true)
    (below' : decide (rank b ≤ rank c) = true) : decide (rank a ≤ rank c) = true := by
  simp only [decide_eq_true_eq] at below below' ⊢
  omega

private theorem ranked_total (a b : α) : (decide (rank a ≤ rank b) || decide (rank b ≤ rank a)) = true := by
  simp only [Bool.or_eq_true, decide_eq_true_eq]
  omega

theorem mergeSort_ascending (members : List α) :
    (members.mergeSort fun a b => rank a ≤ rank b).Pairwise fun a b => rank a ≤ rank b :=
  (List.pairwise_mergeSort (ranked_trans rank) (ranked_total rank) members).imp of_decide_eq_true

private theorem filter_mergeSort (members : List α) (n : Nat) :
    (members.mergeSort fun a b => rank a ≤ rank b).filter (rank · = n) = members.filter (rank · = n) := by
  refine filter_mergeSort_of_alike (ranked_trans rank) (ranked_total rank) (fun a b same same' => ?_) members
  simp only [decide_eq_true_eq] at same same' ⊢
  omega

/-- A list of ascending ranks is made of its groups. -/
private theorem flatMap_filter_of_ascending {members : List α}
    (ascending : members.Pairwise fun a b => rank a ≤ rank b) (bound : Nat) (below : ∀ a ∈ members, rank a < bound) :
    ((List.range bound).flatMap fun n => members.filter (rank · = n)) = members := by
  induction bound generalizing members with
  | zero => exact (List.eq_nil_iff_forall_not_mem.mpr fun a member => absurd (below a member) (by omega)).symm
  | succ bound ih =>
    have others : ((List.range bound).flatMap fun n => members.filter (rank · = n)) =
        members.filter (rank · < bound) := by
      rw [← ih (ascending.filter _) fun a member => by simpa using (List.mem_filter.mp member).2]
      refine List.flatMap_congr fun n small => ?_
      have small := List.mem_range.mp small
      rw [List.filter_filter]
      refine List.filter_congr fun a _ => ?_
      rw [Bool.eq_iff_iff]
      simp only [Bool.and_eq_true, decide_eq_true_eq]
      omega
    rw [List.range_succ, List.flatMap_append, others, List.flatMap_singleton]
    clear ih others
    -- Behind the first member of the last group there are members of this group only.
    induction members with
    | nil => rfl
    | cons a members ih =>
      obtain ⟨first, rest⟩ := List.pairwise_cons.mp ascending
      obtain ⟨small, others⟩ := List.forall_mem_cons.mp below
      by_cases last : rank a = bound
      · have none : members.filter (rank · < bound) = [] := by
          rw [List.filter_eq_nil_iff]
          intro b member
          have := first b member
          simp only [decide_eq_true_eq]
          omega
        have all : members.filter (rank · = bound) = members := by
          rw [List.filter_eq_self]
          intro b member
          have := first b member
          have := others b member
          simp only [decide_eq_true_eq]
          omega
        simp [last, none, all]
      · have before : rank a < bound := by omega
        simp only [List.filter_cons, before, last, decide_true, decide_false, ↓reduceIte, Bool.false_eq_true,
          List.cons_append, ih rest others]

theorem mergeSort_eq_flatMap_filter {members : List α} {bound : Nat} (below : ∀ a ∈ members, rank a < bound) :
    (members.mergeSort fun a b => rank a ≤ rank b) =
      (List.range bound).flatMap fun n => members.filter (rank · = n) := by
  rw [← flatMap_filter_of_ascending rank (mergeSort_ascending rank members) bound fun a member => below a (List.mem_mergeSort.mp member)]
  simp only [filter_mergeSort]

end Ranked

end StaticStyle
