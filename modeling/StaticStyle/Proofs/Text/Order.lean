import Mathlib.Data.List.Basic
import StaticStyle.Text.Basic

namespace StaticStyle

theorem CodePoint.toNat_injective {c d : CodePoint} (same : c.toNat = d.toNat) : c = d := by
  -- No character has the number of a surrogate.
  have apart (c : Char) (index : Fin 0x800) : c.toNat ≠ 0xD800 + index.val := by
    have valid : c.toNat < 0xD800 ∨ (0xDFFF < c.toNat ∧ c.toNat < 0x110000) := c.valid
    omega
  cases c with
  | char c =>
    cases d with
    | char d => exact congrArg _ (Char.toNat_inj.mp same)
    | surrogate index => exact absurd same (apart c index)
  | surrogate index =>
    cases d with
    | char d => exact absurd same.symm (apart d index)
    | surrogate index' =>
      have indices : index = index' := Fin.ext (Nat.add_left_cancel same)
      rw [indices]

namespace Text

theorem le_total (first second : Text) : (le first second || le second first) = true := by
  induction first generalizing second with
  | nil => rfl
  | cons a first ih =>
    cases second with
    | nil => rfl
    | cons b second =>
      have := ih second
      unfold le
      split <;> split <;> simp_all

theorem le_antisymm {first second : Text} (below : le first second = true)
    (above : le second first = true) : first = second := by
  induction first generalizing second with
  | nil =>
    cases second with
    | nil => rfl
    | cons b second => simp [le] at above
  | cons a first ih =>
    cases second with
    | nil => simp [le] at below
    | cons b second =>
      unfold le at below above
      split at below
      · rename_i less
        simp [less, Nat.lt_asymm less] at above
      · split at below
        · simp at below
        · rename_i notLess notGreater
          have same : a = b := CodePoint.toNat_injective (by omega)
          subst same
          simp only [Nat.lt_irrefl, ↓reduceIte] at above
          rw [ih below above]

theorem le_trans {first second third : Text} (below : le first second = true)
    (below' : le second third = true) : le first third = true := by
  induction first generalizing second third with
  | nil => rfl
  | cons a first ih =>
    cases second with
    | nil => simp [le] at below
    | cons b second =>
      cases third with
      | nil => simp [le] at below'
      | cons c third =>
        unfold le at below below' ⊢
        by_cases less : a.toNat < c.toNat
        · simp [less]
        · split at below
          · split at below'
            · omega
            · split at below'
              · simp at below'
              · omega
          · split at below
            · simp at below
            · split at below'
              · omega
              · split at below'
                · simp at below'
                · have notGreater : ¬ c.toNat < a.toNat := by omega
                  simp only [less, notGreater, ↓reduceIte]
                  exact ih below below'

theorem sort_ascending (texts : List Text) : (sort texts).Pairwise fun a b => le a b = true :=
  @List.pairwise_mergeSort Text le (fun _ _ _ => le_trans) le_total texts

theorem sort_perm (texts : List Text) : (sort texts).Perm texts := List.mergeSort_perm _ _

theorem sort_eq_of_perm {texts texts' : List Text} (same : texts.Perm texts') :
    sort texts = sort texts' :=
  List.Perm.eq_of_pairwise (fun _ _ _ _ => le_antisymm) (sort_ascending texts)
    (sort_ascending texts') ((sort_perm texts).trans (same.trans (sort_perm texts').symm))

theorem nodup_eraseDups (texts : List Text) : texts.eraseDups.Nodup := by
  generalize size : texts.length = n
  induction n using Nat.strongRecOn generalizing texts with
  | ind n ih =>
    cases texts with
    | nil => simp
    | cons text rest =>
      rw [List.eraseDups_cons, List.nodup_cons]
      refine ⟨?_, ih _ ?_ _ rfl⟩
      · simp [List.mem_eraseDups]
      · have := List.length_filter_le (fun b => !b == text) rest
        simp only [List.length_cons] at size
        omega

theorem mem_distinct {text : Text} {texts : List Text} : text ∈ distinct texts ↔ text ∈ texts := by
  rw [distinct, (sort_perm _).mem_iff, List.mem_eraseDups]

theorem distinct_eq_of_mem_iff {texts texts' : List Text}
    (same : ∀ text, text ∈ texts ↔ text ∈ texts') : distinct texts = distinct texts' := by
  apply sort_eq_of_perm
  refine (List.perm_ext_iff_of_nodup (nodup_eraseDups texts) (nodup_eraseDups texts')).mpr ?_
  intro text
  rw [List.mem_eraseDups, List.mem_eraseDups, same]

theorem distinct_distinct (texts : List Text) : distinct (distinct texts) = distinct texts :=
  distinct_eq_of_mem_iff fun _ => mem_distinct

end Text

end StaticStyle
