import StaticStyle.Text.Basic

namespace StaticStyle.Text

theorem join_cons (separator first : Text) (others : List Text) :
    join separator (first :: others) = first ++ others.flatMap (separator ++ ·) := by
  induction others generalizing first with
  | nil => simp [join]
  | cons second others ih =>
    have behind := ih second
    rw [join] at behind ⊢
    rw [List.intersperse_cons_cons, List.flatten_cons, List.flatten_cons, behind, List.flatMap_cons,
      List.append_assoc]

theorem join_append {separator : Text} {first second : List Text} (some : first ≠ []) (someBehind : second ≠ []) :
    join separator (first ++ second) = join separator first ++ separator ++ join separator second := by
  obtain ⟨head, others, rfl⟩ := List.exists_cons_of_ne_nil some
  obtain ⟨next, rest, rfl⟩ := List.exists_cons_of_ne_nil someBehind
  simp [join_cons]

theorem split_ne_nil (separator : CodePoint) (text : Text) : split separator text ≠ [] := by
  cases text with
  | nil => simp [split]
  | cons c rest =>
    rw [split]
    split
    · simp
    · split <;> simp

private theorem split_cons {separator c : CodePoint} {rest part : Text} {parts : List Text}
    (behind : split separator rest = part :: parts) :
    split separator (c :: rest) = if c = separator then [] :: part :: parts else (c :: part) :: parts := by
  rw [split, behind]

theorem split_of_notMem {separator : CodePoint} {text : Text} (absent : separator ∉ text) :
    split separator text = [text] := by
  induction text with
  | nil => rfl
  | cons c text ih =>
    rw [List.mem_cons, not_or] at absent
    rw [split_cons (ih absent.2), if_neg (Ne.symm absent.1)]

theorem split_append {separator : CodePoint} {part : Text} (absent : separator ∉ part) (rest : Text) :
    split separator (part ++ separator :: rest) = part :: split separator rest := by
  induction part with
  | nil =>
    obtain ⟨first, others, behind⟩ := List.exists_cons_of_ne_nil (split_ne_nil separator rest)
    rw [List.nil_append, split_cons behind, if_pos rfl, behind]
  | cons c part ih =>
    rw [List.mem_cons, not_or] at absent
    rw [List.cons_append, split_cons (ih absent.2), if_neg (Ne.symm absent.1)]

/-- Texts that are joined by a code point that none of them holds are found again between its occurrences. -/
theorem split_join {separator : CodePoint} {first : Text} {others : List Text}
    (absent : ∀ text ∈ first :: others, separator ∉ text) :
    split separator (join [separator] (first :: others)) = first :: others := by
  induction others generalizing first with
  | nil =>
    rw [join_cons, List.flatMap_nil, List.append_nil]
    exact split_of_notMem (absent first List.mem_cons_self)
  | cons second others ih =>
    obtain ⟨absentFirst, absentOthers⟩ := List.forall_mem_cons.mp absent
    have behind := ih absentOthers
    rw [join_cons] at behind ⊢
    rw [List.flatMap_cons, List.singleton_append, List.cons_append, split_append absentFirst, behind]

/-- The parts between the occurrences of a code point are those that it joins to the text. -/
theorem join_split (separator : CodePoint) (text : Text) : join [separator] (split separator text) = text := by
  induction text with
  | nil => rfl
  | cons c text ih =>
    obtain ⟨first, others, behind⟩ := List.exists_cons_of_ne_nil (split_ne_nil separator text)
    rw [behind, join_cons] at ih
    rw [split_cons behind]
    split
    · rename_i same
      rw [join_cons, List.flatMap_cons, List.append_assoc, ih, same]
      rfl
    · rw [join_cons, List.cons_append, ih]

/-- Joined texts end with the last of them. -/
theorem getLast_suffix_join (separator : Text) {texts : List Text} (some : texts ≠ []) :
    texts.getLast some <:+ join separator texts := by
  obtain ⟨others, last, rfl⟩ : ∃ others last, texts = others ++ [last] :=
    ⟨_, _, (List.dropLast_concat_getLast some).symm⟩
  rw [List.getLast_concat]
  cases others with
  | nil => exact ⟨[], by rw [List.nil_append, List.nil_append, join_cons, List.flatMap_nil, List.append_nil]⟩
  | cons first others =>
    rw [List.cons_append, join_cons, List.flatMap_append, List.flatMap_singleton, ← List.append_assoc,
      ← List.append_assoc]
    exact List.suffix_append _ _

end StaticStyle.Text
