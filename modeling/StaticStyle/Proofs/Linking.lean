import StaticStyle.Bundle
import StaticStyle.Proofs.Source.Edit
import StaticStyle.Proofs.Text.Leading

namespace StaticStyle.Bundle

/-- A text that begins with the closing tag of a head: its name in any letter case, and blanks in front of the bracket. -/
def ClosesHead (text : Text) : Prop :=
  ∃ name blanks rest, text = name ++ (blanks ++ .char '>' :: rest) ∧
    name.map CodePoint.toAsciiLower = Text.ofString "</head" ∧ ∀ c ∈ blanks, c.isBlank = true

variable {html text href : Text} {offset : Nat}

private theorem head?_dropBlank_iff : (text.dropWhile CodePoint.isBlank).head? = some (.char '>') ↔
    ∃ blanks rest, text = blanks ++ .char '>' :: rest ∧ ∀ c ∈ blanks, c.isBlank = true := by
  constructor
  · intro bracket
    obtain ⟨rest, behind⟩ := List.head?_eq_some_iff.mp bracket
    refine ⟨text.takeWhile CodePoint.isBlank, rest, ?_, List.all_eq_true.mp List.all_takeWhile⟩
    rw [← behind, List.takeWhile_append_dropWhile]
  · rintro ⟨blanks, rest, rfl, blank⟩
    rw [List.dropWhile_append_of_pos blank, List.dropWhile_cons_of_neg (by decide)]
    rfl

theorem startsWithHeadClose_iff : startsWithHeadClose text = true ↔ ClosesHead text := by
  have size : (Text.ofString "</head").length = 6 := rfl
  unfold startsWithHeadClose
  constructor
  · intro starts
    split at starts
    · rename_i rest dropped
      obtain ⟨blanks, behind, whole, blank⟩ := head?_dropBlank_iff.mp (eq_of_beq starts)
      have name := Text.dropLeading?_eq dropped
      have nothing : rest = [] := by
        have short : ((text.take 6).map CodePoint.toAsciiLower).length ≤ 6 := by
          rw [List.length_map]
          exact List.length_take_le 6 text
        rw [name, List.length_append, size] at short
        exact List.eq_nil_of_length_eq_zero (by omega)
      exact ⟨text.take 6, blanks, behind, by rw [← whole, List.take_append_drop], by simpa [nothing] using name, blank⟩
    · cases starts
  · rintro ⟨name, blanks, behind, rfl, lower, blank⟩
    have six : name.length = 6 := by rw [← size, ← lower, List.length_map]
    have dropped := Text.dropLeading?_append (name.map CodePoint.toAsciiLower) []
    rw [List.append_nil, lower] at dropped
    rw [List.take_left' six, List.drop_left' six, lower, dropped]
    exact beq_iff_eq.mpr (head?_dropBlank_iff.mpr ⟨blanks, behind, rfl, blank⟩)

theorem headClose?_eq_some_iff : headClose? html = some offset ↔
    ClosesHead (html.drop offset) ∧ ∀ earlier < offset, ¬ ClosesHead (html.drop earlier) := by
  induction html generalizing offset with
  | nil =>
    have absent : ¬ ClosesHead [] := by simp [ClosesHead]
    simp [headClose?, absent]
  | cons c rest ih =>
    rw [headClose?]
    split
    · rename_i closes
      have closes := startsWithHeadClose_iff.mp closes
      constructor
      · intro found
        obtain rfl := Option.some.inj found
        exact ⟨closes, by simp⟩
      · rintro ⟨-, first⟩
        cases offset with
        | zero => rfl
        | succ offset => exact absurd closes (first 0 (Nat.succ_pos offset))
    · rename_i closes
      have closes := mt startsWithHeadClose_iff.mpr closes
      rw [Option.map_eq_some_iff]
      constructor
      · rintro ⟨distance, found, rfl⟩
        obtain ⟨here, first⟩ := ih.mp found
        refine ⟨here, fun earlier less => ?_⟩
        cases earlier with
        | zero => exact closes
        | succ earlier => exact first earlier (Nat.lt_of_succ_lt_succ less)
      · rintro ⟨here, first⟩
        cases offset with
        | zero => exact absurd here closes
        | succ offset => exact ⟨offset, ih.mpr ⟨here, fun earlier less => first (earlier + 1) (Nat.succ_lt_succ less)⟩, rfl⟩

theorem headClose?_eq_none_iff : headClose? html = none ↔ ∀ offset, ¬ ClosesHead (html.drop offset) := by
  induction html with
  | nil => simp [headClose?, ClosesHead]
  | cons c rest ih =>
    rw [headClose?]
    split
    · rename_i closes
      simpa using ⟨0, startsWithHeadClose_iff.mp closes⟩
    · rename_i closes
      rw [Option.map_eq_none_iff, ih]
      constructor
      · intro absent offset
        cases offset with
        | zero => exact mt startsWithHeadClose_iff.mpr closes
        | succ offset => exact absent offset
      · exact fun absent offset => absent (offset + 1)

theorem injectLink_of_linked (linked : link href <:+: html) : injectLink html href = html := by
  rw [injectLink, if_pos (Text.occursIn_iff.mpr linked)]

theorem injectLink_of_none (none : headClose? html = none) : injectLink html href = html := by
  rw [injectLink, none, ite_self]

theorem injectLink_of_some (unlinked : ¬ link href <:+: html) (found : headClose? html = some offset) :
    injectLink html href = html.take offset ++ (("  " ++ link href ++ "\n") ++ html.drop offset) := by
  rw [injectLink, if_neg (mt Text.occursIn_iff.mp unlinked), found]
  exact List.append_assoc ..

/-- Markup is left as it is, or a line with the link is put in front of the first closing tag of its head. -/
theorem injectLink_cases (html href : Text) :
    (injectLink html href = html ∧ (link href <:+: html ∨ ∀ offset, ¬ ClosesHead (html.drop offset))) ∨
    ∃ front behind, html = front ++ behind ∧ ¬ link href <:+: html ∧ ClosesHead behind ∧
      (∀ earlier < front.length, ¬ ClosesHead (html.drop earlier)) ∧
      injectLink html href = front ++ (("  " ++ link href ++ "\n") ++ behind) := by
  by_cases linked : link href <:+: html
  · exact .inl ⟨injectLink_of_linked linked, .inl linked⟩
  · cases found : headClose? html with
    | none => exact .inl ⟨injectLink_of_none found, .inr (headClose?_eq_none_iff.mp found)⟩
    | some offset =>
      obtain ⟨closes, first⟩ := headClose?_eq_some_iff.mp found
      refine .inr ⟨html.take offset, html.drop offset, (List.take_append_drop offset html).symm, linked, closes, ?_,
        injectLink_of_some linked found⟩
      exact fun earlier less => first earlier (Nat.lt_of_lt_of_le less (List.length_take_le offset html))

/-- Linking a style sheet adds nothing but the link. Either the markup stays as it is, or two blanks, the link and a line
feed are put directly in front of the first closing tag of its head. It stays as it is exactly if it holds the link
already or has no such tag, and linking the sheet twice is the same as linking it once. -/
theorem injectLink_once (html href : Text) :
    (injectLink html href = html ∨ ∃ front behind, html = front ++ behind ∧ ClosesHead behind ∧
      (∀ earlier < front.length, ¬ ClosesHead (html.drop earlier)) ∧
      injectLink html href = front ++ (("  " ++ link href ++ "\n") ++ behind)) ∧
    (injectLink html href = html ↔ link href <:+: html ∨ ∀ offset, ¬ ClosesHead (html.drop offset)) ∧
    injectLink (injectLink html href) href = injectLink html href := by
  rcases injectLink_cases html href with ⟨same, reason⟩ | ⟨front, behind, whole, unlinked, closes, first, placed⟩
  · exact ⟨.inl same, ⟨fun _ => reason, fun _ => same⟩, by rw [same, same]⟩
  · refine ⟨.inr ⟨front, behind, whole, closes, first, placed⟩, ⟨fun same => ?_, ?_⟩, ?_⟩
    · -- The text has grown, so it is not the same.
      have size := congrArg List.length (placed.symm.trans (same.trans whole))
      simp [Text.ofString] at size
      omega
    · rintro (linked | absent)
      · exact absurd linked unlinked
      · refine absurd closes ?_
        have behindFront := absent front.length
        rwa [whole, List.drop_left] at behindFront
    · refine injectLink_of_linked ?_
      rw [placed]
      exact ⟨front ++ Text.ofString "  ", Text.ofString "\n" ++ behind, by simp [List.append_assoc]⟩

example : injectLink "<HEAD></HEAD\n>" "a.css" =
    Text.ofString "<HEAD>  <link rel=\"stylesheet\" href=\"a.css\">\n</HEAD\n>" := by decide +kernel

end StaticStyle.Bundle
