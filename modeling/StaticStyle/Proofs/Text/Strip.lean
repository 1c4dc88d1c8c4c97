import Mathlib.Data.List.Basic
import Mathlib.Data.List.TakeWhile
import StaticStyle.Text.Blank

namespace StaticStyle.Text

/-- A text that begins and ends with something else than a blank. -/
structure IsTrimmed (text : Text) : Prop where
  begins : text.head?.any (fun c => !c.isBlank) = true
  ends : text.getLast?.any (fun c => !c.isBlank) = true

theorem prefix_dropTrailing (p : CodePoint → Bool) (text : Text) : text.dropTrailing p <+: text := by
  rw [dropTrailing, ← List.reverse_suffix, List.reverse_reverse]
  exact List.dropWhile_suffix p

theorem infix_strip (text : Text) : text.strip <:+: text :=
  (prefix_dropTrailing _ _).isInfix.trans (List.dropWhile_suffix CodePoint.isBlank).isInfix

theorem exists_blanks_dropTrailing (p : CodePoint → Bool) (text : Text) :
    ∃ back, text = text.dropTrailing p ++ back ∧ ∀ c ∈ back, p c = true := by
  refine ⟨(text.reverse.takeWhile p).reverse, ?_, fun c member => ?_⟩
  · rw [dropTrailing, ← List.reverse_append, List.takeWhile_append_dropWhile, List.reverse_reverse]
  · exact List.mem_takeWhile_imp (List.mem_reverse.mp member)

section Trailing

variable {p : CodePoint → Bool}

theorem dropTrailing_of_all {text : Text} (all : text.all p = true) : text.dropTrailing p = [] := by
  rw [dropTrailing, List.reverse_eq_nil_iff, List.dropWhile_eq_nil_iff]
  simpa using all

/-- Something else than what is dropped stands in the second text. -/
theorem dropTrailing_append (front : Text) {back : Text} (remains : back.all p = false) :
    (front ++ back).dropTrailing p = front ++ back.dropTrailing p := by
  have kept : (back.reverse.dropWhile p).isEmpty = false := by
    rw [List.isEmpty_eq_false_iff, ne_eq, List.dropWhile_eq_nil_iff]
    simpa using remains
  rw [dropTrailing, List.reverse_append, List.dropWhile_append, kept]
  simp [dropTrailing]

theorem dropTrailing_append_of_all (front : Text) {back : Text} (all : back.all p = true) :
    (front ++ back).dropTrailing p = front.dropTrailing p := by
  have dropped : (back.reverse.dropWhile p).isEmpty = true := by
    rw [List.isEmpty_iff, List.dropWhile_eq_nil_iff]
    simpa using all
  rw [dropTrailing, List.reverse_append, List.dropWhile_append, dropped]
  rfl

theorem mem_of_mem_dropTrailing {text : Text} {c : CodePoint} (member : c ∈ text.dropTrailing p) : c ∈ text := by
  rw [dropTrailing, List.mem_reverse] at member
  exact List.mem_reverse.mp ((List.dropWhile_sublist p).subset member)

/-- What stands in front of a code point that is kept is kept as well. -/
theorem dropTrailing_behind (front : Text) {c : CodePoint} (kept : p c = false) (back : Text) :
    (front ++ c :: back).dropTrailing p = front ++ c :: back.dropTrailing p := by
  rw [dropTrailing_append front (by simp [kept])]
  congr 1
  by_cases remains : back.all p = false
  · exact dropTrailing_append [c] remains
  · rw [Bool.not_eq_false] at remains
    rw [dropTrailing_of_all remains, dropTrailing, List.reverse_cons, List.dropWhile_append,
      List.dropWhile_eq_nil_iff.mpr (by simpa using remains)]
    simp [kept]

end Trailing

theorem exists_blanks_strip (text : Text) : ∃ front back, text = front ++ text.strip ++ back ∧
    (∀ c ∈ front, c.isBlank = true) ∧ ∀ c ∈ back, c.isBlank = true := by
  obtain ⟨back, whole, blank⟩ := exists_blanks_dropTrailing CodePoint.isBlank text.dropBlank
  refine ⟨text.takeWhile CodePoint.isBlank, back, ?_, fun c member => List.mem_takeWhile_imp member, blank⟩
  rw [strip, List.append_assoc, ← whole, dropBlank, List.takeWhile_append_dropWhile]

theorem head?_dropTrailing {p : CodePoint → Bool} {text : Text} (remains : text.dropTrailing p ≠ []) :
    (text.dropTrailing p).head? = text.head? := by
  obtain ⟨behind, same⟩ := prefix_dropTrailing p text
  conv => rhs; rw [← same, List.head?_append_of_ne_nil _ remains]

theorem dropBlank_begins {text : Text} (remains : text.dropBlank ≠ []) :
    text.dropBlank.head?.any (fun c => !c.isBlank) = true := by
  have first := List.head?_dropWhile_not CodePoint.isBlank text
  rw [← dropBlank] at first
  obtain ⟨c, rest, same⟩ := List.exists_cons_of_ne_nil remains
  rw [same] at first ⊢
  simpa using first

/-- What is left of a text without its outer blanks has none. -/
theorem isTrimmed_strip {text : Text} (remains : text.strip ≠ []) : text.strip.IsTrimmed where
  begins := by
    have inside : text.dropBlank ≠ [] := fun none => remains (by rw [strip, none]; rfl)
    rw [strip, head?_dropTrailing remains]
    exact dropBlank_begins inside
  ends := by
    have reversed : text.strip = (dropBlank text.dropBlank.reverse).reverse := rfl
    rw [reversed, ne_eq, List.reverse_eq_nil_iff] at remains
    rw [reversed, List.getLast?_reverse]
    exact dropBlank_begins remains

/-- A text keeps a code point at its front that is no blank. -/
theorem exists_strip_cons {c : CodePoint} (kept : c.isBlank = false) (rest : Text) :
    ∃ behind, strip (c :: rest) = c :: behind := by
  have noFront : dropBlank (c :: rest) = c :: rest := List.dropWhile_cons_of_neg (by simp [kept])
  have remains : dropTrailing CodePoint.isBlank (c :: rest) ≠ [] := by
    simp [dropTrailing, kept]
  have head := head?_dropTrailing remains
  rw [strip, noFront]
  obtain ⟨first, behind, same⟩ := List.exists_cons_of_ne_nil remains
  rw [same] at head ⊢
  exact ⟨behind, by rw [Option.some.inj head]⟩

theorem isTrimmed_of_noBlank {text : Text} (nonempty : text ≠ []) (noBlank : ∀ c ∈ text, c.isBlank = false) :
    text.IsTrimmed where
  begins := by
    obtain ⟨c, rest, rfl⟩ := List.exists_cons_of_ne_nil nonempty
    simpa using noBlank c List.mem_cons_self
  ends := by
    rw [List.getLast?_eq_some_getLast nonempty, Option.any_some, noBlank _ (List.getLast_mem nonempty)]
    rfl

namespace IsTrimmed

variable {text other : Text}

theorem ne_nil (trimmed : text.IsTrimmed) : text ≠ [] := by
  rintro rfl
  simpa using trimmed.begins

theorem dropBlank_eq (trimmed : text.IsTrimmed) : text.dropBlank = text := by
  have begins := trimmed.begins
  cases text with
  | nil => rfl
  | cons c rest => exact List.dropWhile_cons_of_neg (by simpa using begins)

theorem strip_eq (trimmed : text.IsTrimmed) : text.strip = text := by
  have ends := trimmed.ends
  rw [strip, trimmed.dropBlank_eq, dropTrailing]
  rw [← List.head?_reverse] at ends
  cases reversed : text.reverse with
  | nil => exact (List.reverse_eq_nil_iff.mp reversed).symm
  | cons c rest =>
    rw [reversed] at ends
    rw [List.dropWhile_cons_of_neg (by simpa using ends), ← reversed, List.reverse_reverse]

theorem strip_blank_cons (trimmed : text.IsTrimmed) {c : CodePoint} (blank : c.isBlank = true) :
    strip (c :: text) = text := by
  rw [strip, dropBlank, List.dropWhile_cons_of_pos blank]
  exact trimmed.strip_eq

theorem append (trimmed : text.IsTrimmed) (trimmedOther : other.IsTrimmed) : (text ++ other).IsTrimmed where
  begins := by rw [List.head?_append_of_ne_nil _ trimmed.ne_nil]; exact trimmed.begins
  ends := by rw [List.getLast?_append_of_ne_nil _ trimmedOther.ne_nil]; exact trimmedOther.ends

/-- A text without blanks at its ends that is written in place of a code point leaves none at those of the whole. -/
theorem substitute (trimmed : text.IsTrimmed) (trimmedOther : other.IsTrimmed) (c : CodePoint) :
    (Text.substitute c other text).IsTrimmed := by
  -- What stands for one code point of the text is trimmed if the code point is no blank.
  have written {d : CodePoint} (kept : d.isBlank = false) :
      (if d = c then other else [d]).IsTrimmed := by
    split
    · exact trimmedOther
    · exact ⟨by simpa using kept, by simpa using kept⟩
  constructor
  · have begins := trimmed.begins
    cases text with
    | nil => simp at begins
    | cons d rest =>
      have first := written (d := d) (by simpa using begins)
      rw [Text.substitute, List.flatMap_cons, List.head?_append_of_ne_nil _ first.ne_nil]
      exact first.begins
  · have ends := trimmed.ends
    obtain ⟨front, d, rfl⟩ : ∃ front d, text = front ++ [d] :=
      ⟨_, _, (List.dropLast_concat_getLast trimmed.ne_nil).symm⟩
    have last := written (d := d) (by simpa using ends)
    rw [Text.substitute, List.flatMap_append, List.flatMap_singleton, List.getLast?_append_of_ne_nil _ last.ne_nil]
    exact last.ends

end IsTrimmed

end StaticStyle.Text
