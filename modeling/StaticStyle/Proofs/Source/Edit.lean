import Mathlib.Data.List.Infix
import StaticStyle.Source.Edit

namespace StaticStyle

namespace Text

theorem occursIn_iff {part text : Text} : occursIn part text = true ↔ part <:+: text := by
  induction text with
  | nil => simp [occursIn]
  | cons c rest ih =>
    rw [occursIn, Bool.or_eq_true, List.isPrefixOf_iff_prefix, ih, List.infix_cons_iff]

/-- A part of one of several texts is a part of them with separators. -/
theorem infix_join {part text separator : Text} {texts : List Text} (member : text ∈ texts)
    (inside : part <:+: text) : part <:+: join separator texts := by
  refine inside.trans ?_
  rw [join]
  induction texts with
  | nil => simp at member
  | cons first texts ih =>
    cases texts with
    | nil => simp [List.mem_singleton.mp member]
    | cons second texts =>
      rw [List.intersperse_cons_cons, List.flatten_cons, List.flatten_cons]
      rcases List.mem_cons.mp member with rfl | member
      · exact (List.prefix_append _ _).isInfix
      · exact (ih member).trans
          ((List.suffix_append _ _).isInfix.trans (List.suffix_append _ _).isInfix)

theorem slice_of_drop {text part rest : Text} {start stop : Nat}
    (placed : text.drop start = part ++ rest) (ends : stop = start + part.length) :
    text.slice start stop = part := by
  rw [slice, List.drop_take, placed, ends, Nat.add_sub_cancel_left, List.take_left]

theorem drop_of_drop {text part rest : Text} {start stop : Nat}
    (placed : text.drop start = part ++ rest) (ends : stop = start + part.length) :
    text.drop stop = rest := by
  rw [ends, ← List.drop_drop, placed, List.drop_left]

theorem length_slice {text : Text} {start stop : Nat} (inside : stop ≤ text.length) :
    (text.slice start stop).length = stop - start := by
  rw [slice, List.length_drop, List.length_take, Nat.min_eq_left inside]

theorem slice_append_drop (text : Text) {start stop : Nat} (ordered : start ≤ stop) :
    text.slice start stop ++ text.drop stop = text.drop start := by
  obtain ⟨length, rfl⟩ := Nat.exists_eq_add_of_le ordered
  rw [slice, List.drop_take, Nat.add_sub_cancel_left, ← List.drop_drop, List.take_append_drop]

theorem slice_append (text : Text) {start middle stop : Nat} (below : start ≤ middle)
    (above : middle ≤ stop) :
    text.slice start middle ++ text.slice middle stop = text.slice start stop := by
  have cut : (text.take stop).take middle = text.take middle := by
    rw [List.take_take, Nat.min_eq_left above]
  have whole := slice_append_drop (text.take stop) below
  rwa [slice, cut] at whole

end Text

theorem Edit.overlaps_iff_lt {a b : Edit} : a.overlaps b = true ↔ a.start < b.stop ∧ b.start < a.stop := by
  unfold overlaps isInsertion
  by_cases inserts : a.start = a.stop <;> by_cases inserts' : b.start = b.stop <;>
    simp [inserts, inserts'] <;> omega

theorem Edit.overlaps_comm (a b : Edit) : a.overlaps b = b.overlaps a := by
  rw [Bool.eq_iff_iff, overlaps_iff_lt, overlaps_iff_lt, and_comm]

namespace Edit

theorem le_trans (a b c : Edit) (ab : le a b = true) (bc : le b c = true) : le a c = true := by
  simp only [le] at *
  grind

theorem le_total (a b : Edit) : (le a b || le b a) = true := by
  simp only [le]
  grind

/-- An edit is sorted in behind those that it does not precede. -/
theorem sort_cons (edit : Edit) (edits : List Edit) :
    (edit :: edits).mergeSort le = (edits.mergeSort le).takeWhile (fun other => !le edit other) ++
      edit :: (edits.mergeSort le).dropWhile (fun other => !le edit other) := by
  obtain ⟨before, after, whole, parts, precede⟩ :=
    List.mergeSort_cons le_trans le_total edit edits
  have sorted := List.pairwise_mergeSort le_trans le_total (edit :: edits)
  rw [whole] at sorted
  have follow : ∀ other ∈ after, le edit other = true :=
    (List.pairwise_cons.mp (List.pairwise_append.mp sorted).2.1).1
  rw [whole, parts, List.takeWhile_append_of_pos precede, List.dropWhile_append_of_pos precede]
  cases after with
  | nil => simp
  | cons other after => simp [follow other List.mem_cons_self]

/-- An edit in front of all others is sorted to the front, also if it comes last. -/
theorem sort_concat_of_first {first : Edit} {edits : List Edit} (before : ∀ edit ∈ edits, le edit first = false) :
    (edits ++ [first]).mergeSort le = first :: edits.mergeSort le := by
  induction edits with
  | nil => simp
  | cons edit edits ih =>
    obtain ⟨here, others⟩ := List.forall_mem_cons.mp before
    rw [List.cons_append, sort_cons, ih others, sort_cons edit edits]
    simp [here]

end Edit

namespace Editor

theorem infix_renderFrom {source : Text} {cursor : Nat} {edits : List Edit} {edit : Edit}
    (member : edit ∈ edits) : edit.text <:+: renderFrom source cursor edits := by
  induction edits generalizing cursor with
  | nil => simp at member
  | cons first edits ih =>
    rw [renderFrom]
    rcases List.mem_cons.mp member with rfl | member
    · exact List.infix_append _ _ _
    · exact (ih member).trans (List.suffix_append _ _).isInfix

theorem infix_render {editor : Editor} {edit : Edit} (member : edit ∈ editor.recorded) :
    edit.text <:+: editor.render :=
  infix_renderFrom ((List.mergeSort_perm _ _).mem_iff.mpr member)

theorem overwrite_cases (editor : Editor) {start stop : Nat} (text : Text) (ordered : start ≤ stop)
    (inside : stop ≤ editor.source.length) :
    editor.overwrite start stop text =
        .ok { editor with recorded := editor.recorded ++ [⟨start, stop, text⟩] } ∨
      ∃ earlier ∈ editor.recorded, (⟨start, stop, text⟩ : Edit).overlaps earlier = true ∧
        editor.overwrite start stop text = .error (.conflict start stop earlier) := by
  have range : (0 : Int) ≤ start ∧ (start : Int) ≤ stop ∧ (stop : Int) ≤ editor.source.length := by
    omega
  rw [overwrite, if_pos range, record, Int.toNat_natCast, Int.toNat_natCast]
  cases found : editor.recorded.find? (⟨start, stop, text⟩ : Edit).overlaps with
  | none => exact .inl rfl
  | some earlier =>
    exact .inr ⟨earlier, List.mem_of_find?_eq_some found, List.find?_some found, rfl⟩

/-- An edit that is recorded stands behind the others, and none of them is in its way. -/
theorem overwrite_ok {editor next : Editor} {start stop : Nat} {text : Text}
    (overwritten : editor.overwrite start stop text = .ok next) :
    next = { editor with recorded := editor.recorded ++ [⟨start, stop, text⟩] } ∧
      ∀ earlier ∈ editor.recorded, (⟨start, stop, text⟩ : Edit).overlaps earlier = false := by
  unfold overwrite record at overwritten
  split at overwritten
  · rw [Int.toNat_natCast, Int.toNat_natCast] at overwritten
    split at overwritten
    · cases overwritten
    · rename_i free
      exact ⟨(Except.ok.inj overwritten).symm, by simpa using List.find?_eq_none.mp free⟩
  · cases overwritten

/-- Nothing that ends in front of a replacement is in its way. -/
theorem overwrite_of_apart (editor : Editor) {start stop : Nat} (text : Text) (ordered : start < stop)
    (inside : stop ≤ editor.source.length)
    (apart : ∀ earlier ∈ editor.recorded, earlier.stop ≤ start) :
    editor.overwrite start stop text =
      .ok { editor with recorded := editor.recorded ++ [⟨start, stop, text⟩] } := by
  rcases editor.overwrite_cases text (Nat.le_of_lt ordered) inside with done | ⟨earlier, member, overlap, -⟩
  · exact done
  · have before := apart earlier member
    have within := (Edit.overlaps_iff_lt.mp overlap).1
    dsimp only at within
    omega

theorem edits_sorted (editor : Editor) : editor.edits.Pairwise fun a b => Edit.le a b = true :=
  List.pairwise_mergeSort Edit.le_trans Edit.le_total _

theorem edits_of_ascending {editor : Editor}
    (ascending : editor.recorded.Pairwise fun a b => a.start < b.start) :
    editor.edits = editor.recorded := by
  refine List.mergeSort_of_pairwise (ascending.imp fun before => ?_)
  simp [Edit.le, before]

end Editor

end StaticStyle
