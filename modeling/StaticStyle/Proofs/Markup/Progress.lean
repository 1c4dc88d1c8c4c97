import StaticStyle.Proofs.Markup.Form

namespace StaticStyle.Markup

/-- A range that is not empty and ends in the source. -/
structure Extent.IsInside (source : Text) (extent : Extent) : Prop where
  order : extent.start < extent.stop
  stop : extent.stop ≤ source.length

theorem extent_isInside {source : Text} {start stop : Nat} (inside : stop ≤ source.length) :
    ∀ range ∈ extent start stop, range.IsInside source := by
  unfold extent
  split
  · rename_i order
    exact List.forall_mem_singleton.mpr ⟨order, inside⟩
  · exact List.forall_mem_nil _

/-- A step from a point of a walk takes something of the source and stays inside of it, and so does what it finds. -/
structure Move.IsSound (source : Text) (walker : Walker) (move : Move) : Prop where
  positive : 0 < move.length
  inside : walker.offset + move.length ≤ source.length
  marks : ∀ extent ∈ move.marks, extent.IsInside source
  element : ∀ element, move.element = some element → element.start = walker.offset ∧ element.IsFormed source

theorem Element.IsFormed.quotedExtents {source : Text} {element : Element} (formed : element.IsFormed source) :
    ∀ extent ∈ element.quotedExtents, extent.IsInside source := by
  intro extent member
  obtain ⟨attr, belongs, member⟩ := List.mem_flatMap.mp member
  obtain ⟨-, inside, attrFormed⟩ := formed.attributes attr belongs
  split at member
  · exact extent_isInside (attrFormed.stop.trans ((Nat.le_of_lt inside).trans formed.inside)) extent member
  · cases member

/-- The code of a value begins inside its element. -/
theorem Element.IsFormed.codeStarts {source : Text} {element : Element} (formed : element.IsFormed source) :
    ∀ start ∈ element.codeStarts, element.start < start ∧ start ≤ source.length := by
  intro start member
  obtain ⟨attr, belongs, isCode⟩ := List.mem_filterMap.mp member
  obtain ⟨low, high, attrFormed⟩ := formed.attributes attr belongs
  have begins : attr.valueStart = start := by
    split at isCode <;> simp_all
  have := attrFormed.start
  have := attrFormed.value
  have := attrFormed.stop
  have := formed.inside
  omega

namespace Walker

section Steps

variable {source rest : Text} {walker : Walker} {c : CodePoint} {move : Move}

theorem size_of_drop (here : source.drop walker.offset = c :: rest) :
    walker.offset + (rest.length + 1) = source.length := by
  have size := congrArg List.length here
  simp only [List.length_drop, List.length_cons] at size
  omega

private theorem empty_sound (length : Nat) (here : source.drop walker.offset = c :: rest) (positive : 0 < length)
    (inside : length ≤ rest.length + 1) (regions : List Region) (since : Nat) :
    (⟨regions, since, length, [], none⟩ : Move).IsSound source walker := by
  have size := size_of_drop here
  exact ⟨positive, by dsimp only; omega, List.forall_mem_nil _, by simp⟩

private theorem leave_sound (length : Nat) (here : source.drop walker.offset = c :: rest) (positive : 0 < length)
    (inside : length ≤ rest.length + 1) (outer : List Region) : (walker.leave outer length).IsSound source walker := by
  have size := size_of_drop here
  have bound : walker.offset + length ≤ source.length := by omega
  exact ⟨positive, bound, extent_isInside bound, by simp [leave]⟩

private theorem closeText_sound (sound : move.IsSound source walker) :
    (walker.closeText move).IsSound source walker := by
  refine ⟨sound.positive, sound.inside, List.forall_mem_append.mpr ⟨extent_isInside ?_, sound.marks⟩, sound.element⟩
  exact (Nat.le_add_right _ _).trans sound.inside

private theorem tag_sound (here : source.drop walker.offset = .char '<' :: rest) :
    (walker.tag rest).IsSound source walker := by
  unfold tag
  split
  · exact empty_sound 2 here (by omega) (by simp) _ _
  · dsimp only
    split
    · exact empty_sound 1 here (by omega) (by omega) _ _
    · split
      · exact empty_sound 1 here (by omega) (by omega) _ _
      · rename_i element isSelfClosing read
        have formed := readElement?_formed here read
        obtain ⟨starts, -⟩ := readElement?_within read
        have order := formed.order
        have inside := formed.inside
        refine ⟨?_, ?_, formed.quotedExtents, ?_⟩
        · dsimp only
          omega
        · dsimp only
          omega
        · rintro _ ⟨⟩
          exact ⟨starts, formed⟩

private theorem childTag_sound (here : source.drop walker.offset = .char '<' :: rest) (outer : List Region) :
    (walker.childTag outer rest).IsSound source walker := by
  unfold childTag
  split
  · split
    · rename_i distance found
      have inside := indexOf?_lt found
      exact empty_sound (distance + 2) here (by omega) (by omega) _ _
    · exact empty_sound _ here (Nat.succ_pos _) (Nat.le_refl _) _ _
  · exact tag_sound here

private theorem two_le_of_head? {d : CodePoint} (next : rest.head? = some d) : 2 ≤ rest.length + 1 := by
  cases rest with
  | nil => cases next
  | cons => simp

private theorem codeStep_sound (here : source.drop walker.offset = c :: rest) (closing : Option Bracket)
    (outer : List Region) : (walker.codeStep closing outer c rest).IsSound source walker := by
  have one (regions : List Region) (since : Nat) : (⟨regions, since, 1, [], none⟩ : Move).IsSound source walker :=
    empty_sound 1 here (by omega) (by omega) regions since
  unfold codeStep
  split
  · exact one _ _
  split
  · exact one _ _
  split
  · exact one _ _
  split
  · rename_i slashes
    exact empty_sound 2 here (by omega) (two_le_of_head? slashes.2) _ _
  split
  · rename_i slash
    exact empty_sound 2 here (by omega) (two_le_of_head? slash.2) _ _
  split
  · exact one _ _
  split
  · rename_i less
    exact tag_sound (less ▸ here)
  · exact one _ _

/-- Every step of a walk is sound. -/
theorem step_sound (here : source.drop walker.offset = c :: rest) (stepped : walker.step c rest = some move) :
    move.IsSound source walker := by
  have one (regions : List Region) (since : Nat) : (⟨regions, since, 1, [], none⟩ : Move).IsSound source walker :=
    empty_sound 1 here (by omega) (by omega) regions since
  have escape : (walker.passEscape rest).IsSound source walker := empty_sound _ here (by omega) (by omega) _ _
  have leave (outer : List Region) : (walker.leave outer 1).IsSound source walker :=
    leave_sound 1 here (by omega) (by omega) outer
  unfold step at stepped
  split at stepped
  case h_1 => cases stepped
  case h_2 =>
    cases stepped
    exact codeStep_sound here _ _
  case h_3 =>
    split at stepped
    · exact Option.some.inj stepped ▸ escape
    split at stepped
    · exact Option.some.inj stepped ▸ leave _
    · exact Option.some.inj stepped ▸ one _ _
  case h_4 =>
    split at stepped
    · exact Option.some.inj stepped ▸ escape
    split at stepped
    · exact Option.some.inj stepped ▸ leave _
    split at stepped
    · rename_i dollar
      exact Option.some.inj stepped ▸ closeText_sound (empty_sound 2 here (by omega) (two_le_of_head? dollar.2) _ _)
    · exact Option.some.inj stepped ▸ one _ _
  case h_5 =>
    split at stepped
    · exact Option.some.inj stepped ▸ leave _
    · exact Option.some.inj stepped ▸ one _ _
  case h_6 =>
    split at stepped
    · rename_i star
      exact Option.some.inj stepped ▸ leave_sound 2 here (by omega) (two_le_of_head? star.2) _
    · exact Option.some.inj stepped ▸ one _ _
  case h_7 =>
    split at stepped
    · exact Option.some.inj stepped ▸ closeText_sound (one _ _)
    split at stepped
    · rename_i less
      exact Option.some.inj stepped ▸ closeText_sound (childTag_sound (less ▸ here) _)
    · exact Option.some.inj stepped ▸ one _ _

end Steps

/-- What a walk finds at a point of a source, by its next step or at the end. -/
def found (source : Text) (walker : Walker) : Survey :=
  match source.drop walker.offset with
  | [] => walker.finish
  | c :: rest =>
    match walker.step c rest with
    | none => ⟨[], []⟩
    | some move => ⟨move.element.toList, move.marks⟩

/-- The points from which a walk goes on: the values of an element, and what is behind the step. -/
def continuations (source : Text) (walker : Walker) : List Walker :=
  match source.drop walker.offset with
  | [] => []
  | c :: rest =>
    match walker.step c rest with
    | none => []
    | some move =>
      (move.element.toList.flatMap Element.codeStarts).map (fun start =>
        ⟨[.code (some .curly)], start, some (.char '\x7b'), start⟩) ++
      [⟨move.regions, move.since, ((c :: rest).take move.length).getLast?, walker.offset + move.length⟩]

/-- The walk from a point of a source. -/
def walkFrom (source : Text) (walker : Walker) : Survey := walk walker (source.drop walker.offset)

/-- A walk goes on from points that are further on in the source. -/
theorem offset_lt_of_mem_continuations {source : Text} {walker next : Walker}
    (member : next ∈ walker.continuations source) : walker.offset < next.offset ∧ next.offset ≤ source.length := by
  unfold continuations at member
  split at member
  · cases member
  · rename_i c rest here
    split at member
    · cases member
    · rename_i move stepped
      have sound := step_sound here stepped
      rcases List.mem_append.mp member with value | onward
      · obtain ⟨start, starts, rfl⟩ := List.mem_map.mp value
        obtain ⟨element, read, starts⟩ := List.mem_flatMap.mp starts
        obtain ⟨same, formed⟩ := sound.element element (Option.mem_toList.mp read)
        exact same ▸ formed.codeStarts start starts
      · rw [List.mem_singleton.mp onward]
        exact ⟨Nat.lt_add_of_pos_right sound.positive, sound.inside⟩

/-- A walk finds what it finds at its point and from where it goes on. -/
theorem walkFrom_eq (source : Text) (walker : Walker) : walker.walkFrom source =
    ⟨(walker.found source).elements ++
        (walker.continuations source).flatMap fun next => (next.walkFrom source).elements,
      (walker.found source).opaqueExtents ++
        (walker.continuations source).flatMap fun next => (next.walkFrom source).opaqueExtents⟩ := by
  unfold walkFrom found continuations
  cases here : source.drop walker.offset with
  | nil => simp [walk]
  | cons c rest =>
    rw [walk]
    cases stepped : walker.step c rest with
    | none => simp [stepped]
    | some move =>
      have sound := step_sound here stepped
      have behind (offset : Nat) (further : walker.offset < offset) :
          rest.drop (offset - walker.offset - 1) = source.drop offset := by
        obtain ⟨distance, rfl⟩ := Nat.exists_eq_add_of_lt further
        rw [show walker.offset + distance + 1 - walker.offset - 1 = distance by omega, Nat.add_assoc, ← List.drop_drop,
          here, List.drop_succ_cons]
      have values (start : Nat) (member : start ∈ move.element.toList.flatMap Element.codeStarts) :
          walk ⟨[.code (some .curly)], start, some (.char '\x7b'), start⟩ (rest.drop (start - walker.offset - 1)) =
            walk ⟨[.code (some .curly)], start, some (.char '\x7b'), start⟩ (source.drop start) := by
        obtain ⟨element, read, starts⟩ := List.mem_flatMap.mp member
        obtain ⟨same, formed⟩ := sound.element element (Option.mem_toList.mp read)
        rw [behind start (same ▸ (formed.codeStarts start starts).1)]
      have onward : rest.drop (move.length - 1) = source.drop (walker.offset + move.length) := by
        rw [← behind _ (Nat.lt_add_of_pos_right sound.positive), Nat.add_sub_cancel_left]
      simp only [stepped, List.map_congr_left values, onward, List.flatMap_append, List.flatMap_map,
        List.flatMap_singleton, List.append_assoc]

/-- Everything that a walk finds is well formed. -/
theorem walkFrom_sound {source : Text} (walker : Walker) (inside : walker.offset ≤ source.length) :
    (∀ element ∈ (walker.walkFrom source).elements, element.IsFormed source) ∧
      ∀ extent ∈ (walker.walkFrom source).opaqueExtents, extent.IsInside source := by
  have here : (∀ element ∈ (walker.found source).elements, element.IsFormed source) ∧
      ∀ extent ∈ (walker.found source).opaqueExtents, extent.IsInside source := by
    unfold found
    split
    · rw [finish_elements]
      refine ⟨List.forall_mem_nil _, ?_⟩
      unfold finish
      split
      · exact List.forall_mem_nil _
      · exact List.forall_mem_nil _
      · exact extent_isInside inside
    · rename_i c rest here
      split
      · exact ⟨List.forall_mem_nil _, List.forall_mem_nil _⟩
      · rename_i move stepped
        have sound := step_sound here stepped
        exact ⟨fun element member => (sound.element element (Option.mem_toList.mp member)).2, sound.marks⟩
  have further (next : Walker) (member : next ∈ walker.continuations source) :=
    have onward := offset_lt_of_mem_continuations member
    walkFrom_sound next onward.2
  rw [walkFrom_eq]
  refine ⟨List.forall_mem_append.mpr ⟨here.1, fun element member => ?_⟩,
    List.forall_mem_append.mpr ⟨here.2, fun extent member => ?_⟩⟩
  · obtain ⟨next, onward, member⟩ := List.mem_flatMap.mp member
    exact (further next onward).1 element member
  · obtain ⟨next, onward, member⟩ := List.mem_flatMap.mp member
    exact (further next onward).2 extent member
termination_by source.length - walker.offset
decreasing_by omega

/-- No chain of points of a walk is longer than what is left of the source. -/
theorem length_le_of_isChain {source : Text} {walker : Walker} {walkers : List Walker}
    (chain : (walker :: walkers).IsChain fun walker next => next ∈ walker.continuations source) :
    walkers = [] ∨ walker.offset + walkers.length ≤ source.length := by
  induction walkers generalizing walker with
  | nil => exact .inl rfl
  | cons next walkers ih =>
    right
    obtain ⟨first, others⟩ := List.isChain_cons_cons.mp chain
    obtain ⟨further, inside⟩ := offset_lt_of_mem_continuations first
    rcases ih others with rfl | bound
    · simp only [List.length_singleton]
      omega
    · simp only [List.length_cons]
      omega

end Walker

/-- Scanning ends on every source, and what it finds is well formed. The walk goes on from one point of the source to
others, and no chain of such points is longer than the source. Elements and calls are spelled in the source as their
bounds say, and opaque ranges are inside of it. -/
theorem scan_isFormed (source callee : Text) :
    (∀ walkers : List Walker, (walkers.IsChain fun walker next => next ∈ walker.continuations source) →
      walkers.length ≤ source.length + 1) ∧
    (∀ element ∈ elements source, element.IsFormed source) ∧
    (∀ call ∈ calls callee source, call.IsFormed callee source) ∧
    ∀ extent ∈ (survey source).opaqueExtents, extent.IsInside source := by
  have sound := Walker.walkFrom_sound ⟨[.code none], 0, none, 0⟩ (Nat.zero_le source.length)
  refine ⟨fun walkers chain => ?_, fun element member => ?_, fun call => calls_formed, sound.2⟩
  · cases walkers with
    | nil => exact Nat.zero_le _
    | cons walker walkers =>
      rcases Walker.length_le_of_isChain chain with rfl | bound
      · simp
      · simp only [List.length_cons]
        omega
  · exact sound.1 element ((List.mergeSort_perm _ _).mem_iff.mp member)

end StaticStyle.Markup
