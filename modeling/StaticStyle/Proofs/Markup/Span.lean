import StaticStyle.Markup.Call
import StaticStyle.Proofs.Text.Leading

/-!
Whatever the scanner finds lies inside the source: an element inside the text it was found in, its
attributes inside the element, and the value of an attribute inside the attribute. The span of a call
lies inside the source with its argument inside of it.
-/

namespace StaticStyle

/-- The bracket that closes another one stands in the text behind it. -/
theorem closingDistance?_lt {stack : List Enclosure} {text : Text} {distance : Nat}
    (found : closingDistance? stack text = some distance) : distance < text.length := by
  fun_induction closingDistance? stack text generalizing distance
  all_goals simp only [reduceCtorEq, Option.map_eq_some_iff, Option.some.injEq] at found
  all_goals
    first
      | obtain ⟨further, read, rfl⟩ := found
        rename_i ih
        have inside := ih read
        simp only [List.length_cons] at inside ⊢
        omega
      | subst found
        simp

theorem Bracket.contentLength?_lt {bracket : Bracket} {rest : Text} {length : Nat}
    (found : bracket.contentLength? rest = some length) : length < rest.length :=
  closingDistance?_lt found

namespace Markup

/-- The bounds of an attribute between two offsets are in order. -/
structure Attribute.Within (low high : Nat) (attr : Attribute) : Prop where
  start : low ≤ attr.start
  valueStart : attr.start ≤ attr.valueStart
  value : attr.valueStart ≤ attr.valueStop
  valueStop : attr.valueStop ≤ attr.stop
  stop : attr.stop ≤ high

theorem Attribute.Within.widen {low low' high high' : Nat} {attr : Attribute}
    (within : attr.Within low high) (below : low' ≤ low) (above : high ≤ high') :
    attr.Within low' high' :=
  { within with
    start := Nat.le_trans below within.start
    stop := Nat.le_trans within.stop above }

theorem indexOf?_lt {c : CodePoint} {text : Text} {index : Nat}
    (found : Text.indexOf? c text = some index) : index < text.length :=
  (List.findIdx?_eq_some_iff_getElem.mp found).1

theorem readValue?_within {start stop valueStart valueStop : Nat} {text : Text} {kind : AttributeKind}
    (read : readValue? start text = some (kind, stop, valueStart, valueStop)) :
    start ≤ valueStart ∧ valueStart ≤ valueStop ∧ valueStop ≤ stop ∧ stop ≤ start + text.length := by
  cases text with
  | nil => simp [readValue?] at read
  | cons c rest =>
    simp only [readValue?] at read
    split at read
    · obtain ⟨length, found, same⟩ := Option.map_eq_some_iff.mp read
      have inside := indexOf?_lt found
      simp only [Prod.mk.injEq] at same
      simp only [List.length_cons]
      omega
    · split at read
      · obtain ⟨length, found, same⟩ := Option.map_eq_some_iff.mp read
        have inside := Bracket.contentLength?_lt found
        simp only [Prod.mk.injEq] at same
        simp only [List.length_cons]
        omega
      · simp at read

theorem leadingName_length (isPart : CodePoint → Bool) (text : Text) :
    (leadingName isPart text).length ≤ text.length := by
  cases text with
  | nil => simp [leadingName]
  | cons c rest =>
    have part := (List.takeWhile_sublist isPart (l := rest)).length_le
    rw [leadingName]
    split
    · exact Nat.succ_le_succ part
    · exact Nat.zero_le _

theorem readAttribute?_within {start length : Nat} {text : Text} {attr : Attribute}
    (read : readAttribute? start text = some (attr, length)) :
    attr.Within start (start + length) ∧ attr.start = start ∧ 0 < length ∧ length ≤ text.length := by
  unfold readAttribute? at read
  split at read
  · rename_i rest
    obtain ⟨inner, found, same⟩ := Option.map_eq_some_iff.mp read
    have inside := Bracket.contentLength?_lt found
    simp only [Prod.mk.injEq] at same
    obtain ⟨rfl, rfl⟩ := same
    have whole : (CodePoint.char '{' :: rest).length = rest.length + 1 := rfl
    refine ⟨⟨?_, ?_, ?_, ?_, ?_⟩, rfl, ?_, ?_⟩ <;> (try dsimp only) <;> omega
  · have named := leadingName_length isAttributeNamePart text
    dsimp only at read
    generalize leadingName isAttributeNamePart text = name at named read
    have blank : Text.blankLength (text.drop name.length) ≤ text.length - name.length := by
      have := (List.takeWhile_sublist CodePoint.isBlank (l := text.drop name.length)).length_le
      simpa [Text.blankLength] using this
    split at read
    · simp at read
    · rename_i nonempty
      have someName : 0 < name.length := by
        cases name with
        | nil => simp at nonempty
        | cons => simp
      split at read
      · rename_i rest behind
        obtain ⟨⟨kind, stop, valueStart, valueStop⟩, value, same⟩ := Option.map_eq_some_iff.mp read
        have whole : name.length + Text.blankLength (text.drop name.length) + 1 + rest.length =
            text.length := by
          have := congrArg List.length behind
          simp only [List.length_drop, List.length_cons] at this
          omega
        have pieces : Text.blankLength rest + (Text.dropBlank rest).length = rest.length := by
          rw [Text.blankLength, Text.dropBlank, ← List.length_append,
            List.takeWhile_append_dropWhile]
        have bounds := readValue?_within value
        simp only [Prod.mk.injEq] at same
        obtain ⟨rfl, rfl⟩ := same
        refine ⟨⟨?_, ?_, ?_, ?_, ?_⟩, rfl, ?_, ?_⟩ <;> (try dsimp only) <;> omega
      · simp only [Option.some.injEq, Prod.mk.injEq] at read
        obtain ⟨rfl, rfl⟩ := read
        refine ⟨⟨?_, ?_, ?_, ?_, ?_⟩, rfl, ?_, ?_⟩ <;> (try dsimp only) <;> omega

theorem readTail?_within {offset : Nat} {text : Text} {tail : TagTail}
    (read : readTail? offset text = some tail) :
    offset < tail.stop ∧ tail.stop ≤ offset + text.length ∧
      ∀ attr ∈ tail.attributes, attr.Within offset tail.stop := by
  fun_induction readTail? offset text generalizing tail with
  | case1 => simp at read
  | case2 offset c rest blank ih =>
    obtain ⟨after, before, inside⟩ := ih read
    simp only [List.length_cons]
    exact ⟨by omega, by omega, fun attr member => (inside attr member).widen (by omega) (by omega)⟩
  | case3 offset rest =>
    cases read
    simp
  | case4 offset rest =>
    cases read
    simp
  | case5 => simp at read
  | case6 offset c rest _ _ attr length found _ ih =>
    obtain ⟨further, reads, rfl⟩ := Option.map_eq_some_iff.mp read
    obtain ⟨after, before, inside⟩ := ih reads
    obtain ⟨within, starts, positive, bound⟩ := readAttribute?_within found
    simp only [List.length_cons, List.length_drop] at before bound ⊢
    refine ⟨by omega, by omega, ?_⟩
    intro other member
    rcases List.mem_cons.mp member with rfl | member
    · exact within.widen (Nat.le_refl _) (by omega)
    · exact (inside other member).widen (by omega) (Nat.le_refl _)

/-- An element between two offsets, with its attributes inside of it. -/
structure Element.Within (low high : Nat) (element : Element) : Prop where
  start : low ≤ element.start
  order : element.start < element.stop
  stop : element.stop ≤ high
  attributes : ∀ attr ∈ element.attributes, attr.Within element.start element.stop

theorem Element.Within.widen {low low' high high' : Nat} {element : Element}
    (within : element.Within low high) (below : low' ≤ low) (above : high ≤ high') :
    element.Within low' high' :=
  { within with
    start := Nat.le_trans below within.start
    stop := Nat.le_trans within.stop above }

theorem readElement?_within {start : Nat} {rest : Text} {element : Element} {isSelfClosing : Bool}
    (read : readElement? start rest = some (element, isSelfClosing)) :
    element.start = start ∧ element.Within start (start + 1 + rest.length) := by
  have named := leadingName_length isTagNamePart rest
  unfold readElement? at read
  dsimp only at read
  split at read
  · simp at read
  · obtain ⟨tail, found, same⟩ := Option.map_eq_some_iff.mp read
    obtain ⟨after, before, inside⟩ := readTail?_within found
    simp only [List.length_drop] at before
    simp only [Prod.mk.injEq] at same
    obtain ⟨rfl, -⟩ := same
    refine ⟨rfl, Nat.le_refl _, by dsimp only; omega, by dsimp only; omega, ?_⟩
    exact fun attr member => (inside attr member).widen (by dsimp only; omega) (Nat.le_refl _)

namespace Walker

/-- A step finds an element only by reading one that begins at its offset, and it passes over its tag. -/
theorem tag_element {walker : Walker} {rest : Text} {element : Element}
    (found : (walker.tag rest).element = some element) :
    (walker.tag rest).length = element.stop - walker.offset ∧
      ∃ isSelfClosing, readElement? walker.offset rest = some (element, isSelfClosing) := by
  unfold tag at found ⊢
  split at found
  · simp [enter] at found
  · dsimp only at found ⊢
    split at found
    · simp [pass] at found
    · rename_i behind noOperand
      rw [if_neg noOperand]
      split at found
      · simp [pass] at found
      · rename_i other isSelfClosing read
        cases found
        exact ⟨rfl, isSelfClosing, read⟩

theorem childTag_element {walker : Walker} {outer : List Region} {rest : Text} {element : Element}
    (found : (walker.childTag outer rest).element = some element) :
    (walker.childTag outer rest).length = element.stop - walker.offset ∧
      ∃ isSelfClosing, readElement? walker.offset rest = some (element, isSelfClosing) := by
  unfold childTag at found ⊢
  split at found
  · split at found <;> simp at found
  · exact tag_element found

theorem step_element {walker : Walker} {c : CodePoint} {rest : Text} {move : Move}
    {element : Element} (stepped : walker.step c rest = some move)
    (found : move.element = some element) :
    move.length = element.stop - walker.offset ∧
      ∃ isSelfClosing, readElement? walker.offset rest = some (element, isSelfClosing) := by
  unfold step at stepped
  split at stepped
  · simp at stepped
  · rw [Option.some.injEq] at stepped
    unfold codeStep at stepped
    repeat' split at stepped
    all_goals subst stepped; first | exact tag_element found | simp [enterHere, enter, pass] at found
  · repeat' split at stepped
    all_goals cases stepped; simp [passEscape, leave, pass] at found
  · repeat' split at stepped
    all_goals cases stepped; simp [passEscape, leave, pass, closeText, enter] at found
  · repeat' split at stepped
    all_goals cases stepped; simp [leave, pass] at found
  · repeat' split at stepped
    all_goals cases stepped; simp [leave, pass] at found
  · repeat' split at stepped
    all_goals cases stepped
    · simp [closeText, enter] at found
    · exact childTag_element (by simpa [closeText] using found)
    · simp [pass] at found

theorem finish_elements (walker : Walker) : walker.finish.elements = [] := by
  unfold finish
  split <;> rfl

/-- Every element that a walk finds lies in the text that is left, behind the offset of the walk. -/
theorem walk_within (walker : Walker) (text : Text) :
    ∀ element ∈ (walk walker text).elements,
      element.Within walker.offset (walker.offset + text.length) := by
  intro element member
  match text with
  | [] =>
    rw [walk, finish_elements] at member
    simp at member
  | c :: rest =>
    rw [walk] at member
    cases stepped : walker.step c rest with
    | none => simp [stepped] at member
    | some move =>
      simp only [stepped, List.mem_append, List.flatMap_map, List.mem_flatMap] at member
      have here : ∀ found, move.element = some found →
          found.start = walker.offset ∧
            found.Within walker.offset (walker.offset + (c :: rest).length) := by
        intro found same
        obtain ⟨-, isSelfClosing, read⟩ := step_element stepped same
        obtain ⟨starts, within⟩ := readElement?_within read
        exact ⟨starts, within.widen (Nat.le_refl _) (by simp only [List.length_cons]; omega)⟩
      rcases member with (member | ⟨start, ⟨found, same, start_mem⟩, member⟩) | member
      · exact (here element (Option.mem_toList.mp member)).2
      · obtain ⟨starts, within⟩ := here found (Option.mem_toList.mp same)
        obtain ⟨attr, belongs, isCode⟩ := List.mem_filterMap.mp start_mem
        have bounds := within.attributes attr belongs
        have begins : attr.valueStart = start := by
          split at isCode <;> simp_all
        have inside : walker.offset ≤ start ∧ start ≤ walker.offset + (c :: rest).length := by
          have := bounds.start
          have := bounds.valueStart
          have := bounds.value
          have := bounds.valueStop
          have := bounds.stop
          have := within.stop
          omega
        refine (walk_within _ _ element member).widen inside.1 ?_
        simp only [List.length_drop, List.length_cons] at inside ⊢
        omega
      · by_cases left : move.length - 1 < rest.length
        · refine (walk_within _ _ element member).widen (Nat.le_add_right _ _) ?_
          simp only [List.length_drop, List.length_cons]
          omega
        · rw [List.drop_eq_nil_of_le (by omega), walk, finish_elements] at member
          simp at member
termination_by text.length
decreasing_by all_goals simp only [List.length_drop, List.length_cons]; omega

end Walker

theorem elements_within {source : Text} {element : Element} (member : element ∈ elements source) :
    element.Within 0 source.length := by
  have walked := Walker.walk_within ⟨[.code none], 0, none, 0⟩ source element
    ((List.mergeSort_perm _ _).mem_iff.mp member)
  exact walked.widen (Nat.le_refl _) (by simp)

namespace Call

theorem openingDistance?_lt {callee text : Text} {distance : Nat}
    (found : openingDistance? callee text = some distance) : distance < text.length := by
  obtain ⟨rest, dropped, found⟩ := Option.bind_eq_some_iff.mp found
  dsimp only at found
  split at found
  · rename_i opens
    have inside : Text.blankLength rest < rest.length := by
      refine Nat.lt_of_not_le fun outside => ?_
      rw [List.drop_eq_nil_of_le outside] at opens
      simp at opens
    rw [Option.some.injEq] at found
    rw [Text.dropLeading?_eq dropped, List.length_append]
    omega
  · simp at found

/-- A candidate starts in the text, with its parenthesis behind the start. -/
theorem candidates_within {callee : Text} {before : Option CodePoint} {offset : Nat} {text : Text}
    {start opening : Nat} (member : (start, opening) ∈ candidates callee before offset text) :
    start ≤ opening ∧ opening < offset + text.length := by
  fun_induction candidates callee before offset text with
  | case1 => simp at member
  | case2 before offset c rest found distance opens ih =>
    have inside : distance < (c :: rest).length := by
      simp only [found] at opens
      split at opens
      · simp at opens
      · exact openingDistance?_lt opens
    simp only [List.length_cons] at inside ⊢
    rcases List.mem_cons.mp member with same | member
    · rw [Prod.mk.injEq] at same
      omega
    · have := ih member
      simp only [List.length_drop] at this
      omega
  | case3 before offset c rest _ _ ih =>
    have := ih member
    simp only [List.length_cons]
    omega

end Call

/-- The bounds of a call in a source are in order. -/
theorem calls_within {callee source : Text} {call : Call} (member : call ∈ calls callee source) :
    call.start ≤ call.argumentStart ∧ call.argumentStart ≤ call.argumentStop ∧
      call.argumentStop ≤ call.stop ∧ call.stop ≤ source.length := by
  obtain ⟨⟨start, opening⟩, candidate, found⟩ := List.mem_filterMap.mp member
  obtain ⟨ordered, inside⟩ := Call.candidates_within candidate
  dsimp only [Call.ofCandidate?] at found
  split at found
  · simp at found
  · obtain ⟨length, closed, rfl⟩ := Option.map_eq_some_iff.mp found
    have before := Bracket.contentLength?_lt closed
    rw [List.length_drop] at before
    dsimp only
    omega

end Markup

end StaticStyle
