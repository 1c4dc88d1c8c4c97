import StaticStyle.Proofs.Markup.Ending
import StaticStyle.Proofs.Sorting

namespace StaticStyle.Markup

/-- The braces around the code of a value are matched. -/
structure Attribute.IsMatched (source : Text) (attr : Attribute) : Prop where
  closes : Bracket.curly.contentLength? (source.drop attr.valueStart) = some (attr.valueStop - attr.valueStart)
  stop : attr.stop = attr.valueStop + 1

section Reading

variable {source text : Text} {start : Nat}

private theorem readValue?_matched {stop valueStart valueStop : Nat} (here : source.drop start = text)
    (read : readValue? start text = some (.expression, stop, valueStart, valueStop)) :
    Bracket.curly.contentLength? (source.drop valueStart) = some (valueStop - valueStart) ∧ stop = valueStop + 1 := by
  cases text with
  | nil => simp [readValue?] at read
  | cons c rest =>
    simp only [readValue?] at read
    split at read
    · simp at read
    · split at read
      · obtain ⟨length, found, same⟩ := Option.map_eq_some_iff.mp read
        simp only [Prod.mk.injEq] at same
        obtain ⟨-, rfl, rfl, rfl⟩ := same
        rw [drop_of_drop here, List.drop_succ_cons, List.drop_zero, Nat.add_sub_cancel_left]
        exact ⟨found, by omega⟩
      · cases read

private theorem readAttribute?_matched {length : Nat} {attr : Attribute} (here : source.drop start = text)
    (read : readAttribute? start text = some (attr, length))
    (isCode : attr.kind = .expression ∨ attr.kind = .spread) : attr.IsMatched source := by
  unfold readAttribute? at read
  split at read
  · rename_i rest
    obtain ⟨inner, found, same⟩ := Option.map_eq_some_iff.mp read
    simp only [Prod.mk.injEq] at same
    obtain ⟨rfl, rfl⟩ := same
    refine ⟨?_, by dsimp only; omega⟩
    dsimp only
    rw [drop_of_drop here, List.drop_succ_cons, List.drop_zero, found, Option.some.injEq]
    omega
  · dsimp only at read
    split at read
    · cases read
    · split at read
      · rename_i rest equals
        obtain ⟨⟨kind, stop, valueStart, valueStop⟩, found, same⟩ := Option.map_eq_some_iff.mp read
        simp only [Prod.mk.injEq] at same
        obtain ⟨rfl, rfl⟩ := same
        have value : source.drop (start + ((leadingName isAttributeNamePart text).length +
            Text.blankLength (text.drop (leadingName isAttributeNamePart text).length) + 1 + Text.blankLength rest)) =
            Text.dropBlank rest := by
          rw [← List.drop_drop, here, ← List.drop_drop, ← List.drop_drop, ← List.drop_drop, equals,
            List.drop_succ_cons, List.drop_zero, Tree.drop_blankLength]
        rcases isCode with rfl | rfl
        · obtain ⟨closes, ends⟩ := readValue?_matched value found
          exact ⟨closes, ends⟩
        · exact absurd rfl (readValue?_formed value found).2.2.1
      · simp only [Option.some.injEq, Prod.mk.injEq] at read
        obtain ⟨rfl, rfl⟩ := read
        simp at isCode

private theorem readTail?_matched {tail : TagTail} (here : source.drop start = text)
    (read : readTail? start text = some tail) :
    ∀ attr ∈ tail.attributes, attr.kind = .expression ∨ attr.kind = .spread → attr.IsMatched source := by
  fun_induction readTail? start text generalizing tail with
  | case1 => cases read
  | case2 offset c rest blank ih => exact ih (drop_of_drop here 1) read
  | case3 offset rest =>
    cases read
    exact List.forall_mem_nil _
  | case4 offset rest =>
    cases read
    exact List.forall_mem_nil _
  | case5 => cases read
  | case6 offset c rest _ _ attr length found _ ih =>
    obtain ⟨others, reads, rfl⟩ := Option.map_eq_some_iff.mp read
    obtain ⟨-, -, positive, -⟩ := readAttribute?_within found
    have onward : source.drop (offset + length) = rest.drop (length - 1) := by
      obtain ⟨length, rfl⟩ := Nat.exists_eq_succ_of_ne_zero (Nat.ne_of_gt positive)
      exact drop_of_drop here (length + 1)
    exact List.forall_mem_cons.mpr ⟨readAttribute?_matched here found, ih onward reads⟩

theorem readElement?_matched {element : Element} {isSelfClosing : Bool} (here : source.drop (start + 1) = text)
    (read : readElement? start text = some (element, isSelfClosing)) :
    ∀ attr ∈ element.attributes, attr.kind = .expression ∨ attr.kind = .spread → attr.IsMatched source := by
  unfold readElement? at read
  dsimp only at read
  split at read
  · cases read
  · obtain ⟨tail, found, shape⟩ := Option.map_eq_some_iff.mp read
    simp only [Prod.mk.injEq] at shape
    obtain ⟨rfl, -⟩ := shape
    exact readTail?_matched (drop_of_drop here _) found

end Reading

/-- The walk of a value with a `<` in it goes on behind the brace that ends the value. -/
structure Attribute.Overruns (source : Text) (attr : Attribute) : Prop where
  isCode : attr.kind = .expression ∨ attr.kind = .spread
  markup : .char '<' ∈ attr.valueText source
  beyond : attr.stop < (Walker.ofValue attr.valueStart).ending source

instance (source : Text) (attr : Attribute) : Decidable (attr.Overruns source) :=
  decidable_of_iff ((attr.kind = .expression ∨ attr.kind = .spread) ∧ .char '<' ∈ attr.valueText source ∧
      attr.stop < (Walker.ofValue attr.valueStart).ending source)
    ⟨fun ⟨isCode, markup, beyond⟩ => ⟨isCode, markup, beyond⟩, fun ⟨isCode, markup, beyond⟩ => ⟨isCode, markup, beyond⟩⟩

/-- The walk of a value ends with it, unless it overruns. -/
theorem Attribute.IsMatched.ending_le {source : Text} {attr : Attribute} (matched : attr.IsMatched source)
    (order : attr.valueStart ≤ attr.valueStop) (isCode : attr.kind = .expression ∨ attr.kind = .spread)
    (keeps : ¬attr.Overruns source) : (Walker.ofValue attr.valueStart).ending source ≤ attr.stop := by
  by_cases markup : .char '<' ∈ attr.valueText source
  · by_contra beyond
    exact keeps ⟨isCode, markup, Nat.lt_of_not_le beyond⟩
  · rw [Attribute.valueText, Text.slice, List.drop_take] at markup
    have ends := Walker.ending_of_distance (Walker.ofValue attr.valueStart) [] .curly rfl matched.closes markup
    rw [ends, matched.stop, Walker.ofValue]
    dsimp only
    omega

/-- Elements that begin one behind the other, between two offsets. -/
structure Ascending (low high : Nat) (elements : List Element) : Prop where
  starts : elements.Pairwise fun a b => a.start < b.start
  inside : ∀ element ∈ elements, low ≤ element.start ∧ element.start < high

namespace Ascending

variable {low low' middle middle' high high' : Nat} {element : Element} {elements elements' : List Element}

theorem nil (low high : Nat) : Ascending low high [] := ⟨.nil, List.forall_mem_nil _⟩

theorem widen (ascending : Ascending low high elements) (below : low' ≤ low) (above : high ≤ high') :
    Ascending low' high' elements := by
  refine ⟨ascending.starts, ?_⟩
  intro element member
  obtain ⟨begins, ends⟩ := ascending.inside element member
  exact ⟨below.trans begins, ends.trans_le above⟩

theorem append (ascending : Ascending low middle elements) (further : Ascending middle' high elements')
    (between : middle ≤ middle') (below : low ≤ middle') (above : middle ≤ high) :
    Ascending low high (elements ++ elements') := by
  constructor
  · refine List.pairwise_append.mpr ⟨ascending.starts, further.starts, ?_⟩
    intro a member b member'
    exact (ascending.inside a member).2.trans_le (between.trans (further.inside b member').1)
  · exact List.forall_mem_append.mpr
      ⟨(ascending.widen (Nat.le_refl _) above).inside, (further.widen below (Nat.le_refl _)).inside⟩

theorem cons (ascending : Ascending low high elements) (before : element.start < low) (above : low ≤ high) :
    Ascending element.start high (element :: elements) := by
  constructor
  · refine List.pairwise_cons.mpr ⟨?_, ascending.starts⟩
    intro other member
    exact before.trans_le (ascending.inside other member).1
  · refine List.forall_mem_cons.mpr ⟨⟨Nat.le_refl _, before.trans_le above⟩, ?_⟩
    exact (ascending.widen (Nat.le_of_lt before) (Nat.le_refl _)).inside

end Ascending

namespace Walker

variable {source : Text}

/-- How a walk goes on: from no further point or from one, without an element, or from the values of an element and
from behind it. -/
theorem continuations_cases (source : Text) (walker : Walker) :
    ((walker.found source).elements = [] ∧
      (walker.continuations source = [] ∨ ∃ onward, walker.continuations source = [onward])) ∨
    ∃ element onward isSelfClosing, (walker.found source).elements = [element] ∧
      walker.continuations source = element.codeStarts.map ofValue ++ [onward] ∧
      readElement? walker.offset (source.drop (walker.offset + 1)) = some (element, isSelfClosing) ∧
      element.IsFormed source ∧ onward.offset = element.stop := by
  cases here : source.drop walker.offset with
  | nil =>
    left
    unfold found continuations
    rw [here]
    exact ⟨finish_elements walker, .inl rfl⟩
  | cons c rest =>
    cases stepped : walker.step c rest with
    | none =>
      left
      unfold found continuations
      rw [here]
      dsimp only
      rw [stepped]
      exact ⟨rfl, .inl rfl⟩
    | some move =>
      have goes := continuations_of_step here stepped
      have finds := found_of_step here stepped
      cases read : move.element with
      | none =>
        left
        rw [read] at goes finds
        rw [finds]
        exact ⟨rfl, .inr ⟨_, goes⟩⟩
      | some element =>
        right
        rw [read] at goes finds
        obtain ⟨length, isSelfClosing, reads⟩ := step_element stepped read
        obtain ⟨begins, formed⟩ := (step_sound here stepped).element element read
        have order := formed.order
        rw [Option.toList_some, List.flatMap_singleton] at goes
        refine ⟨element, _, isSelfClosing, by rw [finds]; rfl, goes, ?_, formed, ?_⟩
        · rw [drop_of_drop here 1]
          exact reads
        · rw [offset_behind]
          omega

/-- Every element that a walk finds is read from the source at its start. -/
theorem walkFrom_reads (walker : Walker) : ∀ element ∈ (walker.walkFrom source).elements,
    ∃ isSelfClosing, readElement? element.start (source.drop (element.start + 1)) = some (element, isSelfClosing) := by
  have further : ∀ next ∈ walker.continuations source, ∀ element ∈ (next.walkFrom source).elements,
      ∃ isSelfClosing, readElement? element.start (source.drop (element.start + 1)) = some (element, isSelfClosing) := by
    intro next member
    have onward := offset_lt_of_mem_continuations member
    exact walkFrom_reads next
  intro element member
  rw [walkFrom_eq] at member
  rcases List.mem_append.mp member with here | later
  · rcases continuations_cases source walker with ⟨nothing, -⟩ | ⟨found, -, isSelfClosing, finds, -, read, -, -⟩
    · rw [nothing] at here
      cases here
    · rw [finds] at here
      obtain rfl := List.mem_singleton.mp here
      exact ⟨isSelfClosing, (readElement?_within read).1 ▸ read⟩
  · obtain ⟨next, onward, member⟩ := List.mem_flatMap.mp later
    exact further next onward element member
termination_by source.length - walker.offset
decreasing_by omega

private theorem codeStarts_cons (tag : Text) (start stop : Nat) (attr : Attribute) (attributes : List Attribute) :
    (⟨tag, start, stop, attr :: attributes⟩ : Element).codeStarts =
      (if attr.kind = .expression ∨ attr.kind = .spread then [attr.valueStart] else []) ++
        (⟨tag, start, stop, attributes⟩ : Element).codeStarts := by
  unfold Element.codeStarts
  rw [List.filterMap_cons]
  cases attr.kind <;> rfl

/-- The elements in the values of a tag are in order if those of each value are, and all of them in the value. -/
private theorem ascending_values (walks : Nat → List Element) (tag : Text) (start stop : Nat)
    {attributes : List Attribute} {low high : Nat}
    (bounds : ∀ attr ∈ attributes, low ≤ attr.start ∧ attr.start ≤ attr.valueStart ∧ attr.valueStart ≤ attr.stop ∧
      attr.stop ≤ high)
    (apart : attributes.Pairwise fun a b => a.stop ≤ b.start)
    (values : ∀ attr ∈ attributes, attr.kind = .expression ∨ attr.kind = .spread →
      Ascending attr.valueStart attr.stop (walks attr.valueStart)) :
    Ascending low high ((⟨tag, start, stop, attributes⟩ : Element).codeStarts.flatMap walks) := by
  induction attributes generalizing low with
  | nil => exact .nil low high
  | cons attr attributes ih =>
    obtain ⟨first, others⟩ := List.forall_mem_cons.mp bounds
    obtain ⟨apartFirst, apartOthers⟩ := List.pairwise_cons.mp apart
    obtain ⟨value, values⟩ := List.forall_mem_cons.mp values
    obtain ⟨below, begins, ends, above⟩ := first
    have further : Ascending attr.stop high ((⟨tag, start, stop, attributes⟩ : Element).codeStarts.flatMap walks) := by
      refine ih ?_ apartOthers values
      intro other member
      exact ⟨apartFirst other member, (others other member).2⟩
    rw [codeStarts_cons, List.flatMap_append]
    split
    · rename_i isCode
      rw [List.flatMap_singleton]
      have inside := (value isCode).widen (below.trans begins) (Nat.le_refl _)
      exact inside.append further (Nat.le_refl _) (by omega) above
    · exact further.widen (by omega) (Nat.le_refl _)

/-- A walk finds the elements in the order of their starts if no value that it comes to overruns. -/
theorem walkFrom_ascending (walker : Walker)
    (keeps : ∀ element ∈ (walker.walkFrom source).elements, ∀ attr ∈ element.attributes, ¬attr.Overruns source) :
    Ascending walker.offset (walker.ending source) (walker.walkFrom source).elements := by
  rw [walkFrom_eq] at keeps ⊢
  dsimp only at keeps ⊢
  have further : ∀ next ∈ walker.continuations source,
      Ascending next.offset (next.ending source) (next.walkFrom source).elements := by
    intro next member
    have onward := offset_lt_of_mem_continuations member
    apply walkFrom_ascending next
    intro element found
    exact keeps element (List.mem_append_right _ (List.mem_flatMap.mpr ⟨next, member, found⟩))
  rcases continuations_cases source walker with ⟨nothing, stops | ⟨onward, goes⟩⟩ |
    ⟨element, onward, isSelfClosing, finds, goes, read, formed, begins⟩
  · rw [nothing, stops]
    exact .nil _ _
  · have ends : walker.ending source = onward.ending source := ending_of_onward (goes.trans (List.nil_append _).symm)
    rw [nothing, goes, List.nil_append, List.flatMap_singleton, ends]
    have member : onward ∈ walker.continuations source := by
      rw [goes]
      exact List.mem_singleton_self onward
    exact (further onward member).widen (Nat.le_of_lt (offset_lt_of_mem_continuations member).1) (Nat.le_refl _)
  · rw [finds] at keeps ⊢
    have kept := keeps element (List.mem_append_left _ (List.mem_singleton_self element))
    have starts := (readElement?_within read).1
    have behind : Ascending element.stop (walker.ending source) (onward.walkFrom source).elements := by
      rw [ending_of_onward goes, ← begins]
      exact further onward (by simp [goes])
    have values : Ascending (element.start + 1) element.stop
        (element.codeStarts.flatMap fun start => ((ofValue start).walkFrom source).elements) := by
      refine ascending_values _ element.tag element.start element.stop ?_ formed.ascending ?_
      · intro attr member
        obtain ⟨low, high, attrFormed⟩ := formed.attributes attr member
        have := attrFormed.value.trans attrFormed.stop
        exact ⟨low, attrFormed.start, this, Nat.le_of_lt high⟩
      · intro attr member isCode
        obtain ⟨low, high, attrFormed⟩ := formed.attributes attr member
        have matched := readElement?_matched rfl read attr member isCode
        have ends := matched.ending_le attrFormed.value isCode (kept attr member)
        have isValue : ofValue attr.valueStart ∈ walker.continuations source := by
          rw [goes]
          refine List.mem_append_left _ (List.mem_map.mpr ⟨_, List.mem_filterMap.mpr ⟨attr, member, ?_⟩, rfl⟩)
          rcases isCode with kind | kind <;> rw [kind]
        exact (further _ isValue).widen (Nat.le_refl _) ends
    have reaches : element.stop ≤ walker.ending source := by
      rw [ending_of_onward goes, ← begins]
      exact offset_le_ending source onward
    rw [goes, List.flatMap_append, List.flatMap_map, List.flatMap_singleton, ← starts, List.singleton_append]
    have all := values.append behind (Nat.le_refl _) formed.order reaches
    exact all.cons (Nat.lt_succ_self _) (formed.order.trans_le reaches)
termination_by source.length - walker.offset
decreasing_by omega

end Walker

/-- The elements of a source are in the order of their starts, and no two of them begin at one place. One element may
be told more than once, but only where the walk of a value with a `<` in it goes on behind the value. If there is no
such value, the starts ascend strictly. -/
theorem elements_ascending (source : Text) :
    (elements source).Pairwise (fun a b => a.start ≤ b.start) ∧
    (∀ a ∈ elements source, ∀ b ∈ elements source, a.start = b.start → a = b) ∧
    ((∀ element ∈ elements source, ∀ attr ∈ element.attributes, ¬attr.Overruns source) →
      (elements source).Pairwise fun a b => a.start < b.start) := by
  have found {element : Element} (member : element ∈ elements source) :
      element ∈ (Walker.walkFrom source ⟨[.code none], 0, none, 0⟩).elements :=
    (List.mergeSort_perm _ _).mem_iff.mp member
  refine ⟨?_, ?_, ?_⟩
  · exact mergeSort_ascending Element.start (survey source).elements
  · intro a member b member' same
    obtain ⟨isSelfClosing, read⟩ := Walker.walkFrom_reads _ a (found member)
    obtain ⟨isSelfClosing', read'⟩ := Walker.walkFrom_reads _ b (found member')
    rw [same, read', Option.some.injEq, Prod.mk.injEq] at read
    exact read.1.symm
  · intro keeps
    have ascending := Walker.walkFrom_ascending ⟨[.code none], 0, none, 0⟩ fun element member =>
      keeps element ((List.mergeSort_perm _ _).mem_iff.mpr member)
    have sorted : elements source = (survey source).elements := by
      apply List.mergeSort_of_pairwise
      exact ascending.starts.imp fun before => by simpa using Nat.le_of_lt before
    rw [sorted]
    exact ascending.starts

/-- A value with an element in it whose value is an object. -/
theorem elements_ascending_nested_value :
    let source : Text := "<Card icon=\x7b<Icon zx=\x7b\x7b m: 0 \x7d\x7d />\x7d />"
    (∀ element ∈ elements source, ∀ attr ∈ element.attributes, ¬attr.Overruns source) ∧
      (elements source).Pairwise fun a b => a.start < b.start := by
  intro source
  have walked : ∀ element ∈ (survey source).elements, ∀ attr ∈ element.attributes, ¬attr.Overruns source := by
    decide +kernel
  have keeps : ∀ element ∈ elements source, ∀ attr ∈ element.attributes, ¬attr.Overruns source :=
    fun element member => walked element ((List.mergeSort_perm _ _).mem_iff.mp member)
  exact ⟨keeps, (elements_ascending source).2.2 keeps⟩

example : (survey "<A r=\x7b<p>\x7d /><q />").elements.map Element.start = [0, 6, 13, 13] := by decide +kernel

end StaticStyle.Markup
