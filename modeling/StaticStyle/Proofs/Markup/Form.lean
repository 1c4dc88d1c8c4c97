import StaticStyle.Proofs.Markup.Calm
import StaticStyle.Proofs.Markup.Reading
import StaticStyle.Proofs.Source.Turn

/-!
What stands at the bounds of what the scanner finds. An element reaches from the `<` in front of its tag to a `>`, with
its attributes one behind the other, and the marks, braces and parentheses around values and arguments stand where their
bounds say.
-/

namespace StaticStyle

private theorem outermost_below {top last : Enclosure} {outer : List Enclosure}
    (outermost : (top :: outer).getLast? = some last) (inner : outer ≠ [] ∨ top ≠ last) :
    outer.getLast? = some last := by
  cases outer with
  | nil =>
    rw [List.getLast?_singleton, Option.some.injEq] at outermost
    simp [outermost] at inner
  | cons => simpa using outermost

/-- The search for the end of a bracket ends where that bracket is closed. -/
theorem closingDistance?_closer {stack : List Enclosure} {bracket : Bracket} {text : Text} {distance : Nat}
    (outermost : stack.getLast? = some (.bracket bracket)) (found : closingDistance? stack text = some distance) :
    text[distance]? = some bracket.closing := by
  fun_induction closingDistance? stack text generalizing distance
  all_goals simp only [reduceCtorEq, Option.map_eq_some_iff, Option.some.injEq] at found
  case case22 inner outer c rest _ _ other closes _ same alone _ _ =>
    subst found
    obtain rfl := List.isEmpty_iff.mp alone
    obtain rfl := Decidable.not_not.mp same
    obtain rfl : other = bracket := by simpa using outermost
    rw [List.getElem?_cons_zero, Bracket.eq_closing closes]
  all_goals
    obtain ⟨further, read, rfl⟩ := found
    rename_i ih
    have outermost := ih (by
      first
        | exact outermost
        | simpa using outermost
        | exact outermost_below outermost (by simp_all)) read
    simpa using outermost

theorem Bracket.getElem?_contentLength {bracket : Bracket} {rest : Text} {length : Nat}
    (found : bracket.contentLength? rest = some length) : rest[length]? = some bracket.closing :=
  closingDistance?_closer rfl found

namespace Markup

open StaticStyle.Markup.Tree (drop_blankLength)

/-- The bounds of an attribute are in order, and what they say stands there. A string is between two marks of one kind,
which it does not have inside, and an expression is between braces. -/
structure Attribute.IsFormed (source : Text) (attr : Attribute) : Prop where
  start : attr.start ≤ attr.valueStart
  value : attr.valueStart ≤ attr.valueStop
  stop : attr.valueStop ≤ attr.stop
  named : attr.kind ≠ .spread → attr.name ≠ [] ∧ source.StandsAt attr.start attr.name
  quoted : attr.kind = .string → ∃ mark content, mark.isQuote = true ∧ mark ∉ content ∧
    attr.valueText source = mark :: (content ++ [mark])
  enclosed : attr.kind = .expression ∨ attr.kind = .spread → attr.start < attr.valueStart ∧ attr.valueStop < attr.stop ∧
    source[attr.valueStart - 1]? = some (.char '\x7b') ∧ source[attr.valueStop]? = some (.char '\x7d')

/-- An element begins with `<` and its tag and ends with `>`. Its attributes are inside of it, one behind the other. -/
structure Element.IsFormed (source : Text) (element : Element) : Prop where
  order : element.start < element.stop
  inside : element.stop ≤ source.length
  tagged : element.tag ≠ []
  opens : source.StandsAt element.start (.char '<' :: element.tag)
  closes : source[element.stop - 1]? = some (.char '>')
  attributes : ∀ attr ∈ element.attributes,
    element.start < attr.start ∧ attr.stop < element.stop ∧ attr.IsFormed source
  ascending : element.attributes.Pairwise fun a b => a.stop ≤ b.start

/-- A call begins with the name of the function, and its argument is between a parenthesis behind the name and the one
that ends the call. -/
structure Call.IsFormed (callee source : Text) (call : Call) : Prop where
  named : source.StandsAt call.start callee
  order : call.start + callee.length < call.argumentStart ∧ call.argumentStart ≤ call.argumentStop
  opens : source[call.argumentStart - 1]? = some (.char '(')
  closes : source[call.argumentStop]? = some (.char ')')
  stop : call.stop = call.argumentStop + 1
  inside : call.stop ≤ source.length

section Reading

variable {source text : Text} {start : Nat}

/-- A text is split at the first place of a code point. -/
theorem indexOf?_splits {c : CodePoint} {index : Nat} (found : Text.indexOf? c text = some index) :
    ∃ front behind, text = front ++ c :: behind ∧ front.length = index ∧ c ∉ front := by
  obtain ⟨inside, same, before⟩ := List.findIdx?_eq_some_iff_getElem.mp found
  refine ⟨text.take index, text.drop (index + 1), ?_, by simp [Nat.le_of_lt inside], fun member => ?_⟩
  · rw [← beq_iff_eq.mp same, List.getElem_cons_drop, List.take_append_drop]
  · obtain ⟨place, bound, same⟩ := List.getElem_of_mem member
    rw [List.length_take] at bound
    exact before place (by omega) (by simpa using same)

theorem getElem?_of_drop (here : source.drop start = text) (index : Nat) : source[start + index]? = text[index]? := by
  rw [← here, List.getElem?_drop]

theorem drop_of_drop (here : source.drop start = text) (length : Nat) :
    source.drop (start + length) = text.drop length := by
  rw [← here, List.drop_drop]

theorem readValue?_formed {stop valueStart valueStop : Nat} {kind : AttributeKind} (here : source.drop start = text)
    (read : readValue? start text = some (kind, stop, valueStart, valueStop)) :
    (kind = .string → ∃ mark content, mark.isQuote = true ∧ mark ∉ content ∧
      source.slice valueStart valueStop = mark :: (content ++ [mark])) ∧
    (kind = .expression → start < valueStart ∧ valueStop < stop ∧ source[valueStart - 1]? = some (.char '\x7b') ∧
      source[valueStop]? = some (.char '\x7d')) ∧ kind ≠ .spread ∧ kind ≠ .boolean := by
  cases text with
  | nil => simp [readValue?] at read
  | cons c rest =>
    simp only [readValue?] at read
    split at read
    · rename_i isQuote
      obtain ⟨length, found, same⟩ := Option.map_eq_some_iff.mp read
      simp only [Prod.mk.injEq] at same
      obtain ⟨rfl, rfl, rfl, rfl⟩ := same
      obtain ⟨content, behind, rfl, size, absent⟩ := indexOf?_splits found
      refine ⟨fun _ => ⟨c, content, isQuote, absent, ?_⟩, by simp, by simp, by simp⟩
      have stands : source.StandsAt start (c :: (content ++ [c])) := by
        rw [Text.StandsAt, here]
        simp
      exact stands.slice (by simp [size]; omega)
    · split at read
      · rename_i brace
        obtain ⟨length, found, same⟩ := Option.map_eq_some_iff.mp read
        simp only [Prod.mk.injEq] at same
        obtain ⟨rfl, rfl, rfl, rfl⟩ := same
        refine ⟨by simp, fun _ => ⟨by omega, by omega, ?_, ?_⟩, by simp, by simp⟩
        · rw [Nat.add_sub_cancel, ← Nat.add_zero start, getElem?_of_drop here, brace]
          rfl
        · rw [Nat.add_assoc, getElem?_of_drop here, Nat.add_comm 1, List.getElem?_cons_succ]
          exact Bracket.getElem?_contentLength found
      · cases read

theorem readAttribute?_formed {length : Nat} {attr : Attribute} (here : source.drop start = text)
    (read : readAttribute? start text = some (attr, length)) : attr.IsFormed source := by
  obtain ⟨within, starts, -, -⟩ := readAttribute?_within read
  unfold readAttribute? at read
  split at read
  · rename_i rest
    obtain ⟨inner, found, same⟩ := Option.map_eq_some_iff.mp read
    simp only [Prod.mk.injEq] at same
    obtain ⟨rfl, rfl⟩ := same
    refine ⟨within.valueStart, within.value, within.valueStop, by simp, by simp, fun _ => ⟨?_, ?_, ?_, ?_⟩⟩
    · exact Nat.lt_succ_self start
    · dsimp only
      omega
    · rw [Nat.add_sub_cancel, ← Nat.add_zero start, getElem?_of_drop here]
      rfl
    · have place : start + inner + 2 - 1 = start + (inner + 1) := by omega
      rw [place, getElem?_of_drop here, List.getElem?_cons_succ]
      exact Bracket.getElem?_contentLength found
  · dsimp only at read
    split at read
    · cases read
    · rename_i nonempty
      obtain ⟨behind, shape, -, -⟩ := leadingName_splits isAttributeNamePart text (by simpa using nonempty)
      generalize leadingName isAttributeNamePart text = name at *
      subst shape
      have named : name ≠ [] ∧ source.StandsAt start name := by
        refine ⟨by simpa using nonempty, ?_⟩
        rw [Text.StandsAt, here]
        exact List.prefix_append name behind
      rw [List.drop_left] at read
      split at read
      · rename_i rest equals
        obtain ⟨⟨kind, stop, valueStart, valueStop⟩, found, same⟩ := Option.map_eq_some_iff.mp read
        simp only [Prod.mk.injEq] at same
        obtain ⟨rfl, rfl⟩ := same
        have value : source.drop (start + (name.length + Text.blankLength behind + 1 + Text.blankLength rest)) =
            Text.dropBlank rest := by
          rw [← List.drop_drop, here, ← List.drop_drop, ← List.drop_drop, ← List.drop_drop, List.drop_left, equals,
            List.drop_succ_cons, List.drop_zero, drop_blankLength]
        obtain ⟨quoted, enclosed, noSpread, -⟩ := readValue?_formed value found
        refine ⟨within.valueStart, within.value, within.valueStop, fun _ => named, quoted, fun braced => ?_⟩
        obtain ⟨low, high, opens, closes⟩ := enclosed (braced.resolve_right noSpread)
        exact ⟨by dsimp only; omega, high, opens, closes⟩
      · simp only [Option.some.injEq, Prod.mk.injEq] at read
        obtain ⟨rfl, rfl⟩ := read
        exact ⟨within.valueStart, within.value, within.valueStop, fun _ => named, by simp, by simp⟩

theorem readTail?_formed {tail : TagTail} (here : source.drop start = text) (read : readTail? start text = some tail) :
    (∀ attr ∈ tail.attributes, start ≤ attr.start ∧ attr.stop < tail.stop ∧ attr.IsFormed source) ∧
      tail.attributes.Pairwise (fun a b => a.stop ≤ b.start) ∧ source[tail.stop - 1]? = some (.char '>') := by
  fun_induction readTail? start text generalizing tail with
  | case1 => cases read
  | case2 offset c rest blank ih =>
    obtain ⟨inside, ascending, closes⟩ := ih (drop_of_drop here 1) read
    exact ⟨fun attr member => (inside attr member).imp_left Nat.le_of_succ_le, ascending, closes⟩
  | case3 offset rest =>
    cases read
    refine ⟨List.forall_mem_nil _, .nil, ?_⟩
    rw [Nat.add_sub_cancel, ← Nat.add_zero offset, getElem?_of_drop here]
    rfl
  | case4 offset rest =>
    cases read
    refine ⟨List.forall_mem_nil _, .nil, ?_⟩
    exact (getElem?_of_drop here 1)
  | case5 => cases read
  | case6 offset c rest _ _ attr length found _ ih =>
    obtain ⟨others, reads, rfl⟩ := Option.map_eq_some_iff.mp read
    obtain ⟨within, starts, positive, -⟩ := readAttribute?_within found
    have formed := readAttribute?_formed here found
    have onward : source.drop (offset + length) = rest.drop (length - 1) := by
      obtain ⟨length, rfl⟩ := Nat.exists_eq_succ_of_ne_zero (Nat.ne_of_gt positive)
      exact drop_of_drop here (length + 1)
    obtain ⟨inside, ascending, closes⟩ := ih onward reads
    have ends := (readTail?_within reads).1
    refine ⟨List.forall_mem_cons.mpr ⟨⟨Nat.le_of_eq starts.symm, within.stop.trans_lt ends, formed⟩, ?_⟩,
      List.pairwise_cons.mpr ⟨fun other member => ?_, ascending⟩, closes⟩
    · exact fun other member => (inside other member).imp_left (Nat.le_add_right offset length).trans
    · exact within.stop.trans (inside other member).1

theorem readElement?_formed {element : Element} {isSelfClosing : Bool} (here : source.drop start = .char '<' :: text)
    (read : readElement? start text = some (element, isSelfClosing)) : element.IsFormed source := by
  obtain ⟨same, within⟩ := readElement?_within read
  unfold readElement? at read
  dsimp only at read
  split at read
  · cases read
  · rename_i nonempty
    obtain ⟨behind, shape, -, -⟩ := leadingName_splits isTagNamePart text (by simpa using nonempty)
    generalize leadingName isTagNamePart text = tag at *
    subst shape
    obtain ⟨tail, found, shape⟩ := Option.map_eq_some_iff.mp read
    simp only [Prod.mk.injEq] at shape
    obtain ⟨rfl, -⟩ := shape
    have after : source.drop (start + 1 + tag.length) = (tag ++ behind).drop tag.length := by
      rw [Nat.add_assoc, ← List.drop_drop, here, Nat.add_comm, List.drop_succ_cons]
    obtain ⟨inside, ascending, closes⟩ := readTail?_formed after found
    refine ⟨within.order, ?_, by simpa using nonempty, ?_, closes, fun attr member => ?_, ascending⟩
    · have size := congrArg List.length here
      have bound := within.stop
      simp only [List.length_drop, List.length_cons, List.length_append] at size bound
      dsimp only
      omega
    · rw [Text.StandsAt, here]
      exact List.cons_prefix_cons.mpr ⟨rfl, List.prefix_append tag behind⟩
    · obtain ⟨low, high, formed⟩ := inside attr member
      exact ⟨by dsimp only; omega, high, formed⟩

end Reading

theorem calls_formed {callee source : Text} {call : Call} (member : call ∈ calls callee source) :
    call.IsFormed callee source := by
  obtain ⟨-, bounds, -, inside⟩ := calls_within member
  obtain ⟨⟨start, opening⟩, candidate, found⟩ := List.mem_filterMap.mp member
  obtain ⟨start, distance, rfl, rfl, -, named⟩ := Tree.distance_of_candidate candidate
  rw [Nat.zero_add] at found
  dsimp only [Call.ofCandidate?] at found
  split at found
  · cases found
  · obtain ⟨length, closed, rfl⟩ := Option.map_eq_some_iff.mp found
    have opens : source[start + distance]? = some (.char '(') := by
      rw [← List.getElem?_drop]
      exact Tree.getElem?_of_distance named
    have closes : source[start + distance + 1 + length]? = some (.char ')') := by
      rw [← List.getElem?_drop]
      exact Bracket.getElem?_contentLength closed
    obtain ⟨rest, dropped, found⟩ := Option.bind_eq_some_iff.mp named
    dsimp only at found
    split at found
    · obtain rfl := Option.some.inj found
      refine ⟨?_, ⟨?_, bounds⟩, opens, closes, rfl, inside⟩
      · rw [Text.StandsAt, Text.dropLeading?_eq dropped]
        exact List.prefix_append callee rest
      · dsimp only
        omega
    · cases found

end Markup

end StaticStyle
