import Mathlib.Data.List.Basic
import StaticStyle.Proofs.Markup.Span
import StaticStyle.Proofs.Markup.Tag

namespace StaticStyle

/-- The search for the end of a bracket ends at a closing bracket. -/
theorem closingDistance?_closes {stack : List Enclosure} {text : Text} {distance : Nat}
    (found : closingDistance? stack text = some distance) :
    ∃ c, text[distance]? = some c ∧ (Bracket.ofClosing? c).isSome = true := by
  fun_induction closingDistance? stack text generalizing distance
  all_goals simp only [reduceCtorEq, Option.map_eq_some_iff, Option.some.injEq] at found
  case case22 bracket outer c rest _ _ other closes _ _ _ _ _ =>
    subst found
    exact ⟨c, rfl, by rw [closes]; rfl⟩
  all_goals
    obtain ⟨further, read, rfl⟩ := found
    rename_i ih
    simpa using ih read

namespace Markup

open StaticStyle.Markup.Tree (drop_blankLength isAlphanumeric_blank isAsciiLetter_bounds isAttributeNamePart_blank)

theorem isWord_of_isNameStart {c : CodePoint} (start : isNameStart c = true) (other : c ≠ '$') :
    c.isWord = true := by
  have letters : ((List.range 123).all fun number =>
      decide (number < 65 ∨ 90 < number ∧ number < 97) || alphanumericRanges.includes number) = true := by
    decide +kernel
  simp only [isNameStart, Bool.or_eq_true, beq_iff_eq, other, or_false] at start
  rcases start with letter | rfl
  · have bounds := isAsciiLetter_bounds letter
    have found := List.all_eq_true.mp letters c.toNat (List.mem_range.mpr (by omega))
    rw [Bool.or_eq_true, decide_eq_true_iff] at found
    have included := found.resolve_left (by omega)
    rw [CodePoint.isWord, CodePoint.isAlphanumeric, included, Bool.or_true]
  · decide

theorem isNamePart_of_isNameStart {c : CodePoint} (start : isNameStart c = true) :
    isTagNamePart c = true ∧ isAttributeNamePart c = true := by
  by_cases dollar : c = '$'
  · subst dollar
    decide
  · simp [isTagNamePart, isAttributeNamePart, isWord_of_isNameStart start dollar]

theorem isWord_quote {c : CodePoint} (quote : c.isQuote = true) : c.isWord = false := by
  simp only [CodePoint.isQuote, Bool.or_eq_true, beq_iff_eq] at quote
  rcases quote with rfl | rfl <;> decide

theorem isWord_closing {c : CodePoint} (closes : (Bracket.ofClosing? c).isSome = true) : c.isWord = false := by
  have either : c = ')' ∨ c = ']' ∨ c = '\x7d' := by
    by_contra other
    simp only [not_or] at other
    simp [Bracket.ofClosing?, other] at closes
  rcases either with rfl | rfl | rfl <;> decide

theorem isWord_of_isBlank {c : CodePoint} (blank : c.isBlank = true) : c.isWord = false := by
  have part := isAttributeNamePart_blank blank
  rw [isAttributeNamePart, Bool.or_eq_false_iff] at part
  exact part.1

/-- No name goes on between what stands in front of a text and the text: the code point in front belongs to no word,
or no name begins with the text. -/
def Apart (before : Option CodePoint) (text : Text) : Prop :=
  before.any CodePoint.isWord = false ∨ text.head?.any isNameStart = false

/-- A name that is read is split off the text, at its first code point that is no part of it. -/
theorem leadingName_splits (isPart : CodePoint → Bool) (text : Text) (nonempty : leadingName isPart text ≠ []) :
    ∃ behind, text = leadingName isPart text ++ behind ∧
      (leadingName isPart text).head?.any isNameStart = true ∧ behind.head?.any isPart = false := by
  cases text with
  | nil => simp [leadingName] at nonempty
  | cons c rest =>
    cases start : isNameStart c with
    | false => simp [leadingName, start] at nonempty
    | true =>
      refine ⟨rest.dropWhile isPart, ?_, ?_, ?_⟩
      · simp [leadingName, start, List.takeWhile_append_dropWhile]
      · simp [leadingName, start]
      · have stops := List.head?_dropWhile_not isPart rest
        cases behind : (rest.dropWhile isPart).head? with
        | none => rfl
        | some d => simpa [behind] using stops

theorem Apart.of_name {before : Option CodePoint} {isPart : CodePoint → Bool} {text : Text}
    (parts : ∀ c, isNameStart c = true → isPart c = true) (stops : text.head?.any isPart = false) :
    Apart before text := by
  refine .inr ?_
  cases head : text.head? with
  | none => rfl
  | some c =>
    rw [head, Option.any_some] at stops
    cases start : isNameStart c with
    | false => simp [start]
    | true => simp [parts c start] at stops

/-- Behind a value stands no word: it ends with its mark or with its closing brace. -/
theorem readValue?_ends {start stop valueStart valueStop : Nat} {text : Text} {kind : AttributeKind}
    (read : readValue? start text = some (kind, stop, valueStart, valueStop)) :
    start < stop ∧ ∃ c, text[stop - start - 1]? = some c ∧ c.isWord = false := by
  cases text with
  | nil => simp [readValue?] at read
  | cons c rest =>
    simp only [readValue?] at read
    split at read
    · rename_i isQuote
      obtain ⟨length, found, same⟩ := Option.map_eq_some_iff.mp read
      simp only [Prod.mk.injEq] at same
      have place : stop - start - 1 = length + 1 := by omega
      obtain ⟨inside, mark, -⟩ := List.findIdx?_eq_some_iff_getElem.mp found
      refine ⟨by omega, c, ?_, isWord_quote isQuote⟩
      rw [place, List.getElem?_cons_succ, List.getElem?_eq_getElem inside, beq_iff_eq.mp mark]
    · split at read
      · obtain ⟨length, found, same⟩ := Option.map_eq_some_iff.mp read
        simp only [Prod.mk.injEq] at same
        have place : stop - start - 1 = length + 1 := by omega
        obtain ⟨d, inside, closes⟩ := closingDistance?_closes found
        exact ⟨by omega, d, by rw [place, List.getElem?_cons_succ, inside], isWord_closing closes⟩
      · simp at read

/-- What an attribute was read from: braces, or a name, with nothing but blanks behind it or with an equals sign and
a value. -/
theorem readAttribute?_cases {start length : Nat} {text : Text} {attr : Attribute}
    (read : readAttribute? start text = some (attr, length)) :
    (attr.kind = .spread ∧ ∃ rest inner, text = .char '\x7b' :: rest ∧
      Bracket.curly.contentLength? rest = some inner ∧ length = inner + 2) ∨
    ∃ behind, text = attr.name ++ behind ∧ attr.name.head?.any isNameStart = true ∧
      behind.head?.any isAttributeNamePart = false ∧
      ((attr.kind = .boolean ∧ length = attr.name.length + Text.blankLength behind) ∨
        ∃ front value, behind = front ++ value ∧ (Text.dropBlank behind).head? = some (.char '=') ∧
          readValue? (start + (attr.name ++ front).length) value =
            some (attr.kind, attr.stop, attr.valueStart, attr.valueStop) ∧
          length = attr.stop - start) := by
  unfold readAttribute? at read
  split at read
  · rename_i rest
    obtain ⟨inner, found, same⟩ := Option.map_eq_some_iff.mp read
    simp only [Prod.mk.injEq] at same
    obtain ⟨rfl, rfl⟩ := same
    exact .inl ⟨rfl, rest, inner, rfl, found, rfl⟩
  · right
    dsimp only at read
    split at read
    · simp at read
    · rename_i nonempty
      obtain ⟨behind, shape, starts, stops⟩ := leadingName_splits isAttributeNamePart text
        (by simpa using nonempty)
      generalize leadingName isAttributeNamePart text = name at *
      subst shape
      rw [List.drop_left, drop_blankLength] at read
      split at read
      · rename_i value equals
        obtain ⟨⟨kind, stop, valueStart, valueStop⟩, found, same⟩ := Option.map_eq_some_iff.mp read
        simp only [Prod.mk.injEq] at same
        obtain ⟨rfl, rfl⟩ := same
        refine ⟨behind, rfl, starts, stops, .inr ⟨behind.takeWhile CodePoint.isBlank ++ .char '=' ::
          value.takeWhile CodePoint.isBlank, Text.dropBlank value, ?_, by rw [equals]; rfl, ?_, rfl⟩⟩
        · calc behind
              = behind.takeWhile CodePoint.isBlank ++ behind.dropWhile CodePoint.isBlank :=
                List.takeWhile_append_dropWhile.symm
            _ = _ := by
              rw [show behind.dropWhile CodePoint.isBlank = _ from equals, List.append_assoc, List.cons_append,
                Text.dropBlank, List.takeWhile_append_dropWhile]
        · have place : (name ++ (behind.takeWhile CodePoint.isBlank ++ .char '=' ::
              value.takeWhile CodePoint.isBlank)).length =
              name.length + Text.blankLength behind + 1 + Text.blankLength value := by
            simp only [List.length_append, List.length_cons, Text.blankLength]
            omega
          rw [place, found]
      · simp only [Option.some.injEq, Prod.mk.injEq] at read
        obtain ⟨rfl, rfl⟩ := read
        exact ⟨behind, rfl, starts, stops, .inl ⟨rfl, rfl⟩⟩

/-- Behind an attribute no name goes on. -/
theorem readAttribute?_apart {start length : Nat} {text : Text} {attr : Attribute}
    (read : readAttribute? start text = some (attr, length)) :
    Apart (text.take length).getLast? (text.drop length) := by
  rcases readAttribute?_cases read with ⟨-, rest, inner, rfl, found, rfl⟩ |
    ⟨behind, rfl, starts, stops, ⟨-, rfl⟩ | ⟨front, value, rfl, -, found, rfl⟩⟩
  · obtain ⟨d, inside, closes⟩ := closingDistance?_closes found
    refine .inl ?_
    rw [List.getLast?_take]
    simp [inside, isWord_closing closes]
  · obtain ⟨blanks, others, allBlank, size, rfl⟩ : ∃ blanks others : Text,
        (∀ c ∈ blanks, c.isBlank = true) ∧ Text.blankLength behind = blanks.length ∧
          blanks ++ others = behind :=
      ⟨_, _, List.all_eq_true.mp List.all_takeWhile, rfl, List.takeWhile_append_dropWhile⟩
    rw [size, ← List.append_assoc, List.take_left' (List.length_append), List.drop_left' (List.length_append)]
    cases last : blanks.getLast? with
    | none =>
      rw [List.getLast?_eq_none_iff.mp last] at stops
      exact .of_name (fun c start => (isNamePart_of_isNameStart start).2) stops
    | some c =>
      have noWord := isWord_of_isBlank (allBlank c (List.mem_of_getLast? last))
      exact .inl (by simp [List.getLast?_append, last, noWord])
  · obtain ⟨positive, c, last, noWord⟩ := readValue?_ends found
    have place : attr.stop - start - 1 = (attr.name ++ front).length +
        (attr.stop - (start + (attr.name ++ front).length) - 1) := by omega
    refine .inl ?_
    rw [List.getLast?_take, if_neg (by omega), place, ← List.append_assoc,
      List.getElem?_append_right (Nat.le_add_right _ _), Nat.add_sub_cancel_left, last]
    simp [noWord]

/-- An attribute is given a value, a string or an expression. -/
def Attribute.isValued (attr : Attribute) : Bool := attr.kind == .string || attr.kind == .expression

/-- The parts of an attribute take up room: its value stands behind its name, and that of an expression in front of a
closing brace. -/
structure Attribute.Proper (attr : Attribute) : Prop where
  nonempty : attr.start < attr.stop
  named : attr.isValued = true → attr.start < attr.valueStart
  closed : attr.kind = .expression → attr.valueStop < attr.stop

/-- The value of an expression ends in front of its closing brace. -/
theorem readValue?_expression {start stop valueStart valueStop : Nat} {text : Text}
    (read : readValue? start text = some (.expression, stop, valueStart, valueStop)) : valueStop < stop := by
  cases text with
  | nil => simp [readValue?] at read
  | cons c rest =>
    simp only [readValue?] at read
    split at read
    · simp at read
    · split at read
      · obtain ⟨length, -, same⟩ := Option.map_eq_some_iff.mp read
        simp only [Prod.mk.injEq] at same
        omega
      · simp at read

theorem readAttribute?_proper {start length : Nat} {text : Text} {attr : Attribute}
    (read : readAttribute? start text = some (attr, length)) : attr.Proper := by
  unfold readAttribute? at read
  split at read
  · obtain ⟨inner, -, same⟩ := Option.map_eq_some_iff.mp read
    simp only [Prod.mk.injEq] at same
    obtain ⟨rfl, -⟩ := same
    exact ⟨by dsimp only; omega, by simp [Attribute.isValued], by simp⟩
  · dsimp only at read
    split at read
    · simp at read
    · rename_i nonempty
      have named : 0 < (leadingName isAttributeNamePart text).length :=
        List.length_pos_iff.mpr (by simpa using nonempty)
      split at read
      · obtain ⟨⟨kind, stop, valueStart, valueStop⟩, value, same⟩ := Option.map_eq_some_iff.mp read
        have bounds := readValue?_within value
        simp only [Prod.mk.injEq] at same
        obtain ⟨rfl, -⟩ := same
        refine ⟨by dsimp only; omega, fun _ => by dsimp only; omega, ?_⟩
        rintro rfl
        exact readValue?_expression value
      · simp only [Option.some.injEq, Prod.mk.injEq] at read
        obtain ⟨rfl, -⟩ := read
        exact ⟨by dsimp only; omega, by simp [Attribute.isValued], by simp⟩

/-- An attribute stands at a place of a text, behind at least one code point, and no name goes on into it. -/
def Attribute.StandsIn (text : Text) (attr : Attribute) : Prop :=
  ∃ front rest length, text = front ++ rest ∧ front ≠ [] ∧ Apart front.getLast? rest ∧
    readAttribute? attr.start rest = some (attr, length)

theorem Attribute.StandsIn.of_suffix {text whole : Text} {attr : Attribute} (stands : attr.StandsIn text)
    (inside : text <:+ whole) : attr.StandsIn whole := by
  obtain ⟨before, rfl⟩ := inside
  obtain ⟨front, rest, length, rfl, nonempty, apart, read⟩ := stands
  refine ⟨before ++ front, rest, length, by rw [List.append_assoc], by simp [nonempty], ?_, read⟩
  rw [List.getLast?_append_of_ne_nil _ nonempty]
  exact apart

/-- An attribute with a value stands there as its name with an equals sign behind it. -/
theorem Attribute.StandsIn.assigned {text : Text} {attr : Attribute} (stands : attr.StandsIn text)
    (valued : attr.isValued = true) :
    ∃ front behind, text = front ++ (attr.name ++ behind) ∧ front ≠ [] ∧
      Apart front.getLast? (attr.name ++ behind) ∧ attr.name.head?.any isNameStart = true ∧
      (Text.dropBlank behind).head? = some (.char '=') := by
  obtain ⟨front, rest, length, rfl, nonempty, apart, read⟩ := stands
  rcases readAttribute?_cases read with ⟨spread, -⟩ |
    ⟨behind, rfl, starts, -, ⟨boolean, -⟩ | ⟨inner, value, -, equals, -⟩⟩
  · simp [isValued, spread] at valued
  · simp [isValued, boolean] at valued
  · exact ⟨front, behind, rfl, nonempty, apart, starts, equals⟩

/-- Every attribute of a tag stands behind the text in front of it. -/
theorem readTail?_stands {offset : Nat} {front text : Text} {tail : TagTail} (nonempty : front ≠ [])
    (apart : Apart front.getLast? text) (read : readTail? offset text = some tail) :
    ∀ attr ∈ tail.attributes, attr.StandsIn (front ++ text) := by
  fun_induction readTail? offset text generalizing front tail with
  | case1 => simp at read
  | case2 offset c rest blank ih =>
    have onward := @ih (front ++ [c]) tail (by simp) (.inl (by simp [isWord_of_isBlank blank])) read
    simpa using onward
  | case3 offset rest =>
    cases read
    simp
  | case4 offset rest =>
    cases read
    simp
  | case5 => simp at read
  | case6 offset c rest _ _ attr length found _ ih =>
    obtain ⟨further, reads, rfl⟩ := Option.map_eq_some_iff.mp read
    obtain ⟨-, starts, positive, bound⟩ := readAttribute?_within found
    have taken : (c :: rest).take length ≠ [] := by
      simp [List.take_eq_nil_iff]
      omega
    have dropped : rest.drop (length - 1) = (c :: rest).drop length := by
      obtain ⟨length, rfl⟩ := Nat.exists_eq_succ_of_ne_zero (Nat.ne_of_gt positive)
      rfl
    rw [dropped] at ih reads
    intro other member
    rcases List.mem_cons.mp member with rfl | member
    · exact ⟨front, c :: rest, length, rfl, nonempty, apart, starts ▸ found⟩
    · have onward := @ih (front ++ (c :: rest).take length) further (by simp [nonempty])
        (by rw [List.getLast?_append_of_ne_nil _ taken]; exact readAttribute?_apart found) reads other member
      rwa [List.append_assoc, List.take_append_drop] at onward

theorem readElement?_stands {start : Nat} {rest : Text} {element : Element} {isSelfClosing : Bool}
    (read : readElement? start rest = some (element, isSelfClosing)) :
    ∀ attr ∈ element.attributes, attr.StandsIn rest := by
  unfold readElement? at read
  dsimp only at read
  split at read
  · simp at read
  · rename_i nonempty
    obtain ⟨tail, found, same⟩ := Option.map_eq_some_iff.mp read
    simp only [Prod.mk.injEq] at same
    obtain ⟨rfl, -⟩ := same
    obtain ⟨behind, shape, -, stops⟩ := leadingName_splits isTagNamePart rest
      (by simpa using nonempty)
    generalize leadingName isTagNamePart rest = tag at *
    subst shape
    rw [List.drop_left] at found
    exact readTail?_stands (by simpa using nonempty)
      (.of_name (fun c start => (isNamePart_of_isNameStart start).1) stops) found

namespace Walker

/-- The attributes of every element that a walk finds stand in the text that is left. -/
theorem walk_stands (walker : Walker) (text : Text) :
    ∀ element ∈ (walk walker text).elements, ∀ attr ∈ element.attributes, attr.StandsIn text := by
  intro element member attr belongs
  match text with
  | [] =>
    rw [walk, finish_elements] at member
    simp at member
  | c :: rest =>
    have inside (length : Nat) : rest.drop length <:+ c :: rest :=
      (List.drop_suffix _ _).trans (List.suffix_cons _ _)
    rw [walk] at member
    cases stepped : walker.step c rest with
    | none => simp [stepped] at member
    | some move =>
      simp only [stepped, List.mem_append, List.flatMap_map, List.mem_flatMap] at member
      rcases member with (member | ⟨start, -, member⟩) | member
      · obtain ⟨-, isSelfClosing, read⟩ := step_element stepped (Option.mem_toList.mp member)
        exact (readElement?_stands read attr belongs).of_suffix (List.suffix_cons _ _)
      · exact (walk_stands _ _ element member attr belongs).of_suffix (inside _)
      · exact (walk_stands _ _ element member attr belongs).of_suffix (inside _)
termination_by text.length
decreasing_by all_goals simp only [List.length_drop, List.length_cons]; omega

end Walker

theorem elements_stand {source : Text} {element : Element} (member : element ∈ elements source) :
    ∀ attr ∈ element.attributes, attr.StandsIn source :=
  Walker.walk_stands ⟨[.code none], 0, none, 0⟩ source element ((List.mergeSort_perm _ _).mem_iff.mp member)

theorem elements_proper {source : Text} {element : Element} (member : element ∈ elements source) {attr : Attribute}
    (belongs : attr ∈ element.attributes) : attr.Proper := by
  obtain ⟨front, rest, length, -, -, -, read⟩ := elements_stand member attr belongs
  exact readAttribute?_proper read

end Markup

end StaticStyle
