import StaticStyle.Proofs.Markup.Matching
import StaticStyle.Proofs.Text.Ranges

namespace StaticStyle.Markup.Tree

theorem takeWhile_append {p : CodePoint → Bool} {text rest : Text} (all : text.all p = true)
    (stops : rest.head?.all (!p ·) = true) : (text ++ rest).takeWhile p = text := by
  rw [List.takeWhile_append_of_pos (List.all_eq_true.mp all)]
  cases rest with
  | nil => simp
  | cons c rest =>
    simp only [List.head?_cons, Option.all_some, Bool.not_eq_true'] at stops
    simp [stops]

theorem dropWhile_append {p : CodePoint → Bool} {text rest : Text} (all : text.all p = true)
    (stops : rest.head?.all (!p ·) = true) : (text ++ rest).dropWhile p = rest := by
  rw [List.dropWhile_append_of_pos (List.all_eq_true.mp all)]
  cases rest with
  | nil => simp
  | cons c rest =>
    simp only [List.head?_cons, Option.all_some, Bool.not_eq_true'] at stops
    simp [stops]

theorem leadingName_append {isPart : CodePoint → Bool} {name rest : Text}
    (valid : isName isPart name = true) (stops : rest.head?.all (!isPart ·) = true) :
    leadingName isPart (name ++ rest) = name := by
  cases name with
  | nil => simp [isName] at valid
  | cons c name =>
    simp only [isName, Bool.and_eq_true] at valid
    simp [leadingName, valid.1, takeWhile_append valid.2 stops]

theorem indexOf?_append {c : CodePoint} {text : Text} (absent : text.contains c = false)
    (rest : Text) : Text.indexOf? c (text ++ c :: rest) = some text.length := by
  have missing : text.findIdx? (· == c) = none := by
    simp only [List.findIdx?_eq_none_iff, beq_eq_false_iff_ne, ne_eq]
    rintro d member rfl
    simp [member] at absent
  simp [Text.indexOf?, List.findIdx?_append, missing, List.findIdx?_cons]

theorem isAlphanumeric_blank {c : CodePoint} (blank : c.isBlank = true) :
    c.isAlphanumeric = false := by
  have outside := CodePoint.of_isBlank (p := fun n => !alphanumericRanges.includes n) blank (by decide +kernel)
  simpa [CodePoint.isAlphanumeric] using outside

/-- A blank is no part of a name. -/
theorem isWord_blank {c : CodePoint} (blank : c.isBlank = true) {signs : String}
    (apart : (Text.ofString signs).all (!·.isBlank) = true) :
    (c.isWord || c.isOneOf signs) = false := by
  have noLine : c ≠ .char '_' := by
    rintro rfl
    exact absurd blank (by decide)
  have noSign : c.isOneOf signs = false := by
    cases sign : c.isOneOf signs with
    | false => rfl
    | true =>
      have other := List.all_eq_true.mp apart c (by simpa [CodePoint.isOneOf] using sign)
      simp [blank] at other
  simp [CodePoint.isWord, isAlphanumeric_blank blank, noLine, noSign]

theorem isTagNamePart_blank {c : CodePoint} (blank : c.isBlank = true) :
    isTagNamePart c = false :=
  isWord_blank blank (by decide)

theorem isAttributeNamePart_blank {c : CodePoint} (blank : c.isBlank = true) :
    isAttributeNamePart c = false :=
  isWord_blank blank (by decide)

theorem isAsciiLetter_bounds {c : CodePoint} (letter : c.isAsciiLetter = true) :
    65 ≤ c.toNat ∧ c.toNat ≤ 90 ∨ 97 ≤ c.toNat ∧ c.toNat ≤ 122 := by
  match c with
  | .char letter' =>
    have either : letter'.isUpper = true ∨ letter'.isLower = true :=
      (Bool.or_eq_true _ _).mp letter
    rcases either with upper | lower
    · have bounds : 'A'.val ≤ letter'.val ∧ letter'.val ≤ 'Z'.val := of_decide_eq_true upper
      exact .inl ⟨UInt32.le_iff_toNat_le.mp bounds.1, UInt32.le_iff_toNat_le.mp bounds.2⟩
    · have bounds := (Bool.and_eq_true _ _).mp lower
      exact .inr ⟨UInt32.le_iff_toNat_le.mp (of_decide_eq_true bounds.1),
        UInt32.le_iff_toNat_le.mp (of_decide_eq_true bounds.2)⟩

theorem isBlank_nameStart {c : CodePoint} (start : isNameStart c = true) : c.isBlank = false := by
  simp only [isNameStart, Bool.or_eq_true, beq_iff_eq] at start
  rcases start with (letter | rfl) | rfl
  · have bounds := isAsciiLetter_bounds letter
    cases blank : c.isBlank with
    | false => rfl
    | true =>
      obtain ⟨range, member, low, high⟩ := Ranges.exists_of_includes blank
      simp only [blankRanges, List.mem_cons, List.not_mem_nil, or_false] at member
      rcases member with rfl | rfl | rfl | rfl | rfl | rfl | rfl | rfl | rfl | rfl <;> omega
  · decide
  · decide

/-- What may stand behind a name: no part of it, and no equals sign behind blanks. -/
def Ends (rest : Text) : Prop :=
  (rest.head?.all fun c => !isTagNamePart c && !isAttributeNamePart c) = true ∧
    (Text.dropBlank rest).head? ≠ some (.char '=')

theorem ends_space {space : Text} (blank : space.all CodePoint.isBlank = true) {d : CodePoint}
    (noBlank : d.isBlank = false) (noEquals : d ≠ '=')
    (stops : space ≠ [] ∨ isTagNamePart d = false ∧ isAttributeNamePart d = false) (rest : Text) :
    Ends (space ++ d :: rest) := by
  refine ⟨?_, ?_⟩
  · cases space with
    | nil => simpa using stops
    | cons c space =>
      simp only [List.all_cons, Bool.and_eq_true] at blank
      simp [isTagNamePart_blank blank.1, isAttributeNamePart_blank blank.1]
  · rw [Text.dropBlank, dropWhile_append blank (by simp [noBlank])]
    simpa using noEquals

theorem readTail?_space {space : Text} (blank : space.all CodePoint.isBlank = true) (offset : Nat)
    (rest : Text) : readTail? offset (space ++ rest) = readTail? (offset + space.length) rest := by
  induction space generalizing offset with
  | nil => simp
  | cons c space ih =>
    simp only [List.all_cons, Bool.and_eq_true] at blank
    rw [List.cons_append, readTail?.eq_def]
    simp only [blank.1, ↓reduceIte, ih blank.2]
    rw [List.length_cons, Nat.add_assoc, Nat.add_comm 1]

theorem readTail?_dropBlank (offset : Nat) (text : Text) :
    readTail? (offset + Text.blankLength text) (Text.dropBlank text) = readTail? offset text := by
  have blank : (text.takeWhile CodePoint.isBlank).all CodePoint.isBlank = true :=
    List.all_takeWhile
  have skipped := readTail?_space blank offset (Text.dropBlank text)
  rw [Text.dropBlank, List.takeWhile_append_dropWhile] at skipped
  exact skipped.symm

theorem readTail?_attribute {offset length : Nat} {c : CodePoint} {text : Text} {attr : Attribute}
    (noBlank : c.isBlank = false) (noClose : c ≠ '>') (noSlash : c ≠ '/')
    (read : readAttribute? offset (c :: text) = some (attr, length + 1)) :
    readTail? offset (c :: text) =
      (readTail? (offset + (length + 1)) ((c :: text).drop (length + 1))).map fun tail =>
        { tail with attributes := attr :: tail.attributes } := by
  rw [readTail?.eq_def]
  simp only [noBlank, Bool.false_eq_true, ↓reduceIte]
  split
  · exact absurd rfl noClose
  · exact absurd rfl noSlash
  · rw [read]
    simp

theorem ne_of_nameStart {c d : CodePoint} (start : isNameStart c = true)
    (other : isNameStart d = false) : c ≠ d := by
  rintro rfl
  simp [start] at other

theorem drop_blankLength (text : Text) :
    text.drop (Text.blankLength text) = Text.dropBlank text := by
  calc text.drop (Text.blankLength text)
      = (text.takeWhile CodePoint.isBlank ++ text.dropWhile CodePoint.isBlank).drop
          (text.takeWhile CodePoint.isBlank).length := by
        rw [List.takeWhile_append_dropWhile, Text.blankLength]
    _ = Text.dropBlank text := by rw [List.drop_left, Text.dropBlank]

/-- An attribute that begins with a name has a value when an equals sign stands behind it. -/
theorem readAttribute?_named {name rest : Text} (named : isName isAttributeNamePart name = true)
    (stops : rest.head?.all (!isAttributeNamePart ·) = true) (start : Nat) :
    (∀ value, Text.dropBlank rest = .char '=' :: value →
      readAttribute? start (name ++ rest) =
        (readValue? (start + (name.length + Text.blankLength rest + 1 + Text.blankLength value))
          (Text.dropBlank value)).map fun (kind, stop, valueStart, valueStop) =>
            (⟨name, kind, start, stop, valueStart, valueStop⟩, stop - start)) ∧
    ((Text.dropBlank rest).head? ≠ some (.char '=') →
      readAttribute? start (name ++ rest) =
        some (⟨name, .boolean, start, start + name.length, start + name.length,
          start + name.length⟩, name.length + Text.blankLength rest)) := by
  cases name with
  | nil => simp [isName] at named
  | cons c name =>
    have noBrace : c ≠ '\x7b' := by
      simp only [isName, Bool.and_eq_true] at named
      exact ne_of_nameStart named.1 (by decide)
    have read := leadingName_append named stops
    rw [readAttribute?.eq_def]
    split
    · rename_i same
      exact absurd (List.cons.inj same).1 noBrace
    · simp only [read, List.isEmpty_cons, Bool.false_eq_true, ↓reduceIte, List.drop_left,
        drop_blankLength]
      split
      · rename_i value same
        simp [same]
      · rename_i other
        refine ⟨fun value same => absurd same (other value), fun _ => rfl⟩

theorem readAttribute?_valued {name before behind value : Text}
    (named : isName isAttributeNamePart name = true)
    (beforeBlank : before.all CodePoint.isBlank = true)
    (behindBlank : behind.all CodePoint.isBlank = true)
    (starts : value.head?.all (!·.isBlank) = true) (start : Nat) :
    readAttribute? start (name ++ (before ++ .char '=' :: (behind ++ value))) =
      (readValue? (start + name.length + before.length + 1 + behind.length) value).map
        fun (kind, stop, valueStart, valueStop) =>
          (⟨name, kind, start, stop, valueStart, valueStop⟩, stop - start) := by
  have stops : (before ++ .char '=' :: (behind ++ value)).head?.all (!isAttributeNamePart ·) =
      true := by
    cases before with
    | nil =>
      simp only [List.nil_append, List.head?_cons]
      decide
    | cons c before =>
      simp only [List.all_cons, Bool.and_eq_true] at beforeBlank
      simp [isAttributeNamePart_blank beforeBlank.1]
  have equals : (List.head? (.char '=' :: (behind ++ value))).all (!CodePoint.isBlank ·) =
      true := by
    simp only [List.head?_cons]
    decide
  rw [(readAttribute?_named named stops start).1 (behind ++ value)
    (dropWhile_append beforeBlank equals)]
  simp only [Text.dropBlank, Text.blankLength, takeWhile_append beforeBlank equals,
    dropWhile_append behindBlank starts, takeWhile_append behindBlank starts, Nat.add_assoc]

theorem ends_attributes {attributes : Attributes} {inValue : Bool}
    (valid : attributes.isValid inValue = true) {rest : Text} (ends : Ends rest) :
    Ends (attributes.print ++ rest) := by
  have starts {gap : Text} (isGap : isGap gap = true) {d : CodePoint} (noBlank : d.isBlank = false)
      (noEquals : d ≠ '=') (text : Text) : Ends (gap ++ d :: text) := by
    simp only [Tree.isGap, Bool.and_eq_true, Bool.not_eq_true', List.isEmpty_eq_false_iff] at isGap
    exact ends_space isGap.2 noBlank noEquals (.inl isGap.1) text
  have named {gap name : Text} (isGap : isGap gap = true)
      (named : isName isAttributeNamePart name = true) (text : Text) :
      Ends (gap ++ (name ++ text)) := by
    cases name with
    | nil => simp [isName] at named
    | cons c name =>
      simp only [isName, Bool.and_eq_true] at named
      exact starts isGap (isBlank_nameStart named.1) (ne_of_nameStart named.1 (by decide)) _
  cases attributes with
  | nil => exact ends
  | boolean gap name rest =>
    simp only [Attributes.isValid, Bool.and_eq_true] at valid
    simpa [Attributes.print] using named valid.1.1 valid.1.2 _
  | quoted gap name before behind mark value rest =>
    simp only [Attributes.isValid, Bool.and_eq_true] at valid
    simpa [Attributes.print] using named valid.1.1.1.1.1 valid.1.1.1.1.2 _
  | expression gap name before behind code rest =>
    simp only [Attributes.isValid, Bool.and_eq_true] at valid
    simpa [Attributes.print] using named valid.1.1.1.1.1.1 valid.1.1.1.1.1.2 _
  | spread gap code rest =>
    simp only [Attributes.isValid, Bool.and_eq_true] at valid
    simpa [Attributes.print, Text.ofString] using
      starts valid.1.1.1 (by decide) (by decide) _

theorem readTail?_named {offset length : Nat} {name rest : Text} {attr : Attribute}
    (named : isName isAttributeNamePart name = true)
    (read : readAttribute? offset (name ++ rest) = some (attr, length + 1)) :
    readTail? offset (name ++ rest) =
      (readTail? (offset + (length + 1)) ((name ++ rest).drop (length + 1))).map fun tail =>
        { tail with attributes := attr :: tail.attributes } := by
  cases name with
  | nil => simp [isName] at named
  | cons c name =>
    simp only [isName, Bool.and_eq_true] at named
    exact readTail?_attribute (isBlank_nameStart named.1) (ne_of_nameStart named.1 (by decide))
      (ne_of_nameStart named.1 (by decide)) read

/-- White space behind a name without a value is read with it. -/
theorem readTail?_boolean {name rest : Text} (named : isName isAttributeNamePart name = true)
    (ends : Ends rest) (offset : Nat) :
    readTail? offset (name ++ rest) =
      (readTail? (offset + name.length) rest).map fun tail =>
        { tail with
          attributes := ⟨name, .boolean, offset, offset + name.length, offset + name.length,
            offset + name.length⟩ :: tail.attributes } := by
  have stops : rest.head?.all (!isAttributeNamePart ·) = true := by
    have both := ends.1
    cases rest with
    | nil => rfl
    | cons c rest =>
      simp only [List.head?_cons, Option.all_some, Bool.and_eq_true] at both ⊢
      exact both.2
  have read := (readAttribute?_named named stops offset).2 ends.2
  cases name with
  | nil => simp [isName] at named
  | cons c name =>
    have consumed : (c :: name).length + Text.blankLength rest =
        name.length + Text.blankLength rest + 1 := by
      simp only [List.length_cons]
      omega
    rw [readTail?_named named (consumed ▸ read), ← consumed, ← Nat.add_assoc, ← List.drop_drop,
      List.drop_left, drop_blankLength, readTail?_dropBlank]

theorem readTail?_valued {name before behind value rest : Text} {kind : AttributeKind}
    {offset valueStart valueStop : Nat} (named : isName isAttributeNamePart name = true)
    (beforeBlank : before.all CodePoint.isBlank = true)
    (behindBlank : behind.all CodePoint.isBlank = true)
    (starts : (value ++ rest).head?.all (!·.isBlank) = true)
    (found : readValue? (offset + name.length + before.length + 1 + behind.length) (value ++ rest) =
      some (kind, offset + name.length + before.length + 1 + behind.length + value.length,
        valueStart, valueStop)) :
    readTail? offset (name ++ (before ++ .char '=' :: (behind ++ (value ++ rest)))) =
      (readTail? (offset + name.length + before.length + 1 + behind.length + value.length)
        rest).map fun tail =>
          { tail with
            attributes := ⟨name, kind, offset, offset + name.length + before.length + 1 +
              behind.length + value.length, valueStart, valueStop⟩ :: tail.attributes } := by
  have read := readAttribute?_valued named beforeBlank behindBlank starts offset
  have consumed : offset + name.length + before.length + 1 + behind.length + value.length -
      offset = name.length + before.length + behind.length + value.length + 1 := by
    omega
  rw [found, Option.map_some] at read
  simp only [consumed] at read
  rw [readTail?_named named read]
  have behind : (name ++ (before ++ .char '=' :: (behind ++ (value ++ rest)))).drop
      (name.length + before.length + behind.length + value.length + 1) = rest := by
    have shape : name ++ (before ++ .char '=' :: (behind ++ (value ++ rest))) =
        (name ++ before ++ .char '=' :: behind ++ value) ++ rest := by simp
    rw [shape]
    exact List.drop_left' (by simp only [List.length_append, List.length_cons]; omega)
  rw [behind]
  congr 2
  omega

/-- A text between braces. -/
def braced (content : Text) : Text := .char '\x7b' :: content ++ [.char '\x7d']

theorem length_braced (content : Text) : (braced content).length = 1 + (content.length + 1) := by
  simp [braced, Nat.add_comm]

theorem length_quoted (mark : CodePoint) (value : Text) : (mark :: value ++ [mark]).length = value.length + 2 := by
  simp

theorem readValue?_quoted {mark : CodePoint} (isMark : mark.isQuote = true) {value : Text}
    (absent : value.contains mark = false) (start : Nat) (rest : Text) :
    readValue? start ((mark :: value ++ [mark]) ++ rest) =
      some (.string, start + (mark :: value ++ [mark]).length, start, start + (mark :: value ++ [mark]).length) := by
  rw [length_quoted]
  simp [readValue?, isMark, indexOf?_append absent, Nat.add_assoc]

theorem readValue?_braced {code : Code} {before : CodePoint}
    (valid : code.isValid true before (some (.char '\x7d')) = true) (balanced : code.isBalanced = true)
    (start : Nat) (rest : Text) :
    readValue? start (braced code.print ++ rest) =
      some (.expression, start + (braced code.print).length, start + 1, start + 1 + code.print.length) := by
  have content := code.contentLength?_print valid balanced rest
  have noQuote : CodePoint.isQuote '\x7b' = false := by decide
  rw [length_braced]
  simp [braced, readValue?, noQuote, content]
  omega

theorem readTail?_spread {code : Code} (valid : code.isValid true '.' (some (.char '\x7d')) = true)
    (balanced : code.isBalanced = true) (offset : Nat) (rest : Text) :
    readTail? offset (braced code.dotted.print ++ rest) =
      (readTail? (offset + (4 + code.print.length + 1)) rest).map fun tail =>
        { tail with
          attributes := ⟨"...", .spread, offset, offset + (4 + (code.print.length + 1)), offset + 1,
            offset + (4 + code.print.length)⟩ :: tail.attributes } := by
  have dottedValid : code.dotted.isValid true '\x7b' (some (.char '\x7d')) = true := by
    simp only [Code.dotted, Code.isValid, valid, Bool.and_true]
    decide
  have content := code.dotted.contentLength?_print dottedValid balanced rest
  have size : code.dotted.print.length = code.print.length + 3 := by simp [Code.dotted, Code.print]
  have shape : braced code.dotted.print ++ rest =
      .char '\x7b' :: (code.dotted.print ++ .char '\x7d' :: rest) := by
    simp [braced]
  have read : readAttribute? offset (.char '\x7b' :: (code.dotted.print ++ .char '\x7d' :: rest)) =
      some (⟨"...", .spread, offset, offset + (4 + (code.print.length + 1)), offset + 1,
        offset + (4 + code.print.length)⟩, 4 + code.print.length + 1) := by
    simp [readAttribute?, content, size]
    omega
  have behind : (CodePoint.char '\x7b' :: (code.dotted.print ++ CodePoint.char '\x7d' :: rest)).drop
      (4 + code.print.length + 1) = rest := by
    simp [Code.dotted, Code.print, Nat.add_comm 4]
  rw [shape, readTail?_attribute (by decide) (by decide) (by decide) read, behind]

/-- Attributes are read with their kinds and spans, whatever is behind them. -/
theorem readTail?_print (attributes : Attributes) {inValue : Bool}
    (valid : attributes.isValid inValue = true) (offset : Nat) {rest : Text} (ends : Ends rest) :
    readTail? offset (attributes.print ++ rest) =
      (readTail? (offset + attributes.print.length) rest).map fun tail =>
        { tail with attributes := attributes.read offset ++ tail.attributes } := by
  match attributes with
  | .nil => simp [Attributes.print, Attributes.read]
  | .boolean gap name attributes =>
    simp only [Attributes.isValid, isGap, Bool.and_eq_true] at valid
    obtain ⟨⟨⟨-, gapBlank⟩, named⟩, others⟩ := valid
    have behind := readTail?_print attributes others (offset + gap.length + name.length) ends
    simp only [Attributes.print, List.append_assoc]
    rw [readTail?_space gapBlank, readTail?_boolean named (ends_attributes others ends), behind,
      Option.map_map]
    simp only [Attributes.read, List.length_append, Nat.add_assoc]
    rfl
  | .quoted gap name before behind mark value attributes =>
    simp only [Attributes.isValid, isGap, isQuotable, Bool.and_eq_true, Bool.not_eq_true'] at valid
    obtain ⟨⟨⟨⟨⟨⟨-, gapBlank⟩, named⟩, beforeBlank⟩, behindBlank⟩, ⟨isMark, absent⟩, -⟩, others⟩ :=
      valid
    have noBlank : mark.isBlank = false := by
      simp only [CodePoint.isQuote, Bool.or_eq_true, beq_iff_eq] at isMark
      rcases isMark with rfl | rfl <;> decide
    have shape : (Attributes.quoted gap name before behind mark value attributes).print ++ rest =
        gap ++ (name ++ (before ++ .char '=' :: (behind ++ ((mark :: value ++ [mark]) ++
          (attributes.print ++ rest))))) := by
      simp [Attributes.print, Text.ofString]
    have length : (Attributes.quoted gap name before behind mark value attributes).print.length =
        gap.length + name.length + before.length + 1 + behind.length + (value.length + 2) +
          attributes.print.length := by
      simp [Attributes.print, Text.ofString]
      omega
    rw [shape, readTail?_space gapBlank, readTail?_valued named beforeBlank behindBlank
      (by simp [noBlank]) (readValue?_quoted isMark absent _ _), readTail?_print attributes others _ ends,
      Option.map_map, length]
    simp only [Attributes.read, length_quoted, Nat.add_assoc]
    rfl
  | .expression gap name before behind code attributes =>
    simp only [Attributes.isValid, isGap, Bool.and_eq_true] at valid
    obtain ⟨⟨⟨label, codeValid⟩, balanced⟩, others⟩ := valid
    obtain ⟨⟨⟨⟨-, gapBlank⟩, named⟩, beforeBlank⟩, behindBlank⟩ := label
    have noBlank : CodePoint.isBlank '\x7b' = false := by decide
    have shape : (Attributes.expression gap name before behind code attributes).print ++ rest =
        gap ++ (name ++ (before ++ .char '=' :: (behind ++
          (braced code.print ++ (attributes.print ++ rest))))) := by
      simp [Attributes.print, Text.ofString, braced]
    have length : (Attributes.expression gap name before behind code attributes).print.length =
        gap.length + name.length + before.length + 1 + behind.length +
          (1 + (code.print.length + 1)) + attributes.print.length := by
      simp [Attributes.print, Text.ofString]
      omega
    rw [shape, readTail?_space gapBlank, readTail?_valued named beforeBlank behindBlank
      (by simp [braced, noBlank]) (readValue?_braced codeValid balanced _ _),
      readTail?_print attributes others _ ends, Option.map_map, length]
    simp only [Attributes.read, length_braced, Nat.add_assoc]
    rfl
  | .spread gap code attributes =>
    simp only [Attributes.isValid, isGap, Bool.and_eq_true] at valid
    obtain ⟨⟨⟨⟨-, gapBlank⟩, codeValid⟩, balanced⟩, others⟩ := valid
    have shape : (Attributes.spread gap code attributes).print ++ rest =
        gap ++ (braced code.dotted.print ++ (attributes.print ++ rest)) := by
      simp [Attributes.print, Text.ofString, Code.dotted, Code.print, braced]
    have length : (Attributes.spread gap code attributes).print.length =
        gap.length + (4 + (code.print.length + 1)) + attributes.print.length := by
      simp [Attributes.print, Text.ofString]
      omega
    rw [shape, readTail?_space gapBlank, readTail?_spread codeValid balanced,
      readTail?_print attributes others _ ends, Option.map_map, length]
    simp only [Attributes.read, Nat.add_assoc]
    rfl

/-- How an opening tag ends. -/
def tagEnd (isSelfClosing : Bool) : Text := if isSelfClosing then "/>" else ">"

theorem readTail?_tagEnd (isSelfClosing : Bool) (offset : Nat) (rest : Text) :
    readTail? offset (tagEnd isSelfClosing ++ rest) =
      some ⟨[], offset + (tagEnd isSelfClosing).length, isSelfClosing⟩ := by
  have noBlank : CodePoint.isBlank '>' = false ∧ CodePoint.isBlank '/' = false := by decide
  cases isSelfClosing <;> rw [readTail?.eq_def] <;> simp [tagEnd, Text.ofString, noBlank]

theorem ends_tagEnd {space : Text} (blank : space.all CodePoint.isBlank = true)
    (isSelfClosing : Bool) (rest : Text) : Ends (space ++ (tagEnd isSelfClosing ++ rest)) := by
  cases isSelfClosing with
  | false => exact ends_space blank (by decide) (by decide) (.inr (by decide)) _
  | true => exact ends_space blank (by decide) (by decide) (.inr (by decide)) _

/-- An opening tag is read with its name, its span and its attributes. -/
theorem readElement?_print {tag space : Text} {attributes : Attributes} {inValue : Bool}
    (named : isName isTagNamePart tag = true) (valid : attributes.isValid inValue = true)
    (blank : space.all CodePoint.isBlank = true) (isSelfClosing : Bool) (start : Nat)
    (rest : Text) :
    readElement? start (tag ++ (attributes.print ++ (space ++ (tagEnd isSelfClosing ++ rest)))) =
      some (⟨tag, start, start + 1 + tag.length + attributes.print.length + space.length +
        (tagEnd isSelfClosing).length, attributes.read (start + 1 + tag.length)⟩,
        isSelfClosing) := by
  have ends := ends_tagEnd blank isSelfClosing rest
  have stops : (attributes.print ++ (space ++ (tagEnd isSelfClosing ++ rest))).head?.all
      (!isTagNamePart ·) = true := by
    have both := (ends_attributes valid ends).1
    revert both
    cases attributes.print ++ (space ++ (tagEnd isSelfClosing ++ rest)) with
    | nil => simp
    | cons c rest =>
      simp only [List.head?_cons, Option.all_some, Bool.and_eq_true]
      exact And.left
  have nonempty : tag.isEmpty = false := by
    cases tag with
    | nil => simp [isName] at named
    | cons c tag => rfl
  simp only [readElement?, leadingName_append named stops, nonempty, Bool.false_eq_true,
    ↓reduceIte, List.drop_left, readTail?_print attributes valid _ ends,
    readTail?_space blank, readTail?_tagEnd, Option.map_some, List.append_nil]

end StaticStyle.Markup.Tree
