import StaticStyle.Markup.Call
import StaticStyle.Proofs.Expression.Code
import StaticStyle.Proofs.Markup.Elements
import StaticStyle.Proofs.Markup.Span

namespace StaticStyle.Markup.Tree

open Expression (isNamePart)

/-- A text with a parenthesis behind words and blanks, the first of which is a word. -/
inductive OpensCall : Bool → Text → Prop
  | opening {rest : Text} : OpensCall true (.char '(' :: rest)
  | blank {c : CodePoint} {rest : Text} (isBlank : c.isBlank = true) (opens : OpensCall true rest) :
    OpensCall true (c :: rest)
  | word {afterWord : Bool} {c : CodePoint} {rest : Text} (isPart : isNamePart c = true)
    (opens : OpensCall true rest) : OpensCall afterWord (c :: rest)

/-- Whether a code point stands between the beginning of a call and its arguments. -/
def leadsToCall (c : CodePoint) : Bool := isNamePart c || c.isBlank || c == '('

namespace OpensCall

theorem leads {afterWord : Bool} {c : CodePoint} {rest : Text}
    (opens : OpensCall afterWord (c :: rest)) : leadsToCall c = true := by
  cases opens with
  | opening => decide
  | blank isBlank => simp [leadsToCall, isBlank]
  | word isPart => simp [leadsToCall, isPart]

theorem isNamePart_of_first {c : CodePoint} {rest : Text} (opens : OpensCall false (c :: rest)) :
    isNamePart c = true := by
  cases opens with
  | word isPart => exact isPart

/-- What stands behind a code point that leads to no call does not matter. -/
theorem in_front_of_stop {afterWord : Bool} {before behind : Text} {c : CodePoint}
    (opens : OpensCall afterWord (before ++ c :: behind)) (stops : leadsToCall c = false) (other : Text) :
    OpensCall afterWord (before ++ other) := by
  induction before generalizing afterWord with
  | nil => simp [opens.leads] at stops
  | cons d before ih =>
    cases opens with
    | opening => exact .opening
    | blank isBlank opens => exact .blank isBlank (ih opens)
    | word isPart opens => exact .word isPart (ih opens)

/-- Nothing else stands in front of the parenthesis. -/
theorem mem_of_stop {afterWord : Bool} {before behind : Text} {c : CodePoint}
    (opens : OpensCall afterWord (before ++ c :: behind)) (stops : leadsToCall c = false) :
    .char '(' ∈ before := by
  induction before generalizing afterWord with
  | nil => simp [opens.leads] at stops
  | cons d before ih =>
    cases opens with
    | opening => exact List.mem_cons_self
    | blank _ opens | word _ opens => exact List.mem_cons_of_mem _ (ih opens)

end OpensCall

theorem isQuote_stops {c : CodePoint} (isQuote : c.isQuote = true) : leadsToCall c = false := by
  rcases Bool.or_eq_true_iff.mp isQuote with same | same <;> rw [beq_iff_eq.mp same] <;> decide

/-- No call begins at the beginning of calm code. -/
theorem Code.not_opensCall {code : Code} {inValue : Bool} {before : CodePoint} {next : Option CodePoint}
    {afterWord : Bool} (valid : code.isValid inValue before next = true) (calm : code.isCalm afterWord = true) (behind : Text) :
    ¬ OpensCall afterWord (code.print ++ .char '\x7d' :: behind) := by
  intro opens
  match code with
  | .nil => exact absurd opens.leads (by decide)
  | .plain c rest =>
    simp only [Code.isValid, Bool.and_eq_true] at valid
    simp only [Code.isCalm] at calm
    rw [Code.print, List.cons_append] at opens
    cases opens with
    | opening => exact absurd valid.1 (by decide)
    | blank isBlank opens =>
      rw [isBlank, Bool.and_self, Bool.or_true] at calm
      exact Code.not_opensCall valid.2 calm behind opens
    | word isPart opens =>
      rw [isPart, Bool.true_or] at calm
      exact Code.not_opensCall valid.2 calm behind opens
  | .quoted mark body rest =>
    simp only [Code.isValid, Bool.and_eq_true] at valid
    have leads : leadsToCall mark = true := OpensCall.leads opens
    simp [isQuote_stops valid.1.1] at leads
  | .lineComment body rest | .blockComment body rest =>
    exact absurd (OpensCall.leads (c := .char '/') opens) (by decide)
  | .opening bracket rest =>
    rw [Code.print, List.cons_append] at opens
    cases bracket with
    | round =>
      cases opens with
      | opening => simp [Code.isCalm] at calm
      | blank isBlank => exact absurd isBlank (by decide)
      | word isPart => exact absurd isPart (by decide)
    | square | curly => exact absurd opens.leads (by decide)
  | .closing bracket rest =>
    rw [Code.print, List.cons_append] at opens
    cases bracket <;> exact absurd opens.leads (by decide)
  | .operator _ _ | .template _ _ | .node _ _ => simp [Code.isCalm] at calm

/-- Whether every call in code begins in an opaque range. -/
def Code.HidesCalls (code : Code) : Prop :=
  ∀ (behind : Text) (offset distance : Nat), distance < code.print.length →
    OpensCall false ((code.print ++ .char '\x7d' :: behind).drop distance) →
      ∃ extent ∈ code.opaqueExtents offset, extent.contains (offset + distance) = true

private theorem Code.HidesCalls.step {code rest : Code} {c : CodePoint} (hides : rest.HidesCalls)
    (print : code.print = c :: rest.print)
    (extents : ∀ offset, code.opaqueExtents offset = rest.opaqueExtents (offset + 1))
    (first : ∀ behind, ¬ OpensCall false (code.print ++ .char '\x7d' :: behind)) :
    code.HidesCalls := by
  intro behind offset distance inside opens
  cases distance with
  | zero => exact absurd opens (first behind)
  | succ distance =>
    rw [print] at inside opens
    have found := hides behind (offset + 1) distance (Nat.lt_of_succ_lt_succ inside) opens
    rwa [← extents, Nat.add_assoc, Nat.add_comm 1] at found

private theorem Code.HidesCalls.cover {code rest : Code} (hides : rest.HidesCalls) (piece : Text)
    (print : code.print = piece ++ rest.print)
    (extents : ∀ offset, code.opaqueExtents offset =
      ⟨offset, offset + piece.length⟩ :: rest.opaqueExtents (offset + piece.length)) :
    code.HidesCalls := by
  intro behind offset distance inside opens
  rw [extents]
  by_cases within : distance < piece.length
  · refine ⟨_, List.mem_cons_self, ?_⟩
    simp only [Extent.contains, Bool.and_eq_true, decide_eq_true_eq]
    omega
  · rw [print, List.length_append] at inside
    rw [print, List.append_assoc, List.drop_append, List.drop_eq_nil_of_le (Nat.not_lt.mp within),
      List.nil_append] at opens
    obtain ⟨extent, member, contains⟩ :=
      hides behind (offset + piece.length) (distance - piece.length) (by omega) opens
    refine ⟨extent, List.mem_cons_of_mem _ member, ?_⟩
    rwa [Nat.add_assoc, Nat.add_sub_cancel' (Nat.not_lt.mp within)] at contains

/-- Every call in calm code begins in an opaque range. -/
theorem Code.hidesCalls (code : Code) {inValue : Bool} {before : CodePoint} {next : Option CodePoint}
    (valid : code.isValid inValue before next = true) (calm : code.isCalm false = true) :
    code.HidesCalls := by
  have first := Code.not_opensCall valid calm
  match code with
  | .nil =>
    intro behind offset distance inside
    simp [Code.print] at inside
  | .plain c rest =>
    simp only [Code.isValid, Bool.and_eq_true] at valid
    exact (rest.hidesCalls valid.2 (rest.isCalm_mono calm nofun)).step rfl (fun _ => rfl) first
  | .opening bracket rest =>
    simp only [Code.isValid] at valid
    simp only [Code.isCalm, Bool.false_and, Bool.not_false, Bool.true_and] at calm
    have hides := rest.hidesCalls valid calm
    exact hides.step rfl (fun _ => rfl) first
  | .closing bracket rest =>
    simp only [Code.isValid] at valid
    have hides := rest.hidesCalls valid calm
    exact hides.step rfl (fun _ => rfl) first
  | .quoted mark body rest =>
    simp only [Code.isValid, Bool.and_eq_true] at valid
    exact (rest.hidesCalls valid.2 calm).cover (quotation mark body) rfl fun _ => rfl
  | .lineComment body rest =>
    simp only [Code.isValid, Bool.and_eq_true] at valid
    have size : ("//" ++ body ++ "\n" : Text).length = body.length + 3 := by simp [Text.ofString]
    refine (rest.hidesCalls valid.2 calm).cover ("//" ++ body ++ "\n") rfl fun offset => ?_
    rw [size]
    rfl
  | .blockComment body rest =>
    simp only [Code.isValid, Bool.and_eq_true] at valid
    have size : ("/*" ++ body ++ "*/" : Text).length = body.length + 4 := by simp [Text.ofString]
    refine (rest.hidesCalls valid.2 calm).cover ("/*" ++ body ++ "*/") rfl fun offset => ?_
    rw [size]
    rfl
  | .operator _ _ | .template _ _ | .node _ _ => simp [Code.isCalm] at calm

/-- An element that closes itself and has code as its only attribute. -/
def Node.holding (tag name : Text) (code : Code) : Node :=
  .selfClosing tag (.expression " " name [] [] code .nil) " "

/-- What stands in front of the brace of such an element. -/
def heading (tag name : Text) : Text := "<" ++ tag ++ " " ++ name ++ "="

/-- Elements that hold code, with a line feed behind each. -/
def listing (tag name : Text) : List Code → Code
  | [] => .nil
  | code :: codes => .node (.holding tag name code) (.plain '\n' (listing tag name codes))

section

variable {tag name : Text}

theorem length_heading : (heading tag name).length = tag.length + name.length + 3 := by
  simp [heading, Text.ofString]
  omega

theorem print_listing (code : Code) (codes : List Code) :
    (listing tag name (code :: codes)).print =
      heading tag name ++ .char '\x7b' :: (code.print ++ .char '\x7d' ::
        (Text.ofString " />\n" ++ (listing tag name codes).print)) := by
  simp [listing, heading, Node.holding, Code.print, Node.print, Attributes.print, Text.ofString]

theorem opaqueExtents_listing (code : Code) (codes : List Code) (offset : Nat) :
    (listing tag name (code :: codes)).opaqueExtents offset =
      code.opaqueExtents (offset + ((heading tag name).length + 1)) ++
        (listing tag name codes).opaqueExtents
          (offset + ((heading tag name).length + 1) + (code.print.length + 5)) := by
  have length : (Node.holding tag name code).print.length + 1 =
      (heading tag name).length + 1 + (code.print.length + 5) := by
    simp [length_heading, Node.holding, Node.print, Attributes.print, Text.ofString]
    omega
  have start : offset + 1 + tag.length + 1 + name.length + 0 + 1 + 0 + 1 =
      offset + ((heading tag name).length + 1) := by
    rw [length_heading]
    omega
  rw [listing, Code.opaqueExtents, Code.opaqueExtents, Nat.add_assoc offset, length, ← Nat.add_assoc]
  refine congrArg (· ++ _) ?_
  rw [← start, ← List.append_nil (code.opaqueExtents _)]
  rfl

/-- Every call in a listing begins in an opaque range. -/
theorem opaque_of_listing (noCall : .char '(' ∉ heading tag name) {codes : List Code}
    (hides : ∀ code ∈ codes, code.HidesCalls) (offset : Nat) {distance : Nat}
    (opens : OpensCall false ((listing tag name codes).print.drop distance)) :
    ∃ extent ∈ (listing tag name codes).opaqueExtents offset,
      extent.contains (offset + distance) = true := by
  induction codes generalizing offset distance with
  | nil =>
    rw [listing, Code.print, List.drop_nil] at opens
    cases opens
  | cons code codes ih =>
    rw [print_listing] at opens
    rw [opaqueExtents_listing]
    by_cases ahead : distance ≤ (heading tag name).length
    · rw [List.drop_append_of_le_length ahead] at opens
      have call := opens.mem_of_stop (by decide)
      exact absurd (List.mem_of_mem_drop call) noCall
    obtain ⟨inner, rfl⟩ := Nat.exists_eq_add_of_le (Nat.lt_of_not_le ahead)
    rw [Nat.succ_add, ← Nat.add_succ, List.drop_append, List.drop_eq_nil_of_le (Nat.le_add_right _ _),
      List.nil_append, Nat.add_sub_cancel_left, List.drop_succ_cons] at opens
    by_cases inside : inner < code.print.length
    · obtain ⟨extent, member, contains⟩ :=
        hides code List.mem_cons_self _ (offset + ((heading tag name).length + 1)) inner inside opens
      exact ⟨extent, List.mem_append_left _ member, by rwa [Nat.succ_eq_add_one, ← Nat.add_assoc]⟩
    obtain ⟨behind, rfl⟩ := Nat.exists_eq_add_of_le (Nat.le_of_not_lt inside)
    rw [List.drop_append, List.drop_eq_nil_of_le (Nat.le_add_right _ _), List.nil_append,
      Nat.add_sub_cancel_left] at opens
    match behind with
    | 0 | 1 | 2 | 3 | 4 => exact absurd opens.isNamePart_of_first (by decide)
    | behind + 5 =>
      obtain ⟨extent, member, contains⟩ := ih (fun code member => hides code (List.mem_cons_of_mem _ member))
        (offset + ((heading tag name).length + 1) + (code.print.length + 5)) opens
      have same : offset + ((heading tag name).length + 1) + (code.print.length + 5) + behind =
          offset + ((heading tag name).length.succ + (code.print.length + (behind + 5))) := by omega
      exact ⟨extent, List.mem_append_right _ member, same ▸ contains⟩

/-- The codes of a listing that can be read back from it. -/
structure Code.IsContent (code : Code) : Prop where
  valid : code.isValid true '\x7b' (some (.char '\x7d')) = true
  balanced : code.isBalanced = true
  calm : code.isCalm false = true

/-- How the tag and the attribute of a listing are written. -/
structure AreNames (tag name : Text) : Prop where
  tag : isName isTagNamePart tag = true
  name : isName isAttributeNamePart name = true

theorem AreNames.noCall (names : AreNames tag name) : .char '(' ∉ heading tag name := by
  have absent {isPart : CodePoint → Bool} (other : isPart '(' = false) {text : Text}
      (named : isName isPart text = true) : .char '(' ∉ text := by
    cases text with
    | nil => exact List.not_mem_nil
    | cons c rest =>
      obtain ⟨starts, parts⟩ := Bool.and_eq_true_iff.mp named
      intro member
      rcases List.mem_cons.mp member with rfl | member
      · exact absurd starts (by decide)
      · simp [List.all_eq_true.mp parts _ member] at other
  have noTag := absent (by decide) names.tag
  have noName := absent (by decide) names.name
  simp [heading, Text.ofString, noTag, noName]

theorem isValid_listing (names : AreNames tag name) {codes : List Code}
    (contents : ∀ code ∈ codes, code.IsContent) :
    (listing tag name codes).isValid false '\n' none = true := by
  induction codes with
  | nil => rfl
  | cons code codes ih =>
    obtain ⟨content, others⟩ := List.forall_mem_cons.mp contents
    have front : endsOperand (some (.char '\n')) = false := by decide
    have feed : isPlain (.char '\n') = true := by decide
    have space : isGap " " = true := by decide
    have blank : (Text.ofString " ").all CodePoint.isBlank = true := by decide
    simp [listing, Node.holding, Code.isValid, Node.isValid, Attributes.isValid, names.tag, names.name,
      content.valid, content.balanced, ih others, front, feed, space, blank]

theorem unclosed_listing (codes : List Code) : (listing tag name codes).unclosed [] = some [] := by
  induction codes with
  | nil => rfl
  | cons code codes ih => rw [listing, Code.unclosed, Code.unclosed, ih]

theorem Code.openings_of_isCalm (code : Code) {afterWord : Bool} (calm : code.isCalm afterWord = true)
    (offset : Nat) : code.openings offset = [] := by
  match code with
  | .nil => rfl
  | .plain _ rest => exact rest.openings_of_isCalm calm _
  | .opening _ rest =>
    simp only [Code.isCalm, Bool.and_eq_true] at calm
    exact rest.openings_of_isCalm calm.2 _
  | .closing _ rest | .quoted _ _ rest | .lineComment _ rest | .blockComment _ rest =>
    exact rest.openings_of_isCalm calm _
  | .operator _ _ | .template _ _ | .node _ _ => simp [Code.isCalm] at calm

/-- Whether the opaque ranges of code that begins at an offset are inside of it. -/
def Code.KeepsInside (code : Code) : Prop :=
  ∀ offset, ∀ extent ∈ code.opaqueExtents offset, offset ≤ extent.start ∧ extent.stop ≤ offset + code.print.length

private theorem Code.KeepsInside.step {code rest : Code} (inside : rest.KeepsInside) (piece : Text)
    (print : code.print = piece ++ rest.print)
    (extents : ∀ offset, code.opaqueExtents offset = rest.opaqueExtents (offset + piece.length) ∨
      code.opaqueExtents offset = ⟨offset, offset + piece.length⟩ :: rest.opaqueExtents (offset + piece.length)) :
    code.KeepsInside := by
  intro offset extent member
  rw [print, List.length_append]
  have behind (member : extent ∈ rest.opaqueExtents (offset + piece.length)) :
      offset ≤ extent.start ∧ extent.stop ≤ offset + (piece.length + rest.print.length) := by
    obtain ⟨low, high⟩ := inside _ extent member
    omega
  rcases extents offset with same | same
  · exact behind (same ▸ member)
  · rw [same] at member
    rcases List.mem_cons.mp member with rfl | member
    · dsimp only
      omega
    · exact behind member

/-- The opaque ranges of calm code are inside of it. -/
theorem Code.keepsInside (code : Code) {afterWord : Bool} (calm : code.isCalm afterWord = true) : code.KeepsInside := by
  match code with
  | .nil =>
    intro offset
    exact List.forall_mem_nil _
  | .plain c rest => exact (rest.keepsInside calm).step [c] rfl fun _ => .inl rfl
  | .opening bracket rest =>
    exact (rest.keepsInside (Bool.and_eq_true_iff.mp calm).2).step [bracket.opening] rfl fun _ => .inl rfl
  | .closing bracket rest => exact (rest.keepsInside calm).step [bracket.closing] rfl fun _ => .inl rfl
  | .quoted mark body rest => exact (rest.keepsInside calm).step (quotation mark body) rfl fun _ => .inr rfl
  | .lineComment body rest =>
    have size : ("//" ++ body ++ "\n" : Text).length = body.length + 3 := by simp [Text.ofString]
    refine (rest.keepsInside calm).step ("//" ++ body ++ "\n") rfl fun _ => .inr ?_
    rw [size]
    rfl
  | .blockComment body rest =>
    have size : ("/*" ++ body ++ "*/" : Text).length = body.length + 4 := by simp [Text.ofString]
    refine (rest.keepsInside calm).step ("/*" ++ body ++ "*/") rfl fun _ => .inr ?_
    rw [size]
    rfl
  | .operator _ _ | .template _ _ | .node _ _ => simp [Code.isCalm] at calm

/-- An element of a listing that begins at an offset and holds code of a length. -/
def heldElement (tag name : Text) (offset length : Nat) : Element :=
  let valueStart := offset + ((heading tag name).length + 1)
  ⟨tag, offset, valueStart + length + 4,
    [⟨name, .expression, offset + (tag.length + 2), valueStart + length + 1, valueStart,
      valueStart + length⟩]⟩

theorem openings_listing {code : Code} (calm : code.isCalm false = true) (codes : List Code)
    (offset : Nat) :
    (listing tag name (code :: codes)).openings offset =
      heldElement tag name offset code.print.length ::
        (listing tag name codes).openings
          (offset + ((heading tag name).length + 1) + (code.print.length + 5)) := by
  have length : (Node.holding tag name code).print.length + 1 =
      (heading tag name).length + 1 + (code.print.length + 5) := by
    simp [length_heading, Node.holding, Node.print, Attributes.print, Text.ofString]
    omega
  have element : (Node.holding tag name code).openings offset =
      [heldElement tag name offset code.print.length] := by
    have inside := code.openings_of_isCalm calm
    simp [Node.holding, Node.openings, Attributes.openings, Attributes.read, Attributes.print, inside,
      heldElement, length_heading, Text.ofString]
    omega
  rw [listing, Code.openings, Code.openings, Nat.add_assoc offset, length, ← Nat.add_assoc, element]
  rfl

end

theorem opensCall_of_blanks {text : Text}
    (opens : (text.drop (Text.blankLength text)).head? = some (.char '(')) : OpensCall true text := by
  induction text with
  | nil => simp at opens
  | cons c rest ih =>
    by_cases isBlank : c.isBlank = true
    · rw [Text.blankLength, List.takeWhile_cons_of_pos isBlank, List.length_cons,
        List.drop_succ_cons] at opens
      exact .blank isBlank (ih opens)
    · rw [Text.blankLength, List.takeWhile_cons_of_neg isBlank, List.length_nil, List.drop_zero,
        List.head?_cons, Option.some.injEq] at opens
      subst opens
      exact .opening

theorem OpensCall.named {callee rest : Text} (named : callee.all isNamePart = true)
    (opens : OpensCall true rest) : OpensCall true (callee ++ rest) := by
  induction callee with
  | nil => exact opens
  | cons c callee ih =>
    obtain ⟨first, others⟩ := Bool.and_eq_true_iff.mp (List.all_cons.symm.trans named)
    exact .word first (ih others)

theorem opensCall_of_distance {c : CodePoint} {callee text : Text} {distance : Nat}
    (named : (c :: callee).all isNamePart = true)
    (found : Call.openingDistance? (c :: callee) text = some distance) : OpensCall false text := by
  obtain ⟨rest, dropped, found⟩ := Option.bind_eq_some_iff.mp found
  dsimp only at found
  split at found
  · rename_i opens
    obtain ⟨first, others⟩ := Bool.and_eq_true_iff.mp (List.all_cons.symm.trans named)
    rw [Text.dropLeading?_eq dropped]
    exact .word first ((opensCall_of_blanks opens).named others)
  · cases found

theorem getElem?_of_distance {callee text : Text} {distance : Nat}
    (found : Call.openingDistance? callee text = some distance) : text[distance]? = some (.char '(') := by
  obtain ⟨rest, dropped, found⟩ := Option.bind_eq_some_iff.mp found
  dsimp only at found
  split at found
  · rename_i opens
    rw [Text.dropLeading?_eq dropped, ← Option.some.inj found, List.getElem?_append_right (Nat.le_add_right _ _),
      Nat.add_sub_cancel_left, ← opens, List.head?_drop]
  · cases found

/-- A candidate begins where its name stands with a parenthesis behind it, and no name goes on there. -/
theorem distance_of_candidate {callee : Text} {before : Option CodePoint} {offset : Nat} {text : Text}
    {start opening : Nat} (member : (start, opening) ∈ Call.candidates callee before offset text) :
    ∃ ahead distance, start = offset + ahead ∧ opening = start + distance ∧
      Call.continuesName ((text.take ahead).getLast?.or before) = false ∧
        Call.openingDistance? callee (text.drop ahead) = some distance := by
  fun_induction Call.candidates callee before offset text with
  | case1 => simp at member
  | case2 before offset c rest found distance opens ih =>
    simp only [found] at opens
    split at opens
    · cases opens
    · rename_i free
      rcases List.mem_cons.mp member with same | member
      · obtain ⟨rfl, rfl⟩ := Prod.mk.inj same
        exact ⟨0, distance, rfl, rfl, by simpa using free, opens⟩
      · obtain ⟨ahead, distance', rfl, rfl, apart, found⟩ := ih member
        have last : (List.take (distance + 1) (c :: rest)).getLast? = some (.char '(') := by
          rw [List.getLast?_take, if_neg (Nat.succ_ne_zero _), Nat.add_sub_cancel, getElem?_of_distance opens,
            Option.some_or]
        refine ⟨distance + 1 + ahead, distance', by omega, rfl, ?_, ?_⟩
        · rwa [List.take_add, List.getLast?_append, last, List.drop_succ_cons, Option.or_assoc, Option.some_or]
        · rwa [← List.drop_drop, List.drop_succ_cons]
  | case3 before offset c rest _ _ ih =>
    obtain ⟨ahead, distance, rfl, rfl, apart, found⟩ := ih member
    refine ⟨ahead + 1, distance, by omega, rfl, ?_, found⟩
    rwa [List.take_succ_cons, List.getLast?_cons, Option.some_or, ← Option.or_some]

/-- A listing contains no call. -/
theorem calls_listing {tag name callee : Text} (names : AreNames tag name) {codes : List Code}
    (contents : ∀ code ∈ codes, code.IsContent) (c : CodePoint)
    (named : (c :: callee).all isNamePart = true) :
    calls (c :: callee) (listing tag name codes).print = [] := by
  have surveyed := Code.survey_print (isValid_listing names contents) (unclosed_listing codes)
  have hides (code : Code) (member : code ∈ codes) : code.HidesCalls :=
    code.hidesCalls (contents code member).valid (contents code member).calm
  rw [calls, List.filterMap_eq_nil_iff]
  rintro ⟨start, opening⟩ candidate
  obtain ⟨ahead, distance, begins, -, -, found⟩ := distance_of_candidate candidate
  obtain ⟨extent, member, contains⟩ :=
    opaque_of_listing names.noCall hides 0 (opensCall_of_distance named found)
  have hidden : (Markup.survey (listing tag name codes).print).isOpaque start = true := by
    rw [surveyed, begins]
    exact List.any_eq_true.mpr ⟨extent, member, contains⟩
  dsimp only
  rw [Call.ofCandidate?, hidden]
  rfl

theorem elements_listing {tag name : Text} (names : AreNames tag name) {codes : List Code}
    (contents : ∀ code ∈ codes, code.IsContent) :
    elements (listing tag name codes).print = (listing tag name codes).openings 0 :=
  Code.elements_eq_openings (isValid_listing names contents) (unclosed_listing codes)

end StaticStyle.Markup.Tree
