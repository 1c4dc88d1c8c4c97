import StaticStyle.Proofs.Markup.Calm
import StaticStyle.Proofs.Markup.Splice

namespace StaticStyle.Markup.Tree

open Expression (isNamePart)

mutual
/-- Where a letter stands in code that begins at an offset, other than in what is quoted and in comments. -/
def Code.spots (letter : CodePoint) (offset : Nat) : Code → List Nat
  | .nil => []
  | .plain c rest => (if c = letter then [offset] else []) ++ rest.spots letter (offset + 1)
  | .operator _ rest | .opening _ rest | .closing _ rest => rest.spots letter (offset + 1)
  | .quoted mark body rest => rest.spots letter (offset + (quotation mark body).length)
  | .template content rest =>
    content.spots letter (offset + 1) ++ rest.spots letter (offset + content.print.length + 2)
  | .lineComment body rest => rest.spots letter (offset + body.length + 3)
  | .blockComment body rest => rest.spots letter (offset + body.length + 4)
  | .node node rest => node.spots letter offset ++ rest.spots letter (offset + node.print.length)

def Template.spots (letter : CodePoint) (offset : Nat) : Template → List Nat
  | .text _ => []
  | .code body code rest =>
    let start := offset + (body.flatMap Stroke.print).length + 2
    code.spots letter start ++ rest.spots letter (start + code.print.length + 1)

def Node.spots (letter : CodePoint) (offset : Nat) : Node → List Nat
  | .selfClosing tag attributes _ => attributes.spots letter (offset + 1 + tag.length)
  | .paired tag attributes space children =>
    let inside := offset + 1 + tag.length
    attributes.spots letter inside ++
      children.spots letter (inside + attributes.print.length + space.length + 1)
  | .fragment children => children.spots letter (offset + 2)

/-- The names of attributes are no code, but their values are. -/
def Attributes.spots (letter : CodePoint) (offset : Nat) : Attributes → List Nat
  | .nil => []
  | .boolean gap name rest => rest.spots letter (offset + gap.length + name.length)
  | .quoted gap name before behind _ value rest =>
    rest.spots letter (offset + gap.length + name.length + before.length + 1 + behind.length + value.length + 2)
  | .expression gap name before behind code rest =>
    let valueStart := offset + gap.length + name.length + before.length + 1 + behind.length + 1
    code.spots letter valueStart ++ rest.spots letter (valueStart + code.print.length + 1)
  | .spread gap code rest =>
    let valueStart := offset + gap.length + 4
    code.spots letter valueStart ++ rest.spots letter (valueStart + code.print.length + 1)

def Children.spots (letter : CodePoint) (offset : Nat) : Children → List Nat
  | .text _ => []
  | .node text node rest =>
    let start := offset + text.length
    node.spots letter start ++ rest.spots letter (start + node.print.length)
  | .code text code rest =>
    let start := offset + text.length + 1
    code.spots letter start ++ rest.spots letter (start + code.print.length + 1)
end

section

variable {letter : CodePoint}

mutual

theorem Code.spots_add (code : Code) (offset distance : Nat) :
    code.spots letter (offset + distance) = (code.spots letter offset).map (· + distance) := by
  match code with
  | .nil => rfl
  | .plain c rest =>
    rw [Code.spots, Code.spots, Nat.add_right_comm, Code.spots_add rest, List.map_append]
    split <;> rfl
  | .operator _ rest | .opening _ rest | .closing _ rest | .quoted _ _ rest | .lineComment _ rest
  | .blockComment _ rest =>
    simp only [Code.spots, Nat.add_right_comm _ distance, Code.spots_add rest]
  | .template content rest =>
    simp only [Code.spots, Nat.add_right_comm _ distance, Template.spots_add content, Code.spots_add rest,
      List.map_append]
  | .node inner rest =>
    simp only [Code.spots, Nat.add_right_comm _ distance, Node.spots_add inner, Code.spots_add rest, List.map_append]

theorem Template.spots_add (template : Template) (offset distance : Nat) :
    template.spots letter (offset + distance) = (template.spots letter offset).map (· + distance) := by
  match template with
  | .text _ => rfl
  | .code body inner rest =>
    simp only [Template.spots, Nat.add_right_comm _ distance, Code.spots_add inner, Template.spots_add rest,
      List.map_append]

theorem Node.spots_add (node : Node) (offset distance : Nat) :
    node.spots letter (offset + distance) = (node.spots letter offset).map (· + distance) := by
  match node with
  | .selfClosing tag attributes space =>
    simp only [Node.spots, Nat.add_right_comm _ distance, Attributes.spots_add attributes]
  | .paired tag attributes space children =>
    simp only [Node.spots, Nat.add_right_comm _ distance, Attributes.spots_add attributes,
      Children.spots_add children, List.map_append]
  | .fragment children => simp only [Node.spots, Nat.add_right_comm _ distance, Children.spots_add children]

theorem Attributes.spots_add (attributes : Attributes) (offset distance : Nat) :
    attributes.spots letter (offset + distance) = (attributes.spots letter offset).map (· + distance) := by
  match attributes with
  | .nil => rfl
  | .boolean _ _ rest | .quoted _ _ _ _ _ _ rest =>
    simp only [Attributes.spots, Nat.add_right_comm _ distance, Attributes.spots_add rest]
  | .expression _ _ _ _ inner rest | .spread _ inner rest =>
    simp only [Attributes.spots, Nat.add_right_comm _ distance, Code.spots_add inner, Attributes.spots_add rest,
      List.map_append]

theorem Children.spots_add (children : Children) (offset distance : Nat) :
    children.spots letter (offset + distance) = (children.spots letter offset).map (· + distance) := by
  match children with
  | .text _ => rfl
  | .node _ inner rest =>
    simp only [Children.spots, Nat.add_right_comm _ distance, Node.spots_add inner, Children.spots_add rest,
      List.map_append]
  | .code _ inner rest =>
    simp only [Children.spots, Nat.add_right_comm _ distance, Code.spots_add inner, Children.spots_add rest,
      List.map_append]

end

end

@[simp] theorem Code.spots_append (letter : CodePoint) (code code' : Code) (offset : Nat) :
    (code.append code').spots letter offset =
      code.spots letter offset ++ code'.spots letter (offset + code.print.length) := by
  match code with
  | .nil => rfl
  | .plain _ rest | .operator _ rest | .quoted _ _ rest | .opening _ rest | .closing _ rest | .node _ rest =>
    simp [Code.append, Code.spots, Code.print, Code.spots_append letter rest, Nat.add_assoc, Nat.add_comm,
      Nat.add_left_comm]
  | .template content rest =>
    rw [Code.stop_template, Code.append, Code.spots, Code.spots_append letter rest, Code.spots, List.append_assoc]
  | .lineComment body rest =>
    rw [Code.stop_lineComment]
    exact Code.spots_append letter rest code' _
  | .blockComment body rest =>
    rw [Code.stop_blockComment]
    exact Code.spots_append letter rest code' _

/-- Plain text without the letter in front of code. -/
theorem Code.spots_plains {letter : CodePoint} {text : Text} (absent : letter ∉ text) (rest : Code) (offset : Nat) :
    (plains text rest).spots letter offset = rest.spots letter (offset + text.length) := by
  induction text generalizing offset with
  | nil => rfl
  | cons c text ih =>
    obtain ⟨other, absent⟩ := List.ne_and_not_mem_of_not_mem_cons absent
    have inside := ih absent (offset + 1)
    simp only [plains, List.foldr_cons, Code.spots, List.length_cons, if_neg other.symm, List.nil_append] at inside ⊢
    rw [inside, Nat.add_assoc, Nat.add_comm 1]

/-- Code is its stripped form between blanks, and letters stand in that only. -/
theorem Code.spots_strip {letter : CodePoint} (visible : letter.isBlank = false) (code : Code) :
    ∃ front back : Text, front.all CodePoint.isBlank = true ∧ back.all CodePoint.isBlank = true ∧
      code.print = front ++ (code.strip.print ++ back) ∧
      ∀ offset, code.spots letter offset = code.strip.spots letter (offset + front.length) := by
  obtain ⟨front, back, blank, blank', same⟩ := exists_blanks code
  have absent {text : Text} (blank : text.all CodePoint.isBlank = true) : letter ∉ text := fun member => by
    rw [List.all_eq_true.mp blank letter member] at visible
    cases visible
  refine ⟨front, back, blank, blank', ?_, fun offset => ?_⟩
  · calc
      code.print
      _ = (plains front (code.strip.append (plains back .nil))).print := by rw [← same]
      _ = front ++ (code.strip.print ++ back) := by simp [print]
  · calc
      code.spots letter offset
      _ = (plains front (code.strip.append (plains back .nil))).spots letter offset := by rw [← same]
      _ = code.strip.spots letter (offset + front.length) := by
        rw [Code.spots_plains (absent blank), Code.spots_append, Code.spots_plains (absent blank'), Code.spots,
          List.append_nil]

/-- A text without parentheses opens no call if none is opened behind it. -/
theorem not_opensCall_append {text behind : Text} (quiet : .char '(' ∉ text) (behindQuiet : ¬ OpensCall true behind) :
    ¬ OpensCall true (text ++ behind) := by
  induction text with
  | nil => exact behindQuiet
  | cons c text ih =>
    obtain ⟨other, quiet⟩ := List.ne_and_not_mem_of_not_mem_cons quiet
    intro opens
    cases opens with
    | opening => exact other rfl
    | blank _ opens | word _ opens => exact ih quiet opens

/-- A text without parentheses, at the end of which no call goes on. -/
structure Stops (text : Text) : Prop where
  quiet : .char '(' ∉ text
  ends : text.getLast?.any (!leadsToCall ·) = true

theorem Stops.prepend {text front : Text} (quiet : .char '(' ∉ front) (stops : Stops text) : Stops (front ++ text) := by
  refine ⟨by simp [quiet, stops.quiet], ?_⟩
  obtain ⟨c, last, stop⟩ := (Option.any_eq_true _ _).mp stops.ends
  simp [List.getLast?_append, last, stop]

theorem Stops.drop {text : Text} (stops : Stops text) {distance : Nat} (inside : distance < text.length) :
    Stops (text.drop distance) := by
  refine ⟨fun member => stops.quiet (List.mem_of_mem_drop member), ?_⟩
  rw [List.getLast?_drop, if_neg (by omega)]
  exact stops.ends

theorem Stops.not_opensCall {text : Text} (stops : Stops text) (behind : Text) : ¬ OpensCall true (text ++ behind) := by
  obtain ⟨c, last, stop⟩ := (Option.any_eq_true _ _).mp stops.ends
  obtain ⟨front, rfl⟩ := List.getLast?_eq_some_iff.mp last
  rw [List.append_assoc]
  refine not_opensCall_append (fun member => stops.quiet (List.mem_append_left _ member)) fun opens => ?_
  simp [opens.leads] at stop

theorem notMem_blank {gap : Text} (blank : gap.all CodePoint.isBlank = true) : .char '(' ∉ gap :=
  fun member => absurd (List.all_eq_true.mp blank _ member) (by decide)

theorem notMem_gap {gap : Text} (gapped : isGap gap = true) : .char '(' ∉ gap :=
  notMem_blank (Bool.and_eq_true_iff.mp gapped).2

theorem notMem_name {isPart : CodePoint → Bool} {name : Text} (named : isName isPart name = true)
    (other : isPart '(' = false) : .char '(' ∉ name := by
  cases name with
  | nil => simp
  | cons c name =>
    simp only [isName, Bool.and_eq_true] at named
    rintro (_ | ⟨_, member⟩)
    · exact absurd named.1 (by decide)
    · simp [List.all_eq_true.mp named.2 _ member] at other

theorem Attributes.not_opensCall (attributes : Attributes) {inValue : Bool}
    (valid : attributes.isValid inValue = true) {behind : Text} (quiet : ¬ OpensCall true behind) :
    ¬ OpensCall true (attributes.print ++ behind) := by
  match attributes with
  | .nil => exact quiet
  | .boolean gap name rest =>
    simp only [isValid, Bool.and_eq_true] at valid
    rw [print, List.append_assoc]
    refine not_opensCall_append ?_ (Attributes.not_opensCall rest valid.2 quiet)
    simp [notMem_gap valid.1.1, notMem_name valid.1.2 (by decide)]
  | .quoted gap name before after mark value rest =>
    simp only [isValid, Bool.and_eq_true] at valid
    obtain ⟨⟨⟨⟨⟨gapped, named⟩, blank⟩, -⟩, -⟩, -⟩ := valid
    have stops : Stops (gap ++ name ++ before ++ "=") := .prepend
      (by simp [notMem_gap gapped, notMem_name named (by decide), notMem_blank blank]) ⟨by decide, by decide⟩
    simpa [print] using stops.not_opensCall (after ++ [mark] ++ value ++ [mark] ++ rest.print ++ behind)
  | .expression gap name before after code rest =>
    simp only [isValid, Bool.and_eq_true] at valid
    obtain ⟨⟨⟨⟨⟨⟨gapped, named⟩, blank⟩, -⟩, -⟩, -⟩, -⟩ := valid
    have stops : Stops (gap ++ name ++ before ++ "=") := .prepend
      (by simp [notMem_gap gapped, notMem_name named (by decide), notMem_blank blank]) ⟨by decide, by decide⟩
    simpa [print] using stops.not_opensCall (after ++ "\x7b" ++ code.print ++ "\x7d" ++ rest.print ++ behind)
  | .spread gap code rest =>
    simp only [isValid, Bool.and_eq_true] at valid
    have stops : Stops (gap ++ "\x7b...") := .prepend (notMem_gap valid.1.1.1) ⟨by decide, by decide⟩
    simpa [print] using stops.not_opensCall (code.print ++ "\x7d" ++ rest.print ++ behind)

/-- A word that begins with a letter, with a parenthesis behind words and blanks. -/
structure Begins (letter : CodePoint) (text : Text) : Prop where
  first : text.head? = some letter
  opens : OpensCall true text

/-- In a part of a text that stands at an offset, calls begin at some places and in some opaque ranges only, and the
places are not in these ranges. -/
structure Shows (letter : CodePoint) (part behind : Text) (offset : Nat) (extents : List Extent) (spots : List Nat) :
    Prop where
  extents_in : ∀ extent ∈ extents, offset ≤ extent.start ∧ extent.stop ≤ offset + part.length
  spots_in : ∀ spot ∈ spots, offset ≤ spot ∧ spot < offset + part.length
  apart : ∀ spot ∈ spots, ∀ extent ∈ extents, extent.contains spot = false
  covers : ∀ distance < part.length, Begins letter ((part ++ behind).drop distance) →
    offset + distance ∈ spots ∨ ∃ extent ∈ extents, extent.contains (offset + distance) = true

namespace Shows

variable {letter : CodePoint} {part part' behind : Text} {offset : Nat} {extents extents' : List Extent}
  {spots spots' : List Nat}

theorem nil : Shows letter [] behind offset [] [] := ⟨by simp, by simp, by simp, nofun⟩

/-- The order of the ranges does not matter. -/
theorem reorder (shows : Shows letter part behind offset extents spots)
    (same : ∀ extent, extent ∈ extents' ↔ extent ∈ extents) : Shows letter part behind offset extents' spots where
  extents_in extent member := shows.extents_in extent ((same extent).mp member)
  spots_in := shows.spots_in
  apart spot member extent member' := shows.apart spot member extent ((same extent).mp member')
  covers distance inside begins := by
    refine (shows.covers distance inside begins).imp_right fun found => ?_
    exact found.imp fun extent known => known.imp_left (same extent).mpr

theorem append (shows : Shows letter part (part' ++ behind) offset extents spots) {offset' : Nat}
    (further : offset + part.length = offset') (others : Shows letter part' behind offset' extents' spots') :
    Shows letter (part ++ part') behind offset (extents ++ extents') (spots ++ spots') := by
  subst further
  have bound : offset + (part ++ part').length = offset + part.length + part'.length := by
    rw [List.length_append, Nat.add_assoc]
  refine ⟨fun extent member => ?_, fun spot member => ?_, fun spot member extent member' => ?_,
    fun distance inside begins => ?_⟩
  · rcases List.mem_append.mp member with member | member
    · have within := shows.extents_in extent member
      omega
    · have within := others.extents_in extent member
      omega
  · rcases List.mem_append.mp member with member | member
    · have within := shows.spots_in spot member
      omega
    · have within := others.spots_in spot member
      omega
  · rcases List.mem_append.mp member with member | member <;> rcases List.mem_append.mp member' with member' | member'
    · exact shows.apart spot member extent member'
    · have within := shows.spots_in spot member
      have within' := others.extents_in extent member'
      simp only [Extent.contains, Bool.and_eq_false_iff, decide_eq_false_iff_not]
      omega
    · have within := others.spots_in spot member
      have within' := shows.extents_in extent member'
      simp only [Extent.contains, Bool.and_eq_false_iff, decide_eq_false_iff_not]
      omega
    · exact others.apart spot member extent member'
  · by_cases front : distance < part.length
    · rw [List.append_assoc] at begins
      refine (shows.covers distance front begins).imp (List.mem_append_left _) ?_
      exact fun found => found.imp fun extent known => known.imp_left (List.mem_append_left _)
    · obtain ⟨distance, rfl⟩ := Nat.exists_eq_add_of_le (Nat.not_lt.mp front)
      rw [List.length_append] at inside
      rw [List.append_assoc, ← List.drop_drop, List.drop_left] at begins
      rw [← Nat.add_assoc]
      refine (others.covers distance (by omega) begins).imp (List.mem_append_right _) ?_
      exact fun found => found.imp fun extent known => known.imp_left (List.mem_append_right _)

theorem whole {stop : Nat} (further : offset + part.length = stop) :
    Shows letter part behind offset [⟨offset, stop⟩] [] := by
  subst further
  refine ⟨by simp, by simp, by simp, fun distance inside _ => .inr ⟨_, List.mem_singleton_self _, ?_⟩⟩
  simp only [Extent.contains, Bool.and_eq_true, decide_eq_true_eq]
  omega

/-- A part that is one opaque range unless it is empty. -/
theorem text {stop : Nat} (further : offset + part.length = stop) :
    Shows letter part behind offset (extent offset stop) [] := by
  cases part with
  | nil =>
    rw [extent, if_neg (by simp at further; omega)]
    exact .nil
  | cons c part =>
    rw [extent, if_pos (by simp at further; omega)]
    exact .whole further

theorem none (quiet : ∀ distance < part.length, ¬ Begins letter ((part ++ behind).drop distance)) :
    Shows letter part behind offset [] [] :=
  ⟨by simp, by simp, by simp, fun distance inside begins => absurd begins (quiet distance inside)⟩

theorem quiet (quiet : .char '(' ∉ part) (behindQuiet : ¬ OpensCall true behind) :
    Shows letter part behind offset [] [] := by
  refine .none fun distance inside begins => ?_
  have opens := begins.opens
  rw [List.drop_append_of_le_length (Nat.le_of_lt inside)] at opens
  exact not_opensCall_append (fun member => quiet (List.mem_of_mem_drop member)) behindQuiet opens

theorem stop (stops : Stops part) : Shows letter part behind offset [] [] := by
  refine .none fun distance inside begins => ?_
  have opens := begins.opens
  rw [List.drop_append_of_le_length (Nat.le_of_lt inside)] at opens
  exact (stops.drop inside).not_opensCall behind opens

theorem plain (c : CodePoint) : Shows letter [c] behind offset [] (if c = letter then [offset] else []) := by
  refine ⟨by simp, ?_, by simp, fun distance inside begins => .inl ?_⟩
  · split <;> simp
  · obtain rfl : distance = 0 := by simpa using inside
    have first : c = letter := by simpa using begins.first
    simp [first]

/-- A code point that is no letter. -/
theorem sign (isLetter : isNamePart letter = true) {c : CodePoint} (other : isNamePart c = false) :
    Shows letter [c] behind offset [] [] := by
  have single : Shows letter [c] behind offset [] (if c = letter then [offset] else []) := plain c
  rwa [if_neg] at single
  rintro rfl
  rw [isLetter] at other
  cases other

theorem value (isLetter : isNamePart letter = true) (inside : ∀ behind, Shows letter part behind offset extents spots)
    {start : Nat} (further : offset + part.length + 1 = start) (others : Shows letter part' behind start extents' spots') :
    Shows letter (part ++ ("\x7d" ++ part')) behind offset (extents ++ extents') (spots ++ spots') := by
  have ending : Shows letter "\x7d" (part' ++ behind) (offset + part.length) [] [] := .sign isLetter (by decide)
  exact (inside _).append rfl (ending.append further others)

end Shows

section

variable {letter : CodePoint}

mutual

/-- In code, calls begin at the places of their letters. -/
theorem Code.shows (isLetter : isNamePart letter = true) (code : Code) {inValue : Bool} {before : CodePoint}
    {next : Option CodePoint} (valid : code.isValid inValue before next = true) (behind : Text) (offset : Nat) :
    Shows letter code.print behind offset (code.opaqueExtents offset) (code.spots letter offset) := by
  match code with
  | .nil => exact .nil
  | .plain c rest =>
    simp only [Code.isValid, Bool.and_eq_true] at valid
    exact (Shows.plain c).append rfl (Code.shows isLetter rest valid.2 behind _)
  | .operator sign rest =>
    simp only [Code.isValid, Bool.and_eq_true] at valid
    have noLetter : isNamePart sign = false := by
      rcases isOperator_cases valid.1 with rfl | rfl <;> decide
    exact (Shows.sign isLetter noLetter).append rfl (Code.shows isLetter rest valid.2 behind _)
  | .opening bracket rest =>
    have noLetter : isNamePart bracket.opening = false := by cases bracket <;> decide
    exact (Shows.sign isLetter noLetter).append rfl (Code.shows isLetter rest valid behind _)
  | .closing bracket rest =>
    have noLetter : isNamePart bracket.closing = false := by cases bracket <;> decide
    exact (Shows.sign isLetter noLetter).append rfl (Code.shows isLetter rest valid behind _)
  | .quoted mark body rest =>
    simp only [Code.isValid, Bool.and_eq_true] at valid
    exact (Shows.whole rfl).append rfl (Code.shows isLetter rest valid.2 behind _)
  | .template content rest =>
    simp only [Code.isValid, Bool.and_eq_true] at valid
    have inside := Template.shows isLetter content valid.1 "\x60" (rest.print ++ behind) offset
    have further : offset + ("\x60" ++ content.print ++ "\x60" : Text).length = offset + content.print.length + 2 := by
      simp [Text.ofString]
      omega
    have mark : (Text.ofString "\x60").length = 1 := rfl
    have whole := inside.append further (Code.shows isLetter rest valid.2 behind _)
    simpa [Code.print, Code.opaqueExtents, Code.spots, mark] using whole
  | .lineComment body rest =>
    simp only [Code.isValid, Bool.and_eq_true] at valid
    have stop : offset + ("//" ++ body ++ "\n" : Text).length = offset + body.length + 3 := by
      simp [Text.ofString]
      omega
    exact (Shows.whole stop).append stop (Code.shows isLetter rest valid.2 behind _)
  | .blockComment body rest =>
    simp only [Code.isValid, Bool.and_eq_true] at valid
    have stop : offset + ("/*" ++ body ++ "*/" : Text).length = offset + body.length + 4 := by
      simp [Text.ofString]
      omega
    exact (Shows.whole stop).append stop (Code.shows isLetter rest valid.2 behind _)
  | .node inner rest =>
    simp only [Code.isValid, Bool.and_eq_true] at valid
    exact (Node.shows isLetter inner valid.1.2 _ offset).append rfl (Code.shows isLetter rest valid.2 behind _)

/-- The text of a template may begin in front of it, and its last mark belongs to it. -/
theorem Template.shows (isLetter : isNamePart letter = true) (template : Template) {inValue : Bool}
    (valid : template.isValid inValue = true) (lead behind : Text) (since : Nat) :
    Shows letter (lead ++ template.print ++ "\x60") behind since
      (template.opaqueExtents since (since + lead.length)) (template.spots letter (since + lead.length)) := by
  match template with
  | .text body =>
    refine .text ?_
    simp [Template.print, Text.ofString]
    omega
  | .code body inner rest =>
    simp only [Template.isValid, Bool.and_eq_true] at valid
    obtain ⟨⟨⟨-, codeValid⟩, -⟩, valid⟩ := valid
    let stop := since + lead.length + (body.flatMap Stroke.print).length
    have text (behind : Text) : Shows letter (lead ++ body.flatMap Stroke.print) behind since (extent since stop) [] :=
      .text (by simp [stop]; omega)
    have opening (behind : Text) : Shows letter "$\x7b" behind stop [] [] := .stop ⟨by decide, by decide⟩
    have others := Template.shows isLetter rest valid [] behind (stop + 2 + inner.print.length + 1)
    have values := Shows.value isLetter (Code.shows isLetter inner codeValid · (stop + 2)) rfl others
    have whole := (text _).append (by simp [stop]; omega) ((opening _).append rfl values)
    simpa [Template.print, Template.opaqueExtents, Template.spots, stop] using whole

theorem Node.shows (isLetter : isNamePart letter = true) (node : Node) {inValue : Bool}
    (valid : node.isValid inValue = true) (behind : Text) (offset : Nat) :
    Shows letter node.print behind offset (node.opaqueExtents offset) (node.spots letter offset) := by
  match node with
  | .selfClosing tag attributes space =>
    simp only [Node.isValid, Bool.and_eq_true] at valid
    obtain ⟨⟨named, inside⟩, blank⟩ := valid
    have stops : Stops (space ++ "/>") := .prepend (notMem_blank blank) ⟨by decide, by decide⟩
    have outside := stops.not_opensCall behind
    have heading : Shows letter ("<" ++ tag) (attributes.print ++ (space ++ "/>") ++ behind) offset [] [] := by
      refine .quiet (by simp [notMem_name named (by decide), Text.ofString]) ?_
      rw [List.append_assoc]
      exact Attributes.not_opensCall attributes inside outside
    have further : offset + ("<" ++ tag : Text).length = offset + 1 + tag.length := by
      simp [Text.ofString]
      omega
    let stop := offset + 1 + tag.length + attributes.print.length + space.length + 2
    have values := Attributes.shows isLetter attributes inside outside tag offset stop (offset + 1 + tag.length)
    have whole := heading.append further (values.append rfl (.stop stops))
    simpa [Node.print, Node.opaqueExtents, Node.spots] using whole
  | .paired tag attributes space children =>
    simp only [Node.isValid, Bool.and_eq_true] at valid
    obtain ⟨⟨⟨named, inside⟩, blank⟩, valid⟩ := valid
    have noName : .char '(' ∉ tag := notMem_name named (by decide)
    have stops : Stops (space ++ ">") := .prepend (notMem_blank blank) ⟨by decide, by decide⟩
    have closes : Stops ("</" ++ tag ++ ">") := .prepend (by simp [noName, Text.ofString]) ⟨by decide, by decide⟩
    have outside : ¬ OpensCall true (space ++ ">" ++ (children.print ++ ("</" ++ tag ++ ">")) ++ behind) := by
      rw [List.append_assoc]
      exact stops.not_opensCall _
    have heading : Shows letter ("<" ++ tag)
        (attributes.print ++ (space ++ ">" ++ (children.print ++ ("</" ++ tag ++ ">"))) ++ behind) offset [] [] := by
      refine .quiet (by simp [noName, Text.ofString]) ?_
      rw [List.append_assoc]
      exact Attributes.not_opensCall attributes inside outside
    have further : offset + ("<" ++ tag : Text).length = offset + 1 + tag.length := by
      simp [Text.ofString]
      omega
    let stop := offset + 1 + tag.length + attributes.print.length + space.length + 1
    have further' : offset + 1 + tag.length + attributes.print.length + (space ++ ">" : Text).length = stop := by
      simp [Text.ofString, stop]
      omega
    have values := Attributes.shows isLetter attributes inside outside tag offset stop (offset + 1 + tag.length)
    have whole := heading.append further (values.append rfl ((Shows.stop stops).append further'
      ((Children.shows isLetter children valid _ stop).append rfl (.stop closes))))
    simpa [Node.print, Node.opaqueExtents, Node.spots] using whole
  | .fragment children =>
    have heading : Shows letter "<>" (children.print ++ "</>" ++ behind) offset [] [] := .stop ⟨by decide, by decide⟩
    have ending (start : Nat) : Shows letter "</>" behind start [] [] := .stop ⟨by decide, by decide⟩
    have further : offset + ("<>" : Text).length = offset + 2 := rfl
    have whole := heading.append further ((Children.shows isLetter children valid _ _).append rfl (ending _))
    simpa [Node.print, Node.opaqueExtents, Node.spots] using whole

/-- The values in quotation marks are opaque as well. -/
theorem Attributes.shows (isLetter : isNamePart letter = true) (attributes : Attributes) {inValue : Bool}
    (valid : attributes.isValid inValue = true) {behind : Text} (quiet : ¬ OpensCall true behind) (tag : Text)
    (start stop offset : Nat) :
    Shows letter attributes.print behind offset
      (Element.quotedExtents ⟨tag, start, stop, attributes.read offset⟩ ++ attributes.opaqueExtents offset)
      (attributes.spots letter offset) := by
  match attributes with
  | .nil => exact .nil
  | .boolean gap name rest =>
    simp only [Attributes.isValid, Bool.and_eq_true] at valid
    have front : .char '(' ∉ gap ++ name := by simp [notMem_gap valid.1.1, notMem_name valid.1.2 (by decide)]
    have first : Shows letter (gap ++ name) (rest.print ++ behind) offset [] [] :=
      .quiet front (Attributes.not_opensCall rest valid.2 quiet)
    have further : offset + (gap ++ name).length = offset + gap.length + name.length := by
      rw [List.length_append, Nat.add_assoc]
    exact first.append further (Attributes.shows isLetter rest valid.2 quiet tag start stop _)
  | .quoted gap name before after mark value rest =>
    simp only [Attributes.isValid, Bool.and_eq_true] at valid
    obtain ⟨⟨⟨⟨⟨gapped, named⟩, blank⟩, blank'⟩, quotable⟩, others⟩ := valid
    have isMark : mark.isQuote = true := by
      simp only [isQuotable, Bool.and_eq_true] at quotable
      exact quotable.1.1
    have front : .char '(' ∉ gap ++ name ++ before ++ "=" ++ after := by
      simp [notMem_gap gapped, notMem_name named (by decide), notMem_blank blank, notMem_blank blank', Text.ofString]
    let valueStart := offset + gap.length + name.length + before.length + 1 + after.length
    have heading : Shows letter (gap ++ name ++ before ++ "=" ++ after)
        ([mark] ++ value ++ [mark] ++ rest.print ++ behind) offset [] [] := by
      refine .quiet front fun opens => ?_
      have leads := OpensCall.leads opens
      simp [isQuote_stops isMark] at leads
    have further : offset + (gap ++ name ++ before ++ "=" ++ after).length = valueStart := by
      simp [valueStart, Text.ofString]
      omega
    have further' : valueStart + ([mark] ++ value ++ [mark]).length = valueStart + value.length + 2 := by
      simp
      omega
    have whole := heading.append further ((Shows.text further').append further'
      (Attributes.shows isLetter rest others quiet tag start stop _))
    simpa [Attributes.print, Attributes.opaqueExtents, Attributes.read, Attributes.spots, Element.quotedExtents]
      using whole
  | .expression gap name before after inner rest =>
    simp only [Attributes.isValid, Bool.and_eq_true] at valid
    obtain ⟨⟨⟨⟨⟨⟨gapped, named⟩, blank⟩, blank'⟩, inside⟩, -⟩, others⟩ := valid
    have front : .char '(' ∉ gap ++ name ++ before ++ "=" ++ after := by
      simp [notMem_gap gapped, notMem_name named (by decide), notMem_blank blank, notMem_blank blank', Text.ofString]
    let valueStart := offset + gap.length + name.length + before.length + 1 + after.length + 1
    have heading : Shows letter (gap ++ name ++ before ++ "=" ++ after ++ "\x7b")
        (inner.print ++ ("\x7d" ++ rest.print) ++ behind) offset [] [] :=
      .stop (.prepend front ⟨by decide, by decide⟩)
    have further : offset + (gap ++ name ++ before ++ "=" ++ after ++ "\x7b").length = valueStart := by
      simp [valueStart, Text.ofString]
      omega
    have values := Shows.value isLetter (Code.shows isLetter inner inside · valueStart) rfl
      (Attributes.shows isLetter rest others quiet tag start stop _)
    have same : (Attributes.expression gap name before after inner rest).print =
        gap ++ name ++ before ++ "=" ++ after ++ "\x7b" ++ (inner.print ++ ("\x7d" ++ rest.print)) := by
      simp [Attributes.print]
    rw [same]
    refine (heading.append further values).reorder fun extent => ?_
    simp only [Element.quotedExtents, Attributes.read, Attributes.opaqueExtents, List.flatMap_cons, List.nil_append,
      List.mem_append, valueStart]
    exact or_left_comm
  | .spread gap inner rest =>
    simp only [Attributes.isValid, Bool.and_eq_true] at valid
    obtain ⟨⟨⟨gapped, inside⟩, -⟩, others⟩ := valid
    have heading : Shows letter (gap ++ "\x7b...") (inner.print ++ ("\x7d" ++ rest.print) ++ behind) offset [] [] :=
      .stop (.prepend (notMem_gap gapped) ⟨by decide, by decide⟩)
    have further : offset + (gap ++ "\x7b...").length = offset + gap.length + 4 := by
      simp [Text.ofString]
      omega
    have values := Shows.value isLetter (Code.shows isLetter inner inside · (offset + gap.length + 4)) rfl
      (Attributes.shows isLetter rest others quiet tag start stop _)
    have same : (Attributes.spread gap inner rest).print =
        gap ++ "\x7b..." ++ (inner.print ++ ("\x7d" ++ rest.print)) := by
      simp [Attributes.print]
    rw [same]
    refine (heading.append further values).reorder fun extent => ?_
    simp only [Element.quotedExtents, Attributes.read, Attributes.opaqueExtents, List.flatMap_cons, List.nil_append,
      List.mem_append]
    exact or_left_comm

theorem Children.shows (isLetter : isNamePart letter = true) (children : Children) {inValue : Bool}
    (valid : children.isValid inValue = true) (behind : Text) (offset : Nat) :
    Shows letter children.print behind offset (children.opaqueExtents offset) (children.spots letter offset) := by
  match children with
  | .text text => exact .text rfl
  | .node text inner rest =>
    simp only [Children.isValid, Bool.and_eq_true] at valid
    have first : Shows letter text (inner.print ++ rest.print ++ behind) offset
        (extent offset (offset + text.length)) [] := .text rfl
    have whole := first.append rfl ((Node.shows isLetter inner valid.1.2 _ _).append rfl
      (Children.shows isLetter rest valid.2 behind _))
    simpa [Children.print, Children.opaqueExtents, Children.spots] using whole
  | .code text inner rest =>
    simp only [Children.isValid, Bool.and_eq_true] at valid
    have first : Shows letter text ("\x7b" ++ (inner.print ++ ("\x7d" ++ rest.print)) ++ behind) offset
        (extent offset (offset + text.length)) [] := .text rfl
    have opening : Shows letter "\x7b" (inner.print ++ ("\x7d" ++ rest.print) ++ behind) (offset + text.length) [] [] :=
      .sign isLetter (by decide)
    have values := Shows.value isLetter
      (Code.shows isLetter inner valid.1.1.2 · (offset + text.length + 1)) rfl
      (Children.shows isLetter rest valid.2 behind _)
    have whole := first.append rfl (opening.append rfl values)
    simpa [Children.print, Children.opaqueExtents, Children.spots] using whole

end

end

end StaticStyle.Markup.Tree
