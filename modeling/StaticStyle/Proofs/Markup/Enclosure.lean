import StaticStyle.Proofs.Markup.Tree

namespace StaticStyle

/-- A code point that the search passes over in code, whatever is around it. -/
def isNeutral (c : CodePoint) : Bool :=
  !c.isQuote && c != '\x60' && c != '/' && (Bracket.ofOpening? c).isNone &&
    (Bracket.ofClosing? c).isNone

theorem map_add_map (found : Option Nat) (m n : Nat) :
    (found.map (· + m)).map (· + n) = found.map (· + (n + m)) := by
  cases found <;> simp [Nat.add_comm, Nat.add_left_comm]

/-- The step of the search at a code point inside some brackets, where `inner` is what encloses the
code point within them: what encloses the next one, and how many code points are passed over. -/
def turn? (inner : List Enclosure) (c : CodePoint) (next : Option CodePoint) :
    Option (List Enclosure × Nat) :=
  match inner with
  | .quoted mark :: outer =>
    if c = '\\' then some (inner, 2)
    else if c = mark ∨ c.isLineFeed then some (outer, 1) else some (inner, 1)
  | .template :: outer =>
    if c = '\\' then some (inner, 2)
    else if c = '\x60' then some (outer, 1)
    else if c = '$' ∧ next = some (.char '\x7b') then some (.bracket .curly :: inner, 2)
    else some (inner, 1)
  | .lineComment :: outer => if c.isLineFeed then some (outer, 1) else some (inner, 1)
  | .blockComment :: outer =>
    if c = '*' ∧ next = some (.char '/') then some (outer, 2) else some (inner, 1)
  | inner =>
    if c.isQuote then some (.quoted c :: inner, 1)
    else if c = '\x60' then some (.template :: inner, 1)
    else if c = '/' ∧ next = some (.char '/') then some (.lineComment :: inner, 2)
    else if c = '/' ∧ next = some (.char '*') then some (.blockComment :: inner, 2)
    else
      match Bracket.ofOpening? c, Bracket.ofClosing? c, inner with
      | some bracket, _, _ => some (.bracket bracket :: inner, 1)
      | none, some other, .bracket bracket :: outer =>
        if other = bracket then some (outer, 1) else none
      | none, some _, _ => none
      | none, none, _ => some (inner, 1)

private theorem not_pair {c d e : CodePoint} {rest : Text}
    (other : ∀ rest' : Text, c = d → rest = e :: rest' → False) :
    ¬(c = d ∧ rest.head? = some e) := by
  rintro ⟨same, head⟩
  obtain ⟨rest', rfl⟩ := List.head?_eq_some_iff.mp head
  exact other rest' same rfl

theorem closingDistance?_nil (enclosures : List Enclosure) :
    closingDistance? enclosures [] = none := by
  rw [closingDistance?.eq_def]

theorem closingDistance?_turn (inner : List Enclosure) (bracket : Bracket)
    (outer : List Enclosure) (c : CodePoint) (rest : Text)
    (within : inner = [] → Bracket.ofClosing? c = none) :
    closingDistance? (inner ++ .bracket bracket :: outer) (c :: rest) =
      (turn? inner c rest.head?).bind fun (inner, length) =>
        (closingDistance? (inner ++ .bracket bracket :: outer) ((c :: rest).drop length)).map
          (· + length) := by
  rw [closingDistance?.eq_def]
  match inner with
  | .quoted mark :: inner =>
    cases rest <;> simp only [turn?, List.cons_append] <;> split <;> (try split) <;>
      simp [closingDistance?_nil]
  | .template :: inner =>
    simp only [turn?, List.cons_append]
    split
    · cases rest <;> simp [closingDistance?_nil]
    · split
      · simp
      · split
        · simp
        · rename_i other
          rw [if_neg (not_pair other)]
          simp
  | .lineComment :: inner =>
    simp only [turn?, List.cons_append]
    split <;> simp
  | .blockComment :: inner =>
    simp only [turn?, List.cons_append]
    split
    · simp
    · rename_i other
      rw [if_neg (not_pair other)]
      simp
  | .bracket innermost :: inner =>
    have deep : (inner ++ .bracket bracket :: outer).isEmpty = false := by simp
    simp only [turn?, List.cons_append]
    split
    · simp
    · split
      · simp
      · split
        · simp
        · simp
        · rename_i noLine noBlock
          simp only [not_pair noLine, not_pair noBlock, ↓reduceIte]
          cases Bracket.ofOpening? c with
          | some inner => simp
          | none =>
            cases Bracket.ofClosing? c with
            | none => simp
            | some other => by_cases same : other = innermost <;> simp [same, deep]
  | [] =>
    simp only [turn?, List.nil_append]
    split
    · simp
    · split
      · simp
      · split
        · simp
        · simp
        · rename_i noLine noBlock
          simp only [not_pair noLine, not_pair noBlock, ↓reduceIte, within rfl]
          cases Bracket.ofOpening? c <;> simp

example : turn? [] '(' none = some ([.bracket .round], 1) := by cbv

example : Bracket.curly.contentLength? "a(')' // ]\n)\x7d" = some 12 := by cbv

private theorem closingDistance?_of_turn {inner inner' : List Enclosure} {bracket : Bracket}
    {outer : List Enclosure} {c : CodePoint} {rest : Text} {length : Nat}
    (turned : turn? inner c rest.head? = some (inner', length))
    (within : inner = [] → Bracket.ofClosing? c = none) :
    closingDistance? (inner ++ .bracket bracket :: outer) (c :: rest) =
      (closingDistance? (inner' ++ .bracket bracket :: outer) ((c :: rest).drop length)).map
        (· + length) := by
  rw [closingDistance?_turn inner bracket outer c rest within, turned, Option.bind_some]

section Steps

variable (bracket : Bracket) (outer : List Enclosure) (rest : Text)

theorem closingDistance?_neutral {c : CodePoint} (neutral : isNeutral c = true) :
    closingDistance? (.bracket bracket :: outer) (c :: rest) =
      (closingDistance? (.bracket bracket :: outer) rest).map (· + 1) := by
  simp only [isNeutral, Bool.and_eq_true, Bool.not_eq_true', bne_iff_ne, ne_eq,
    Option.isNone_iff_eq_none] at neutral
  obtain ⟨⟨⟨⟨noQuote, noTick⟩, noSlash⟩, noOpening⟩, noClosing⟩ := neutral
  have turned : turn? [] c rest.head? = some ([], 1) := by
    simp [turn?, noQuote, noTick, noSlash, noOpening, noClosing]
  exact closingDistance?_of_turn turned fun _ => noClosing

theorem closingDistance?_slash {d : CodePoint} (noLine : d ≠ '/') (noBlock : d ≠ '*') :
    closingDistance? (.bracket bracket :: outer) (.char '/' :: d :: rest) =
      (closingDistance? (.bracket bracket :: outer) (d :: rest)).map (· + 1) := by
  have noOpening : Bracket.ofOpening? '/' = none := by decide
  have noClosing : Bracket.ofClosing? '/' = none := by decide
  have noQuote : CodePoint.isQuote '/' = false := by decide
  have turned : turn? [] '/' (List.head? (d :: rest)) = some ([], 1) := by
    simp [turn?, noQuote, noLine, noBlock, noOpening, noClosing]
  exact closingDistance?_of_turn turned fun _ => noClosing

/-- An operator is passed over like a neutral code point. -/
theorem closingDistance?_operator {before sign : CodePoint}
    (stands : Markup.Tree.isOperator before rest.head? sign = true) :
    closingDistance? (.bracket bracket :: outer) (sign :: rest) =
      (closingDistance? (.bracket bracket :: outer) rest).map (· + 1) := by
  unfold Markup.Tree.isOperator at stands
  split at stands
  · rename_i slash
    subst slash
    simp only [Bool.and_eq_true, bne_iff_ne] at stands
    have turned : turn? [] '/' rest.head? = some ([], 1) := by
      simp [turn?, stands, CodePoint.isQuote, Bracket.ofOpening?, Bracket.ofClosing?]
    exact closingDistance?_of_turn turned fun _ => by decide
  · simp only [Bool.and_eq_true, beq_iff_eq] at stands
    rw [stands.1.1]
    exact closingDistance?_neutral _ _ _ (by decide)

theorem closingDistance?_opening (inner : Bracket) :
    closingDistance? (.bracket bracket :: outer) (inner.opening :: rest) =
      (closingDistance? (.bracket inner :: .bracket bracket :: outer) rest).map (· + 1) := by
  have turned : turn? [] inner.opening rest.head? = some ([.bracket inner], 1) := by
    cases inner <;> simp [turn?, Bracket.opening, Bracket.ofOpening?, CodePoint.isQuote]
  exact closingDistance?_of_turn turned fun _ => by cases inner <;> decide

theorem closingDistance?_closing (bracket' : Bracket) :
    closingDistance? (.bracket bracket :: .bracket bracket' :: outer) (bracket.closing :: rest) =
      (closingDistance? (.bracket bracket' :: outer) rest).map (· + 1) := by
  have turned : turn? [.bracket bracket] bracket.closing rest.head? = some ([], 1) := by
    cases bracket <;>
      simp [turn?, Bracket.closing, Bracket.ofOpening?, Bracket.ofClosing?, CodePoint.isQuote]
  exact closingDistance?_of_turn turned fun alone => absurd alone (by simp)

theorem closingDistance?_last (other : Bracket) :
    closingDistance? [.bracket bracket] (other.closing :: rest) =
      if other = bracket then some 0 else none := by
  rw [closingDistance?.eq_def]
  cases other <;>
    simp [Bracket.closing, Bracket.ofOpening?, Bracket.ofClosing?, CodePoint.isQuote]

theorem closingDistance?_all_neutral {text : Text} (neutral : ∀ c ∈ text, isNeutral c = true) :
    closingDistance? (.bracket bracket :: outer) (text ++ rest) =
      (closingDistance? (.bracket bracket :: outer) rest).map (· + text.length) := by
  induction text with
  | nil => simp
  | cons c text ih =>
    rw [List.cons_append, closingDistance?_neutral _ _ _ (neutral c List.mem_cons_self),
      ih fun d member => neutral d (List.mem_cons_of_mem _ member), map_add_map, List.length_cons,
      Nat.add_comm]

private theorem closingDistance?_strokes (mark : CodePoint) {body : List Markup.Tree.Stroke}
    (valid : body.all (Markup.Tree.Stroke.isValid mark) = true) :
    closingDistance? (.quoted mark :: .bracket bracket :: outer)
        (body.flatMap Markup.Tree.Stroke.print ++ rest) =
      (closingDistance? (.quoted mark :: .bracket bracket :: outer) rest).map
        (· + (body.flatMap Markup.Tree.Stroke.print).length) := by
  induction body with
  | nil => simp
  | cons stroke body ih =>
    simp only [List.all_cons, Bool.and_eq_true] at valid
    rw [List.flatMap_cons, List.append_assoc, List.length_append]
    cases stroke with
    | plain c =>
      have plain := valid.1
      simp only [Markup.Tree.Stroke.isValid, Bool.and_eq_true, bne_iff_ne, ne_eq,
        Bool.not_eq_true'] at plain
      obtain ⟨⟨noMark, noEscape⟩, noLine⟩ := plain
      have turned (next : Option CodePoint) :
          turn? [.quoted mark] c next = some ([.quoted mark], 1) := by
        simp [turn?, noEscape, noMark, noLine]
      have step := @closingDistance?_of_turn [.quoted mark] _ bracket outer c
        (body.flatMap Markup.Tree.Stroke.print ++ rest) _ (turned _)
        fun alone => absurd alone (by simp)
      simp only [List.cons_append, List.nil_append, List.drop_succ_cons, List.drop_zero] at step
      simp only [Markup.Tree.Stroke.print, List.cons_append, List.nil_append]
      rw [step, ih valid.2, map_add_map, List.length_singleton]
    | escaped c =>
      have turned (next : Option CodePoint) :
          turn? [.quoted mark] '\\' next = some ([.quoted mark], 2) := by
        simp [turn?]
      have step := @closingDistance?_of_turn [.quoted mark] _ bracket outer '\\'
        (c :: (body.flatMap Markup.Tree.Stroke.print ++ rest)) _ (turned _)
        fun alone => absurd alone (by simp)
      simp only [List.cons_append, List.nil_append, List.drop_succ_cons, List.drop_zero] at step
      simp only [Markup.Tree.Stroke.print, List.cons_append, List.nil_append]
      rw [step, ih valid.2, map_add_map]
      rfl

/-- A quoted text is passed over. -/
theorem closingDistance?_quotation {mark : CodePoint} (isMark : mark.isQuote = true)
    {body : List Markup.Tree.Stroke} (valid : body.all (Markup.Tree.Stroke.isValid mark) = true) :
    closingDistance? (.bracket bracket :: outer) (Markup.Tree.quotation mark body ++ rest) =
      (closingDistance? (.bracket bracket :: outer) rest).map
        (· + (Markup.Tree.quotation mark body).length) := by
  have noEscape : mark ≠ '\\' := by
    rintro rfl
    revert isMark
    decide
  have ends : closingDistance? (.quoted mark :: .bracket bracket :: outer) (mark :: rest) =
      (closingDistance? (.bracket bracket :: outer) rest).map (· + 1) := by
    have turned : turn? [.quoted mark] mark rest.head? = some ([], 1) := by
      simp [turn?, noEscape]
    exact closingDistance?_of_turn turned fun alone => absurd alone (by simp)
  have turned (next : Option CodePoint) : turn? [] mark next = some ([.quoted mark], 1) := by
    simp [turn?, isMark]
  have noClosing : Bracket.ofClosing? mark = none := by
    simp only [CodePoint.isQuote, Bool.or_eq_true, beq_iff_eq] at isMark
    rcases isMark with rfl | rfl <;> decide
  have begins := @closingDistance?_of_turn [] _ bracket outer mark
    (body.flatMap Markup.Tree.Stroke.print ++ mark :: rest) _ (turned _) fun _ => noClosing
  simp only [List.cons_append, List.nil_append, List.drop_succ_cons, List.drop_zero,
    closingDistance?_strokes bracket outer _ mark valid, ends, map_add_map] at begins
  simp only [Markup.Tree.quotation, List.cons_append, List.append_assoc, List.nil_append, begins]
  simp [Nat.add_comm]

/-- The text of a template is passed over, unless a dollar sign at its end begins code with what is behind it. -/
theorem closingDistance?_templateText {body : List Markup.Tree.Stroke}
    (valid : Markup.Tree.isTemplateText body = true) (noBrace : rest.head? ≠ some (.char '\x7b')) :
    closingDistance? (.template :: .bracket bracket :: outer) (body.flatMap Markup.Tree.Stroke.print ++ rest) =
      (closingDistance? (.template :: .bracket bracket :: outer) rest).map
        (· + (body.flatMap Markup.Tree.Stroke.print).length) := by
  induction body with
  | nil => simp
  | cons stroke body ih =>
    rw [List.flatMap_cons, List.append_assoc, List.length_append]
    cases stroke with
    | plain c =>
      simp only [Markup.Tree.isTemplateText, Bool.and_eq_true, bne_iff_ne, ne_eq, Bool.not_eq_true'] at valid
      obtain ⟨⟨⟨noEnd, noEscape⟩, noCode⟩, others⟩ := valid
      have noPair := Markup.Tree.not_code_of_text noCode noBrace
      have step := @closingDistance?_of_turn [.template] [.template] bracket outer c
        (body.flatMap Markup.Tree.Stroke.print ++ rest) 1 (by simp only [turn?, noEscape, noEnd, noPair, if_false])
        fun alone => absurd alone (by simp)
      simp only [List.cons_append, List.nil_append, List.drop_succ_cons, List.drop_zero] at step
      simp only [Markup.Tree.Stroke.print, List.cons_append, List.nil_append]
      rw [step, ih others, map_add_map, List.length_singleton]
    | escaped c =>
      have step := @closingDistance?_of_turn [.template] [.template] bracket outer '\\'
        (c :: (body.flatMap Markup.Tree.Stroke.print ++ rest)) 2 (by simp [turn?])
        fun alone => absurd alone (by simp)
      simp only [List.cons_append, List.nil_append, List.drop_succ_cons, List.drop_zero] at step
      simp only [Markup.Tree.Stroke.print, List.cons_append, List.nil_append]
      rw [step, ih valid, map_add_map]
      rfl

theorem closingDistance?_enterTemplate :
    closingDistance? (.bracket bracket :: outer) (.char '\x60' :: rest) =
      (closingDistance? (.template :: .bracket bracket :: outer) rest).map (· + 1) :=
  @closingDistance?_of_turn [] [.template] bracket outer '\x60' rest 1 (by simp [turn?, CodePoint.isQuote])
    fun _ => by decide

theorem closingDistance?_leaveTemplate :
    closingDistance? (.template :: .bracket bracket :: outer) (.char '\x60' :: rest) =
      (closingDistance? (.bracket bracket :: outer) rest).map (· + 1) :=
  @closingDistance?_of_turn [.template] [] bracket outer '\x60' rest 1 (by simp [turn?])
    fun alone => absurd alone (by simp)

theorem closingDistance?_enterCode :
    closingDistance? (.template :: .bracket bracket :: outer) (.char '$' :: .char '\x7b' :: rest) =
      (closingDistance? (.bracket .curly :: .template :: .bracket bracket :: outer) rest).map (· + 2) :=
  @closingDistance?_of_turn [.template] [.bracket .curly, .template] bracket outer '$' (.char '\x7b' :: rest) 2
    (by simp [turn?]) fun alone => absurd alone (by simp)

theorem closingDistance?_leaveCode :
    closingDistance? (.bracket .curly :: .template :: .bracket bracket :: outer) (.char '\x7d' :: rest) =
      (closingDistance? (.template :: .bracket bracket :: outer) rest).map (· + 1) :=
  @closingDistance?_of_turn [.bracket .curly, .template] [.template] bracket outer '\x7d' rest 1
    (by simp [turn?, Bracket.ofOpening?, Bracket.ofClosing?, CodePoint.isQuote]) fun alone => absurd alone (by simp)

/-- A line comment is passed over with the line feed behind it. -/
theorem closingDistance?_lineComment {body : Text}
    (noLine : body.any CodePoint.isLineFeed = false) :
    closingDistance? (.bracket bracket :: outer) ("//" ++ body ++ "\n" ++ rest) =
      (closingDistance? (.bracket bracket :: outer) rest).map (· + (body.length + 3)) := by
  have inside (text : Text) (noLine : text.any CodePoint.isLineFeed = false) :
      closingDistance? (.lineComment :: .bracket bracket :: outer) (text ++ .char '\n' :: rest) =
        (closingDistance? (.bracket bracket :: outer) rest).map (· + (text.length + 1)) := by
    induction text with
    | nil =>
      have turned : turn? [.lineComment] '\n' rest.head? = some ([], 1) := by
        simp [turn?, CodePoint.isLineFeed]
      exact closingDistance?_of_turn turned fun alone => absurd alone (by simp)
    | cons c text ih =>
      simp only [List.any_cons, Bool.or_eq_false_iff] at noLine
      have turned (next : Option CodePoint) :
          turn? [.lineComment] c next = some ([.lineComment], 1) := by
        simp [turn?, noLine.1]
      have step := @closingDistance?_of_turn [.lineComment] _ bracket outer c
        (text ++ .char '\n' :: rest) _ (turned _) fun alone => absurd alone (by simp)
      simp only [List.cons_append, List.nil_append, List.drop_succ_cons, List.drop_zero] at step
      rw [List.cons_append, step, ih noLine.2, map_add_map, List.length_cons]
      simp only [Nat.add_comm]
  have parts : ("//" ++ body ++ "\n" ++ rest : Text) =
      .char '/' :: .char '/' :: (body ++ .char '\n' :: rest) := by
    simp [Text.ofString]
  have begins := @closingDistance?_of_turn [] [.lineComment] bracket outer '/'
    (.char '/' :: (body ++ .char '\n' :: rest)) 2 (by simp [turn?, CodePoint.isQuote])
    fun _ => by decide
  simp only [List.cons_append, List.nil_append, List.drop_succ_cons, List.drop_zero,
    inside body noLine, map_add_map] at begins
  rw [parts, begins]
  simp only [Nat.add_comm]

/-- A block comment is passed over. -/
theorem closingDistance?_blockComment {body : Text} (noEnd : Text.occursIn "*/" body = false) :
    closingDistance? (.bracket bracket :: outer) ("/*" ++ body ++ "*/" ++ rest) =
      (closingDistance? (.bracket bracket :: outer) rest).map (· + (body.length + 4)) := by
  have inside (text : Text) (noEnd : Text.occursIn "*/" text = false) :
      closingDistance? (.blockComment :: .bracket bracket :: outer)
          (text ++ .char '*' :: .char '/' :: rest) =
        (closingDistance? (.bracket bracket :: outer) rest).map (· + (text.length + 2)) := by
    induction text with
    | nil =>
      exact @closingDistance?_of_turn [.blockComment] [] bracket outer '*' (.char '/' :: rest) 2
        (by simp [turn?]) fun alone => absurd alone (by simp)
    | cons c text ih =>
      simp only [Text.occursIn, Bool.or_eq_false_iff] at noEnd
      have noPair : ¬(c = '*' ∧
          (text ++ .char '*' :: .char '/' :: rest).head? = some (.char '/')) := by
        rintro ⟨same, head⟩
        cases text with
        | nil => simp at head
        | cons d text =>
          have pair := noEnd.1
          simp only [List.cons_append, List.head?_cons, Option.some.injEq] at head
          simp [same, head, Text.ofString] at pair
      have step := @closingDistance?_of_turn [.blockComment] [.blockComment] bracket outer c
        (text ++ .char '*' :: .char '/' :: rest) 1 (by simp only [turn?, if_neg noPair])
        fun alone => absurd alone (by simp)
      simp only [List.cons_append, List.nil_append, List.drop_succ_cons, List.drop_zero] at step
      rw [List.cons_append, step, ih noEnd.2, map_add_map, List.length_cons]
      simp only [Nat.add_left_comm]
  have parts : ("/*" ++ body ++ "*/" ++ rest : Text) =
      .char '/' :: .char '*' :: (body ++ .char '*' :: .char '/' :: rest) := by
    simp [Text.ofString]
  have begins := @closingDistance?_of_turn [] [.blockComment] bracket outer '/'
    (.char '*' :: (body ++ .char '*' :: .char '/' :: rest)) 2 (by simp [turn?, CodePoint.isQuote])
    fun _ => by decide
  simp only [List.cons_append, List.nil_append, List.drop_succ_cons, List.drop_zero,
    inside body noEnd, map_add_map] at begins
  rw [parts, begins]
  simp only [Nat.add_left_comm, Nat.reduceAdd]

end Steps

/-- The strings among some enclosures begin with quotation marks. -/
private def IsMarked (inner : List Enclosure) : Prop :=
  ∀ mark, .quoted mark ∈ inner → mark.isQuote = true

private theorem turn?_isMarked {inner inner' : List Enclosure} {c : CodePoint}
    {next : Option CodePoint} {length : Nat} (marked : IsMarked inner)
    (turned : turn? inner c next = some (inner', length)) : IsMarked inner' := by
  have push (top : Enclosure) (isMark : ∀ mark, top = .quoted mark → mark.isQuote = true) :
      IsMarked (top :: inner) := by
    intro mark member
    rcases List.mem_cons.mp member with same | member
    · exact isMark mark same.symm
    · exact marked mark member
  have pop (outer : List Enclosure) (below : ∀ top ∈ outer, top ∈ inner) : IsMarked outer :=
    fun mark member => marked mark (below _ member)
  unfold turn? at turned
  split at turned <;> grind

theorem turn?_length {inner inner' : List Enclosure} {c : CodePoint}
    {next : Option CodePoint} {length : Nat} (turned : turn? inner c next = some (inner', length)) :
    length = 1 ∨ length = 2 := by
  unfold turn? at turned
  split at turned <;> grind

private theorem turn?_end {inner inner' : List Enclosure} {c : CodePoint}
    (turned : turn? inner c (some (.char '<')) = some (inner', 2)) :
    inner' = inner ∧ inner ≠ [] := by
  unfold turn? at turned
  split at turned <;> grind

private theorem turn?_next {inner : List Enclosure} {c : CodePoint} {next : Option CodePoint}
    (quiet : c.isQuote = true ∨ next ≠ some (.char '/') ∧ next ≠ some (.char '*')) :
    turn? inner c next = turn? inner c (some (.char '<')) ∨
      turn? inner c (some (.char '<')) = some (inner, 1) ∧ inner ≠ [] := by
  unfold turn?
  split <;> grind [CodePoint.isQuote]

private theorem closingDistance?_end {inner : List Enclosure} (deep : inner ≠ []) :
    closingDistance? (inner ++ [.bracket .curly]) [.char '\x7d'] = none := by
  rw [closingDistance?_turn _ _ _ _ _ fun alone => absurd alone deep]
  cases turned : turn? inner '\x7d' none with
  | none => simp [turned]
  | some found =>
    obtain ⟨inner', length⟩ := found
    rcases turn?_length turned with rfl | rfl <;> simp [turned, closingDistance?_nil]

private theorem closingDistance?_beforeEnd {inner : List Enclosure} (marked : IsMarked inner)
    (deep : inner ≠ []) :
    closingDistance? (inner ++ [.bracket .curly]) [.char '<', .char '\x7d'] = none := by
  have stays : turn? inner '<' (some (.char '\x7d')) = some (inner, 1) := by
    match inner with
    | .quoted mark :: inner =>
      have noMark : CodePoint.char '<' ≠ mark := by
        rintro rfl
        exact absurd (marked _ List.mem_cons_self) (by decide)
      have noLine : CodePoint.isLineFeed '<' = false := by decide
      simp [turn?, noMark, noLine]
    | .bracket bracket :: inner =>
      have noQuote : CodePoint.isQuote '<' = false := by decide
      have noOpening : Bracket.ofOpening? '<' = none := by decide
      have noClosing : Bracket.ofClosing? '<' = none := by decide
      simp [turn?, noQuote, noOpening, noClosing]
    | .template :: inner | .lineComment :: inner | .blockComment :: inner =>
      simp [turn?, CodePoint.isLineFeed]
  rw [closingDistance?_turn _ _ _ _ _ fun alone => absurd alone deep]
  simp [stays, closingDistance?_end deep]

private theorem ofClosing?_eq_none {c : CodePoint} {rest : Text} {distance : Nat}
    (found : closingDistance? [.bracket .curly] (c :: rest) = some (distance + 1)) :
    Bracket.ofClosing? c = none := by
  cases closes : Bracket.ofClosing? c with
  | none => rfl
  | some other =>
    rw [Bracket.eq_closing closes, closingDistance?_last] at found
    split at found <;> simp at found

/-- What the search finds behind the text when it is inside of `inner` in front of it, if it ends
inside of nothing but the brackets around it. -/
private theorem closingDistance?_inside (bracket : Bracket) (outer : List Enclosure) (rest : Text)
    (text : Text) (inner : List Enclosure)
    (quiet : ∀ c, text.getLast? = some c →
      c.isQuote = true ∨ rest.head? ≠ some (.char '/') ∧ rest.head? ≠ some (.char '*'))
    (marked : IsMarked inner)
    (found : closingDistance? (inner ++ [.bracket .curly]) (text ++ [.char '<', .char '\x7d']) =
      some (text.length + 1)) :
    closingDistance? (inner ++ .bracket bracket :: outer) (text ++ rest) =
      (closingDistance? (.bracket bracket :: outer) rest).map (· + text.length) := by
  have within {c : CodePoint} {text' : Text} (same : text = c :: text') :
      inner = [] → Bracket.ofClosing? c = none := by
    rintro rfl
    subst same
    exact ofClosing?_eq_none found
  match text with
  | [] =>
    by_cases alone : inner = []
    · simp [alone]
    · rw [List.nil_append, closingDistance?_beforeEnd marked alone] at found
      exact absurd found (by simp)
  | [c] =>
    rw [List.cons_append, closingDistance?_turn _ _ _ _ _ (within rfl)] at found
    rw [List.cons_append, closingDistance?_turn _ _ _ _ _ (within rfl)]
    simp only [List.nil_append, List.head?_cons] at found ⊢
    cases turned : turn? inner c (some (.char '<')) with
    | none => simp [turned] at found
    | some turn =>
      obtain ⟨inner', length⟩ := turn
      have marked' := turn?_isMarked marked turned
      have one : length = 1 := by
        rcases turn?_length turned with rfl | rfl
        · rfl
        · obtain ⟨rfl, deep⟩ := turn?_end turned
          simp [turned, closingDistance?_end deep] at found
      subst one
      have alone : inner' = [] := by
        by_cases alone : inner' = []
        · exact alone
        · simp [turned, closingDistance?_beforeEnd marked' alone] at found
      subst alone
      have next := @turn?_next inner c _ (quiet c rfl)
      rcases next with same | ⟨same, deep⟩
      · simp [same, turned]
      · simp [turned, deep] at same
  | c :: e :: text =>
    rw [List.cons_append, closingDistance?_turn _ _ _ _ _ (within rfl)] at found
    rw [List.cons_append, closingDistance?_turn _ _ _ _ _ (within rfl)]
    simp only [List.cons_append, List.head?_cons] at found ⊢
    cases turned : turn? inner c (some e) with
    | none => simp [turned] at found
    | some turn =>
      obtain ⟨inner', length⟩ := turn
      have marked' := turn?_isMarked marked turned
      simp only [turned, Option.bind_some] at found ⊢
      rcases turn?_length turned with rfl | rfl
      · have shorter := closingDistance?_inside bracket outer rest (e :: text) inner'
          (by simpa using quiet) marked' (by simpa using found)
        simp only [List.drop_succ_cons, List.drop_zero]
        rw [List.cons_append] at shorter
        rw [shorter, map_add_map]
        simp only [List.length_cons, Nat.add_comm]
      · have shorter := closingDistance?_inside bracket outer rest text inner'
          (fun d last => quiet d (by simp [List.getLast?_cons, last])) marked'
          (by simpa using found)
        simp only [List.drop_succ_cons, List.drop_zero]
        rw [shorter, map_add_map]
        simp only [List.length_cons, Nat.add_comm, Nat.add_left_comm, Nat.reduceAdd]
termination_by text.length

/-- Text that is passed over when it is enclosed by one bracket is passed over inside any brackets,
unless its last code point begins a comment with the one behind it. -/
theorem closingDistance?_passedOver (bracket : Bracket) (outer : List Enclosure) (rest : Text)
    {text : Text} (passed : Markup.Tree.isPassedOver text = true)
    (quiet : ∀ c, text.getLast? = some c →
      c.isQuote = true ∨ rest.head? ≠ some (.char '/') ∧ rest.head? ≠ some (.char '*')) :
    closingDistance? (.bracket bracket :: outer) (text ++ rest) =
      (closingDistance? (.bracket bracket :: outer) rest).map (· + text.length) := by
  have alone : closingDistance? [.bracket .curly] (text ++ [.char '<', .char '\x7d']) =
      some (text.length + 1) := by
    simpa [Markup.Tree.isPassedOver, Bracket.contentLength?, Text.ofString] using passed
  have marked : IsMarked [] := fun _ member => absurd member (by simp)
  exact closingDistance?_inside bracket outer rest text [] quiet marked alone

/-- The search looks no further than the bracket that it finds. -/
theorem closingDistance?_local (inner : List Enclosure) (bracket : Bracket) {text : Text} {distance : Nat}
    (found : closingDistance? (inner ++ [.bracket bracket]) text = some distance) (behind : Text) :
    closingDistance? (inner ++ [.bracket bracket]) (text.take (distance + 1) ++ behind) = some distance := by
  match text with
  | [] => simp [closingDistance?_nil] at found
  | c :: rest =>
    rw [List.take_succ_cons, List.cons_append]
    by_cases last : inner = [] ∧ Bracket.ofClosing? c ≠ none
    · obtain ⟨rfl, closes⟩ := last
      obtain ⟨other, closes⟩ := Option.ne_none_iff_exists'.mp closes
      obtain rfl := Bracket.eq_closing closes
      simpa only [List.nil_append, closingDistance?_last] using found
    · have within (alone : inner = []) : Bracket.ofClosing? c = none := by simpa [alone] using last
      rw [closingDistance?_turn _ _ _ _ _ within] at found ⊢
      obtain ⟨⟨inner', length⟩, turned, found⟩ := Option.bind_eq_some_iff.mp found
      obtain ⟨further, onward, rfl⟩ := Option.map_eq_some_iff.mp found
      obtain ⟨size, rfl⟩ : ∃ size, length = size + 1 := by
        rcases turn?_length turned with rfl | rfl <;> exact ⟨_, rfl⟩
      rw [List.drop_succ_cons] at onward
      have nonempty : rest.drop size ≠ [] := by
        intro none
        rw [none, closingDistance?_nil] at onward
        cases onward
      -- The next code point is kept, so the same step is taken.
      have next : (rest.take (further + (size + 1)) ++ behind).head? = rest.head? := by
        cases rest with
        | nil => simp at nonempty
        | cons => rfl
      have kept : (c :: (rest.take (further + (size + 1)) ++ behind)).drop (size + 1) =
          (rest.drop size).take (further + 1) ++ behind := by
        have inside : size ≤ (rest.take (further + (size + 1))).length := by
          have bound : size < rest.length := by simpa using nonempty
          rw [List.length_take]
          omega
        rw [List.drop_succ_cons, List.drop_append_of_le_length inside, List.drop_take,
          show further + (size + 1) - size = further + 1 by omega]
      rw [next, turned, Option.bind_some]
      dsimp only
      rw [kept, closingDistance?_local inner' bracket onward behind, Option.map_some]
termination_by text.length
decreasing_by
  simp only [List.length_cons, List.length_drop]
  omega

private theorem turn?_lacks {inner inner' : List Enclosure} {mark c : CodePoint} {next : Option CodePoint}
    {length : Nat} (lacks : .quoted mark ∉ inner) (other : c ≠ mark)
    (turned : turn? inner c next = some (inner', length)) : .quoted mark ∉ inner' := by
  unfold turn? at turned
  split at turned <;> grind

private theorem turn?_mark {inner inner' : List Enclosure} {mark : CodePoint} {next : Option CodePoint}
    {length : Nat} (isMark : mark.isQuote = true) (lacks : .quoted mark ∉ inner)
    (turned : turn? inner mark next = some (inner', length)) : inner' ≠ [] := by
  have apart : mark ≠ '\\' ∧ mark ≠ '\x60' ∧ mark ≠ '*' ∧ mark.isLineFeed = false ∧
      Bracket.ofClosing? mark = none := by
    simp only [CodePoint.isQuote, Bool.or_eq_true, beq_iff_eq] at isMark
    rcases isMark with rfl | rfl <;> decide
  unfold turn? at turned
  split at turned <;> grind

private theorem turn?_beforeMark {inner inner' : List Enclosure} {mark c : CodePoint} (isMark : mark.isQuote = true)
    (turned : turn? inner c (some mark) = some (inner', 2)) : inner' ≠ [] := by
  have apart : mark ≠ '/' ∧ mark ≠ '*' := by
    simp only [CodePoint.isQuote, Bool.or_eq_true, beq_iff_eq] at isMark
    rcases isMark with rfl | rfl <;> decide
  unfold turn? at turned
  split at turned <;> grind

/-- Outside of a string, a mark begins one that does not end. -/
private theorem closingDistance?_mark {mark : CodePoint} (isMark : mark.isQuote = true) (text : Text)
    (absent : mark ∉ text) {inner : List Enclosure} (marked : IsMarked inner) (lacks : .quoted mark ∉ inner) :
    closingDistance? (inner ++ [.bracket .curly]) (text ++ [mark, .char '<', .char '\x7d']) ≠
      some (text.length + 2) := by
  intro found
  match text with
  | [] =>
    have noClosing : Bracket.ofClosing? mark = none := by
      simp only [CodePoint.isQuote, Bool.or_eq_true, beq_iff_eq] at isMark
      rcases isMark with rfl | rfl <;> decide
    rw [List.nil_append, closingDistance?_turn _ _ _ _ _ fun _ => noClosing] at found
    obtain ⟨⟨inner', length⟩, turned, found⟩ := Option.bind_eq_some_iff.mp found
    have deep := turn?_mark isMark lacks turned
    have marked' := turn?_isMarked marked turned
    rcases turn?_length turned with rfl | rfl
    · simp [closingDistance?_beforeEnd marked' deep] at found
    · simp [closingDistance?_end deep] at found
  | [c] =>
    have within : inner = [] → Bracket.ofClosing? c = none := by
      rintro rfl
      exact ofClosing?_eq_none found
    have other : c ≠ mark := fun same => absent (same ▸ List.mem_cons_self)
    rw [List.cons_append, closingDistance?_turn _ _ _ _ _ within] at found
    obtain ⟨⟨inner', length⟩, turned, found⟩ := Option.bind_eq_some_iff.mp found
    have marked' := turn?_isMarked marked turned
    rcases turn?_length turned with rfl | rfl
    · refine closingDistance?_mark isMark [] List.not_mem_nil marked' (turn?_lacks lacks other turned) ?_
      simpa using found
    · simp [closingDistance?_beforeEnd marked' (turn?_beforeMark isMark turned)] at found
  | c :: d :: text =>
    have within : inner = [] → Bracket.ofClosing? c = none := by
      rintro rfl
      exact ofClosing?_eq_none found
    have other : c ≠ mark := fun same => absent (same ▸ List.mem_cons_self)
    have absent' : mark ∉ d :: text := fun member => absent (List.mem_cons_of_mem _ member)
    rw [List.cons_append, closingDistance?_turn _ _ _ _ _ within] at found
    obtain ⟨⟨inner', length⟩, turned, found⟩ := Option.bind_eq_some_iff.mp found
    have marked' := turn?_isMarked marked turned
    have lacks' := turn?_lacks lacks other turned
    rcases turn?_length turned with rfl | rfl
    · refine closingDistance?_mark isMark (d :: text) absent' marked' lacks' ?_
      simpa using found
    · refine closingDistance?_mark isMark text (List.not_mem_of_not_mem_cons absent') marked' lacks' ?_
      simpa using found
termination_by text.length

private theorem exists_strokes_inside {mark : CodePoint} (isMark : mark.isQuote = true) (text : Text)
    (absent : mark ∉ text)
    (found : closingDistance? [.quoted mark, .bracket .curly] (text ++ [mark, .char '<', .char '\x7d']) =
      some (text.length + 2)) :
    ∃ body : List Markup.Tree.Stroke, body.all (Markup.Tree.Stroke.isValid mark) = true ∧
      text = body.flatMap Markup.Tree.Stroke.print := by
  match text with
  | [] => exact ⟨[], rfl, rfl⟩
  | c :: text =>
    have other : c ≠ mark := fun same => absent (same ▸ List.mem_cons_self)
    have absent' : mark ∉ text := fun member => absent (List.mem_cons_of_mem _ member)
    have marked : IsMarked [.quoted mark] := by simpa [IsMarked] using isMark
    have onward (inner : List Enclosure) (length : Nat)
        (turned : ∀ next, turn? [.quoted mark] c next = some (inner, length)) :
        (closingDistance? (inner ++ [.bracket .curly])
          ((c :: (text ++ [mark, .char '<', .char '\x7d'])).drop length)).map (· + length) =
            some (text.length + 3) :=
      (closingDistance?_of_turn (turned _) nofun).symm.trans found
    by_cases escapes : c = '\\'
    · have escaped := onward [.quoted mark] 2 fun next => by simp [turn?, escapes]
      cases text with
      | nil =>
        have unended := closingDistance?_beforeEnd marked (List.cons_ne_nil _ _)
        simp only [List.cons_append, List.nil_append] at unended
        simp [unended] at escaped
      | cons d text =>
        obtain ⟨body, valid, same⟩ := exists_strokes_inside isMark text (List.not_mem_of_not_mem_cons absent')
          (by simpa using escaped)
        exact ⟨.escaped d :: body, by simpa [Markup.Tree.Stroke.isValid] using valid,
          by simp [Markup.Tree.Stroke.print, escapes, same]⟩
    · by_cases feed : c.isLineFeed = true
      · have ended := onward [] 1 fun next => by simp [turn?, escapes, feed]
        have closed : closingDistance? ([] ++ [.bracket .curly]) (text ++ [mark, .char '<', .char '\x7d']) =
            some (text.length + 2) := by
          simpa using ended
        exact absurd closed (closingDistance?_mark isMark text absent' nofun List.not_mem_nil)
      · have passed := onward [.quoted mark] 1 fun next => by simp [turn?, escapes, feed, other]
        obtain ⟨body, valid, same⟩ := exists_strokes_inside isMark text absent' (by simpa using passed)
        refine ⟨.plain c :: body, ?_, by simp [Markup.Tree.Stroke.print, same]⟩
        simp [Markup.Tree.Stroke.isValid, other, escapes, feed, valid]
termination_by text.length

/-- The value of a quotation that is passed over consists of code points that stand for themselves and of escapes. -/
theorem exists_strokes_of_passedOver {mark : CodePoint} (isMark : mark.isQuote = true) {value : Text}
    (absent : mark ∉ value) (passed : Markup.Tree.isPassedOver (mark :: value ++ [mark]) = true) :
    ∃ body : List Markup.Tree.Stroke, body.all (Markup.Tree.Stroke.isValid mark) = true ∧
      value = body.flatMap Markup.Tree.Stroke.print := by
  refine exists_strokes_inside isMark value absent ?_
  have noClosing : Bracket.ofClosing? mark = none := by
    simp only [CodePoint.isQuote, Bool.or_eq_true, beq_iff_eq] at isMark
    rcases isMark with rfl | rfl <;> decide
  have turned (next : Option CodePoint) : turn? [] mark next = some ([.quoted mark], 1) := by
    simp [turn?, isMark]
  have alone : closingDistance? ([] ++ [.bracket .curly]) (mark :: (value ++ [mark, .char '<', .char '\x7d'])) =
      some (value.length + 3) := by
    simpa [Markup.Tree.isPassedOver, Bracket.contentLength?, Text.ofString] using passed
  rw [closingDistance?_of_turn (turned _) fun _ => noClosing] at alone
  simpa using alone

end StaticStyle
