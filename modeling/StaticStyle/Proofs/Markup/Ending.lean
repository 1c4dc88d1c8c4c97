import StaticStyle.Proofs.Markup.Progress
import StaticStyle.Proofs.Markup.Walk

namespace StaticStyle.Markup

namespace Walker

/-- The walk of the code of a value. -/
def ofValue (start : Nat) : Walker := ⟨[.code (some .curly)], start, some (.char '\x7b'), start⟩

/-- Where a walk ends: where it is inside of nothing, or at the end of the source. -/
def ending (source : Text) (walker : Walker) : Nat :=
  match _last : (walker.continuations source).getLast? with
  | none => walker.offset
  | some onward => onward.ending source
termination_by source.length - walker.offset
decreasing_by
  have further := offset_lt_of_mem_continuations (List.mem_of_getLast? _last)
  omega

section Ending

variable {source : Text} {walker onward : Walker}

theorem ending_of_stop (stops : walker.continuations source = []) : walker.ending source = walker.offset := by
  rw [ending]
  split
  · rfl
  · rename_i onward last
    rw [stops] at last
    cases last

theorem ending_of_onward {values : List Walker} (goes : walker.continuations source = values ++ [onward]) :
    walker.ending source = onward.ending source := by
  rw [ending]
  have last : (walker.continuations source).getLast? = some onward := by
    rw [goes, List.getLast?_concat]
  split
  · rename_i none
    rw [last] at none
    cases none
  · rename_i other same
    rw [last, Option.some.injEq] at same
    rw [same]

theorem offset_le_ending (source : Text) (walker : Walker) : walker.offset ≤ walker.ending source := by
  rw [ending]
  split
  · exact Nat.le_refl _
  · rename_i onward last
    have further := offset_lt_of_mem_continuations (List.mem_of_getLast? last)
    exact (Nat.le_of_lt further.1).trans (offset_le_ending source onward)
termination_by source.length - walker.offset
decreasing_by omega

theorem ending_outside (since : Nat) (before : Option CodePoint) (offset : Nat) :
    (⟨[], since, before, offset⟩ : Walker).ending source = offset := by
  apply ending_of_stop
  unfold continuations
  split <;> rfl

/-- The point behind a step. -/
def behind (walker : Walker) (text : Text) (move : Move) : Walker :=
  ⟨move.regions, move.since, (text.take move.length).getLast?, walker.offset + move.length⟩

@[simp] theorem offset_behind (walker : Walker) (text : Text) (move : Move) :
    (walker.behind text move).offset = walker.offset + move.length := rfl

variable {c : CodePoint} {rest : Text} {move : Move}

theorem found_of_step (here : source.drop walker.offset = c :: rest) (stepped : walker.step c rest = some move) :
    walker.found source = ⟨move.element.toList, move.marks⟩ := by
  unfold found
  rw [here]
  dsimp only
  rw [stepped]

theorem continuations_of_step (here : source.drop walker.offset = c :: rest)
    (stepped : walker.step c rest = some move) : walker.continuations source =
      (move.element.toList.flatMap Element.codeStarts).map ofValue ++ [walker.behind (c :: rest) move] := by
  unfold continuations
  rw [here]
  dsimp only
  rw [stepped]
  rfl

theorem ending_of_step (here : source.drop walker.offset = c :: rest) (stepped : walker.step c rest = some move) :
    walker.ending source = (walker.behind (c :: rest) move).ending source :=
  ending_of_onward (continuations_of_step here stepped)

end Ending

end Walker

/-- The region of the walk that is inside of an enclosure. -/
def Region.ofEnclosure : Enclosure → Region
  | .bracket bracket => .code (some bracket)
  | .quoted mark => .quoted mark
  | .template => .template
  | .lineComment => .lineComment
  | .blockComment => .blockComment

namespace Walker

variable {source : Text} {walker : Walker} {c : CodePoint} {rest : Text} {bracket : Bracket}

/-- In code, where no tag begins and no bracket closes, the walk enters what the search enters. -/
private theorem codeStep_of_turn {inner inner' : List Enclosure} {length : Nat} (closing : Option Bracket)
    (outer : List Region) (noTag : c ≠ '<') (noClosing : Bracket.ofClosing? c = none)
    (code : inner = [] ∨ ∃ top below, inner = .bracket top :: below)
    (turned : turn? inner c rest.head? = some (inner', length)) :
    ∃ entered since, inner' = entered ++ inner ∧
      walker.codeStep closing outer c rest =
        ⟨entered.map Region.ofEnclosure ++ walker.regions, since, length, [], none⟩ := by
  have turned : (if c.isQuote then some (.quoted c :: inner, 1)
      else if c = '\x60' then some (.template :: inner, 1)
      else if c = '/' ∧ rest.head? = some (.char '/') then some (.lineComment :: inner, 2)
      else if c = '/' ∧ rest.head? = some (.char '*') then some (.blockComment :: inner, 2)
      else some ((Bracket.ofOpening? c).toList.map .bracket ++ inner, 1)) = some (inner', length) := by
    cases opens : Bracket.ofOpening? c <;> rcases code with rfl | ⟨top, below, rfl⟩ <;>
      simpa [turn?, noClosing, opens] using turned
  unfold codeStep
  rw [isNone_closing closing noClosing, if_neg Bool.false_ne_true]
  split at turned
  · rename_i quote
    cases turned
    rw [if_pos quote]
    exact ⟨[.quoted c], _, rfl, rfl⟩
  rename_i noQuote
  rw [if_neg noQuote]
  split at turned
  · rename_i tick
    cases turned
    rw [if_pos tick]
    exact ⟨[.template], _, rfl, rfl⟩
  rename_i noTick
  rw [if_neg noTick]
  split at turned
  · rename_i slashes
    cases turned
    rw [if_pos slashes]
    exact ⟨[.lineComment], _, rfl, rfl⟩
  rename_i noLine
  rw [if_neg noLine]
  split at turned
  · rename_i slash
    cases turned
    rw [if_pos slash]
    exact ⟨[.blockComment], _, rfl, rfl⟩
  rename_i noBlock
  rw [if_neg noBlock]
  cases opens : Bracket.ofOpening? c with
  | some bracket =>
    rw [opens] at turned
    cases turned
    exact ⟨[.bracket bracket], _, rfl, rfl⟩
  | none =>
    rw [opens] at turned
    cases turned
    dsimp only
    rw [if_neg noTag]
    exact ⟨[], _, rfl, rfl⟩

private theorem passEscape_of_turn {inner inner' : List Enclosure} {length : Nat} (room : length ≤ rest.length + 1)
    (turned : some (inner, 2) = some (inner', length))
    (inside : walker.regions = inner.map Region.ofEnclosure ++ [.code (some bracket)]) :
    walker.passEscape rest =
      ⟨inner'.map Region.ofEnclosure ++ [.code (some bracket)], walker.since, length, [], none⟩ := by
  cases turned
  simp [passEscape, pass, inside, Nat.min_eq_left (Nat.le_of_succ_le_succ room)]

private theorem pass_of_turn {inner inner' : List Enclosure} {length : Nat}
    (turned : some (inner, 1) = some (inner', length))
    (inside : walker.regions = inner.map Region.ofEnclosure ++ [.code (some bracket)]) :
    walker.pass 1 = ⟨inner'.map Region.ofEnclosure ++ [.code (some bracket)], walker.since, length, [], none⟩ := by
  cases turned
  simp [pass, inside]

private theorem step_of_turn_quoted {mark : CodePoint} {inner inner' : List Enclosure} {length : Nat}
    (inside : walker.regions = (.quoted mark :: inner).map Region.ofEnclosure ++ [.code (some bracket)])
    (room : length ≤ rest.length + 1) (turned : turn? (.quoted mark :: inner) c rest.head? = some (inner', length)) :
    ∃ since marks, walker.step c rest =
      some ⟨inner'.map Region.ofEnclosure ++ [.code (some bracket)], since, length, marks, none⟩ := by
  simp only [turn?] at turned
  have entered := inside
  rw [List.map_cons, List.cons_append] at entered
  unfold step
  rw [entered]
  dsimp only [Region.ofEnclosure]
  split at turned
  · rename_i backslash
    exact ⟨_, _, by rw [if_pos backslash, passEscape_of_turn room turned inside]⟩
  rename_i noEscape
  rw [if_neg noEscape]
  split at turned
  · rename_i ends
    cases turned
    exact ⟨_, _, by rw [if_pos ends]; rfl⟩
  · rename_i goesOn
    exact ⟨_, _, by rw [if_neg goesOn, pass_of_turn turned inside]⟩

private theorem step_of_turn_template {inner inner' : List Enclosure} {length : Nat}
    (inside : walker.regions = (.template :: inner).map Region.ofEnclosure ++ [.code (some bracket)])
    (room : length ≤ rest.length + 1) (turned : turn? (.template :: inner) c rest.head? = some (inner', length)) :
    ∃ since marks, walker.step c rest =
      some ⟨inner'.map Region.ofEnclosure ++ [.code (some bracket)], since, length, marks, none⟩ := by
  simp only [turn?] at turned
  have entered := inside
  rw [List.map_cons, List.cons_append] at entered
  unfold step
  rw [entered]
  dsimp only [Region.ofEnclosure]
  split at turned
  · rename_i backslash
    exact ⟨_, _, by rw [if_pos backslash, passEscape_of_turn room turned inside]⟩
  rename_i noEscape
  rw [if_neg noEscape]
  split at turned
  · rename_i ends
    cases turned
    exact ⟨_, _, by rw [if_pos ends]; rfl⟩
  rename_i noEnd
  rw [if_neg noEnd]
  split at turned
  · rename_i opens
    cases turned
    exact ⟨_, _, by rw [if_pos opens, closeText, enter, entered]; rfl⟩
  · rename_i goesOn
    exact ⟨_, _, by rw [if_neg goesOn, pass_of_turn turned inside]⟩

private theorem step_of_turn_code {inner inner' : List Enclosure} {length : Nat} (closing : Option Bracket)
    (outer : List Region) (inside : walker.regions = inner.map Region.ofEnclosure ++ [.code (some bracket)])
    (noTag : c ≠ '<') (noClosing : Bracket.ofClosing? c = none)
    (code : inner = [] ∨ ∃ top below, inner = .bracket top :: below)
    (turned : turn? inner c rest.head? = some (inner', length)) :
    ∃ since marks, some (walker.codeStep closing outer c rest) =
      some ⟨inner'.map Region.ofEnclosure ++ [.code (some bracket)], since, length, marks, none⟩ := by
  obtain ⟨entered, since, rfl, stepped⟩ := codeStep_of_turn closing outer noTag noClosing code turned
  exact ⟨since, [], by rw [stepped, inside, List.map_append, List.append_assoc]⟩

/-- Where no tag begins, the walk steps as the search for a closing bracket does. -/
private theorem step_of_turn {inner inner' : List Enclosure} {length : Nat}
    (inside : walker.regions = inner.map Region.ofEnclosure ++ [.code (some bracket)]) (noTag : c ≠ '<')
    (within : inner = [] → Bracket.ofClosing? c = none) (room : length ≤ rest.length + 1)
    (turned : turn? inner c rest.head? = some (inner', length)) :
    ∃ since marks, walker.step c rest =
      some ⟨inner'.map Region.ofEnclosure ++ [.code (some bracket)], since, length, marks, none⟩ := by
  cases inner with
  | nil =>
    unfold step
    rw [inside]
    exact step_of_turn_code _ _ inside noTag (within rfl) (.inl rfl) turned
  | cons top inner =>
    have entered := inside
    rw [List.map_cons, List.cons_append] at entered
    cases top with
    | quoted mark => exact step_of_turn_quoted inside room turned
    | template => exact step_of_turn_template inside room turned
    | lineComment | blockComment =>
      simp only [turn?] at turned
      unfold step
      rw [entered]
      dsimp only [Region.ofEnclosure]
      split at turned
      · rename_i ends
        cases turned
        exact ⟨_, _, by rw [if_pos ends]; rfl⟩
      · rename_i goesOn
        exact ⟨_, _, by rw [if_neg goesOn, pass_of_turn turned inside]⟩
    | bracket innermost =>
      unfold step
      rw [entered]
      dsimp only [Region.ofEnclosure]
      cases closes : Bracket.ofClosing? c with
      | none => exact step_of_turn_code _ _ inside noTag closes (.inr ⟨innermost, inner, rfl⟩) turned
      | some other =>
        obtain rfl := Bracket.eq_closing closes
        obtain ⟨rfl, same⟩ : other = innermost ∧ some (inner, 1) = some (inner', length) := by
          cases other <;> simpa [turn?, Bracket.closing, Bracket.ofOpening?, Bracket.ofClosing?, CodePoint.isQuote]
            using turned
        cases same
        exact ⟨walker.offset + 1, [], by simp [codeStep]⟩

/-- Where no tag begins, the walk comes to the bracket that the search finds. -/
theorem ending_of_distance {source : Text} (walker : Walker) (inner : List Enclosure) (bracket : Bracket)
    {distance : Nat} (inside : walker.regions = inner.map Region.ofEnclosure ++ [.code (some bracket)])
    (found : closingDistance? (inner ++ [.bracket bracket]) (source.drop walker.offset) = some distance)
    (noTag : .char '<' ∉ (source.drop walker.offset).take distance) :
    walker.ending source = walker.offset + distance + 1 := by
  cases here : source.drop walker.offset with
  | nil =>
    rw [here, closingDistance?_nil] at found
    cases found
  | cons c rest =>
    rw [here] at found noTag
    by_cases last : inner = [] ∧ Bracket.ofClosing? c ≠ none
    · obtain ⟨rfl, closes⟩ := last
      obtain ⟨other, closes⟩ := Option.ne_none_iff_exists'.mp closes
      obtain rfl := Bracket.eq_closing closes
      rw [List.nil_append, closingDistance?_last] at found
      split at found
      · rename_i same
        subst same
        obtain rfl := Option.some.inj found
        have stepped : walker.step other.closing rest = some ⟨[], walker.offset + 1, 1, [], none⟩ := by
          unfold step
          rw [inside]
          simp [codeStep]
        rw [ending_of_step here stepped]
        exact ending_outside _ _ _
      · cases found
    · have within (alone : inner = []) : Bracket.ofClosing? c = none := by simpa [alone] using last
      rw [closingDistance?_turn _ _ _ _ _ within] at found
      obtain ⟨⟨inner', length⟩, turned, found⟩ := Option.bind_eq_some_iff.mp found
      obtain ⟨length', onward, rfl⟩ := Option.map_eq_some_iff.mp found
      obtain ⟨size, rfl⟩ : ∃ size, length = size + 1 := by
        rcases turn?_length turned with rfl | rfl <;> exact ⟨_, rfl⟩
      have bound := closingDistance?_lt onward
      rw [List.length_drop, List.length_cons] at bound
      have first : c ≠ '<' := by
        intro same
        subst same
        simp [List.take_succ_cons, ← Nat.add_assoc] at noTag
      obtain ⟨since, marks, stepped⟩ := step_of_turn inside first within (by omega) turned
      have further : source.drop (walker.offset + (size + 1)) = (c :: rest).drop (size + 1) := drop_of_drop here _
      have shorter := size_of_drop here
      rw [← further] at onward
      have noTag' : .char '<' ∉ (source.drop (walker.offset + (size + 1))).take length' := by
        rw [further]
        intro member
        apply noTag
        rw [Nat.add_comm, List.take_add]
        exact List.mem_append_right _ member
      have ends := ending_of_distance (walker.behind (c :: rest)
        ⟨inner'.map Region.ofEnclosure ++ [.code (some bracket)], since, size + 1, marks, none⟩) inner' bracket rfl
        onward noTag'
      rw [ending_of_step here stepped, ends, offset_behind]
      dsimp only
      omega
termination_by source.length - walker.offset
decreasing_by
  rw [offset_behind]
  dsimp only
  omega

end Walker

end StaticStyle.Markup
