import StaticStyle.Proofs.Draft.Editing
import StaticStyle.Proofs.Draft.Turning
import StaticStyle.Proofs.Draft.Validity
import StaticStyle.Proofs.Markup.Filling

namespace StaticStyle

open Markup Markup.Call

/-- No call begins in an object, and it ends with its brace. -/
structure Naming.IsQuiet (naming : Naming) : Prop where
  ends : ∀ text, (naming.object text).code.print.getLast? = some (.char '\x7d')
  spots : ∀ text offset, (naming.object text).code.spots 'c' offset = []

/-- Each call with something in its parentheses that stands at one of the new places in the code comes from one at an old
place of the source, which is none of some calls there. -/
structure Traces (source code : Text) (low high : Nat) (olds news : List Nat) (calls : List Call) : Prop where
  calls_in : ∀ call ∈ calls, low ≤ call.start ∧ call.start < high
  found : ∀ new ∈ news, Fills "createStyles" code new →
    ∃ old ∈ olds, low ≤ old ∧ old < high ∧ (∀ call ∈ calls, call.start ≠ old) ∧ Fills "createStyles" source old

namespace Traces

variable {source code : Text} {low middle high low' high' : Nat} {olds news olds' news' : List Nat}
  {calls calls' : List Call}

theorem none (low high : Nat) (olds : List Nat) : Traces source code low high olds [] [] := ⟨by simp, by simp⟩

theorem widen (traces : Traces source code low high olds news calls) (below : low' ≤ low) (above : high ≤ high') :
    Traces source code low' high' olds news calls := by
  refine ⟨fun call member => ?_, fun new member fills => ?_⟩
  · have within := traces.calls_in call member
    omega
  · obtain ⟨old, known, first, last, fills⟩ := traces.found new member fills
    exact ⟨old, known, by omega, by omega, fills⟩

theorem append (traces : Traces source code low middle olds news calls)
    (others : Traces source code middle high olds' news' calls') (below : low ≤ middle) (above : middle ≤ high) :
    Traces source code low high (olds ++ olds') (news ++ news') (calls ++ calls') := by
  refine ⟨List.forall_mem_append.mpr ⟨?_, ?_⟩, List.forall_mem_append.mpr ⟨?_, ?_⟩⟩
  · exact (traces.widen (Nat.le_refl _) above).calls_in
  · exact (others.widen below (Nat.le_refl _)).calls_in
  · intro new member fills
    obtain ⟨old, known, first, last, unmarked, fills⟩ := traces.found new member fills
    refine ⟨old, List.mem_append_left _ known, first, by omega, ?_, fills⟩
    refine List.forall_mem_append.mpr ⟨unmarked, fun call marked => ?_⟩
    have within := others.calls_in call marked
    omega
  · intro new member fills
    obtain ⟨old, known, first, last, unmarked, fills⟩ := others.found new member fills
    refine ⟨old, List.mem_append_right _ known, by omega, last, ?_, fills⟩
    refine List.forall_mem_append.mpr ⟨fun call marked => ?_, unmarked⟩
    have within := traces.calls_in call marked
    omega

theorem skip (traces : Traces source code middle high olds news calls) (below : low ≤ middle) (above : middle ≤ high)
    (skipped : List Nat) : Traces source code low high (skipped ++ olds) news calls := by
  simpa using (none low middle skipped).append traces below above

/-- Code that stands in both texts. -/
theorem same {tree : Tree.Code} {inValue : Bool} {before : CodePoint} {next : Option CodePoint}
    (valid : tree.isValid inValue before next = true) {offset offset' stop stop' : Nat}
    (stands : source.StandsAt offset tree.print) (stands' : code.StandsAt offset' tree.print)
    (ends : stop = offset + tree.print.length) (ends' : stop' = offset' + tree.print.length)
    (surrounded : Surrounded "createStyles" source code offset stop offset' stop') :
    Traces source code offset stop (tree.spots 'c' offset) (tree.spots 'c' offset') [] := by
  refine ⟨by simp, fun new member fills => ?_⟩
  have moved (offset : Nat) : tree.spots 'c' offset = (tree.spots 'c' 0).map (· + offset) := by
    rw [← tree.spots_add, Nat.zero_add]
  rw [moved] at member
  obtain ⟨distance, spot, rfl⟩ := List.mem_map.mp member
  have inside := (tree.shows (by decide) valid [] 0).spots_in distance spot
  rw [Nat.zero_add] at inside
  refine ⟨offset + distance, ?_, by omega, by omega, by simp, ?_⟩
  · rw [moved offset, Nat.add_comm]
    exact List.mem_map_of_mem spot
  · rw [Nat.add_comm] at fills
    exact surrounded.fills stands stands' ends ends' (Nat.le_of_lt inside.2) fills

end Traces

namespace Markup

variable {source code part part' : Text} {offset offset' : Nat}

private theorem getElem?_braces {text : Text} (stands : text.StandsAt offset ("\x7b" ++ part ++ "\x7d")) :
    text[offset]? = some (.char '\x7b') ∧ text[offset + 1 + part.length]? = some (.char '\x7d') :=
  ⟨stands.left.getElem?, (stands.right (by simp [Text.ofString]; omega)).getElem?⟩

/-- Something between braces in both texts. -/
theorem Call.Surrounded.braces (stands : source.StandsAt offset ("\x7b" ++ part ++ "\x7d"))
    (stands' : code.StandsAt offset' ("\x7b" ++ part' ++ "\x7d")) {start stop start' stop' : Nat}
    (begins : start = offset + 1) (ends : stop = start + part.length) (begins' : start' = offset' + 1)
    (ends' : stop' = start' + part'.length) :
    Surrounded "createStyles" source code start stop start' stop' := by
  subst ends begins ends' begins'
  obtain ⟨opens, closes⟩ := getElem?_braces stands
  obtain ⟨opens', closes'⟩ := getElem?_braces stands'
  have noClosing : (Text.dropBlank (source.drop (offset + 1 + part.length))).head? ≠ some (.char ')') := by
    rw [Text.head?_dropBlank_drop closes (by decide)]
    decide
  exact ⟨(Breaks.of_getElem? opens' (by decide) (by decide)).admits (.of_getElem? opens (by decide) (by decide)),
    .of_getElem? (by decide) closes' (by decide) noClosing⟩

namespace Tree

theorem print_call_ends (gap : Text) (argument : Code) :
    ∃ front : Text, (call gap argument .nil).print = front ++ [.char ')'] := by
  refine ⟨"createStyles" ++ gap ++ "(" ++ argument.print, ?_⟩
  simp [call, Code.print, Bracket.opening, Bracket.closing, Text.ofString]

theorem breaks_template {content : Template} {rest : Code} (stands : source.StandsAt offset (Code.template content rest).print) :
    Breaks (source.take (offset + content.print.length + 2)) := by
  rw [Code.print] at stands
  have length : offset + ("\x60" ++ content.print ++ "\x60" : Text).length = offset + content.print.length + 2 := by
    simp [Text.ofString]
    omega
  have last : ("\x60" ++ content.print ++ "\x60" : Text).getLast? = some (.char '\x60') := by
    rw [List.getLast?_append]
    rfl
  rw [← length]
  exact .of_stands stands.left last (by decide) (by decide)

theorem spots_joinEnd (name : Text) (offset : Nat) : (joinEnd name).spots 'c' offset = [] := by
  have absent : .char 'c' ∉ Text.ofString ", " := by decide
  have none : joinCall.spots 'c' 0 = [] := by decide
  rw [joinEnd, Code.spots_plains absent, Code.spots, ← Nat.zero_add (_ + _), joinCall.spots_add, none, List.map_nil]

theorem Tail.spots_widen (gap : Text) (tail : Tail) (offset : Nat) :
    (tail.widen gap).1.spots 'c' offset = tail.1.spots 'c' (offset + gap.length) := by
  obtain ⟨attributes, space⟩ := tail
  cases attributes <;> simp [widen, Attributes.spots, Nat.add_assoc]

theorem Tail.spots_classed {gap name : Text} {tail : Tail} {offset : Nat}
    (stands : code.StandsAt offset (tail.classed gap name).print) :
    ∃ stop, code.StandsAt stop tail.print ∧ (tail.classed gap name).1.spots 'c' offset = tail.1.spots 'c' stop :=
  ⟨_, (Attributes.stands_quoted (stands : code.StandsAt offset (_ ++ _))).2, rfl⟩

/-- Whatever happens to the attribute in front, the calls of the tail come from it and from those behind it. -/
theorem Tail.traces_act (inner : List Nat) (own : List Call) {gap : Text} {tail kept : Tail} {extended : Text → Tail}
    {action : Action} {low middle high : Nat} {olds : List Nat} {calls : List Call} (below : low ≤ middle) (above : middle ≤ high)
    (behind : ∀ {offset}, code.StandsAt offset tail.print →
      Traces source code middle high olds (tail.1.spots 'c' offset) calls)
    (empties : action ≠ .keep → own = [])
    (keeps : action = .keep → code.StandsAt offset kept.print →
      Traces source code low high (inner ++ olds) (kept.1.spots 'c' offset) (own ++ calls))
    (extends_ : ∀ name, action = .extend name → code.StandsAt offset (extended name).print →
      Traces source code low high (inner ++ olds) ((extended name).1.spots 'c' offset) (own ++ calls))
    (stands : code.StandsAt offset (tail.act gap kept extended action).print) :
    Traces source code low high (inner ++ olds) ((tail.act gap kept extended action).1.spots 'c' offset)
      (own ++ calls) := by
  cases action with
  | keep => exact keeps rfl stands
  | erase =>
    rw [act, print_widen] at stands
    rw [empties nofun, act, spots_widen]
    exact (behind (stands.right rfl)).skip below above inner
  | write name =>
    obtain ⟨stop, further, same⟩ := spots_classed stands
    rw [empties nofun, act, same]
    exact (behind further).skip below above inner
  | extend name => exact extends_ name rfl stands

/-- In an expression that joins classes, calls come from the expression that is joined. -/
theorem traces_joined {tree : Code} {next : Option CodePoint} (valid : tree.isValid true '\x7b' next = true) {name : Text}
    (stands : source.StandsAt offset ("\x7b" ++ tree.print ++ "\x7d"))
    (stands' : code.StandsAt offset' ("\x7b" ++ (joined tree name).print ++ "\x7d")) :
    Traces source code (offset + 1) (offset + 1 + tree.print.length) (tree.spots 'c' (offset + 1))
      ((joined tree name).spots 'c' (offset' + 1)) [] := by
  obtain ⟨front, back, blank, blank', print, moved⟩ := tree.spots_strip (show CodePoint.isBlank 'c' = false by decide)
  have closes := (getElem?_braces stands).2
  have joins : (joined tree name).print = "[" ++ (tree.strip.print ++ (joinEnd name).print) := by
    rw [joined, Code.print, Code.print_append]
    rfl
  have length : tree.print.length = front.length + (tree.strip.print.length + back.length) := by
    rw [print, List.length_append, List.length_append]
  -- The stripped expression in both texts.
  have frontStands : source.StandsAt (offset + 1) (front ++ (tree.strip.print ++ back)) := by
    rw [← print]
    exact stands.left.right rfl
  have inside := frontStands.right rfl
  have joinStands : code.StandsAt (offset' + 1) ("[" ++ (tree.strip.print ++ (joinEnd name).print)) := by
    rw [← joins]
    exact stands'.left.right rfl
  have inside' := joinStands.right (n := offset' + 1 + 1) rfl
  -- A bracket stands in front of it in the place of the brace, and a comma behind it.
  have breaks : Breaks (source.take (offset + 1 + front.length)) := by
    rw [frontStands.left.take (Nat.le_refl _), List.take_length]
    exact (Breaks.of_getElem? (getElem?_braces stands).1 (by decide) (by decide)).blanks blank
  have breaks' : Breaks (code.take (offset' + 1 + 1)) := .of_getElem? joinStands.getElem? (by decide) (by decide)
  have noClosing : (Text.dropBlank (source.drop (offset + 1 + front.length + tree.strip.print.length))).head? ≠
      some (.char ')') := by
    rw [(inside.right rfl).drop_eq, Text.head?_dropBlank_append, Text.dropBlank_blanks blank',
      show offset + 1 + front.length + tree.strip.print.length + back.length = offset + 1 + tree.print.length by omega,
      Text.head?_dropBlank_drop closes (by decide)]
    decide
  have comma : code[offset' + 1 + 1 + tree.strip.print.length]? = some (.char ',') := (inside'.right rfl).getElem?
  have stripped : tree.strip.isValid true '[' none = true := tree.isValid_strip valid rfl rfl rfl
  have same := Traces.same stripped inside.left inside'.left rfl rfl
    ⟨breaks'.admits breaks, .of_getElem? (by decide) comma (by decide) noClosing⟩
  rw [moved, joined, Code.spots, Code.spots_append, spots_joinEnd, List.append_nil]
  exact same.widen (by omega) (by omega)

end Tree

end Markup

namespace Draft

variable {naming : Naming} {source code : Text}

theorem Code.calls_of_edits_nil (draft : Code) {offset : Nat} (stands : source.StandsAt offset draft.source.print)
    (none : draft.edits naming source offset = []) : draft.calls offset = [] := by
  have perm := draft.edits_perm naming stands
  rw [none, List.nil_perm, editsOf, List.append_eq_nil_iff, List.map_eq_nil_iff] at perm
  exact perm.2

/-- Where a class is added to code without edits, calls come from the code. -/
theorem Code.traces_joined (draft : Code) {next : Option CodePoint}
    (valid : draft.source.isValid true '\x7b' next = true) {offset offset' start start' : Nat}
    (none : draft.edits naming source start = []) (begins : start = offset + 1) (begins' : start' = offset' + 1)
    {name : Text} (stands : source.StandsAt offset ("\x7b" ++ draft.source.print ++ "\x7d"))
    (stands' : code.StandsAt offset' ("\x7b" ++ (Tree.joined (draft.compiled naming) name).print ++ "\x7d")) :
    Traces source code start (start + draft.source.print.length) (draft.source.spots 'c' start)
      ((Tree.joined (draft.compiled naming) name).spots 'c' start') (draft.calls start) := by
  subst begins begins'
  have unmarked : draft.calls (offset + 1) = [] := draft.calls_of_edits_nil (stands.left.right rfl) none
  rw [draft.compiled_of_edits_nil none] at stands' ⊢
  rw [unmarked]
  exact Tree.traces_joined valid stands stands'

/-- A call in front of the compiled form of a draft goes on in it as in its source. -/
theorem Code.carries (sound : naming.IsSound) (draft : Code) {behind behind' : Text}
    (carries : Carries "createStyles" behind behind') :
    Carries "createStyles" ((draft.compiled naming).print ++ behind) (draft.source.print ++ behind') := by
  match draft with
  | .nil => exact carries
  | .piece flat rest =>
    rw [Code.compiled, Code.source, Tree.Code.print_append, Tree.Code.print_append, List.append_assoc,
      List.append_assoc]
    exact (Code.carries sound rest carries).append flat.code.print
  | .call gap argument rest =>
    obtain ⟨object, begins⟩ := List.head?_eq_some_iff.mp (sound.opens argument.code.print)
    rw [Code.compiled, Tree.Code.print_append, begins]
    exact .of_signs (by decide) (by decide) (by decide) (by decide)
  | .template content rest => exact .of_signs (by decide) (by decide) (by decide) (by decide)
  | .node inner rest =>
    obtain ⟨text, same⟩ := Tree.Node.print_eq inner.source
    obtain ⟨text', same'⟩ := Tree.Node.print_eq (inner.compiled naming)
    rw [Code.compiled, Code.source, Tree.Code.print, Tree.Code.print, same, same']
    exact .of_signs (by decide) (by decide) (by decide) (by decide)

mutual

/-- Calls in the compiled form of code come from calls in its source that are not marked. -/
theorem Code.traces (sound : naming.IsSound) (quiet : naming.IsQuiet) (draft : Code) {inValue : Bool}
    {before : CodePoint} {next : Option CodePoint} {offset offset' stop stop' : Nat}
    (valid : draft.source.isValid inValue before next = true) (clear : draft.IsClear naming source offset)
    (stands : source.StandsAt offset draft.source.print) (stands' : code.StandsAt offset' (draft.compiled naming).print)
    (ends : stop = offset + draft.source.print.length) (ends' : stop' = offset' + (draft.compiled naming).print.length)
    (surrounded : Surrounded "createStyles" source code offset stop offset' stop') :
    Traces source code offset stop (draft.source.spots 'c' offset) ((draft.compiled naming).spots 'c' offset')
      (draft.calls offset) := by
  match draft with
  | .nil => exact .none _ _ _
  | .piece flat rest =>
    rw [Code.source, Tree.Code.print_append] at stands ends
    rw [Code.compiled, Tree.Code.print_append] at stands' ends'
    rw [Code.source, Tree.Code.isValid_append, Bool.and_eq_true] at valid
    rw [List.length_append, ← Nat.add_assoc] at ends ends'
    have behind := (stands.right rfl).drop_eq
    have behind' := (stands'.right rfl).drop_eq
    rw [← ends] at behind
    rw [← ends'] at behind'
    have own := Traces.same valid.1 stands.left stands'.left rfl rfl
      ⟨surrounded.front, behind ▸ behind' ▸ Code.carries sound rest surrounded.behind⟩
    have others := Code.traces sound quiet rest valid.2 clear (stands.right rfl) (stands'.right rfl) ends ends'
      (surrounded.past stands.left stands'.left)
    rw [Code.source, Code.compiled, Tree.Code.spots_append, Tree.Code.spots_append]
    exact own.append others (by omega) (by omega)
  | .call gap argument rest =>
    rw [Code.source, Tree.call_eq_append, Tree.Code.print_append] at stands ends
    rw [Code.compiled, Tree.Code.print_append] at stands' ends'
    rw [Code.source, Tree.call_eq_append, Tree.Code.isValid_append, Bool.and_eq_true] at valid
    rw [List.length_append, ← Nat.add_assoc] at ends ends'
    obtain ⟨_, last⟩ := Tree.print_call_ends gap argument.code
    have breaks := Breaks.of_stands stands.left (by rw [last, List.getLast?_concat]) (by decide) (by decide)
    have breaks' := Breaks.of_stands stands'.left (quiet.ends _) (by decide) (by decide)
    have others := Code.traces sound quiet rest valid.2 clear.2 (stands.right rfl) (stands'.right rfl) ends ends'
      ⟨breaks'.admits breaks, surrounded.behind⟩
    have positive : 0 < (Tree.call gap argument.code .nil).print.length := by
      rw [last]
      simp
    let middle := offset + (Tree.call gap argument.code .nil).print.length
    let argumentStart := offset + 12 + gap.length + 1
    have own : Traces source code offset middle ((Tree.call gap argument.code .nil).spots 'c' offset) []
        [⟨offset, middle, argumentStart, argumentStart + argument.code.print.length⟩] :=
      ⟨List.forall_mem_singleton.mpr ⟨Nat.le_refl _, Nat.lt_add_of_pos_right positive⟩, by simp⟩
    rw [Code.source, Code.compiled, Tree.call_eq_append, Tree.Code.spots_append, Tree.Code.spots_append, quiet.spots]
    exact own.append others (by omega) (by omega)
  | .template content rest =>
    simp only [Code.source, Tree.Code.isValid, Bool.and_eq_true] at valid
    obtain ⟨inside, behind⟩ := Tree.Code.stands_template stands
    obtain ⟨inside', behind'⟩ := Tree.Code.stands_template stands'
    rw [Code.source, Tree.Code.stop_template] at ends
    rw [Code.compiled, Tree.Code.stop_template] at ends'
    have own := Template.traces sound quiet content valid.1 clear.1 inside inside'
    have others := Code.traces sound quiet rest valid.2 clear.2 behind behind' ends ends'
      ⟨(Tree.breaks_template stands').admits (Tree.breaks_template stands), surrounded.behind⟩
    exact (own.widen (by omega) (by omega)).append others (by omega) (by omega)
  | .node inner rest =>
    rw [Code.source, Tree.Code.print] at stands ends
    rw [Code.compiled, Tree.Code.print] at stands' ends'
    simp only [Code.source, Tree.Code.isValid, Bool.and_eq_true] at valid
    rw [List.length_append, ← Nat.add_assoc] at ends ends'
    obtain ⟨_, last⟩ := Tree.Node.print_ends inner.source
    obtain ⟨_, last'⟩ := Tree.Node.print_ends (inner.compiled naming)
    have breaks := Breaks.of_stands stands.left (by rw [last, List.getLast?_concat]) (by decide) (by decide)
    have breaks' := Breaks.of_stands stands'.left (by rw [last', List.getLast?_concat]) (by decide) (by decide)
    have own := Node.traces sound quiet inner valid.1.2 clear.1 stands.left stands'.left
    have others := Code.traces sound quiet rest valid.2 clear.2 (stands.right rfl) (stands'.right rfl) ends ends'
      ⟨breaks'.admits breaks, surrounded.behind⟩
    exact own.append others (by omega) (by omega)

theorem Template.traces (sound : naming.IsSound) (quiet : naming.IsQuiet) (template : Template) {inValue : Bool}
    {offset offset' : Nat} (valid : template.source.isValid inValue = true)
    (clear : template.IsClear naming source offset) (stands : source.StandsAt offset template.source.print)
    (stands' : code.StandsAt offset' (template.compiled naming).print) :
    Traces source code offset (offset + template.source.print.length) (template.source.spots 'c' offset)
      ((template.compiled naming).spots 'c' offset') (template.calls offset) := by
  match template with
  | .text body => exact .none _ _ _
  | .code body inner rest =>
    simp only [Template.source, Tree.Template.isValid, Bool.and_eq_true] at valid
    obtain ⟨⟨⟨-, codeValid⟩, -⟩, valid⟩ := valid
    obtain ⟨inside, behind⟩ := Tree.Template.stands_code stands
    obtain ⟨inside', behind'⟩ := Tree.Template.stands_code stands'
    have surrounded := Surrounded.braces (Tree.Template.stands_braces stands) (Tree.Template.stands_braces stands') rfl
      rfl rfl rfl
    have own := Code.traces sound quiet inner codeValid clear.1 inside inside' rfl rfl surrounded
    have others := Template.traces sound quiet rest valid clear.2 behind behind'
    rw [Template.source, Tree.Template.stop_code]
    exact (own.widen (by omega) (Nat.le_succ _)).append others (by omega) (by omega)

theorem Node.traces (sound : naming.IsSound) (quiet : naming.IsQuiet) (node : Node) {inValue : Bool}
    {offset offset' : Nat} (valid : node.source.isValid inValue = true) (clear : node.IsClear naming source offset)
    (stands : source.StandsAt offset node.source.print) (stands' : code.StandsAt offset' (node.compiled naming).print) :
    Traces source code offset (offset + node.source.print.length) (node.source.spots 'c' offset)
      ((node.compiled naming).spots 'c' offset') (node.calls offset) := by
  match node with
  | .selfClosing tag attributes space =>
    simp only [Node.source, Tree.Node.isValid, Bool.and_eq_true] at valid
    have own := Attributes.traces sound quiet attributes valid.1.2
      (Tree.Attributes.change_spread naming attributes.source) clear (Tree.Node.stands_selfClosing stands)
      (Tree.Node.stands_selfClosing stands')
    rw [Node.source, Tree.Node.stop_selfClosing]
    exact own.widen (by omega) (by omega)
  | .paired tag attributes space children =>
    simp only [Node.source, Tree.Node.isValid, Bool.and_eq_true] at valid
    obtain ⟨inside, behind⟩ := Tree.Node.stands_paired stands
    obtain ⟨inside', behind'⟩ := Tree.Node.stands_paired stands'
    have own := Attributes.traces sound quiet attributes valid.1.1.2
      (Tree.Attributes.change_spread naming attributes.source) clear.1 inside inside'
    have others := Children.traces sound quiet children valid.2 clear.2 behind behind'
    rw [Node.source, Tree.Node.stop_paired]
    exact (own.widen (by omega) (by omega)).append (others.widen (Nat.le_refl _) (by omega)) (by omega) (by omega)
  | .fragment children =>
    have own := Children.traces sound quiet children valid clear (Tree.Node.stands_fragment stands)
      (Tree.Node.stands_fragment stands')
    rw [Node.source, Tree.Node.stop_fragment]
    exact own.widen (by omega) (by omega)

theorem Attributes.traces (sound : naming.IsSound) (quiet : naming.IsQuiet) (attributes : Attributes) {inValue : Bool}
    {change : Change} {space : Text} {offset o : Nat} (valid : attributes.source.isValid inValue = true)
    (spread : change "..." = .keep) (clear : attributes.IsClear naming source change offset)
    (stands : source.StandsAt offset (attributes.source.print ++ space))
    (stands' : code.StandsAt o (attributes.compiled naming change space).print) :
    Traces source code offset (offset + attributes.source.print.length) (attributes.source.spots 'c' offset)
      ((attributes.compiled naming change space).1.spots 'c' o) (attributes.calls offset) := by
  match attributes with
  | .nil => exact .none _ _ _
  | .boolean gap name rest =>
    simp only [Attributes.source, Tree.Attributes.isValid, Bool.and_eq_true] at valid
    obtain ⟨-, others⟩ := Tree.Attributes.stands_boolean stands
    have behind {o : Nat} := Attributes.traces (o := o) sound quiet rest valid.2 (change.past_spread spread name) clear
      others
    rw [Attributes.source, Tree.Attributes.stop_boolean]
    refine Tree.Tail.traces_act [] [] (by omega) (by omega) behind (fun _ => rfl)
      (fun keeps stands' => ?_) (fun className extends_ stands' => ?_) stands'
    · exact (behind (Tree.Attributes.stands_boolean stands').2).widen (by omega) (Nat.le_refl _)
    · obtain ⟨stop, further, same⟩ := Tree.Tail.spots_classed stands'
      rw [same]
      exact (behind further).widen (by omega) (Nat.le_refl _)
  | .quoted gap name before after mark value rest =>
    simp only [Attributes.source, Tree.Attributes.isValid, Bool.and_eq_true] at valid
    obtain ⟨-, others⟩ := Tree.Attributes.stands_quoted stands
    have behind {o : Nat} := Attributes.traces (o := o) sound quiet rest valid.2 (change.past_spread spread name) clear
      others
    rw [Attributes.source, Tree.Attributes.stop_quoted]
    refine Tree.Tail.traces_act [] [] (by omega) (by omega) behind (fun _ => rfl) (fun keeps stands' => ?_)
      (fun className extends_ stands' => ?_) stands'
    · exact (behind (Tree.Attributes.stands_quoted stands').2).widen (by omega) (Nat.le_refl _)
    · exact (behind (Tree.Attributes.stands_quoted stands').2).widen (by omega) (Nat.le_refl _)
  | .expression gap name before after inner rest =>
    simp only [Attributes.source, Tree.Attributes.isValid, Bool.and_eq_true] at valid
    obtain ⟨clearInside, unedited, -, clearBehind⟩ := clear
    obtain ⟨own, value, others⟩ := Tree.Attributes.stands_expression stands
    have behind {o : Nat} := Attributes.traces (o := o) sound quiet rest valid.2 (change.past_spread spread name)
      clearBehind others
    let valueStart := offset + gap.length + name.length + before.length + 1 + after.length + 1
    have labelled (offset : Nat) : offset + gap.length + name.length + before.length + 1 + after.length + 1 =
        offset + gap.length + (Tree.label name before after).length + 1 := by
      rw [Tree.length_label]
      omega
    rw [Attributes.source, Tree.Attributes.stop_expression]
    refine Tree.Tail.traces_act _ _ (by omega) (by omega) behind (fun acts => ?_) (fun keeps stands' => ?_)
      (fun className extends_ stands' => ?_) stands'
    · exact inner.calls_of_edits_nil value (unedited acts)
    · obtain ⟨own', value', others'⟩ := Tree.Attributes.stands_expression stands'
      have surrounded := Surrounded.braces (own.right rfl) (own'.right rfl) (labelled offset) rfl (labelled o) rfl
      have inside := Code.traces sound quiet inner valid.1.1.2 clearInside value value' rfl rfl surrounded
      exact (inside.widen (by omega) (Nat.le_succ _)).append (behind others') (by omega) (by omega)
    · have unedited := unedited (by rw [extends_]; nofun)
      obtain ⟨own', -, others'⟩ := Tree.Attributes.stands_expression stands'
      have inside := Code.traces_joined inner valid.1.1.2 unedited (labelled offset) (labelled o) (own.right rfl)
        (own'.right rfl)
      exact (inside.widen (by omega) (Nat.le_succ _)).append (behind others') (by omega) (by omega)
  | .spread gap inner rest =>
    simp only [Attributes.source, Tree.Attributes.isValid, Bool.and_eq_true] at valid
    obtain ⟨own, value, others⟩ := Tree.Attributes.stands_spread stands
    obtain ⟨own', value', others'⟩ := Tree.Attributes.stands_spread stands'
    have behind := Attributes.traces sound quiet rest valid.2 spread clear.2 others others'
    have dotted (part : Text) : "\x7b..." ++ part ++ "\x7d" = "\x7b" ++ ("..." ++ part) ++ "\x7d" := by
      simp [Text.ofString]
    rw [dotted] at own own'
    have ends (start : Nat) (part : Text) : start + 4 + part.length = start + 1 + ("..." ++ part : Text).length := by
      simp [Text.ofString]
      omega
    have surrounded := (Surrounded.braces own own' rfl (ends _ _) rfl (ends _ _)).past (own.left.right rfl).left
      (own'.left.right rfl).left
    have inside := Code.traces sound quiet inner valid.1.1.2 clear.1 value value' rfl rfl surrounded
    rw [Attributes.source, Tree.Attributes.stop_spread]
    exact (inside.widen (by omega) (Nat.le_succ _)).append behind (by omega) (by omega)

theorem Children.traces (sound : naming.IsSound) (quiet : naming.IsQuiet) (children : Children) {inValue : Bool}
    {offset offset' : Nat} (valid : children.source.isValid inValue = true)
    (clear : children.IsClear naming source offset) (stands : source.StandsAt offset children.source.print)
    (stands' : code.StandsAt offset' (children.compiled naming).print) :
    Traces source code offset (offset + children.source.print.length) (children.source.spots 'c' offset)
      ((children.compiled naming).spots 'c' offset') (children.calls offset) := by
  match children with
  | .text text => exact .none _ _ _
  | .node text inner rest =>
    simp only [Children.source, Tree.Children.isValid, Bool.and_eq_true] at valid
    obtain ⟨inside, behind⟩ := Tree.Children.stands_node stands
    obtain ⟨inside', behind'⟩ := Tree.Children.stands_node stands'
    have own := Node.traces sound quiet inner valid.1.2 clear.1 inside inside'
    have others := Children.traces sound quiet rest valid.2 clear.2 behind behind'
    rw [Children.source, Tree.Children.stop_node]
    exact (own.widen (by omega) (Nat.le_refl _)).append others (by omega) (by omega)
  | .code text inner rest =>
    simp only [Children.source, Tree.Children.isValid, Bool.and_eq_true] at valid
    obtain ⟨inside, behind⟩ := Tree.Children.stands_code stands
    obtain ⟨inside', behind'⟩ := Tree.Children.stands_code stands'
    have surrounded := Surrounded.braces (Tree.Children.stands_braces stands) (Tree.Children.stands_braces stands') rfl
      rfl rfl rfl
    have own := Code.traces sound quiet inner valid.1.1.2 clear.1 inside inside' rfl rfl surrounded
    have others := Children.traces sound quiet rest valid.2 clear.2 behind behind'
    rw [Children.source, Tree.Children.stop_code]
    exact (own.widen (by omega) (Nat.le_succ _)).append others (by omega) (by omega)

end

end Draft

end StaticStyle
