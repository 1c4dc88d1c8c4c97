import StaticStyle.Proofs.Markup.Calm
import StaticStyle.Proofs.Markup.Matching
import StaticStyle.Proofs.Markup.Occurrence

namespace StaticStyle.Markup

open StaticStyle.Markup.Tree Walker

/-- What is found in a part of a source, wherever the part stands: its opaque ranges, and the calls of a name. -/
structure Finds (callee text : Text) (offset : Nat) (extents : List Extent) (calls : List Call) : Prop where
  walks : ∀ (before : Option CodePoint) (behind : Text), ∃ last,
    walk ⟨[.code none], 0, before, offset⟩ (text ++ behind) =
      (⟨[], extents⟩ : Survey) ++ walk ⟨[.code none], 0, last, offset + text.length⟩ behind
  inside : ∀ extent ∈ extents, offset ≤ extent.start ∧ extent.stop ≤ offset + text.length
  starts : ∀ call ∈ calls, offset ≤ call.start ∧ call.start < offset + text.length
  ascending : calls.Pairwise fun a b => a.start < b.start
  clear : ∀ call ∈ calls, ∀ extent ∈ extents, extent.contains call.start = false
  occurs : ∀ call ∈ calls, ∀ front behind : Text, front.length = offset →
    call.Occurs callee (front ++ (text ++ behind)) ∧
      Call.followsKeyword (front ++ (text ++ behind)) call.start = false
  complete : ∀ (distance further : Nat) (behind : Text), distance < text.length →
    Call.openingDistance? callee ((text ++ behind).drop distance) = some further →
      (∃ extent ∈ extents, extent.contains (offset + distance) = true) ∨ ∃ call ∈ calls, call.start = offset + distance

namespace Finds

variable {callee text text' : Text} {offset : Nat} {extents extents' : List Extent} {calls calls' : List Call}

theorem nil (callee : Text) (offset : Nat) : Finds callee [] offset [] [] where
  walks before behind := ⟨before, by simp [Survey.empty_append]⟩
  inside := List.forall_mem_nil _
  starts := List.forall_mem_nil _
  ascending := .nil
  clear := List.forall_mem_nil _
  occurs := List.forall_mem_nil _
  complete distance further behind inside := by simp at inside

private theorem contains_eq_false {extent : Extent} {place : Nat} (outside : place < extent.start ∨ extent.stop ≤ place) :
    extent.contains place = false := by
  rw [Extent.contains, Bool.and_eq_false_iff, decide_eq_false_iff_not, decide_eq_false_iff_not]
  omega

/-- One part behind another. -/
theorem append (first : Finds callee text offset extents calls)
    (second : Finds callee text' (offset + text.length) extents' calls') :
    Finds callee (text ++ text') offset (extents ++ extents') (calls ++ calls') where
  walks before behind := by
    obtain ⟨middle, walked⟩ := first.walks before (text' ++ behind)
    obtain ⟨last, walked'⟩ := second.walks middle behind
    refine ⟨last, ?_⟩
    rw [List.append_assoc, walked, walked', List.length_append, Nat.add_assoc, ← Survey.append_assoc]
    rfl
  inside := by
    rw [List.length_append]
    refine List.forall_mem_append.mpr ⟨?_, ?_⟩
    · intro extent member
      obtain ⟨low, high⟩ := first.inside extent member
      omega
    · intro extent member
      obtain ⟨low, high⟩ := second.inside extent member
      omega
  starts := by
    rw [List.length_append]
    refine List.forall_mem_append.mpr ⟨?_, ?_⟩
    · intro call member
      obtain ⟨low, high⟩ := first.starts call member
      omega
    · intro call member
      obtain ⟨low, high⟩ := second.starts call member
      omega
  ascending := by
    refine List.pairwise_append.mpr ⟨first.ascending, second.ascending, ?_⟩
    intro a member b member'
    exact (first.starts a member).2.trans_le (second.starts b member').1
  clear := by
    refine List.forall_mem_append.mpr ⟨?_, ?_⟩
    · intro call member
      refine List.forall_mem_append.mpr ⟨first.clear call member, ?_⟩
      intro extent further
      exact contains_eq_false (.inl ((first.starts call member).2.trans_le (second.inside extent further).1))
    · intro call member
      refine List.forall_mem_append.mpr ⟨?_, second.clear call member⟩
      intro extent before
      exact contains_eq_false (.inr ((first.inside extent before).2.trans (second.starts call member).1))
  occurs := by
    intro call member front behind place
    rcases List.mem_append.mp member with member | member
    · rw [List.append_assoc]
      exact first.occurs call member front (text' ++ behind) place
    · have found := second.occurs call member (front ++ text) behind (by rw [List.length_append, place])
      rwa [List.append_assoc front, ← List.append_assoc text] at found
  complete := by
    intro distance further behind inside opens
    rw [List.length_append] at inside
    rw [List.append_assoc] at opens
    by_cases front : distance < text.length
    · rcases first.complete distance further _ front opens with ⟨extent, member, contains⟩ | ⟨call, member, place⟩
      · exact .inl ⟨extent, List.mem_append_left _ member, contains⟩
      · exact .inr ⟨call, List.mem_append_left _ member, place⟩
    · obtain ⟨distance, rfl⟩ := Nat.exists_eq_add_of_le (Nat.le_of_not_lt front)
      rw [← List.drop_drop, List.drop_left] at opens
      rw [← Nat.add_assoc]
      rcases second.complete distance further behind (by omega) opens with
        ⟨extent, member, contains⟩ | ⟨call, member, place⟩
      · exact .inl ⟨extent, List.mem_append_right _ member, contains⟩
      · exact .inr ⟨call, List.mem_append_right _ member, place⟩

/-- A part that is opaque as a whole. -/
theorem covered (walks : ∀ (before : Option CodePoint) (behind : Text), ∃ last,
      walk ⟨[.code none], 0, before, offset⟩ (text ++ behind) =
        (⟨[], [⟨offset, offset + text.length⟩]⟩ : Survey) ++
          walk ⟨[.code none], 0, last, offset + text.length⟩ behind) :
    Finds callee text offset [⟨offset, offset + text.length⟩] [] where
  walks := walks
  inside := List.forall_mem_singleton.mpr ⟨Nat.le_refl _, Nat.le_refl _⟩
  starts := List.forall_mem_nil _
  ascending := .nil
  clear := List.forall_mem_nil _
  occurs := List.forall_mem_nil _
  complete distance further behind inside _ := by
    refine .inl ⟨_, List.mem_singleton_self _, ?_⟩
    rw [Extent.contains, Bool.and_eq_true, decide_eq_true_eq, decide_eq_true_eq]
    dsimp only
    omega

/-- The calls of a source are those that are found in it as a part of its own. -/
theorem calls_eq (name : Call.IsName callee) (found : Finds callee text 0 extents calls) :
    Markup.calls callee text = calls := by
  have surveyed : survey text = ⟨[], extents⟩ := by
    obtain ⟨last, walked⟩ := found.walks none []
    rw [List.append_nil, Nat.zero_add] at walked
    rw [survey, walked, walk]
    simp [finish, Survey.append_eq]
  apply Call.calls_eq_of_starts found.ascending
  · intro call member
    obtain ⟨occurs, noKeyword⟩ := found.occurs call member [] [] rfl
    rw [List.nil_append, List.append_nil] at occurs noKeyword
    refine (Call.mem_calls name).mpr ⟨occurs, ?_, noKeyword⟩
    rw [surveyed, Survey.isOpaque, List.any_eq_false]
    intro extent inside
    rw [Bool.not_eq_true]
    exact found.clear call member extent inside
  · intro call member
    obtain ⟨occurs, clear, -⟩ := (Call.mem_calls name).mp member
    obtain ⟨distance, opens⟩ := occurs.exists_distance
    have inside : call.start < text.length := by
      have bound := Call.openingDistance?_lt opens
      rw [List.length_drop] at bound
      omega
    rw [← List.append_nil text] at opens
    rcases found.complete _ _ [] inside opens with ⟨extent, covers, contains⟩ | ⟨other, listed, place⟩
    · rw [Nat.zero_add] at contains
      rw [surveyed, Survey.isOpaque, List.any_eq_false] at clear
      exact absurd contains (clear extent covers)
    · rw [Nat.zero_add] at place
      exact ⟨other, listed, place⟩

theorem lineComment {body : Text} (noFeed : body.any CodePoint.isLineFeed = false) (callee : Text) (offset : Nat) :
    ∃ extents, Finds callee ("//" ++ body ++ "\n") offset extents [] := by
  refine ⟨_, covered fun before behind => ⟨some (.char '\n'), ?_⟩⟩
  have size : ("//" ++ body ++ "\n" : Text).length = body.length + 3 := by simp [Text.ofString]
  rw [walk_lineComment none [] 0 before offset behind noFeed, size, Nat.add_assoc]

theorem blockComment {body : Text} (noEnd : Text.occursIn "*/" body = false) (callee : Text) (offset : Nat) :
    ∃ extents, Finds callee ("/*" ++ body ++ "*/") offset extents [] := by
  refine ⟨_, covered fun before behind => ⟨some (.char '/'), ?_⟩⟩
  have size : ("/*" ++ body ++ "*/" : Text).length = body.length + 4 := by simp [Text.ofString]
  rw [walk_blockComment none [] 0 before offset behind noEnd, size, Nat.add_assoc]

theorem quotation {mark : CodePoint} {body : List Stroke} (isMark : mark.isQuote = true)
    (valid : body.all (Stroke.isValid mark) = true) (callee : Text) (offset : Nat) :
    ∃ extents, Finds callee (Tree.quotation mark body) offset extents [] :=
  ⟨_, covered fun before behind => ⟨_, walk_quotation none [] 0 before offset behind isMark valid⟩⟩

private theorem walk_plains {text : Text} (plain : text.all isPlain = true) (closing : Option Bracket)
    (outer : List Region) (before : Option CodePoint) (offset : Nat) (behind : Text) :
    ∃ last, walk ⟨.code closing :: outer, 0, before, offset⟩ (text ++ behind) =
      walk ⟨.code closing :: outer, 0, last, offset + text.length⟩ behind := by
  induction text generalizing before offset with
  | nil => exact ⟨before, rfl⟩
  | cons c text ih =>
    obtain ⟨first, others⟩ := Bool.and_eq_true_iff.mp (List.all_cons.symm.trans plain)
    obtain ⟨last, walked⟩ := ih others (some c) (offset + 1)
    refine ⟨last, ?_⟩
    rw [List.cons_append, walk_plain _ _ _ _ _ _ first, walked, List.length_cons, Nat.add_assoc, Nat.add_comm 1]

/-- Plain code points of which none begins the name. -/
theorem plains {callee text : Text} (plain : text.all isPlain = true) {c : CodePoint} (begins : callee.head? = some c)
    (absent : c ∉ text) (offset : Nat) : Finds callee text offset [] [] where
  walks before behind := by
    obtain ⟨last, walked⟩ := walk_plains plain none [] before offset behind
    exact ⟨last, by rw [walked, Survey.empty_append]⟩
  inside := List.forall_mem_nil _
  starts := List.forall_mem_nil _
  ascending := .nil
  clear := List.forall_mem_nil _
  occurs := List.forall_mem_nil _
  complete distance further behind inside opens := by
    obtain ⟨gap, rest, -, here, -⟩ := Call.openingDistance?_eq_some_iff.mp opens
    obtain ⟨name, rfl⟩ := List.head?_eq_some_iff.mp begins
    rw [List.drop_append_of_le_length (Nat.le_of_lt inside), List.drop_eq_getElem_cons inside] at here
    obtain ⟨first, -⟩ := List.cons.inj here
    exact absurd (first ▸ List.getElem_mem inside) absent

end Finds

/-- The name of the function that declares styles. -/
def declarer : Text := "createStyles"

/-- What stands in front of the name in a declaration. -/
def binding : Text := "const x = "

theorem isName_declarer : Call.IsName declarer := ⟨by decide, by decide⟩

/-- The call in a declaration. -/
def declaration (argument : Text) : Text := binding ++ declarer ++ "(" ++ argument ++ ")"

theorem length_declaration (argument : Text) : (declaration argument).length = argument.length + 24 := by
  simp [declaration, binding, declarer, Text.ofString]

theorem declaration_append (argument behind : Text) :
    declaration argument ++ behind = binding ++ (declarer ++ .char '(' :: (argument ++ .char ')' :: behind)) := by
  simp [declaration, Text.ofString]

/-- The call of a declaration that begins at an offset, with an argument of a length. -/
def declaringCall (offset length : Nat) : Call :=
  let start := offset + binding.length
  let argumentStart := start + declarer.length + 1
  ⟨start, argumentStart + length + 1, argumentStart, argumentStart + length⟩

namespace Finds

section Declaration

open Expression (isNamePart)

variable {code : Code} {argument : Text} {offset : Nat}

private theorem walk_declaration (written : code.Writes argument false []) (before : Option CodePoint)
    (behind : Text) : ∃ last, walk ⟨[.code none], 0, before, offset⟩ (declaration argument ++ behind) =
      (⟨[], code.opaqueExtents (offset + 23)⟩ : Survey) ++
        walk ⟨[.code none], 0, last, offset + (declaration argument).length⟩ behind := by
  have plain : (binding ++ declarer).all isPlain = true := by decide
  obtain ⟨last, entered⟩ := walk_plains plain none [] before offset
    (Bracket.round.opening :: (argument ++ Bracket.round.closing :: behind))
  obtain ⟨last', walked⟩ := Code.walk_print code (some .round) [.code none] (offset + 23) 0 (offset + 23)
    (Bracket.round.closing :: behind) (written.valid '(' _) written.closed
  refine ⟨some (.char ')'), ?_⟩
  have size : offset + (binding ++ declarer).length + 1 = offset + 23 := rfl
  have noElement : code.survey (offset + 23) = ⟨[], code.opaqueExtents (offset + 23)⟩ := by
    rw [Code.survey, code.openings_of_isCalm written.calm]
  simp only [within, List.map_nil, List.nil_append] at walked
  rw [written.print] at walked
  rw [declaration_append, ← List.append_assoc, length_declaration]
  refine entered.trans ?_
  rw [walk_opening, size]
  refine walked.trans ?_
  have stop : offset + 23 + argument.length + 1 = offset + (argument.length + 24) := by omega
  rw [noElement, walk_closing, walk_code_since _ 0, stop]
  rfl

private theorem distance_declarer (behind : Text) :
    Call.openingDistance? declarer (declarer ++ .char '(' :: behind) = some declarer.length :=
  Call.openingDistance?_eq_some_iff.mpr ⟨[], behind, rfl, rfl, rfl⟩

/-- No call of the name is in a declaration but its own, except in its argument, where it is hidden. -/
private theorem complete_declaration (written : code.Writes argument false []) {distance further : Nat}
    {behind : Text} (inside : distance < (declaration argument).length)
    (opens : Call.openingDistance? declarer ((declaration argument ++ behind).drop distance) = some further) :
    (∃ extent ∈ code.opaqueExtents (offset + 23), extent.contains (offset + distance) = true) ∨
      distance = binding.length := by
  have call : OpensCall false ((declaration argument ++ behind).drop distance) :=
    opensCall_of_distance (by decide) opens
  rw [declaration_append] at opens call
  rw [length_declaration] at inside
  by_cases front : distance < binding.length
  · -- Behind the words of the binding stands an equals sign, which is no part of a call.
    have words (rest : Text) : binding ++ rest = Text.ofString "const x " ++ .char '=' :: (.char ' ' :: rest) := rfl
    by_cases last : distance = 9
    · subst last
      exact absurd call.isNamePart_of_first (by decide)
    · have le : distance ≤ (Text.ofString "const x ").length := by
        have size : binding.length = 10 := rfl
        have size' : (Text.ofString "const x ").length = 8 := rfl
        omega
      rw [words, List.drop_append_of_le_length le] at call
      have parenthesis := List.mem_of_mem_drop (call.mem_of_stop (by decide))
      exact absurd parenthesis (by decide)
  obtain ⟨ahead, rfl⟩ := Nat.exists_eq_add_of_le (Nat.le_of_not_lt front)
  rw [← List.drop_drop, List.drop_left] at opens call
  by_cases first : ahead = 0
  · exact .inr (by rw [first]; rfl)
  left
  have later := Call.lt_of_openingDistance? isName_declarer (distance_declarer _) opens (Nat.pos_of_ne_zero first)
  obtain ⟨place, rfl⟩ := Nat.exists_eq_add_of_lt later
  rw [Nat.add_assoc, ← List.drop_drop, List.drop_left, List.drop_succ_cons] at call
  have sizes : binding.length + (declarer.length + place + 1) = 23 + place := by
    have size : binding.length = 10 := rfl
    have size' : declarer.length = 12 := rfl
    omega
  rw [sizes] at inside ⊢
  by_cases within : place < argument.length
  · rw [List.drop_append_of_le_length (Nat.le_of_lt within)] at call
    have hidden := call.in_front_of_stop (by decide) (.char '\x7d' :: behind)
    rw [← List.drop_append_of_le_length (Nat.le_of_lt within), ← written.print] at hidden
    rw [← written.print] at within
    rw [← Nat.add_assoc]
    exact code.hidesCalls (written.valid '(' none) written.calm behind (offset + 23) place within hidden
  · obtain rfl : place = argument.length := by omega
    rw [List.drop_left] at call
    exact absurd call.isNamePart_of_first (by decide)

/-- The call of a declaration is spelled in a source that the declaration stands in. -/
private theorem occurs_declaration (written : code.Writes argument false []) {front : Text}
    (place : front.length = offset) (behind : Text) :
    (declaringCall offset argument.length).Occurs declarer (front ++ (declaration argument ++ behind)) ∧
      Call.followsKeyword (front ++ (declaration argument ++ behind)) (offset + binding.length) = false := by
  have size : (front ++ binding).length = offset + binding.length := by rw [List.length_append, place]
  have source : front ++ (declaration argument ++ behind) =
      front ++ binding ++ (declarer ++ .char '(' :: (argument ++ .char ')' :: behind)) := by
    rw [declaration_append, List.append_assoc]
  have before : (front ++ (declaration argument ++ behind)).take (offset + binding.length) = front ++ binding := by
    rw [source, ← size, List.take_left]
  have here : (front ++ (declaration argument ++ behind)).drop (offset + binding.length) =
      declarer ++ .char '(' :: (argument ++ .char ')' :: behind) := by
    rw [source, ← size, List.drop_left]
  have opening : (front ++ (declaration argument ++ behind)).drop (offset + binding.length + declarer.length) =
      Bracket.round.opening :: (argument ++ Bracket.round.closing :: behind) := by
    rw [← List.drop_drop, here, List.drop_left]
    rfl
  have closes : Bracket.round.contentLength? (argument ++ Bracket.round.closing :: behind) = some argument.length := by
    have passed := code.closingDistance?_print .round [] (Bracket.round.closing :: behind) (written.valid '(' _)
      written.closed
    rw [written.print, closingDistance?_last, if_pos rfl, Option.map_some, Nat.zero_add] at passed
    exact passed
  refine ⟨⟨?_, ⟨[], rfl, ?_, rfl⟩, ?_, rfl⟩, ?_⟩
  · dsimp only [declaringCall]
    rw [before, List.getLast?_append_of_ne_nil _ (by decide)]
    decide
  · dsimp only [declaringCall]
    rw [Text.StandsAt, here]
    exact ⟨argument ++ .char ')' :: behind, by simp⟩
  · dsimp only [declaringCall]
    rw [Nat.add_sub_cancel, Bracket.matching?_eq opening, closes, Option.map_some]
  · have assigned : front ++ binding = front ++ "const x " ++ .char '=' :: Text.ofString " " := by
      rw [List.append_assoc]
      rfl
    have inside : offset + binding.length ≤ (front ++ (declaration argument ++ behind)).length := by
      rw [source, List.length_append, size]
      exact Nat.le_add_right _ _
    exact Call.followsKeyword_eq_false (before.trans assigned) inside (by decide) (by decide) (by decide)

/-- A declaration has one call, and nothing in its argument is another. -/
theorem declaration (written : code.Writes argument false []) :
    Finds declarer (declaration argument) offset (code.opaqueExtents (offset + 23))
      [declaringCall offset argument.length] where
  walks := walk_declaration written
  inside := by
    rw [length_declaration]
    intro extent member
    obtain ⟨low, high⟩ := code.keepsInside written.calm (offset + 23) extent member
    rw [written.print] at high
    omega
  starts := by
    rw [length_declaration]
    refine List.forall_mem_singleton.mpr ⟨Nat.le_add_right _ _, ?_⟩
    exact Nat.add_lt_add_left (show 10 < argument.length + 24 by omega) offset
  ascending := List.pairwise_singleton _ _
  clear := by
    refine List.forall_mem_singleton.mpr ?_
    intro extent member
    obtain ⟨low, -⟩ := code.keepsInside written.calm (offset + 23) extent member
    exact contains_eq_false (.inl (Nat.lt_of_lt_of_le (Nat.add_lt_add_left (by decide) offset) low))
  occurs := by
    refine List.forall_mem_singleton.mpr ?_
    intro front behind place
    exact occurs_declaration written place behind
  complete := by
    intro distance further behind inside opens
    rcases complete_declaration written inside opens with covered | place
    · exact .inl covered
    · exact .inr ⟨_, List.mem_singleton_self _, by rw [place]; rfl⟩

end Declaration

end Finds

/-- A part of a file: a comment, a string that stands for itself, or the declaration of static styles. -/
inductive Statement where
  | lineComment (body : Text)
  | blockComment (body : Text)
  | string (body : List Stroke)
  | styles (text : Text)

namespace Statement

def print : Statement → Text
  | lineComment body => "//" ++ body ++ "\n"
  | blockComment body => "/*" ++ body ++ "*/"
  | string body => quotation '"' body ++ ";\n"
  | styles text => declaration (text ++ "\n") ++ ";\n"

/-- Whether comments and strings end where they are said to end, and styles are static. -/
def IsValid : Statement → Prop
  | lineComment body => body.any CodePoint.isLineFeed = false
  | blockComment body => Text.occursIn "*/" body = false
  | string body => body.all (Stroke.isValid '"') = true
  | styles text => ∃ node style, Expression.parse text ⟨0, ⟨1, 1⟩⟩ = .ok node ∧
      Expression.evaluateObject node = .ok style

/-- Whether a text is evaluated to a style. -/
private def isStatic (text : Text) : Bool :=
  match Expression.parse text ⟨0, ⟨1, 1⟩⟩ with
  | .ok node => (Expression.evaluateObject node).toBool
  | .error _ => false

private theorem isStatic_iff (text : Text) : isStatic text = true ↔ (styles text).IsValid := by
  unfold isStatic IsValid
  split
  · rename_i node parsed
    cases evaluated : Expression.evaluateObject node with
    | ok style => exact ⟨fun _ => ⟨node, style, parsed, evaluated⟩, fun _ => rfl⟩
    | error rejection =>
      refine ⟨nofun, fun ⟨node', style, parsed', evaluated'⟩ => ?_⟩
      rw [parsed, Except.ok.injEq] at parsed'
      rw [← parsed', evaluated] at evaluated'
      cases evaluated'
  · rename_i fault parsed
    refine ⟨nofun, fun ⟨node, style, parsed', evaluated⟩ => ?_⟩
    rw [parsed] at parsed'
    cases parsed'

instance (statement : Statement) : Decidable statement.IsValid :=
  match statement with
  | lineComment body => inferInstanceAs (Decidable (body.any CodePoint.isLineFeed = false))
  | blockComment body => inferInstanceAs (Decidable (Text.occursIn "*/" body = false))
  | string body => inferInstanceAs (Decidable (body.all (Stroke.isValid '"') = true))
  | styles text => decidable_of_iff (isStatic text = true) (isStatic_iff text)

/-- The calls of a statement that begins at an offset. -/
def calls (offset : Nat) : Statement → List Call
  | styles text => [declaringCall offset (text.length + 1)]
  | _ => []

/-- What is found in a statement are its calls. -/
theorem IsValid.finds {statement : Statement} (valid : statement.IsValid) (offset : Nat) :
    ∃ extents, Finds declarer statement.print offset extents (statement.calls offset) := by
  have ends (offset : Nat) : Finds declarer ";\n" offset [] [] :=
    .plains (by decide) (c := 'c') rfl (by decide) offset
  cases statement with
  | lineComment body => exact Finds.lineComment valid declarer offset
  | blockComment body => exact Finds.blockComment valid declarer offset
  | string body =>
    have isMark : CodePoint.isQuote '"' = true := rfl
    obtain ⟨extents, found⟩ := Finds.quotation isMark valid declarer offset
    exact ⟨_, found.append (ends _)⟩
  | styles text =>
    obtain ⟨node, style, parsed, evaluated⟩ := valid
    obtain ⟨code, written⟩ := Expression.exists_code .operand text (Expression.unclosed_lexemes parsed evaluated)
    have found : Finds declarer _ offset _ _ := (Finds.declaration written).append (ends _)
    rw [List.length_append] at found
    exact ⟨_, found⟩

end Statement

/-- The calls of a file whose statements begin at an offset. -/
def callsOf (offset : Nat) : List Statement → List Call
  | [] => []
  | statement :: statements => statement.calls offset ++ callsOf (offset + statement.print.length) statements

/-- What is found in a file are the calls of its statements. -/
theorem exists_finds {statements : List Statement} (valid : ∀ statement ∈ statements, statement.IsValid)
    (offset : Nat) :
    ∃ extents, Finds declarer (statements.flatMap Statement.print) offset extents (callsOf offset statements) := by
  induction statements generalizing offset with
  | nil => exact ⟨[], .nil declarer offset⟩
  | cons statement statements ih =>
    obtain ⟨first, others⟩ := List.forall_mem_cons.mp valid
    obtain ⟨extents, found⟩ := first.finds offset
    obtain ⟨extents', found'⟩ := ih others (offset + statement.print.length)
    exact ⟨_, found.append found'⟩

/-- The texts of the calls of a statement, each with the text of its argument. -/
def Statement.spelled : Statement → List (Text × Text)
  | styles text => [("createStyles(" ++ text ++ "\n)", text ++ "\n")]
  | _ => []

private theorem slices_declaringCall (front argument behind : Text) :
    let source := front ++ (declaration argument ++ behind)
    let call := declaringCall front.length argument.length
    source.slice call.start call.stop = "createStyles(" ++ argument ++ ")" ∧ call.argumentText source = argument := by
  intro source call
  have start : source.drop call.start = Text.ofString "createStyles(" ++ (argument ++ (Text.ofString ")" ++ behind)) := by
    dsimp only [source, call, declaringCall]
    rw [← List.drop_drop, List.drop_left, declaration_append, List.drop_left]
    rfl
  have argumentStart : source.drop call.argumentStart = argument ++ (Text.ofString ")" ++ behind) :=
    Text.drop_of_drop start rfl
  constructor
  · have whole : source.drop call.start = Text.ofString "createStyles(" ++ argument ++ Text.ofString ")" ++ behind := by
      rw [start, List.append_assoc, List.append_assoc]
    apply Text.slice_of_drop whole
    rw [List.length_append, List.length_append]
    dsimp only [call, declaringCall]
    rw [show (Text.ofString "createStyles(").length = declarer.length + 1 from rfl,
      show (Text.ofString ")").length = 1 from rfl]
    omega
  · exact Text.slice_of_drop argumentStart rfl

private theorem slices_callsOf (statements : List Statement) (front : Text) :
    (callsOf front.length statements).map (fun call =>
      (Text.slice (front ++ statements.flatMap Statement.print) call.start call.stop,
        call.argumentText (front ++ statements.flatMap Statement.print))) =
      statements.flatMap Statement.spelled := by
  induction statements generalizing front with
  | nil => rfl
  | cons statement statements ih =>
    have behind := ih (front ++ statement.print)
    rw [List.length_append, List.append_assoc, ← List.flatMap_cons] at behind
    rw [callsOf, List.map_append, behind, List.flatMap_cons]
    congr 1
    cases statement with
    | styles text =>
      obtain ⟨whole, argument⟩ := slices_declaringCall front (text ++ "\n")
        (Text.ofString ";\n" ++ statements.flatMap Statement.print)
      rw [← List.append_assoc (declaration _), List.length_append] at whole argument
      refine congrArg (fun spans => [spans]) (Prod.ext (whole.trans ?_) argument)
      simp [Text.ofString]
    | _ => rfl

/-- The calls that are found in a file are those of its declarations, one for each and in their order. What comments
and strings hold makes no difference, neither between the declarations nor in the styles. The span of a call is its
text, and that of its argument is the text of the styles with the line feed behind it. -/
theorem calls_statements (statements : List Statement) (valid : ∀ statement ∈ statements, statement.IsValid) :
    let source : Text := statements.flatMap Statement.print
    calls "createStyles" source = callsOf 0 statements ∧
      (calls "createStyles" source).map (fun call => (source.slice call.start call.stop, call.argumentText source)) =
        statements.flatMap Statement.spelled := by
  intro source
  obtain ⟨extents, found⟩ := exists_finds valid 0
  have listed : calls "createStyles" source = callsOf 0 statements := found.calls_eq isName_declarer
  rw [listed]
  exact ⟨rfl, slices_callsOf statements []⟩

/-- Calls and quotation marks in comments, in a string, and in the comment at the end of a style. -/
theorem calls_statements_mentions :
    let statements : List Statement :=
      [.lineComment " createStyles(\x7b a: x \x7d) isn\x27t called", .string [.escaped '"', .plain '(', .plain '<'],
        .styles "\x7b a: \x7b m: 0 /* createStyles(\x27) */ \x7d \x7d // createStyles(", .blockComment " ) \" ",
        .styles "\x7b\x7d"]
    (∀ statement ∈ statements, statement.IsValid) ∧
      calls "createStyles" (statements.flatMap Statement.print) =
        [⟨57, 126, 70, 125⟩, ⟨147, 164, 160, 163⟩] := by
  intro statements
  have valid : ∀ statement ∈ statements, statement.IsValid := by decide +kernel
  exact ⟨valid, (calls_statements statements valid).1.trans (by decide +kernel)⟩

end StaticStyle.Markup
