import StaticStyle.Proofs.Markup.Form

/-!
Text whose brackets are balanced, and the search for a closing bracket behind it. Strings, comments and the text of
templates may hold any bracket and any mark of another construct. The search passes over balanced text whatever is
around it, and the code points behind the bracket that it finds do not matter.
-/

namespace StaticStyle

open Markup.Tree (Passes Stroke closing_passes neutral_passes opening_passes quotation)

/-- What balanced text stands in: code, or the text of a template. -/
inductive Ground where
  | code
  | template
deriving DecidableEq, Repr

/-- Balanced text, read from the left. A slash that begins no comment stands for itself, and so does a dollar sign in a
template that has no code behind it. -/
inductive IsBalanced : Ground → Text → Prop
  | nil {ground : Ground} : IsBalanced ground []
  | neutral {c : CodePoint} {rest : Text} (neutral : isNeutral c = true) (others : IsBalanced .code rest) :
    IsBalanced .code (c :: rest)
  | slash {rest : Text} (noLine : rest.head? ≠ some (.char '/')) (noBlock : rest.head? ≠ some (.char '*'))
    (others : IsBalanced .code rest) : IsBalanced .code (.char '/' :: rest)
  | quoted {mark : CodePoint} {body : List Stroke} {rest : Text} (isMark : mark.isQuote = true)
    (valid : body.all (Stroke.isValid mark) = true) (others : IsBalanced .code rest) :
    IsBalanced .code (quotation mark body ++ rest)
  | template {body rest : Text} (inside : IsBalanced .template body) (others : IsBalanced .code rest) :
    IsBalanced .code (.char '\x60' :: (body ++ .char '\x60' :: rest))
  | lineComment {body rest : Text} (noFeed : body.any CodePoint.isLineFeed = false)
    (others : IsBalanced .code rest) : IsBalanced .code ("//" ++ body ++ "\n" ++ rest)
  | blockComment {body rest : Text} (noEnd : Text.occursIn "*/" body = false)
    (others : IsBalanced .code rest) : IsBalanced .code ("/*" ++ body ++ "*/" ++ rest)
  | bracketed (bracket : Bracket) {content rest : Text} (inside : IsBalanced .code content)
    (others : IsBalanced .code rest) :
    IsBalanced .code (bracket.opening :: (content ++ bracket.closing :: rest))
  | letter {c : CodePoint} {rest : Text} (noEnd : c ≠ '\x60') (noEscape : c ≠ '\\')
    (noCode : c = '$' → rest.head? ≠ some (.char '\x7b')) (others : IsBalanced .template rest) :
    IsBalanced .template (c :: rest)
  | escaped (c : CodePoint) {rest : Text} (others : IsBalanced .template rest) :
    IsBalanced .template (.char '\\' :: c :: rest)
  | interpolated {content rest : Text} (inside : IsBalanced .code content) (others : IsBalanced .template rest) :
    IsBalanced .template (.char '$' :: .char '\x7b' :: (content ++ .char '\x7d' :: rest))

section Steps

variable (bracket : Bracket) (outer : List Enclosure) (rest : Text)

private theorem slash_passes (noLine : rest.head? ≠ some (.char '/')) (noBlock : rest.head? ≠ some (.char '*')) :
    Passes (.bracket bracket :: outer) [.char '/'] (.bracket bracket :: outer) rest := by
  cases rest with
  | nil => rfl
  | cons d rest =>
    rw [List.head?_cons, ne_eq, Option.some.injEq] at noLine noBlock
    exact closingDistance?_slash bracket outer rest noLine noBlock

private theorem tick_passes :
    Passes (.bracket bracket :: outer) [.char '\x60'] (.template :: .bracket bracket :: outer) rest := by
  unfold Passes
  rw [closingDistance?.eq_def]
  rfl

private theorem tick_passes_back : Passes (.template :: outer) [.char '\x60'] outer rest := by
  unfold Passes
  rw [closingDistance?.eq_def]
  rfl

private theorem letter_passes {c : CodePoint} (noEnd : c ≠ '\x60') (noEscape : c ≠ '\\')
    (noCode : c = '$' → rest.head? ≠ some (.char '\x7b')) : Passes (.template :: outer) [c] (.template :: outer) rest := by
  unfold Passes
  rw [List.singleton_append, closingDistance?.eq_def]
  dsimp only
  rw [if_neg noEscape, if_neg noEnd]
  split
  · exact absurd rfl (noCode rfl)
  · rfl

private theorem escaped_passes (c : CodePoint) : Passes (.template :: outer) [.char '\\', c] (.template :: outer) rest := by
  unfold Passes
  rw [closingDistance?.eq_def]
  rfl

private theorem interpolation_passes :
    Passes (.template :: outer) [.char '$', .char '\x7b'] (.bracket .curly :: .template :: outer) rest := by
  unfold Passes
  rw [closingDistance?.eq_def]
  rfl

private theorem interpolation_passes_back :
    Passes (.bracket .curly :: .template :: outer) [.char '\x7d'] (.template :: outer) rest := by
  unfold Passes
  rw [closingDistance?.eq_def]
  rfl

end Steps

/-- What encloses text on a ground, within the bracket around it. -/
def Ground.enclosures : Ground → List Enclosure
  | code => []
  | template => [.template]

/-- Whether a code point behind balanced text can change how its last one is read. -/
def Ground.continues (c : CodePoint) : Bool := c == '/' || c == '*' || c == '\x7b'

private theorem head?_append_ne {rest behind : Text} {c d : CodePoint} (inside : rest.head? ≠ some d) (after : c ≠ d) :
    (rest ++ c :: behind).head? ≠ some d := by
  cases rest with
  | nil => simpa using after
  | cons => exact inside

/-- The search for a closing bracket passes over balanced text. -/
theorem IsBalanced.passes {ground : Ground} {text : Text} (balanced : IsBalanced ground text) (bracket : Bracket)
    (outer : List Enclosure) {c : CodePoint} (quiet : Ground.continues c = false) (behind : Text) :
    Passes (ground.enclosures ++ .bracket bracket :: outer) text (ground.enclosures ++ .bracket bracket :: outer)
      (c :: behind) := by
  have apart : c ≠ '/' ∧ c ≠ '*' ∧ c ≠ '\x7b' := by
    simpa [Ground.continues, and_assoc] using quiet
  induction balanced generalizing bracket outer c behind with
  | nil => exact .nil _ _
  | neutral neutral _ ih =>
    exact (neutral_passes bracket outer _ (List.forall_mem_singleton.mpr neutral)).append
      (ih bracket outer quiet behind apart)
  | slash noLine noBlock _ ih =>
    exact (slash_passes bracket outer _ (head?_append_ne noLine apart.1) (head?_append_ne noBlock apart.2.1)).append
      (ih bracket outer quiet behind apart)
  | quoted isMark valid _ ih =>
    exact Passes.append (closingDistance?_quotation bracket outer _ isMark valid) (ih bracket outer quiet behind apart)
  | template _ _ ihInside ih =>
    have inside (rest : Text) := ihInside bracket outer (c := '\x60') (by decide) rest (by decide)
    exact (tick_passes bracket outer _).append ((inside _).append
      ((tick_passes_back (.bracket bracket :: outer) _).append (ih bracket outer quiet behind apart)))
  | @lineComment body rest noFeed _ ih =>
    have size : ("//" ++ body ++ "\n" : Text).length = body.length + 3 := by simp [Text.ofString]
    have comment := closingDistance?_lineComment bracket outer (rest ++ c :: behind) noFeed
    rw [← size] at comment
    exact Passes.append comment (ih bracket outer quiet behind apart)
  | @blockComment body rest noEnd _ ih =>
    have size : ("/*" ++ body ++ "*/" : Text).length = body.length + 4 := by simp [Text.ofString]
    have comment := closingDistance?_blockComment bracket outer (rest ++ c :: behind) noEnd
    rw [← size] at comment
    exact Passes.append comment (ih bracket outer quiet behind apart)
  | bracketed inner _ _ ihInside ih =>
    have ends : Ground.continues inner.closing = false := by cases inner <;> decide
    have inside (rest : Text) := ihInside inner (.bracket bracket :: outer) ends rest (by cases inner <;> decide)
    exact (opening_passes [] inner bracket outer _).append ((inside _).append
      ((closing_passes [] inner bracket outer _).append (ih bracket outer quiet behind apart)))
  | letter noEnd noEscape noCode _ ih =>
    exact (letter_passes (.bracket bracket :: outer) _ noEnd noEscape fun dollar =>
      head?_append_ne (noCode dollar) apart.2.2).append (ih bracket outer quiet behind apart)
  | escaped d _ ih =>
    exact (escaped_passes (.bracket bracket :: outer) _ d).append (ih bracket outer quiet behind apart)
  | interpolated _ _ ihInside ih =>
    have inside (rest : Text) :=
      ihInside .curly (.template :: .bracket bracket :: outer) (c := '\x7d') (by decide) rest (by decide)
    exact (interpolation_passes (.bracket bracket :: outer) _).append ((inside _).append
      ((interpolation_passes_back (.bracket bracket :: outer) _).append (ih bracket outer quiet behind apart)))

namespace Bracket

theorem ofOpening?_opening (bracket : Bracket) : ofOpening? bracket.opening = some bracket := by
  cases bracket <;> rfl

/-- What is found stands in the source, and no code point behind it matters. -/
theorem matching?_cases {source : Text} {offset stop : Nat} (found : matching? source offset = some stop) :
    ∃ (bracket : Bracket) (rest : Text) (length : Nat), source.drop offset = bracket.opening :: rest ∧
      bracket.contentLength? rest = some length ∧ stop = offset + 1 + length := by
  unfold matching? at found
  split at found
  · cases found
  · rename_i c rest here
    obtain ⟨bracket, opens, found⟩ := Option.bind_eq_some_iff.mp found
    obtain ⟨length, closes, rfl⟩ := Option.map_eq_some_iff.mp found
    exact ⟨bracket, rest, length, eq_opening opens ▸ here, closes, rfl⟩

theorem matching?_eq {source rest : Text} {offset : Nat} {bracket : Bracket}
    (here : source.drop offset = bracket.opening :: rest) :
    matching? source offset = (bracket.contentLength? rest).map (offset + 1 + ·) := by
  unfold matching?
  rw [here]
  dsimp only
  rw [ofOpening?_opening, Option.bind_some]

theorem contentLength?_balanced {content : Text} (balanced : IsBalanced .code content) (bracket : Bracket)
    (behind : Text) : bracket.contentLength? (content ++ bracket.closing :: behind) = some content.length := by
  have quiet : Ground.continues bracket.closing = false := by cases bracket <;> decide
  have passes := balanced.passes bracket [] quiet behind
  unfold Passes at passes
  rw [contentLength?]
  simp only [Ground.enclosures, List.nil_append] at passes
  rw [passes, closingDistance?_last, if_pos rfl, Option.map_some, Nat.zero_add]

/-- Bracket matching finds the bracket behind balanced text, whatever stands around it. Whatever it finds in any source
closes the bracket that it was asked about, and it looks no further: the text behind makes no difference. -/
theorem matching?_balanced :
    (∀ (bracket : Bracket) (content : Text), IsBalanced .code content → ∀ front behind : Text,
      matching? (front ++ bracket.opening :: (content ++ bracket.closing :: behind)) front.length =
        some (front.length + 1 + content.length)) ∧
    ∀ (source : Text) (offset stop : Nat), matching? source offset = some stop →
      (∃ bracket : Bracket, source[offset]? = some bracket.opening ∧ source[stop]? = some bracket.closing) ∧
      offset < stop ∧ ∀ behind : Text, matching? (source.take (stop + 1) ++ behind) offset = some stop := by
  constructor
  · intro bracket content balanced front behind
    rw [matching?_eq List.drop_left, contentLength?_balanced balanced bracket behind, Option.map_some]
  · intro source offset stop found
    obtain ⟨bracket, rest, length, here, closes, rfl⟩ := matching?_cases found
    have opens : source[offset]? = some bracket.opening := by
      rw [← List.head?_drop, here, List.head?_cons]
    have ends : source[offset + 1 + length]? = some bracket.closing := by
      rw [← getElem?_contentLength closes, Nat.add_assoc, ← List.getElem?_drop, here, Nat.add_comm,
        List.getElem?_cons_succ]
    refine ⟨⟨bracket, opens, ends⟩, by omega, ?_⟩
    intro behind
    have kept : (source.take (offset + 1 + length + 1) ++ behind).drop offset =
        bracket.opening :: (rest.take (length + 1) ++ behind) := by
      have inside : offset ≤ (source.take (offset + 1 + length + 1)).length := by
        have bound := (List.getElem?_eq_some_iff.mp ends).1
        rw [List.length_take]
        omega
      rw [List.drop_append_of_le_length inside, List.drop_take, here,
        show offset + 1 + length + 1 - offset = length + 1 + 1 by omega, List.take_succ_cons, List.cons_append]
    have again : bracket.contentLength? (rest.take (length + 1) ++ behind) = some length :=
      closingDistance?_local [] bracket closes behind
    rw [matching?_eq kept, again, Option.map_some]

/-- A parenthesis around brackets, with a string in the code of a template, a division and comments. -/
theorem matching?_balanced_nested :
    let content : Text := "[\x60$\x7b['\\'']\x7d\x60 /* ) */ / 2] // ]\n"
    IsBalanced .code content ∧ matching? ("f(" ++ content ++ ") ]") 1 = some 33 := by
  intro content
  have string : IsBalanced .code (quotation '\x27' [.escaped '\x27'] ++ []) := .quoted rfl rfl .nil
  have code : IsBalanced .template (.char '$' :: .char '\x7b' :: (_ ++ .char '\x7d' :: [])) :=
    .interpolated (.bracketed .square string .nil) .nil
  have division : IsBalanced .code " / 2" :=
    .neutral rfl (.slash (by decide) (by decide) (.neutral rfl (.neutral rfl .nil)))
  have commented : IsBalanced .code (.char ' ' :: ("/*" ++ Text.ofString " ) " ++ "*/" ++ Text.ofString " / 2")) :=
    .neutral rfl (.blockComment (by decide) division)
  have balanced : IsBalanced .code content :=
    .bracketed .square (.template code commented) (.neutral rfl (@IsBalanced.lineComment " ]" [] (by decide) .nil))
  exact ⟨balanced, matching?_balanced.1 round content balanced "f" " ]"⟩

end Bracket

end StaticStyle
