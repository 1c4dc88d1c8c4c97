import Mathlib.Algebra.BigOperators.Group.List.Basic
import StaticStyle.Proofs.Style.Scope

namespace StaticStyle

namespace Style

namespace SelectorDepth

variable {depth behind : SelectorDepth}

/-- Whether a text closes all quotes and brackets that are open in front of it or opened in it, and no other bracket. -/
def settles (depth : SelectorDepth) : Text → Bool
  | [] => depth = .outermost
  | c :: rest => 0 ≤ (depth.next c).brackets && (depth.next c).settles rest

theorem commaParts_ne_nil (depth : SelectorDepth) (text : Text) : commaParts depth text ≠ [] := by
  cases text with
  | nil => simp [commaParts]
  | cons c rest =>
    rw [commaParts]
    split
    · simp
    · split <;> simp

/-- The parts of a longer text are those behind its first code point, which begins a part of its own if it is an
outermost comma and continues the first one if it is not. -/
theorem commaParts_cons (depth : SelectorDepth) (c : CodePoint) (rest : Text) :
    ∃ part parts, commaParts (depth.next c) rest = part :: parts ∧
      commaParts depth (c :: rest) =
        if c = ',' ∧ depth = .outermost then [] :: part :: parts else (c :: part) :: parts := by
  obtain ⟨part, parts, behind⟩ := List.exists_cons_of_ne_nil (commaParts_ne_nil (depth.next c) rest)
  refine ⟨part, parts, behind, ?_⟩
  rw [commaParts]
  split
  · rename_i splits
    obtain ⟨rfl, rfl⟩ := splits
    rw [show outermost.next ',' = outermost by decide] at behind
    rw [behind]
  · rw [behind]

/-- Each part of a text that settles closes its own quotes and brackets, and has no ampersand in quotes if the text has
none. -/
theorem parts_of_settles {text part : Text} {parts : List Text} (settled : depth.settles text = true)
    (unquoted : depth.refersUnquoted text = true) (split : commaParts depth text = part :: parts) :
    (depth.behind? part = some .outermost ∧ depth.refersUnquoted part = true) ∧
      ∀ other ∈ parts, isClosed other = true ∧ outermost.refersUnquoted other = true := by
  induction text generalizing depth part parts with
  | nil =>
    obtain ⟨rfl, rfl⟩ := List.cons.inj split
    exact ⟨⟨by rw [behind?, of_decide_eq_true settled], rfl⟩, by simp⟩
  | cons c rest ih =>
    simp only [settles, refersUnquoted, Bool.and_eq_true, decide_eq_true_eq] at settled unquoted
    obtain ⟨first, others, behind, whole⟩ := commaParts_cons depth c rest
    obtain ⟨⟨closed, unquotedFirst⟩, closedOthers⟩ := ih settled.2 unquoted.2 behind
    rw [split] at whole
    split at whole
    · rename_i splits
      obtain ⟨rfl, rfl⟩ := splits
      obtain ⟨rfl, rfl⟩ := List.cons.inj whole
      rw [show outermost.next ',' = outermost by decide] at closed unquotedFirst
      exact ⟨⟨rfl, rfl⟩, List.forall_mem_cons.mpr ⟨⟨decide_eq_true closed, unquotedFirst⟩, closedOthers⟩⟩
    · rename_i inside
      obtain ⟨rfl, rfl⟩ := List.cons.inj whole
      refine ⟨⟨?_, ?_⟩, closedOthers⟩
      · rw [behind?, if_neg (not_or.mpr ⟨inside, by omega⟩)]
        exact closed
      · rw [refersUnquoted, unquoted.1, unquotedFirst]
        rfl

/-- A depth as a walk from the outermost one leads to: no bracket is closed too much, and no quote is opened by a
blank. -/
structure IsReached (depth : SelectorDepth) : Prop where
  inside : 0 ≤ depth.brackets
  marked : ∀ mark, depth.quote = some mark → mark.isBlank = false

theorem isReached_outermost : outermost.IsReached := ⟨Int.le_refl 0, by simp [outermost]⟩

private theorem isOneOf_of_isBlank {c : CodePoint} (blank : c.isBlank = true) :
    c.isOneOf "\"\x27([)]," = false := by
  have signs : ∀ sign ∈ Text.ofString "\"\x27([)],", sign.isBlank = false := by decide
  by_contra sign
  rw [signs c (by simpa [CodePoint.isOneOf] using sign)] at blank
  cases blank

theorem IsReached.next (reached : depth.IsReached) {c : CodePoint} (inside : 0 ≤ (depth.next c).brackets) :
    (depth.next c).IsReached := by
  refine ⟨inside, fun mark quoted => ?_⟩
  unfold SelectorDepth.next at quoted
  split at quoted
  · split at quoted
    · cases quoted
    · exact reached.marked mark quoted
  · split at quoted
    · rename_i opens
      rw [Option.some.injEq] at quoted
      have marks : ∀ sign ∈ Text.ofString "\"\x27", sign.isBlank = false := by decide
      exact quoted ▸ marks c (by simpa [CodePoint.isOneOf] using opens)
    · split at quoted
      · exact reached.marked mark quoted
      · split at quoted <;> exact reached.marked mark quoted

theorem IsReached.onward {text : Text} (reached : depth.IsReached) (walked : depth.behind? text = some behind) :
    behind.IsReached := by
  induction text generalizing depth with
  | nil => exact Option.some.inj walked ▸ reached
  | cons c rest ih =>
    obtain ⟨-, inside, walked⟩ := behind?_cons walked
    exact ih (reached.next inside) walked

/-- Blanks change nothing. -/
theorem IsReached.behind?_of_blanks (reached : depth.IsReached) {blanks : Text}
    (blank : ∀ c ∈ blanks, c.isBlank = true) : depth.behind? blanks = some depth := by
  induction blanks with
  | nil => rfl
  | cons c blanks ih =>
    obtain ⟨here, others⟩ := List.forall_mem_cons.mp blank
    have noSign := isOneOf_of_isBlank here
    simp [CodePoint.isOneOf, Text.ofString] at noSign
    have stays : depth.next c = depth := by
      cases quoted : depth.quote with
      | none => apply next_of_unquoted quoted <;> simp [CodePoint.isOneOf, Text.ofString, noSign]
      | some mark =>
        have other : c ≠ mark := by
          rintro rfl
          rw [reached.marked c quoted] at here
          cases here
        simp only [SelectorDepth.next, quoted, if_neg other]
    rw [behind?, stays, if_neg (not_or.mpr ⟨by simp [noSign], by have := reached.inside; omega⟩)]
    exact ih others

theorem refersUnquoted_append {text rest : Text} (walked : depth.behind? text = some behind) :
    depth.refersUnquoted (text ++ rest) = (depth.refersUnquoted text && behind.refersUnquoted rest) := by
  induction text generalizing depth with
  | nil => rw [Option.some.inj walked]; rfl
  | cons c text ih =>
    obtain ⟨-, -, walked⟩ := behind?_cons walked
    rw [List.cons_append, refersUnquoted, refersUnquoted, ih walked, Bool.and_assoc]

/-- A closed text stays closed without the blanks around it, and its ampersands stay where they are. -/
theorem closed_strip {text : Text} (closed : isClosed text = true) (unquoted : outermost.refersUnquoted text = true) :
    isClosed text.strip = true ∧ outermost.refersUnquoted text.strip = true := by
  obtain ⟨front, back, whole, blankFront, blankBack⟩ := Text.exists_blanks_strip text
  have passed : outermost.behind? front = some .outermost := isReached_outermost.behind?_of_blanks blankFront
  have walked : outermost.behind? (text.strip ++ back) = some .outermost := by
    have walked := of_decide_eq_true closed
    rwa [whole, List.append_assoc, behind?_append, passed] at walked
  rw [whole, List.append_assoc, refersUnquoted_append passed, Bool.and_eq_true] at unquoted
  rw [behind?_append] at walked
  obtain ⟨depth, inside, rest⟩ := Option.bind_eq_some_iff.mp walked
  -- The blanks at the end do not close anything, so the depth in front of them is the outermost one too.
  have settled : depth = .outermost := by
    rw [(isReached_outermost.onward inside).behind?_of_blanks blankBack] at rest
    exact Option.some.inj rest
  rw [refersUnquoted_append inside, Bool.and_eq_true] at unquoted
  exact ⟨decide_eq_true (settled ▸ inside), unquoted.2.1⟩

end SelectorDepth

/-- The selectors of a key that closes its quotes and brackets can take up other selectors. -/
theorem isNestable_of_settles {key part : Text} (settled : SelectorDepth.outermost.settles key = true)
    (unquoted : SelectorDepth.outermost.refersUnquoted key = true) (member : part ∈ selectors key) :
    isNestable part = true := by
  rw [selectors, List.mem_filter, List.mem_map] at member
  obtain ⟨⟨text, member, rfl⟩, -⟩ := member
  obtain ⟨first, others, split⟩ := List.exists_cons_of_ne_nil (SelectorDepth.commaParts_ne_nil .outermost key)
  obtain ⟨⟨closed, unquotedFirst⟩, closedOthers⟩ := SelectorDepth.parts_of_settles settled unquoted split
  have parts := List.forall_mem_cons.mpr ⟨⟨decide_eq_true closed, unquotedFirst⟩, closedOthers⟩
  obtain ⟨closed, unquoted⟩ := parts text (split ▸ member)
  obtain ⟨closed, unquoted⟩ := SelectorDepth.closed_strip closed unquoted
  rw [isNestable, closed, unquoted, Bool.or_true]
  rfl

/-- The lists of places below some sizes, in lexicographic order. -/
def places : List Nat → List (List Nat)
  | [] => [[]]
  | size :: sizes => (List.range size).flatMap fun place => (places sizes).map (place :: ·)

theorem mem_places {sizes choice : List Nat} : choice ∈ places sizes ↔ List.Forall₂ (· < ·) choice sizes := by
  induction sizes generalizing choice with
  | nil => simp [places]
  | cons size sizes ih => cases choice <;> simp [places, ih]

theorem places_ascending (sizes : List Nat) : (places sizes).Pairwise (· < ·) := by
  induction sizes with
  | nil => simp [places]
  | cons size sizes ih =>
    rw [places, List.pairwise_flatMap]
    refine ⟨fun place _ => List.pairwise_map.mpr (ih.imp fun less => List.Lex.cons less), ?_⟩
    refine List.pairwise_lt_range.imp fun {a b} less first member second member' => ?_
    obtain ⟨_, -, rfl⟩ := List.mem_map.mp member
    obtain ⟨_, -, rfl⟩ := List.mem_map.mp member'
    exact List.Lex.rel less

theorem length_places (sizes : List Nat) : (places sizes).length = sizes.prod := by
  induction sizes with
  | nil => rfl
  | cons size sizes ih => simp [places, List.length_flatMap, ih]

/-- One selector of each key, the one at the given place, inside the one of the keys in front of it. The latest key
comes first. -/
def chosen (selector : Text) : List Text → List Nat → Text
  | key :: keys, place :: choice => nest (chosen selector keys choice) ((selectors key).getD place [])
  | _, _ => selector

/-- A selector that stands for itself, as the selector of a class does. -/
structure IsPlain (selector : Text) : Prop where
  nonempty : selector ≠ []
  noBlank : ∀ c ∈ selector, c.isBlank = false
  noSign : ∀ c ∈ selector, c.isOneOf ",\"\x27([)]" = false

theorem IsPlain.selectors_eq {selector : Text} (plain : IsPlain selector) : selectors selector = [selector] :=
  selectors_of_commaParts (commaParts_of_isClosed (isClosed_of_plain plain.noSign))
    (Text.isTrimmed_of_noBlank plain.nonempty plain.noBlank)

/-- The selectors of a list inside which keys are nested one after another, the latest key first. -/
private theorem selectors_foldr {selector : Text} (plain : IsPlain selector) {keys : List Text}
    (nestable : ∀ key ∈ keys, ∀ part ∈ selectors key, isNestable part = true) :
    (∀ part ∈ selectors (keys.foldr (fun key outer => nestedSelector outer key) selector), isClosed part = true) ∧
      selectors (keys.foldr (fun key outer => nestedSelector outer key) selector) =
        (places (keys.map fun key => (selectors key).length)).map (chosen selector keys) := by
  induction keys with
  | nil =>
    rw [List.foldr_nil, plain.selectors_eq]
    exact ⟨by simpa using isClosed_of_plain plain.noSign, rfl⟩
  | cons key keys ih =>
    obtain ⟨parts, others⟩ := List.forall_mem_cons.mp nestable
    obtain ⟨closed, choices⟩ := ih others
    rw [List.foldr_cons, selectors_nestedSelector closed parts]
    constructor
    · exact fun text member => isClosed_of_mem_nested closed parts member
    · have listed : selectors key =
          (List.range (selectors key).length).map fun place => (selectors key).getD place [] := by
        refine List.ext_getElem (by simp) fun place inside _ => ?_
        rw [List.getElem_map, List.getElem_range, List.getD_eq_getElem?_getD, List.getElem?_eq_getElem inside,
          Option.getD_some]
      rw [List.map_cons, places, List.map_flatMap, choices]
      conv => lhs; rw [listed]
      rw [List.flatMap_map]
      refine List.flatMap_congr fun place _ => ?_
      rw [List.map_map, List.map_map]
      rfl

/-- Keys that close their quotes and brackets, with no ampersand in quotes, are nested one after another in a plain
selector. The list that comes out has one selector for every choice of one selector from each key: the one of the
latest key inside the one of the keys in front of it. They stand in the order of their places, those of the latest key
first, and their number is the product of the numbers of the selectors of the keys. -/
theorem selectors_of_nested_keys {selector : Text} (plain : IsPlain selector) {keys : List Text}
    (settled : ∀ key ∈ keys, SelectorDepth.outermost.settles key = true ∧
      SelectorDepth.outermost.refersUnquoted key = true) :
    ∃ choices : List (List Nat),
      selectors (keys.foldl nestedSelector selector) = choices.map (chosen selector keys.reverse) ∧
      (∀ choice, choice ∈ choices ↔
        List.Forall₂ (fun place key => place < (selectors key).length) choice keys.reverse) ∧
      choices.Pairwise (· < ·) ∧
      (selectors (keys.foldl nestedSelector selector)).length = (keys.map fun key => (selectors key).length).prod := by
  have nestable : ∀ key ∈ keys.reverse, ∀ part ∈ selectors key, isNestable part = true := by
    intro key member part inside
    obtain ⟨closes, unquoted⟩ := settled key (List.mem_reverse.mp member)
    exact isNestable_of_settles closes unquoted inside
  have whole := (selectors_foldr plain nestable).2
  rw [List.foldr_reverse] at whole
  refine ⟨_, whole, fun choice => ?_, places_ascending _, ?_⟩
  · rw [mem_places, List.forall₂_map_right_iff]
  · rw [whole, List.length_map, length_places, List.map_reverse, List.prod_reverse]

/-- Commas in brackets, in quotes and behind one another, and a selector that is put into brackets twice. -/
theorem selectors_of_nested_keys_lists :
    let keys : List Text := [":is(a, b), &:hover", "& > [lang=\"a,b\"], , &:not(& &)"]
    IsPlain ".zx-1" ∧ (∀ key ∈ keys, SelectorDepth.outermost.settles key = true ∧
      SelectorDepth.outermost.refersUnquoted key = true) ∧
    (selectors (keys.foldl nestedSelector ".zx-1")).length = 4 ∧
    Text.ofString ".zx-1:is(a, b):not(.zx-1:is(a, b) .zx-1:is(a, b))" ∈
      selectors (keys.foldl nestedSelector ".zx-1") := by
  intro keys
  have plain : IsPlain ".zx-1" := ⟨by decide, by decide, by decide⟩
  have settled : ∀ key ∈ keys, SelectorDepth.outermost.settles key = true ∧
      SelectorDepth.outermost.refersUnquoted key = true := by decide +kernel
  obtain ⟨choices, whole, all, -, number⟩ := selectors_of_nested_keys plain settled
  refine ⟨plain, settled, number.trans (by decide +kernel), ?_⟩
  have choice : [1, 0] ∈ choices := (all [1, 0]).mpr (.cons (by decide +kernel) (.cons (by decide +kernel) .nil))
  have part : chosen ".zx-1" keys.reverse [1, 0] =
      Text.ofString ".zx-1:is(a, b):not(.zx-1:is(a, b) .zx-1:is(a, b))" := by decide +kernel
  rw [whole, ← part]
  exact List.mem_map_of_mem choice

end Style

end StaticStyle
