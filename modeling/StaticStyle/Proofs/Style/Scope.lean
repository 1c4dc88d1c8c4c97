import StaticStyle.Proofs.Markup.Reading
import StaticStyle.Proofs.Style.SelectorList
import StaticStyle.Proofs.Style.Shape

namespace StaticStyle

namespace Text

theorem infix_substitute {c : CodePoint} {text : Text} (member : c ∈ text) (replacement : Text) :
    replacement <:+: substitute c replacement text := by
  obtain ⟨before, after, rfl⟩ := List.append_of_mem member
  refine ⟨substitute c replacement before, substitute c replacement after, ?_⟩
  simp [substitute]

end Text

namespace Style

/-- Whether a selector is written around the one that it is nested in. -/
def isScoped (inner : Text) : Bool := inner.startsWith [.char ':'] || inner.contains (.char '&')

/-- Whether a selector can take up another one: it opens and closes its own quotes and brackets, and no ampersand that
the other one is written for is inside quotes. -/
def isNestable (inner : Text) : Bool :=
  isClosed inner && (inner.startsWith [.char ':'] || SelectorDepth.outermost.refersUnquoted inner)

section Nesting

variable {name outer inner key : Text}

theorem isClosed_nest (closed : isClosed outer = true) (nestable : isNestable inner = true) :
    isClosed (nest outer inner) = true := by
  rw [isNestable, Bool.and_eq_true] at nestable
  obtain ⟨closedInner, takes⟩ := nestable
  rw [nest]
  split
  · exact isClosed_append closed closedInner
  · rename_i noColon
    rw [Bool.eq_false_of_not_eq_true noColon, Bool.false_or] at takes
    exact decide_eq_true (behind?_substitute closed (Int.le_refl 0) takes (of_decide_eq_true closedInner))

theorem isTrimmed_nest (trimmed : outer.IsTrimmed) (trimmedInner : inner.IsTrimmed) :
    Text.IsTrimmed (nest outer inner) := by
  rw [nest]
  split
  · exact trimmed.append trimmedInner
  · exact trimmedInner.substitute trimmed _

/-- A selector with a leading colon or an ampersand has the outer one in it. -/
theorem infix_nest (around : isScoped inner = true) : outer <:+: nest outer inner := by
  rw [nest]
  split
  · exact (List.prefix_append outer inner).isInfix
  · rename_i noColon
    rw [isScoped, Bool.eq_false_of_not_eq_true noColon, Bool.false_or, List.contains_iff_mem] at around
    exact Text.infix_substitute around outer

theorem notMem_nest {c : CodePoint} (absent : c ∉ outer) (absentInner : c ∉ inner) : c ∉ nest outer inner := by
  rw [nest]
  split
  · simp [absent, absentInner]
  · simp only [Text.substitute, List.mem_flatMap, not_exists, not_and]
    intro d member
    split
    · exact absent
    · rw [List.mem_singleton]
      exact fun same => absentInner (same ▸ member)

theorem isClosed_of_mem_nested {outers inners : List Text} (closed : ∀ part ∈ outers, isClosed part = true)
    (nestable : ∀ inner ∈ inners, isNestable inner = true) {text : Text}
    (member : text ∈ inners.flatMap fun inner => outers.map fun part => nest part inner) : isClosed text = true := by
  obtain ⟨inner, memberInner, member⟩ := List.mem_flatMap.mp member
  obtain ⟨part, memberOuter, rfl⟩ := List.mem_map.mp member
  exact isClosed_nest (closed part memberOuter) (nestable inner memberInner)

/-- A nested list has the selectors that are due to every selector of the key in every selector around it. -/
theorem selectors_nestedSelector (closed : ∀ part ∈ selectors outer, isClosed part = true)
    (nestable : ∀ part ∈ selectors key, isNestable part = true) :
    selectors (nestedSelector outer key) =
      (selectors key).flatMap fun inner => (selectors outer).map fun part => nest part inner := by
  refine selectors_join (fun text member => isClosed_of_mem_nested closed nestable member) (fun text member => ?_)
  obtain ⟨inner, memberInner, member⟩ := List.mem_flatMap.mp member
  obtain ⟨part, memberOuter, rfl⟩ := List.mem_map.mp member
  exact isTrimmed_nest (isTrimmed_of_mem_selectors memberOuter) (isTrimmed_of_mem_selectors memberInner)

example : nestedSelector ".zx-1" "&:hover, span" = Text.ofString ".zx-1:hover, span" := by decide +kernel

end Nesting

section Keys

variable {key : Text}

/-- A key that nests a selector, which is a nested key and no at-rule. -/
structure NestsSelector (key : Text) : Prop where
  nests : isNested key = true
  noCondition : isCondition key = false

theorem NestsSelector.exists_cons (nests : NestsSelector key) : ∃ c rest, key = c :: rest ∧ (c = '&' ∨ c = ':') := by
  obtain ⟨nests, noCondition⟩ := nests
  cases key with
  | nil => simp [isNested] at nests
  | cons c rest =>
    have noMark : c ≠ '@' := by
      rintro rfl
      simp [isCondition, Text.startsWith] at noCondition
    have marks : c = '&' ∨ c = ':' ∨ c = '@' := by
      simpa [isNested, CodePoint.isOneOf, Text.ofString] using nests
    exact ⟨c, rest, rfl, by simpa [noMark] using marks⟩

theorem NestsSelector.selectors_ne_nil (nests : NestsSelector key) : selectors key ≠ [] := by
  obtain ⟨c, rest, rfl, mark⟩ := nests.exists_cons
  have noComma : c ≠ ',' := by rcases mark with rfl | rfl <;> decide
  have noBlank : c.isBlank = false := by rcases mark with rfl | rfl <;> decide
  obtain ⟨part, parts, split⟩ : ∃ part parts, commaParts .outermost (c :: rest) = (c :: part) :: parts := by
    rw [commaParts, if_neg fun splits => noComma splits.1]
    split <;> exact ⟨_, _, rfl⟩
  obtain ⟨behind, stripped⟩ := Text.exists_strip_cons noBlank part
  rw [selectors, split, List.map_cons, stripped]
  simp

/-- A key without commas has one selector, and this one is written around the outer ones. -/
theorem NestsSelector.selectors_of_notMem (nests : NestsSelector key) (noComma : CodePoint.char ',' ∉ key) :
    ∃ inner, selectors key = [inner] ∧ isScoped inner = true ∧ inner <:+: key := by
  obtain ⟨c, rest, rfl, mark⟩ := nests.exists_cons
  have noBlank : c.isBlank = false := by rcases mark with rfl | rfl <;> decide
  obtain ⟨behind, stripped⟩ := Text.exists_strip_cons noBlank rest
  refine ⟨c :: behind, ?_, ?_, stripped ▸ Text.infix_strip _⟩
  · rw [selectors, commaParts_of_notMem noComma, List.map_singleton, stripped]
    rfl
  · rcases mark with rfl | rfl <;> simp [isScoped, Text.startsWith]

mutual
private theorem isNested_of_mem_path {path : List Text} (nests : ∀ key ∈ path, isNested key = true) :
    ∀ value : Value, ∀ node ∈ objects path value, ∀ key ∈ node.path, isNested key = true
  | .object entries, node, member => by
    rw [objects, List.mem_cons, List.mem_flatMap] at member
    rcases member with rfl | ⟨behind, member, inside⟩
    · exact nests
    · exact isNested_of_mem_behind nests entries behind ((Fields.sorted_perm _).mem_iff.mp member) node inside
  | .null, _, member | .bool _, _, member | .int _, _, member | .float _, _, member
  | .text _, _, member | .list _, _, member => by simp [objects] at member

private theorem isNested_of_mem_behind {path : List Text} (nests : ∀ key ∈ path, isNested key = true) :
    ∀ entries : List (Text × Value), ∀ behind ∈ objectsBehind path entries, ∀ node ∈ behind.2,
      ∀ key ∈ node.path, isNested key = true
  | [], _, member, _, _ => by simp [objectsBehind] at member
  | (key, value) :: rest, behind, member, node, inside => by
    rw [objectsBehind, List.mem_cons] at member
    rcases member with rfl | member
    · dsimp only at inside
      split at inside
      · rename_i nestsKey
        exact isNested_of_mem_path (List.forall_mem_append.mpr ⟨nests, by simpa using nestsKey⟩) value node inside
      · simp at inside
    · exact isNested_of_mem_behind nests rest behind member node inside
end

theorem nestsSelector_of_mem {style : Fields Value} {node : ObjectNode} (member : node ∈ objects [] (.object style))
    (inside : key ∈ node.path.filter fun key => !isCondition key) : key ∈ node.path ∧ NestsSelector key := by
  obtain ⟨inside, selector⟩ := List.mem_filter.mp inside
  exact ⟨inside, isNested_of_mem_path (by simp) _ node member key inside, by simpa using selector⟩

end Keys

section Runs

variable {name outer key : Text}

/-- A list in which every selector is in one piece and holds a name. -/
def HoldsName (name list : Text) : Prop :=
  ∃ texts, texts ≠ [] ∧ list = Text.join ", " texts ∧
    ∀ text ∈ texts, text.IsTrimmed ∧ isClosed text = true ∧ name <:+: text

theorem HoldsName.infix_part {list : Text} (holds : HoldsName name list) :
    ∀ part ∈ commaParts .outermost list, name <:+: part := by
  obtain ⟨texts, some, rfl, each⟩ := holds
  obtain ⟨first, others, rfl⟩ := List.exists_cons_of_ne_nil some
  rw [commaParts_join fun text member => (each text member).2.1]
  obtain ⟨holdsFirst, holdsOthers⟩ := List.forall_mem_cons.mp each
  refine List.forall_mem_cons.mpr ⟨holdsFirst.2.2, List.forall_mem_map.mpr fun text member => ?_⟩
  exact List.infix_cons (holdsOthers text member).2.2

/-- A key whose selectors are all written around the outer ones keeps the name in every selector. -/
theorem HoldsName.step (holds : HoldsName name outer) (nests : NestsSelector key)
    (parts : ∀ part ∈ selectors key, isNestable part = true ∧ isScoped part = true) :
    HoldsName name (nestedSelector outer key) := by
  obtain ⟨texts, some, rfl, each⟩ := holds
  have same : selectors (Text.join ", " texts) = texts :=
    selectors_join (fun text member => (each text member).2.1) fun text member => (each text member).1
  refine ⟨_, ?_, by rw [nestedSelector, same], fun text member => ?_⟩
  · simpa [List.flatMap_eq_nil_iff, some] using List.exists_mem_of_ne_nil _ nests.selectors_ne_nil
  · obtain ⟨inner, memberInner, member⟩ := List.mem_flatMap.mp member
    obtain ⟨part, memberOuter, rfl⟩ := List.mem_map.mp member
    obtain ⟨trimmed, closed, holds⟩ := each part memberOuter
    obtain ⟨nestable, around⟩ := parts inner memberInner
    exact ⟨isTrimmed_nest trimmed (isTrimmed_of_mem_selectors memberInner), isClosed_nest closed nestable,
      holds.trans (infix_nest around)⟩

theorem HoldsName.run (holds : HoldsName name outer) {keys : List Text} (nest : ∀ key ∈ keys, NestsSelector key ∧
    ∀ part ∈ selectors key, isNestable part = true ∧ isScoped part = true) :
    HoldsName name (keys.foldl nestedSelector outer) :=
  List.foldlRecOn keys nestedSelector holds fun _ holds key member =>
    holds.step (nest key member).1 (nest key member).2

/-- A text without commas that holds a name. Nothing is known of its quotes and brackets. -/
structure IsSole (name text : Text) : Prop where
  trimmed : text.IsTrimmed
  noComma : CodePoint.char ',' ∉ text
  holds : name <:+: text

/-- A key without commas keeps the name, and brings in no comma. -/
theorem IsSole.step (sole : IsSole name outer) (nests : NestsSelector key) (noComma : CodePoint.char ',' ∉ key) :
    IsSole name (nestedSelector outer key) := by
  obtain ⟨inner, selectorsKey, around, part⟩ := nests.selectors_of_notMem noComma
  have selectorsOuter : selectors outer = [outer] :=
    selectors_of_commaParts (commaParts_of_notMem sole.noComma _) sole.trimmed
  have nested : nestedSelector outer key = nest outer inner := by
    rw [nestedSelector, selectorsKey, selectorsOuter]
    exact List.append_nil _
  have trimmed : inner.IsTrimmed := isTrimmed_of_mem_selectors (selectorsKey ▸ List.mem_singleton_self inner)
  rw [nested]
  exact ⟨isTrimmed_nest sole.trimmed trimmed, notMem_nest sole.noComma fun member => noComma (part.subset member),
    sole.holds.trans (infix_nest around)⟩

theorem IsSole.run (sole : IsSole name outer) {keys : List Text}
    (nest : ∀ key ∈ keys, NestsSelector key ∧ CodePoint.char ',' ∉ key) :
    IsSole name (keys.foldl nestedSelector outer) :=
  List.foldlRecOn keys nestedSelector sole fun _ sole key member => sole.step (nest key member).1 (nest key member).2

end Runs

section Classes

variable {className : Text}

/-- Letters, digits, low lines and hyphens. -/
def IsClassName (className : Text) : Prop := ∀ c ∈ className, c.isWord = true ∨ c = '-'

theorem IsClassName.isBlank_eq_false (named : IsClassName className) {c : CodePoint} (member : c ∈ className) :
    c.isBlank = false := by
  rcases named c member with word | rfl
  · by_contra blank
    rw [Markup.isWord_of_isBlank (Bool.eq_true_of_not_eq_false blank)] at word
    cases word
  · decide

theorem IsClassName.isOneOf_eq_false (named : IsClassName className) {c : CodePoint} (member : c ∈ className) :
    c.isOneOf ",\"\x27([)]" = false := by
  have apart : ∀ sign ∈ Text.ofString ",\"\x27([)]", sign.isWord = false ∧ sign ≠ '-' := by decide +kernel
  by_contra sign
  have other := apart c (by simpa [CodePoint.isOneOf] using sign)
  rcases named c member with word | hyphen
  · rw [other.1] at word
    cases word
  · exact other.2 hyphen

theorem isTrimmed_class (named : IsClassName className) : Text.IsTrimmed (.char '.' :: className) where
  begins := by rw [List.head?_cons]; decide
  ends := by
    cases last : className.getLast? with
    | none => rw [List.getLast?_eq_none_iff.mp last]; decide
    | some c =>
      have kept := named.isBlank_eq_false (List.mem_of_getLast? last)
      rw [List.getLast?_cons, last]
      simpa using kept

theorem isSole_class (named : IsClassName className) : IsSole (.char '.' :: className) (.char '.' :: className) where
  trimmed := isTrimmed_class named
  noComma := by
    rw [List.mem_cons, not_or]
    refine ⟨by decide, fun comma => ?_⟩
    have sign := named.isOneOf_eq_false comma
    revert sign
    decide
  holds := List.infix_refl _

theorem holdsName_class (named : IsClassName className) :
    HoldsName (.char '.' :: className) (.char '.' :: className) := by
  have plain : ∀ c ∈ CodePoint.char '.' :: className, c.isOneOf ",\"\x27([)]" = false :=
    List.forall_mem_cons.mpr ⟨by decide, fun c inside => named.isOneOf_eq_false inside⟩
  refine ⟨[.char '.' :: className], List.cons_ne_nil _ _, by simp [Text.join], fun text member => ?_⟩
  rw [List.mem_singleton.mp member]
  exact ⟨isTrimmed_class named, isClosed_of_plain plain, List.infix_refl _⟩

end Classes

/-- Whether the selectors on the way to an object are all written around one another. They are so where no key has a
comma, whatever else is in them. -/
def ObjectNode.IsScoped (node : ObjectNode) : Prop :=
  (∀ key ∈ node.path, isCondition key = false → CodePoint.char ',' ∉ key) ∨
    ∀ key ∈ node.path, isCondition key = false → ∀ part ∈ selectors key, isNestable part = true ∧ isScoped part = true

/-- The selectors of every block that only scoped keys lead to hold the class of the rule. -/
theorem selectors_hold_class (stem className identity : Text) (style : Fields Value) (rule : Rule)
    (named : IsClassName className) (compiled : (compile stem className identity style).result = .ok rule) :
    ∃ blocks, (compileBlocks stem (.char '.' :: className) style).result = .ok blocks ∧
      rule.primary :: rule.siblings = blocks.map Block.css ∧
      blocksRulesets [] blocks = (objects [] (.object style)).map (ObjectNode.ruleset stem (.char '.' :: className)) ∧
      ∀ node ∈ objects [] (.object style), node.IsScoped →
        ∀ part ∈ commaParts .outermost (node.ruleset stem (.char '.' :: className)).selector,
          .char '.' :: className <:+: part := by
  obtain ⟨blocks, blocksOk, texts⟩ := blocks_of_compile compiled
  refine ⟨blocks, blocksOk, texts, rulesets_of_compileBlocks blocksOk, fun node member around => ?_⟩
  rcases around with noComma | parts
  · have sole : IsSole (.char '.' :: className) (node.ruleset stem (.char '.' :: className)).selector := by
      refine (isSole_class named).run fun key inside => ?_
      obtain ⟨onPath, nests⟩ := nestsSelector_of_mem member inside
      exact ⟨nests, noComma key onPath nests.noCondition⟩
    rw [commaParts_of_notMem sole.noComma]
    simpa using sole.holds
  · have holds : HoldsName (.char '.' :: className) (node.ruleset stem (.char '.' :: className)).selector := by
      refine (holdsName_class named).run fun key inside => ?_
      obtain ⟨onPath, nests⟩ := nestsSelector_of_mem member inside
      exact ⟨nests, parts key onPath nests.noCondition⟩
    exact holds.infix_part

/-- Lists inside lists, with a comma in brackets and one in quotes, and under an at-rule a key that closes a bracket
which it has not opened. -/
theorem selectors_hold_class_in_lists :
    let inner : Fields Value := [("& > &[lang=\"a,b\"], :focus", .object [])]
    let unclosed : Fields Value := [("&) \x27&", .object [])]
    let style : Fields Value := [(":is(a, b), &:hover", .object inner), ("@media a, b", .object unclosed)]
    ∃ rule, (compile "--theme" "zx-1" "1" style).result = .ok rule ∧ IsClassName "zx-1" ∧
      ∃ blocks, (compileBlocks "--theme" ".zx-1" style).result = .ok blocks ∧
        rule.primary :: rule.siblings = blocks.map Block.css ∧
        ∀ ruleset ∈ blocksRulesets [] blocks,
          ∀ part ∈ commaParts .outermost ruleset.selector, Text.ofString ".zx-1" <:+: part := by
  intro inner unclosed style
  have named : IsClassName "zx-1" := by unfold IsClassName; decide +kernel
  obtain ⟨rule, compiled⟩ : ∃ rule, (compile "--theme" "zx-1" "1" style).result = .ok rule :=
    compile_ok_of_shapely _ _ _ (by decide +kernel)
  obtain ⟨blocks, blocksOk, texts, rulesets, hold⟩ :=
    selectors_hold_class "--theme" "zx-1" "1" style rule named compiled
  refine ⟨rule, compiled, named, blocks, blocksOk, texts, ?_⟩
  have order : objects [] (.object style) =
      [⟨[], style⟩, ⟨[":is(a, b), &:hover"], inner⟩, ⟨[":is(a, b), &:hover", "& > &[lang=\"a,b\"], :focus"], []⟩,
        ⟨["@media a, b"], unclosed⟩, ⟨["@media a, b", "&) \x27&"], []⟩] := by cbv
  have around : ∀ node ∈ objects [] (.object style), node.IsScoped := by
    rw [order]
    unfold ObjectNode.IsScoped
    decide +kernel
  rw [rulesets]
  exact List.forall_mem_map.mpr fun node member => hold node member (around node member)

end Style

end StaticStyle
