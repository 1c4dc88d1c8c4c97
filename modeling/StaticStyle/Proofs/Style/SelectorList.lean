import StaticStyle.Proofs.Text.Join
import StaticStyle.Proofs.Text.Strip
import StaticStyle.Style.Selector

/-!
Lists of selectors that are joined and split again. A selector that opens and closes its own quotes and brackets stays
in one piece wherever it is written outside quotes: in a list, behind another selector, or in place of an ampersand.
-/

namespace StaticStyle.Style

namespace SelectorDepth

/-- The depth behind a text, unless the text has an outermost comma or goes on outside the outermost brackets. -/
def behind? (depth : SelectorDepth) : Text → Option SelectorDepth
  | [] => some depth
  | c :: rest =>
    if (c = ',' ∧ depth = .outermost) ∨ (depth.next c).brackets < 0 then none else (depth.next c).behind? rest

/-- The same place inside some more brackets. -/
def within (depth : SelectorDepth) (brackets : Int) : SelectorDepth :=
  { depth with brackets := depth.brackets + brackets }

/-- Whether every ampersand in a text is outside quotes. -/
def refersUnquoted (depth : SelectorDepth) : Text → Bool
  | [] => true
  | c :: rest => (c != '&' || depth.quote.isNone) && (depth.next c).refersUnquoted rest

variable {depth behind : SelectorDepth}

theorem next_of_unquoted {c : CodePoint} (unquoted : depth.quote = none) (noQuote : c.isOneOf "\"\x27" = false)
    (noOpening : c.isOneOf "([" = false) (noClosing : c.isOneOf ")]" = false) : depth.next c = depth := by
  simp [next, unquoted, noQuote, noOpening, noClosing]

theorem next_within (depth : SelectorDepth) (brackets : Int) (c : CodePoint) :
    (depth.within brackets).next c = (depth.next c).within brackets := by
  obtain ⟨quote, own⟩ := depth
  cases quote with
  | some mark =>
    simp only [next, within]
    split <;> rfl
  | none =>
    simp only [next, within]
    split
    · rfl
    · split
      · rw [Int.add_right_comm]
      · split
        · rw [Int.sub_eq_add_neg, Int.sub_eq_add_neg, Int.add_right_comm]
        · rfl

theorem behind?_cons {c : CodePoint} {rest : Text} (walked : depth.behind? (c :: rest) = some behind) :
    ¬(c = ',' ∧ depth = .outermost) ∧ 0 ≤ (depth.next c).brackets ∧ (depth.next c).behind? rest = some behind := by
  rw [behind?] at walked
  split at walked
  · cases walked
  · rename_i inside
    rw [not_or] at inside
    exact ⟨inside.1, by omega, walked⟩

theorem behind?_append (text rest : Text) :
    depth.behind? (text ++ rest) = (depth.behind? text).bind fun behind => behind.behind? rest := by
  induction text generalizing depth with
  | nil => rfl
  | cons c text ih =>
    rw [List.cons_append, behind?, behind?]
    split
    · rfl
    · exact ih

/-- What is read outside all brackets is read inside some in the same way. -/
theorem behind?_within {brackets : Int} (inside : 0 ≤ brackets) {text : Text} (start : 0 ≤ depth.brackets)
    (walked : depth.behind? text = some behind) :
    (depth.within brackets).behind? text = some (behind.within brackets) := by
  induction text generalizing depth with
  | nil =>
    rw [behind?] at walked ⊢
    rw [Option.some.inj walked]
  | cons c text ih =>
    obtain ⟨noSplit, next, walked⟩ := behind?_cons walked
    have stays : ¬((c = ',' ∧ depth.within brackets = .outermost) ∨ ((depth.next c).within brackets).brackets < 0) := by
      rintro (⟨comma, outermost⟩ | negative)
      · rw [within, SelectorDepth.outermost, SelectorDepth.mk.injEq] at outermost
        obtain ⟨quote, none⟩ := outermost
        have here : depth.brackets = 0 := by omega
        exact noSplit ⟨comma, by rw [SelectorDepth.outermost, ← quote, ← here]⟩
      · simp only [within] at negative
        omega
    rw [behind?, next_within, if_neg stays]
    exact ih next walked

/-- The parts of a text without outermost commas and what follows are those of what follows, behind the text. -/
theorem commaParts_append {text rest part : Text} {parts : List Text} (walked : depth.behind? text = some behind)
    (split : commaParts behind rest = part :: parts) : commaParts depth (text ++ rest) = (text ++ part) :: parts := by
  induction text generalizing depth with
  | nil =>
    rw [Option.some.inj walked]
    exact split
  | cons c text ih =>
    obtain ⟨noSplit, -, walked⟩ := behind?_cons walked
    rw [List.cons_append, commaParts, if_neg noSplit, ih walked]
    rfl

end SelectorDepth

/-- Whether a text opens and closes its own quotes and brackets, and has no comma outside them. -/
def isClosed (text : Text) : Bool := SelectorDepth.outermost.behind? text = some .outermost

theorem isClosed_append {text other : Text} (closed : isClosed text = true) (closedOther : isClosed other = true) :
    isClosed (text ++ other) = true := by
  simp only [isClosed, decide_eq_true_eq] at closed closedOther ⊢
  rw [SelectorDepth.behind?_append, closed]
  exact closedOther

/-- A text without commas, quotes and brackets is closed. -/
theorem isClosed_of_plain {text : Text} (plain : ∀ c ∈ text, c.isOneOf ",\"\x27([)]" = false) :
    isClosed text = true := by
  refine decide_eq_true ?_
  induction text with
  | nil => rfl
  | cons c text ih =>
    obtain ⟨plainFirst, plainRest⟩ := List.forall_mem_cons.mp plain
    have stays : SelectorDepth.outermost.next c = .outermost := by
      refine SelectorDepth.next_of_unquoted rfl ?_ ?_ ?_ <;>
        simp [CodePoint.isOneOf, Text.ofString] at plainFirst ⊢ <;> simp [plainFirst]
    have noComma : c ≠ ',' := by
      rintro rfl
      simp [CodePoint.isOneOf, Text.ofString] at plainFirst
    rw [SelectorDepth.behind?, stays, if_neg (by simp [noComma, SelectorDepth.outermost])]
    exact ih plainRest

theorem behind?_of_isClosed {text : Text} (closed : isClosed text = true) {depth : SelectorDepth}
    (unquoted : depth.quote = none) (inside : 0 ≤ depth.brackets) : depth.behind? text = some depth := by
  have same : SelectorDepth.outermost.within depth.brackets = depth := by
    simp [SelectorDepth.within, SelectorDepth.outermost, ← unquoted]
  have walked := SelectorDepth.behind?_within inside (Int.le_refl 0) (of_decide_eq_true closed)
  rwa [same] at walked

/-- A closed text that is written in place of the ampersands of another one leaves its quotes and brackets as they
are. -/
theorem behind?_substitute {outer : Text} (closed : isClosed outer = true) {text : Text}
    {depth behind : SelectorDepth} (start : 0 ≤ depth.brackets) (unquoted : depth.refersUnquoted text = true)
    (walked : depth.behind? text = some behind) :
    depth.behind? (Text.substitute '&' outer text) = some behind := by
  induction text generalizing depth with
  | nil => exact walked
  | cons c text ih =>
    rw [SelectorDepth.refersUnquoted, Bool.and_eq_true] at unquoted
    obtain ⟨noSplit, next, walked⟩ := SelectorDepth.behind?_cons walked
    have rest := ih next unquoted.2 walked
    rw [Text.substitute, List.flatMap_cons, ← Text.substitute]
    by_cases reference : c = '&'
    · subst reference
      have quote : depth.quote = none := by simpa using unquoted.1
      rw [SelectorDepth.next_of_unquoted quote (by decide) (by decide) (by decide)] at rest
      rw [if_pos rfl, SelectorDepth.behind?_append, behind?_of_isClosed closed quote start]
      exact rest
    · rw [if_neg reference, List.singleton_append, SelectorDepth.behind?,
        if_neg (not_or.mpr ⟨noSplit, by omega⟩)]
      exact rest

section Lists

theorem commaParts_of_isClosed {text : Text} (closed : isClosed text = true) : commaParts .outermost text = [text] := by
  have parts : commaParts .outermost (text ++ []) = [text ++ []] :=
    SelectorDepth.commaParts_append (of_decide_eq_true closed) rfl
  rwa [List.append_nil] at parts

theorem commaParts_of_notMem {text : Text} (noComma : CodePoint.char ',' ∉ text) (depth : SelectorDepth) :
    commaParts depth text = [text] := by
  induction text generalizing depth with
  | nil => rfl
  | cons c text ih =>
    rw [List.mem_cons, not_or] at noComma
    rw [commaParts, if_neg fun splits => noComma.1 splits.1.symm, ih noComma.2]

private theorem isClosed_space_cons {text : Text} (closed : isClosed text = true) :
    isClosed (.char ' ' :: text) = true := by
  have space : isClosed [.char ' '] = true := by decide
  exact isClosed_append space closed

/-- Joined selectors are split where they are joined. -/
theorem commaParts_join {first : Text} {others : List Text}
    (closed : ∀ text ∈ first :: others, isClosed text = true) :
    commaParts .outermost (Text.join ", " (first :: others)) = first :: others.map (.char ' ' :: ·) := by
  rw [Text.join_cons]
  induction others generalizing first with
  | nil =>
    rw [List.flatMap_nil, List.append_nil, commaParts_of_isClosed (closed first List.mem_cons_self)]
    rfl
  | cons second others ih =>
    obtain ⟨closedFirst, closedOthers⟩ := List.forall_mem_cons.mp closed
    obtain ⟨closedSecond, closedOthers⟩ := List.forall_mem_cons.mp closedOthers
    have behind := ih (List.forall_mem_cons.mpr ⟨isClosed_space_cons closedSecond, closedOthers⟩)
    have split :
        commaParts .outermost (.char ',' :: (.char ' ' :: second ++ others.flatMap (Text.ofString ", " ++ ·))) =
          [] :: (.char ' ' :: second) :: others.map (.char ' ' :: ·) := by
      rw [commaParts, if_pos ⟨rfl, rfl⟩, behind]
    have parts := SelectorDepth.commaParts_append (of_decide_eq_true closedFirst) split
    rw [List.append_nil] at parts
    exact parts

/-- Selectors without outer blanks are found again in a list of them. -/
theorem selectors_join {texts : List Text} (closed : ∀ text ∈ texts, isClosed text = true)
    (trimmed : ∀ text ∈ texts, text.IsTrimmed) : selectors (Text.join ", " texts) = texts := by
  cases texts with
  | nil => rfl
  | cons first others =>
    have stripped : ((first :: others.map (.char ' ' :: ·)).map Text.strip) = first :: others := by
      rw [List.map_cons, (trimmed first List.mem_cons_self).strip_eq, List.map_map]
      congr 1
      conv => rhs; rw [← List.map_id others]
      exact List.map_congr_left fun text member =>
        (trimmed text (List.mem_cons_of_mem _ member)).strip_blank_cons (by decide)
    rw [selectors, commaParts_join closed, stripped, List.filter_eq_self]
    intro text member
    simpa using (trimmed text member).ne_nil

theorem selectors_of_commaParts {text : Text} (parts : commaParts .outermost text = [text]) (trimmed : text.IsTrimmed) :
    selectors text = [text] := by
  rw [selectors, parts, List.map_singleton, trimmed.strip_eq, List.filter_eq_self]
  simpa using trimmed.ne_nil

theorem isTrimmed_of_mem_selectors {list text : Text} (member : text ∈ selectors list) : text.IsTrimmed := by
  rw [selectors, List.mem_filter, List.mem_map] at member
  obtain ⟨⟨part, -, rfl⟩, some⟩ := member
  exact Text.isTrimmed_strip (by simpa using some)

end Lists

end StaticStyle.Style
