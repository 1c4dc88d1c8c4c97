import StaticStyle.Proofs.Markup.Occurrence
import StaticStyle.Proofs.Markup.Reading
import StaticStyle.Proofs.Markup.Spot
import StaticStyle.Proofs.Source.Turn

namespace StaticStyle

namespace Text

/-- What stands behind the blanks of two texts. -/
theorem head?_dropBlank_append (text behind : Text) :
    (dropBlank (text ++ behind)).head? = (dropBlank text).head?.or (dropBlank behind).head? := by
  rw [dropBlank, List.dropWhile_append]
  split
  · rename_i blank
    rw [dropBlank, List.isEmpty_iff.mp blank]
    rfl
  · rename_i visible
    rw [List.head?_append]
    cases same : List.dropWhile CodePoint.isBlank text with
    | nil => simp [same] at visible
    | cons c rest => simp [dropBlank, same]

theorem dropBlank_blanks {blanks : Text} (blank : blanks.all CodePoint.isBlank = true) : dropBlank blanks = [] := by
  rw [dropBlank, List.dropWhile_eq_nil_iff]
  exact List.all_eq_true.mp blank

theorem head?_dropBlank_drop {text : Text} {offset : Nat} {c : CodePoint} (found : text[offset]? = some c)
    (visible : c.isBlank = false) : (dropBlank (text.drop offset)).head? = some c := by
  rw [← List.head?_drop] at found
  obtain ⟨rest, same⟩ := List.head?_eq_some_iff.mp found
  rw [same, dropBlank, List.dropWhile_cons_of_neg (by simp [visible])]
  rfl

end Text

namespace Markup

open Expression (isNamePart)

namespace Call

open StaticStyle.Markup.Tree (leadsToCall OpensCall)

variable {callee text front front' behind behind' : Text}

/-- A call begins a text, with something other than blanks in its parentheses. -/
def IsFilled (callee text : Text) : Prop :=
  ∃ gap rest : Text, gap.all CodePoint.isBlank = true ∧ text = callee ++ (gap ++ .char '(' :: rest) ∧
    (Text.dropBlank rest).head? ≠ some (.char ')')

/-- Nothing in front of a name makes it a part of another name or the name of a definition. -/
structure IsFree (front : Text) : Prop where
  apart : continuesName front.getLast? = false
  noKeyword : followsKeyword front front.length = false

/-- A call that has something in its parentheses stands at a place of a text. -/
structure Fills (callee text : Text) (place : Nat) : Prop where
  free : IsFree (text.take place)
  filled : IsFilled callee (text.drop place)

/-- Such a call begins with the first letter of its name. -/
theorem IsFilled.begins {letter : CodePoint} (named : callee.all isNamePart = true) (first : callee.head? = some letter)
    (filled : IsFilled callee text) : Tree.Begins letter text := by
  obtain ⟨gap, rest, blank, rfl, -⟩ := filled
  have opens : OpensCall true (gap ++ .char '(' :: rest) := by
    induction gap with
    | nil => exact .opening
    | cons c gap ih =>
      obtain ⟨isBlank, blank⟩ := Bool.and_eq_true_iff.mp (List.all_cons.symm.trans blank)
      exact .blank isBlank (ih blank)
  exact ⟨by rw [List.head?_append, first, Option.some_or], opens.named named⟩

/-- A call that has something in its parentheses has it in front of more text as well. -/
theorem IsFilled.append (filled : IsFilled callee text) (fills : (Text.dropBlank behind).head? ≠ some (.char ')')) :
    IsFilled callee (text ++ behind) := by
  obtain ⟨gap, rest, blank, rfl, fills'⟩ := filled
  refine ⟨gap, rest ++ behind, blank, by simp, ?_⟩
  rw [Text.head?_dropBlank_append]
  cases same : (Text.dropBlank rest).head? with
  | none => simpa using fills
  | some c => simpa [same] using fills'

/-- No call goes on behind a code point that stands in none. -/
theorem IsFilled.of_stop {c : CodePoint} (named : callee.all isNamePart = true) (stops : leadsToCall c = false)
    (filled : IsFilled callee (text ++ c :: behind)) : IsFilled callee text := by
  obtain ⟨gap, rest, blank, same, fills⟩ := filled
  have leads : ∀ d ∈ callee ++ (gap ++ [.char '(']), leadsToCall d = true := by
    intro d member
    simp only [List.mem_append, List.mem_singleton] at member
    rcases member with member | member | rfl
    · simp [leadsToCall, List.all_eq_true.mp named d member]
    · simp [leadsToCall, List.all_eq_true.mp blank d member]
    · rfl
  have split : text ++ c :: behind = (callee ++ (gap ++ [.char '('])) ++ rest := by simp [same]
  rcases List.append_eq_append_iff.mp split with ⟨inside, first, second⟩ | ⟨inside, rfl, rfl⟩
  · cases inside with
    | nil => exact ⟨gap, [], blank, by simpa using first.symm, nofun⟩
    | cons d inside =>
      obtain ⟨rfl, -⟩ := List.cons.inj second
      rw [leads c (by rw [first]; simp)] at stops
      cases stops
  · refine ⟨gap, inside, blank, by simp, fun closes => fills ?_⟩
    rw [Text.head?_dropBlank_append, closes, Option.some_or]

/-- A call in front of one text is a call in front of another. -/
def Carries (callee behind behind' : Text) : Prop :=
  ∀ text, IsFilled callee (text ++ behind) → IsFilled callee (text ++ behind')

theorem Carries.append (carries : Carries callee behind behind') (text : Text) :
    Carries callee (text ++ behind) (text ++ behind') := by
  intro before filled
  rw [← List.append_assoc] at filled ⊢
  exact carries _ filled

theorem Carries.of_stop {c : CodePoint} (named : callee.all isNamePart = true) (stops : leadsToCall c = false)
    (fills : (Text.dropBlank behind').head? ≠ some (.char ')')) : Carries callee (c :: behind) behind' :=
  fun _ filled => (filled.of_stop named stops).append fills

theorem Carries.of_signs {c d : CodePoint} (named : callee.all isNamePart = true) (stops : leadsToCall c = false)
    (visible : d.isBlank = false) (other : d ≠ ')') : Carries callee (c :: behind) (d :: behind') := by
  refine .of_stop named stops ?_
  rw [Text.dropBlank, List.dropWhile_cons_of_neg (by simp [visible])]
  simpa using other

theorem Carries.refl (callee behind : Text) : Carries callee behind behind := fun _ filled => filled

/-- The code point behind an offset ends each call in front of it. -/
theorem Carries.of_getElem? {c : CodePoint} {offset : Nat} (named : callee.all isNamePart = true)
    (found : text[offset]? = some c) (stops : leadsToCall c = false)
    (fills : (Text.dropBlank behind').head? ≠ some (.char ')')) : Carries callee (text.drop offset) behind' := by
  rw [← List.head?_drop] at found
  obtain ⟨rest, same⟩ := List.head?_eq_some_iff.mp found
  rw [same]
  exact .of_stop named stops fills

/-- A front at the end of which neither a name nor a keyword goes on. -/
def Breaks (front : Text) : Prop :=
  ∃ (before : Text) (c : CodePoint) (blanks : Text), front = before ++ c :: blanks ∧
    blanks.all CodePoint.isBlank = true ∧ c.isBlank = false ∧ continuesName (some c) = false

/-- What is free behind one front is so behind another. -/
def Admits (front front' : Text) : Prop := ∀ text, IsFree (front ++ text) → IsFree (front' ++ text)

theorem Admits.refl (front : Text) : Admits front front := fun _ free => free

theorem Admits.append (admits : Admits front front') (text : Text) : Admits (front ++ text) (front' ++ text) := by
  intro behind free
  rw [List.append_assoc] at free ⊢
  exact admits _ free

namespace Breaks

theorem of_last {c : CodePoint} (noBlank : c.isBlank = false) (apart : continuesName (some c) = false) (before : Text) :
    Breaks (before ++ [c]) := ⟨before, c, [], rfl, rfl, noBlank, apart⟩

theorem blanks (breaks : Breaks front) {blanks : Text} (blank : blanks.all CodePoint.isBlank = true) :
    Breaks (front ++ blanks) := by
  obtain ⟨before, c, first, rfl, blank', noBlank, apart⟩ := breaks
  exact ⟨before, c, first ++ blanks, by simp, by simp [blank, blank'], noBlank, apart⟩

theorem apart (breaks : Breaks front) : continuesName front.getLast? = false := by
  obtain ⟨before, c, blanks, rfl, blank, -, apart⟩ := breaks
  rw [List.getLast?_append_of_ne_nil _ (List.cons_ne_nil _ _), List.getLast?_cons, continuesName]
  cases last : blanks.getLast? with
  | none => exact apart
  | some d => exact Tree.isWord_blank (List.all_eq_true.mp blank d (List.mem_of_getLast? last)) (by decide)

theorem noWord (breaks : Breaks front) : front.getLast?.any CodePoint.isWord = false := by
  have apart := breaks.apart
  cases last : front.getLast? with
  | none => rfl
  | some c =>
    rw [last, continuesName, Bool.or_eq_false_iff] at apart
    exact apart.1

/-- A keyword behind the front has nothing of it. -/
theorem keyword_behind (breaks : Breaks front) {before blanks : Text}
    (same : front ++ text = before ++ ("function" ++ blanks)) (blank : blanks.all CodePoint.isBlank = true) :
    ∃ inside : Text, before = front ++ inside ∧ text = inside ++ ("function" ++ blanks) := by
  rcases List.append_eq_append_iff.mp same with ⟨inside, first, second⟩ | ⟨inside, first, second⟩
  · exact ⟨inside, first, second⟩
  · obtain ⟨start, c, blanks', rfl, blank', noBlank, apart⟩ := breaks
    cases inside with
    | nil => exact ⟨[], by simpa using first.symm, by simpa using second.symm⟩
    | cons d inside =>
      have isFirst : d = .char 'f' := (List.cons.inj second).1.symm
      rcases List.append_eq_append_iff.mp first with ⟨middle, -, ends⟩ | ⟨middle, -, ends⟩
      · -- The keyword would begin with a blank.
        cases middle with
        | nil =>
          obtain ⟨rfl, -⟩ := List.cons.inj ends
          rw [isFirst] at apart
          exact absurd apart (by decide)
        | cons e middle =>
          have member : d ∈ blanks' := by
            rw [(List.cons.inj ends).2]
            simp
          rw [isFirst] at member
          exact absurd (List.all_eq_true.mp blank' _ member) (by decide)
      · -- The code point that breaks would be a part of the keyword.
        have member : c ∈ Text.ofString "function" ++ blanks := by
          rw [second, ends]
          simp
        rcases List.mem_append.mp member with member | member
        · have all : ∀ c ∈ Text.ofString "function", continuesName (some c) = true := by decide
          rw [all c member] at apart
          cases apart
        · rw [List.all_eq_true.mp blank c member] at noBlank
          cases noBlank

theorem admits (breaks : Breaks front) (breaks' : Breaks front') : Admits front front' := by
  intro text free
  refine ⟨?_, Bool.eq_false_iff.mpr fun seen => ?_⟩
  · cases text with
    | nil => simpa using breaks'.apart
    | cons c text =>
      rw [List.getLast?_append_of_ne_nil _ (List.cons_ne_nil _ _)]
      have apart := free.apart
      rwa [List.getLast?_append_of_ne_nil _ (List.cons_ne_nil _ _)] at apart
  · obtain ⟨before, blanks, ⟨same, blank⟩, shown⟩ := (followsKeyword_iff (Nat.le_refl _)).mp seen
    rw [List.take_length] at same
    obtain ⟨inside, rfl, rfl⟩ := breaks'.keyword_behind same blank
    have shown' : showsKeyword (front ++ inside) blanks = true := by
      cases inside with
      | nil =>
        rw [showsKeyword, List.append_nil, breaks'.noWord] at shown
        rwa [showsKeyword, List.append_nil, breaks.noWord]
      | cons c inside =>
        rw [showsKeyword, List.getLast?_append_of_ne_nil _ (List.cons_ne_nil _ _)] at shown ⊢
        exact shown
    have seen' := (followsKeyword_iff (Nat.le_refl _)).mpr
      ⟨front ++ inside, blanks, ⟨by rw [List.take_length, List.append_assoc], blank⟩, shown'⟩
    rw [free.noKeyword] at seen'
    cases seen'

end Breaks

theorem Breaks.of_getElem? {c : CodePoint} {offset : Nat} (found : text[offset]? = some c) (noBlank : c.isBlank = false)
    (apart : continuesName (some c) = false) : Breaks (text.take (offset + 1)) := by
  rw [List.take_add_one, found]
  exact .of_last noBlank apart _

theorem Breaks.of_stands {part : Text} {c : CodePoint} {offset : Nat} (stands : text.StandsAt offset part)
    (last : part.getLast? = some c) (noBlank : c.isBlank = false) (apart : continuesName (some c) = false) :
    Breaks (text.take (offset + part.length)) := by
  obtain ⟨before, rfl⟩ := List.getLast?_eq_some_iff.mp last
  rw [stands.take (Nat.le_refl _), List.take_length, ← List.append_assoc]
  exact .of_last noBlank apart _

/-- How a part of a source and a part of a code are surrounded: a call in the part of the code that is free there is
free in that of the source, and goes on behind it in the same way. -/
structure Surrounded (callee source code : Text) (start stop start' stop' : Nat) : Prop where
  front : Admits (code.take start') (source.take start)
  behind : Carries callee (code.drop stop') (source.drop stop)

namespace Surrounded

variable {source code part part' : Text} {start stop start' stop' : Nat}

/-- A call in a part that stands in both texts is found in the source where it stands in the code. -/
theorem fills (surrounded : Surrounded callee source code start stop start' stop') (stands : source.StandsAt start part)
    (stands' : code.StandsAt start' part) (ends : stop = start + part.length) (ends' : stop' = start' + part.length)
    {distance : Nat} (inside : distance ≤ part.length) (filled : Fills callee code (start' + distance)) :
    Fills callee source (start + distance) := by
  subst ends ends'
  obtain ⟨free, filled⟩ := filled
  rw [stands'.take inside] at free
  rw [stands'.drop inside] at filled
  refine ⟨?_, ?_⟩
  · rw [stands.take inside]
    exact surrounded.front _ free
  · rw [stands.drop inside]
    exact surrounded.behind _ filled

theorem past (surrounded : Surrounded callee source code start stop start' stop') (stands : source.StandsAt start part)
    (stands' : code.StandsAt start' part) :
    Surrounded callee source code (start + part.length) stop (start' + part.length) stop' := by
  refine ⟨?_, surrounded.behind⟩
  rw [stands.take (Nat.le_refl _), stands'.take (Nat.le_refl _), List.take_length]
  exact surrounded.front.append part

end Surrounded

/-- The text between the parentheses of a call is blank if the first thing in them closes them. -/
theorem all_isBlank_take_iff {rest : Text} {length : Nat} (closes : Bracket.round.contentLength? rest = some length) :
    (rest.take length).all CodePoint.isBlank = true ↔ (Text.dropBlank rest).head? = some (.char ')') := by
  have past {blanks : Text} (blank : blanks.all CodePoint.isBlank = true) (behind : Text) :
      Bracket.round.contentLength? (blanks ++ behind) =
        (Bracket.round.contentLength? behind).map (· + blanks.length) :=
    closingDistance?_all_neutral .round [] behind fun c member =>
      Tree.isNeutral_blank (List.all_eq_true.mp blank c member)
  constructor
  · intro blank
    have ends := Bracket.getElem?_contentLength closes
    rw [← List.head?_drop] at ends
    rw [← List.take_append_drop length rest, Text.head?_dropBlank_append, Text.dropBlank_blanks blank]
    obtain ⟨behind, same⟩ := List.head?_eq_some_iff.mp ends
    rw [same]
    rfl
  · intro head
    obtain ⟨behind, same⟩ := List.head?_eq_some_iff.mp head
    have blank : (rest.takeWhile CodePoint.isBlank).all CodePoint.isBlank = true := List.all_takeWhile
    have split : rest.takeWhile CodePoint.isBlank ++ Bracket.round.closing :: behind = rest := by
      rw [Bracket.closing, ← same, Text.dropBlank, List.takeWhile_append_dropWhile]
    rw [← split, past blank, Bracket.contentLength?, closingDistance?_last, if_pos rfl, Option.map_some, Nat.zero_add,
      Option.some.injEq] at closes
    rw [← split, ← closes, List.take_left]
    exact blank

theorem followsKeyword_take (source : Text) {offset : Nat} (inside : offset ≤ source.length) :
    followsKeyword (source.take offset) (source.take offset).length = followsKeyword source offset := by
  rw [List.length_take, Nat.min_eq_left inside, followsKeyword, followsKeyword, Text.slice, Text.slice, List.take_take,
    Nat.min_self]

variable {source : Text} {call : Call} {place : Nat}

/-- A call that a scan finds with something in its parentheses. -/
theorem Fills.of_mem (name : IsName callee) (member : call ∈ calls callee source)
    (filled : (call.argumentText source).isAllBlank = false) : Fills callee source call.start := by
  obtain ⟨⟨free, ⟨gap, blank, ⟨behind, here⟩, place⟩, closes, -⟩, -, noKeyword⟩ := (mem_calls name).mp member
  rw [List.append_assoc, List.append_assoc, List.singleton_append] at here
  have size := congrArg List.length here
  simp only [List.length_append, List.length_cons, List.length_drop] at size
  refine ⟨⟨free, ?_⟩, gap, behind, blank, here.symm, fun empty => ?_⟩
  · rwa [followsKeyword_take source (by omega)]
  · have opens : source.drop (call.argumentStart - 1) = Bracket.round.opening :: behind := by
      rw [show call.argumentStart - 1 = call.start + (callee.length + gap.length) by omega, ← List.drop_drop, ← here,
        ← List.drop_drop, List.drop_left, List.drop_left]
      rfl
    rw [Bracket.matching?_eq opens] at closes
    obtain ⟨length, closes, ends⟩ := Option.map_eq_some_iff.mp closes
    have isBlank := (all_isBlank_take_iff closes).mpr empty
    have begins : source.drop call.argumentStart = behind := by
      rw [show call.argumentStart = call.argumentStart - 1 + 1 by omega, ← List.drop_drop, opens]
      rfl
    rw [Call.argumentText, Text.slice, List.drop_take, begins,
      show call.argumentStop - call.argumentStart = length by omega, Text.isAllBlank, isBlank] at filled
    cases filled

/-- The parentheses of the calls of a name close, unless the calls are opaque or definitions. -/
def AllClose (callee source : Text) : Prop :=
  ∀ candidate ∈ candidates callee none 0 source, (survey source).isOpaque candidate.1 = true ∨
    followsKeyword source candidate.1 = true ∨
      (Bracket.round.contentLength? (source.drop (candidate.2 + 1))).isSome = true

instance (callee source : Text) : Decidable (AllClose callee source) :=
  inferInstanceAs (Decidable (∀ candidate ∈ _, _))

/-- A scan finds a call that has something in its parentheses, if they are closed. -/
theorem Fills.exists_call (name : IsName callee) (fills : Fills callee source place)
    (clear : (survey source).isOpaque place = false) (closes : AllClose callee source) :
    ∃ call ∈ calls callee source, call.start = place ∧ (call.argumentText source).isAllBlank = false := by
  obtain ⟨⟨free, noKeyword⟩, gap, behind, blank, here, fills⟩ := fills
  have named : openingDistance? callee (source.drop place) = some (callee.length + gap.length) :=
    openingDistance?_eq_some_iff.mpr ⟨gap, behind, blank, here, rfl⟩
  have size := congrArg List.length here
  simp only [List.length_append, List.length_cons, List.length_drop] at size
  rw [followsKeyword_take source (by omega)] at noKeyword
  have candidate : (0 + place, 0 + place + (callee.length + gap.length)) ∈ candidates callee none 0 source :=
    mem_candidates name (by rwa [Option.or_none]) named
  rw [Nat.zero_add] at candidate
  have closed := closes _ candidate
  rw [clear, noKeyword] at closed
  obtain ⟨length, closed⟩ := Option.isSome_iff_exists.mp ((closed.resolve_left nofun).resolve_left nofun)
  have begins : source.drop (place + (callee.length + gap.length) + 1) = behind := by
    rw [Nat.add_assoc, ← List.drop_drop, here, ← List.append_assoc, List.append_cons]
    exact List.drop_left' (by simp; omega)
  let argumentStart := place + (callee.length + gap.length) + 1
  refine ⟨⟨place, argumentStart + length + 1, argumentStart, argumentStart + length⟩,
    List.mem_filterMap.mpr ⟨_, candidate, ?_⟩, rfl, Bool.eq_false_iff.mpr fun isBlank => ?_⟩
  · dsimp only [ofCandidate?]
    rw [clear, noKeyword, Bool.or_false, if_neg Bool.false_ne_true, closed]
    rfl
  · rw [begins] at closed
    rw [Call.argumentText, Text.slice, List.drop_take, begins, Nat.add_sub_cancel_left] at isBlank
    exact fills ((all_isBlank_take_iff closed).mp isBlank)

end Call

namespace Tree.Code

variable {code : Code} {brackets : List Bracket} {letter : CodePoint} {place : Nat}

theorem isOpaque_print (valid : code.isValid false '\n' none = true) (closed : code.unclosed [] = some brackets) :
    (Markup.survey code.print).isOpaque place = (code.opaqueExtents 0).any (·.contains place) := by
  rw [survey_print valid closed]
  rfl

/-- The places of letters are not opaque. -/
theorem isOpaque_of_mem_spots (isLetter : isNamePart letter = true) (valid : code.isValid false '\n' none = true)
    (closed : code.unclosed [] = some brackets) (member : place ∈ code.spots letter 0) :
    (Markup.survey code.print).isOpaque place = false := by
  rw [isOpaque_print valid closed, List.any_eq_false]
  intro extent member'
  rw [(code.shows isLetter valid [] 0).apart place member extent member']
  exact Bool.false_ne_true

/-- A call that is not opaque stands at the place of the first letter of its name. -/
theorem mem_spots_of_fills {callee : Text} (named : callee.all isNamePart = true) (first : callee.head? = some letter)
    (valid : code.isValid false '\n' none = true) (closed : code.unclosed [] = some brackets)
    (filled : Call.IsFilled callee (code.print.drop place))
    (clear : (Markup.survey code.print).isOpaque place = false) : place ∈ code.spots letter 0 := by
  have isLetter : isNamePart letter = true := List.all_eq_true.mp named letter (List.mem_of_mem_head? first)
  have begins := filled.begins named first
  have inside : place < code.print.length := by
    by_contra outside
    have none := begins.first
    rw [List.drop_eq_nil_of_le (Nat.not_lt.mp outside)] at none
    cases none
  rw [← List.append_nil code.print] at begins
  rcases (code.shows isLetter valid [] 0).covers place inside begins with found | ⟨extent, member, contains⟩
  · rwa [Nat.zero_add] at found
  · rw [Nat.zero_add] at contains
    rw [isOpaque_print valid closed, List.any_eq_false] at clear
    exact absurd contains (clear extent member)

end Tree.Code

end Markup

end StaticStyle
