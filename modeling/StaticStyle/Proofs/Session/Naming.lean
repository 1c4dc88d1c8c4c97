import StaticStyle.Proofs.Draft.Tracing
import StaticStyle.Proofs.Json.Quoted
import StaticStyle.Proofs.Json.Reading
import StaticStyle.Proofs.Session.Declaration
import StaticStyle.Proofs.Session.Listing
import StaticStyle.Proofs.Text.Join

/-!
What planning puts in the place of declarations: the class of a style, and an object with the classes of several styles.
Both depend on the text of the declaration only, and both are written as the scanner reads them.
-/

namespace StaticStyle

open Markup Markup.Tree

namespace Markup.Tree

/-- The strokes of the ASCII form of a code point. -/
def Stroke.ofAscii (c : CodePoint) : List Stroke :=
  match Json.shortEscape? c with
  | some letter => [.escaped (.char letter)]
  | none =>
    if 0x20 ≤ c.toNat ∧ c.toNat < 0x7F then [.plain c]
    else c.units.flatMap fun unit => .escaped 'u' :: (hexDigits 4 unit).map .plain

theorem Stroke.print_ofAscii (c : CodePoint) : (ofAscii c).flatMap print = Json.asciiEscape c := by
  unfold ofAscii Json.asciiEscape
  cases Json.shortEscape? c with
  | some letter => rfl
  | none =>
    dsimp only
    split
    · rfl
    · have unit (unit : Nat) : (.escaped 'u' :: (hexDigits 4 unit).map plain : List Stroke).flatMap print =
          Json.unitEscape unit := by
        rw [List.flatMap_cons, flatMap_plain]
        rfl
      simp only [List.flatMap_assoc, unit]

theorem Stroke.isValid_ofAscii (c : CodePoint) : (ofAscii c).all (isValid '"') = true := by
  unfold ofAscii
  cases short : Json.shortEscape? c with
  | some letter => rfl
  | none =>
    dsimp only
    split
    · have noMark : c ≠ '"' := by
        rintro rfl
        simp [Json.shortEscape?] at short
      have noEscape : c ≠ '\\' := by
        rintro rfl
        simp [Json.shortEscape?] at short
      have noLine : c ≠ '\n' := by
        rintro rfl
        simp [Json.shortEscape?] at short
      simp [isValid, noMark, noEscape, noLine, CodePoint.isLineFeed]
    · have digits (unit : Nat) : (hexDigits 4 unit).all (fun c => isValid '"' (.plain c)) = true :=
        Json.all_hexDigits (by decide) 4 unit
      simp only [List.all_flatMap, List.all_eq_true (l := c.units), List.all_cons, List.all_map]
      intro unit _
      simpa [isValid] using digits unit

/-- A text in double quotes. -/
def Code.ascii (text : Text) (rest : Code) : Code := .quoted '"' (text.flatMap Stroke.ofAscii) rest

theorem Code.print_ascii (text : Text) (rest : Code) :
    (ascii text rest).print = Json.quoteAscii text ++ rest.print := by
  simp [ascii, print, quotation, Json.quoteAscii, List.flatMap_assoc, Stroke.print_ofAscii]

/-- A key of an object with its class. -/
def Code.member (entry : Text × Text) (rest : Code) : Code := ascii entry.1 (plains ": " (ascii entry.2 rest))

/-- The members of an object behind the first one, and the end of the object. -/
def Code.members : List (Text × Text) → Code
  | [] => .closing .curly .nil
  | entry :: rest => .plains ", " (member entry (members rest))

/-- An object with the classes of its keys. -/
def Code.object : List (Text × Text) → Code
  | [] => .opening .curly (.closing .curly .nil)
  | entry :: rest => .opening .curly (member entry (members rest))

theorem Code.print_member (entry : Text × Text) (rest : Code) :
    (member entry rest).print = Json.writeMember entry ++ rest.print := by
  simp [member, Json.writeMember, print_ascii]

theorem Code.print_members (entries : List (Text × Text)) :
    (members entries).print = (entries.map Json.writeMember).flatMap (Text.ofString ", " ++ ·) ++ "\x7d" := by
  induction entries with
  | nil => rfl
  | cons entry entries ih => simp [members, print_member, ih]

theorem Code.print_object (entries : List (Text × Text)) :
    (object entries).print = Json.writeObject entries := by
  cases entries with
  | nil => rfl
  | cons entry entries =>
    simp [object, print, print_member, print_members, Json.writeObject, Text.join_cons, Bracket.opening, Text.ofString]

theorem Code.isValid_ascii (text : Text) {rest : Code} {next : Option CodePoint}
    (valid : rest.isValid false '"' next = true) (before : CodePoint) :
    (ascii text rest).isValid false before next = true := by
  have strokes : (text.flatMap Stroke.ofAscii).all (Stroke.isValid '"') = true := by
    rw [List.all_flatMap, List.all_eq_true]
    exact fun c _ => Stroke.isValid_ofAscii c
  simp [ascii, isValid, strokes, valid, CodePoint.isQuote]

theorem Code.isValid_member (entry : Text × Text) {rest : Code} {next : Option CodePoint}
    (valid : rest.isValid false '"' next = true) (before : CodePoint) :
    (member entry rest).isValid false before next = true :=
  isValid_ascii entry.1 (isValid_plains (by decide) (isValid_ascii entry.2 valid) _) before

/-- The members of an object are written as the scanner reads code, have no elements, and close its brace. -/
theorem Code.members_sound (entries : List (Text × Text)) (before : CodePoint) (next : Option CodePoint) :
    (members entries).isValid false before next = true ∧ (members entries).isFlat = true ∧
      (members entries).unclosed [.curly] = some [] := by
  induction entries generalizing before with
  | nil => exact ⟨rfl, rfl, rfl⟩
  | cons entry entries ih =>
    obtain ⟨valid, flat, closed⟩ := ih '"'
    refine ⟨isValid_plains (by decide) (isValid_member entry valid) before, ?_, ?_⟩
    · simpa [members, member, ascii, isFlat] using flat
    · simpa [members, member, ascii, unclosed] using closed

theorem Code.object_sound (entries : List (Text × Text)) (before : CodePoint) (next : Option CodePoint) :
    (object entries).isValid false before next = true ∧ (object entries).isFlat = true ∧
      (object entries).unclosed [] = some [] := by
  cases entries with
  | nil => exact ⟨rfl, rfl, rfl⟩
  | cons entry entries =>
    obtain ⟨valid, flat, closed⟩ := members_sound entries '"' next
    refine ⟨isValid_member entry valid '\x7b', ?_, ?_⟩
    · simpa [object, member, ascii, isFlat] using flat
    · simpa [object, member, ascii, unclosed] using closed

theorem Code.spots_member {entry : Text × Text} {rest : Code} (none : ∀ offset, rest.spots 'c' offset = [])
    (offset : Nat) : (member entry rest).spots 'c' offset = [] := by
  have absent : .char 'c' ∉ Text.ofString ": " := by decide
  rw [member, ascii, spots, spots_plains absent, ascii, spots, none]

theorem Code.spots_members (entries : List (Text × Text)) (offset : Nat) : (members entries).spots 'c' offset = [] := by
  induction entries generalizing offset with
  | nil => rfl
  | cons entry entries ih =>
    have absent : .char 'c' ∉ Text.ofString ", " := by decide
    rw [members, spots_plains absent, spots_member ih]

theorem Code.spots_object (entries : List (Text × Text)) (offset : Nat) : (object entries).spots 'c' offset = [] := by
  cases entries with
  | nil => rfl
  | cons entry entries => rw [object, spots, spots_member (spots_members entries)]

theorem Code.getLast?_object (entries : List (Text × Text)) :
    (object entries).print.getLast? = some (.char '\x7d') := by
  rw [print_object, Json.writeObject, List.getLast?_append]
  rfl

end Markup.Tree

namespace Session

open Expression Style

/-- What an expression stands for does not depend on where it stands. -/
theorem fieldsAt?_eq (source source' text : Text) (offset offset' : Nat) :
    fieldsAt? source text offset = fieldsAt? source' text offset' := by
  have onward {source source' : Text} {offset offset' : Nat} {fields : Fields Value}
      (found : fieldsAt? source text offset = some fields) : fieldsAt? source' text offset' = some fields := by
    unfold fieldsAt? at found ⊢
    cases parsed : parse text ⟨offset, Position.ofOffset source offset⟩ with
    | error fault => simp [parsed] at found
    | ok node =>
      simp only [parsed] at found
      cases evaluated : evaluateObject node with
      | error rejection => simp [evaluated, Except.toOption] at found
      | ok fields' =>
        obtain ⟨node', parsed', evaluated'⟩ := evaluateObject_parse parsed evaluated rfl
          ⟨offset', Position.ofOffset source' offset'⟩
        simpa [parsed', evaluated', evaluated] using found
  cases found : fieldsAt? source text offset with
  | some fields => exact (onward found).symm
  | none =>
    cases found' : fieldsAt? source' text offset' with
    | none => rfl
    | some fields => simp [onward found'] at found

/-- The class of a style. -/
def styleClass? (style : Fields Value) : Option Text :=
  (Plan.nameStyle bareConfig (.object style)).toOption.map Prod.snd

/-- The class of the style that a text declares, or nothing. -/
def declaredClass (text : Text) : Text := ((fieldsAt? text text 0).bind styleClass?).getD []

/-- The keys of the styles that the argument of a call declares, with their classes. -/
def declaredEntries (argument : Text) : List (Text × Text) :=
  ((fieldsAt? argument (Plan.argumentExpression argument) 0).getD []).filterMap fun entry =>
    (entry.2.fields?.bind styleClass?).map (entry.1, ·)

/-- What planning puts in the place of declarations. -/
def naming : Naming where
  className := declaredClass
  object argument :=
    ⟨⟨.object (declaredEntries argument), (Code.object_sound _ '\n' none).2.1⟩, (Code.object_sound _ '\n' none).2.2⟩

theorem isClassPart_styleClass? {style : Fields Value} {name : Text} (named : styleClass? style = some name) :
    name.all isClassPart = true := by
  unfold styleClass? at named
  cases found : Plan.nameStyle bareConfig (.object style) with
  | error defect => simp [found, Except.toOption] at named
  | ok pair =>
    obtain ⟨identity, name'⟩ := pair
    simp only [found, Except.toOption, Option.map_some, Option.some.injEq] at named
    subst named
    obtain ⟨digits, length, stem, digested, -, stemOption, rfl, rfl⟩ := nameStyle_ok found
    obtain rfl : Text.ofString "zx" = stem := Except.ok.inj stemOption
    exact all_className digested (by decide) (by decide) (by decide) length

theorem naming_isSound : naming.IsSound where
  className text := by
    change ((fieldsAt? text text 0).bind styleClass?).getD [] |>.all isClassPart
    cases named : (fieldsAt? text text 0).bind styleClass? with
    | none => rfl
    | some name =>
      obtain ⟨style, -, named⟩ := Option.bind_eq_some_iff.mp named
      exact isClassPart_styleClass? named
  object text behind := (Code.object_sound _ '\n' behind).1
  opens text := by
    change (Code.object (declaredEntries text)).print.head? = _
    cases declaredEntries text <;> rfl

theorem naming_isQuiet : naming.IsQuiet where
  ends text := Code.getLast?_object (declaredEntries text)
  spots text := Code.spots_object (declaredEntries text)

end Session

end StaticStyle
