import StaticStyle.Proofs.Expression.Static
import StaticStyle.Proofs.Markup.Tree

namespace StaticStyle.Markup.Tree

open Expression (isNamePart)

/-- Whether code has no elements, templates and operators of its own, and no parenthesis behind a word and blanks. -/
def Code.isCalm (afterWord : Bool) : Code → Bool
  | .nil => true
  | .plain c rest => rest.isCalm (isNamePart c || (afterWord && c.isBlank))
  | .opening bracket rest => !(afterWord && bracket == .round) && rest.isCalm false
  | .closing _ rest | .quoted _ _ rest | .lineComment _ rest | .blockComment _ rest =>
    rest.isCalm false
  | .operator .. | .template .. | .node .. => false

theorem Code.isCalm_mono (code : Code) {afterWord afterWord' : Bool}
    (calm : code.isCalm afterWord = true) (fewer : afterWord' = true → afterWord = true) :
    code.isCalm afterWord' = true := by
  match code with
  | .nil => rfl
  | .plain c rest =>
    refine Code.isCalm_mono rest calm fun after => ?_
    rcases Bool.or_eq_true_iff.mp after with part | blank
    · simp [part]
    · obtain ⟨after, blank⟩ := Bool.and_eq_true_iff.mp blank
      simp [fewer after, blank]
  | .opening bracket rest =>
    simp only [Code.isCalm, Bool.and_eq_true, Bool.not_eq_true'] at calm ⊢
    refine ⟨?_, calm.2⟩
    cases afterWord' with
    | false => rfl
    | true => exact fewer rfl ▸ calm.1
  | .operator .. | .template .. | .node .. => simp [Code.isCalm] at calm
  | .closing _ _ | .quoted _ _ _ | .lineComment _ _ | .blockComment _ _ => exact calm

/-- Code without elements and calls that is written as a text, behind brackets that it closes. -/
structure Code.Writes (code : Code) (text : Text) (afterWord : Bool) (brackets : List Bracket) : Prop where
  print : code.print = text
  valid : ∀ before behind, code.isValid true before behind = true
  closed : code.unclosed brackets = some []
  calm : code.isCalm afterWord = true

/-- The code points that do not stand for themselves in code. -/
def specials : Text := ['"', '\x27', '\x60', '/', '<', '(', '[', '\x7b', ')', ']', '\x7d']

theorem isPlain_of_not_special {c : CodePoint} (ordinary : c ∉ specials) : isPlain c = true := by
  simp only [specials, List.mem_cons, not_or, List.not_mem_nil, not_false_iff, and_true] at ordinary
  simp [isPlain, CodePoint.isQuote, Bracket.ofOpening?, Bracket.ofClosing?, ordinary]

theorem isPlain_of_holds {p : CodePoint → Bool} (none : ∀ c ∈ specials, p c = false) {c : CodePoint}
    (holds : p c = true) : isPlain c = true :=
  isPlain_of_not_special fun special => by simp [none c special] at holds

theorem all_isPlain_of_all {p : CodePoint → Bool} (none : ∀ c ∈ specials, p c = false) {run : Text}
    (holds : run.all p = true) : run.all isPlain = true :=
  List.all_eq_true.mpr fun c member => isPlain_of_holds none (List.all_eq_true.mp holds c member)

namespace Code.Writes

variable {code : Code} {text : Text} {afterWord afterWord' : Bool} {brackets : List Bracket}

theorem nothing (afterWord : Bool) : Code.nil.Writes [] afterWord [] := ⟨rfl, fun _ _ => rfl, rfl, rfl⟩

theorem mono (written : code.Writes text afterWord brackets)
    (fewer : afterWord' = true → afterWord = true) : code.Writes text afterWord' brackets :=
  { written with calm := code.isCalm_mono written.calm fewer }

theorem isCalm (written : code.Writes text afterWord brackets) : code.isCalm false = true :=
  code.isCalm_mono written.calm nofun

theorem plain (written : code.Writes text afterWord brackets) {c : CodePoint}
    (isPlain : isPlain c = true)
    (word : (isNamePart c || (afterWord' && c.isBlank)) = true → afterWord = true) :
    (Code.plain c code).Writes (c :: text) afterWord' brackets where
  print := by rw [Code.print, written.print]
  valid _ _ := by rw [Code.isValid, isPlain, written.valid]; rfl
  closed := written.closed
  calm := (written.mono word).calm

/-- A run of plain code points in front of code that stands behind a word. -/
theorem run (written : code.Writes text true brackets) {run : Text} (plain : run.all isPlain = true)
    (afterWord : Bool) : ∃ code' : Code, code'.Writes (run ++ text) afterWord brackets := by
  induction run generalizing afterWord with
  | nil => exact ⟨code, written.mono fun _ => rfl⟩
  | cons c run ih =>
    obtain ⟨first, others⟩ := Bool.and_eq_true_iff.mp (List.all_cons.symm.trans plain)
    obtain ⟨code', written'⟩ := ih others (isNamePart c || (afterWord && c.isBlank))
    exact ⟨.plain c code', written'.plain first id⟩

theorem quoted (written : code.Writes text afterWord brackets) {mark : CodePoint}
    {body : List Stroke} (isMark : mark.isQuote = true)
    (valid : body.all (Stroke.isValid mark) = true) :
    (Code.quoted mark body code).Writes (quotation mark body ++ text) afterWord' brackets where
  print := by rw [Code.print, written.print]
  valid _ _ := by rw [Code.isValid, isMark, valid, written.valid]; rfl
  closed := written.closed
  calm := written.isCalm

theorem lineComment (written : code.Writes text afterWord brackets) {body : Text}
    (noFeed : body.any CodePoint.isLineFeed = false) :
    (Code.lineComment body code).Writes ("//" ++ body ++ "\n" ++ text) afterWord' brackets where
  print := by rw [Code.print, written.print]
  valid _ _ := by rw [Code.isValid, noFeed, written.valid]; rfl
  closed := written.closed
  calm := written.isCalm

theorem blockComment (written : code.Writes text afterWord brackets) {body : Text}
    (noEnd : Text.occursIn "*/" body = false) :
    (Code.blockComment body code).Writes ("/*" ++ body ++ "*/" ++ text) afterWord' brackets where
  print := by rw [Code.print, written.print]
  valid _ _ := by rw [Code.isValid, noEnd, written.valid]; rfl
  closed := written.closed
  calm := written.isCalm

theorem opening {bracket : Bracket} (written : code.Writes text afterWord (bracket :: brackets))
    (noCall : (afterWord' && bracket == .round) = false) :
    (Code.opening bracket code).Writes (bracket.opening :: text) afterWord' brackets where
  print := by rw [Code.print, written.print]
  valid _ _ := written.valid _ _
  closed := written.closed
  calm := by
    rw [Code.isCalm, noCall, written.isCalm]
    rfl

theorem closing (written : code.Writes text afterWord brackets) (bracket : Bracket) :
    (Code.closing bracket code).Writes (bracket.closing :: text) afterWord' (bracket :: brackets) where
  print := by rw [Code.print, written.print]
  valid _ _ := written.valid _ _
  closed := by rw [Code.unclosed, if_pos rfl, written.closed]
  calm := written.isCalm

end Code.Writes

end StaticStyle.Markup.Tree

namespace StaticStyle.Expression

open Markup.Tree

theorem exists_strokes {mark : CodePoint} {text : Text} {length : Nat}
    (found : quotedLength? mark false text = some length) :
    ∃ body : List Stroke, body.all (Stroke.isValid mark) = true ∧
      mark :: text = quotation mark body ++ text.drop length := by
  fun_induction quotedLength? mark false text generalizing length with
  | case1 | case3 | case5 | case6 => cases found
  | case2 rest =>
    cases found
    exact ⟨[], rfl, rfl⟩
  | case4 d rest noFeed noMark ih =>
    obtain ⟨further, read, rfl⟩ := Option.map_eq_some_iff.mp found
    obtain ⟨body, valid, same⟩ := ih read
    refine ⟨.escaped d :: body, valid, ?_⟩
    simpa [quotation, Stroke.print] using same
  | case7 c rest noMark noEscape noFeed ih =>
    obtain ⟨further, read, rfl⟩ := Option.map_eq_some_iff.mp found
    obtain ⟨body, valid, same⟩ := ih read
    refine ⟨.plain c :: body, ?_, ?_⟩
    · simpa [Stroke.isValid, noMark, noEscape, valid] using noFeed
    · simpa [quotation, Stroke.print] using same

theorem exists_comment {text : Text} {length : Nat} (found : commentEnd? text = some length) :
    ∃ body : Text, Text.occursIn "*/" body = false ∧ text = body ++ "*/" ++ text.drop length := by
  fun_induction commentEnd? text generalizing length with
  | case1 rest =>
    cases found
    exact ⟨[], rfl, rfl⟩
  | case2 c rest noEnd ih =>
    obtain ⟨further, read, rfl⟩ := Option.map_eq_some_iff.mp found
    obtain ⟨body, closes, same⟩ := ih read
    refine ⟨c :: body, ?_, by simpa using same⟩
    rw [Text.occursIn, closes, Bool.or_false, Bool.eq_false_iff]
    intro begins
    obtain ⟨behind, ends⟩ := List.isPrefixOf_iff_prefix.mp begins
    have split : CodePoint.char '*' :: .char '/' :: behind = c :: body := ends
    obtain ⟨isStar, rfl⟩ := List.cons.inj split
    exact noEnd (behind ++ "*/" ++ rest.drop further) isStar.symm same
  | case3 => cases found

private theorem take_append_behind (first : CodePoint) (rest behind : Text) (length : Nat) :
    (first :: rest).take (length + 1) ++ (rest.drop length ++ behind) = first :: rest ++ behind := by
  rw [← List.append_assoc]
  exact congrArg (· ++ behind) (List.take_append_drop (length + 1) (first :: rest))

section

variable {afterWord : Bool} {brackets inner : List Bracket} {first : CodePoint} {rest behind : Text}
  {found : Lexeme} {length : Nat} {code : Code}

private theorem exists_code_punctuation {awaiting : Awaiting}
    (read : punctuation awaiting (first :: rest) = (found, length + 1))
    (turn : found.turn brackets = some inner)
    (noCall : (afterWord && found == .opening .round) = false)
    (written : code.Writes (rest.drop length ++ behind) found.isWord inner) :
    ∃ code' : Code, code'.Writes (first :: rest ++ behind) afterWord brackets := by
  have mark {c : CodePoint} (isMark : first = c) (one : length = 0) (isPlain : isPlain c = true)
      (apart : (isNamePart c || (afterWord && c.isBlank)) = false) (same : inner = brackets) :
      ∃ code' : Code, code'.Writes (first :: rest ++ behind) afterWord brackets := by
    subst isMark one same
    exact ⟨_, written.plain isPlain fun word => by simp [apart] at word⟩
  unfold punctuation at read
  split at read
  · cases read
    cases turn
  · cases read
    cases turn
  · split at read <;> cases read <;> cases turn
  · cases read
    cases turn
  iterate 4
    · rename_i text
      cases text
      cases read
      cases turn
      exact mark rfl rfl (by decide) (by cases afterWord <;> decide) rfl
  · rename_i text
    cases text
    split at read
    · rename_i bracket _ _ opens
      cases read
      cases turn
      obtain rfl := Bracket.eq_opening opens
      exact ⟨_, written.opening (by simpa using noCall)⟩
    · rename_i bracket _ closes
      cases read
      obtain rfl := Bracket.eq_closing closes
      cases brackets with
      | nil => cases turn
      | cons innermost outer =>
        rw [Lexeme.turn] at turn
        split at turn
        · rename_i same
          cases turn
          subst same
          exact ⟨_, written.closing _⟩
        · cases turn
    · cases read
  · rename_i empty
    cases empty

private theorem exists_code_run (plain : ((first :: rest).take (length + 1)).all isPlain = true)
    (written : code.Writes (rest.drop length ++ behind) true inner) (afterWord : Bool) :
    ∃ code' : Code, code'.Writes (first :: rest ++ behind) afterWord inner := by
  rw [← take_append_behind first rest behind length]
  exact written.run plain afterWord

/-- A lexeme of a static style in front of code. -/
private theorem exists_code_lexeme {awaiting : Awaiting}
    (read : lexeme awaiting first rest = (found, length + 1))
    (turn : found.turn brackets = some inner)
    (noCall : (afterWord && found == .opening .round) = false)
    (written : code.Writes (rest.drop length ++ behind) found.isWord inner) :
    ∃ code' : Code, code'.Writes (first :: rest ++ behind) afterWord brackets := by
  have number : ((first :: rest).take (if first = '.' ∧ awaiting = .operator then 0
      else numberLength (first :: rest))).all isPlain = true := by
    split
    · rfl
    · exact all_isPlain_of_all (by decide) (all_take_numberLength _)
  unfold lexeme at read
  dsimp only at read
  generalize (if first = '.' ∧ awaiting = .operator then 0 else numberLength (first :: rest)) = count
    at read number
  split at read
  · have plain : ((first :: rest).takeWhile isNamePart).all isPlain = true :=
      all_isPlain_of_all (by decide) List.all_takeWhile
    obtain ⟨rfl, size⟩ := Prod.mk.inj read
    cases turn
    rw [List.prefix_iff_eq_take.mp (List.takeWhile_prefix isNamePart), size] at plain
    exact exists_code_run plain written afterWord
  · split at read
    · rename_i isQuote
      split at read
      · rename_i size ends
        cases read
        cases turn
        obtain ⟨body, valid, same⟩ := exists_strokes ends
        have isMark : first.isQuote = true := by rcases isQuote with rfl | rfl <;> decide
        rw [same, List.append_assoc]
        exact ⟨_, written.quoted isMark valid⟩
      · cases read
    · split at read
      · split at read <;> cases read
        cases turn
      · split at read
        · unfold symbol at read
          split at read
          · cases read
            cases turn
          · split at read
            · obtain ⟨rfl, -⟩ := Prod.mk.inj read
              cases turn
            · exact exists_code_punctuation read turn noCall written
        · obtain ⟨rfl, rfl⟩ := Prod.mk.inj read
          cases turn
          exact exists_code_run number written afterWord

end

private theorem isNamePart_of_isWhiteSpace {c : CodePoint} (blank : isWhiteSpace c = true) :
    isNamePart c = false := by
  have noName : ∀ c ∈ Text.ofString " \t\x0c\r\n", isNamePart c = false := by decide
  exact noName c (List.contains_iff_mem.mp blank)

/-- What is passed over at the beginning of a text: a code point of white space, a comment up to the end of
a line, or a comment between its marks. -/
private theorem ignored_cases {first : CodePoint} {rest : Text} {length : Nat}
    (ignored : ignoredLength (first :: rest) = length + 1) :
    (isWhiteSpace first = true ∧ length = 0) ∨
    (∃ body, body.any CodePoint.isLineFeed = false ∧
      first :: rest = "//" ++ body ++ rest.drop length ∧
        (rest.drop length = [] ∨ ∃ text, rest.drop length = .char '\n' :: text)) ∨
    (∃ body, Text.occursIn "*/" body = false ∧
      first :: rest = "/*" ++ body ++ "*/" ++ rest.drop length) := by
  unfold ignoredLength at ignored
  split at ignored
  · rename_i text same
    obtain ⟨rfl, rfl⟩ := List.cons.inj same
    obtain rfl : length = 1 + (text.takeWhile fun c => !c.isLineFeed).length := by omega
    rw [Nat.add_comm, List.drop_succ_cons]
    let body := text.takeWhile fun c => !c.isLineFeed
    let tail := text.dropWhile fun c => !c.isLineFeed
    have whole : body ++ tail = text := List.takeWhile_append_dropWhile
    have behind : text.drop body.length = tail := by
      rw [← whole]
      exact List.drop_left
    refine .inr (.inl ⟨body, ?_, ?_, ?_⟩)
    · have kept : body.all (fun c => !c.isLineFeed) = true := List.all_takeWhile
      simpa using kept
    · rw [behind, List.append_assoc, whole]
      rfl
    · rw [behind]
      have ends := List.head?_dropWhile_not (fun c : CodePoint => !c.isLineFeed) text
      cases same : tail with
      | nil => exact .inl rfl
      | cons c text' =>
        have feed : c.isLineFeed = true := by simpa [tail, same] using ends
        exact .inr ⟨text', by rw [beq_iff_eq.mp feed]⟩
  · rename_i text same
    obtain ⟨rfl, rfl⟩ := List.cons.inj same
    cases ends : commentEnd? text with
    | none => simp [ends] at ignored
    | some size =>
      obtain ⟨body, closes, same⟩ := exists_comment ends
      obtain rfl : length = size + 1 := by simpa [ends, eq_comm] using ignored
      refine .inr (.inr ⟨body, closes, ?_⟩)
      exact congrArg (fun text => .char '/' :: .char '*' :: text) same
  · rename_i c text _ _ same
    obtain ⟨rfl, rfl⟩ := List.cons.inj same
    split at ignored
    · exact .inl ⟨‹_›, by omega⟩
    · cases ignored
  · rename_i empty
    cases empty

section

variable {awaiting : Awaiting} {afterWord : Bool} {brackets : List Bracket} {first : CodePoint} {rest : Text}
  {length : Nat}

private theorem exists_code_nothing (closes : unclosed afterWord brackets (lexemes awaiting []) = some []) :
    ∃ code : Code, code.Writes (Text.ofString "\n") afterWord brackets := by
  rw [lexemes_nil, unclosed, Option.some.injEq] at closes
  subst closes
  exact ⟨_, (Code.Writes.nothing afterWord).plain (by decide) (by cases afterWord <;> decide)⟩

/-- What is passed over in front of code. The line feed at the end of a comment is passed over with it. -/
private theorem exists_code_ignored (ignored : ignoredLength (first :: rest) = length + 1)
    (closes : unclosed afterWord brackets (lexemes awaiting (rest.drop length)) = some [])
    (behind : ∀ text : Text, text.length ≤ rest.length →
      unclosed afterWord brackets (lexemes awaiting text) = some [] →
        ∃ code : Code, code.Writes (text ++ "\n") afterWord brackets) :
    ∃ code : Code, code.Writes (first :: rest ++ "\n") afterWord brackets := by
  have shorter : (rest.drop length).length ≤ rest.length := by
    rw [List.length_drop]
    exact Nat.sub_le _ _
  rcases ignored_cases ignored with ⟨blank, rfl⟩ | ⟨body, noFeed, same, ends⟩ | ⟨body, noEnd, same⟩
  · obtain ⟨code, written⟩ := behind rest (Nat.le_refl _) closes
    have plain : isPlain first = true := isPlain_of_holds (p := isWhiteSpace) (by decide) blank
    have apart : isNamePart first = false := isNamePart_of_isWhiteSpace blank
    refine ⟨_, written.plain plain fun word => ?_⟩
    rw [apart, Bool.false_or, Bool.and_eq_true] at word
    exact word.1
  · rcases ends with ends | ⟨text, ends⟩
    · rw [ends, lexemes_nil, unclosed, Option.some.injEq] at closes
      subst closes
      rw [same, ends, List.append_nil, ← List.append_nil (_ ++ _ ++ _)]
      exact ⟨_, (Code.Writes.nothing afterWord).lineComment noFeed⟩
    · rw [ends, lexemes_ignored rfl, List.drop_zero] at closes
      rw [ends, List.length_cons] at shorter
      obtain ⟨code, written⟩ := behind text (Nat.le_of_succ_le shorter) closes
      have shape : "//" ++ body ++ .char '\n' :: text ++ Text.ofString "\n" =
          "//" ++ body ++ "\n" ++ (text ++ "\n") := by
        simp [Text.ofString]
      rw [same, ends, shape]
      exact ⟨_, written.lineComment noFeed⟩
  · obtain ⟨code, written⟩ := behind (rest.drop length) shorter closes
    rw [same, List.append_assoc]
    exact ⟨_, written.blockComment noEnd⟩

end

/-- The text of a static style with a line feed behind it is code that closes the brackets in front of it. -/
theorem exists_code {afterWord : Bool} {brackets : List Bracket} (awaiting : Awaiting) (text : Text)
    (closes : unclosed afterWord brackets (lexemes awaiting text) = some []) :
    ∃ code : Code, code.Writes (text ++ "\n") afterWord brackets := by
  match text with
  | [] => exact exists_code_nothing closes
  | first :: rest =>
    cases ignored : ignoredLength (first :: rest) with
    | succ length =>
      rw [lexemes_ignored ignored] at closes
      exact exists_code_ignored ignored closes fun text shorter => exists_code awaiting text
    | zero =>
      cases read : lexeme awaiting first rest with
      | mk found length =>
        cases length with
        | zero =>
          have noTurn : Lexeme.stray.turn brackets = none := rfl
          rw [lexemes_stray ignored (by rw [read]), unclosed, noTurn] at closes
          simp at closes
        | succ length =>
          have shorter : (rest.drop length).length ≤ rest.length := by
            rw [List.length_drop]
            exact Nat.sub_le _ _
          rw [lexemes_lexeme ignored read, unclosed] at closes
          split at closes
          · cases closes
          · rename_i noCall
            obtain ⟨inner, turn, closes⟩ := Option.bind_eq_some_iff.mp closes
            obtain ⟨code, written⟩ := exists_code (found.next awaiting) (rest.drop length) closes
            exact exists_code_lexeme read turn (Bool.eq_false_iff.mpr noCall) written
termination_by text.length
decreasing_by
  all_goals exact Nat.lt_succ_of_le shorter

end StaticStyle.Expression
