import StaticStyle.Proofs.Expression.Literal
import StaticStyle.Proofs.Expression.Token
import StaticStyle.Proofs.Text.Join

namespace StaticStyle.Expression

/-- Whether a text is a name. -/
def isName : Text → Bool
  | [] => false
  | first :: rest => isNameStart first && rest.all isNamePart

/-- Whether a text can stand between the marks of a template. -/
def isTemplateBody (body : Text) : Bool :=
  quotedLength? '\x60' true (body ++ [CodePoint.char '\x60']) == some (body.length + 1)

/-- A template with a text between its marks. -/
def templateOf (body : Text) : Text := .char '\x60' :: body ++ [.char '\x60']

namespace Lexeme

/-- How a lexeme is written. -/
def text : Lexeme → Text
  | string raw | number raw | template raw | name raw | sign raw | operator raw => raw
  | opening bracket => [bracket.opening]
  | closing bracket => [bracket.closing]
  | comma => [',']
  | colon => [':']
  | question => ['?']
  | dot => ['.']
  | ellipsis => ['.', '.', '.']
  | exclamation => ['!']
  | stray => []

/-- Whether a lexeme is written as lexemes of its kind are, and may stand where something is awaited. -/
def Fits (awaiting : Awaiting) : Lexeme → Prop
  | string raw => ∃ value, raw = Json.quote value
  | number raw => ∃ n, raw = Text.ofNat n
  | template raw => ∃ body, isTemplateBody body = true ∧ raw = templateOf body
  | name text => isName text = true
  | sign symbol => symbol = Text.ofString "+" ∨ symbol = Text.ofString "-"
  | operator symbol => symbol ∈ operatorSymbols ∧ awaiting = .operator
  | ellipsis | exclamation => awaiting ≠ .operator
  | stray => False
  | _ => True

/-- Whether a lexeme ends by itself, whatever stands behind it. -/
def isClosed : Lexeme → Bool
  | string _ | template _ | opening _ | closing _ | comma | colon | exclamation | sign _ => true
  | _ => false

end Lexeme

/-- Whether a lexeme is read from the beginning of its text and what stands behind it. -/
private def Begins (awaiting : Awaiting) (found : Lexeme) (behind : Text) : Prop :=
  ∃ first rest, found.text = first :: rest ∧ ignoredLength (first :: (rest ++ behind)) = 0 ∧
    lexeme awaiting first (rest ++ behind) = (found, rest.length + 1)

private theorem ignoredLength_eq_zero {first : CodePoint} (rest : Text) (noSlash : first ≠ '/')
    (visible : isWhiteSpace first = false) : ignoredLength (first :: rest) = 0 := by
  unfold ignoredLength
  split <;> simp_all

private theorem take_front (first : CodePoint) (rest behind : Text) :
    (first :: (rest ++ behind)).take (rest.length + 1) = first :: rest := by
  simp

private theorem begins_string (awaiting : Awaiting) (value behind : Text) :
    Begins awaiting (.string (Json.quote value)) behind := by
  have size : quotedLength? '"' false (value.flatMap Json.escape ++ [.char '"'] ++ behind) =
      some (value.flatMap Json.escape ++ [CodePoint.char '"']).length := by
    rw [List.append_assoc, List.singleton_append, quotedLength?_escapes, List.length_append, List.length_singleton]
  refine ⟨'"', value.flatMap Json.escape ++ [.char '"'], rfl, ignoredLength_eq_zero _ (by decide) (by decide), ?_⟩
  rw [lexeme, if_neg (by decide), if_pos (.inl rfl), size]
  dsimp only
  rw [take_front]
  rfl

private theorem quotedLength?_append_of_some {mark : CodePoint} {breaks : Bool} {text : Text} {length : Nat}
    (found : quotedLength? mark breaks text = some length) (behind : Text) :
    quotedLength? mark breaks (text ++ behind) = some length := by
  fun_induction quotedLength? mark breaks text generalizing length with
  | case1 | case3 | case5 | case6 => cases found
  | case2 rest =>
    rw [List.cons_append, quotedLength?.eq_def]
    simp [← found]
  | case4 d rest unbroken noMark ih | case7 c rest noMark noEscape unbroken ih =>
    obtain ⟨further, read, rfl⟩ := Option.map_eq_some_iff.mp found
    rw [List.cons_append, quotedLength?.eq_def]
    simp_all

private theorem begins_template (awaiting : Awaiting) {body : Text} (valid : isTemplateBody body = true)
    (behind : Text) : Begins awaiting (.template (templateOf body)) behind := by
  have size : quotedLength? '\x60' true (body ++ [.char '\x60'] ++ behind) =
      some (body ++ [CodePoint.char '\x60']).length := by
    rw [quotedLength?_append_of_some (beq_iff_eq.mp valid), List.length_append, List.length_singleton]
  refine ⟨'\x60', body ++ [.char '\x60'], rfl, ignoredLength_eq_zero _ (by decide) (by decide), ?_⟩
  rw [lexeme, if_neg (by decide), if_neg (by decide), if_pos rfl, size]
  dsimp only
  rw [take_front]
  rfl

private theorem begins_number (awaiting : Awaiting) (n : Nat) {behind : Text} (parted : Parted behind) :
    Begins awaiting (.number (Text.ofNat n)) behind := by
  have size := numberLength_ofNat n parted
  obtain ⟨first, rest, digits⟩ := List.exists_cons_of_ne_nil (ofNat_ne_nil n)
  have plain : isNameStart first = false ∧ isWhiteSpace first = false ∧
      first ≠ '"' ∧ first ≠ '\x27' ∧ first ≠ '\x60' ∧ first ≠ '.' ∧ first ≠ '/' :=
    of_mem_ofNat (p := fun c => isNameStart c = false ∧ isWhiteSpace c = false ∧
      c ≠ '"' ∧ c ≠ '\x27' ∧ c ≠ '\x60' ∧ c ≠ '.' ∧ c ≠ '/') (by decide) (digits ▸ List.mem_cons_self)
  obtain ⟨noName, visible, noQuote, noQuote', noMark, noPoint, noSlash⟩ := plain
  rw [digits] at size ⊢
  refine ⟨first, rest, rfl, ignoredLength_eq_zero _ noSlash visible, ?_⟩
  rw [List.cons_append, List.length_cons] at size
  simp [lexeme, noName, noQuote, noQuote', noMark, noPoint, size]

private theorem begins_name (awaiting : Awaiting) {name behind : Text} (named : isName name = true)
    (parted : Parted behind) : Begins awaiting (.name name) behind := by
  cases name with
  | nil => cases named
  | cons first rest =>
    obtain ⟨starts, parts⟩ := Bool.and_eq_true_iff.mp named
    have noBlank : first ≠ '/' ∧ isWhiteSpace first = false := by
      refine ⟨?_, Bool.eq_false_iff.mpr fun blank => ?_⟩
      · rintro rfl
        exact absurd starts (by decide)
      · simp [isWhiteSpace, CodePoint.isOneOf, Text.ofString] at blank
        rcases blank with rfl | rfl | rfl | rfl | rfl <;> exact absurd starts (by decide)
    have all : ∀ c ∈ first :: rest, isNamePart c = true := by
      refine List.forall_mem_cons.mpr ⟨?_, List.all_eq_true.mp parts⟩
      rw [isNamePart, starts, Bool.true_or]
    have run : (first :: (rest ++ behind)).takeWhile isNamePart = first :: rest :=
      takeWhile_parted (by decide) (by decide) (by decide) all parted
    refine ⟨first, rest, rfl, ignoredLength_eq_zero _ noBlank.1 noBlank.2, ?_⟩
    rw [lexeme, if_pos starts, run]
    rfl

private theorem isPrefixOf_parted {leading : Text} (unparted : ∀ c ∈ leading, c.isOneOf " ,\x7d" = false)
    {behind : Text} (parted : Parted behind) (text : Text) :
    leading.isPrefixOf (text ++ behind) = leading.isPrefixOf text := by
  induction leading generalizing text with
  | nil => simp
  | cons c leading ih =>
    obtain ⟨unparted, others⟩ := List.forall_mem_cons.mp unparted
    cases text with
    | cons d text => rw [List.cons_append, List.isPrefixOf, List.isPrefixOf, ih others]
    | nil =>
      cases behind with
      | nil => rfl
      | cons d behind =>
        have differs : c ≠ d := by
          rintro rfl
          exact absurd (parted c rfl) (by simp [unparted])
        simp [List.isPrefixOf, differs]

private theorem lexeme_symbol (awaiting : Awaiting) {first : CodePoint} (rest : Text)
    (noName : isNameStart first = false) (noQuote : first ≠ '"' ∧ first ≠ '\x27' ∧ first ≠ '\x60')
    (noDigit : first.isDecimalDigit = false)
    (noPoint : first = '.' → startsWithDigit rest = false) :
    lexeme awaiting first rest = symbol awaiting (first :: rest) := by
  have noZero : first ≠ '0' := by
    rintro rfl
    exact absurd noDigit (by decide)
  have noHex : hexLiteralLength (first :: rest) = 0 := by simp [hexLiteralLength, noZero]
  have noNumber : numberLength (first :: rest) = 0 := by
    have noStart : startsWithDigit (first :: rest) = false := noDigit
    simp only [numberLength, noHex, decimalLength, noStart, Bool.false_eq_true, ↓reduceIte]
    split
    · rename_i rest point
      obtain ⟨rfl, rfl⟩ := List.cons.inj point
      simp [noPoint rfl]
    · rfl
  simp [lexeme, noName, noQuote, noNumber]

private theorem isPrefixOf_operator {symbol : Text} (member : symbol ∈ operatorSymbols) {behind : Text}
    (parted : Parted behind) (text : Text) : symbol.isPrefixOf (text ++ behind) = symbol.isPrefixOf text := by
  have unparted : ∀ s ∈ operatorSymbols, ∀ c ∈ s, c.isOneOf " ,\x7d" = false := by decide
  exact isPrefixOf_parted (unparted symbol member) parted text

private theorem begins_operator {symbol : Text} (member : symbol ∈ operatorSymbols) {behind : Text}
    (parted : Parted behind) : Begins .operator (.operator symbol) behind := by
  have whole : ∀ s ∈ operatorSymbols, operatorSymbols.find? (fun leading => s.startsWith leading) = some s := by decide
  have found : operatorSymbols.find? (fun leading => Text.startsWith (symbol ++ behind) leading) = some symbol := by
    rw [← whole symbol member]
    exact List.find?_congr fun leading inside => isPrefixOf_operator inside parted symbol
  have plain : ∀ s ∈ operatorSymbols, ∀ first ∈ s.head?, isNameStart first = false ∧ isWhiteSpace first = false ∧
      (first ≠ '"' ∧ first ≠ '\x27' ∧ first ≠ '\x60') ∧ first.isDecimalDigit = false ∧ first ≠ '.' ∧
      (first = '/' → s = Text.ofString "/") := by
    decide
  cases symbol with
  | nil => exact absurd member (by decide)
  | cons first rest =>
    obtain ⟨noName, visible, noQuote, noDigit, noPoint, slash⟩ := plain _ member first rfl
    refine ⟨first, rest, rfl, ?_, ?_⟩
    · by_cases isSlash : first = '/'
      · obtain ⟨-, rfl⟩ := List.cons.inj (slash isSlash)
        cases behind with
        | nil => simp [isSlash, ignoredLength, isWhiteSpace, CodePoint.isOneOf, Text.ofString]
        | cons c behind =>
          have noComment : c ≠ '/' ∧ c ≠ '*' :=
            parted.head (p := fun c => c ≠ '/' ∧ c ≠ '*') (by decide) (by decide) (by decide)
          simp [isSlash, ignoredLength, noComment, isWhiteSpace, CodePoint.isOneOf, Text.ofString]
      · exact ignoredLength_eq_zero _ isSlash visible
    · rw [lexeme_symbol _ _ noName noQuote noDigit fun point => absurd point noPoint, Expression.symbol,
        if_neg (fun mark => mark.2 rfl), ← List.cons_append, found]
      rfl

private theorem begins_punctuation {awaiting : Awaiting} {found : Lexeme} {first : CodePoint} {behind : Text}
    (written : found.text = [first])
    (plain : isNameStart first = false ∧ isWhiteSpace first = false ∧
      (first ≠ '"' ∧ first ≠ '\x27' ∧ first ≠ '\x60') ∧ first.isDecimalDigit = false ∧ first ≠ '/' ∧ first ≠ '!')
    (noOperator : ∀ s ∈ operatorSymbols, s.isPrefixOf (first :: behind) = false)
    (noPoint : first = '.' → startsWithDigit behind = false)
    (read : punctuation awaiting (first :: behind) = (found, 1)) : Begins awaiting found behind := by
  obtain ⟨noName, visible, noQuote, noDigit, noSlash, noMark⟩ := plain
  refine ⟨first, [], written, ignoredLength_eq_zero _ noSlash visible, ?_⟩
  have nothing : operatorSymbols.find? (fun leading => Text.startsWith (first :: behind) leading) = none :=
    List.find?_eq_none.mpr fun s member => by
      rw [Text.startsWith, noOperator s member]
      exact Bool.false_ne_true
  rw [List.nil_append, lexeme_symbol _ _ noName noQuote noDigit noPoint, symbol, if_neg (by simp [noMark]), nothing]
  exact read

private theorem isPrefixOf_of_head {first : CodePoint} (differs : ∀ s ∈ operatorSymbols, s.head? ≠ some first)
    (behind : Text) : ∀ s ∈ operatorSymbols, s.isPrefixOf (first :: behind) = false := by
  intro s member
  have begins := differs s member
  cases s with
  | nil => exact absurd member (by decide)
  | cons c s =>
    have other : c ≠ first := fun same => begins (congrArg some same)
    simp [List.isPrefixOf, other]

private theorem begins_question (awaiting : Awaiting) {behind : Text} (parted : Parted behind) :
    Begins awaiting .question behind := by
  have alone : ∀ s ∈ operatorSymbols, s.isPrefixOf ['?'] = false := by decide
  refine begins_punctuation rfl (by decide) (fun s member => ?_) (fun point => absurd point (by decide)) ?_
  · rw [← alone s member]
    exact isPrefixOf_operator member parted ['?']
  · cases behind with
    | nil => rfl
    | cons c behind =>
      have noPoint : c ≠ '.' := parted.head (p := fun c => c ≠ '.') (by decide) (by decide) (by decide)
      simp [punctuation, noPoint]

private theorem begins_dot (awaiting : Awaiting) {behind : Text} (parted : Parted behind) :
    Begins awaiting .dot behind := by
  refine begins_punctuation rfl (by decide) (isPrefixOf_of_head (by decide) behind) (fun _ => ?_) ?_
  · cases behind with
    | nil => rfl
    | cons c behind => exact parted.head (p := fun c => c.isDecimalDigit = false) (by decide) (by decide) (by decide)
  · cases behind with
    | nil => rfl
    | cons c behind =>
      have noPoint : c ≠ '.' := parted.head (p := fun c => c ≠ '.') (by decide) (by decide) (by decide)
      simp [punctuation, noPoint]

private theorem begins_ellipsis {awaiting : Awaiting} (front : awaiting ≠ .operator) (behind : Text) :
    Begins awaiting .ellipsis behind := by
  refine ⟨'.', ['.', '.'], rfl, ignoredLength_eq_zero _ (by decide) (by decide), ?_⟩
  have nothing : operatorSymbols.find?
      (fun leading => Text.startsWith (.char '.' :: .char '.' :: .char '.' :: behind) leading) = none := by
    refine List.find?_eq_none.mpr fun s member => ?_
    rw [Text.startsWith, isPrefixOf_of_head (by decide) _ s member]
    exact Bool.false_ne_true
  rw [List.cons_append, List.cons_append, List.nil_append,
    lexeme_symbol _ _ (by decide) (by decide) (by decide) (fun _ => by rfl), symbol, if_neg (by simp), nothing]
  exact if_neg front

private theorem begins_exclamation {awaiting : Awaiting} (front : awaiting ≠ .operator) (behind : Text) :
    Begins awaiting .exclamation behind := by
  refine ⟨'!', [], rfl, ignoredLength_eq_zero _ (by decide) (by decide), ?_⟩
  rw [List.nil_append, lexeme_symbol _ _ (by decide) (by decide) (by decide) (by simp), symbol, if_pos ⟨rfl, front⟩]
  rfl

private theorem begins_text {awaiting : Awaiting} {found : Lexeme} {behind : Text} (fits : found.Fits awaiting)
    (ends : found.isClosed = true ∨ Parted behind) : Begins awaiting found behind := by
  have single {first : CodePoint} (differs : ∀ s ∈ operatorSymbols, s.head? ≠ some first) :=
    isPrefixOf_of_head differs behind
  cases found with
  | string raw =>
    obtain ⟨value, rfl⟩ := fits
    exact begins_string awaiting value behind
  | number raw =>
    obtain ⟨n, rfl⟩ := fits
    exact begins_number awaiting n (ends.resolve_left (by simp [Lexeme.isClosed]))
  | template raw =>
    obtain ⟨body, valid, rfl⟩ := fits
    exact begins_template awaiting valid behind
  | name text => exact begins_name awaiting fits (ends.resolve_left (by simp [Lexeme.isClosed]))
  | opening bracket | closing bracket =>
    cases bracket
    all_goals exact begins_punctuation rfl (by decide) (single (by decide)) (fun point => absurd point (by decide)) rfl
  | comma | colon =>
    exact begins_punctuation rfl (by decide) (single (by decide)) (fun point => absurd point (by decide)) rfl
  | question => exact begins_question awaiting (ends.resolve_left (by simp [Lexeme.isClosed]))
  | dot => exact begins_dot awaiting (ends.resolve_left (by simp [Lexeme.isClosed]))
  | ellipsis => exact begins_ellipsis fits behind
  | exclamation => exact begins_exclamation fits behind
  | sign symbol =>
    rcases fits with rfl | rfl
    all_goals exact begins_punctuation rfl (by decide) (single (by decide)) (fun point => absurd point (by decide)) rfl
  | operator symbol =>
    obtain ⟨member, rfl⟩ := fits
    exact begins_operator member (ends.resolve_left (by simp [Lexeme.isClosed]))
  | stray => exact fits.elim

theorem lexemes_text {awaiting : Awaiting} {found : Lexeme} {behind : Text} (fits : found.Fits awaiting)
    (ends : found.isClosed = true ∨ Parted behind) :
    lexemes awaiting (found.text ++ behind) = found :: lexemes (found.next awaiting) behind := by
  obtain ⟨first, rest, written, kept, read⟩ := begins_text fits ends
  rw [written, List.cons_append, lexemes_lexeme kept read, List.drop_left]

theorem lexemes_blank (awaiting : Awaiting) (rest : Text) :
    lexemes awaiting (.char ' ' :: rest) = lexemes awaiting rest := by
  have ignored : ignoredLength (.char ' ' :: rest) = 0 + 1 := rfl
  exact lexemes_ignored ignored

/-- What is awaited behind some lexemes. -/
def awaited (awaiting : Awaiting) (found : List Lexeme) : Awaiting :=
  found.foldl (fun awaiting lexeme => lexeme.next awaiting) awaiting

/-- Whether each of several lexemes may stand where it does. -/
def AllFit : Awaiting → List Lexeme → Prop
  | _, [] => True
  | awaiting, lexeme :: rest => lexeme.Fits awaiting ∧ AllFit (lexeme.next awaiting) rest

@[simp] theorem awaited_nil (awaiting : Awaiting) : awaited awaiting [] = awaiting := rfl

@[simp] theorem awaited_cons (awaiting : Awaiting) (lexeme : Lexeme) (rest : List Lexeme) :
    awaited awaiting (lexeme :: rest) = awaited (lexeme.next awaiting) rest := rfl

@[simp] theorem awaited_append (awaiting : Awaiting) (first second : List Lexeme) :
    awaited awaiting (first ++ second) = awaited (awaited awaiting first) second :=
  List.foldl_append

@[simp] theorem allFit_nil (awaiting : Awaiting) : AllFit awaiting [] := trivial

@[simp] theorem allFit_cons (awaiting : Awaiting) (lexeme : Lexeme) (rest : List Lexeme) :
    AllFit awaiting (lexeme :: rest) ↔ lexeme.Fits awaiting ∧ AllFit (lexeme.next awaiting) rest := Iff.rfl

@[simp] theorem allFit_append (awaiting : Awaiting) (first second : List Lexeme) :
    AllFit awaiting (first ++ second) ↔ AllFit awaiting first ∧ AllFit (awaited awaiting first) second := by
  induction first generalizing awaiting with
  | nil => simp
  | cons lexeme first ih => simp [ih, and_assoc]

/-- Lexemes with blanks between them are read back. -/
theorem lexemes_join {awaiting : Awaiting} {found : List Lexeme} (fit : AllFit awaiting found) :
    lexemes awaiting (Text.join " " (found.map Lexeme.text)) = found := by
  induction found generalizing awaiting with
  | nil => exact lexemes_nil awaiting
  | cons lexeme rest ih =>
    obtain ⟨fits, others⟩ := fit
    have behind := ih others
    cases rest with
    | nil =>
      have alone : Text.join " " [lexeme.text] = lexeme.text ++ [] := by simp [Text.join]
      rw [List.map_cons, List.map_nil, alone, lexemes_text fits (.inr parted_nil), lexemes_nil]
    | cons second rest =>
      rw [List.map_cons, Text.join_cons] at behind ⊢
      have blank : Parted
          (Text.ofString " " ++ (second.text ++ (rest.map Lexeme.text).flatMap (Text.ofString " " ++ ·))) := by
        intro c first
        obtain rfl := Option.some.inj first
        decide
      rw [List.map_cons, List.flatMap_cons, List.append_assoc]
      rw [lexemes_text fits (.inr blank)]
      exact congrArg _ ((lexemes_blank _ _).trans behind)

/-- A lexeme that fits is no string without a meaning. -/
theorem AllFit.decodes {awaiting : Awaiting} {found : List Lexeme} (fit : AllFit awaiting found) {raw : Text}
    (member : .string raw ∈ found) : ∃ value, decodeString raw = .ok value := by
  induction found generalizing awaiting with
  | nil => cases member
  | cons lexeme rest ih =>
    rcases List.mem_cons.mp member with rfl | member
    · obtain ⟨value, rfl⟩ := fit.1
      exact ⟨value, decodeString_quote value⟩
    · exact ih fit.2 member

end StaticStyle.Expression
