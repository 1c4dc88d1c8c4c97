import StaticStyle.Expression.Parse
import StaticStyle.Proofs.Expression.Literal
import StaticStyle.Proofs.Expression.Token

namespace StaticStyle.Expression

/-- A hexadecimal digit, which is a small or a capital letter from ten on. -/
structure HexDigit where
  value : Fin 16
  isCapital : Bool

namespace HexDigit

def spelling (digit : HexDigit) : CodePoint :=
  let small := Nat.digitChar digit.value
  .char (if digit.isCapital then small.toUpper else small)

/-- The number that digits are written for. -/
def number (digits : List HexDigit) : Nat := digits.foldl (fun number digit => 16 * number + digit.value) 0

theorem all_spelling {p : HexDigit → Prop} (all : ∀ value isCapital, p ⟨value, isCapital⟩) (digit : HexDigit) :
    p digit := all digit.value digit.isCapital

theorem hexDigit?_spelling (digit : HexDigit) : digit.spelling.hexDigit? = some digit.value.val :=
  all_spelling (p := fun digit => digit.spelling.hexDigit? = some digit.value.val) (by decide) digit

theorem spelling_ne_brace (digit : HexDigit) : digit.spelling ≠ '\x7b' :=
  all_spelling (p := fun digit => digit.spelling ≠ '\x7b') (by decide) digit

theorem hexValue_spelling (digits : List HexDigit) : Escape.hexValue (digits.map spelling) = number digits := by
  rw [Escape.hexValue, number, List.foldl_map]
  simp only [hexDigit?_spelling, Option.getD_some, Nat.mul_comm]

theorem number_lt (digits : List HexDigit) : number digits < 16 ^ digits.length := by
  induction digits using List.reverseRecOn with
  | nil => exact Nat.one_pos
  | append_singleton digits digit ih =>
    have inside := digit.value.isLt
    rw [number, List.foldl_append, List.foldl_cons, List.foldl_nil, ← number, List.length_append,
      List.length_singleton, Nat.pow_succ]
    omega

theorem all_hexDigit? (digits : List HexDigit) :
    (digits.map spelling).all (fun c => c.hexDigit?.isSome) = true := by
  simp [hexDigit?_spelling]

end HexDigit

/-- The marks that a string literal can stand between. -/
inductive QuoteMark where
  | single
  | double

def QuoteMark.mark : QuoteMark → CodePoint
  | single => '\x27'
  | double => '"'

/-- The letters of the simple escapes, and what they denote. -/
def simpleEscapes : List (Char × Char) :=
  [('n', '\n'), ('t', '\t'), ('r', '\r'), ('b', '\x08'), ('f', '\x0c'), ('v', '\x0b'), ('0', '\x00')]

/-- Whether a backslash in front of a code point has no meaning. -/
def isOrdinary (c : CodePoint) : Bool :=
  !c.isLineFeed && c != 'x' && c != 'u' && !c.isAsciiDigit && simpleEscapes.all fun escape => c != escape.1

/-- A piece of a string literal between two marks. -/
inductive Piece (mark : CodePoint) where
  | plain (c : CodePoint) (unescaped : isUnescaped mark c = true)
  | simple (escape : Char × Char) (member : escape ∈ simpleEscapes)
  | byte (digits : List HexDigit) (length : digits.length = 2)
  | unit (digits : List HexDigit) (length : digits.length = 4)
  | braced (digits : List HexDigit) (nonempty : digits ≠ []) (bound : HexDigit.number digits ≤ 0x10FFFF)
  /-- A backslash in front of a code point that stands for itself. -/
  | ordinary (c : CodePoint) (isOrdinary : isOrdinary c = true)
  /-- A backslash at the end of a line. -/
  | continuation

namespace Piece

variable {mark : CodePoint}

def spelling : Piece mark → Text
  | plain c _ => [c]
  | simple escape _ => ['\\', escape.1]
  | byte digits _ => .char '\\' :: .char 'x' :: digits.map HexDigit.spelling
  | unit digits _ => .char '\\' :: .char 'u' :: digits.map HexDigit.spelling
  | braced digits _ _ => .char '\\' :: .char 'u' :: .char '\x7b' :: (digits.map HexDigit.spelling ++ [.char '\x7d'])
  | ordinary c _ => ['\\', c]
  | continuation => ['\\', '\n']

/-- The UTF-16 code units that a piece denotes. -/
def units : Piece mark → List Nat
  | plain c _ | ordinary c _ => c.units
  | simple escape _ => [escape.2.toNat]
  | byte digits _ | unit digits _ => [HexDigit.number digits]
  | braced digits _ _ => (CodePoint.ofNat? (HexDigit.number digits)).toList.flatMap CodePoint.units
  | continuation => []

/-- The code points that a piece is read as. -/
def reading : Piece mark → Text
  | plain c _ | ordinary c _ => [c]
  | simple escape _ => [escape.2]
  | byte digits _ | unit digits _ | braced digits _ _ => (CodePoint.ofNat? (HexDigit.number digits)).toList
  | continuation => []

def isContinuation : Piece mark → Bool
  | continuation => true
  | _ => false

end Piece

/-- A literal that is made of pieces. -/
def stringLiteral (quote : QuoteMark) (pieces : List (Piece quote.mark)) : Text :=
  quote.mark :: pieces.flatMap Piece.spelling ++ [quote.mark]

/-- The text that a literal denotes: that of its UTF-16 code units. -/
def denoted {mark : CodePoint} (pieces : List (Piece mark)) : Text := Text.ofUnits (pieces.flatMap Piece.units)

theorem unescape_text {behind rest meant : Text} {length : Nat} (read : Escape.read? behind = some ⟨.inr meant, length⟩)
    (left : behind.drop length = rest) : unescape (.char '\\' :: behind) = (meant ++ ·) <$> unescape rest := by
  rw [unescape, if_pos rfl]
  simp only [read, left]

theorem unescape_number {behind rest : Text} {number length : Nat} {c : CodePoint}
    (read : Escape.read? behind = some ⟨.inl number, length⟩) (found : CodePoint.ofNat? number = some c)
    (left : behind.drop length = rest) : unescape (.char '\\' :: behind) = ([c] ++ ·) <$> unescape rest := by
  rw [unescape, if_pos rfl]
  simp only [read, found, left]
  rfl

theorem simpleEscapes_sound : ∀ escape ∈ simpleEscapes,
    (∀ rest, Escape.read? (.char escape.1 :: rest) = some ⟨.inr [.char escape.2], 1⟩) ∧
      (CodePoint.char escape.1).isLineFeed = false ∧ (CodePoint.char escape.2).units = [escape.2.toNat] := by
  intro escape member
  simp only [simpleEscapes, List.mem_cons, List.not_mem_nil, or_false] at member
  rcases member with rfl | rfl | rfl | rfl | rfl | rfl | rfl <;> exact ⟨fun _ => rfl, rfl, rfl⟩

theorem ofHex?_spelling {count : Nat} {digits : List HexDigit} (length : digits.length = count) (rest : Text) :
    Escape.ofHex? count (digits.map HexDigit.spelling ++ rest) = some ⟨.inl (HexDigit.number digits), count + 1⟩ := by
  have size : (digits.map HexDigit.spelling).length = count := by rw [List.length_map, length]
  have taken : (digits.map HexDigit.spelling ++ rest).take count = digits.map HexDigit.spelling := List.take_left' size
  rw [Escape.ofHex?, taken, HexDigit.hexValue_spelling, if_pos ⟨size, HexDigit.all_hexDigit? digits⟩]

theorem ofBraces?_spelling {digits : List HexDigit} (nonempty : digits ≠ []) (rest : Text) :
    Escape.ofBraces? (digits.map HexDigit.spelling ++ .char '\x7d' :: rest) =
      some ⟨.inl (HexDigit.number digits), digits.length + 3⟩ := by
  have taken : (digits.map HexDigit.spelling ++ .char '\x7d' :: rest).takeWhile (fun c => c.hexDigit?.isSome) =
      digits.map HexDigit.spelling := by
    rw [List.takeWhile_append_of_pos (List.all_eq_true.mp (HexDigit.all_hexDigit? digits))]
    have stops : (CodePoint.char '\x7d').hexDigit?.isSome = false := by decide
    simp [stops]
  rw [Escape.ofBraces?, taken, List.drop_left, HexDigit.hexValue_spelling]
  simp [nonempty]

/-- A code point has the number of some digits, if they are few. -/
theorem exists_ofNat?_number {digits : List HexDigit} {count : Nat} (length : digits.length = count) (few : count ≤ 4) :
    ∃ c, CodePoint.ofNat? (HexDigit.number digits) = some c ∧ c.toNat < 0x10000 := by
  have bound := HexDigit.number_lt digits
  have power : 16 ^ digits.length ≤ 16 ^ 4 := Nat.pow_le_pow_right (by decide) (length.trans_le few)
  have small : HexDigit.number digits ≤ 0x10FFFF := by omega
  obtain ⟨c, found⟩ := CodePoint.exists_ofNat? small
  exact ⟨c, found, by rw [CodePoint.toNat_of_ofNat? found]; omega⟩

theorem read?_twoDigits {digits : List HexDigit} (length : digits.length = 2) (rest : Text) :
    Escape.read? (.char 'x' :: (digits.map HexDigit.spelling ++ rest)) = some ⟨.inl (HexDigit.number digits), 3⟩ := by
  rw [Escape.read?, ofHex?_spelling length, Option.getD_some]

theorem read?_fourDigits {digits : List HexDigit} (length : digits.length = 4) (rest : Text) :
    Escape.read? (.char 'u' :: (digits.map HexDigit.spelling ++ rest)) = some ⟨.inl (HexDigit.number digits), 5⟩ := by
  have read := ofHex?_spelling length rest
  cases digits with
  | nil => cases length
  | cons digit digits =>
    rw [List.map_cons, List.cons_append] at read ⊢
    rw [Escape.read?, read]
    · rfl
    · exact fun _ same => digit.spelling_ne_brace (List.cons.inj same).1

theorem read?_bracedDigits {digits : List HexDigit} (nonempty : digits ≠ []) (rest : Text) :
    Escape.read? (.char 'u' :: .char '\x7b' :: (digits.map HexDigit.spelling ++ .char '\x7d' :: rest)) =
      some ⟨.inl (HexDigit.number digits), digits.length + 3⟩ := by
  rw [Escape.read?]
  simp only [ofBraces?_spelling nonempty, Option.some_or, Option.getD_some]

theorem read?_ordinary {c : CodePoint} (ordinary : isOrdinary c = true) (rest : Text) :
    Escape.read? (c :: rest) = some ⟨.inr [c], 1⟩ := by
  have other (d : Char) (special : isOrdinary (.char d) = false) : c ≠ .char d := by
    rintro rfl
    rw [special] at ordinary
    cases ordinary
  have letter : Escape.ofLetter c = ⟨.inr [c], 1⟩ := by
    rw [Escape.ofLetter, if_neg (other 'n' (by decide)), if_neg (other 't' (by decide)), if_neg (other 'r' (by decide)),
      if_neg (other 'b' (by decide)), if_neg (other 'f' (by decide)), if_neg (other 'v' (by decide)),
      if_neg (other '0' (by decide)), if_neg (other '\n' (by decide))]
  rw [Escape.read?, letter]
  · exact other 'u' (by decide)
  · exact other 'x' (by decide)

theorem unescape_spelling {mark : CodePoint} (piece : Piece mark) (rest : Text) :
    unescape (piece.spelling ++ rest) = (piece.reading ++ ·) <$> unescape rest := by
  cases piece with
  | plain c unescaped =>
    simp only [isUnescaped, Bool.and_eq_true, bne_iff_ne] at unescaped
    rw [Piece.spelling, List.singleton_append, unescape, if_neg unescaped.1.2]
    rfl
  | simple escape member =>
    obtain ⟨read, -, -⟩ := simpleEscapes_sound escape member
    exact unescape_text (read rest) rfl
  | byte digits length =>
    obtain ⟨c, found, -⟩ := exists_ofNat?_number length (by decide)
    rw [Piece.reading, found]
    exact unescape_number (read?_twoDigits length rest) found (List.drop_left' (by simp [length]))
  | unit digits length =>
    obtain ⟨c, found, -⟩ := exists_ofNat?_number length (by decide)
    rw [Piece.reading, found]
    exact unescape_number (read?_fourDigits length rest) found (List.drop_left' (by simp [length]))
  | braced digits nonempty bound =>
    obtain ⟨c, found⟩ := CodePoint.exists_ofNat? bound
    rw [Piece.reading, found, Piece.spelling]
    simp only [List.cons_append, List.append_assoc, List.nil_append]
    refine unescape_number (read?_bracedDigits nonempty rest) found ?_
    have size : (.char 'u' :: .char '\x7b' :: (digits.map HexDigit.spelling ++ [.char '\x7d'])).length =
        digits.length + 3 := by simp
    rw [List.append_cons, ← size]
    exact List.drop_left
  | ordinary c isOrdinary => exact unescape_text (read?_ordinary isOrdinary rest) rfl
  | continuation => exact unescape_text rfl rfl

theorem unescape_pieces {mark : CodePoint} (pieces : List (Piece mark)) :
    unescape (pieces.flatMap Piece.spelling) = .ok (pieces.flatMap Piece.reading) := by
  induction pieces with
  | nil => rw [List.flatMap_nil, unescape, List.flatMap_nil]
  | cons piece pieces ih =>
    rw [List.flatMap_cons, unescape_spelling, ih]
    rfl

variable {quote : QuoteMark}

theorem decodeString_stringLiteral (pieces : List (Piece quote.mark)) :
    decodeString (stringLiteral quote pieces) = .ok (pieces.flatMap Piece.reading) := by
  rw [decodeString, stringLiteral, List.cons_append, List.drop_one, List.tail_cons, List.dropLast_concat,
    unescape_pieces]

/-- The surrogates of a pair are read as two code points, and everything else as what it denotes. -/
theorem denoted_eq_reading_iff {mark : CodePoint} (pieces : List (Piece mark)) :
    pieces.flatMap Piece.reading = denoted pieces ↔ Text.IsPairless (pieces.flatMap Piece.reading) := by
  have single {digits : List HexDigit} {count : Nat} (length : digits.length = count) (few : count ≤ 4) :
      (CodePoint.ofNat? (HexDigit.number digits)).toList.flatMap CodePoint.units = [HexDigit.number digits] := by
    obtain ⟨c, found, low⟩ := exists_ofNat?_number length few
    rw [found, Option.toList_some, List.flatMap_singleton, CodePoint.units_of_lt low, CodePoint.toNat_of_ofNat? found]
  have same (piece : Piece mark) : piece.units = piece.reading.flatMap CodePoint.units := by
    cases piece with
    | plain c | ordinary c => exact (List.flatMap_singleton ..).symm
    | simple escape member =>
      obtain ⟨-, -, single⟩ := simpleEscapes_sound escape member
      exact single.symm.trans (List.flatMap_singleton ..).symm
    | byte digits length | unit digits length => exact (single length (by decide)).symm
    | braced | continuation => rfl
  have units : pieces.flatMap Piece.units = (pieces.flatMap Piece.reading).flatMap CodePoint.units := by
    rw [List.flatMap_assoc]
    exact congrArg (pieces.flatMap ·) (funext same)
  rw [denoted, units, Text.ofUnits_units, eq_comm, Text.joinSurrogates_eq_self_iff]

theorem QuoteMark.mark_ne_escape (quote : QuoteMark) : quote.mark ≠ '\\' := by
  cases quote <;> decide

theorem all_unescaped (quote : QuoteMark) (digits : List HexDigit) :
    (digits.map HexDigit.spelling).all (isUnescaped quote.mark) = true := by
  have single (digit : HexDigit) : isUnescaped quote.mark digit.spelling = true := by
    cases quote <;>
      exact HexDigit.all_spelling (p := fun digit => isUnescaped _ digit.spelling = true) (by decide) digit
  simp [single]

theorem quotedLength?_longEscape {letter : CodePoint} (unbroken : letter.isLineFeed = false) {part : Text}
    (unescaped : part.all (isUnescaped quote.mark) = true) (rest : Text) :
    quotedLength? quote.mark false (.char '\\' :: letter :: (part ++ rest)) =
      (quotedLength? quote.mark false rest).map (· + (part.length + 2)) := by
  rw [quotedLength?_escaped quote.mark_ne_escape unbroken, quotedLength?_append unescaped, Option.map_map]
  rfl

theorem quotedLength?_spelling (piece : Piece quote.mark) (rest : Text) :
    quotedLength? quote.mark false (piece.spelling ++ rest) =
      if piece.isContinuation then none
      else (quotedLength? quote.mark false rest).map (· + piece.spelling.length) := by
  cases piece with
  | plain c unescaped =>
    have single : [c].all (isUnescaped quote.mark) = true := by simpa using unescaped
    exact quotedLength?_append single rest
  | simple escape member =>
    obtain ⟨-, unbroken, -⟩ := simpleEscapes_sound escape member
    exact quotedLength?_escaped quote.mark_ne_escape unbroken rest
  | byte digits | unit digits => exact quotedLength?_longEscape rfl (all_unescaped quote digits) rest
  | braced digits =>
    have part : (.char '\x7b' :: (digits.map HexDigit.spelling ++ [.char '\x7d'])).all (isUnescaped quote.mark) =
        true := by
      rw [List.all_cons, List.all_append, all_unescaped]
      cases quote <;> rfl
    exact quotedLength?_longEscape rfl part rest
  | ordinary c isOrdinary =>
    have unbroken : c.isLineFeed = false := by
      simp only [Expression.isOrdinary, Bool.and_eq_true, Bool.not_eq_true'] at isOrdinary
      exact isOrdinary.1.1.1.1
    exact quotedLength?_escaped quote.mark_ne_escape unbroken rest
  | continuation =>
    rw [Piece.spelling, List.cons_append, quotedLength?.eq_def]
    simp [quote.mark_ne_escape.symm, Piece.isContinuation, CodePoint.isLineFeed]

theorem quotedLength?_pieces (pieces : List (Piece quote.mark)) :
    quotedLength? quote.mark false (pieces.flatMap Piece.spelling ++ [quote.mark]) =
      if pieces.any Piece.isContinuation then none else some ((pieces.flatMap Piece.spelling).length + 1) := by
  induction pieces with
  | nil =>
    rw [List.flatMap_nil, List.nil_append, quotedLength?.eq_def]
    simp
  | cons piece pieces ih =>
    rw [List.flatMap_cons, List.append_assoc, quotedLength?_spelling, ih, List.any_cons]
    cases piece.isContinuation <;> cases pieces.any Piece.isContinuation <;> simp
    omega

theorem lexeme_stringLiteral (pieces : List (Piece quote.mark)) {rest : Text}
    (whole : stringLiteral quote pieces = quote.mark :: rest) :
    lexeme .operand quote.mark rest =
      if pieces.any Piece.isContinuation then (.stray, 0)
      else (.string (quote.mark :: rest), rest.length + 1) := by
  have noName : isNameStart quote.mark = false := by cases quote <;> decide
  have isMark : quote.mark = '"' ∨ quote.mark = '\x27' := by
    cases quote
    · exact .inr rfl
    · exact .inl rfl
  obtain rfl : pieces.flatMap Piece.spelling ++ [quote.mark] = rest := (List.cons.inj whole).2
  have size : (pieces.flatMap Piece.spelling).length + 1 = (pieces.flatMap Piece.spelling ++ [quote.mark]).length := by
    rw [List.length_append, List.length_singleton]
  rw [lexeme, if_neg (Bool.eq_false_iff.mp noName), if_pos isMark, quotedLength?_pieces]
  cases pieces.any Piece.isContinuation with
  | true => rfl
  | false =>
    simp only [Bool.false_eq_true, ↓reduceIte, size]
    rw [List.take_succ_cons, List.take_length]

/-- A literal is one token, unless it has a line continuation. -/
theorem tokens_stringLiteral (pieces : List (Piece quote.mark)) (place : Place) :
    tokens .operand place (stringLiteral quote pieces) =
      if pieces.any Piece.isContinuation then [⟨.stray, ⟨place.offset, place.offset, place.position⟩⟩]
      else [⟨.string (stringLiteral quote pieces),
        ⟨place.offset, place.offset + (stringLiteral quote pieces).length, place.position⟩⟩] := by
  have kept : ignoredLength (stringLiteral quote pieces) = 0 := by cases quote <;> rfl
  obtain ⟨rest, whole⟩ : ∃ rest, stringLiteral quote pieces = quote.mark :: rest := ⟨_, rfl⟩
  have read := lexeme_stringLiteral pieces whole
  rw [whole] at kept ⊢
  rw [tokens_cons, kept, read]
  cases pieces.any Piece.isContinuation with
  | true => rfl
  | false =>
    have taken : (quote.mark :: rest).take (rest.length + 1) = quote.mark :: rest :=
      List.take_of_length_le (Nat.le_refl _)
    simp only [Bool.false_eq_true, ↓reduceIte, taken, List.drop_length, Place.after]
    rw [tokens]

/-- A string literal made of any pieces between either of the marks. It is decoded piece by piece. If no piece is a line
continuation, the whole of it is one node with the decoded text as its value; otherwise nothing can be read where it
begins. The decoded text is the one that the pieces denote, unless a high and a low surrogate of it come together. -/
theorem parse_stringLiteral (quote : QuoteMark) (pieces : List (Piece quote.mark)) (place : Place) :
    decodeString (stringLiteral quote pieces) = .ok (pieces.flatMap Piece.reading) ∧
    parse (stringLiteral quote pieces) place =
      (if pieces.any Piece.isContinuation then .error (.unexpected place.position)
      else .ok (.string ⟨place.offset, place.offset + (stringLiteral quote pieces).length, place.position⟩
        (pieces.flatMap Piece.reading))) ∧
    (pieces.flatMap Piece.reading = denoted pieces ↔ Text.IsPairless (pieces.flatMap Piece.reading)) := by
  have decoded := decodeString_stringLiteral pieces
  refine ⟨decoded, ?_, denoted_eq_reading_iff pieces⟩
  rw [parse, tokens_stringLiteral]
  cases pieces.any Piece.isContinuation with
  | true => rfl
  | false =>
    simp [parseTokens, step, beginOperand, ofString, decoded, settle, firstOutOfRange, Except.toOption]

example : decodeString "'\\ud83d\\ude00'" = .ok [.surrogate 0x3d, .surrogate 0x600] := by cbv

/-- A line continuation is decoded, but it is not read. -/
example : decodeString "'a\\\nb'" = .ok "ab" ∧
    parse "'a\\\nb'" ⟨0, ⟨1, 1⟩⟩ = .error (.unexpected ⟨1, 1⟩) := by
  constructor <;> cbv

end StaticStyle.Expression
