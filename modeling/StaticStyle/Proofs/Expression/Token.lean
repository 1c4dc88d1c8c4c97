import Mathlib.Data.List.Find
import StaticStyle.Expression.Token

namespace StaticStyle.Expression

/-- The lexemes of a text without their spans. -/
def lexemes (awaiting : Awaiting) (text : Text) : List Lexeme :=
  (tokens awaiting ⟨0, ⟨1, 1⟩⟩ text).map Token.lexeme

theorem tokens_cons (awaiting : Awaiting) (place : Place) (first : CodePoint)
    (rest : Text) :
    tokens awaiting place (first :: rest) =
      match ignoredLength (first :: rest) with
      | length + 1 =>
        tokens awaiting (place.after ((first :: rest).take (length + 1))) (rest.drop length)
      | 0 =>
        match lexeme awaiting first rest with
        | (_, 0) => [⟨.stray, ⟨place.offset, place.offset, place.position⟩⟩]
        | (found, length + 1) =>
          let stop := place.after ((first :: rest).take (length + 1))
          ⟨found, ⟨place.offset, stop.offset, place.position⟩⟩ ::
            tokens (found.next awaiting) stop (rest.drop length) :=
  tokens.eq_2 awaiting place first rest

/-- The lexemes of a text are the same wherever it begins. -/
theorem map_lexeme_tokens (awaiting : Awaiting) (place : Place) (text : Text) :
    (tokens awaiting place text).map Token.lexeme = lexemes awaiting text := by
  unfold lexemes
  generalize (⟨0, ⟨1, 1⟩⟩ : Place) = origin
  match text with
  | [] => simp [tokens]
  | first :: rest =>
    rw [tokens_cons, tokens_cons]
    cases ignoredLength (first :: rest) with
    | succ length =>
      have shorter : (rest.drop length).length < (first :: rest).length := by
        simp only [List.length_drop, List.length_cons]
        omega
      simp only
      rw [map_lexeme_tokens, map_lexeme_tokens awaiting (origin.after _)]
    | zero =>
      obtain ⟨found, length⟩ := lexeme awaiting first rest
      cases length with
      | zero => rfl
      | succ length =>
        have shorter : (rest.drop length).length < (first :: rest).length := by
          simp only [List.length_drop, List.length_cons]
          omega
        simp only [List.map_cons]
        rw [map_lexeme_tokens, map_lexeme_tokens _ (origin.after _)]
termination_by text.length

theorem lexemes_nil (awaiting : Awaiting) : lexemes awaiting [] = [] := by
  simp [lexemes, tokens]

theorem lexemes_ignored {awaiting : Awaiting} {first : CodePoint} {rest : Text} {length : Nat}
    (ignored : ignoredLength (first :: rest) = length + 1) :
    lexemes awaiting (first :: rest) = lexemes awaiting (rest.drop length) := by
  rw [lexemes, tokens_cons]
  simp only [ignored, map_lexeme_tokens]

example : lexemes .operand (Text.ofString " // nothing") = [] := by
  cbv

theorem lexemes_stray {awaiting : Awaiting} {first : CodePoint} {rest : Text}
    (kept : ignoredLength (first :: rest) = 0) (nothing : (lexeme awaiting first rest).2 = 0) :
    lexemes awaiting (first :: rest) = [.stray] := by
  rw [lexemes, tokens_cons]
  generalize lexeme awaiting first rest = found at nothing
  obtain ⟨found, length⟩ := found
  simp only [kept]
  subst nothing
  rfl

theorem lexemes_lexeme {awaiting : Awaiting} {first : CodePoint} {rest : Text} {found : Lexeme}
    {length : Nat} (kept : ignoredLength (first :: rest) = 0)
    (read : lexeme awaiting first rest = (found, length + 1)) :
    lexemes awaiting (first :: rest) = found :: lexemes (found.next awaiting) (rest.drop length) := by
  rw [lexemes, tokens_cons]
  simp only [kept, read, List.map_cons, map_lexeme_tokens]

/-- Whether a function reads the same from a text with a line feed behind it. -/
def IgnoresLineFeed {α : Type} (read : Text → α) : Prop :=
  ∀ text : Text, read (text ++ [.char '\n']) = read text

theorem IgnoresLineFeed.drop {α : Type} {read : Text → α} (ignores : IgnoresLineFeed read)
    (text : Text) (count : Nat) :
    read ((text ++ [CodePoint.char '\n']).drop count) = read (text.drop count) := by
  by_cases inside : count ≤ text.length
  · rw [List.drop_append_of_le_length inside]
    exact ignores _
  · rw [List.drop_eq_nil_of_le (by simp; omega), List.drop_eq_nil_of_le (by omega)]

private theorem takeWhile_lineFeed {p : CodePoint → Bool} (stops : p (CodePoint.char '\n') = false) :
    IgnoresLineFeed fun text => text.takeWhile p := by
  intro text
  dsimp only
  induction text with
  | nil => simp [stops]
  | cons c rest ih =>
    simp only [List.cons_append, List.takeWhile_cons]
    rw [ih]

private theorem commentEnd?_lineFeed : IgnoresLineFeed commentEnd? := by
  intro text
  fun_induction commentEnd? text with
  | case1 rest => rfl
  | case2 c rest noEnd ih =>
    rw [List.cons_append, commentEnd?, ih]
    intro behind isStar isEnd
    cases rest with
    | nil => simp at isEnd
    | cons d rest =>
      simp only [List.cons_append, List.cons.injEq] at isEnd
      exact noEnd rest isStar (by rw [isEnd.1])
  | case3 => rfl

private theorem quotedLength?_lineFeed {mark : CodePoint} (noFeed : mark ≠ .char '\n')
    (breaks : Bool) : IgnoresLineFeed (quotedLength? mark breaks) := by
  intro text
  match text with
  | [] => simp [quotedLength?, CodePoint.isLineFeed, noFeed.symm]
  | [c] => simp [quotedLength?, CodePoint.isLineFeed, noFeed.symm]
  | c :: d :: rest =>
    have further := quotedLength?_lineFeed noFeed breaks (d :: rest)
    have furthest := quotedLength?_lineFeed noFeed breaks rest
    rw [List.cons_append] at further
    simp only [List.cons_append, quotedLength?, further, furthest]

private theorem startsWithDigit_lineFeed : IgnoresLineFeed startsWithDigit := by
  intro text
  cases text <;> rfl

private theorem digitRun_lineFeed : IgnoresLineFeed digitRun := takeWhile_lineFeed rfl

private theorem ignoredLength_lineFeed (first : CodePoint) :
    IgnoresLineFeed fun rest => ignoredLength (first :: rest) := by
  intro rest
  dsimp only
  by_cases slash : first = .char '/'
  · subst slash
    cases rest with
    | nil => rfl
    | cons c rest =>
      rw [List.cons_append]
      have line := takeWhile_lineFeed (p := fun c => !c.isLineFeed) rfl rest
      have block := commentEnd?_lineFeed rest
      by_cases isLine : c = .char '/'
      · subst isLine
        simp [ignoredLength, line]
      · by_cases isBlock : c = .char '*'
        · subst isBlock
          simp [ignoredLength, block]
        · simp [ignoredLength, isLine, isBlock]
  · simp [ignoredLength, slash]

private theorem exponentLength_lineFeed : IgnoresLineFeed exponentLength := by
  intro text
  match text with
  | [] => rfl
  | [e] =>
    have digits : [CodePoint.char '\n'].takeWhile CodePoint.isDecimalDigit = [] := rfl
    simp [exponentLength, digits]
  | e :: c :: rest =>
    simp only [List.cons_append, exponentLength]
    have digits := (takeWhile_lineFeed (p := CodePoint.isDecimalDigit) rfl).drop (c :: rest)
    simp only [List.cons_append] at digits
    rw [digits]

private theorem hexLiteralLength_lineFeed : IgnoresLineFeed hexLiteralLength := by
  intro text
  match text with
  | [] => rfl
  | [c] =>
    by_cases zero : c = .char '0'
    · subst zero
      rfl
    · simp [hexLiteralLength, zero]
  | c :: x :: rest =>
    have digits := takeWhile_lineFeed (p := fun c => c.hexDigit?.isSome) rfl rest
    by_cases zero : c = .char '0'
    · subst zero
      simp only [List.cons_append, hexLiteralLength, digits]
    · simp [hexLiteralLength, zero]

/-- The length of the digits behind a point, with the point. -/
private def fractionLength : Text → Nat
  | .char '.' :: rest => 1 + (digitRun rest).length
  | _ => 0

private theorem fractionLength_lineFeed : IgnoresLineFeed fractionLength := by
  intro text
  cases text with
  | nil => rfl
  | cons c rest =>
    by_cases point : c = .char '.'
    · subst point
      simp only [List.cons_append, fractionLength, digitRun_lineFeed rest]
    · simp [fractionLength, point]

/-- The length of the digits of a decimal literal, with its point. -/
private def mantissaLength (text : Text) : Nat :=
  if startsWithDigit text then
    (digitRun text).length + fractionLength (text.drop (digitRun text).length)
  else if startsWithDigit (text.drop 1) then fractionLength text
  else 0

private theorem mantissaLength_lineFeed : IgnoresLineFeed mantissaLength := by
  intro text
  have digit := startsWithDigit_lineFeed.drop text 1
  have fraction := fractionLength_lineFeed.drop text (digitRun text).length
  simp only [mantissaLength, startsWithDigit_lineFeed text, digitRun_lineFeed text, digit, fraction,
    fractionLength_lineFeed text]

private theorem decimalLength_eq (text : Text) :
    decimalLength text =
      if mantissaLength text = 0 then 0
      else mantissaLength text + exponentLength (text.drop (mantissaLength text)) := by
  unfold decimalLength mantissaLength
  by_cases digit : startsWithDigit text = true
  · simp only [digit, if_true]
    generalize (text.drop (digitRun text).length) = behind
    cases behind with
    | nil => rfl
    | cons c rest =>
      by_cases point : c = .char '.'
      · subst point
        simp only [fractionLength, Nat.add_assoc]
      · simp [fractionLength, point]
  · cases text with
    | nil => rfl
    | cons c rest =>
      by_cases point : c = .char '.'
      · subst point
        simp [digit, fractionLength]
      · simp [digit, fractionLength, point]

private theorem decimalLength_lineFeed : IgnoresLineFeed decimalLength := by
  intro text
  have exponent := exponentLength_lineFeed.drop text (mantissaLength text)
  rw [decimalLength_eq, decimalLength_eq, mantissaLength_lineFeed text, exponent]

private theorem numberLength_lineFeed : IgnoresLineFeed numberLength := by
  intro text
  simp only [numberLength, hexLiteralLength_lineFeed text, decimalLength_lineFeed text]

private theorem startsWith_lineFeed {leading : Text} (noFeed : .char '\n' ∉ leading) :
    IgnoresLineFeed fun text => text.startsWith leading := by
  intro text
  simp only [Text.startsWith]
  induction leading generalizing text with
  | nil => simp
  | cons c leading ih =>
    simp only [List.mem_cons, not_or] at noFeed
    obtain ⟨differs, noFeed⟩ := noFeed
    cases text with
    | nil => simp [List.isPrefixOf, Ne.symm differs]
    | cons d rest => simp only [List.cons_append, List.isPrefixOf, ih noFeed rest]

private theorem operatorSymbols_noFeed (symbol : Text) (member : symbol ∈ operatorSymbols) :
    .char '\n' ∉ symbol := by
  revert symbol
  decide

private theorem punctuation_lineFeed (awaiting : Awaiting) (first : CodePoint) :
    IgnoresLineFeed fun rest => punctuation awaiting (first :: rest) := by
  intro rest
  dsimp only
  by_cases question : first = .char '?'
  · subst question
    cases rest with
    | nil => rfl
    | cons c rest => by_cases point : c = .char '.' <;> simp [punctuation, point]
  · by_cases point : first = .char '.'
    · subst point
      match rest with
      | [] => simp [punctuation]
      | [c] => simp [punctuation]
      | c :: d :: rest =>
        by_cases second : c = .char '.' <;> by_cases third : d = .char '.' <;>
          simp [punctuation, second, third]
    · unfold punctuation
      split <;> simp_all

private theorem symbol_lineFeed (awaiting : Awaiting) (first : CodePoint) :
    IgnoresLineFeed fun rest => symbol awaiting (first :: rest) := by
  intro rest
  have found : (operatorSymbols.find? fun symbol =>
        Text.startsWith (first :: (rest ++ [.char '\n'])) symbol) =
      operatorSymbols.find? fun symbol => Text.startsWith (first :: rest) symbol :=
    List.find?_congr fun symbol member =>
      startsWith_lineFeed (operatorSymbols_noFeed symbol member) (first :: rest)
  have mark := punctuation_lineFeed awaiting first rest
  dsimp only [symbol, List.head?_cons] at mark ⊢
  rw [found, mark]
  rfl

theorem quotedLength?_le {mark : CodePoint} {breaks : Bool} {text : Text} {length : Nat}
    (found : quotedLength? mark breaks text = some length) : length ≤ text.length := by
  fun_induction quotedLength? mark breaks text generalizing length with
  | case1 | case3 | case5 | case6 => cases found
  | case2 rest =>
    cases found
    simp
  | case4 _ d rest _ ih | case7 c rest _ _ _ ih =>
    obtain ⟨further, read, rfl⟩ := Option.map_eq_some_iff.mp found
    have inside := ih read
    simp only [List.length_cons]
    omega

private theorem hexLiteralLength_le (text : Text) : hexLiteralLength text ≤ text.length := by
  unfold hexLiteralLength
  split
  · rename_i x rest
    have digits := (List.takeWhile_sublist (fun c => c.hexDigit?.isSome) (l := rest)).length_le
    dsimp only
    split
    · simp only [List.length_cons]
      omega
    · omega
  · omega

private theorem fractionLength_le (text : Text) : fractionLength text ≤ text.length := by
  unfold fractionLength
  split
  · rename_i rest
    have digits := (List.takeWhile_sublist (fun c => c.isDecimalDigit || c == '_') (l := rest)).length_le
    simp only [digitRun, List.length_cons]
    omega
  · omega

private theorem mantissaLength_le (text : Text) : mantissaLength text ≤ text.length := by
  have digits := (List.takeWhile_sublist (fun c => c.isDecimalDigit || c == '_') (l := text)).length_le
  have behind := fractionLength_le (text.drop (digitRun text).length)
  have whole := fractionLength_le text
  unfold mantissaLength
  simp only [digitRun, List.length_drop] at *
  split
  · omega
  · split <;> omega

private theorem exponentLength_le (text : Text) : exponentLength text ≤ text.length := by
  have signed (signLength : Nat) (rest : Text) :
      (if ((rest.drop signLength).takeWhile CodePoint.isDecimalDigit).isEmpty then 0
        else 1 + signLength + ((rest.drop signLength).takeWhile CodePoint.isDecimalDigit).length) ≤
        rest.length + 1 := by
    have inside := (List.takeWhile_sublist CodePoint.isDecimalDigit (l := rest.drop signLength)).length_le
    generalize (rest.drop signLength).takeWhile CodePoint.isDecimalDigit = digits at inside ⊢
    cases digits with
    | nil => simp
    | cons digit digits =>
      simp only [List.length_drop, List.length_cons, List.isEmpty_cons] at inside ⊢
      split <;> omega
  cases text with
  | nil => exact Nat.le_refl 0
  | cons e rest =>
    simp only [exponentLength, List.length_cons]
    split
    · exact signed _ rest
    · omega

theorem numberLength_le (text : Text) : numberLength text ≤ text.length := by
  have mantissa := mantissaLength_le text
  have exponent := exponentLength_le (text.drop (mantissaLength text))
  have hex := hexLiteralLength_le text
  simp only [numberLength, decimalLength_eq, List.length_drop] at *
  split
  · split <;> omega
  · omega

/-- A run of digits and low lines. -/
def isRun (text : Text) : Bool := text.all fun c => c.isDecimalDigit || c == '_'

/-- A point and a run, or nothing. -/
inductive IsFraction : Text → Prop where
  | missing : IsFraction []
  | point {run : Text} (valid : isRun run = true) : IsFraction (.char '.' :: run)

/-- The mark of an exponent, an optional sign, and digits, or nothing. -/
inductive IsExponent : Text → Prop where
  | missing : IsExponent []
  | power {mark : CodePoint} {sign digits : Text} (isMark : mark = 'e' ∨ mark = 'E')
      (isSign : sign = [] ∨ sign = [.char '+'] ∨ sign = [.char '-']) (nonempty : digits ≠ [])
      (valid : digits.all CodePoint.isDecimalDigit = true) : IsExponent (mark :: (sign ++ digits))

/-- The spellings of a number: hexadecimal digits behind their mark, or a run with a fraction and an exponent, in which
there is a digit in front of the exponent. -/
inductive IsNumeral : Text → Prop where
  | hexadecimal {mark : CodePoint} {digits : Text} (isMark : mark = 'x' ∨ mark = 'X') (nonempty : digits ≠ [])
      (valid : digits.all (·.hexDigit?.isSome) = true) : IsNumeral (.char '0' :: mark :: digits)
  | decimal {whole fraction exponent : Text} (valid : isRun whole = true) (isFraction : IsFraction fraction)
      (isExponent : IsExponent exponent) (digit : ∃ c ∈ whole ++ fraction, c.isDecimalDigit = true) :
      IsNumeral (whole ++ fraction ++ exponent)

private theorem take_takeWhile (p : CodePoint → Bool) (text : Text) :
    text.take (text.takeWhile p).length = text.takeWhile p :=
  (List.prefix_iff_eq_take.mp (List.takeWhile_prefix p)).symm

private theorem isRun_digitRun (text : Text) : isRun (digitRun text) = true := List.all_takeWhile

private theorem isFraction_take (text : Text) : IsFraction (text.take (fractionLength text)) := by
  unfold fractionLength
  split
  · rename_i rest
    rw [Nat.add_comm, List.take_succ_cons, digitRun, take_takeWhile]
    exact .point (isRun_digitRun rest)
  · exact .missing

private theorem isExponent_take (text : Text) : IsExponent (text.take (exponentLength text)) := by
  cases text with
  | nil => exact .missing
  | cons mark rest =>
    have signed (sign : Text) {behind : Text} (isMark : mark = 'e' ∨ mark = 'E') (same : rest = sign ++ behind)
        (isSign : sign = [] ∨ sign = [.char '+'] ∨ sign = [.char '-']) :
        IsExponent ((mark :: rest).take (if (behind.takeWhile CodePoint.isDecimalDigit).isEmpty then 0
          else 1 + sign.length + (behind.takeWhile CodePoint.isDecimalDigit).length)) := by
      split
      · exact .missing
      · rename_i nonempty
        rw [Nat.add_assoc, Nat.add_comm, List.take_succ_cons, same, List.take_length_add_append, take_takeWhile]
        exact .power isMark isSign (by simpa using nonempty) List.all_takeWhile
    dsimp only [exponentLength]
    split
    · rename_i isMark
      cases rest with
      | nil => exact signed [] isMark rfl (.inl rfl)
      | cons c rest =>
        dsimp only
        split
        · rename_i isSign
          refine signed [c] isMark rfl (.inr ?_)
          rcases isSign with rfl | rfl <;> simp
        · exact signed [] isMark rfl (.inl rfl)
    · exact .missing

private theorem exists_mantissa {text : Text} (nonempty : mantissaLength text ≠ 0) : ∃ whole fraction,
    text.take (mantissaLength text) = whole ++ fraction ∧ isRun whole = true ∧ IsFraction fraction ∧
      ∃ c ∈ whole ++ fraction, c.isDecimalDigit = true := by
  have firstDigit {text : Text} (starts : startsWithDigit text = true) :
      ∃ c ∈ digitRun text, c.isDecimalDigit = true := by
    cases text with
    | nil => cases starts
    | cons c rest =>
      have digit : c.isDecimalDigit = true := starts
      exact ⟨c, by simp [digitRun, digit], digit⟩
  unfold mantissaLength at nonempty ⊢
  split
  · rename_i starts
    obtain ⟨c, member, digit⟩ := firstDigit starts
    refine ⟨_, _, List.take_add, ?_, isFraction_take _, c, ?_, digit⟩
    · rw [digitRun, take_takeWhile]
      exact isRun_digitRun text
    · rw [digitRun, take_takeWhile]
      exact List.mem_append_left _ member
  · rename_i notDigit
    split
    · rename_i starts
      rw [if_neg notDigit, if_pos starts] at nonempty
      obtain ⟨rest, rfl⟩ : ∃ rest, text = .char '.' :: rest := by
        unfold fractionLength at nonempty
        split at nonempty
        · exact ⟨_, rfl⟩
        · exact absurd rfl nonempty
      obtain ⟨c, member, digit⟩ := firstDigit starts
      refine ⟨[], _, rfl, rfl, isFraction_take _, c, ?_, digit⟩
      rw [fractionLength, Nat.add_comm, List.take_succ_cons, digitRun, take_takeWhile]
      exact List.mem_cons_of_mem _ member
    · rename_i other
      rw [if_neg notDigit, if_neg other] at nonempty
      exact absurd rfl nonempty

/-- The part of a text that is read as a number is spelled as one. -/
theorem isNumeral_take {text : Text} (nonempty : numberLength text ≠ 0) :
    IsNumeral (text.take (numberLength text)) := by
  unfold numberLength at nonempty ⊢
  dsimp only at nonempty ⊢
  split
  · rename_i noHex
    rw [if_pos noHex, decimalLength_eq] at nonempty
    rw [decimalLength_eq]
    split
    · rename_i empty
      exact absurd (if_pos empty) nonempty
    · rename_i mantissa
      obtain ⟨whole, fraction, same, valid, isFraction, digit⟩ := exists_mantissa mantissa
      rw [List.take_add, same]
      exact .decimal valid isFraction (isExponent_take _) digit
  · rename_i hex
    unfold hexLiteralLength at hex ⊢
    split at hex
    · rename_i mark rest
      dsimp only at hex ⊢
      split
      · rename_i isHex
        obtain ⟨isMark, nonempty⟩ := isHex
        rw [Nat.add_comm, List.take_succ_cons, List.take_succ_cons, take_takeWhile]
        exact .hexadecimal isMark (by simpa using nonempty) List.all_takeWhile
      · rename_i other
        exact absurd (if_neg other) hex
    · exact absurd rfl hex

private theorem punctuation_ne_number (awaiting : Awaiting) (text raw : Text) :
    (punctuation awaiting text).1 ≠ .number raw := by
  unfold punctuation
  split <;> try simp
  · split <;> simp
  · split <;> simp

private theorem symbol_ne_number (awaiting : Awaiting) (text raw : Text) : (symbol awaiting text).1 ≠ .number raw := by
  unfold symbol
  split
  · simp
  · split
    · simp
    · exact punctuation_ne_number awaiting text raw

private theorem isNumeral_of_lexeme {awaiting : Awaiting} {first : CodePoint} {rest raw : Text}
    (found : (lexeme awaiting first rest).1 = .number raw) : IsNumeral raw := by
  unfold lexeme at found
  dsimp only at found
  split at found
  · cases found
  · split at found
    · split at found <;> cases found
    · split at found
      · split at found <;> cases found
      · split at found
        · exact absurd found (symbol_ne_number awaiting _ raw)
        · split at found
          · exact absurd found (symbol_ne_number awaiting _ raw)
          · rename_i nonempty
            obtain rfl := Lexeme.number.inj found
            exact isNumeral_take nonempty

/-- The numbers among the tokens of a text are numerals. -/
theorem isNumeral_of_mem_tokens {awaiting : Awaiting} {place : Place} {text raw : Text} {token : Token}
    (member : token ∈ tokens awaiting place text) (number : token.lexeme = .number raw) : IsNumeral raw := by
  fun_induction tokens awaiting place text with
  | case1 => cases member
  | case2 awaiting place first rest length ignored ih => exact ih member
  | case3 awaiting place first rest =>
    obtain rfl := List.mem_singleton.mp member
    cases number
  | case4 awaiting place first rest kept found length read stop ih =>
    rcases List.mem_cons.mp member with rfl | member
    · exact isNumeral_of_lexeme ((congrArg Prod.fst read).trans number)
    · exact ih member

def isNumberPart (c : CodePoint) : Bool :=
  c.isDecimalDigit || c.hexDigit?.isSome || c.isOneOf "_.+-exX"

private theorem isNumberPart_of_digit {c : CodePoint} (digit : c.isDecimalDigit = true) : isNumberPart c = true := by
  simp [isNumberPart, digit]

private theorem isNumberPart_of_run {c : CodePoint} (valid : (c.isDecimalDigit || c == '_') = true) :
    isNumberPart c = true := by
  rcases Bool.or_eq_true_iff.mp valid with digit | low
  · exact isNumberPart_of_digit digit
  · rw [beq_iff_eq.mp low]
    decide

theorem IsNumeral.isNumberPart {text : Text} (numeral : IsNumeral text) {c : CodePoint} (member : c ∈ text) :
    isNumberPart c = true := by
  have ofAll {p : CodePoint → Bool} (part : ∀ c, p c = true → Expression.isNumberPart c = true) {text : Text}
      (valid : text.all p = true) (member : c ∈ text) : Expression.isNumberPart c = true :=
    part c (List.all_eq_true.mp valid c member)
  cases numeral with
  | hexadecimal isMark _ valid =>
    rcases List.mem_cons.mp member with rfl | member
    · decide
    rcases List.mem_cons.mp member with rfl | member
    · rcases isMark with rfl | rfl <;> decide
    · exact ofAll (fun c digit => by simp [Expression.isNumberPart, digit]) valid member
  | decimal valid isFraction isExponent _ =>
    rcases List.mem_append.mp member with member | member
    · rcases List.mem_append.mp member with member | member
      · exact ofAll (fun _ => isNumberPart_of_run) valid member
      · cases isFraction with
        | missing => cases member
        | point valid =>
          rcases List.mem_cons.mp member with rfl | member
          · decide
          · exact ofAll (fun _ => isNumberPart_of_run) valid member
    · cases isExponent with
      | missing => cases member
      | power isMark isSign _ valid =>
        rcases List.mem_cons.mp member with rfl | member
        · rcases isMark with rfl | rfl <;> decide
        rcases List.mem_append.mp member with member | member
        · rcases isSign with rfl | rfl | rfl <;> simp at member <;> subst member <;> decide
        · exact ofAll (fun _ => isNumberPart_of_digit) valid member

theorem all_take_numberLength (text : Text) : (text.take (numberLength text)).all isNumberPart = true := by
  by_cases empty : numberLength text = 0
  · rw [empty]
    rfl
  · exact List.all_eq_true.mpr fun c => (isNumeral_take empty).isNumberPart

private theorem take_lineFeed {text : Text} {length : Nat} (inside : length ≤ text.length) :
    (text ++ [CodePoint.char '\n']).take length = text.take length :=
  List.take_append_of_le_length inside

private theorem lexeme_lineFeed (awaiting : Awaiting) (first : CodePoint) :
    IgnoresLineFeed (lexeme awaiting first) := by
  intro rest
  have named := takeWhile_lineFeed (p := isNamePart) rfl (first :: rest)
  have marked := symbol_lineFeed awaiting first rest
  have counted := numberLength_lineFeed (first :: rest)
  have whole := take_lineFeed (numberLength_le (first :: rest))
  simp only [List.cons_append] at named marked counted whole
  have quoted {mark : CodePoint} (noFeed : mark ≠ .char '\n') (breaks : Bool) {length : Nat}
      (found : quotedLength? mark breaks rest = some length) :
      (first :: (rest ++ [.char '\n'])).take (length + 1) = (first :: rest).take (length + 1) :=
    @take_lineFeed (first :: rest) (length + 1) (Nat.succ_le_succ (quotedLength?_le found))
  unfold lexeme
  dsimp only
  rw [named, marked, counted]
  by_cases start : isNameStart first = true
  · simp only [start, if_true]
  by_cases isQuote : first = .char '"' ∨ first = .char '\x27'
  · have noFeed : first ≠ .char '\n' := by rcases isQuote with rfl | rfl <;> decide
    simp only [start, isQuote, if_true, quotedLength?_lineFeed noFeed false rest]
    cases found : quotedLength? first false rest with
    | none => rfl
    | some length => simp only [quoted noFeed false found]
  by_cases isTick : first = .char '\x60'
  · subst isTick
    have noFeed : CodePoint.char '\x60' ≠ .char '\n' := by decide
    simp only [start, isQuote, if_true, if_false, quotedLength?_lineFeed noFeed true rest]
    cases found : quotedLength? (.char '\x60') true rest with
    | none => rfl
    | some length => simp only [quoted noFeed true found]
  · simp only [start, isQuote, isTick, if_false]
    by_cases point : first = .char '.' ∧ awaiting = .operator
    · rw [if_pos point, if_pos rfl]
      rfl
    · rw [if_neg point, whole]

/-- A line feed at the end of a text adds no lexeme. -/
theorem lexemes_lineFeed (awaiting : Awaiting) (text : Text) :
    lexemes awaiting (text ++ [.char '\n']) = lexemes awaiting text := by
  match text with
  | [] => rw [lexemes_nil, List.nil_append, lexemes_ignored rfl, List.drop_nil, lexemes_nil]
  | first :: rest =>
    rw [List.cons_append]
    have further (awaiting : Awaiting) (length : Nat) :
        lexemes awaiting ((rest ++ [CodePoint.char '\n']).drop length) =
          lexemes awaiting (rest.drop length) := by
      by_cases inside : length ≤ rest.length
      · rw [List.drop_append_of_le_length inside]
        exact lexemes_lineFeed awaiting (rest.drop length)
      · rw [List.drop_eq_nil_of_le (by simp; omega), List.drop_eq_nil_of_le (by omega)]
    have same := ignoredLength_lineFeed first rest
    dsimp only at same
    cases ignored : ignoredLength (first :: rest) with
    | succ length =>
      rw [lexemes_ignored ignored, lexemes_ignored (same.trans ignored), further]
    | zero =>
      have read := lexeme_lineFeed awaiting first rest
      cases found : lexeme awaiting first rest with
      | mk lexeme length =>
        rw [found] at read
        cases length with
        | zero =>
          rw [lexemes_stray ignored (by rw [found]), lexemes_stray (same.trans ignored) (by rw [read])]
        | succ length =>
          rw [lexemes_lexeme ignored found, lexemes_lexeme (same.trans ignored) read, further]
termination_by text.length

end StaticStyle.Expression
