import StaticStyle.Expression.Literal
import StaticStyle.Proofs.Binary64.Notation
import StaticStyle.Proofs.Expression.Token
import StaticStyle.Proofs.Text.Ranges

/-!
What numerals denote. Every numeral of an expression denotes a number, however it is spelled: hexadecimal digits a whole
number, and anything else the number nearest to its decimal. The number is infinite if the decimal is too large, and no
other numeral denotes one that is not finite.
-/

namespace StaticStyle.Expression

/-- A numeral without its low lines. -/
def bare (raw : Text) : Text := raw.filter fun c => c ≠ CodePoint.char '_'

theorem bare_append (first second : Text) : bare (first ++ second) = bare first ++ bare second := List.filter_append ..

private theorem ne_of_isDecimalDigit {c other : CodePoint} (digit : c.isDecimalDigit = true)
    (noDigit : other.isDecimalDigit = false) : c ≠ other := by
  rintro rfl
  rw [digit] at noDigit
  cases noDigit

theorem bare_of_digits {digits : Text} (valid : digits.all CodePoint.isDecimalDigit = true) : bare digits = digits :=
  List.filter_eq_self.mpr fun c member =>
    decide_eq_true (ne_of_isDecimalDigit (List.all_eq_true.mp valid c member) (by decide))

theorem isDecimalDigit_bare {run : Text} (valid : isRun run = true) :
    (bare run).all CodePoint.isDecimalDigit = true := by
  refine List.all_eq_true.mpr fun c member => ?_
  obtain ⟨present, noLine⟩ := List.mem_filter.mp member
  have part := List.all_eq_true.mp valid c present
  simpa [of_decide_eq_true noLine] using part

theorem IsFraction.bare {fraction : Text} (isFraction : IsFraction fraction) : bare fraction = [] ∨
    ∃ digits, bare fraction = .char '.' :: digits ∧ digits.all CodePoint.isDecimalDigit = true := by
  cases isFraction with
  | missing => exact .inl rfl
  | point valid => exact .inr ⟨_, rfl, isDecimalDigit_bare valid⟩

theorem IsExponent.bare {exponent : Text} (isExponent : IsExponent exponent) : bare exponent = exponent := by
  cases isExponent with
  | missing => rfl
  | power isMark isSign nonempty valid =>
    rw [← List.singleton_append, bare_append, bare_append, bare_of_digits valid]
    rcases isMark with rfl | rfl <;> rcases isSign with rfl | rfl | rfl <;> rfl

theorem IsExponent.endsDigits {exponent : Text} (isExponent : IsExponent exponent) : Decimal.EndsDigits exponent := by
  cases isExponent with
  | missing => exact Decimal.endsDigits_nil
  | power isMark => exact Decimal.endsDigits_mark isMark _

private theorem readSign_of_head {text : Text} (unsigned : ∀ c ∈ text.head?, c ≠ '-' ∧ c ≠ '+') :
    Binary64.readSign text = (false, text) := by
  unfold Binary64.readSign
  split
  · exact absurd rfl (unsigned (.char '-') rfl).1
  · exact absurd rfl (unsigned (.char '+') rfl).2
  · rfl

theorem IsExponent.exists_read {exponent : Text} (isExponent : IsExponent exponent) :
    ∃ power, Binary64.readExponent? exponent = some power := by
  cases isExponent with
  | missing => exact ⟨0, rfl⟩
  | power isMark isSign nonempty valid =>
    rename_i mark sign digits
    obtain ⟨value, read⟩ := Decimal.exists_readDigits valid Decimal.endsDigits_nil 0 0
    have lower : mark.toAsciiLower = 'e' := by rcases isMark with rfl | rfl <;> decide
    have signed : ∃ negative, Binary64.readSign (sign ++ digits) = (negative, digits) := by
      rcases isSign with rfl | rfl | rfl
      · refine ⟨false, readSign_of_head fun c head => ?_⟩
        have digit := List.all_eq_true.mp valid c (List.mem_of_mem_head? head)
        exact ⟨ne_of_isDecimalDigit digit (by decide), ne_of_isDecimalDigit digit (by decide)⟩
      · exact ⟨false, rfl⟩
      · exact ⟨true, rfl⟩
    obtain ⟨negative, signed⟩ := signed
    rw [List.append_nil] at read
    exact ⟨_, by simp [Binary64.readExponent?, lower, signed, read, nonempty]; rfl⟩

private theorem exists_mem_bare {text : Text} (digit : ∃ c ∈ text, c.isDecimalDigit = true) :
    ∃ c ∈ bare text, c.isDecimalDigit = true := by
  obtain ⟨c, member, digit⟩ := digit
  exact ⟨c, List.mem_filter.mpr ⟨member, decide_eq_true (ne_of_isDecimalDigit digit (by decide))⟩, digit⟩

/-- The parts of a numeral that is not hexadecimal are read as a decimal. -/
private theorem exists_decimal {whole fraction exponent : Text} (valid : isRun whole = true)
    (isFraction : IsFraction fraction) (isExponent : IsExponent exponent)
    (digit : ∃ c ∈ whole ++ fraction, c.isDecimalDigit = true) :
    ∃ decimal, Binary64.readMagnitude? (bare (whole ++ fraction ++ exponent)) = some decimal := by
  obtain ⟨power, found⟩ := isExponent.exists_read
  have ends := isExponent.endsDigits
  have kept := exists_mem_bare digit
  rw [bare_append] at kept
  rw [bare_append, bare_append, isExponent.bare]
  have wholeDigits := isDecimalDigit_bare valid
  generalize bare whole = whole at wholeDigits kept
  rcases isFraction.bare with missing | ⟨digits, pointed, fractionDigits⟩
  · obtain ⟨value, read⟩ := Decimal.exists_readDigits wholeDigits ends 0 0
    have nonempty : whole ≠ [] := by
      rintro rfl
      simp [missing] at kept
    rw [missing, List.append_nil, Binary64.readMagnitude?, read]
    cases isExponent with
    | missing => simp [nonempty, found]
    | power isMark => rcases isMark with rfl | rfl <;> simp [nonempty, found]
  · obtain ⟨value, read⟩ := Decimal.exists_readDigits wholeDigits (Decimal.endsDigits_point (digits ++ exponent)) 0 0
    obtain ⟨part, readPart⟩ := Decimal.exists_readDigits fractionDigits ends 0 0
    have nonempty : 0 + whole.length + (0 + digits.length) ≠ 0 := by
      obtain ⟨c, member, digit⟩ := kept
      rw [pointed] at member
      rcases List.mem_append.mp member with member | member
      · have := List.length_pos_of_mem member
        omega
      · rcases List.mem_cons.mp member with rfl | member
        · exact absurd digit (by decide)
        · have := List.length_pos_of_mem member
          omega
    rw [pointed, List.append_assoc, List.cons_append]
    simp only [Binary64.readMagnitude?, read, readPart, nonempty, ↓reduceIte, found, Option.map_some]
    exact ⟨_, rfl⟩

private theorem dropWhile_isPadding {text : Text} (unpadded : ∀ c ∈ text, Binary64.isPadding c = false) :
    text.dropWhile Binary64.isPadding = text := by
  cases text with
  | nil => rfl
  | cons c text => rw [List.dropWhile_cons_of_neg (by simp [unpadded c List.mem_cons_self])]

private theorem dropTrailing_isPadding {text : Text} (unpadded : ∀ c ∈ text, Binary64.isPadding c = false) :
    Text.dropTrailing Binary64.isPadding text = text := by
  rw [Text.dropTrailing, dropWhile_isPadding (by simpa using unpadded), List.reverse_reverse]

/-- Whether a code point may stand in a numeral that is not hexadecimal. -/
def isDecimalPart (c : CodePoint) : Bool := c.isDecimalDigit || c.isOneOf ".eE+-"

/-- A text with the code points of a numeral is read as the number nearest to its decimal. -/
theorem read?_of_readMagnitude? {text : Text} {decimal : Decimal} (parts : text.all isDecimalPart = true)
    (unsigned : ∀ c ∈ text.head?, c.isDecimalDigit = true ∨ c = '.')
    (found : Binary64.readMagnitude? text = some decimal) :
    Binary64.read? text = some (decimal.toBinary false) := by
  have noPadding : ∀ c ∈ text, Binary64.isPadding c = false := fun c member => by
    rcases Bool.or_eq_true_iff.mp (List.all_eq_true.mp parts c member) with digit | mark
    · rw [Binary64.isPadding, CodePoint.isBlank_of_isDecimalDigit digit]
      rfl
    · have marks : ∀ mark ∈ Text.ofString ".eE+-", Binary64.isPadding mark = false := by decide
      exact marks c (List.contains_iff_mem.mp mark)
  have untrimmed : Text.dropTrailing Binary64.isPadding (text.dropWhile Binary64.isPadding) = text := by
    rw [dropWhile_isPadding noPadding, dropTrailing_isPadding noPadding]
  have sign : Binary64.readSign text = (false, text) := readSign_of_head fun c head => by
    rcases unsigned c head with digit | rfl
    · exact ⟨ne_of_isDecimalDigit digit (by decide), ne_of_isDecimalDigit digit (by decide)⟩
    · decide
  have unnamed {first : CodePoint} (letter : first = 'i' ∨ first = 'n') (rest : Text) :
      text.map CodePoint.toAsciiLower ≠ first :: rest := by
    intro same
    obtain ⟨c, others, rfl, rfl, -⟩ := List.map_eq_cons_iff.mp same
    rcases unsigned c rfl with digit | rfl
    · rw [CodePoint.toAsciiLower_of_isDecimalDigit digit] at letter
      exact letter.elim (ne_of_isDecimalDigit digit (by decide)) (ne_of_isDecimalDigit digit (by decide))
    · exact absurd letter (by decide)
  have noInfinity : ¬(text.map CodePoint.toAsciiLower = Text.ofString "inf" ∨
      text.map CodePoint.toAsciiLower = Text.ofString "infinity") :=
    not_or.mpr ⟨unnamed (.inl rfl) _, unnamed (.inl rfl) _⟩
  have noNan : text.map CodePoint.toAsciiLower ≠ Text.ofString "nan" := unnamed (.inr rfl) _
  rw [Binary64.read?, untrimmed, sign]
  dsimp only
  rw [if_neg noInfinity, if_neg noNan, found, Option.map_some]

/-- A numeral that is not hexadecimal denotes the number nearest to its decimal. -/
theorem decodeNumber?_of_readMagnitude? {raw : Text} {decimal : Decimal} (parts : (bare raw).all isDecimalPart = true)
    (unsigned : ∀ c ∈ (bare raw).head?, c.isDecimalDigit = true ∨ c = '.')
    (found : Binary64.readMagnitude? (bare raw) = some decimal) :
    decodeNumber? raw = some (ofBinary (decimal.toBinary false)) := by
  have read := read?_of_readMagnitude? parts unsigned found
  unfold bare at parts read
  unfold decodeNumber?
  dsimp only
  split
  · rename_i mark digits same
    have part : isDecimalPart mark = true := List.all_eq_true.mp parts mark (same ▸ by simp)
    have noMark : ¬(mark = 'x' ∨ mark = 'X') := by
      rintro (rfl | rfl) <;> exact absurd part (by decide)
    rw [if_neg noMark, read, Option.map_some]
  · rw [read, Option.map_some]

section Decimals

variable {whole fraction exponent : Text}

theorem isDecimalPart_of_digits {digits : Text} (valid : digits.all CodePoint.isDecimalDigit = true) :
    digits.all isDecimalPart = true :=
  List.all_eq_true.mpr fun c member => by simp [isDecimalPart, List.all_eq_true.mp valid c member]

theorem IsExponent.isDecimalPart (isExponent : IsExponent exponent) : exponent.all isDecimalPart = true := by
  cases isExponent with
  | missing => rfl
  | power isMark isSign nonempty valid =>
    rw [List.all_cons, List.all_append, isDecimalPart_of_digits valid]
    rcases isMark with rfl | rfl <;> rcases isSign with rfl | rfl | rfl <;> decide

theorem IsFraction.isDecimalPart (isFraction : IsFraction fraction) :
    (Expression.bare fraction).all isDecimalPart = true := by
  rcases isFraction.bare with missing | ⟨digits, pointed, valid⟩
  · rw [missing]
    rfl
  · rw [pointed, List.all_cons, isDecimalPart_of_digits valid]
    decide

theorem isDecimalPart_bare (valid : isRun whole = true) (isFraction : IsFraction fraction)
    (isExponent : IsExponent exponent) : (bare (whole ++ fraction ++ exponent)).all isDecimalPart = true := by
  rw [bare_append, bare_append, isExponent.bare, List.all_append, List.all_append,
    isDecimalPart_of_digits (isDecimalDigit_bare valid), isFraction.isDecimalPart, isExponent.isDecimalPart]
  rfl

/-- Without low lines such a numeral begins with a digit or with a point. -/
theorem head_bare (valid : isRun whole = true) (isFraction : IsFraction fraction)
    (digit : ∃ c ∈ whole ++ fraction, c.isDecimalDigit = true) :
    ∀ c ∈ (bare (whole ++ fraction ++ exponent)).head?, c.isDecimalDigit = true ∨ c = '.' := by
  obtain ⟨kept, member, -⟩ := exists_mem_bare digit
  have nonempty := List.ne_nil_of_mem member
  intro c head
  rw [bare_append, List.head?_append_of_ne_nil _ nonempty, bare_append] at head
  have wholeDigits := isDecimalDigit_bare valid
  generalize bare whole = whole at head wholeDigits
  cases whole with
  | cons first rest =>
    obtain rfl := Option.some.inj head
    exact .inl (List.all_eq_true.mp wholeDigits _ List.mem_cons_self)
  | nil =>
    rcases isFraction.bare with missing | ⟨digits, pointed, -⟩
    · rw [missing] at head
      cases head
    · rw [pointed] at head
      exact .inr (Option.some.inj head).symm

end Decimals

section Hexadecimals

variable {mark : CodePoint} {digits : Text}

private theorem bare_hexadecimal (isMark : mark = 'x' ∨ mark = 'X') (valid : digits.all (·.hexDigit?.isSome) = true) :
    bare (.char '0' :: mark :: digits) = .char '0' :: mark :: digits := by
  refine List.filter_eq_self.mpr fun c member => decide_eq_true ?_
  rcases List.mem_cons.mp member with rfl | member
  · decide
  rcases List.mem_cons.mp member with rfl | member
  · rcases isMark with rfl | rfl <;> decide
  · rintro rfl
    exact absurd (List.all_eq_true.mp valid _ member) (by decide)

/-- Hexadecimal digits denote a whole number. -/
theorem exists_hexadecimal (isMark : mark = 'x' ∨ mark = 'X') (nonempty : digits ≠ [])
    (valid : digits.all (·.hexDigit?.isSome) = true) :
    ∃ n : Nat, decodeNumber? (.char '0' :: mark :: digits) = some (.whole n) := by
  have unpadded : ∀ c ∈ digits, Binary64.isPadding c = false := fun c member => by
    rw [Binary64.isPadding, CodePoint.isBlank_of_hexDigit? (List.all_eq_true.mp valid c member)]
    rfl
  have folded (value : Nat) :
      ∃ n, digits.foldlM (fun value c => (hexLiteralDigit? c).map (value * 16 + ·)) value = some n := by
    clear nonempty unpadded
    induction digits generalizing value with
    | nil => exact ⟨value, rfl⟩
    | cons c digits ih =>
      obtain ⟨first, others⟩ := Bool.and_eq_true_iff.mp (List.all_cons.symm.trans valid)
      obtain ⟨digit, found⟩ := Option.isSome_iff_exists.mp first
      obtain ⟨n, read⟩ := ih others (value * 16 + digit)
      exact ⟨n, by simpa [hexLiteralDigit?, found] using read⟩
  obtain ⟨n, read⟩ := folded 0
  refine ⟨n, ?_⟩
  have same := bare_hexadecimal isMark valid
  unfold bare at same
  simp only [decodeNumber?, same, isMark, ↓reduceIte, dropTrailing_isPadding unpadded]
  simp [readHexLiteral?, nonempty, read]

/-- Hexadecimal digits are no decimal. -/
theorem readMagnitude?_hexadecimal (isMark : mark = 'x' ∨ mark = 'X') (valid : digits.all (·.hexDigit?.isSome) = true) :
    Binary64.readMagnitude? (bare (.char '0' :: mark :: digits)) = none := by
  have ends : Decimal.EndsDigits (mark :: digits) := by
    intro c head
    obtain rfl := Option.some.inj head
    rcases isMark with rfl | rfl <;> decide
  have zero : ([.char '0'] : Text).all CodePoint.isDecimalDigit = true := by decide
  obtain ⟨value, read⟩ := Decimal.exists_readDigits zero ends 0 0
  rw [bare_hexadecimal isMark valid, ← List.singleton_append, Binary64.readMagnitude?, read]
  have noPower : Binary64.readExponent? (mark :: digits) = none := by
    rcases isMark with rfl | rfl <;> rfl
  rcases isMark with rfl | rfl <;> simp [noPower]

end Hexadecimals

/-- Whether the decimal of a numeral is too large for a number. -/
def Overflows (raw : Text) : Prop :=
  ∃ decimal, Binary64.readMagnitude? (bare raw) = some decimal ∧ Binary64.overflowBound ≤ decimal.value

/-- Whether a number is neither infinite nor undefined. -/
def Number.isFinite : Number → Bool
  | whole _ => true
  | real (.finite ..) => true
  | real _ => false

theorem isFinite_ofBinary (negative : Bool) {significand : Nat} {exponent : Int}
    (canonical : Binary64.IsCanonical significand exponent) :
    (ofBinary (.finite negative significand exponent canonical)).isFinite = true := by
  unfold ofBinary
  split
  · split <;> rfl
  · rfl

/-- A numeral denotes a number. It is infinite if the decimal is too large, and finite otherwise. -/
theorem IsNumeral.exists_number {raw : Text} (numeral : IsNumeral raw) : ∃ number, decodeNumber? raw = some number ∧
    (Overflows raw → number = .real (.infinity false)) ∧ (¬ Overflows raw → number.isFinite = true) := by
  cases numeral with
  | hexadecimal isMark nonempty valid =>
    obtain ⟨n, decoded⟩ := exists_hexadecimal isMark nonempty valid
    refine ⟨.whole n, decoded, ?_, fun _ => rfl⟩
    rintro ⟨decimal, found, -⟩
    rw [readMagnitude?_hexadecimal isMark valid] at found
    cases found
  | decimal valid isFraction isExponent digit =>
    obtain ⟨decimal, found⟩ := exists_decimal valid isFraction isExponent digit
    refine ⟨_, decodeNumber?_of_readMagnitude? (isDecimalPart_bare valid isFraction isExponent)
      (head_bare valid isFraction digit) found, ?_, fun small => ?_⟩
    · rintro ⟨_, same, large⟩
      obtain rfl := Option.some.inj (found.symm.trans same)
      rw [(Decimal.toBinary_range false _).1 large]
      rfl
    · have below : decimal.value < Binary64.overflowBound := not_le.mp fun large => small ⟨decimal, found, large⟩
      obtain ⟨significand, exponent, canonical, same⟩ := (Decimal.toBinary_range false decimal).2 below
      rw [same]
      exact isFinite_ofBinary false canonical

end StaticStyle.Expression
