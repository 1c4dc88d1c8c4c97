import StaticStyle.Proofs.Expression.Numeral
import StaticStyle.Proofs.Json.Quoted
import StaticStyle.Proofs.Text.Surrogate

namespace StaticStyle.Expression

open Json (escape shortEscape? unitEscape escape_cases)

private theorem shortEscape?_letter {c : CodePoint} {letter : Char} (short : shortEscape? c = some letter) :
    (CodePoint.char letter).isLineFeed = false ∧
      ∀ rest : Text, Escape.read? (.char letter :: rest) = some ⟨.inr [c], 1⟩ := by
  unfold shortEscape? at short
  repeat' split at short
  all_goals simp only [Option.some.injEq, reduceCtorEq] at short
  all_goals
    subst short
    refine ⟨rfl, fun rest => ?_⟩
    simp_all [Escape.read?, Escape.ofLetter]

private theorem read?_unit {c : CodePoint} (low : c.toNat < 0x20) (rest : Text) :
    Escape.read? (.char 'u' :: (hexDigits 4 c.toNat ++ rest)) = some ⟨.inl c.toNat, 5⟩ := by
  have digits : ∀ n < 0x20, (hexDigits 4 n).head? = some (.char '0') ∧ (hexDigits 4 n).length = 4 ∧
      Escape.ofHex? 4 (hexDigits 4 n) = some ⟨.inl n, 5⟩ := by
    decide
  obtain ⟨zero, size, found⟩ := digits _ low
  have whole : Escape.ofHex? 4 (hexDigits 4 c.toNat ++ rest) = some ⟨.inl c.toNat, 5⟩ := by
    rw [← found, Escape.ofHex?, Escape.ofHex?, List.take_left' size, List.take_of_length_le (Nat.le_of_eq size)]
  generalize hexDigits 4 c.toNat = text at *
  cases text with
  | nil => cases zero
  | cons d text =>
    obtain rfl := Option.some.inj zero
    rw [List.cons_append] at whole ⊢
    simp [Escape.read?, whole]

/-- The escape of a code point denotes the code point. -/
theorem unescape_escape (c : CodePoint) (rest : Text) :
    unescape (escape c ++ rest) = (c :: ·) <$> unescape rest := by
  rcases escape_cases c with ⟨plain, noEscape, -⟩ | ⟨letter, short, escaped⟩ | ⟨low, escaped⟩
  · rw [plain, List.singleton_append, unescape, if_neg noEscape]
  · rw [escaped, List.cons_append, List.singleton_append, unescape, if_pos rfl]
    simp [(shortEscape?_letter short).2]
  · rw [escaped, unitEscape, List.cons_append, List.cons_append, unescape, if_pos rfl]
    have behind : (CodePoint.char 'u' :: (hexDigits 4 c.toNat ++ rest)).drop 5 = rest :=
      @List.drop_left' _ (.char 'u' :: hexDigits 4 c.toNat) rest 5 rfl
    simp only [read?_unit low, CodePoint.ofNat?_toNat, behind]

theorem unescape_escapes (text : Text) : unescape (text.flatMap escape) = .ok text := by
  induction text with
  | nil => rw [List.flatMap_nil, unescape]
  | cons c text ih =>
    rw [List.flatMap_cons, unescape_escape, ih]
    rfl

theorem decodeString_quote (text : Text) : decodeString (Json.quote text) = .ok text := by
  rw [decodeString, Json.quote, List.cons_append, List.drop_one, List.tail_cons, List.dropLast_concat,
    unescape_escapes]

/-- Whether a code point stands for itself between two marks. -/
def isUnescaped (mark c : CodePoint) : Bool := c != mark && c != '\\' && !c.isLineFeed

theorem quotedLength?_append {mark : CodePoint} {part : Text} (unescaped : part.all (isUnescaped mark) = true)
    (rest : Text) :
    quotedLength? mark false (part ++ rest) = (quotedLength? mark false rest).map (· + part.length) := by
  induction part with
  | nil => simp
  | cons c part ih =>
    simp only [List.all_cons, Bool.and_eq_true, isUnescaped, bne_iff_ne, ne_eq, Bool.not_eq_true'] at unescaped ih
    obtain ⟨⟨⟨noMark, noEscape⟩, unbroken⟩, others⟩ := unescaped
    rw [List.cons_append, quotedLength?.eq_def]
    simp [noMark, noEscape, unbroken, ih others, Option.map_map, Function.comp_def, Nat.add_assoc]

theorem quotedLength?_escaped {mark c : CodePoint} (noEscape : mark ≠ '\\') (unbroken : c.isLineFeed = false)
    (rest : Text) :
    quotedLength? mark false (.char '\\' :: c :: rest) = (quotedLength? mark false rest).map (· + 2) := by
  rw [quotedLength?.eq_def]
  simp [unbroken, noEscape.symm]

private theorem quotedLength?_escape (c : CodePoint) (rest : Text) :
    quotedLength? '"' false (escape c ++ rest) = (quotedLength? '"' false rest).map (· + (escape c).length) := by
  rcases escape_cases c with ⟨plain, noEscape, noMark⟩ | ⟨letter, short, escaped⟩ | ⟨-, escaped⟩
  · have unbroken : c.isLineFeed = false := by
      refine Bool.eq_false_iff.mpr fun feed => ?_
      rw [beq_iff_eq.mp feed] at plain
      simp [escape, shortEscape?] at plain
    rw [plain, quotedLength?_append (by simp [isUnescaped, noMark, noEscape, unbroken])]
  · have unbroken := (shortEscape?_letter short).1
    rw [escaped, List.cons_append, List.singleton_append, quotedLength?_escaped (by decide) unbroken]
    rfl
  · have digits : (hexDigits 4 c.toNat).all (isUnescaped '"') = true := Json.all_hexDigits (by decide) 4 c.toNat
    rw [escaped, unitEscape, List.cons_append, List.cons_append, quotedLength?_escaped (by decide) rfl,
      quotedLength?_append digits]
    simp [Option.map_map, Function.comp_def, Nat.add_assoc]

/-- A text in quotes ends with its closing quote. -/
theorem quotedLength?_escapes (text behind : Text) :
    quotedLength? '"' false (text.flatMap escape ++ .char '"' :: behind) = some ((text.flatMap escape).length + 1) := by
  induction text with
  | nil =>
    rw [quotedLength?.eq_def]
    simp
  | cons c text ih =>
    rw [List.flatMap_cons, List.append_assoc, quotedLength?_escape, ih, Option.map_some, List.length_append]
    congr 1
    omega

/-- Nothing goes on into a text: it is empty, or a blank, a comma or a closing brace comes first. -/
def Parted (text : Text) : Prop := ∀ c ∈ text.head?, c.isOneOf " ,\x7d" = true

/-- What holds of the three code points that part texts holds of the first one of a parted text. -/
theorem Parted.head {p : CodePoint → Prop} (blank : p (.char ' ')) (comma : p (.char ',')) (brace : p (.char '\x7d'))
    {c : CodePoint} {rest : Text} (parted : Parted (c :: rest)) : p c := by
  have choice := parted c rfl
  simp only [CodePoint.isOneOf, Text.ofString, List.contains_eq_mem, decide_eq_true_eq] at choice
  simp at choice
  rcases choice with rfl | rfl | rfl
  · exact blank
  · exact comma
  · exact brace

theorem parted_nil : Parted [] := by simp [Parted]

theorem takeWhile_parted {p : CodePoint → Bool} (blank : p (.char ' ') = false) (comma : p (.char ',') = false)
    (brace : p (.char '\x7d') = false) {front behind : Text} (all : ∀ c ∈ front, p c = true) (parted : Parted behind) :
    (front ++ behind).takeWhile p = front := by
  rw [List.takeWhile_append_of_pos all]
  cases behind with
  | nil => simp
  | cons c rest =>
    have stops : p c = false := parted.head (p := fun c => p c = false) blank comma brace
    simp [stops]

private theorem exists_digitChar {d : Char} (digit : d.isDigit = true) : ∃ k < 10, d = Nat.digitChar k := by
  simp only [Char.isDigit, Bool.and_eq_true, decide_eq_true_eq, ge_iff_le, UInt32.le_iff_toNat_le] at digit
  have low : 48 ≤ d.toNat := digit.1
  have high : d.toNat ≤ 57 := digit.2
  have numbers : ∀ k < 10, (Nat.digitChar k).toNat = 48 + k := by decide
  have inside : d.toNat - 48 < 10 := by omega
  refine ⟨d.toNat - 48, inside, Char.toNat_inj.mp ?_⟩
  rw [numbers _ inside]
  omega

theorem of_mem_ofNat {p : CodePoint → Prop} (digit : ∀ k < 10, p (.char (Nat.digitChar k))) {n : Nat}
    {c : CodePoint} (member : c ∈ Text.ofNat n) : p c := by
  obtain ⟨d, found, rfl⟩ := List.mem_map.mp member
  obtain ⟨k, inside, rfl⟩ := exists_digitChar (Nat.isDigit_of_mem_toDigits (by omega) (by omega) found)
  exact digit k inside

theorem ofNat_ne_nil (n : Nat) : Text.ofNat n ≠ [] := by
  simp [Text.ofNat, Nat.toDigits_ne_nil]

private theorem ofNat_noMark {n : Nat} {c : CodePoint} (member : c ∈ Text.ofNat n) : c ≠ 'x' ∧ c ≠ 'X' :=
  of_mem_ofNat (p := fun c => c ≠ 'x' ∧ c ≠ 'X') (by decide) member

private theorem second_noMark (n : Nat) {behind : Text} (parted : Parted behind) :
    ∀ x ∈ ((Text.ofNat n ++ behind).drop 1).head?, x ≠ 'x' ∧ x ≠ 'X' := by
  obtain ⟨d, digits, split⟩ := List.exists_cons_of_ne_nil (ofNat_ne_nil n)
  have others : ∀ c ∈ digits, c ≠ 'x' ∧ c ≠ 'X' := fun c member =>
    ofNat_noMark (split ▸ List.mem_cons_of_mem d member)
  intro x found
  rw [split, List.cons_append, List.drop_one, List.tail_cons] at found
  cases digits with
  | cons e digits =>
    obtain rfl := Option.some.inj found
    exact others _ List.mem_cons_self
  | nil =>
    cases behind with
    | nil => cases found
    | cons c rest =>
      obtain rfl := Option.some.inj found
      exact parted.head (p := fun c => c ≠ 'x' ∧ c ≠ 'X') (by decide) (by decide) (by decide)

private theorem hexLiteralLength_ofNat (n : Nat) {behind : Text} (parted : Parted behind) :
    hexLiteralLength (Text.ofNat n ++ behind) = 0 := by
  have noMark := second_noMark n parted
  unfold hexLiteralLength
  split
  · rename_i x rest whole
    rw [whole] at noMark
    obtain ⟨noSmall, noCapital⟩ := noMark x rfl
    simp [noSmall, noCapital]
  · rfl

/-- The digits of a natural number are read up to what parts them. -/
theorem numberLength_ofNat (n : Nat) {behind : Text} (parted : Parted behind) :
    numberLength (Text.ofNat n ++ behind) = (Text.ofNat n).length := by
  have run : digitRun (Text.ofNat n ++ behind) = Text.ofNat n :=
    takeWhile_parted (by decide) (by decide) (by decide)
      (fun c => of_mem_ofNat (p := fun c => (c.isDecimalDigit || c == '_') = true) (by decide)) parted
  have starts : startsWithDigit (Text.ofNat n ++ behind) = true := by
    obtain ⟨d, digits, split⟩ := List.exists_cons_of_ne_nil (ofNat_ne_nil n)
    rw [split]
    exact of_mem_ofNat (p := fun c => c.isDecimalDigit = true) (by decide) (split ▸ List.mem_cons_self)
  have noExponent : exponentLength behind = 0 := by
    cases behind with
    | nil => rfl
    | cons c rest =>
      have noMark : c ≠ 'e' ∧ c ≠ 'E' :=
        parted.head (p := fun c => c ≠ 'e' ∧ c ≠ 'E') (by decide) (by decide) (by decide)
      simp [exponentLength, noMark]
  have size : (Text.ofNat n).length ≠ 0 := by simp [ofNat_ne_nil]
  rw [numberLength, hexLiteralLength_ofNat n parted, if_pos rfl]
  simp only [decimalLength, starts, ↓reduceIte, run, List.drop_left]
  cases behind with
  | nil => simp [size, exponentLength]
  | cons c rest =>
    have noPoint : c ≠ '.' := parted.head (p := fun c => c ≠ '.') (by decide) (by decide) (by decide)
    simp [size, noPoint, noExponent]

private theorem readMagnitude?_ofNat (n : Nat) : Binary64.readMagnitude? (Text.ofNat n) = some ⟨n, 0⟩ := by
  have digits : ∀ c ∈ Nat.toDigits 10 n, c.isDigit = true :=
    fun _ member => Nat.isDigit_of_mem_toDigits (by omega) (by omega) member
  have ends : Decimal.EndsDigits [] := by simp [Decimal.EndsDigits]
  have read := Decimal.readDigits_append digits ends 0 0
  rw [List.append_nil] at read
  simp [Binary64.readMagnitude?, Text.ofNat, read, Binary64.readExponent?, Nat.toDigits_ne_nil]

private theorem toInt?_finite {significand n : Nat} {exponent : Int}
    {canonical : Binary64.IsCanonical significand exponent} (same : (significand * 2 ^ exponent : ℚ) = n) :
    (Binary64.finite false significand exponent canonical).toInt? = some n := by
  have positive := Binary64.quotient_pos significand exponent
  have value := (Binary64.quotient_value significand exponent).trans same
  rw [Binary64.toInt?]
  generalize Binary64.quotient significand exponent = parts at positive value
  obtain ⟨numerator, denominator⟩ := parts
  rw [div_eq_iff (by exact_mod_cast Nat.ne_of_gt positive)] at value
  obtain rfl : numerator = n * denominator := by exact_mod_cast value
  simp [Nat.mul_div_cancel n positive]

/-- A whole number of at most 53 bits is a binary number. -/
private theorem toInt?_toBinary {n : Nat} (small : n < 2 ^ 53) :
    ((Decimal.mk n 0).toBinary false).toInt? = some n := by
  rcases Nat.eq_zero_or_pos n with rfl | positive
  · have zero : (Decimal.mk 0 0).toBinary false = .zero false := by simp [Decimal.toBinary]
    rw [zero]
    exact toInt?_finite (by simp)
  · have least := Nat.log2_self_le (Nat.ne_of_gt positive)
    have greatest := Nat.lt_log2_self (n := n)
    have bits : n.log2 < 53 := (Nat.log2_lt (Nat.ne_of_gt positive)).mpr small
    -- the number with all of its 53 bits
    obtain ⟨shift, filled⟩ := Nat.exists_eq_add_of_le (Nat.le_of_lt_succ bits)
    have lower : 2 ^ 52 ≤ n * 2 ^ shift := by
      calc 2 ^ 52 = 2 ^ n.log2 * 2 ^ shift := by rw [filled, Nat.pow_add]
        _ ≤ n * 2 ^ shift := Nat.mul_le_mul_right _ least
    have upper : n * 2 ^ shift < 2 ^ 53 := by
      calc n * 2 ^ shift < 2 ^ (n.log2 + 1) * 2 ^ shift :=
            Nat.mul_lt_mul_of_pos_right greatest (Nat.two_pow_pos shift)
        _ = 2 ^ 53 := by rw [← Nat.pow_add, show n.log2 + 1 + shift = 53 by omega]
    have canonical : Binary64.IsCanonical (n * 2 ^ shift) (-shift) :=
      Binary64.isCanonical_iff.mpr ⟨upper, by omega, by omega, .inl lower⟩
    have same : ((n * 2 ^ shift : Nat) * 2 ^ (-shift : Int) : ℚ) = n := by
      rw [zpow_neg, zpow_natCast, Nat.cast_mul, Nat.cast_pow, Nat.cast_ofNat, mul_assoc,
        mul_inv_cancel₀ (by positivity), mul_one]
    have value : (Decimal.mk n 0).value = (n * 2 ^ shift : Nat) * 2 ^ (-shift : Int) := by
      rw [same, Decimal.value, zpow_zero, mul_one]
    rw [Decimal.toBinary_of_value (Nat.ne_of_gt (Nat.lt_of_lt_of_le (by omega) lower)) canonical value,
      toInt?_finite same]

/-- The digits of a natural number denote it. -/
theorem decodeNumber?_ofNat {n : Nat} (small : n < 2 ^ 53) : decodeNumber? (Text.ofNat n) = some (.whole n) := by
  have digits : (Text.ofNat n).all CodePoint.isDecimalDigit = true :=
    List.all_eq_true.mpr fun c => of_mem_ofNat (p := fun c => c.isDecimalDigit = true) (by decide)
  have unsigned : ∀ c ∈ (Text.ofNat n).head?, c.isDecimalDigit = true ∨ c = '.' := fun c head =>
    .inl (List.all_eq_true.mp digits c (List.mem_of_mem_head? head))
  have decoded : decodeNumber? (Text.ofNat n) = some (ofBinary ((Decimal.mk n 0).toBinary false)) := by
    apply decodeNumber?_of_readMagnitude? <;> rw [bare_of_digits digits]
    · exact isDecimalPart_of_digits digits
    · exact unsigned
    · exact readMagnitude?_ofNat n
  rw [decoded, ofBinary, toInt?_toBinary small]
  exact congrArg some (if_pos (by simpa using small))

end StaticStyle.Expression
