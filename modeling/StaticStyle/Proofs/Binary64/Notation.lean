import StaticStyle.Proofs.Binary64.Numeral

namespace StaticStyle

theorem CodePoint.decimalDigit?_of_isDigit {c : Char} (digit : c.isDigit = true) :
    (CodePoint.char c).decimalDigit? = some (c.toNat - '0'.toNat) := by
  have all : ∀ n < 58, 48 ≤ n → digitRanges.distance? n = some (n - 48) := by decide
  have bounds : 48 ≤ c.toNat ∧ c.toNat < 58 := by
    simp only [Char.isDigit, Bool.and_eq_true, decide_eq_true_eq, ge_iff_le, UInt32.le_iff_toNat_le]
      at digit
    exact ⟨digit.1, Nat.lt_succ_of_le digit.2⟩
  simp only [decimalDigit?, toNat, all _ bounds.2 bounds.1, Option.map_some]
  congr 1
  simp
  omega

namespace Decimal

/-- A text in which no digit and no low line comes first. -/
def EndsDigits (rest : Text) : Prop :=
  ∀ c ∈ rest.head?, c.decimalDigit? = none ∧ c ≠ .char '_'

private theorem readDigits_stop {rest : Text} (ends : EndsDigits rest) (value count : Nat) :
    Binary64.readDigits value count rest = (value, count, rest) := by
  cases rest with
  | nil => rfl
  | cons c rest =>
    obtain ⟨noDigit, noLine⟩ := ends c rfl
    cases rest with
    | nil => simp [Binary64.readDigits, noDigit]
    | cons d rest =>
      simp only [Binary64.readDigits, noDigit, noLine, false_and, ↓reduceIte]
      split <;> rfl

private theorem readDigits_cons {c : CodePoint} {digit : Nat} (found : c.decimalDigit? = some digit)
    (rest : Text) (value count : Nat) :
    Binary64.readDigits value count (c :: rest) =
      Binary64.readDigits (10 * value + digit) (count + 1) rest := by
  cases rest <;> simp [Binary64.readDigits, found]

/-- Digits are read up to what ends them. -/
theorem readDigits_append {digits : List Char} (all : ∀ c ∈ digits, c.isDigit = true) {rest : Text}
    (ends : EndsDigits rest) (value count : Nat) :
    Binary64.readDigits value count (digits.map .char ++ rest) =
      (Nat.ofDigitChars 10 digits value, count + digits.length, rest) := by
  induction digits generalizing value count with
  | nil => simpa using readDigits_stop ends value count
  | cons c digits ih =>
    have digit := CodePoint.decimalDigit?_of_isDigit (all c (by simp))
    rw [List.map_cons, List.cons_append, readDigits_cons digit,
      ih fun d member => all d (by simp [member]), Nat.ofDigitChars_cons, List.length_cons,
      Nat.add_right_comm, Nat.add_assoc]

/-- Digits of any script are read up to what ends them. -/
theorem exists_readDigits {digits : Text} (all : digits.all CodePoint.isDecimalDigit = true) {rest : Text}
    (ends : EndsDigits rest) (value count : Nat) :
    ∃ found, Binary64.readDigits value count (digits ++ rest) = (found, count + digits.length, rest) := by
  induction digits generalizing value count with
  | nil => exact ⟨value, readDigits_stop ends value count⟩
  | cons c digits ih =>
    obtain ⟨first, others⟩ := Bool.and_eq_true_iff.mp (List.all_cons.symm.trans all)
    obtain ⟨digit, decimal⟩ := Option.isSome_iff_exists.mp first
    obtain ⟨found, read⟩ := ih others (10 * value + digit) (count + 1)
    refine ⟨found, ?_⟩
    rw [List.cons_append, readDigits_cons decimal, read, List.length_cons, Nat.add_right_comm, Nat.add_assoc]

theorem endsDigits_nil : EndsDigits [] := by simp [EndsDigits]

theorem endsDigits_point (rest : Text) : EndsDigits (.char '.' :: rest) := by
  simp only [EndsDigits, List.head?_cons, Option.mem_some_iff, forall_eq']
  decide

theorem endsDigits_mark {mark : CodePoint} (isMark : mark = 'e' ∨ mark = 'E') (rest : Text) :
    EndsDigits (mark :: rest) := by
  simp only [EndsDigits, List.head?_cons, Option.mem_some_iff, forall_eq']
  rcases isMark with rfl | rfl <;> decide

private theorem ofDigitChars_append_zero (whole fraction : List Char) :
    Nat.ofDigitChars 10 whole 0 * 10 ^ fraction.length + Nat.ofDigitChars 10 fraction 0 =
      Nat.ofDigitChars 10 (whole ++ fraction) 0 := by
  rw [Nat.ofDigitChars_append,
    @Nat.ofDigitChars_eq_ofDigitChars_zero fraction (Nat.ofDigitChars 10 whole 0), Nat.mul_comm]

section Magnitude

variable (whole fraction : List Char) {rest : Text} {exponent : Int}

private theorem readMagnitude?_point (allWhole : ∀ c ∈ whole, c.isDigit = true)
    (allFraction : ∀ c ∈ fraction, c.isDigit = true) (nonempty : whole ≠ [])
    (ends : EndsDigits rest) (found : Binary64.readExponent? rest = some exponent) :
    Binary64.readMagnitude? (whole.map .char ++ .char '.' :: (fraction.map .char ++ rest)) =
      some ⟨Nat.ofDigitChars 10 (whole ++ fraction) 0, exponent - fraction.length⟩ := by
  have counted : whole.length + fraction.length ≠ 0 := by
    have := List.length_pos_iff.mpr nonempty
    omega
  simp only [Binary64.readMagnitude?, Nat.pow_eq, readDigits_append allWhole (endsDigits_point _),
    readDigits_append allFraction ends, found, Option.map_some, Nat.zero_add,
    ofDigitChars_append_zero, counted, ↓reduceIte]

private theorem readMagnitude?_whole (allWhole : ∀ c ∈ whole, c.isDigit = true)
    (nonempty : whole ≠ [])
    (found : Binary64.readExponent? (.char 'e' :: rest) = some exponent) :
    Binary64.readMagnitude? (whole.map .char ++ .char 'e' :: rest) =
      some ⟨Nat.ofDigitChars 10 whole 0, exponent⟩ := by
  simp only [Binary64.readMagnitude?, readDigits_append allWhole (endsDigits_mark (.inl rfl) _)]
  simp [nonempty, found]

end Magnitude

private theorem readExponent?_nil : Binary64.readExponent? [] = some 0 := rfl

private theorem toDigits_digits (n : Nat) : ∀ c ∈ Nat.toDigits 10 n, c.isDigit = true :=
  fun _ member => Nat.isDigit_of_mem_toDigits (by omega) (by omega) member

private theorem zeros_digits (n : Nat) : ∀ c ∈ List.replicate n '0', c.isDigit = true := by
  intro c member
  rw [List.eq_of_mem_replicate member]
  rfl

private theorem append_digits {first second : List Char} (all : ∀ c ∈ first, c.isDigit = true)
    (all' : ∀ c ∈ second, c.isDigit = true) : ∀ c ∈ first ++ second, c.isDigit = true := by
  intro c member
  exact (List.mem_append.mp member).elim (all c) (all' c)

/-- A written exponent reads back. -/
private theorem readExponent?_written (power : Int) :
    Binary64.readExponent? (.char 'e' :: .char (if power < 0 then '-' else '+') ::
      (List.replicate (2 - (Nat.toDigits 10 power.natAbs).length) '0' ++
        Nat.toDigits 10 power.natAbs).map .char) = some power := by
  generalize padded : List.replicate (2 - (Nat.toDigits 10 power.natAbs).length) '0' ++
    Nat.toDigits 10 power.natAbs = digits
  have all : ∀ c ∈ digits, c.isDigit = true := by
    rw [← padded]
    exact append_digits (zeros_digits _) (toDigits_digits _)
  have nonempty : digits.length ≠ 0 := by
    have := Nat.length_toDigits_pos (b := 10) (n := power.natAbs)
    rw [← padded, List.length_append]
    omega
  have magnitude : Nat.ofDigitChars 10 digits 0 = power.natAbs := by
    rw [← padded, Nat.ofDigitChars_append, Nat.ofDigitChars_replicate_zero, Nat.mul_zero,
      Nat.ofDigitChars_ten_toDigits]
  have read := readDigits_append all endsDigits_nil 0 0
  rw [List.append_nil, magnitude, Nat.zero_add] at read
  have mark : CodePoint.toAsciiLower (.char 'e') = .char 'e' := by decide
  by_cases negative : power < 0
  · have signed : -(power.natAbs : Int) = power := by omega
    simp only [Binary64.readExponent?, mark, ↓reduceIte, negative, Binary64.readSign, read, nonempty,
      signed]
  · have signed : (power.natAbs : Int) = power := by omega
    simp only [Binary64.readExponent?, mark, ↓reduceIte, negative, Binary64.readSign, read, nonempty,
      signed]
    rfl

/-- The positional form of a decimal is read with the same value. -/
private theorem readMagnitude?_positional (decimal : Decimal) :
    ∃ found, Binary64.readMagnitude? ((positional (Nat.toDigits 10 decimal.digits)
        ((Nat.toDigits 10 decimal.digits).length + decimal.exponent)).map .char) = some found ∧
      found.value = decimal.value := by
  obtain ⟨n, exponent⟩ := decimal
  have digitsAll := toDigits_digits n
  have digitsPos := Nat.length_toDigits_pos (b := 10) (n := n)
  have number : Nat.ofDigitChars 10 (Nat.toDigits 10 n) 0 = n := Nat.ofDigitChars_ten_toDigits
  dsimp only
  generalize Nat.toDigits 10 n = digits at digitsAll digitsPos number ⊢
  unfold positional
  split
  · rename_i small
    have read := readMagnitude?_point ['0'] _ (by simp)
      (append_digits (zeros_digits (-(digits.length + exponent)).toNat) digitsAll) (by simp)
      endsDigits_nil readExponent?_nil
    refine ⟨_, (congrArg _ (by simp)).trans read, ?_⟩
    have value : Nat.ofDigitChars 10 (['0'] ++
        (List.replicate (-(digits.length + exponent)).toNat '0' ++ digits)) 0 = n := by
      simp [Nat.ofDigitChars_cons, Nat.ofDigitChars_append, Nat.ofDigitChars_replicate_zero, number]
    rw [value]
    congr 2
    simp
    omega
  · split
    · rename_i large
      have read := readMagnitude?_point _ ['0']
        (append_digits digitsAll (zeros_digits ((digits.length + exponent).toNat - digits.length)))
        (by simp) (List.append_ne_nil_of_left_ne_nil (List.length_pos_iff.mp digitsPos) _)
        endsDigits_nil readExponent?_nil
      refine ⟨_, (congrArg _ (by simp)).trans read, ?_⟩
      have count : (digits.length + exponent).toNat - digits.length = exponent.toNat := by omega
      have value : Nat.ofDigitChars 10 ((digits ++
          List.replicate ((digits.length + exponent).toNat - digits.length) '0') ++ ['0']) 0 =
            n * 10 ^ exponent.toNat * 10 := by
        simp [Nat.ofDigitChars_cons, Nat.ofDigitChars_append, Nat.ofDigitChars_replicate_zero, number,
          count, Nat.mul_comm]
      have scale : ((10 ^ exponent.toNat : Nat) : ℚ) = 10 ^ exponent := by
        rw [Nat.cast_pow, Nat.cast_ofNat, ← zpow_natCast, Int.toNat_of_nonneg (by omega)]
      rw [value]
      simp only [Decimal.value, Nat.cast_mul, scale]
      norm_num
      ring
    · rename_i small large
      have read := readMagnitude?_point (digits.take (digits.length + exponent).toNat)
        (digits.drop (digits.length + exponent).toNat)
        (fun c member => digitsAll c (List.mem_of_mem_take member))
        (fun c member => digitsAll c (List.mem_of_mem_drop member))
        (by
          rw [← List.length_pos_iff, List.length_take]
          omega) endsDigits_nil readExponent?_nil
      refine ⟨_, (congrArg _ (by simp)).trans read, ?_⟩
      rw [List.take_append_drop, number]
      congr 2
      simp
      omega

private theorem readMagnitude?_scientific (decimal : Decimal) :
    ∃ found, Binary64.readMagnitude? ((scientific (Nat.toDigits 10 decimal.digits)
        ((Nat.toDigits 10 decimal.digits).length + decimal.exponent - 1)).map .char) = some found ∧
      found.value = decimal.value := by
  obtain ⟨n, exponent⟩ := decimal
  have digitsAll := toDigits_digits n
  have digitsPos := Nat.length_toDigits_pos (b := 10) (n := n)
  have number : Nat.ofDigitChars 10 (Nat.toDigits 10 n) 0 = n := Nat.ofDigitChars_ten_toDigits
  dsimp only
  generalize Nat.toDigits 10 n = digits at digitsAll digitsPos number ⊢
  have firstAll : ∀ c ∈ digits.take 1, c.isDigit = true :=
    fun c member => digitsAll c (List.mem_of_mem_take member)
  have firstNonempty : digits.take 1 ≠ [] := by
    rw [← List.length_pos_iff, List.length_take]
    omega
  have power := readExponent?_written (digits.length + exponent - 1)
  unfold scientific
  by_cases single : digits.length ≤ 1
  · have read := readMagnitude?_whole _ firstAll firstNonempty power
    refine ⟨_, (congrArg _ (by simp [single])).trans read, ?_⟩
    rw [List.take_of_length_le single, number]
    congr 2
    omega
  · have read := readMagnitude?_point _ (digits.drop 1) firstAll
      (fun c member => digitsAll c (List.mem_of_mem_drop member)) firstNonempty (endsDigits_mark (.inl rfl) _)
      power
    refine ⟨_, (congrArg _ (by simp [single])).trans read, ?_⟩
    rw [List.take_append_drop, number]
    congr 2
    simp
    omega

/-- A written decimal is read with the same value. -/
theorem readMagnitude?_write (decimal : Decimal) :
    ∃ found, Binary64.readMagnitude? (decimal.write.map .char) = some found ∧
      found.value = decimal.value := by
  simp only [write]
  split
  · simpa using readMagnitude?_positional decimal
  · exact readMagnitude?_scientific decimal

theorem value_eq_of_write_eq {first second : Decimal} (same : first.write = second.write) :
    first.value = second.value := by
  obtain ⟨found, read, value⟩ := readMagnitude?_write first
  obtain ⟨found', read', value'⟩ := readMagnitude?_write second
  rw [same, read', Option.some_inj] at read
  rw [← value, ← value', read]

/-- A written decimal begins with a digit. -/
theorem head?_write (decimal : Decimal) :
    ∃ c, decimal.write.head? = some c ∧ c.isDigit = true := by
  have digitsAll := toDigits_digits decimal.digits
  have digitsPos := Nat.length_toDigits_pos (b := 10) (n := decimal.digits)
  simp only [write]
  generalize Nat.toDigits 10 decimal.digits = digits at digitsAll digitsPos ⊢
  cases digits with
  | nil => simp at digitsPos
  | cons c digits =>
    have digit := digitsAll c (by simp)
    split
    · unfold positional
      split
      · exact ⟨'0', by simp, rfl⟩
      · split
        · exact ⟨c, by simp, digit⟩
        · rename_i small large
          obtain ⟨k, point⟩ : ∃ k, (((c :: digits).length + decimal.exponent - 1 + 1).toNat) = k + 1 :=
            ⟨(((c :: digits).length + decimal.exponent - 1 + 1).toNat) - 1, by omega⟩
          refine ⟨c, ?_, digit⟩
          rw [point, List.take_succ_cons]
          rfl
    · exact ⟨c, by simp [scientific], digit⟩

/-- A written decimal is made of digits, points, signs and exponent marks. -/
theorem mem_write {decimal : Decimal} {c : Char} (member : c ∈ decimal.write) :
    c.isDigit = true ∨ c = '.' ∨ c = 'e' ∨ c = '+' ∨ c = '-' := by
  have digitsAll := toDigits_digits decimal.digits
  simp only [write] at member
  generalize Nat.toDigits 10 decimal.digits = digits at digitsAll member
  split at member
  · unfold positional at member
    split at member
    · simp only [List.cons_append, List.mem_cons, List.mem_append] at member
      rcases member with rfl | rfl | zero | digit
      · exact .inl rfl
      · exact .inr (.inl rfl)
      · exact .inl (zeros_digits _ c zero)
      · exact .inl (digitsAll c digit)
    · split at member
      · simp only [List.mem_append, List.mem_cons, List.not_mem_nil, or_false] at member
        rcases member with (digit | zero) | rfl | rfl
        · exact .inl (digitsAll c digit)
        · exact .inl (zeros_digits _ c zero)
        · exact .inr (.inl rfl)
        · exact .inl rfl
      · simp only [List.mem_append, List.mem_cons] at member
        rcases member with digit | rfl | digit
        · exact .inl (digitsAll c (List.mem_of_mem_take digit))
        · exact .inr (.inl rfl)
        · exact .inl (digitsAll c (List.mem_of_mem_drop digit))
  · simp only [scientific, List.mem_append, List.mem_cons] at member
    rcases member with ((digit | fraction) | rfl | sign | zero) | digit
    · exact .inl (digitsAll c (List.mem_of_mem_take digit))
    · split at fraction
      · simp at fraction
      · rcases List.mem_cons.mp fraction with rfl | digit
        · exact .inr (.inl rfl)
        · exact .inl (digitsAll c (List.mem_of_mem_drop digit))
    · exact .inr (.inr (.inl rfl))
    · split at sign
      · exact .inr (.inr (.inr (.inr sign)))
      · exact .inr (.inr (.inr (.inl sign)))
    · exact .inl (zeros_digits _ c zero)
    · exact .inl (toDigits_digits _ c digit)

/-- A written decimal has a point or an exponent. -/
theorem mark_mem_write (decimal : Decimal) : '.' ∈ decimal.write ∨ 'e' ∈ decimal.write := by
  simp only [write]
  split
  · left
    unfold positional
    split
    · simp
    · split <;> simp
  · right
    simp [scientific]

end Decimal

namespace Binary64

/-- The decimal that stands for the magnitude of a finite number in its text. -/
def numeral (significand : Nat) (exponent : Int) : Decimal :=
  if significand = 0 then ⟨0, 0⟩ else Decimal.shortest significand exponent

theorem write_finite (negative : Bool) {significand : Nat} {exponent : Int}
    (canonical : IsCanonical significand exponent) :
    (finite negative significand exponent canonical).write =
      (if negative then [CodePoint.char '-'] else []) ++
        (numeral significand exponent).write.map .char := by
  have zero : ['0', '.', '0'] = Decimal.write ⟨0, 0⟩ := by decide +kernel
  simp only [write, numeral, List.map_append, zero]
  congr 1
  · cases negative <;> rfl
  · split <;> rfl

/-- The numeral of a number is nearest to it. -/
theorem toBinary_numeral {significand : Nat} {exponent : Int}
    (canonical : IsCanonical significand exponent) :
    (numeral significand exponent).toBinary false =
      finite false significand exponent canonical := by
  unfold numeral
  split
  · rename_i zero
    subst zero
    obtain rfl : exponent = -1074 := canonical.2.2.2.resolve_left (by decide)
    rfl
  · rename_i nonzero
    exact Decimal.toBinary_shortest nonzero canonical

/-- Finite numbers that are written alike are the same. -/
theorem finite_eq_of_write_eq {negative negative' : Bool} {significand significand' : Nat}
    {exponent exponent' : Int} {canonical : IsCanonical significand exponent}
    {canonical' : IsCanonical significand' exponent'}
    (same : (finite negative significand exponent canonical).write =
      (finite negative' significand' exponent' canonical').write) :
    finite negative significand exponent canonical =
      finite negative' significand' exponent' canonical' := by
  rw [write_finite, write_finite] at same
  obtain ⟨c, head, digit⟩ := (numeral significand exponent).head?_write
  obtain ⟨c', head', digit'⟩ := (numeral significand' exponent').head?_write
  have signs : negative = negative' := by
    have heads := congrArg List.head? same
    simp only [List.head?_append, List.head?_map, head, head'] at heads
    have notMinus : c ≠ '-' := by rintro rfl; simp at digit
    have notMinus' : '-' ≠ c' := by rintro rfl; simp at digit'
    cases negative <;> cases negative' <;> simp [notMinus, notMinus'] at heads ⊢
  subst signs
  have numerals := List.map_injective_iff.mpr (fun _ _ equal => CodePoint.char.inj equal)
    (List.append_cancel_left same)
  have nearest := Decimal.toBinary_congr false (Decimal.value_eq_of_write_eq numerals)
  rw [toBinary_numeral canonical, toBinary_numeral canonical', finite.injEq] at nearest
  obtain ⟨-, rfl, rfl⟩ := nearest
  rfl

end Binary64

end StaticStyle
