import StaticStyle.Json.Quoted
import StaticStyle.Proofs.Text.Order

namespace StaticStyle.Json

private theorem shortEscape?_injective {c d : CodePoint} {letter : Char}
    (found : shortEscape? c = some letter) (found' : shortEscape? d = some letter) : c = d := by
  unfold shortEscape? at found found'
  repeat' split at found
  all_goals simp only [Option.some.injEq, reduceCtorEq] at found
  all_goals subst found
  all_goals repeat' split at found'
  all_goals simp_all

private theorem shortEscape?_ne_u {c : CodePoint} {letter : Char}
    (found : shortEscape? c = some letter) : letter ≠ 'u' := by
  unfold shortEscape? at found
  rintro rfl
  repeat' split at found
  all_goals simp at found

private theorem unitEscape_injective {c d : CodePoint} (low : c.toNat < 0x20) (low' : d.toNat < 0x20)
    {rest rest' : Text} (same : unitEscape c.toNat ++ rest = unitEscape d.toNat ++ rest') :
    c = d ∧ rest = rest' := by
  have lengths : (unitEscape c.toNat).length = (unitEscape d.toNat).length := rfl
  obtain ⟨units, rests⟩ := List.append_inj same lengths
  let number (text : Text) : Nat := (text.drop 2).foldl (fun n c => 16 * n + c.hexDigit?.getD 0) 0
  have read : ∀ unit < 0x20, number (unitEscape unit) = unit := by decide
  have numbers := congrArg number units
  rw [read _ low, read _ low'] at numbers
  exact ⟨CodePoint.toNat_injective numbers, rests⟩

/-- A code point stands for itself, or it has an escape with a letter or with its number. -/
theorem escape_cases (c : CodePoint) :
    (escape c = [c] ∧ c ≠ '\\' ∧ c ≠ '"') ∨
    (∃ letter, shortEscape? c = some letter ∧
      escape c = [CodePoint.char '\\', CodePoint.char letter]) ∨
    (c.toNat < 0x20 ∧ escape c = unitEscape c.toNat) := by
  unfold escape
  cases short : shortEscape? c with
  | some letter => exact .inr (.inl ⟨letter, rfl, rfl⟩)
  | none =>
    by_cases low : c.toNat < 0x20
    · exact .inr (.inr ⟨low, if_pos low⟩)
    · refine .inl ⟨if_neg low, ?_, ?_⟩
      · rintro rfl
        simp [shortEscape?] at short
      · rintro rfl
        simp [shortEscape?] at short

/-- The escape of a code point is told from what follows it. -/
theorem escape_cancel {c d : CodePoint} {rest rest' : Text}
    (same : escape c ++ rest = escape d ++ rest') : c = d ∧ rest = rest' := by
  rcases escape_cases c with ⟨plain, noEscape, -⟩ | ⟨letter, short, escaped⟩ | ⟨low, escaped⟩ <;>
    rcases escape_cases d with ⟨plain', noEscape', -⟩ | ⟨letter', short', escaped'⟩ | ⟨low', escaped'⟩
  · simpa [plain, plain'] using same
  · simp [plain, escaped', noEscape] at same
  · simp [plain, escaped', noEscape, unitEscape] at same
  · simp [escaped, plain', noEscape'.symm] at same
  · simp only [escaped, escaped', List.cons_append, List.nil_append, List.cons.injEq, true_and,
      CodePoint.char.injEq] at same
    obtain ⟨rfl, rests⟩ := same
    exact ⟨shortEscape?_injective short short', rests⟩
  · simp [escaped, escaped', unitEscape, shortEscape?_ne_u short] at same
  · simp [escaped, plain', noEscape'.symm, unitEscape] at same
  · simp [escaped, escaped', unitEscape, (shortEscape?_ne_u short').symm] at same
  · rw [escaped, escaped'] at same
    exact unitEscape_injective low low' same

private theorem escape_ne_quote (c : CodePoint) (rest rest' : Text) :
    escape c ++ rest ≠ .char '"' :: rest' := by
  rcases escape_cases c with ⟨plain, -, noQuote⟩ | ⟨letter, -, escaped⟩ | ⟨-, escaped⟩
  · simp [plain, noQuote]
  · simp [escaped]
  · simp [escaped, unitEscape]

/-- A quoted text is told from what follows it. -/
theorem quote_cancel {text text' rest rest' : Text}
    (same : quote text ++ rest = quote text' ++ rest') : text = text' ∧ rest = rest' := by
  simp only [quote, List.cons_append, List.append_assoc, List.cons.injEq, true_and] at same
  induction text generalizing text' with
  | nil =>
    cases text' with
    | nil => simpa using same
    | cons d text' =>
      simp only [List.flatMap_nil, List.flatMap_cons, List.nil_append, List.append_assoc] at same
      exact absurd same.symm (escape_ne_quote d _ _)
  | cons c text ih =>
    cases text' with
    | nil =>
      simp only [List.flatMap_nil, List.flatMap_cons, List.nil_append, List.append_assoc] at same
      exact absurd same (escape_ne_quote c _ _)
    | cons d text' =>
      simp only [List.flatMap_cons, List.append_assoc] at same
      obtain ⟨rfl, rests⟩ := escape_cancel same
      obtain ⟨rfl, equal⟩ := ih rests
      exact ⟨rfl, equal⟩

/-- Whether the ASCII form of a text is the text between quotes, with nothing escaped. -/
def isPlain (text : Text) : Bool := text.all fun c => asciiEscape c == [c]

theorem quoteAscii_of_isPlain {text : Text} (plain : isPlain text = true) :
    quoteAscii text = .char '"' :: text ++ [.char '"'] := by
  have escaped : text.flatMap asciiEscape = text := by
    induction text with
    | nil => rfl
    | cons c text ih =>
      simp only [isPlain, List.all_cons, Bool.and_eq_true, beq_iff_eq] at plain ih
      rw [List.flatMap_cons, plain.1, ih plain.2, List.singleton_append]
  rw [quoteAscii, escaped]

/-- What holds of the sixteen digits holds of every digit of a number. -/
theorem all_hexDigits {p : CodePoint → Bool} (digit : ∀ n < 16, p (.char (Nat.digitChar n)) = true)
    (width number : Nat) : (hexDigits width number).all p = true := by
  induction width generalizing number with
  | zero => rfl
  | succ width ih =>
    rw [hexDigits, List.all_append, ih, Bool.true_and, List.all_cons, List.all_nil, Bool.and_true,
      digit _ (Nat.mod_lt _ (by decide))]

end StaticStyle.Json
