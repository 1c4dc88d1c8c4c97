import Mathlib.Data.List.Chain
import StaticStyle.Text.Surrogate

namespace StaticStyle

namespace CodePoint

theorem toNat_lt (c : CodePoint) : c.toNat < 0x110000 := by
  cases c with
  | char c =>
    have valid : c.toNat < 0xD800 ∨ (0xDFFF < c.toNat ∧ c.toNat < 0x110000) := c.valid
    rw [toNat]
    omega
  | surrogate index =>
    have inside := index.isLt
    rw [toNat]
    omega

theorem ofNat?_toNat (c : CodePoint) : ofNat? c.toNat = some c := by
  cases c with
  | char c =>
    have valid : c.toNat.isValidChar := c.valid
    rw [ofNat?, toNat, dif_pos valid]
    rfl
  | surrogate index =>
    have inside := index.isLt
    have invalid : ¬ (0xD800 + index.val).isValidChar := by
      simp only [Nat.isValidChar]
      omega
    rw [ofNat?, toNat, dif_neg invalid, dif_pos (by omega)]
    simp

theorem toNat_of_ofNat? {number : Nat} {c : CodePoint} (found : ofNat? number = some c) : c.toNat = number := by
  unfold ofNat? at found
  by_cases valid : number.isValidChar
  · rw [dif_pos valid] at found
    obtain rfl := Option.some.inj found
    rfl
  · rw [dif_neg valid] at found
    by_cases inside : number - 0xD800 < 0x800
    · rw [dif_pos inside] at found
      obtain rfl := Option.some.inj found
      have valid : ¬ (number < 0xD800 ∨ (0xDFFF < number ∧ number < 0x110000)) := valid
      simp only [toNat]
      omega
    · rw [dif_neg inside] at found
      cases found

theorem ofNat?_eq_none {number : Nat} (none : ofNat? number = none) : 0x10FFFF < number := by
  unfold ofNat? at none
  by_cases valid : number.isValidChar
  · rw [dif_pos valid] at none
    cases none
  · rw [dif_neg valid] at none
    by_cases inside : number - 0xD800 < 0x800
    · rw [dif_pos inside] at none
      cases none
    · have invalid : ¬ (number < 0xD800 ∨ (0xDFFF < number ∧ number < 0x110000)) := valid
      omega

theorem exists_ofNat? {number : Nat} (bound : number ≤ 0x10FFFF) : ∃ c, ofNat? number = some c :=
  Option.ne_none_iff_exists'.mp fun none => absurd (ofNat?_eq_none none) (by omega)

/-- Only surrogates are joined. -/
theorem lt_of_ofPair? {c d joined : CodePoint} (pair : ofPair? c d = some joined) :
    c.toNat < 0x10000 ∧ d.toNat < 0x10000 := by
  unfold ofPair? at pair
  split at pair
  · rename_i high low
    have first := high.isLt
    have second := low.isLt
    simp only [toNat]
    omega
  · cases pair

theorem units_of_lt {c : CodePoint} (low : c.toNat < 0x10000) : c.units = [c.toNat] := if_pos low

theorem units_lt {c : CodePoint} {unit : Nat} (member : unit ∈ c.units) : unit < 0x10000 := by
  have bound := c.toNat_lt
  by_cases low : c.toNat < 0x10000
  · rw [units_of_lt low, List.mem_singleton] at member
    omega
  · rw [units, if_neg low, List.mem_pair] at member
    omega

/-- Whether a code point is no surrogate. -/
def isChar : CodePoint → Bool
  | char _ => true
  | surrogate _ => false

/-- The code points of the units of a code point: its surrogates, or itself. -/
def halves (c : CodePoint) : Text := c.units.flatMap fun unit => (ofNat? unit).toList

theorem halves_of_lt {c : CodePoint} (low : c.toNat < 0x10000) : c.halves = [c] := by
  rw [halves, units_of_lt low, List.flatMap_singleton, ofNat?_toNat]
  rfl

/-- A code point is its own half, or it is joined from a high surrogate, which is never the second one of a pair, and a
low one. -/
theorem halves_cases (c : CodePoint) :
    c.halves = [c] ∨
      ∃ high low, c.halves = [high, low] ∧ ofPair? high low = some c ∧ ∀ d, ofPair? d high = none := by
  by_cases isLow : c.toNat < 0x10000
  · exact .inl (halves_of_lt isLow)
  · right
    have bound := c.toNat_lt
    generalize isNumber : c.toNat - 0x10000 = number
    have small : number / 0x400 < 0x400 := by omega
    have high : number / 0x400 < 0x800 := by omega
    have low : 0x400 + number % 0x400 < 0x800 := by omega
    refine ⟨surrogate ⟨_, high⟩, surrogate ⟨_, low⟩, ?_, ?_, ?_⟩
    · have first := ofNat?_toNat (surrogate ⟨_, high⟩)
      have second := ofNat?_toNat (surrogate ⟨_, low⟩)
      simp only [toNat, ← Nat.add_assoc, Nat.reduceAdd] at first second
      simp only [halves, units, isNumber, if_neg isLow, List.flatMap_cons, List.flatMap_nil, first, second]
      rfl
    · have number : 0x10000 + number / 0x400 * 0x400 + (0x400 + number % 0x400 - 0x400) = c.toNat := by omega
      simp only [ofPair?, small, Nat.le_add_right, and_self, ↓reduceIte, number, ofNat?_toNat]
    · intro d
      unfold ofPair?
      split
      · rename_i same
        obtain rfl := surrogate.inj same
        exact if_neg fun ranges => absurd ranges.2 (Nat.not_le_of_lt small)
      · rfl

end CodePoint

namespace Text

open CodePoint

private theorem joinSurrogates_cons {c d : CodePoint} (single : ofPair? c d = none) (rest : Text) :
    joinSurrogates (c :: d :: rest) = c :: joinSurrogates (d :: rest) := by
  rw [joinSurrogates, single]

private theorem joinSurrogates_pair {c d joined : CodePoint} (pair : ofPair? c d = some joined) (rest : Text) :
    joinSurrogates (c :: d :: rest) = joined :: joinSurrogates rest := by
  rw [joinSurrogates, pair]

private theorem joinSurrogates_halves_cons {c d : CodePoint} (single : ofPair? c d = none) (rest : Text) :
    joinSurrogates (c.halves ++ (d.halves ++ rest)) = c :: joinSurrogates (d.halves ++ rest) := by
  rcases c.halves_cases with self | ⟨high, low, two, pair, -⟩
  · rw [self, List.singleton_append]
    rcases d.halves_cases with self' | ⟨high, low, two, -, never⟩
    · rw [self', List.singleton_append, joinSurrogates_cons single]
    · rw [two, List.cons_append, joinSurrogates_cons (never c)]
  · rw [two, List.cons_append, List.cons_append, List.nil_append, joinSurrogates_pair pair]

theorem joinSurrogates_halves (text : Text) : joinSurrogates (text.flatMap halves) = text.joinSurrogates := by
  fun_induction joinSurrogates text with
  | case1 => rfl
  | case2 c =>
    rw [List.flatMap_singleton]
    rcases c.halves_cases with self | ⟨high, low, two, pair, -⟩
    · rw [self, joinSurrogates]
    · rw [two, joinSurrogates_pair pair, joinSurrogates]
  | case3 c d rest joined pair ih =>
    obtain ⟨low, low'⟩ := lt_of_ofPair? pair
    rw [List.flatMap_cons, List.flatMap_cons, halves_of_lt low, halves_of_lt low', List.singleton_append,
      List.singleton_append, joinSurrogates_pair pair, ih]
  | case4 c d rest single ih =>
    rw [List.flatMap_cons, List.flatMap_cons, joinSurrogates_halves_cons single, ← List.flatMap_cons, ih]

/-- The text of UTF-16 code units, in which a high surrogate and the low one behind it are one code point. -/
def ofUnits (units : List Nat) : Text := joinSurrogates (units.flatMap fun unit => (ofNat? unit).toList)

theorem ofUnits_units (text : Text) : ofUnits (text.flatMap units) = text.joinSurrogates := by
  rw [ofUnits, List.flatMap_assoc]
  exact joinSurrogates_halves text

/-- Whether no high surrogate has a low one right behind it. -/
def IsPairless (text : Text) : Prop := text.IsChain fun c d => ofPair? c d = none

instance : DecidablePred IsPairless := fun text =>
  inferInstanceAs (Decidable (text.IsChain fun c d => ofPair? c d = none))

/-- A character stands in no pair, so there are none across it. -/
theorem isPairless_append_char (before rest : Text) (c : Char) :
    IsPairless (before ++ .char c :: rest) ↔ before.IsPairless ∧ rest.IsPairless := by
  have left (d : CodePoint) : ofPair? d (.char c) = none := by cases d <;> rfl
  have right : IsPairless (.char c :: rest) ↔ rest.IsPairless := by
    cases rest with
    | nil => simp [IsPairless]
    | cons d rest => exact List.isChain_cons_cons.trans (and_iff_right rfl)
  refine List.isChain_append.trans (and_congr_right fun _ => (and_iff_left ?_).trans right)
  rintro d - e ⟨⟩
  exact left d

theorem isPairless_of_all_isChar {text : Text} (chars : text.all isChar = true) : text.IsPairless := by
  induction text with
  | nil => exact .nil
  | cons c text ih =>
    rw [List.all_cons, Bool.and_eq_true] at chars
    cases c with
    | char c => exact (isPairless_append_char [] text c).mpr ⟨.nil, ih chars.2⟩
    | surrogate index => cases chars.1

theorem length_joinSurrogates_le (text : Text) : text.joinSurrogates.length ≤ text.length := by
  fun_induction joinSurrogates text with
  | case1 | case2 => exact Nat.le_refl _
  | case3 c d rest joined pair ih => exact Nat.succ_le_succ (Nat.le_succ_of_le ih)
  | case4 c d rest single ih => exact Nat.succ_le_succ ih

theorem joinSurrogates_eq_self_iff (text : Text) : text.joinSurrogates = text ↔ text.IsPairless := by
  unfold IsPairless
  fun_induction joinSurrogates text with
  | case1 | case2 => simp
  | case3 c d rest joined pair ih =>
    refine iff_of_false (fun same => ?_) (by simp [pair])
    have lengths := congrArg List.length same
    have shorter := length_joinSurrogates_le rest
    simp only [List.length_cons] at lengths
    omega
  | case4 c d rest single ih => simp [single, ih]

end Text

end StaticStyle
