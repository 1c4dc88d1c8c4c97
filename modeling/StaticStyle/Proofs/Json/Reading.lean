import StaticStyle.Json.Quoted
import StaticStyle.Json.Read
import StaticStyle.Proofs.Fields
import StaticStyle.Proofs.Text.Join
import StaticStyle.Proofs.Text.Surrogate

namespace StaticStyle

namespace Json

private theorem hexDigit?_digitChar {digit : Nat} (inside : digit < 16) :
    (CodePoint.char (Nat.digitChar digit)).hexDigit? = some digit :=
  (by decide : ∀ digit < 16, (CodePoint.char (Nat.digitChar digit)).hexDigit? = some digit) digit inside

theorem fourHexDigits?_hexDigits {unit : Nat} (bound : unit < 0x10000) :
    ∃ a b c d, hexDigits 4 unit = [a, b, c, d] ∧ fourHexDigits? a b c d = some unit := by
  refine ⟨_, _, _, _, rfl, ?_⟩
  simp only [fourHexDigits?, hexDigit?_digitChar (Nat.mod_lt _ (by decide : 0 < 16)), Option.bind_eq_bind,
    Option.bind_some, Option.pure_def, Option.some.injEq]
  omega

theorem readString_unitEscape {unit : Nat} (bound : unit < 0x10000) (start length : Nat) {rest : Text}
    (nonempty : rest ≠ []) :
    readString start length (unitEscape unit ++ rest) = (readString start (length + 6) rest).map fun read =>
      ((CodePoint.ofNat? unit).toList ++ read.1, read.2) := by
  obtain ⟨a, b, c, d, digits, number⟩ := fourHexDigits?_hexDigits bound
  obtain ⟨next, rest, rfl⟩ := List.exists_cons_of_ne_nil nonempty
  rw [unitEscape, digits]
  simp only [List.cons_append, List.nil_append]
  rw [readString]
  simp [number]

theorem readString_units {units : List Nat} (bounds : ∀ unit ∈ units, unit < 0x10000) (start length : Nat) {rest : Text}
    (nonempty : rest ≠ []) :
    readString start length (units.flatMap unitEscape ++ rest) =
      (readString start (length + (units.flatMap unitEscape).length) rest).map fun read =>
        (units.flatMap (fun unit => (CodePoint.ofNat? unit).toList) ++ read.1, read.2) := by
  induction units generalizing length with
  | nil => cases found : readString start length rest <;> simp [found, Except.map]
  | cons unit units ih =>
    obtain ⟨bound, bounds⟩ := List.forall_mem_cons.mp bounds
    have size : (unitEscape unit).length = 6 := rfl
    rw [List.flatMap_cons, List.append_assoc, readString_unitEscape bound _ _ (by simp [nonempty]), ih bounds,
      List.length_append, size, ← Nat.add_assoc]
    cases readString start (length + 6 + (units.flatMap unitEscape).length) rest <;> simp [Except.map]

private theorem simpleEscape?_letter {c : CodePoint} {letter : Char} (short : shortEscape? c = some letter) :
    ∃ meant : Char, c = .char meant ∧ simpleEscape? (.char letter) = some meant ∧ letter ≠ 'u' ∧ c.toNat < 0x10000 := by
  unfold shortEscape? at short
  repeat' split at short
  all_goals simp only [Option.some.injEq, reduceCtorEq] at short
  all_goals
    subst short
    exact ⟨_, by assumption, rfl, by decide, by simp [*]; decide⟩

theorem readString_asciiEscape (c : CodePoint) (start length : Nat) {rest : Text} (nonempty : rest ≠ []) :
    readString start length (asciiEscape c ++ rest) =
      (readString start (length + (asciiEscape c).length) rest).map fun read => (c.halves ++ read.1, read.2) := by
  unfold asciiEscape
  cases short : shortEscape? c with
  | some letter =>
    obtain ⟨meant, rfl, read, noUnit, low⟩ := simpleEscape?_letter short
    rw [CodePoint.halves_of_lt low, List.cons_append, List.singleton_append, readString]
    · simp [read]
    · exact fun same => noUnit (CodePoint.char.inj same)
  | none =>
    dsimp only
    split
    · rename_i visible
      have noMark : c ≠ '"' := by
        rintro rfl
        simp [shortEscape?] at short
      have noEscape : c ≠ '\\' := by
        rintro rfl
        simp [shortEscape?] at short
      rw [CodePoint.halves_of_lt (by omega), List.singleton_append, readString.eq_def]
      simp [noMark, noEscape]
      omega
    · exact readString_units (fun _ => CodePoint.units_lt) start length nonempty

/-- A text comes back in halves. -/
theorem readString_quoteAscii (text : Text) (start length : Nat) (behind : Text) :
    readString start length (text.flatMap asciiEscape ++ .char '"' :: behind) =
      .ok (text.flatMap CodePoint.halves, length + (text.flatMap asciiEscape).length + 1) := by
  induction text generalizing length with
  | nil =>
    rw [List.flatMap_nil, List.nil_append, readString.eq_def]
    simp
  | cons c text ih =>
    rw [List.flatMap_cons, List.append_assoc, readString_asciiEscape _ _ _ (by simp), ih, List.flatMap_cons]
    simp [Except.map, Nat.add_assoc]

theorem tokens_space (offset : Nat) (rest : Text) : tokens offset (.char ' ' :: rest) = tokens (offset + 1) rest := by
  rw [tokens, if_pos (by decide)]

theorem tokens_mark {mark : CodePoint} {found : Lexeme} (noSpace : isSpace mark = false)
    (read : ∀ start rest, lexeme start mark rest = (found, 1)) (offset : Nat) (rest : Text) :
    tokens offset (mark :: rest) = ⟨found, offset⟩ :: tokens (offset + 1) rest := by
  rw [tokens, if_neg (Bool.eq_false_iff.mp noSpace), read]
  rfl

theorem tokens_quoteAscii (offset : Nat) (text rest : Text) :
    tokens offset (quoteAscii text ++ rest) =
      ⟨.text text.joinSurrogates, offset⟩ :: tokens (offset + (quoteAscii text).length) rest := by
  generalize size : (text.flatMap asciiEscape).length = length
  have found : lexeme offset (.char '"') (text.flatMap asciiEscape ++ .char '"' :: rest) =
      (.text text.joinSurrogates, length + 1 + 1) := by
    have read := readString_quoteAscii text offset 0 rest
    rw [Nat.zero_add, size] at read
    simp [lexeme, read, Text.joinSurrogates_halves]
  have whole : quoteAscii text ++ rest = .char '"' :: (text.flatMap asciiEscape ++ .char '"' :: rest) := by
    simp [quoteAscii]
  have left : (text.flatMap asciiEscape ++ .char '"' :: rest).drop (length + 1) = rest := by
    rw [List.append_cons]
    exact List.drop_left' (by simp only [List.length_append, size, List.length_singleton])
  have longer : (quoteAscii text).length = length + 1 + 1 := by
    rw [quoteAscii, List.length_append, List.length_cons, size, List.length_singleton]
  rw [whole, tokens, if_neg (by decide), found, longer]
  simp only [left, Nat.add_assoc]

theorem read_cons {c : CodePoint} (noMark : c.toNat ≠ 0xFEFF) (rest : Text) :
    read (c :: rest) = readTokens (c :: rest).length [] .value (tokens 0 (c :: rest)) := by
  rw [read, if_neg noMark]

/-- A text that is written in the ASCII form is read with its surrogate pairs joined. -/
theorem read_quoteAscii (text : Text) : read (quoteAscii text) = .ok (.text text.joinSurrogates) := by
  have found := tokens_quoteAscii 0 text []
  rw [List.append_nil, tokens] at found
  have whole : read (quoteAscii text) = readTokens (quoteAscii text).length [] .value (tokens 0 (quoteAscii text)) :=
    read_cons (by decide) _
  rw [whole, found]
  rfl

/-- A key of an object and its text. -/
def writeMember (member : Text × Text) : Text := quoteAscii member.1 ++ ": " ++ quoteAscii member.2

/-- An object of texts in one line. -/
def writeObject (members : List (Text × Text)) : Text :=
  "\x7b" ++ Text.join ", " (members.map writeMember) ++ "\x7d"

/-- A member as it is read. -/
def readMember (member : Text × Text) : Text × Value := (member.1.joinSurrogates, .text member.2.joinSurrogates)

/-- What may come next in front of a member. -/
theorem readTokens_member {expecting : Expecting} {fields : Fields Value}
    (awaited : expecting = .firstName fields ∨ expecting = .name fields) (length offset : Nat) (stack : List Open)
    (member : Text × Text) (rest : Text) :
    ∃ offset', readTokens length stack expecting (tokens offset (writeMember member ++ rest)) =
      readTokens length (.object fields (readMember member).1 :: stack) (.afterValue (readMember member).2)
        (tokens offset' rest) := by
  have whole : writeMember member ++ rest =
      quoteAscii member.1 ++ (.char ':' :: .char ' ' :: (quoteAscii member.2 ++ rest)) := by
    simp only [writeMember, List.append_assoc]
    rfl
  rw [whole, tokens_quoteAscii, tokens_mark (by decide) fun _ _ => rfl, tokens_space, tokens_quoteAscii]
  rcases awaited with rfl | rfl <;> exact ⟨_, rfl⟩

theorem readTokens_members (length : Nat) (members : List (Text × Text)) (fields : Fields Value) (key : Text)
    (value : Value) (offset : Nat) :
    readTokens length [.object fields key] (.afterValue value)
        (tokens offset ((members.map writeMember).flatMap (Text.ofString ", " ++ ·) ++ "\x7d")) =
      .ok (.object ((members.map readMember).foldl (fun fields pair => Fields.put pair.1 pair.2 fields)
        (Fields.put key value fields))) := by
  induction members generalizing fields key value offset with
  | nil =>
    have closing : tokens offset (Text.ofString "\x7d") = ⟨.closing true, offset⟩ :: tokens (offset + 1) [] :=
      tokens_mark (by decide) (fun _ _ => rfl) offset []
    rw [List.map_nil, List.flatMap_nil, List.nil_append, closing, tokens]
    rfl
  | cons member members ih =>
    have whole : ((member :: members).map writeMember).flatMap (Text.ofString ", " ++ ·) ++ Text.ofString "\x7d" =
        .char ',' :: .char ' ' :: (writeMember member ++
          ((members.map writeMember).flatMap (Text.ofString ", " ++ ·) ++ Text.ofString "\x7d")) := by
      simp only [List.map_cons, List.flatMap_cons, List.append_assoc]
      rfl
    rw [whole, tokens_mark (by decide) fun _ _ => rfl, tokens_space]
    obtain ⟨offset', taken⟩ := readTokens_member (.inr rfl) length (offset + 1 + 1) [] member
      ((members.map writeMember).flatMap (Text.ofString ", " ++ ·) ++ Text.ofString "\x7d")
    exact taken.trans (ih _ _ _ offset')

/-- An object of texts is read with its members in order. Of members with one name the last text counts. -/
theorem read_writeObject (members : List (Text × Text)) :
    read (writeObject members) = .ok (.object (Fields.ofPairs (members.map readMember))) := by
  have opening (rest : Text) : read (.char '\x7b' :: rest) =
      readTokens (rest.length + 1) [] (.firstName []) (tokens 1 rest) := by
    rw [read_cons (by decide), tokens_mark (by decide) fun _ _ => rfl]
    rfl
  cases members with
  | nil =>
    have whole : writeObject [] = .char '\x7b' :: .char '\x7d' :: [] := rfl
    rw [whole, opening, tokens_mark (by decide) fun _ _ => rfl, tokens]
    rfl
  | cons member members =>
    have whole : writeObject (member :: members) = .char '\x7b' :: (writeMember member ++
        ((members.map writeMember).flatMap (Text.ofString ", " ++ ·) ++ Text.ofString "\x7d")) := by
      rw [writeObject, List.map_cons, Text.join_cons, List.append_assoc, List.append_assoc]
      rfl
    rw [whole, opening]
    obtain ⟨offset, taken⟩ := readTokens_member (.inl rfl) _ 1 [] member
      ((members.map writeMember).flatMap (Text.ofString ", " ++ ·) ++ Text.ofString "\x7d")
    exact taken.trans (readTokens_members _ members [] _ _ offset)

end Json

end StaticStyle
