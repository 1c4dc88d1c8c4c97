import StaticStyle.Proofs.Session.Atomicity
import StaticStyle.Proofs.Session.Outcome
import StaticStyle.Proofs.Text.Surrogate

/-!
Why a file is refused. As long as the options are of their kinds, everything that goes wrong is a fault of the
file that is reported with its cause, but for three things that a declaration can hold: an escape above all code
points, a surrogate, and an integer that is too long to be written.
-/

namespace StaticStyle

/-- Only a surrogate has no bytes. -/
theorem Text.Utf8.encode?_eq_none {text : Text} (none : encode? text = none) :
    ∃ index, CodePoint.surrogate index ∈ text := by
  induction text with
  | nil => simp [encode?] at none
  | cons c rest ih =>
    cases c with
    | char c =>
      obtain ⟨index, member⟩ := ih (by simpa [encode?] using none)
      exact ⟨index, List.mem_cons_of_mem _ member⟩
    | surrogate index => exact ⟨index, List.mem_cons_self⟩

namespace Expression

theorem unescape_error {text : Text} {escape : OutOfRange} (failed : unescape text = .error escape) :
    0x10FFFF < escape.number := by
  fun_induction unescape text with
  | case1 => simp at failed
  | case2 => simp at failed
  | case3 rest read meant text found ih =>
    cases inner : unescape (rest.drop read.length) with
    | error other => exact ih (by simpa [inner] using failed)
    | ok decoded => simp [inner] at failed
  | case4 rest read meant number found c valid ih =>
    cases inner : unescape (rest.drop read.length) with
    | error other => exact ih (by simpa [inner] using failed)
    | ok decoded => simp [inner] at failed
  | case5 rest read meant number found invalid =>
    cases failed
    exact CodePoint.ofNat?_eq_none invalid
  | case6 c rest plain ih =>
    cases inner : unescape rest with
    | error other => exact ih (by simpa [inner] using failed)
    | ok decoded => simp [inner] at failed

theorem firstOutOfRange_number {tokens : List Token} {escape : OutOfRange}
    (found : firstOutOfRange tokens = some escape) : 0x10FFFF < escape.number := by
  fun_induction firstOutOfRange tokens with
  | case1 => simp at found
  | case2 token rest raw string other failed =>
    cases found
    exact unescape_error failed
  | case3 token rest raw string decoded succeeded ih => exact ih found
  | case4 token rest other ih => exact ih found

theorem parse_outOfRange {text : Text} {place : Place} {escape : OutOfRange}
    (failed : parse text place = .error (.outOfRange escape)) : 0x10FFFF < escape.number := by
  unfold parse at failed
  dsimp only at failed
  split at failed
  · simp at failed
  · split at failed
    · rename_i found
      simp only [Except.error.injEq, ParseFault.outOfRange.injEq] at failed
      exact firstOutOfRange_number (failed ▸ found)
    · simp at failed

end Expression

namespace Session

open Expression Style

theorem handles_ok {config : Config} (typed : config.IsTyped) (path : Text) :
    ∃ isHandled, config.handles path = .ok isHandled := by
  have extensions := typed.extensions
  unfold Config.handles
  generalize config.extensions = endings at extensions
  induction endings with
  | nil => exact ⟨false, rfl⟩
  | cons ending endings ih =>
    obtain ⟨text, rfl⟩ := extensions ending List.mem_cons_self
    unfold Config.endsWithAny
    split
    · exact ⟨true, rfl⟩
    · exact ih fun ending member => extensions ending (List.mem_cons_of_mem _ member)

/-- With options of their kinds, only planning refuses a file. -/
private theorem transform_explained {config : Config} (typed : config.IsTyped) {session : Session}
    {path source : Text} {refusal : Refusal}
    (refused : (session.transform config path source).result = .error refusal) :
    refusal.path = path ∧ Explained config source refusal.cause := by
  obtain ⟨isHandled, handled⟩ := handles_ok typed path
  unfold Session.transform at refused
  cases isHandled with
  | false => simp [handled] at refused
  | true =>
    simp only [handled] at refused
    unfold Session.compile at refused
    have leads : Leads (Finished config session.registry source) (Explained config source)
        (Session.plan config session.registry path source) := plan_leads path
    cases planned : Session.plan config session.registry path source with
    | error stop =>
      rw [planned] at leads
      simp only [planned, Except.error.injEq] at refused
      rw [← refused]
      exact ⟨rfl, leads⟩
    | ok plan =>
      simp only [planned] at refused
      split at refused
      · simp at refused
      · have named : CanNameSheet config := by
          obtain ⟨id, asset⟩ := typed.assetId
          rw [CanNameSheet, asset]
          exact fun _ => rfl
        obtain ⟨editor, -, completed⟩ := commit_completes named session path plan
        simp [completed, Except.map] at refused

private theorem digest_error {style : Fields Value} {defect : Defect} (free : Value.areListFree style = true)
    (failed : digest (.object style) = .error defect) :
    (defect = .oversizedInteger ∧ (Value.object style).isWritable = false) ∨
      (defect = .unencodable ∧ ∃ index, CodePoint.surrogate index ∈ Json.canonical (.object style)) := by
  rcases digest_eq_error_iff.mp failed with unwritten | ⟨-, unencoded, rfl⟩
  · have lacking : (Value.object style).lacksStamps = true := Value.fieldsLackStamps_of_areListFree free
    rw [Json.defect?_ordered lacking] at unwritten
    split at unwritten
    · cases unwritten
    · rename_i unwritable
      cases unwritten
      exact .inl ⟨rfl, Bool.eq_false_iff.mpr unwritable⟩
  · exact .inr ⟨rfl, Text.Utf8.encode?_eq_none unencoded⟩

/-- A refusal names the file, and its cause is a fault in the file with a report of its own, if the options are of
their kinds. Where it is a defect instead, a string of a declaration has an escape above U+10FFFF, or a declared
style has a surrogate in its canonical text, or a declared style has an integer that cannot be written. No
edit is ever outside the source. -/
theorem transform_refusal (session : Session) (config : Config) (path source : Text) (refusal : Refusal)
    (typed : config.IsTyped)
    (refused : (session.transform config path source).result = .error refusal) :
    refusal.path = path ∧
      match refusal.cause with
      | .defect .outOfRange => ∃ declared ∈ declaredTexts config source, ∃ escape : OutOfRange,
          parse declared.1 ⟨declared.2, Position.ofOffset source declared.2⟩ =
            .error (.outOfRange escape) ∧ 0x10FFFF < escape.number
      | .defect .unencodable => ∃ style ∈ declaredStyles config source,
          ∃ index, CodePoint.surrogate index ∈ Json.canonical (.object style)
      | .defect .oversizedInteger => ∃ style ∈ declaredStyles config source,
          (Value.object style).isWritable = false
      | .defect _ => False
      | .overlappingEdit (.outside _ _) => False
      | _ => True := by
  obtain ⟨samePath, explained⟩ := transform_explained typed refused
  refine ⟨samePath, ?_⟩
  cases cause : refusal.cause with
  | unparsable position => trivial
  | rejected rejection => trivial
  | invalidStyle invalid position => trivial
  | overlappingEdit fault =>
    cases fault with
    | outside start stop => simp [cause, Explained] at explained
    | conflict start stop earlier => trivial
  | defect defect =>
    rw [cause] at explained
    rcases explained with mistyped | declared
    · exact absurd typed mistyped
    · cases declared with
      | outOfRange member found => exact ⟨_, member, _, found, parse_outOfRange found⟩
      | undigested member found =>
        rcases digest_error (declaredStyles_isListFree member) found with ⟨rfl, unwritable⟩ | ⟨rfl, surrogate⟩
        · exact ⟨_, member, unwritable⟩
        · exact ⟨_, member, surrogate⟩

/-- Whether a file is refused with a refusal. -/
def isRefusedWith {α : Type} (refusal : Refusal) : Except Refusal α → Bool
  | .error found => decide (found = refusal)
  | .ok _ => false

theorem eq_error_of_isRefusedWith {α : Type} {refusal : Refusal} {result : Except Refusal α}
    (refused : isRefusedWith refusal result = true) : result = .error refusal := by
  cases result with
  | error found => rw [of_decide_eq_true refused]
  | ok output => cases refused

/-- A surrogate in a string is refused with a defect. -/
theorem transform_refusal_surrogate :
    let source : Text := "<p zx=\x7b\x7bcontent: '\\ud800'\x7d\x7d />"
    let refusal : Refusal := ⟨"A.tsx", .defect .unencodable⟩
    Config.standard.IsTyped ∧
      ((empty none).transform Config.standard "A.tsx" source).result = .error refusal ∧
      ∃ style ∈ declaredStyles Config.standard source,
        ∃ index, CodePoint.surrogate index ∈ Json.canonical (.object style) := by
  intro source refusal
  have typed : Config.standard.IsTyped :=
    { classStem := ⟨_, rfl⟩
      attrName := ⟨_, rfl⟩
      classAttr := ⟨_, rfl⟩
      callee := ⟨_, rfl⟩
      hashLength := ⟨_, rfl⟩
      extensions := by
        intro ending member
        obtain ⟨name, -, rfl⟩ := List.mem_map.mp member
        exact ⟨_, rfl⟩
      assetId := ⟨_, rfl⟩ }
  have refused : ((empty none).transform Config.standard "A.tsx" source).result = .error refusal := by
    have found : isRefusedWith refusal ((empty none).transform Config.standard "A.tsx" source).result =
        true := by
      decide +kernel
    exact eq_error_of_isRefusedWith found
  have explained := transform_refusal (empty none) Config.standard "A.tsx" source refusal typed refused
  exact ⟨typed, refused, explained.2⟩

end Session

end StaticStyle
