import Mathlib.Data.List.Nodup
import StaticStyle.Proofs.Source.Balance
import StaticStyle.Proofs.Text.Strip

/-!
Which occurrences of a name are calls. The occurrences with a parenthesis behind them are found one after another and
none is passed over. Those in opaque ranges and those whose parenthesis is not closed are dropped, and so are those that
follow the keyword `function`, which is looked for in a window of fixed size.
-/

namespace StaticStyle.Markup.Call

open StaticStyle.Markup.Tree (distance_of_candidate drop_blankLength takeWhile_append)

/-- A name that cannot overlap with what stands between it and the arguments of a call. -/
structure IsName (callee : Text) : Prop where
  nonempty : callee ≠ []
  solid : ∀ c ∈ callee, c.isBlank = false ∧ c ≠ '('

/-- Blanks and a parenthesis stand between a name and the arguments. -/
theorem openingDistance?_eq_some_iff {callee text : Text} {distance : Nat} :
    openingDistance? callee text = some distance ↔ ∃ gap behind : Text, gap.all CodePoint.isBlank = true ∧
      text = callee ++ (gap ++ .char '(' :: behind) ∧ distance = callee.length + gap.length := by
  constructor
  · intro found
    obtain ⟨rest, dropped, found⟩ := Option.bind_eq_some_iff.mp found
    dsimp only at found
    split at found
    · rename_i opens
      rw [drop_blankLength] at opens
      obtain ⟨behind, same⟩ := List.head?_eq_some_iff.mp opens
      refine ⟨rest.takeWhile CodePoint.isBlank, behind, List.all_takeWhile, ?_, (Option.some.inj found).symm⟩
      rw [Text.dropLeading?_eq dropped, ← same, Text.dropBlank, List.takeWhile_append_dropWhile]
    · cases found
  · intro spelled
    obtain ⟨gap, behind, blank, rfl, rfl⟩ := spelled
    have noBlank : CodePoint.isBlank '(' = false := by decide
    have length : Text.blankLength (gap ++ .char '(' :: behind) = gap.length := by
      rw [Text.blankLength, takeWhile_append blank (by simp [noBlank])]
    unfold openingDistance?
    rw [Text.dropLeading?_append, Option.bind_some]
    dsimp only
    rw [length, List.drop_left, List.head?_cons, if_pos rfl]

/-- No occurrence of a name begins between another one and its parenthesis. -/
theorem lt_of_openingDistance? {callee text : Text} (name : IsName callee) {distance ahead further : Nat}
    (found : openingDistance? callee text = some distance)
    (again : openingDistance? callee (text.drop ahead) = some further) (later : 0 < ahead) : distance < ahead := by
  obtain ⟨gap, behind, blank, rfl, rfl⟩ := openingDistance?_eq_some_iff.mp found
  obtain ⟨gap', behind', -, same, -⟩ := openingDistance?_eq_some_iff.mp again
  by_contra within
  have size := List.length_pos_iff.mpr name.nonempty
  -- The first code point of the second occurrence that stands behind the first name is no part of a name.
  obtain ⟨place, inside, outside, bound⟩ : ∃ place, place < callee.length ∧ callee.length ≤ ahead + place ∧
      ahead + place ≤ callee.length + gap.length :=
    ⟨callee.length - ahead, by omega, by omega, by omega⟩
  have first : (callee ++ (gap ++ .char '(' :: behind))[ahead + place]? = some callee[place] := by
    rw [← List.getElem?_drop, same, List.getElem?_append_left inside, List.getElem?_eq_getElem inside]
  rw [List.getElem?_append_right outside] at first
  obtain ⟨solid, noOpening⟩ := name.solid _ (List.getElem_mem inside)
  by_cases inGap : ahead + place - callee.length < gap.length
  · rw [List.getElem?_append_left inGap] at first
    have isBlank := List.all_eq_true.mp blank _ (List.mem_of_getElem? first)
    rw [solid] at isBlank
    cases isBlank
  · obtain last : ahead + place - callee.length = gap.length := by omega
    rw [last, List.getElem?_append_right (Nat.le_refl _), Nat.sub_self, List.getElem?_cons_zero] at first
    exact noOpening (Option.some.inj first).symm

/-- Every occurrence of a name with a parenthesis behind it is a candidate, unless the name is continued in front. -/
theorem mem_candidates {callee : Text} (name : IsName callee) {before : Option CodePoint} {offset : Nat} {text : Text}
    {ahead distance : Nat} (free : continuesName ((text.take ahead).getLast?.or before) = false)
    (opens : openingDistance? callee (text.drop ahead) = some distance) :
    (offset + ahead, offset + ahead + distance) ∈ candidates callee before offset text := by
  fun_induction candidates callee before offset text generalizing ahead with
  | case1 =>
    have inside := openingDistance?_lt opens
    simp at inside
  | case2 before offset c rest found distance' here =>
    rename_i ih
    simp only [found] at here
    split at here
    · cases here
    · by_cases first : ahead = 0
      · subst first
        rw [List.drop_zero, here, Option.some.injEq] at opens
        subst opens
        exact List.mem_cons_self
      · have behind := lt_of_openingDistance? name here opens (Nat.pos_of_ne_zero first)
        obtain ⟨further, rfl⟩ : ∃ further, ahead = distance' + 1 + further := ⟨ahead - distance' - 1, by omega⟩
        have last : ((c :: rest).take (distance' + 1)).getLast? = some (.char '(') := by
          rw [List.getLast?_take, if_neg (Nat.succ_ne_zero _), Nat.add_sub_cancel, Tree.getElem?_of_distance here,
            Option.some_or]
        rw [List.take_add, List.getLast?_append, last, List.drop_succ_cons, Option.or_assoc, Option.some_or] at free
        rw [← List.drop_drop, List.drop_succ_cons] at opens
        have place : offset + (distance' + 1 + further) = offset + distance' + 1 + further := by omega
        rw [place]
        exact List.mem_cons_of_mem _ (ih free opens)
  | case3 before offset c rest found absent =>
    rename_i ih
    cases ahead with
    | zero =>
      rw [List.take_zero, List.getLast?_nil, Option.none_or] at free
      rw [List.drop_zero] at opens
      simp [found, free, opens] at absent
    | succ ahead =>
      rw [List.take_succ_cons, List.getLast?_cons, Option.some_or, ← Option.or_some] at free
      rw [Nat.add_comm ahead, ← Nat.add_assoc]
      exact ih free opens

/-- The candidates are in the order of their starts. -/
theorem candidates_ascending (callee : Text) (before : Option CodePoint) (offset : Nat) (text : Text) :
    (candidates callee before offset text).Pairwise fun a b => a.1 < b.1 := by
  fun_induction candidates callee before offset text with
  | case1 => exact .nil
  | case2 before offset c rest found distance here ih =>
    refine List.pairwise_cons.mpr ⟨?_, ih⟩
    intro candidate member
    obtain ⟨ahead, -, starts, -⟩ := distance_of_candidate member
    dsimp only
    omega
  | case3 before offset c rest found absent ih => exact ih

/-- The keyword of a definition stands in front of an offset, with blanks behind it. -/
structure FollowsFunction (source : Text) (offset : Nat) (front blanks : Text) : Prop where
  text : source.take offset = front ++ ("function" ++ blanks)
  blank : blanks.all CodePoint.isBlank = true

/-- What the window shows of a keyword: with twelve blanks behind it, the window begins with it. -/
def showsKeyword (front blanks : Text) : Bool :=
  blanks.length = 12 || blanks.length < 12 && !front.getLast?.any CodePoint.isWord

private theorem dropTrailing_keyword (front : Text) {blanks : Text} (blank : blanks.all CodePoint.isBlank = true) :
    Text.dropTrailing CodePoint.isBlank (front ++ ("function" ++ blanks)) = front ++ "function" := by
  have split : front ++ Text.ofString "function" = front ++ Text.ofString "functio" ++ .char 'n' :: [] := by
    simp [Text.ofString]
  rw [← List.append_assoc, Text.dropTrailing_append_of_all _ blank, split, Text.dropTrailing_behind _ (by decide)]
  rfl

/-- The keyword is seen as far as the window reaches. -/
theorem followsKeyword_iff {source : Text} {offset : Nat} (inside : offset ≤ source.length) :
    followsKeyword source offset = true ↔
      ∃ front blanks : Text, FollowsFunction source offset front blanks ∧ showsKeyword front blanks = true := by
  have size : (source.take offset).length = offset := by
    rw [List.length_take, Nat.min_eq_left inside]
  have keyword : (Text.ofString "function").length = 8 := by decide
  have before (shown : Text) : (shown ++ Text.ofString "function").take
      ((shown ++ Text.ofString "function").length - 8) = shown := by
    rw [List.length_append, keyword, Nat.add_sub_cancel, List.take_left]
  unfold followsKeyword keywordWindow Text.slice
  dsimp only
  rw [Bool.and_eq_true, keyword]
  constructor
  · intro seen
    obtain ⟨ends, noWord⟩ := seen
    obtain ⟨blanks, window, blank⟩ :=
      Text.exists_blanks_dropTrailing CodePoint.isBlank ((source.take offset).drop (offset - 20))
    generalize Text.dropTrailing CodePoint.isBlank _ = trimmed at ends noWord window
    obtain ⟨shown, rfl⟩ := List.isSuffixOf_iff_suffix.mp ends
    rw [before, Bool.not_eq_true'] at noWord
    have length := congrArg List.length window
    rw [List.length_drop, size, List.length_append, List.length_append, keyword] at length
    refine ⟨(source.take offset).take (offset - 20) ++ shown, blanks, ⟨?_, List.all_eq_true.mpr blank⟩, ?_⟩
    · rw [List.append_assoc, ← List.append_assoc shown, ← window, List.take_append_drop]
    · by_cases far : blanks.length = 12
      · simp [showsKeyword, far]
      · have near : blanks.length < 12 := by omega
        have noWord : ((source.take offset).take (offset - 20) ++ shown).getLast?.any CodePoint.isWord = false := by
          cases shown with
          | nil =>
            rw [List.length_nil] at length
            rw [show offset - 20 = 0 by omega]
            rfl
          | cons c shown => rwa [List.getLast?_append_of_ne_nil _ (List.cons_ne_nil c shown)]
        rw [showsKeyword, noWord, decide_eq_true near]
        exact Bool.or_true _
  · intro stands
    obtain ⟨front, blanks, follows, shown⟩ := stands
    have length := congrArg List.length follows.text
    rw [size, List.length_append, List.length_append, keyword] at length
    simp only [showsKeyword, Bool.or_eq_true, Bool.and_eq_true, decide_eq_true_eq, Bool.not_eq_true'] at shown
    have reaches : offset - 20 ≤ front.length := by omega
    rw [follows.text, List.drop_append_of_le_length reaches, dropTrailing_keyword _ follows.blank, before]
    refine ⟨List.isSuffixOf_iff_suffix.mpr (List.suffix_append _ _), ?_⟩
    rw [List.getLast?_drop]
    rcases shown with far | ⟨near, noWord⟩
    · rw [if_pos (by omega)]
      rfl
    · split
      · rfl
      · rw [noWord]
        rfl

/-- The keyword is not seen where something else stands in front of the blanks. -/
theorem followsKeyword_eq_false {source front blanks : Text} {offset : Nat} {c : CodePoint}
    (text : source.take offset = front ++ c :: blanks) (inside : offset ≤ source.length)
    (blank : blanks.all CodePoint.isBlank = true) (noBlank : c.isBlank = false) (other : c ≠ 'n') :
    followsKeyword source offset = false := by
  by_contra seen
  obtain ⟨front', blanks', follows, -⟩ := (followsKeyword_iff inside).mp (Bool.not_eq_false _ ▸ seen)
  have same := congrArg (Text.dropTrailing CodePoint.isBlank) (follows.text.symm.trans text)
  rw [dropTrailing_keyword front' follows.blank, Text.dropTrailing_behind front noBlank,
    Text.dropTrailing_of_all blank] at same
  have last := congrArg List.getLast? same
  rw [List.getLast?_concat, List.getLast?_append_of_ne_nil _ (by decide)] at last
  exact other (Option.some.inj last).symm

/-- A call as a source spells it: a name that nothing in front of it continues, blanks, and a parenthesis that closes. -/
structure Occurs (callee source : Text) (call : Call) : Prop where
  free : continuesName (source.take call.start).getLast? = false
  opens : ∃ gap : Text, gap.all CodePoint.isBlank = true ∧
    source.StandsAt call.start (callee ++ (gap ++ [.char '('])) ∧
    call.argumentStart = call.start + callee.length + gap.length + 1
  closes : Bracket.matching? source (call.argumentStart - 1) = some call.argumentStop
  stop : call.stop = call.argumentStop + 1

theorem Occurs.exists_distance {callee source : Text} {call : Call} (occurs : call.Occurs callee source) :
    ∃ distance, openingDistance? callee (source.drop call.start) = some distance := by
  obtain ⟨gap, blank, ⟨behind, here⟩, -⟩ := occurs.opens
  refine ⟨_, openingDistance?_eq_some_iff.mpr ⟨gap, behind, blank, ?_, rfl⟩⟩
  rw [← here, List.append_assoc, List.append_assoc, List.singleton_append]

private theorem drop_of_opens {callee source gap behind : Text} {start : Nat}
    (here : source.drop start = callee ++ (gap ++ .char '(' :: behind)) :
    source.drop (start + (callee.length + gap.length)) = Bracket.round.opening :: behind := by
  rw [← List.drop_drop, here, ← List.drop_drop, List.drop_left, List.drop_left]
  rfl

/-- The calls of a name are its occurrences that are not opaque and for which no keyword is seen. -/
theorem mem_calls {callee source : Text} (name : IsName callee) {call : Call} : call ∈ calls callee source ↔
    call.Occurs callee source ∧ (survey source).isOpaque call.start = false ∧
      followsKeyword source call.start = false := by
  constructor
  · intro member
    obtain ⟨⟨start, opening⟩, candidate, found⟩ := List.mem_filterMap.mp member
    obtain ⟨ahead, distance, rfl, rfl, free, named⟩ := distance_of_candidate candidate
    rw [Nat.zero_add] at found
    dsimp only [ofCandidate?] at found
    split at found
    · cases found
    · rename_i taken
      obtain ⟨length, closes, rfl⟩ := Option.map_eq_some_iff.mp found
      obtain ⟨gap, behind, blank, here, rfl⟩ := openingDistance?_eq_some_iff.mp named
      have opens := drop_of_opens here
      rw [← List.drop_drop, opens, List.drop_succ_cons, List.drop_zero] at closes
      rw [Bool.not_eq_true, Bool.or_eq_false_iff] at taken
      refine ⟨⟨by rwa [Option.or_none] at free, ⟨gap, blank, ?_, ?_⟩, ?_, rfl⟩, taken⟩
      · rw [Text.StandsAt, here]
        exact ⟨behind, by simp⟩
      · dsimp only
        omega
      · dsimp only
        rw [Nat.add_sub_cancel, Bracket.matching?_eq opens, closes, Option.map_some]
  · intro found
    obtain ⟨⟨free, ⟨gap, blank, ⟨behind, here⟩, place⟩, closes, stop⟩, clear, noKeyword⟩ := found
    rw [List.append_assoc, List.append_assoc, List.singleton_append] at here
    have opens := drop_of_opens here.symm
    have named : openingDistance? callee (source.drop call.start) = some (callee.length + gap.length) :=
      openingDistance?_eq_some_iff.mpr ⟨gap, behind, blank, here.symm, rfl⟩
    have candidate : (0 + call.start, 0 + call.start + (callee.length + gap.length)) ∈ candidates callee none 0 source :=
      mem_candidates name (by rwa [Option.or_none]) named
    rw [Nat.zero_add] at candidate
    refine List.mem_filterMap.mpr ⟨_, candidate, ?_⟩
    rw [show call.argumentStart - 1 = call.start + (callee.length + gap.length) by omega, Bracket.matching?_eq opens]
      at closes
    obtain ⟨length, closes, ends⟩ := Option.map_eq_some_iff.mp closes
    dsimp only [ofCandidate?]
    rw [clear, noKeyword, Bool.or_false, if_neg Bool.false_ne_true, ← List.drop_drop, opens, List.drop_succ_cons,
      List.drop_zero, closes, Option.map_some]
    obtain ⟨start, stop', argumentStart, argumentStop⟩ := call
    dsimp only at place ends stop ⊢
    rw [Option.some.injEq, Call.mk.injEq]
    omega

/-- The calls of a name are in the order of their starts. -/
theorem calls_ascending (callee source : Text) : (calls callee source).Pairwise fun a b => a.start < b.start := by
  refine (candidates_ascending callee none 0 source).filterMap _ ?_
  intro candidate candidate' order call found call' found'
  have start {candidate : Nat × Nat} {call : Call}
      (found : ofCandidate? source (survey source) candidate.1 candidate.2 = some call) : call.start = candidate.1 := by
    unfold ofCandidate? at found
    split at found
    · cases found
    · obtain ⟨length, -, rfl⟩ := Option.map_eq_some_iff.mp found
      rfl
  rwa [start found, start found']

/-- Calls in the order of their starts are all calls if there is one for every start. -/
theorem calls_eq_of_starts {callee source : Text} {listed : List Call}
    (order : listed.Pairwise fun a b => a.start < b.start) (sound : ∀ call ∈ listed, call ∈ calls callee source)
    (complete : ∀ call ∈ calls callee source, ∃ other ∈ listed, other.start = call.start) :
    calls callee source = listed := by
  have ascending := calls_ascending callee source
  have starts : ((calls callee source).map Call.start).Nodup := (List.pairwise_map.mpr ascending).imp Nat.ne_of_lt
  have distinct {calls : List Call} (order : calls.Pairwise fun a b => a.start < b.start) : calls.Nodup :=
    order.imp fun before same => Nat.ne_of_lt before (congrArg Call.start same)
  have permuted : (calls callee source).Perm listed := by
    refine (List.perm_ext_iff_of_nodup (distinct ascending) (distinct order)).mpr fun call => ⟨?_, sound call⟩
    intro member
    obtain ⟨other, found, same⟩ := complete call member
    exact List.inj_on_of_nodup_map starts (sound other found) member same ▸ found
  exact permuted.eq_of_pairwise (fun _ _ _ _ before behind => absurd before (Nat.lt_asymm behind)) ascending order

/-- An occurrence of a name is a call unless it is opaque or the keyword of a definition is seen in front of it. The
keyword is not seen if there are more than twelve blanks behind it. With twelve of them it is seen also at the end of
a longer word, and with fewer only where it is a word of its own. -/
theorem mem_calls_iff {callee source : Text} (name : IsName callee) (call : Call) : call ∈ calls callee source ↔
    call.Occurs callee source ∧ (survey source).isOpaque call.start = false ∧
      ∀ front blanks : Text, FollowsFunction source call.start front blanks →
        12 < blanks.length ∨ blanks.length < 12 ∧ front.getLast?.any CodePoint.isWord = true := by
  rw [mem_calls name, and_congr_right_iff]
  intro occurs
  have inside : call.start ≤ source.length := by
    obtain ⟨gap, -, ⟨behind, here⟩, -⟩ := occurs.opens
    have size := congrArg List.length here
    simp only [List.length_append, List.length_drop, List.length_singleton] at size
    omega
  have hidden (front blanks : Text) : showsKeyword front blanks = false ↔
      12 < blanks.length ∨ blanks.length < 12 ∧ front.getLast?.any CodePoint.isWord = true := by
    rw [showsKeyword, Bool.or_eq_false_iff, Bool.and_eq_false_iff, Bool.not_eq_false', decide_eq_false_iff_not,
      decide_eq_false_iff_not]
    by_cases near : blanks.length < 12
    · simp [near, Nat.ne_of_lt near, Nat.lt_asymm near]
    · simp only [near, not_false_eq_true, true_or, and_true, false_and, or_false]
      omega
  rw [← Bool.not_eq_true (followsKeyword _ _), followsKeyword_iff inside, not_exists]
  simp only [not_exists, not_and, Bool.not_eq_true, hidden]

/-- A call behind a word that ends as the keyword does. -/
theorem mem_calls_iff_longer_word :
    let source : Text := "myfunction\n createStyles (\x7b m: 1 \x7d)"
    let call : Call := ⟨12, 35, 26, 34⟩
    IsName "createStyles" ∧ FollowsFunction source call.start "my" "\n " ∧ call ∈ calls "createStyles" source ∧
      call.Occurs "createStyles" source := by
  intro source call
  have name : IsName "createStyles" := ⟨by decide, by decide⟩
  have follows : FollowsFunction source call.start "my" "\n " := ⟨by decide, by decide⟩
  have member : call ∈ calls "createStyles" source := by decide +kernel
  exact ⟨name, follows, member, ((mem_calls_iff name call).mp member).1⟩

end StaticStyle.Markup.Call
