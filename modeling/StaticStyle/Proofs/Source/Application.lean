import Mathlib.Algebra.Ring.Int.Defs
import StaticStyle.Proofs.Sorting
import StaticStyle.Proofs.Source.Replacement

namespace StaticStyle

namespace Edit

/-- Whether an edit replaces the code point at an offset. -/
def Covers (edit : Edit) (offset : Nat) : Prop := edit.start ≤ offset ∧ offset < edit.stop

/-- Whether an edit inserts its text between two code points that another edit replaces. -/
def SplitsRange (edit other : Edit) : Prop :=
  edit.start = edit.stop ∧ other.start < edit.start ∧ edit.start < other.stop

/-- Edits are in each other's way if they replace a common code point, or if one of them inserts inside the range of the
other. -/
def Collides (edit other : Edit) : Prop :=
  (∃ offset, edit.Covers offset ∧ other.Covers offset) ∨ edit.SplitsRange other ∨ other.SplitsRange edit

/-- Writes the text of an edit in place of its range. -/
def apply (edit : Edit) (text : Text) : Text := text.take edit.start ++ edit.text ++ text.drop edit.stop

/-- How many code points an edit adds, less those that it takes away. -/
def growth (edit : Edit) : Int := (edit.text.length : Int) - ((edit.stop : Int) - edit.start)

/-- Whether an edit inserts at an offset. -/
def insertsAt (offset : Nat) (edit : Edit) : Bool := edit.start == offset && edit.stop == offset

/-- The comparison of the ends tells all kinds of collisions. -/
theorem overlaps_iff_collides {a b : Edit} (ordered : a.start ≤ a.stop) (ordered' : b.start ≤ b.stop) :
    a.overlaps b = true ↔ a.Collides b := by
  rw [overlaps_iff_lt]
  constructor
  · rintro ⟨before, behind⟩
    by_cases inserts : a.start = a.stop
    · exact .inr (.inl ⟨inserts, by omega, before⟩)
    · by_cases inserts' : b.start = b.stop
      · exact .inr (.inr ⟨inserts', by omega, behind⟩)
      · exact .inl ⟨max a.start b.start, ⟨by omega, by omega⟩, ⟨by omega, by omega⟩⟩
  · rintro (⟨offset, ⟨_, _⟩, ⟨_, _⟩⟩ | ⟨_, _, _⟩ | ⟨_, _, _⟩) <;> omega

end Edit

namespace Editor

/-- What an editor can be asked for. -/
inductive Request where
  | overwrite (start stop : Int) (text : Text)
  | remove (start stop : Int)
  | insert (offset : Int) (text : Text)
  | prepend (text : Text)
deriving DecidableEq, Repr

namespace Request

/-- The ends of the range that a request is about. -/
def range : Request → Int × Int
  | overwrite start stop _ | remove start stop => (start, stop)
  | insert offset _ => (offset, offset)
  | prepend _ => (0, 0)

def text : Request → Text
  | overwrite _ _ text | insert _ text | prepend text => text
  | remove _ _ => []

/-- The edit that a request stands for if its range is inside the source. -/
def edit (request : Request) : Edit := ⟨request.range.1.toNat, request.range.2.toNat, request.text⟩

/-- Whether the range of a request is one of a text of some length. -/
def IsInside (request : Request) (length : Nat) : Prop :=
  0 ≤ request.range.1 ∧ request.range.1 ≤ request.range.2 ∧ request.range.2 ≤ length

instance (request : Request) (length : Nat) : Decidable (request.IsInside length) :=
  inferInstanceAs (Decidable (_ ∧ _ ∧ _))

theorem IsInside.edit {request : Request} {length : Nat} (inside : request.IsInside length) :
    request.edit.start ≤ request.edit.stop ∧ request.edit.stop ≤ length := by
  obtain ⟨begins, ordered, ends⟩ := inside
  simp only [Request.edit]
  omega

end Request

variable {editor : Editor} {source : Text} {request : Request}

def answer (editor : Editor) : Request → Except EditFault Editor
  | .overwrite start stop text => editor.overwrite start stop text
  | .remove start stop => editor.remove start stop
  | .insert offset text => editor.insert offset text
  | .prepend text => editor.prepend text

/-- The editor behind a request. One that is refused changes nothing. -/
def perform (editor : Editor) (request : Request) : Editor := (editor.answer request).toOption.getD editor

/-- The editor of a source behind some requests. -/
def behind (source : Text) (requests : List Request) : Editor := requests.foldl perform (ofSource source)

theorem answer_eq (editor : Editor) (request : Request) :
    editor.answer request = if request.IsInside editor.source.length then editor.record request.edit
      else .error (.outside request.range.1 request.range.2) := by
  cases request <;> rfl

theorem answer_of_not_isInside (outside : ¬ request.IsInside editor.source.length) :
    editor.answer request = .error (.outside request.range.1 request.range.2) := by
  rw [answer_eq, if_neg outside]

/-- Inside the source, an edit is recorded behind the others or meets with an earlier one. -/
theorem answer_cases (inside : request.IsInside editor.source.length) :
    ((∀ earlier ∈ editor.recorded, request.edit.overlaps earlier = false) ∧
      editor.answer request = .ok { editor with recorded := editor.recorded ++ [request.edit] }) ∨
    ∃ earlier ∈ editor.recorded, request.edit.overlaps earlier = true ∧
      editor.answer request = .error (.conflict request.edit.start request.edit.stop earlier) := by
  rw [answer_eq, if_pos inside, record]
  cases found : editor.recorded.find? request.edit.overlaps with
  | none => exact .inl ⟨by simpa using found, rfl⟩
  | some earlier => exact .inr ⟨earlier, List.mem_of_find?_eq_some found, List.find?_some found, rfl⟩

theorem perform_of_error {fault : EditFault} (refused : editor.answer request = .error fault) :
    editor.perform request = editor := by
  rw [perform, refused]
  rfl

theorem perform_of_ok {next : Editor} (accepted : editor.answer request = .ok next) :
    editor.perform request = next := by
  rw [perform, accepted]
  rfl

/-- An editor of a source whose recorded edits are inside it and do not overlap. -/
structure IsSettled (source : Text) (editor : Editor) : Prop where
  source_eq : editor.source = source
  inside : ∀ edit ∈ editor.recorded, edit.start ≤ edit.stop ∧ edit.stop ≤ source.length
  apart : editor.recorded.Pairwise fun earlier later => later.overlaps earlier = false

theorem isSettled_ofSource (source : Text) : IsSettled source (ofSource source) :=
  ⟨rfl, by simp [ofSource], by simp [ofSource]⟩

theorem IsSettled.perform (settled : IsSettled source editor) (request : Request) :
    IsSettled source (editor.perform request) := by
  by_cases inside : request.IsInside editor.source.length
  · rcases answer_cases inside with ⟨apart, accepted⟩ | ⟨earlier, -, -, refused⟩
    · rw [perform_of_ok accepted]
      refine ⟨settled.source_eq, List.forall_mem_append.mpr ⟨settled.inside, ?_⟩,
        List.pairwise_append.mpr ⟨settled.apart, List.pairwise_singleton _ _, ?_⟩⟩
      · simpa [settled.source_eq] using inside.edit
      · simpa using apart
    · rwa [perform_of_error refused]
  · rwa [perform_of_error (answer_of_not_isInside inside)]

theorem isSettled_behind (source : Text) (requests : List Request) : IsSettled source (behind source requests) :=
  List.foldlRecOn requests Editor.perform (isSettled_ofSource source) fun _ settled request _ => settled.perform request

theorem IsSettled.ascending (settled : IsSettled source editor) :
    editor.edits.Pairwise fun a b => a.stop ≤ b.start :=
  (render_replaces settled.apart (settled.source_eq ▸ settled.inside)).1

theorem IsSettled.edits_inside (settled : IsSettled source editor) :
    ∀ edit ∈ editor.edits, edit.start ≤ edit.stop ∧ edit.stop ≤ source.length :=
  fun edit member => settled.inside edit (List.mem_mergeSort.mp member)

theorem filter_insertsAt_edits (editor : Editor) (offset : Nat) :
    editor.edits.filter (Edit.insertsAt offset) = editor.recorded.filter (Edit.insertsAt offset) := by
  refine filter_mergeSort_of_alike Edit.le_trans Edit.le_total (fun a b here here' => ?_) editor.recorded
  simp only [Edit.insertsAt, Bool.and_eq_true, beq_iff_eq] at here here'
  simp [Edit.le, here, here']

section Render

variable {edits : List Edit}

/-- In front of all edits a text keeps what it has. -/
theorem take_foldr_apply {offset : Nat} (front : ∀ edit ∈ edits, offset ≤ edit.start)
    (inside : offset ≤ source.length) : (edits.foldr Edit.apply source).take offset = source.take offset := by
  induction edits with
  | nil => rfl
  | cons edit edits ih =>
    obtain ⟨here, others⟩ := List.forall_mem_cons.mp front
    have before := ih others
    have long : offset ≤ ((edits.foldr Edit.apply source).take edit.start).length := by
      have length := congrArg List.length before
      simp only [List.length_take] at length ⊢
      omega
    rw [List.foldr_cons, Edit.apply, List.append_assoc, List.take_append_of_le_length long, List.take_take,
      Nat.min_eq_left here, before]

/-- Edits that stand one behind the other may be applied from the last one to the first, since each one leaves what is
in front of it as it is. -/
theorem renderFrom_eq_foldr {cursor : Nat} (ascending : edits.Pairwise fun a b => a.stop ≤ b.start)
    (front : ∀ edit ∈ edits, cursor ≤ edit.start)
    (inside : ∀ edit ∈ edits, edit.start ≤ edit.stop ∧ edit.stop ≤ source.length) :
    renderFrom source cursor edits = (edits.foldr Edit.apply source).drop cursor := by
  induction edits generalizing cursor with
  | nil => rfl
  | cons edit edits ih =>
    obtain ⟨behind, ascending⟩ := List.pairwise_cons.mp ascending
    obtain ⟨⟨ordered, ends⟩, others⟩ := List.forall_mem_cons.mp inside
    have starts := front edit List.mem_cons_self
    have kept : (edits.foldr Edit.apply source).take edit.start = source.take edit.start :=
      take_foldr_apply (fun other member => ordered.trans (behind other member)) (ordered.trans ends)
    have reached : cursor ≤ (source.take edit.start).length := by
      rw [List.length_take]
      omega
    rw [renderFrom, ih ascending behind others, List.foldr_cons, Edit.apply, kept, List.append_assoc,
      List.append_assoc, List.drop_append_of_le_length reached, Text.slice]

/-- A code point that no edit covers is moved by the edits that end in front of it. -/
theorem getElem?_renderFrom {cursor offset : Nat} (ascending : edits.Pairwise fun a b => a.stop ≤ b.start)
    (front : ∀ edit ∈ edits, cursor ≤ edit.start)
    (inside : ∀ edit ∈ edits, edit.start ≤ edit.stop ∧ edit.stop ≤ source.length)
    (reached : cursor ≤ offset) (kept : ∀ edit ∈ edits, ¬ edit.Covers offset) :
    ∃ place : Nat, (place : Int) =
        (offset : Int) - cursor + ((edits.filter fun edit => edit.stop ≤ offset).map Edit.growth).sum ∧
      (renderFrom source cursor edits)[place]? = source[offset]? := by
  induction edits generalizing cursor with
  | nil =>
    refine ⟨offset - cursor, by simp; omega, ?_⟩
    rw [renderFrom, List.getElem?_drop, Nat.add_sub_cancel' reached]
  | cons edit edits ih =>
    obtain ⟨behind, ascending⟩ := List.pairwise_cons.mp ascending
    obtain ⟨⟨ordered, ends⟩, others⟩ := List.forall_mem_cons.mp inside
    obtain ⟨notHere, notOthers⟩ := List.forall_mem_cons.mp kept
    have starts := front edit List.mem_cons_self
    have length : (source.slice cursor edit.start).length = edit.start - cursor :=
      Text.length_slice (ordered.trans ends)
    by_cases before : offset < edit.start
    · -- The code point stands in front of this edit, so also in front of the others.
      have none : (edit :: edits).filter (fun edit => edit.stop ≤ offset) = [] := by
        simp only [List.filter_eq_nil_iff, List.mem_cons, decide_eq_true_eq, Nat.not_le]
        rintro other (rfl | member)
        · omega
        · have later := behind other member
          have := (others other member).1
          omega
      refine ⟨offset - cursor, by rw [none]; simp; omega, ?_⟩
      rw [renderFrom, List.append_assoc, List.getElem?_append_left (by omega), Text.slice, List.getElem?_drop,
        Nat.add_sub_cancel' reached, List.getElem?_take_of_lt before]
    · have passed : edit.stop ≤ offset := by
        simp only [Edit.Covers, not_and, Nat.not_lt] at notHere
        exact notHere (by omega)
      obtain ⟨place, sum, found⟩ := ih ascending behind others passed notOthers
      refine ⟨(edit.start - cursor) + edit.text.length + place, ?_, ?_⟩
      · rw [List.filter_cons_of_pos (by simpa using passed), List.map_cons, List.sum_cons, Edit.growth]
        push_cast [starts]
        omega
      · rw [renderFrom, ← found, List.getElem?_append_right (by simp [length]), List.length_append, length,
          Nat.add_sub_cancel_left]

end Render

section Requests

/-- A request is refused for its range if and only if the range is not one of the source. -/
theorem IsSettled.answer_outside_iff (settled : IsSettled source editor) :
    editor.answer request = .error (.outside request.range.1 request.range.2) ↔ ¬ request.IsInside source.length := by
  rw [← settled.source_eq]
  refine ⟨fun refused inside => ?_, answer_of_not_isInside⟩
  rcases answer_cases inside with ⟨-, accepted⟩ | ⟨earlier, -, -, conflict⟩
  · rw [accepted] at refused
    cases refused
  · rw [conflict] at refused
    cases refused

/-- A request is refused for an earlier edit if and only if its edit collides with a recorded one. -/
theorem IsSettled.answer_conflict_iff (settled : IsSettled source editor) :
    (∃ earlier, editor.answer request = .error (.conflict request.edit.start request.edit.stop earlier)) ↔
      request.IsInside source.length ∧ ∃ earlier ∈ editor.edits, request.edit.Collides earlier := by
  have collides (inside : request.IsInside source.length) {earlier : Edit} (member : earlier ∈ editor.recorded) :
      request.edit.overlaps earlier = true ↔ request.edit.Collides earlier :=
    Edit.overlaps_iff_collides inside.edit.1 (settled.inside earlier member).1
  constructor
  · rintro ⟨earlier, refused⟩
    by_cases inside : request.IsInside source.length
    · rcases answer_cases (settled.source_eq ▸ inside) with ⟨-, accepted⟩ | ⟨other, member, overlap, -⟩
      · rw [accepted] at refused
        cases refused
      · exact ⟨inside, other, List.mem_mergeSort.mpr member, (collides inside member).mp overlap⟩
    · rw [settled.answer_outside_iff.mpr inside] at refused
      cases refused
  · rintro ⟨inside, earlier, member, collide⟩
    have member := List.mem_mergeSort.mp member
    rcases answer_cases (settled.source_eq ▸ inside) with ⟨apart, -⟩ | ⟨other, -, -, refused⟩
    · have overlap := (collides inside member).mpr collide
      rw [apart earlier member] at overlap
      cases overlap
    · exact ⟨other, refused⟩

theorem behind_concat (source : Text) (requests : List Request) (request : Request) :
    behind source (requests ++ [request]) = (behind source requests).perform request :=
  List.foldl_concat ..

/-- A request that is answered has its edit recorded behind the others. -/
theorem IsSettled.eq_of_answer_ok (settled : IsSettled source editor) {next : Editor}
    (accepted : editor.answer request = .ok next) : next = ⟨source, editor.recorded ++ [request.edit]⟩ := by
  have inside : request.IsInside editor.source.length := by
    by_contra outside
    rw [answer_of_not_isInside outside] at accepted
    cases accepted
  rcases answer_cases inside with ⟨-, recorded⟩ | ⟨earlier, -, -, refused⟩
  · rw [recorded] at accepted
    rw [← Except.ok.inj accepted, settled.source_eq]
  · rw [refused] at accepted
    cases accepted

end Requests

/-- The editor of a source behind any requests. A further request is refused for a range outside the source, or else if
its edit collides with a recorded one, and then it changes nothing; otherwise its edit is recorded behind the others.
The edits are applied one behind the other, insertions at one offset in the order of recording and in front of a
replacement that starts there. The edited text is the source with them applied one by one, from the last one to the
first, and each code point that none of them covers is moved by the growth of those that end in front of it. -/
theorem render_behind (source : Text) (requests : List Request) :
    let editor := behind source requests
    (∀ request : Request,
      (editor.answer request = .error (.outside request.range.1 request.range.2) ↔
        ¬ request.IsInside source.length) ∧
      ((∃ earlier, editor.answer request = .error (.conflict request.edit.start request.edit.stop earlier)) ↔
        request.IsInside source.length ∧ ∃ earlier ∈ editor.edits, request.edit.Collides earlier) ∧
      (∀ fault, editor.answer request = .error fault → behind source (requests ++ [request]) = editor) ∧
      ∀ next, editor.answer request = .ok next →
        behind source (requests ++ [request]) = ⟨source, editor.recorded ++ [request.edit]⟩) ∧
    editor.edits.Perm editor.recorded ∧
    editor.edits.Pairwise (fun a b => a.stop ≤ b.start) ∧
    (∀ offset, editor.edits.filter (Edit.insertsAt offset) = editor.recorded.filter (Edit.insertsAt offset)) ∧
    editor.edits.Pairwise (fun a b => a.start = b.start → a.isInsertion = true) ∧
    editor.render = editor.edits.foldr Edit.apply source ∧
    ∀ offset < source.length, (∀ edit ∈ editor.edits, ¬ edit.Covers offset) →
      ∃ place : Nat, (place : Int) =
          offset + ((editor.edits.filter fun edit => edit.stop ≤ offset).map Edit.growth).sum ∧
        editor.render[place]? = source[offset]? := by
  intro editor
  have settled : IsSettled source editor := isSettled_behind source requests
  have ascending := settled.ascending
  have inside := settled.edits_inside
  have front : ∀ edit ∈ editor.edits, 0 ≤ edit.start := fun edit _ => Nat.zero_le _
  have rendered : editor.render = renderFrom source 0 editor.edits := by rw [render, settled.source_eq]
  refine ⟨fun request => ⟨settled.answer_outside_iff, settled.answer_conflict_iff, ?_, ?_⟩,
    List.mergeSort_perm _ _, ascending, filter_insertsAt_edits editor, ?_, ?_, ?_⟩
  · intro fault refused
    rw [behind_concat, perform_of_error refused]
  · intro next accepted
    rw [behind_concat, perform_of_ok accepted, settled.eq_of_answer_ok accepted]
  · refine ascending.imp_of_mem fun {a b} first _ before start => ?_
    have ordered := (inside a first).1
    simp only [Edit.isInsertion, beq_iff_eq]
    omega
  · rw [rendered, renderFrom_eq_foldr ascending front inside, List.drop_zero]
  · intro offset _ kept
    obtain ⟨place, sum, found⟩ := getElem?_renderFrom ascending front inside (Nat.zero_le offset) kept
    exact ⟨place, by simpa using sum, by rw [rendered, found]⟩

/-- Two insertions in front of a replacement that was recorded earlier, a removal and an insertion that collide with
earlier edits, and a range outside. -/
theorem render_behind_refusals :
    let requests : List Request := [.overwrite 6 11 "there", .insert 6 "<", .remove 4 7, .overwrite 0 5 "hi",
      .insert 3 "-", .insert 6 ">", .remove 9 12, .prepend "1"]
    let editor := behind "hello world" requests
    editor.edits = [⟨0, 0, "1"⟩, ⟨0, 5, "hi"⟩, ⟨6, 6, "<"⟩, ⟨6, 6, ">"⟩, ⟨6, 11, "there"⟩] ∧
      editor.render = editor.edits.foldr Edit.apply "hello world" ∧
      ∃ place : Nat, (place : Int) = 3 ∧ editor.render[place]? = some (.char ' ') := by
  intro requests editor
  have recorded : editor.recorded =
      [⟨6, 11, "there"⟩, ⟨6, 6, "<"⟩, ⟨0, 5, "hi"⟩, ⟨6, 6, ">"⟩, ⟨0, 0, "1"⟩] := by decide +kernel
  have edits : editor.edits = [⟨0, 0, "1"⟩, ⟨0, 5, "hi"⟩, ⟨6, 6, "<"⟩, ⟨6, 6, ">"⟩, ⟨6, 11, "there"⟩] := by
    rw [Editor.edits, recorded]
    simp [List.mergeSort, Edit.le]
  obtain ⟨-, -, -, -, -, rendered, moved⟩ := render_behind "hello world" requests
  obtain ⟨place, sum, found⟩ := moved 5 (by decide) (by
    change ∀ edit ∈ editor.edits, ¬ edit.Covers 5
    rw [edits]
    simp [Edit.Covers])
  refine ⟨edits, rendered, place, ?_, found⟩
  rw [sum]
  change _ + ((editor.edits.filter _).map Edit.growth).sum = _
  rw [edits]
  decide

end Editor

end StaticStyle
