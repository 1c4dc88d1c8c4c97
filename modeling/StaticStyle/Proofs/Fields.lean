import Mathlib.Data.List.Basic
import StaticStyle.Fields
import StaticStyle.Proofs.Text.Order

namespace StaticStyle.Fields

variable {α : Type} {fields : Fields α} {key other : Text} {value : α}

attribute [local simp] get? put

theorem get?_put_self : get? key (put key value fields) = some value := by
  induction fields with
  | nil => simp
  | cons field fields ih =>
    unfold put
    split <;> simp_all

theorem get?_put_of_ne (different : other ≠ key) :
    get? other (put key value fields) = get? other fields := by
  induction fields with
  | nil => simp [different.symm]
  | cons field fields ih =>
    unfold put
    split
    · rename_i same
      simp [same, different.symm]
    · simp [ih]

theorem get?_put : get? other (put key value fields) =
    if other = key then some value else get? other fields := by
  split
  · rename_i same
    rw [same, get?_put_self]
  · rename_i different
    exact get?_put_of_ne different

theorem get?_erase : get? other (erase key fields) =
    if other = key then none else get? other fields := by
  induction fields with
  | nil => simp [erase]
  | cons field fields ih =>
    simp only [erase, List.filter_cons] at ih ⊢
    by_cases erased : field.1 = key
    · simp only [erased, ne_eq, not_true_eq_false, decide_false, Bool.false_eq_true, ↓reduceIte, ih,
        get?]
      by_cases same : other = key
      · simp [same]
      · simp [same, Ne.symm same]
    · simp only [erased, ne_eq, not_false_eq_true, decide_true, ↓reduceIte, get?, ih]
      by_cases found : field.1 = other
      · simp [found, show other ≠ key from fun same => erased (found.trans same)]
      · simp [found]

theorem get?_append {fields' : Fields α} :
    get? key (fields ++ fields') = (get? key fields).or (get? key fields') := by
  induction fields with
  | nil => simp
  | cons field fields ih =>
    simp only [List.cons_append, get?, ih]
    split <;> simp

theorem get?_mono {fields' : Fields α} (longer : fields <+: fields')
    (found : get? key fields = some value) : get? key fields' = some value := by
  obtain ⟨further, rfl⟩ := longer
  rw [get?_append, found, Option.some_or]

theorem mem_of_get? (found : get? key fields = some value) : (key, value) ∈ fields := by
  induction fields with
  | nil => simp at found
  | cons field fields ih =>
    unfold get? at found
    split at found
    · rename_i same
      simp only [Option.some.injEq] at found
      subst same found
      exact List.mem_cons_self
    · exact List.mem_cons_of_mem _ (ih found)

/-- Putting in what is found already changes nothing. -/
theorem put_of_get? (found : get? key fields = some value) : put key value fields = fields := by
  induction fields with
  | nil => simp at found
  | cons field fields ih =>
    unfold get? at found
    unfold put
    split at found
    · rename_i same
      rw [Option.some.injEq] at found
      rw [if_pos same, ← same, ← found]
    · rename_i different
      rw [if_neg different, ih found]

theorem get?_of_mem (nodup : fields.keys.Nodup) (member : (key, value) ∈ fields) :
    get? key fields = some value := by
  induction fields with
  | nil => simp at member
  | cons field fields ih =>
    simp only [keys, List.map_cons, List.nodup_cons] at nodup
    unfold get?
    rcases List.mem_cons.mp member with rfl | member
    · simp
    · have different : field.1 ≠ key := by
        intro same
        exact nodup.1 (List.mem_map.mpr ⟨_, member, same.symm⟩)
      rw [if_neg different, ih nodup.2 member]

theorem contains_iff : contains key fields = true ↔ ∃ value, get? key fields = some value := by
  rw [contains, Option.isSome_iff_exists]

theorem contains_mono {fields' : Fields α} (longer : fields <+: fields')
    (found : contains key fields = true) : contains key fields' = true := by
  obtain ⟨value, found⟩ := contains_iff.mp found
  exact contains_iff.mpr ⟨value, get?_mono longer found⟩

theorem contains_of_mem (member : (key, value) ∈ fields) : contains key fields = true := by
  induction fields with
  | nil => simp at member
  | cons field fields ih =>
    rw [contains, get?]
    split
    · rfl
    · rename_i different
      rcases List.mem_cons.mp member with rfl | member
      · exact absurd rfl different
      · exact ih member

theorem contains_iff_mem_keys : contains key fields = true ↔ key ∈ keys fields := by
  constructor
  · intro found
    obtain ⟨value, found⟩ := contains_iff.mp found
    exact List.mem_map.mpr ⟨_, mem_of_get? found, rfl⟩
  · intro member
    obtain ⟨field, inside, rfl⟩ := List.mem_map.mp member
    exact contains_of_mem inside

theorem mem_put {entry : Text × α} (member : entry ∈ put key value fields) :
    entry = (key, value) ∨ entry ∈ fields := by
  induction fields with
  | nil => exact .inl (List.mem_singleton.mp member)
  | cons field fields ih =>
    unfold put at member
    split at member
    · rcases List.mem_cons.mp member with same | member
      · exact .inl same
      · exact .inr (List.mem_cons_of_mem _ member)
    · rcases List.mem_cons.mp member with same | member
      · exact .inr (same ▸ List.mem_cons_self)
      · exact (ih member).imp_right (List.mem_cons_of_mem _)

theorem keys_put : keys (put key value fields) =
    if key ∈ keys fields then keys fields else keys fields ++ [key] := by
  induction fields with
  | nil => simp [keys]
  | cons field fields ih =>
    unfold put
    split
    · rename_i same
      simp [keys, same]
    · rename_i different
      simp only [keys, List.map_cons, List.mem_cons, Ne.symm different, false_or] at ih ⊢
      rw [ih]
      by_cases present : key ∈ List.map Prod.fst fields
      · simp only [present, ↓reduceIte]
      · simp only [present, ↓reduceIte, List.cons_append]

theorem put_of_notMem (absent : key ∉ keys fields) : put key value fields = fields ++ [(key, value)] := by
  induction fields with
  | nil => rfl
  | cons field fields ih =>
    rw [keys, List.map_cons, List.mem_cons, not_or] at absent
    rw [put, if_neg (Ne.symm absent.1), ih absent.2, List.cons_append]

theorem nodup_put (nodup : fields.keys.Nodup) : (put key value fields).keys.Nodup := by
  rw [keys_put]
  split
  · exact nodup
  · rename_i absent
    refine List.nodup_append.mpr ⟨nodup, by simp, ?_⟩
    intro other member key' single same
    rw [List.mem_singleton.mp single] at same
    exact absent (same ▸ member)

theorem nodup_erase (nodup : fields.keys.Nodup) : (erase key fields).keys.Nodup :=
  nodup.sublist (List.filter_sublist.map _)

/-- Putting pairs in one after another, when no key is among them twice. -/
theorem get?_foldl_put {pairs : Fields α} (nodup : pairs.keys.Nodup) :
    get? key (pairs.foldl (fun fields pair => put pair.1 pair.2 fields) fields) =
      (get? key pairs).or (get? key fields) := by
  induction pairs generalizing fields with
  | nil => simp
  | cons pair pairs ih =>
    simp only [keys, List.map_cons, List.nodup_cons] at nodup
    rw [List.foldl_cons, ih nodup.2, get?_put, get?]
    by_cases same : pair.1 = key
    · have absent : get? key pairs = none := by
        rw [← Option.not_isSome_iff_eq_none, Option.isSome_iff_exists]
        rintro ⟨value, found⟩
        exact nodup.1 (List.mem_map.mpr ⟨_, mem_of_get? found, same.symm⟩)
      simp [same, absent]
    · simp [same, Ne.symm same]

/-- Putting pairs in one after another leaves the last value of each key. -/
theorem get?_foldl_put_last (pairs : List (Text × α)) :
    get? key (pairs.foldl (fun fields pair => put pair.1 pair.2 fields) fields) =
      ((pairs.filter fun pair => pair.1 = key).getLast?.map Prod.snd).or (get? key fields) := by
  induction pairs generalizing fields with
  | nil => simp
  | cons pair pairs ih =>
    rw [List.foldl_cons, ih, get?_put]
    by_cases same : pair.1 = key
    · rw [List.filter_cons, if_pos (decide_eq_true same), if_pos same.symm, List.getLast?_cons]
      cases (pairs.filter fun pair => pair.1 = key).getLast? <;> rfl
    · rw [List.filter_cons, if_neg (Ne.symm same), if_neg (by simpa using same)]

/-- Putting pairs in one after another puts the new keys behind the others, each where it first occurs. -/
theorem keys_foldl_put (pairs : List (Text × α)) :
    keys (pairs.foldl (fun fields pair => put pair.1 pair.2 fields) fields) =
      keys fields ++ ((pairs.map Prod.fst).filter fun key => key ∉ keys fields).eraseDups := by
  induction pairs generalizing fields with
  | nil => simp
  | cons pair pairs ih =>
    rw [List.foldl_cons, ih, keys_put, List.map_cons]
    by_cases present : pair.1 ∈ keys fields
    · simp [present]
    · rw [if_neg present, List.filter_cons_of_pos (by simpa using present), List.eraseDups_cons, List.filter_filter,
        List.append_assoc, List.singleton_append]
      simp [Bool.and_comm, beq_eq_decide]

/-- Putting pairs in one after another puts them behind the others, when no key is there twice. -/
theorem foldl_put_of_nodup {pairs : Fields α} (nodup : (keys (fields ++ pairs)).Nodup) :
    pairs.foldl (fun fields pair => put pair.1 pair.2 fields) fields = fields ++ pairs := by
  induction pairs generalizing fields with
  | nil => simp
  | cons pair pairs ih =>
    have absent : pair.1 ∉ keys fields := by
      intro member
      simp only [keys, List.map_append, List.nodup_append] at nodup
      exact nodup.2.2 _ member _ (by simp) rfl
    rw [List.foldl_cons, put_of_notMem absent, ih (by simpa using nodup), List.append_assoc]
    rfl

theorem ofPairs_of_nodup {pairs : Fields α} (nodup : pairs.keys.Nodup) : ofPairs pairs = pairs :=
  @foldl_put_of_nodup α [] pairs nodup

/-- A map has each key of some pairs once, in the order in which they first occur, with its last value. -/
structure Collects (fields : Fields α) (pairs : List (Text × α)) : Prop where
  keys : fields.keys = (pairs.map Prod.fst).eraseDups
  values : ∀ key, get? key fields = (pairs.filter fun pair => pair.1 = key).getLast?.map Prod.snd

theorem ofPairs_collects (pairs : List (Text × α)) : (ofPairs pairs).Collects pairs where
  keys := by
    rw [ofPairs, keys_foldl_put]
    simp [Fields.keys]
  values key := by
    rw [ofPairs, get?_foldl_put_last]
    simp

theorem Collects.nodup {pairs : List (Text × α)} (collects : fields.Collects pairs) : fields.keys.Nodup :=
  collects.keys ▸ Text.nodup_eraseDups _

/-- Every field of a map that collects pairs is one of them. -/
theorem Collects.mem {pairs : List (Text × α)} (collects : fields.Collects pairs) (member : (key, value) ∈ fields) :
    (key, value) ∈ pairs := by
  have found := get?_of_mem collects.nodup member
  rw [collects.values] at found
  obtain ⟨pair, last, rfl⟩ := Option.map_eq_some_iff.mp found
  obtain ⟨member, same⟩ := List.mem_filter.mp (List.mem_of_getLast? last)
  rwa [← of_decide_eq_true same]

theorem get?_eq_of_perm {fields' : Fields α} (nodup : fields.keys.Nodup)
    (same : fields.Perm fields') : get? key fields = get? key fields' := by
  have nodup' : fields'.keys.Nodup := (same.map Prod.fst).nodup_iff.mp nodup
  apply Option.ext
  intro value
  constructor
  · exact fun found => get?_of_mem nodup' (same.mem_iff.mp (mem_of_get? found))
  · exact fun found => get?_of_mem nodup (same.mem_iff.mpr (mem_of_get? found))

end StaticStyle.Fields
