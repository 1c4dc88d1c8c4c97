import StaticStyle.File.Tree
import StaticStyle.Proofs.File.Path

/-!
What changes to a tree of files leave alone. Directories stay directories, and what lies below a location stays as it is
as long as nothing is written there. Where a path leads is found without a look at the tree, if it leads anywhere.
-/

namespace StaticStyle.File

namespace Tree

variable {tree tree' : Tree} {location other : Location} {entry : Entry}

/-- Whether every name in a tree stands for itself, and what is listed is what is found. -/
structure IsSound (tree : Tree) : Prop where
  here : tree.here.all isName = true
  names : ∀ entry ∈ tree.entries, entry.1.all isName = true
  found : ∀ entry ∈ tree.entries, tree.entry? entry.1 = some entry.2

/-- Where a path leads, if it leads anywhere. -/
def place (tree : Tree) (path : Path) : Location := settle (tree.start path.isRooted ++ path.names)

theorem lookup_putEntry (entries : List (Location × Entry)) :
    (putEntry location entry entries).lookup other = if other = location then some entry else entries.lookup other := by
  have cons (first : Location) (old : Entry) (rest : List (Location × Entry)) :
      ((first, old) :: rest).lookup other = if other = first then some old else rest.lookup other := by
    rw [List.lookup_cons]
    by_cases same : other = first
    · rw [if_pos same, beq_iff_eq.mpr same]
    · rw [if_neg same, beq_eq_false_iff_ne.mpr same]
  induction entries with
  | nil => exact cons location entry []
  | cons first rest ih =>
    obtain ⟨first, old⟩ := first
    unfold putEntry
    by_cases isFirst : first = location
    · rw [if_pos isFirst, cons, cons, isFirst]
      split <;> rfl
    · rw [if_neg isFirst, cons, cons, ih]
      by_cases same : other = first
      · rw [if_pos same, if_pos same, if_neg (same ▸ isFirst)]
      · rw [if_neg same, if_neg same]

theorem entry_put : entry? (tree.put location entry) other =
    if other = [] then some .directory else if other = location then some entry else tree.entry? other := by
  unfold entry? put
  split
  · rfl
  · exact lookup_putEntry tree.entries

/-- Names lead to the place that they settle at, or nowhere. -/
theorem eq_settle_of_follow {names : List Text} {goal : Location}
    (meaningful : ∀ name ∈ names, name ≠ [] ∧ name ≠ Text.ofString ".") (first : List Text)
    (leads : tree.follow (settle first) names = .ok goal) : goal = settle (first ++ names) := by
  induction names generalizing first with
  | nil =>
    cases leads
    rw [List.append_nil]
  | cons name names ih =>
    obtain ⟨⟨nonempty, noDot⟩, others⟩ := List.forall_mem_cons.mp meaningful
    rw [follow] at leads
    split at leads
    · cases leads
    · cases leads
    · cases leads
    · have through : ∀ next, tree.follow next names = .ok goal → next = settle (first ++ [name]) →
          goal = settle (first ++ name :: names) := by
        rintro _ leads rfl
        rw [ih others _ leads, List.append_assoc]
        rfl
      rw [if_neg (by simp [nonempty, noDot])] at leads
      split at leads
      · rename_i isParent
        exact through _ leads (by rw [settle_append, List.foldl_cons, List.foldl_nil, if_pos isParent])
      · rename_i noParent
        split at leads
        · cases leads
        · exact through _ leads (by rw [settle_append, List.foldl_cons, List.foldl_nil, if_neg noParent])

/-- What is found at a path lies at its place. -/
theorem eq_place_of_locate (sound : tree.here.all isName = true) {text : Text} {names : List Text} {goal : Location}
    (areNames : names.all isName = true) (leads : tree.locate ((Path.ofText text).below names) = .ok goal) :
    goal = tree.place (Path.ofText text) ++ names := by
  unfold locate at leads
  split at leads
  · cases leads
  have start : settle (tree.start (Path.ofText text).isRooted) = tree.start (Path.ofText text).isRooted := by
    unfold Tree.start
    split
    · rfl
    · exact settle_names sound
  have meaningful : ∀ name ∈ (Path.ofText text).names ++ names, name ≠ [] ∧ name ≠ Text.ofString "." := by
    intro name member
    rcases List.mem_append.mp member with given | below
    · exact Path.ofText_names text name given
    · have isName := isName_iff.mp (List.all_eq_true.mp areNames name below)
      exact ⟨isName.1, isName.2.1⟩
  have settled := eq_settle_of_follow meaningful _ (start.symm ▸ leads)
  rw [settled, ← List.append_assoc, settle_append_names areNames]
  rfl

/-- A tree with the directories of another one, and with all that this one has below a location. -/
structure Keeps (location : Location) (tree tree' : Tree) : Prop where
  here : tree'.here = tree.here
  directory : ∀ other, tree.entry? other = some .directory → tree'.entry? other = some .directory
  below : ∀ other entry, location <+: other → tree.entry? other = some entry → tree'.entry? other = some entry

namespace Keeps

theorem refl (location : Location) (tree : Tree) : Keeps location tree tree :=
  ⟨rfl, fun _ found => found, fun _ _ _ found => found⟩

theorem trans {tree'' : Tree} (first : Keeps location tree tree') (second : Keeps location tree' tree'') :
    Keeps location tree tree'' where
  here := second.here.trans first.here
  directory other found := second.directory other (first.directory other found)
  below other entry isBelow found := second.below other entry isBelow (first.below other entry isBelow found)

theorem follow (keeps : Keeps location tree tree') {start goal : Location} {names : List Text}
    (leads : tree.follow start names = .ok goal) : tree'.follow start names = .ok goal := by
  induction names generalizing start with
  | nil => exact leads
  | cons name names ih =>
    unfold Tree.follow at leads ⊢
    split at leads
    · cases leads
    · cases leads
    · cases leads
    · rename_i isDirectory
      rw [keeps.directory _ isDirectory]
      dsimp only
      split at leads
      · rw [if_pos ‹_›]
        exact ih leads
      · rw [if_neg ‹_›]
        split at leads
        · rw [if_pos ‹_›]
          exact ih leads
        · rw [if_neg ‹_›]
          split at leads
          · cases leads
          · rw [if_neg ‹_›]
            exact ih leads

theorem locate (keeps : Keeps location tree tree') {path : Path} {goal : Location}
    (leads : tree.locate path = .ok goal) : tree'.locate path = .ok goal := by
  unfold Tree.locate at leads ⊢
  split at leads
  · cases leads
  · have start : tree'.start path.isRooted = tree.start path.isRooted := by
      simp only [Tree.start, keeps.here]
    rw [start]
    exact keeps.follow leads

/-- What was read below the location is read again. -/
theorem read (keeps : Keeps location tree tree') {path : Path} {goal : Location} {content : Bytes}
    (leads : tree.locate path = .ok goal) (isBelow : location <+: goal) (found : tree.read path = .ok content) :
    tree'.read path = .ok content := by
  unfold Tree.read at found ⊢
  rw [leads] at found
  rw [keeps.locate leads]
  dsimp only at found ⊢
  cases atGoal : tree.entry? goal with
  | none => simp [atGoal] at found
  | some entry =>
    rw [atGoal] at found
    rw [keeps.below goal entry isBelow atGoal]
    exact found

/-- Something is put where there is no directory, outside of what is kept or where nothing has been. -/
theorem put (noDirectory : tree.entry? other ≠ some .directory)
    (outside : location <+: other → tree.entry? other = none) : Keeps location tree (tree.put other entry) where
  here := rfl
  directory found isDirectory := by
    rw [entry_put]
    split
    · rfl
    · rw [if_neg (by rintro rfl; exact noDirectory isDirectory)]
      exact isDirectory
  below found kept isBelow isFound := by
    rw [entry_put]
    split
    · rename_i isRoot
      rw [isRoot] at isFound
      exact isFound
    · split
      · rename_i same
        subst same
        rw [outside isBelow] at isFound
        cases isFound
      · exact isFound

theorem makeDirectory {path : Path} (made : tree.makeDirectory path = .ok tree') : Keeps location tree tree' := by
  unfold Tree.makeDirectory at made
  split at made
  · cases made
  · split at made
    · cases made
    · rename_i absent
      cases made
      have nothing := Option.not_isSome_iff_eq_none.mp absent
      exact put (by rw [nothing]; nofun) fun _ => nothing

theorem allowDirectory {path : Path} (allowed : tree.allowDirectory path = .ok tree') : Keeps location tree tree' := by
  unfold Tree.allowDirectory at allowed
  split at allowed
  · rename_i made
    cases allowed
    exact makeDirectory made
  · split at allowed
    · cases allowed
      exact refl location tree
    · cases allowed

theorem ensureDirectory {path : Path} (ensured : tree.ensureDirectory path = .ok tree') :
    Keeps location tree tree' := by
  fun_induction Tree.ensureDirectory tree path generalizing tree' with
  | case1 path made isMade =>
    cases ensured
    exact makeDirectory isMade
  | case2 => cases ensured
  | case3 path missing root parent isEnsured ih => exact (ih isEnsured).trans (allowDirectory ensured)
  | case4 => cases ensured
  | case5 path fault other isThere =>
    cases ensured
    exact refl location tree
  | case6 => cases ensured

/-- A file is written where it does not replace one below the location. A directory cannot be written. -/
theorem write {path : Path} {content : Bytes} (written : tree.write path content = .ok tree')
    (isDirectory : tree.entry? location = some .directory)
    (outside : ∀ goal, tree.locate path = .ok goal → location <+: goal → goal = location) :
    Keeps location tree tree' := by
  unfold Tree.write at written
  split at written
  · cases written
  · rename_i goal leads
    split at written
    · cases written
    · cases written
      exact refl location tree
    · rename_i noDirectory _
      cases written
      refine put noDirectory fun isBelow => ?_
      rw [outside goal leads isBelow] at noDirectory
      contradiction

/-- A copy is a file that is written, to its target or into the directory that this is. -/
theorem copy {source target : Path} (copied : tree.copy source target = .ok tree')
    (isDirectory : tree.entry? location = some .directory)
    (outside : ∀ path ∈ [target, target.below [source.name]], ∀ goal, tree.locate path = .ok goal →
      location <+: goal → goal = location) : Keeps location tree tree' := by
  have candidate : (if tree.isDirectory target then target.below [source.name] else target) ∈
      [target, target.below [source.name]] := by
    split
    · exact List.mem_cons_of_mem _ List.mem_cons_self
    · exact List.mem_cons_self
  unfold Tree.copy at copied
  dsimp only at copied
  generalize (if tree.isDirectory target then target.below [source.name] else target) = path at candidate copied
  split at copied
  · cases copied
  · split at copied
    · cases copied
    · exact write copied isDirectory (outside path candidate)

end Keeps

/-- A file that is listed below a directory is there, under names that stand for themselves. -/
theorem mem_filesIn (sound : tree.IsSound) {path : Path} {files : List (List Text)}
    (listed : tree.filesIn path = .ok files) (leads : tree.locate path = .ok location)
    (isDirectory : tree.entry? location = some .directory) {names : List Text} (member : names ∈ files) :
    names ≠ [] ∧ names.all isName = true := by
  have isBelow : names ∈ tree.namesBelow location Entry.isFile := by
    rw [filesIn, leads] at listed
    cases accepted : (tree.namesBelow location (· == .directory)).forM fun names => (path.below names).accept with
    | error fault =>
      simp only [bind, Except.bind, accepted] at listed
      cases listed
    | ok _ =>
      simp only [bind, Except.bind, accepted] at listed
      cases listed
      exact member
  obtain ⟨⟨other, entry⟩, isListed, same⟩ := List.mem_filterMap.mp ((List.mergeSort_perm _ _).mem_iff.mp isBelow)
  rw [Option.ite_none_right_eq_some, Bool.and_eq_true_iff, Option.some.injEq] at same
  obtain ⟨⟨isFile, isPrefix⟩, rfl⟩ := same
  obtain ⟨rest, rfl⟩ := List.isPrefixOf_iff_prefix.mp isPrefix
  rw [List.drop_left]
  refine ⟨?_, ?_⟩
  · rintro rfl
    have found := sound.found _ isListed
    rw [List.append_nil, isDirectory] at found
    cases found
    cases isFile
  · have areNames := sound.names _ isListed
    rw [List.all_append, Bool.and_eq_true] at areNames
    exact areNames.2

end Tree

end StaticStyle.File
