import StaticStyle.CommandLine.Report
import StaticStyle.Proofs.CommandLine.Work
import StaticStyle.Proofs.File.Path

/-!
What a check reports. Each file below a directory is judged as if it were compiled alone, since a file that is refused
leaves nothing behind and one that is compiled leaves only rules that others would compile to the same.
-/

namespace StaticStyle

open File (Path Tree)

/-- A text with an ending that is handled is handled with whatever in front of it. -/
theorem Config.handles_of_suffix {config : Config} {ending text : Text} (isSuffix : ending <:+ text)
    (handled : config.handles ending = .ok true) : config.handles text = .ok true := by
  unfold Config.handles at *
  generalize config.extensions = extensions at handled ⊢
  induction extensions with
  | nil => cases handled
  | cons extension rest ih =>
    cases extension with
    | error defect => cases handled
    | ok extension =>
      rw [endsWithAny] at handled ⊢
      split at handled
      · rename_i ends
        exact if_pos (List.isSuffixOf_iff_suffix.mpr ((List.isSuffixOf_iff_suffix.mp ends).trans isSuffix))
      · split
        · rfl
        · exact ih handled

namespace CommandLine

open Session (NoClash RulesOf isRefusal)

/-- Whether a path has the name of a file that is handled. -/
def isHandled (config : Config) (path : Path) : Bool := (config.handles path.name).toOption.getD false

theorem handles_of_isHandled {config : Config} {path : Path} (isHandled : isHandled config path = true) :
    config.handles path.name = .ok true := by
  unfold CommandLine.isHandled at isHandled
  cases handles : config.handles path.name with
  | error defect => simp [handles, Except.toOption] at isHandled
  | ok handled => simpa [handles, Except.toOption] using isHandled

/-- Whether the file at a path is refused if it is compiled alone. -/
def isRefusedAlone (config : Config) (tree : Tree) (path : Path) : Bool :=
  (Work.textAt? tree path).any fun text => isRefusal ((Session.empty none).transform config path.text text).result

/-- The files below a directory that are handled. -/
def handledFiles (config : Config) (source : Path) (files : List (List Text)) : List Path :=
  (files.map source.below).filter (isHandled config)

theorem mem_handledFiles {config : Config} (source : Path) {files : List (List Text)} {path : Path} :
    path ∈ handledFiles config source files ↔
      ∃ names ∈ files, isHandled config (source.below names) = true ∧ source.below names = path := by
  rw [handledFiles, List.mem_filter, List.mem_map]
  constructor
  · rintro ⟨⟨names, member, rfl⟩, isHandled⟩
    exact ⟨names, member, isHandled, rfl⟩
  · rintro ⟨names, member, isHandled, rfl⟩
    exact ⟨⟨names, member, rfl⟩, isHandled⟩

/-- The last line of a check. -/
def summaryLine (files classes errors warnings : Nat) : Text :=
  "Summary: " ++ Text.ofNat files ++ " file(s), " ++ Text.ofNat classes ++ " class(es), " ++ Text.ofNat errors ++
    " error(s), " ++ Text.ofNat warnings ++ " warning(s)"

/-- A console on which the summary of a check stands at the end of the output. -/
def Summarizes (files errors : Nat) (console : Console) : Prop :=
  ∃ before classes warnings,
    console.output = before ++ (summaryLine files classes errors warnings ++ [.char '\n'])

theorem dropControls_of_notMem {text : Text} (absent : (.char '\x1b') ∉ text) : dropControls text = text := by
  induction text with
  | nil => rw [dropControls]
  | cons c text ih =>
    rw [List.mem_cons, not_or] at absent
    have noControl : controlLength? (c :: text) = none := by
      unfold controlLength?
      split
      · rename_i isControl
        exact absurd (List.cons.inj isControl).1.symm absent.1
      · rfl
    rw [dropControls, noControl, ih absent.2]

theorem dropControls_summaryLine (files classes errors warnings : Nat) :
    dropControls (summaryLine files classes errors warnings) = summaryLine files classes errors warnings := by
  have number (n : Nat) : (.char '\x1b') ∉ Text.ofNat n := by
    intro member
    obtain ⟨digit, isDigit, same⟩ := List.mem_map.mp member
    cases same
    exact absurd (Nat.isDigit_of_mem_toDigits (by omega) (by omega) isDigit) (by decide)
  refine dropControls_of_notMem ?_
  simp only [summaryLine, List.mem_append, number, or_false, not_or]
  decide

variable {config : Config} {tree : Tree} {sources : List Text} {console : Console} {fails : Console → Prop}

/-- A file is refused alone if it is refused by a session that has compiled others, under another path or without the
line that loads the style sheet. -/
theorem isRefusedAlone_eq (noClash : NoClash config sources) {session : Session}
    (registered : RulesOf config sources session.registry) {path : Path} {text : Text}
    (read : Work.textAt? tree path = some text) (member : text ∈ sources)
    (handled : config.handles path.text = .ok true) {other : Text} (handledOther : config.handles other = .ok true)
    (injectsImport : Bool) :
    isRefusedAlone config tree path =
      isRefusal (session.transform { config with injectsImport } other text).result := by
  rw [isRefusedAlone, read, Option.any_some]
  have start : RulesOf config sources (Session.empty none).registry := by simp [RulesOf, Session.empty]
  exact (Session.isRefusal_transform_eq noClash registered start member handledOther handled injectsImport).symm

/-- What holds in a check behind some of the files. -/
structure Checked (config : Config) (tree : Tree) (sources : List Text) (before : List Path) (tally : Tally)
    (console : Console) : Prop where
  sameTree : console.tree = tree
  registered : RulesOf config sources tally.session.registry
  errors : tally.errors = before.countP (isRefusedAlone config tree)
  readable : ∀ path ∈ before, (Work.textAt? tree path).isSome

theorem ensures_addFile (noClash : NoClash config sources) {before : List Path} {tally : Tally} {path : Path}
    (checked : Checked config tree sources before tally console)
    (isSource : ∀ text, Work.textAt? tree path = some text → text ∈ sources)
    (handled : config.handles path.text = .ok true) :
    Work.Ensures (tally.addFile config path) console (Checked config tree sources (before ++ [path])) fails := by
  obtain ⟨sameTree, registered, counted, readable⟩ := checked
  refine .bind (Work.ensures_readText fun text read => ?_)
  rw [sameTree] at read
  refine .bind (Work.ensures_compile fun notices noDefect => ?_)
  have member := isSource text read
  have alone : isRefusedAlone config tree path =
      isRefusal (tally.session.transform config path.text text).result :=
    isRefusedAlone_eq noClash registered read member handled handled config.injectsImport
  have next {found errors warnings : Nat} {later : Console} (sameTree : later.tree = tree)
      (isFound : found = if isRefusedAlone config tree path then 1 else 0) (adds : errors = tally.errors + found) :
      Checked config tree sources (before ++ [path])
        ⟨(tally.session.transform config path.text text).session, errors, warnings⟩ later := by
    refine ⟨sameTree, Session.transform_rulesOf registered path.text member, ?_, ?_⟩
    · rw [adds, counted, isFound, List.countP_append, List.countP_singleton]
    · refine List.forall_mem_append.mpr ⟨readable, List.forall_mem_singleton.mpr ?_⟩
      rw [read]
      rfl
  cases result : (tally.session.transform config path.text text).result with
  | error refusal =>
    refine .bind (Work.ensures_say (Work.ensures_pure (next sameTree ?_ rfl)))
    rw [alone, result, isRefusal, noDefect refusal result]
    rfl
  | ok output =>
    have noErrors : ((output.map Session.Output.diagnostics).getD []).countP Diagnostic.isError = 0 := by
      cases output with
      | none => rfl
      | some output =>
        refine List.countP_eq_zero.mpr fun diagnostic member => ?_
        rw [Session.isError_of_transform result member]
        exact Bool.false_ne_true
    refine .bind (.imp (Work.ensures_forM (fun later => later.tree = tree) ?_ sameTree) ?_)
    · exact fun finding _ later sameTree => Work.ensures_say sameTree
    · intro _ later sameTree
      refine Work.ensures_pure (next sameTree ?_ (congrArg (tally.errors + ·) noErrors))
      rw [alone, result]
      rfl

theorem ensures_checkedFiles {source : Path} {files : List (List Text)}
    (isDirectory : console.tree.isDirectory source = true) (listed : console.tree.filesIn source = .ok files) :
    Work.Ensures (checkedFiles config source) console
      (fun paths later => paths = handledFiles config source files ∧ later = console) fails := by
  have noFile : console.tree.isFile source = false := by
    rw [Tree.isDirectory, beq_iff_eq] at isDirectory
    rw [Tree.isFile, isDirectory]
    rfl
  refine .bind (Work.ensures_tree ?_)
  rw [noFile, listed]
  refine Work.ensures_filterM fun path => .bind (Work.ensures_ofFile fun _ _ => ?_)
  refine Work.ensures_usable fun kept handles => ?_
  rw [isHandled, handles]
  exact ⟨rfl, rfl⟩

/-- What a check of a directory comes to. It fails if there are files that are refused when they are compiled alone, and
the number of these is what it reports. -/
theorem ensures_check (console : Console) {source : Text} {named : Option Text} {files : List (List Text)}
    (isDirectory : console.tree.isDirectory (Path.ofText source) = true)
    (listed : console.tree.filesIn (Path.ofText source) = .ok files) (nonempty : ∀ names ∈ files, names ≠ [])
    (loaded : Work.configIn console.tree named = .ok config)
    (noClash : NoClash config
      ((handledFiles config (Path.ofText source) files).filterMap (Work.textAt? console.tree))) :
    let handled := handledFiles config (Path.ofText source) files
    let refused := handled.countP (isRefusedAlone config console.tree)
    Work.Ensures (check source named) console
      (fun _ later => Summarizes handled.length refused later ∧ refused = 0 ∧
        ∀ path ∈ handled, (Work.textAt? console.tree path).isSome)
      (fun later => Summarizes handled.length refused later ∧ refused ≠ 0 ∧
        ∀ path ∈ handled, (Work.textAt? console.tree path).isSome) := by
  intro handled refused
  refine .bind (Work.ensures_loadConfig loaded ?_)
  refine .bind ((ensures_checkedFiles isDirectory listed).imp ?_)
  rintro _ console ⟨rfl, rfl⟩
  have start : Checked config console.tree (handled.filterMap (Work.textAt? console.tree)) [] ⟨.empty none, 0, 0⟩
      console := ⟨rfl, by simp [RulesOf, Session.empty], rfl, nofun⟩
  refine .bind (.imp (Work.ensures_foldlM ?_ start) fun tally later checked => ?_)
  · intro before path after tally later same checked
    have member : path ∈ handled := by
      change path ∈ handledFiles config (Path.ofText source) files
      rw [same]
      exact List.mem_append_right _ List.mem_cons_self
    obtain ⟨names, listed, isHandled, rfl⟩ := (mem_handledFiles _).mp member
    refine ensures_addFile noClash checked (fun text read => List.mem_filterMap.mpr ⟨_, member, read⟩) ?_
    refine Config.handles_of_suffix (File.Path.name_suffix_text ?_) (handles_of_isHandled isHandled)
    exact List.append_ne_nil_of_right_ne_nil _ (nonempty names listed)
  · have counted : tally.errors = refused := checked.errors
    refine .bind (Work.ensures_say (.bind (Work.ensures_say ?_)))
    have summarizes (output : Text) : Summarizes handled.length refused { later with
        output := output ++ (dropControls (summaryLine handled.length tally.session.registry.length tally.errors
          tally.warnings) ++ [.char '\n']) } :=
      ⟨output, tally.session.registry.length, tally.warnings, by rw [dropControls_summaryLine, counted]⟩
    split
    · rename_i some
      exact ⟨summarizes _, counted ▸ some, checked.readable⟩
    · rename_i none
      exact ⟨summarizes _, counted ▸ not_ne_iff.mp none, checked.readable⟩

end CommandLine

end StaticStyle
