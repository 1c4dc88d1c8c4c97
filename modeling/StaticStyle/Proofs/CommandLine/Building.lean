import StaticStyle.CommandLine.Build
import StaticStyle.Proofs.CommandLine.Checking
import StaticStyle.Proofs.File.Tree

/-!
What a build comes to. It goes through the files of a directory one after another and stops at the first one that is
refused. As long as none of its files is written into the directory, each of them is as it was when its turn comes, and
it is judged as if it were compiled alone.
-/

namespace StaticStyle.CommandLine

open File (Location Path Tree)
open Session (NoClash RulesOf isRefusal)

/-- A build into a target of a directory that is found at a location, and whose files are given by their names. -/
structure Apart (tree : Tree) (source target : Text) (location : Location) (files : List (List Text)) : Prop where
  sound : tree.IsSound
  leads : tree.locate (Path.ofText source) = .ok location
  isDirectory : tree.entry? location = some .directory
  listed : tree.filesIn (Path.ofText source) = .ok files
  /-- No file is written back into the directory. -/
  outside : ∀ names ∈ files, ¬location <+: tree.place (Path.ofText target) ++ names

variable {config : Config} {tree : Tree} {source target : Text} {location : Location} {files : List (List Text)}
  {names sources : List Text} {console : Console}

namespace Apart

theorem isName (apart : Apart tree source target location files) (member : names ∈ files) :
    names ≠ [] ∧ names.all File.isName = true :=
  Tree.mem_filesIn apart.sound apart.listed apart.leads apart.isDirectory member

theorem location_eq (apart : Apart tree source target location files) :
    location = tree.place (Path.ofText source) := by
  have leads : tree.locate ((Path.ofText source).below []) = .ok location := by
    rw [Path.below, List.append_nil]
    exact apart.leads
  rw [Tree.eq_place_of_locate apart.sound.here rfl leads, List.append_nil]

/-- What a file that is written below the target replaces lies outside of the directory, or it is the directory itself.
A copy may go one name further down. -/
theorem outside_of_locate (apart : Apart tree source target location files)
    (keeps : Tree.Keeps location tree console.tree) (member : names ∈ files) :
    ∀ path ∈ [(Path.ofText target).below names,
        ((Path.ofText target).below names).below [((Path.ofText source).below names).name]],
      ∀ goal, console.tree.locate path = .ok goal → location <+: goal → goal = location := by
  obtain ⟨some, areNames⟩ := apart.isName member
  have samePlace : console.tree.place (Path.ofText target) = tree.place (Path.ofText target) := by
    simp only [Tree.place, Tree.start, keeps.here]
  have here : console.tree.here.all File.isName = true := keeps.here ▸ apart.sound.here
  rw [List.forall_mem_cons, List.forall_mem_singleton]
  refine ⟨fun goal leads isBelow => ?_, fun goal leads isBelow => ?_⟩
  · rw [Tree.eq_place_of_locate here areNames leads, samePlace] at isBelow
    exact absurd isBelow (apart.outside names member)
  · have further : ((Path.ofText target).below names).below [((Path.ofText source).below names).name] =
        (Path.ofText target).below (names ++ [names.getLast some]) := by
      rw [Path.name_below _ some]
      simp only [Path.below, List.append_assoc]
    have allNames : (names ++ [names.getLast some]).all File.isName = true := by
      rw [List.all_eq_true] at areNames ⊢
      exact List.forall_mem_append.mpr ⟨areNames, List.forall_mem_singleton.mpr (areNames _ (List.getLast_mem some))⟩
    have atGoal := Tree.eq_place_of_locate here allNames (further ▸ leads)
    rw [samePlace, ← List.append_assoc] at atGoal
    rw [atGoal] at isBelow ⊢
    exact ((List.prefix_concat_iff.mp isBelow).resolve_right (apart.outside names member)).symm

/-- A file of the directory that could be read at the beginning has still the same text. -/
theorem textAt?_eq (apart : Apart tree source target location files)
    (keeps : Tree.Keeps location tree console.tree) (member : names ∈ files) {text : Text}
    (read : Work.textAt? tree ((Path.ofText source).below names) = some text) :
    Work.textAt? console.tree ((Path.ofText source).below names) = some text := by
  cases content : tree.read ((Path.ofText source).below names) with
  | error fault => simp [Work.textAt?, content, Except.toOption] at read
  | ok bytes =>
    cases leads : tree.locate ((Path.ofText source).below names) with
    | error fault => simp [Tree.read, leads] at content
    | ok goal =>
      have atGoal := Tree.eq_place_of_locate apart.sound.here (apart.isName member).2 leads
      rw [← apart.location_eq] at atGoal
      rw [Work.textAt?, keeps.read leads (atGoal ▸ List.prefix_append _ _) content, ← content]
      exact read

end Apart

/-- The site of a build. No line that loads the style sheet is put into a file. -/
def siteOf (config : Config) (source target : Text) : Site :=
  ⟨{ config with injectsImport := false }, Path.ofText source, Path.ofText target⟩

/-- Whether one of the files is handled, and refused when it is compiled alone. -/
def AnyRefused (config : Config) (tree : Tree) (source : Path) (files : List (List Text)) : Prop :=
  ∃ names ∈ files, isHandled config (source.below names) = true ∧
    isRefusedAlone config tree (source.below names) = true

theorem anyRefused_iff (source : Path) : AnyRefused config tree source files ↔
    (handledFiles config source files).countP (isRefusedAlone config tree) ≠ 0 := by
  rw [← Nat.pos_iff_ne_zero, List.countP_pos_iff]
  constructor
  · rintro ⟨names, member, isHandled, isRefused⟩
    exact ⟨_, (mem_handledFiles source).mpr ⟨names, member, isHandled, rfl⟩, isRefused⟩
  · rintro ⟨path, member, isRefused⟩
    obtain ⟨names, listed, isHandled, rfl⟩ := (mem_handledFiles source).mp member
    exact ⟨names, listed, isHandled, isRefused⟩

/-- What holds in a build behind some of the files. -/
structure Built (config : Config) (tree : Tree) (location : Location) (sources : List Text) (source : Path)
    (before : List (List Text)) (progress : Progress) (console : Console) : Prop where
  keeps : Tree.Keeps location tree console.tree
  registered : RulesOf config sources progress.session.registry
  noneRefused : ¬AnyRefused config tree source before

section File

variable {before : List (List Text)} {progress : Progress}

/-- One more file is not refused. -/
theorem Built.next {source : Path} (built : Built config tree location sources source before progress console)
    {tree' : Tree} {progress' : Progress} {output errors : Text} (keeps : Tree.Keeps location console.tree tree')
    (registered : RulesOf config sources progress'.session.registry)
    (accepted : isHandled config (source.below names) = true →
      isRefusedAlone config tree (source.below names) = false) :
    Built config tree location sources source (before ++ [names]) progress'
      ⟨tree', output, errors, console.isVerbose⟩ := by
  refine ⟨built.keeps.trans keeps, registered, ?_⟩
  rintro ⟨other, member, isHandled, isRefused⟩
  rcases List.mem_append.mp member with earlier | last
  · exact built.noneRefused ⟨other, earlier, isHandled, isRefused⟩
  · rw [List.mem_singleton.mp last] at isHandled isRefused
    rw [accepted isHandled] at isRefused
    cases isRefused

theorem ensures_compileFile (apart : Apart tree source target location files) (noClash : NoClash config sources)
    (built : Built config tree location sources (Path.ofText source) before progress console) (member : names ∈ files)
    (isHandled : isHandled config ((Path.ofText source).below names) = true) {text : Text} (isSource : text ∈ sources)
    (read : Work.textAt? tree ((Path.ofText source).below names) = some text) :
    Work.Ensures ((siteOf config source target).compileFile progress names) console
      (Built config tree location sources (Path.ofText source) (before ++ [names]))
      (fun _ => AnyRefused config tree (Path.ofText source) files) := by
  have some := (apart.isName member).1
  have alone : isRefusedAlone config tree ((Path.ofText source).below names) = isRefusal
      (progress.session.transform { config with injectsImport := false } (Text.join "/" names) text).result := by
    have handled := handles_of_isHandled isHandled
    refine isRefusedAlone_eq noClash built.registered read isSource ?_ ?_ false
    · exact Config.handles_of_suffix (Path.name_suffix_text (List.append_ne_nil_of_right_ne_nil _ some)) handled
    · rw [Path.name_below _ some] at handled
      exact Config.handles_of_suffix (Text.getLast_suffix_join _ some) handled
  refine .bind (Work.ensures_readText fun current readNow => ?_)
  obtain rfl : text = current := Option.some.inj ((apart.textAt?_eq built.keeps member read).symm.trans readNow)
  refine .bind (Work.ensures_compile fun notices noDefect => ?_)
  split
  · rename_i refusal refused
    refine Work.ensures_refuse fun _ => ⟨names, member, isHandled, alone.trans ((congrArg isRefusal refused).trans ?_)⟩
    rw [isRefusal, noDefect refusal refused]
    rfl
  · rename_i output compiled
    have registered : RulesOf { config with injectsImport := false } sources progress.session.registry :=
      built.registered
    refine .bind (Work.ensures_writeText fun content tree' written => Work.ensures_pure ?_)
    refine built.next (Tree.Keeps.write written (built.keeps.directory _ apart.isDirectory) ?_)
      (Session.transform_rulesOf registered _ isSource) fun _ => alone.trans (congrArg isRefusal compiled)
    exact apart.outside_of_locate built.keeps member _ List.mem_cons_self

theorem ensures_copyFile (apart : Apart tree source target location files)
    (built : Built config tree location sources (Path.ofText source) before progress console) (member : names ∈ files)
    (ignored : isHandled config ((Path.ofText source).below names) = false) {fails : Console → Prop} :
    Work.Ensures ((siteOf config source target).copyFile progress names) console
      (Built config tree location sources (Path.ofText source) (before ++ [names])) fails := by
  refine .bind (Work.ensures_change fun tree' copied => ?_)
  have keeps : Tree.Keeps location console.tree tree' := Tree.Keeps.copy copied
    (built.keeps.directory _ apart.isDirectory) (apart.outside_of_locate built.keeps member)
  have accepted (handled : isHandled config ((Path.ofText source).below names) = true) :
      isRefusedAlone config tree ((Path.ofText source).below names) = false := by
    rw [ignored] at handled
    cases handled
  split
  · exact .bind (Work.ensures_readText fun markup _ => Work.ensures_pure (built.next keeps built.registered accepted))
  · exact Work.ensures_pure (built.next keeps built.registered accepted)

theorem ensures_siteFile (apart : Apart tree source target location files) (noClash : NoClash config sources)
    (built : Built config tree location sources (Path.ofText source) before progress console) (member : names ∈ files)
    (readable : isHandled config ((Path.ofText source).below names) = true →
      ∃ text ∈ sources, Work.textAt? tree ((Path.ofText source).below names) = some text) :
    Work.Ensures ((siteOf config source target).addFile progress names) console
      (Built config tree location sources (Path.ofText source) (before ++ [names]))
      (fun _ => AnyRefused config tree (Path.ofText source) files) := by
  refine .bind (Work.ensures_change fun tree' ensured => .bind (Work.ensures_usable fun handled handles => ?_))
  have built : Built config tree location sources (Path.ofText source) before progress { console with tree := tree' } :=
    ⟨built.keeps.trans (Tree.Keeps.ensureDirectory ensured), built.registered, built.noneRefused⟩
  have verdict : isHandled config ((Path.ofText source).below names) = handled := by
    have some := (apart.isName member).1
    rw [Path.name_below _ some, ← Path.name_below (Path.ofText source) some] at handles
    exact congrArg (fun outcome => outcome.toOption.getD false) handles
  cases handled with
  | true =>
    obtain ⟨text, isSource, read⟩ := readable verdict
    exact ensures_compileFile apart noClash built member verdict isSource read
  | false => exact ensures_copyFile apart built member verdict

end File

/-- What a build comes to. It fails if and only if a file is refused when it is compiled alone. -/
theorem ensures_build (console : Console) (asset : Text) {named : Option Text}
    (apart : Apart console.tree source target location files) (loaded : Work.configIn console.tree named = .ok config)
    (noClash : NoClash config sources)
    (readable : ∀ names ∈ files, isHandled config ((Path.ofText source).below names) = true →
      ∃ text ∈ sources, Work.textAt? console.tree ((Path.ofText source).below names) = some text) :
    Work.Ensures (build source target none asset named) console
      (fun _ _ => ¬AnyRefused config console.tree (Path.ofText source) files)
      (fun _ => AnyRefused config console.tree (Path.ofText source) files) := by
  refine .bind (Work.ensures_loadConfig loaded (.bind (Work.ensures_pure (.bind (Work.ensures_tree ?_)))))
  refine .bind (Work.ensures_ofFile fun listed isListed => ?_)
  cases apart.listed.symm.trans isListed
  refine .bind (.imp (Work.ensures_forM (· = console) ?_ rfl) ?_)
  · rintro names _ _ rfl
    exact Work.ensures_ofFile fun _ _ => rfl
  rintro _ console rfl
  have start : Built config console.tree location sources (Path.ofText source) [] ⟨.empty none, 0, [], []⟩ console :=
    ⟨.refl location console.tree, by simp [RulesOf, Session.empty], by simp [AnyRefused]⟩
  refine .bind (.imp (Work.ensures_foldlM ?_ start) fun progress later built => ?_)
  · intro before names after progress later same built
    have member : names ∈ files := by
      rw [same]
      exact List.mem_append_right _ List.mem_cons_self
    exact ensures_siteFile apart noClash built member (readable names member)
  · -- Behind the files nothing is refused any more.
    refine .bind (Work.ensures_log fun _ => .bind (Work.ensures_change fun _ _ => ?_))
    refine .bind (Work.ensures_writeText fun _ _ _ => .bind (.imp (Work.ensures_forM (fun _ => True) ?_ trivial) ?_))
    · exact fun page _ _ _ => .bind (Work.ensures_tree (.bind (Work.ensures_readText fun _ _ =>
        Work.ensures_writeText fun _ _ _ => trivial)))
    · exact fun _ _ _ => .bind (Work.ensures_say (Work.ensures_say built.noneRefused))

end StaticStyle.CommandLine
