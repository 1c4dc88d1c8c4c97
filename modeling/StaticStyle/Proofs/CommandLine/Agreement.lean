import StaticStyle.CommandLine.Run
import StaticStyle.Proofs.CommandLine.Building

/-!
A check and a build of one directory. The build stops at the first file that is refused, the check counts them all, and
both judge a file alike. This rests on the files of the directory being as they were when their turn comes, so the build
must write none of its files into the directory.
-/

namespace StaticStyle.CommandLine

open File (Location Path Tree)
open Session (NoClash)

theorem Job.ending_eq (job : Job) (isVerbose : Bool) (tree : Tree) :
    (job.run isVerbose tree).ending = match (job.work.on ⟨tree, [], [], isVerbose⟩).1 with
      | .ok () => .finished
      | .error ending => ending := rfl

/-- How a job ends that does not break off, by what is ensured of its work. -/
theorem Job.run_of_ensures (job : Job) {tree : Tree} {isVerbose : Bool} {good fails : Console → Prop}
    (ensures : Work.Ensures job.work ⟨tree, [], [], isVerbose⟩ (fun _ => good) fails)
    (unbroken : ∀ reason, (job.run isVerbose tree).ending ≠ .broken reason) :
    ∃ console, (job.run isVerbose tree).output = console.output ∧
      ((job.run isVerbose tree).ending = .finished ∧ good console ∨
        (job.run isVerbose tree).ending = .failed ∧ fails console) := by
  have output : (job.run isVerbose tree).output = (job.work.on ⟨tree, [], [], isVerbose⟩).2.output := rfl
  rw [Job.ending_eq] at unbroken ⊢
  rw [output]
  unfold Work.Ensures at ensures
  revert ensures unbroken
  rcases job.work.on ⟨tree, [], [], isVerbose⟩ with ⟨ending | ⟨⟩, console⟩
  · cases ending with
    | failed => exact fun fails _ => ⟨console, rfl, .inr ⟨rfl, fails⟩⟩
    | broken reason => exact fun _ unbroken => absurd rfl (unbroken reason)
    | _ => exact fun impossible _ => impossible.elim
  · exact fun good _ => ⟨console, rfl, .inl ⟨rfl, good⟩⟩

/-- A check and a build of a directory, neither of which breaks off. The check reports as many errors as there are
handled files that are refused when they are compiled alone, it fails exactly if there are any, and the build fails
exactly if the check does. -/
theorem check_and_build_agree {tree : Tree} {source target asset : Text} {named : Option Text} {config : Config}
    {location : Location} {files : List (List Text)} {isVerbose isVerbose' : Bool}
    (apart : Apart tree source target location files) (loaded : Work.configIn tree named = .ok config)
    (noClash : NoClash config ((handledFiles config (Path.ofText source) files).filterMap (Work.textAt? tree)))
    (checks : ∀ reason, ((Job.check source named).run isVerbose tree).ending ≠ .broken reason)
    (builds : ∀ reason, ((Job.build source target none asset named).run isVerbose' tree).ending ≠ .broken reason) :
    let handled := handledFiles config (Path.ofText source) files
    let refused := handled.countP (isRefusedAlone config tree)
    let checked := (Job.check source named).run isVerbose tree
    let built := (Job.build source target none asset named).run isVerbose' tree
    (∃ before classes warnings,
      checked.output = before ++ (summaryLine handled.length classes refused warnings ++ [.char '\n'])) ∧
    (checked.ending.code = 1 ↔ refused ≠ 0) ∧ (built.ending.code = 1 ↔ checked.ending.code = 1) := by
  intro handled refused checked built
  have isDirectory : tree.isDirectory (Path.ofText source) = true := by
    rw [Tree.isDirectory, Tree.find?, apart.leads]
    exact beq_iff_eq.mpr apart.isDirectory
  have checking := ensures_check ⟨tree, [], [], isVerbose⟩ isDirectory apart.listed
    (fun names member => (apart.isName member).1) loaded noClash
  obtain ⟨console, output, ends⟩ := Job.run_of_ensures (.check source named) checking checks
  have readable : ∀ path ∈ handled, (Work.textAt? tree path).isSome := by
    rcases ends with ⟨-, -, -, readable⟩ | ⟨-, -, -, readable⟩ <;> exact readable
  have summarizes : Summarizes handled.length refused console := by
    rcases ends with ⟨-, summarizes, -⟩ | ⟨-, summarizes, -⟩ <;> exact summarizes
  have checkCode : checked.ending.code = 1 ↔ refused ≠ 0 := by
    rcases ends with ⟨isFinished, -, none, -⟩ | ⟨hasFailed, -, some, -⟩
    · exact iff_of_false (by rw [isFinished]; decide) (not_ne_iff.mpr none)
    · exact iff_of_true (by rw [hasFailed]; decide) some
  have building := ensures_build ⟨tree, [], [], isVerbose'⟩ asset apart loaded noClash fun names member isHandled => by
    have among := (mem_handledFiles (Path.ofText source)).mpr ⟨names, member, isHandled, rfl⟩
    obtain ⟨text, read⟩ := Option.isSome_iff_exists.mp (readable _ among)
    exact ⟨text, List.mem_filterMap.mpr ⟨_, among, read⟩, read⟩
  obtain ⟨console', -, ends'⟩ := Job.run_of_ensures (.build source target none asset named) building builds
  have buildCode : built.ending.code = 1 ↔ AnyRefused config tree (Path.ofText source) files := by
    rcases ends' with ⟨isFinished, noneRefused⟩ | ⟨hasFailed, isRefused⟩
    · exact iff_of_false (by rw [isFinished]; decide) noneRefused
    · exact iff_of_true (by rw [hasFailed]; decide) isRefused
  obtain ⟨before, classes, warnings, summary⟩ := summarizes
  refine ⟨⟨before, classes, warnings, output.trans summary⟩, checkCode, ?_⟩
  rw [buildCode, checkCode, anyRefused_iff]

/-- A directory with a file, and an empty file of the same name below a directory of the same name. -/
def overlapping : Tree where
  here := ["work"]
  entries := [(["work"], .directory), (["work", "src"], .directory), (["work", "src", "src"], .directory),
    (["work", "src", "src", "z.tsx"], .file []),
    (["work", "src", "z.tsx"], .file ((Text.Utf8.encode? "<p zx=\x7ba\x7d />").getD []))]

theorem overlapping_files : overlapping.filesIn (Path.ofText "src") = .ok [["src", "z.tsx"], ["z.tsx"]] := by
  have leads : overlapping.locate (Path.ofText "src") = .ok ["work", "src"] := rfl
  have below : overlapping.namesBelow ["work", "src"] (· == .directory) = ([[], ["src"]] : List (List Text)) :=
    List.mergeSort_of_pairwise (by decide +kernel)
  have files : overlapping.namesBelow ["work", "src"] File.Entry.isFile =
      ([["src", "z.tsx"], ["z.tsx"]] : List (List Text)) :=
    List.mergeSort_of_pairwise (by decide +kernel)
  simp only [Tree.filesIn, leads, bind, Except.bind, below, files]
  rfl

theorem overlapping_check : ((Job.check "src" none).run false overlapping).ending = .failed := by
  have loaded : (Work.loadConfig none).on ⟨overlapping, [], [], false⟩ =
      (.ok .standard, ⟨overlapping, [], [], false⟩) := rfl
  have listed : (checkedFiles .standard (Path.ofText "src")).on ⟨overlapping, [], [], false⟩ =
      (.ok [⟨[], ["src", "src", "z.tsx"]⟩, ⟨[], ["src", "z.tsx"]⟩], ⟨overlapping, [], [], false⟩) :=
    (Work.on_bind_of_ok rfl).trans (by rw [overlapping_files]; rfl)
  have onward : (Job.check "src" none).work.on ⟨overlapping, [], [], false⟩ = _ :=
    (Work.on_bind_of_ok loaded).trans (Work.on_bind_of_ok listed)
  rw [Job.ending_eq, onward]
  decide +kernel

theorem overlapping_build :
    ((Job.build "src" "." none "style-zx.css" none).run false overlapping).ending = .finished ∧
      ((Job.build "src" "out" none "style-zx.css" none).run false overlapping).ending = .failed := by
  have loaded : (Work.loadConfig none).on ⟨overlapping, [], [], false⟩ =
      (.ok .standard, ⟨overlapping, [], [], false⟩) := rfl
  have listed : (Work.ofFile (overlapping.filesIn (Path.ofText "src"))).on ⟨overlapping, [], [], false⟩ =
      (.ok [["src", "z.tsx"], ["z.tsx"]], ⟨overlapping, [], [], false⟩) := by
    rw [overlapping_files]
    rfl
  have onward (target : Text) :
      (Job.build "src" target none "style-zx.css" none).work.on ⟨overlapping, [], [], false⟩ = _ :=
    (Work.on_bind_of_ok loaded).trans ((Work.on_bind_of_ok rfl).trans ((Work.on_bind_of_ok rfl).trans
      (Work.on_bind_of_ok listed)))
  rw [Job.ending_eq, Job.ending_eq, onward, onward]
  exact ⟨by decide +kernel, by decide +kernel⟩

theorem overlapping_isSound : overlapping.IsSound where
  here := by decide
  names := by decide +kernel
  found := by decide +kernel

theorem overlapping_noClash : NoClash .standard
    ((handledFiles .standard (Path.ofText "src") [["src", "z.tsx"], ["z.tsx"]]).filterMap
      (Work.textAt? overlapping)) := by
  have none : (((handledFiles .standard (Path.ofText "src") [["src", "z.tsx"], ["z.tsx"]]).filterMap
      (Work.textAt? overlapping)).flatMap (Session.declaredStyles .standard)).isEmpty = true := by
    decide +kernel
  intro style member
  rw [List.isEmpty_iff.mp none] at member
  cases member

/-- A build beside the directory fails with the check. -/
theorem check_and_build_agree_overlapping :
    (∃ before classes warnings, ((Job.check "src" none).run false overlapping).output =
      before ++ (summaryLine 2 classes 1 warnings ++ [.char '\n'])) ∧
    ((Job.build "src" "out" none "style-zx.css" none).run false overlapping).ending.code = 1 := by
  have apart : Apart overlapping "src" "out" ["work", "src"] [["src", "z.tsx"], ["z.tsx"]] :=
    ⟨overlapping_isSound, by decide +kernel, rfl, overlapping_files, by decide +kernel⟩
  obtain ⟨summary, checkCode, buildCode⟩ := check_and_build_agree apart rfl overlapping_noClash
    (fun reason => by rw [overlapping_check]; nofun) (fun reason => by rw [overlapping_build.2]; nofun)
  have counted : (handledFiles .standard (Path.ofText "src") [["src", "z.tsx"], ["z.tsx"]]).countP
      (isRefusedAlone .standard overlapping) = 1 := by
    decide +kernel
  rw [counted] at summary checkCode
  exact ⟨summary, buildCode.mpr (checkCode.mpr Nat.one_ne_zero)⟩

/-- A build into the directory above finds a file that it has replaced by an empty one, and has nothing to refuse. -/
theorem build_may_replace_sources :
    overlapping.IsSound ∧ overlapping.locate (Path.ofText "src") = .ok ["work", "src"] ∧
    overlapping.entry? ["work", "src"] = some .directory ∧
    overlapping.filesIn (Path.ofText "src") = .ok [["src", "z.tsx"], ["z.tsx"]] ∧
    Work.configIn overlapping none = .ok .standard ∧
    NoClash .standard ((handledFiles .standard (Path.ofText "src") [["src", "z.tsx"], ["z.tsx"]]).filterMap
      (Work.textAt? overlapping)) ∧
    ¬(["work", "src"] : Location) <+: overlapping.place (Path.ofText ".") ∧
    ((Job.check "src" none).run false overlapping).ending = .failed ∧
    ((Job.build "src" "." none "style-zx.css" none).run false overlapping).ending = .finished :=
  ⟨overlapping_isSound, by decide +kernel, rfl, overlapping_files, rfl, overlapping_noClash, by decide +kernel,
    overlapping_check, overlapping_build.1⟩

end StaticStyle.CommandLine
