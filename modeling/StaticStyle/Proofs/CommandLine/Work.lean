import StaticStyle.CommandLine.Load
import StaticStyle.Proofs.Session.Judgement

/-!
What is ensured of the work of a command. A statement about a part of the work is about its result and the console that
it leaves, and about the console where it tells its user what is wrong. Where a command breaks off nothing is said.
-/

namespace StaticStyle.CommandLine

open File (Path Tree)

namespace Work

variable {α β ι : Type}

/-- The result of a part of the work and the console behind it. -/
def on (work : Work α) (console : Console) : Except Ending α × Console := (work.run console).run

/-- A part of the work leads to a good result, or it ends the command with a message to its user where it may, or it
breaks off. -/
def Ensures (work : Work α) (console : Console) (good : α → Console → Prop) (fails : Console → Prop) : Prop :=
  match work.on console with
  | (.ok result, console) => good result console
  | (.error .failed, console) => fails console
  | (.error (.broken _), _) => True
  | (.error _, _) => False

variable {console : Console} {good good' : α → Console → Prop} {fails : Console → Prop}

theorem Ensures.imp {work : Work α} (ensures : Ensures work console good fails)
    (better : ∀ a console, good a console → good' a console) : Ensures work console good' fails := by
  unfold Ensures at *
  split <;> simp_all

theorem ensures_pure {a : α} (holds : good a console) : Ensures (pure a) console good fails := holds

theorem on_bind (work : Work α) (next : α → Work β) (console : Console) :
    (work >>= next).on console = match work.on console with
      | (.ok a, console) => (next a).on console
      | (.error ending, console) => (.error ending, console) := by
  change (match work.on console with
    | (result, console) => ((ExceptT.bindCont next result : StateM Console (Except Ending β)).run console).run) = _
  rcases work.on console with ⟨_ | _, _⟩ <;> rfl

theorem on_bind_of_ok {work : Work α} {next : α → Work β} {console later : Console} {a : α}
    (known : work.on console = (.ok a, later)) : (work >>= next).on console = (next a).on later := by
  rw [on_bind, known]

/-- Work is done one part behind the other. -/
theorem Ensures.bind {work : Work α} {next : α → Work β} {good : β → Console → Prop}
    (ensures : Ensures work console (fun a later => Ensures (next a) later good fails) fails) :
    Ensures (work >>= next) console good fails := by
  unfold Ensures at ensures ⊢
  rw [on_bind]
  revert ensures
  rcases work.on console with ⟨ending | a, console⟩
  · cases ending <;> exact id
  · exact id

theorem ensures_tree {good : Tree → Console → Prop} (holds : good console.tree console) :
    Ensures tree console good fails := holds

theorem ensures_refuse {message : Text}
    (mayFail : ∀ errors, fails { console with errors }) : Ensures (refuse message : Work α) console good fails :=
  mayFail _

theorem ensures_log {good : Unit → Console → Prop} {notices : List Notice}
    (holds : ∀ errors, good () { console with errors }) : Ensures (log notices) console good fails :=
  holds _

theorem ensures_say {good : Unit → Console → Prop} {line : Text}
    (holds : good () { console with output := console.output ++ (dropControls line ++ [.char '\n']) }) :
    Ensures (say line) console good fails := by
  unfold say
  dsimp only
  split
  · trivial
  · exact holds

theorem ensures_usable {outcome : Except Defect α} (holds : ∀ a, outcome = .ok a → good a console) :
    Ensures (usable outcome) console good fails := by
  cases outcome with
  | error defect => trivial
  | ok a => exact holds a rfl

theorem ensures_ofFile {outcome : Except File.Fault α} (holds : ∀ a, outcome = .ok a → good a console) :
    Ensures (ofFile outcome) console good fails := by
  cases outcome with
  | error fault => trivial
  | ok a => exact holds a rfl

theorem ensures_change {good : Unit → Console → Prop} {operation : Tree → Except File.Fault Tree}
    (holds : ∀ tree, operation console.tree = .ok tree → good () { console with tree }) :
    Ensures (change operation) console good fails := by
  refine .bind (ensures_tree ?_)
  exact .bind (ensures_ofFile fun tree changed => holds tree changed)

/-- The text in a file, if there is one. -/
def textAt? (tree : Tree) (path : Path) : Option Text :=
  ((tree.read path).toOption.bind Text.Utf8.decode?).map Text.unifyLineEnds

theorem ensures_readText {good : Text → Console → Prop} {path : Path}
    (holds : ∀ text, textAt? console.tree path = some text → good text console) :
    Ensures (readText path) console good fails := by
  refine .bind (ensures_tree (.bind (ensures_ofFile fun content read => ?_)))
  cases decoded : Text.Utf8.decode? content with
  | none => trivial
  | some text => exact holds _ (by simp [textAt?, read, Except.toOption, decoded])

theorem ensures_writeText {good : Unit → Console → Prop} {path : Path} {text : Text}
    (holds : ∀ content tree, console.tree.write path content = .ok tree → good () { console with tree }) :
    Ensures (writeText path text) console good fails := by
  unfold writeText
  cases Text.Utf8.encode? text with
  | none => exact .bind (ensures_change fun tree written => trivial)
  | some content => exact ensures_change fun tree written => holds content tree written

/-- What holds of the items gone through, with the result and the console so far. -/
theorem ensures_foldlM {step : β → ι → Work β} {invariant : List ι → β → Console → Prop} {items : List ι}
    (kept : ∀ before item after b console, items = before ++ item :: after → invariant before b console →
      Ensures (step b item) console (invariant (before ++ [item])) fails) {b : β}
    (start : invariant [] b console) : Ensures (items.foldlM step b) console (invariant items) fails := by
  suffices walk : ∀ after before b console, items = before ++ after → invariant before b console →
      Ensures (after.foldlM step b) console (invariant items) fails from walk items [] b console rfl start
  intro after
  induction after with
  | nil =>
    intro before b console same holds
    rw [List.append_nil] at same
    exact same ▸ holds
  | cons item after ih =>
    intro before b console same holds
    rw [List.foldlM_cons]
    refine .bind ((kept before item after b console same holds).imp fun b console holds => ?_)
    exact ih _ b console (by rw [same, List.append_assoc]; rfl) holds

theorem ensures_forM {step : ι → Work PUnit} {items : List ι} (invariant : Console → Prop)
    (kept : ∀ item ∈ items, ∀ console, invariant console → Ensures (step item) console (fun _ => invariant) fails)
    (start : invariant console) : Ensures (items.forM step) console (fun _ => invariant) fails := by
  induction items generalizing console with
  | nil => exact start
  | cons item items ih =>
    obtain ⟨first, others⟩ := List.forall_mem_cons.mp kept
    exact .bind ((first console start).imp fun _ console holds => ih others holds)

/-- What is picked out by a test that changes nothing. -/
theorem ensures_filterM {test : ι → Work Bool} {isKept : ι → Bool} {items : List ι}
    (tests : ∀ item, Ensures (test item) console (fun kept later => kept = isKept item ∧ later = console) fails) :
    Ensures (items.filterM test) console (fun kept later => kept = items.filter isKept ∧ later = console) fails := by
  suffices walk : ∀ kept, Ensures (items.filterAuxM test kept) console
      (fun all later => all = (items.filter isKept).reverse ++ kept ∧ later = console) fails by
    refine .bind ((walk []).imp ?_)
    rintro all _ ⟨rfl, rfl⟩
    exact ensures_pure ⟨by simp, rfl⟩
  induction items with
  | nil => exact fun kept => ⟨rfl, rfl⟩
  | cons item items ih =>
    intro kept
    refine .bind ((tests item).imp ?_)
    rintro _ _ ⟨rfl, rfl⟩
    refine (ih _).imp ?_
    rintro all _ ⟨rfl, rfl⟩
    refine ⟨?_, rfl⟩
    rw [List.filter_cons]
    cases isKept item <;> simp

/-- The configuration that a tree of files holds, in a named file or in the standard place. -/
def configIn (tree : Tree) : Option Text → Except ConfigFault Config
  | some path => Config.load path (tree.read (Path.ofText path)).toOption
  | none =>
    if tree.isFile (Path.ofText standardConfigPath) then
      Config.load standardConfigPath (tree.read (Path.ofText standardConfigPath)).toOption
    else .ok .standard

theorem ensures_loadConfig {good : Config → Console → Prop} {named : Option Text} {config : Config}
    (loaded : configIn console.tree named = .ok config) (holds : good config console) :
    Ensures (loadConfig named) console good fails := by
  have loadsFrom {path : Text}
      (loaded : Config.load path (console.tree.read (Path.ofText path)).toOption = .ok config) :
      Ensures (loadConfigFrom path) console good fails := by
    refine .bind (ensures_tree ?_)
    rw [loaded]
    exact holds
  cases named with
  | some path => exact loadsFrom loaded
  | none =>
    refine .bind (ensures_tree ?_)
    rw [configIn] at loaded
    split at loaded
    · rw [if_pos ‹_›]
      exact loadsFrom loaded
    · rw [if_neg ‹_›]
      cases loaded
      exact holds

theorem ensures_compile {good : Session.Step (Except Session.Refusal (Option Session.Output)) → Console → Prop}
    {session : Session} {config : Config} {path source : Text}
    (holds : ∀ errors, (∀ refusal, (session.transform config path source).result = .error refusal →
        refusal.cause.isDefect = false) → good (session.transform config path source) { console with errors }) :
    Ensures (compile session config path source) console good fails := by
  refine .bind (ensures_log fun errors => ?_)
  split
  · trivial
  · rename_i noDefect
    refine holds errors fun refusal refused => ?_
    obtain ⟨path, cause⟩ := refusal
    cases cause with
    | defect defect => exact absurd refused (noDefect path defect)
    | _ => rfl

end Work

end StaticStyle.CommandLine
