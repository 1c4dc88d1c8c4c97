import Mathlib.Data.List.Basic
import StaticStyle.File.Path
import StaticStyle.Proofs.Text.Join

namespace StaticStyle.File

/-- Whether a name stands for itself in a path. -/
def isName (name : Text) : Bool :=
  !name.isEmpty && name != Text.ofString "." && name != Text.ofString ".."

theorem settle_append (first second : List Text) :
    settle (first ++ second) =
      second.foldl (fun settled name => if name = Text.ofString ".." then settled.dropLast else settled ++ [name])
        (settle first) := by
  rw [settle, List.foldl_append, settle]

theorem isName_iff {name : Text} :
    isName name = true ↔ name ≠ [] ∧ name ≠ Text.ofString "." ∧ name ≠ Text.ofString ".." := by
  simp [isName, and_assoc]

theorem settle_append_names {names : List Text} (areNames : names.all isName = true) (first : List Text) :
    settle (first ++ names) = settle first ++ names := by
  rw [settle_append]
  generalize settle first = settled
  induction names generalizing settled with
  | nil => rw [List.foldl_nil, List.append_nil]
  | cons name names ih =>
    rw [List.all_cons, Bool.and_eq_true, isName_iff] at areNames
    rw [List.foldl_cons, if_neg areNames.1.2.2, ih areNames.2, List.append_assoc]
    rfl

theorem settle_names {names : List Text} (areNames : names.all isName = true) : settle names = names :=
  settle_append_names areNames []

theorem Path.ofText_names (text : Text) : ∀ name ∈ (Path.ofText text).names, name ≠ [] ∧ name ≠ Text.ofString "." := by
  intro name member
  simpa using (List.mem_filter.mp member).2

namespace Path

theorem name_eq_getLast {path : Path} (some : path.names ≠ []) : path.name = path.names.getLast some := by
  rw [name, List.getLastD_eq_getLast?, List.getLast?_eq_some_getLast some, Option.getD_some]

theorem name_suffix_text {path : Path} (some : path.names ≠ []) : path.name <:+ path.text := by
  rw [text, if_neg (by simp [some]), name_eq_getLast some]
  exact (Text.getLast_suffix_join _ some).trans (List.suffix_append _ _)

theorem name_below (path : Path) {names : List Text} (some : names ≠ []) :
    (path.below names).name = names.getLast some := by
  rw [name_eq_getLast (List.append_ne_nil_of_right_ne_nil _ some)]
  exact List.getLast_append_of_ne_nil _ some

end Path

end StaticStyle.File
