import StaticStyle.Proofs.Text.Join
import StaticStyle.Style.Rule

namespace StaticStyle.Style

def Declaration.line (declaration : Declaration) : Text :=
  "  " ++ declaration.property ++ ": " ++ declaration.value ++ ";"

/-- Lines with a line that opens a block before them, and one that closes it behind them. -/
def enclose (opening : Text) (lines : List Text) : List Text :=
  (opening ++ " \x7b") :: (lines ++ [Text.ofString "\x7d"])

mutual
/-- The lines of a block in a style sheet, one for each declaration. -/
def Block.lines : Block → List Text
  | .declarations selector declarations => enclose selector (declarations.map Declaration.line)
  | .conditional condition blocks => enclose condition (blocksLines blocks)

def blocksLines : List Block → List Text
  | [] => []
  | block :: rest => block.lines ++ blocksLines rest
end

mutual
/-- Whether every at-rule in a block has a block inside it. -/
def Block.isFilled : Block → Bool
  | .declarations .. => true
  | .conditional _ blocks => !blocks.isEmpty && areFilled blocks

def areFilled : List Block → Bool
  | [] => true
  | block :: rest => block.isFilled && areFilled rest
end

theorem areFilled_append (blocks others : List Block) :
    areFilled (blocks ++ others) = (areFilled blocks && areFilled others) := by
  induction blocks with
  | nil => rfl
  | cons block blocks ih => rw [List.cons_append, areFilled, areFilled, ih, Bool.and_assoc]

theorem Block.lines_ne_nil (block : Block) : block.lines ≠ [] := by
  cases block <;> simp [lines, enclose]

theorem blocksLines_ne_nil {blocks : List Block} (nonempty : blocks ≠ []) : blocksLines blocks ≠ [] := by
  obtain ⟨block, rest, rfl⟩ := List.exists_cons_of_ne_nil nonempty
  exact List.append_ne_nil_of_left_ne_nil block.lines_ne_nil _

theorem join_enclose (opening : Text) (lines : List Text) :
    Text.join "\n" (enclose opening lines) =
      opening ++ " \x7b" ++ lines.flatMap (Text.ofString "\n" ++ ·) ++ "\n\x7d" := by
  rw [enclose, Text.join_cons, List.flatMap_append, List.flatMap_singleton, List.append_assoc, List.append_assoc,
    List.append_assoc]
  rfl

theorem join_enclose_of_ne_nil (opening : Text) {lines : List Text} (nonempty : lines ≠ []) :
    Text.join "\n" (enclose opening lines) = opening ++ " \x7b\n" ++ Text.join "\n" lines ++ "\n\x7d" := by
  obtain ⟨line, others, rfl⟩ := List.exists_cons_of_ne_nil nonempty
  rw [join_enclose, Text.join_cons, List.flatMap_cons]
  simp [Text.ofString]

mutual
/-- A block is written line by line. -/
theorem Block.css_eq_join_lines : ∀ {block : Block}, block.isFilled = true → block.css = Text.join "\n" block.lines
  | .declarations selector declarations, _ => by
    rw [Block.css, Block.lines, join_enclose, List.flatMap_map]
    have behindBreak (declaration : Declaration) : Text.ofString "\n" ++ declaration.line = declaration.css := rfl
    simp only [behindBreak]
  | .conditional condition blocks, filled => by
    simp only [Block.isFilled, Bool.and_eq_true, Bool.not_eq_true', List.isEmpty_eq_false_iff] at filled
    rw [Block.css, Block.lines, join_enclose_of_ne_nil condition (blocksLines_ne_nil filled.1),
      join_blocksCss filled.2 filled.1]

theorem join_blocksCss : ∀ {blocks : List Block}, areFilled blocks = true → blocks ≠ [] →
    Text.join "\n" (blocksCss blocks) = Text.join "\n" (blocksLines blocks)
  | [], _, nonempty => absurd rfl nonempty
  | [block], filled, _ => by
    rw [areFilled, Bool.and_eq_true] at filled
    simp [blocksCss, blocksLines, Text.join_cons, Block.css_eq_join_lines filled.1]
  | block :: other :: rest, filled, _ => by
    rw [areFilled, Bool.and_eq_true] at filled
    have behind := join_blocksCss filled.2 (List.cons_ne_nil _ _)
    have nonempty : blocksLines (other :: rest) ≠ [] := blocksLines_ne_nil (List.cons_ne_nil _ _)
    rw [blocksLines, Text.join_append block.lines_ne_nil nonempty, ← behind, ← Block.css_eq_join_lines filled.1,
      blocksCss, ← List.singleton_append, Text.join_append (List.cons_ne_nil _ _) (by simp [blocksCss]),
      Text.join_cons, List.flatMap_nil, List.append_nil]
end

theorem map_css_eq_join_lines {blocks : List Block} (filled : areFilled blocks = true) :
    blocks.map Block.css = blocks.map fun block => Text.join "\n" block.lines := by
  induction blocks with
  | nil => rfl
  | cons block blocks ih =>
    rw [areFilled, Bool.and_eq_true] at filled
    rw [List.map_cons, List.map_cons, Block.css_eq_join_lines filled.1, ih filled.2]

end StaticStyle.Style
