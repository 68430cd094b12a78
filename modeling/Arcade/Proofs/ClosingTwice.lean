import Arcade.Proofs.BlockClosing
import Mathlib.Data.List.DropRight

/-! Closing blocks a second time changes nothing. The lines that the first pass adds close, as
ordinary lines of the second one, just the blocks that they were added for, and the first pass adds
none between a line that opens a block and the next indentation, which decides how the block may be
closed. So both passes have the same open blocks after every line of the input. -/

namespace Arcade.Proofs
open Arcade.Indent

variable {line : List Token} {lines : List (List Token)} {place : Place} {block : Open}
  {opened : List Open}

/-- All lines that some lines come to, with the end of the input after them. -/
def settledLines (place : Place) (lines : List (List Token)) (opened : List Open) :
    List (List Token) :=
  closedLines lines opened ++ endsAfter place (openAfter lines opened)

/-- The open blocks that a line does not close. -/
def keptBy (line : List Token) (opened : List Open) : List Open :=
  match line, lineIndent? line with
  | first :: _, some indent => opened.dropWhile (closes indent (closesOwnLevel first))
  | _, _ => opened

private theorem takeWhile_dropWhile {α : Type} (p : α → Bool) (items : List α) :
    (items.dropWhile p).takeWhile p = [] := by
  have whole : (items.dropWhile p).takeWhile p ++ (items.dropWhile p).dropWhile p =
      items.dropWhile p := List.takeWhile_append_dropWhile
  rw [List.dropWhile_idempotent] at whole
  exact List.append_cancel_right whole

theorem settledLines_cons (place : Place) (line : List Token) (lines : List (List Token))
    (opened : List Open) : settledLines place (line :: lines) opened =
      endsBefore line opened ++ line :: settledLines place lines (visitLine line lines opened).2 := by
  simp [settledLines, closedLines, openAfter]

/-! ### The added lines -/

theorem endLineAt_closes_none (place : Place) (block : Open) (opened : List Open) :
    endsBefore (endLineAt place block) (block :: opened) = [] := by
  have stays : closes block.indent false block = false := by simp [closes]
  have indented : lineIndent? (endLineAt place block) = some block.indent := rfl
  simp only [endLineAt, endLine] at indented ⊢
  rw [endsBefore, closedBy_indented indented, List.takeWhile_cons]
  simp [closesOwnLevel, Token.synthesized, TokenKind.isBlockTerminator, stays]

/-- An added line is the `end` of the block that it was added for. -/
theorem endLineAt_ends (place : Place) (block : Open) (following : List (List Token))
    (opened : List Open) :
    (visitLine (endLineAt place block) following (block :: opened)).2 = opened := by
  have stays : closes block.indent false block = false := by simp [closes]
  have indented : lineIndent? (endLineAt place block) = some block.indent := rfl
  simp only [endLineAt, endLine] at indented ⊢
  rw [visitLine_indented indented, List.dropWhile_cons]
  simp [closesOwnLevel, Token.synthesized, TokenKind.isBlockTerminator, stays, opensBlock, isEol]

theorem closedLines_ends (place : Place) (blocks : List Open) (rest : List (List Token))
    (opened : List Open) :
    closedLines (blocks.map (endLineAt place) ++ rest) (blocks ++ opened) =
      blocks.map (endLineAt place) ++ closedLines rest opened := by
  induction blocks with
  | nil => rfl
  | cons block blocks ih =>
    rw [List.map_cons, List.cons_append, List.cons_append, closedLines, endLineAt_closes_none,
      endLineAt_ends, ih]
    rfl

theorem openAfter_ends (place : Place) (blocks : List Open) (rest : List (List Token))
    (opened : List Open) :
    openAfter (blocks.map (endLineAt place) ++ rest) (blocks ++ opened) = openAfter rest opened := by
  induction blocks with
  | nil => rfl
  | cons block blocks ih =>
    rw [List.map_cons, List.cons_append, List.cons_append, openAfter, endLineAt_ends, ih]

/-! ### The lines of the input -/

section
variable {first : Token} {rest : List Token} {indent : Nat}

theorem keptBy_unindented (none : lineIndent? line = none) (opened : List Open) :
    keptBy line opened = opened := by
  cases line with
  | nil => rfl
  | cons first rest => simp [keptBy, none]

theorem keptBy_indented (indented : lineIndent? (first :: rest) = some indent)
    (opened : List Open) :
    keptBy (first :: rest) opened = opened.dropWhile (closes indent (closesOwnLevel first)) := by
  simp [keptBy, indented]

end

theorem closedBy_append_keptBy (line : List Token) (opened : List Open) :
    closedBy line opened ++ keptBy line opened = opened := by
  obtain unindented | ⟨first, rest, indent, rfl, indented⟩ := indent_cases line
  · rw [keptBy_unindented unindented, closedBy_unindented unindented, List.nil_append]
  · rw [closedBy_indented indented, keptBy_indented indented, List.takeWhile_append_dropWhile]

theorem closedLines_endsBefore (line : List Token) (opened : List Open) (rest : List (List Token)) :
    closedLines (endsBefore line opened ++ rest) opened =
      endsBefore line opened ++ closedLines rest (keptBy line opened) := by
  obtain ⟨place, added⟩ := exists_endsBefore_eq line opened
  have closed := closedLines_ends place (closedBy line opened) rest (keptBy line opened)
  rwa [← added, closedBy_append_keptBy] at closed

theorem openAfter_endsBefore (line : List Token) (opened : List Open) (rest : List (List Token)) :
    openAfter (endsBefore line opened ++ rest) opened = openAfter rest (keptBy line opened) := by
  obtain ⟨place, added⟩ := exists_endsBefore_eq line opened
  have left := openAfter_ends place (closedBy line opened) rest (keptBy line opened)
  rwa [← added, closedBy_append_keptBy] at left

/-- A line has nothing left to close where its blocks are closed already. -/
theorem endsBefore_keptBy (line : List Token) (opened : List Open) :
    endsBefore line (keptBy line opened) = [] := by
  obtain unindented | ⟨first, rest, indent, rfl, indented⟩ := indent_cases line
  · exact endsBefore_unindented unindented _
  · rw [endsBefore, closedBy_indented indented, keptBy_indented indented, takeWhile_dropWhile]
    rfl

theorem visitLine_keptBy (line : List Token) (following : List (List Token)) (opened : List Open) :
    (visitLine line following (keptBy line opened)).2 = (visitLine line following opened).2 := by
  obtain unindented | ⟨first, rest, indent, rfl, indented⟩ := indent_cases line
  · rw [keptBy_unindented unindented]
  · rw [visitLine_indented indented, visitLine_indented indented, keptBy_indented indented,
      List.dropWhile_idempotent]

/-- No line is added between a line that opens a block and the next indentation. -/
theorem nextIndent?_settledLines (place : Place)
    (decided : block.implicit = (nextIndent? lines).any (block.indent < ·)) :
    nextIndent? (settledLines place lines (block :: opened)) = nextIndent? lines := by
  induction lines with
  | nil =>
    have explicit : block.implicit = false := decided
    simp [settledLines, closedLines, openAfter, endsAfter, explicit]
  | cons line lines ih =>
    rw [settledLines_cons]
    obtain unindented | ⟨first, rest, indent, rfl, indented⟩ := indent_cases line
    · have skipped (lines : List (List Token)) : nextIndent? (line :: lines) = nextIndent? lines := by
        simp [nextIndent?, unindented]
      rw [skipped] at decided
      rw [endsBefore_unindented unindented, visitLine_unindented unindented, List.nil_append, skipped,
        skipped, ih decided]
    · have found (lines : List (List Token)) :
          nextIndent? ((first :: rest) :: lines) = some indent := by
        simp [nextIndent?, indented]
      have stays : closes indent (closesOwnLevel first) block = false := by
        rw [found, Option.any_some] at decided
        simp only [closes, decided, Bool.and_eq_false_iff, decide_eq_false_iff_not,
          Bool.or_eq_false_iff]
        omega
      rw [endsBefore, closedBy_indented indented, List.takeWhile_cons_of_neg (by simp [stays]),
        List.map_nil, List.nil_append, found, found]

/-- The blocks that are open after a line do not depend on the lines that are added after it. -/
theorem visitLine_settledLines (place : Place) (line : List Token) (lines : List (List Token))
    (opened : List Open) :
    (visitLine line (settledLines place lines (visitLine line lines opened).2) opened).2 =
      (visitLine line lines opened).2 := by
  obtain unindented | ⟨first, rest, indent, rfl, indented⟩ := indent_cases line
  · rw [visitLine_unindented unindented, visitLine_unindented unindented]
  · cases opens : opensBlock (first :: rest) with
    | false => rw [visitLine_indented indented, visitLine_indented indented, opens]; rfl
    | true =>
      rw [visitLine_congr]
      rw [visitLine_indented indented, opens]
      exact nextIndent?_settledLines place rfl

/-! ### The whole input -/

theorem settledLines_nil (place : Place) (opened : List Open) :
    settledLines place [] opened = (opened.takeWhile (·.implicit)).map (endLineAt place) := rfl

/-- What a pass yields stays as it is in another one, and what the end of the input closes is closed
before it. -/
theorem closedLines_settledLines (place : Place) (lines : List (List Token)) (opened : List Open) :
    closedLines (settledLines place lines opened) opened = settledLines place lines opened ∧
      openAfter (settledLines place lines opened) opened =
        (openAfter lines opened).dropWhile (·.implicit) := by
  induction lines generalizing opened with
  | nil =>
    have whole : opened.takeWhile (·.implicit) ++ opened.dropWhile (·.implicit) = opened :=
      List.takeWhile_append_dropWhile
    have closed := closedLines_ends place (opened.takeWhile (·.implicit)) []
      (opened.dropWhile (·.implicit))
    have left := openAfter_ends place (opened.takeWhile (·.implicit)) []
      (opened.dropWhile (·.implicit))
    rw [whole, List.append_nil] at closed left
    rw [settledLines_nil, closed, left]
    exact ⟨List.append_nil _, rfl⟩
  | cons line lines ih =>
    obtain ⟨closed, left⟩ := ih (visitLine line lines opened).2
    have same : (visitLine line (settledLines place lines (visitLine line lines opened).2)
        (keptBy line opened)).2 = (visitLine line lines opened).2 := by
      rw [visitLine_keptBy, visitLine_settledLines]
    rw [settledLines_cons, closedLines_endsBefore, openAfter_endsBefore, closedLines, openAfter,
      endsBefore_keptBy, same, closed, left]
    exact ⟨rfl, rfl⟩

/-- The output of a pass is what another one makes of it. -/
theorem addBlockEnds_idempotent (tokens : List Token) :
    addBlockEnds (addBlockEnds tokens) = addBlockEnds tokens := by
  have lines := logicalLines_addBlockEnds tokens
  rw [← settledLines] at lines
  obtain ⟨closed, left⟩ := closedLines_settledLines (endOf tokens) (endedLines tokens) []
  rw [← lines] at closed left
  have quiet (place : Place) :
      endsAfter place (openAfter (logicalLines (addBlockEnds tokens)) []) = [] := by
    rw [left, endsAfter, takeWhile_dropWhile]
    rfl
  have complete : missingEnd (addBlockEnds tokens) = [] := by
    unfold missingEnd
    split
    · rfl
    · simp [quiet]
  rw [addBlockEnds_eq (addBlockEnds tokens), closed, complete, quiet, flatten_logicalLines,
    List.append_nil, List.flatten_nil, List.append_nil]

end Arcade.Proofs
