import Arcade.Proofs.BlockClosing

/-! Closing blocks in a part of an input. Of what stands behind some lines only the next indentation
matters to them, and all that it decides is whether indentation may close the block that they have
opened last. -/

namespace Arcade.Proofs
open Arcade.Indent

variable {tokens : List Token} {lines : List (List Token)} {opened : List Open}

/-- What lines come to in front of others, and the blocks that are open between the two. -/
def visitLinesBefore (following : List (List Token)) :
    List (List Token) → List Open → List Token × List Open
  | [], opened => ([], opened)
  | line :: lines, opened =>
    let (added, opened) := visitLine line (lines ++ following) opened
    let (rest, opened) := visitLinesBefore following lines opened
    (added ++ line ++ rest, opened)

/-- What is added when the input ends. -/
def closedAtEnd (tokens : List Token) (opened : List Open) : List Token :=
  tokens.getLast?.elim [] (closeRemaining · opened)

theorem addBlockEnds_eq_closedAtEnd (tokens : List Token) :
    addBlockEnds tokens = (visitLines (logicalLines tokens) []).1 ++
      closedAtEnd tokens (visitLines (logicalLines tokens) []).2 := by
  unfold addBlockEnds closedAtEnd
  cases tokens.getLast? <;> simp

theorem visitLines_append (lines following : List (List Token)) (opened : List Open) :
    visitLines (lines ++ following) opened =
      ((visitLinesBefore following lines opened).1 ++
        (visitLines following (visitLinesBefore following lines opened).2).1,
        (visitLines following (visitLinesBefore following lines opened).2).2) := by
  induction lines generalizing opened with
  | nil => rfl
  | cons line lines ih => simp [visitLines, visitLinesBefore, ih, List.append_assoc]

theorem visitLinesBefore_append (following first second : List (List Token)) (opened : List Open) :
    visitLinesBefore following (first ++ second) opened =
      ((visitLinesBefore (second ++ following) first opened).1 ++
        (visitLinesBefore following second
          (visitLinesBefore (second ++ following) first opened).2).1,
        (visitLinesBefore following second
          (visitLinesBefore (second ++ following) first opened).2).2) := by
  induction first generalizing opened with
  | nil => rfl
  | cons line first ih => simp [visitLinesBefore, ih, List.append_assoc]

theorem nextIndent?_append (lines following : List (List Token)) :
    nextIndent? (lines ++ following) = (nextIndent? lines).or (nextIndent? following) :=
  List.findSome?_append

theorem nextIndent?_cons_unindented {line : List Token} (none : lineIndent? line = none) :
    nextIndent? (line :: lines) = nextIndent? lines := by
  simp [nextIndent?, none]

theorem nextIndent?_cons_indented {line : List Token} {indent : Nat}
    (indented : lineIndent? line = some indent) : nextIndent? (line :: lines) = some indent := by
  simp [nextIndent?, indented]

theorem visitLinesBefore_congr {following others : List (List Token)}
    (same : nextIndent? following = nextIndent? others) (lines : List (List Token))
    (opened : List Open) :
    visitLinesBefore following lines opened = visitLinesBefore others lines opened := by
  induction lines generalizing opened with
  | nil => rfl
  | cons line lines ih =>
    have next : nextIndent? (lines ++ following) = nextIndent? (lines ++ others) := by
      rw [nextIndent?_append, nextIndent?_append, same]
    simp only [visitLinesBefore, visitLine_congr next, ih]

theorem visitLines_eq_before (lines : List (List Token)) (opened : List Open) :
    visitLines lines opened = visitLinesBefore [] lines opened := by
  simpa [visitLines] using visitLines_append lines [] opened

/-- Lines without indentation pass through. -/
theorem visitLinesBefore_unindented (none : nextIndent? lines = none)
    (following : List (List Token)) (opened : List Open) :
    visitLinesBefore following lines opened = (lines.flatten, opened) := by
  induction lines with
  | nil => rfl
  | cons line lines ih =>
    have unindented := List.findSome?_eq_none_iff.mp none
    rw [List.forall_mem_cons] at unindented
    rw [visitLinesBefore, visitLine_unindented unindented.1]
    simp [ih (List.findSome?_eq_none_iff.mpr unindented.2)]

/-- The indentations of the blocks that lines leave open do not depend on what follows. -/
theorem map_indent_visitLinesBefore (following lines : List (List Token)) (opened : List Open) :
    (visitLinesBefore following lines opened).2.map Open.indent =
      (visitLines lines opened).2.map Open.indent := by
  rw [visitLines_eq_before]
  induction lines generalizing opened with
  | nil => rfl
  | cons line lines ih =>
    simp only [visitLinesBefore]
    cases next : nextIndent? lines with
    | some indent =>
      have same : nextIndent? (lines ++ following) = nextIndent? (lines ++ []) := by
        simp [nextIndent?_append, next]
      rw [visitLine_congr same, ih]
    | none =>
      rw [visitLinesBefore_unindented next, visitLinesBefore_unindented next]
      obtain unindented | ⟨first, rest, indent, rfl, indented⟩ := indent_cases line
      · rw [visitLine_unindented unindented, visitLine_unindented unindented]
      · simp only [visitLine_indented indented, List.map_append]
        split <;> rfl

/-! ### Whole lines -/

/-- There are no tokens, or they end with a line end. -/
def Whole (tokens : List Token) : Prop := ∀ last ∈ tokens.getLast?, isEol last = true

instance : Decidable (Whole tokens) :=
  inferInstanceAs (Decidable (∀ last ∈ tokens.getLast?, isEol last = true))

theorem Whole.complete (whole : Whole tokens) : ∀ line ∈ logicalLines tokens, Complete line := by
  obtain all | ⟨before, line, shape, _, inside, solid⟩ := (split_logicalLines tokens).all_or_last
  · exact all
  · have last : tokens.getLast? = some (line.getLast solid) := by
      rw [← flatten_logicalLines tokens, shape]
      simp [List.getLast?_append, List.getLast?_eq_some_getLast solid]
    have ends := whole _ last
    rw [inside _ (List.getLast_mem solid)] at ends
    cases ends

theorem Whole.logicalLines_append (whole : Whole tokens) (rest : List Token) :
    logicalLines (tokens ++ rest) = logicalLines tokens ++ logicalLines rest := by
  have lines (lines : List (List Token)) (complete : ∀ line ∈ lines, Complete line) :
      logicalLines (lines.flatten ++ rest) = lines ++ logicalLines rest := by
    induction lines with
    | nil => rfl
    | cons line lines ih =>
      rw [List.forall_mem_cons] at complete
      rw [List.flatten_cons, List.append_assoc, logicalLines_complete complete.1, ih complete.2,
        List.cons_append]
  rw [← lines _ whole.complete, flatten_logicalLines]

theorem Whole.append {more : List Token} (whole : Whole tokens) (others : Whole more) :
    Whole (tokens ++ more) := by
  intro last there
  rw [Option.mem_def, List.getLast?_append, Option.or_eq_some_iff] at there
  obtain there | ⟨_, there⟩ := there
  · exact others last there
  · exact whole last there

theorem Whole.last_line {eol : Token} (whole : Whole tokens) (last : tokens.getLast? = some eol) :
    ∃ line, (logicalLines tokens).getLast? = some line ∧ [eol] <:+ line := by
  have flat := flatten_logicalLines tokens
  have complete := whole.complete
  obtain none | ⟨before, line, shape⟩ := (logicalLines tokens).eq_nil_or_concat
  · rw [none] at flat
    rw [← flat] at last
    cases last
  · rw [List.concat_eq_append] at shape
    rw [shape] at flat complete
    have ends := complete line (by simp)
    refine ⟨line, by simp [shape], ?_⟩
    cases ends with
    | @intro content eol' inside ends =>
      rw [← flat] at last
      simp only [List.flatten_append, List.flatten_singleton, ← List.append_assoc,
        List.getLast?_concat] at last
      cases last
      exact List.suffix_append content [eol]

/-- Nothing stands between the last line and what follows. -/
theorem suffix_visitLinesBefore (following : List (List Token)) {lines : List (List Token)}
    {line : List Token} (last : lines.getLast? = some line) (opened : List Open) :
    line <:+ (visitLinesBefore following lines opened).1 := by
  induction lines generalizing opened with
  | nil => cases last
  | cons first lines ih =>
    simp only [visitLinesBefore]
    cases lines with
    | nil =>
      cases last
      simp [visitLinesBefore]
    | cons next lines =>
      exact (ih (by simpa using last) _).trans (List.suffix_append _ _)

/-! ### Two parts of an input -/

/-- What a pass has come to where one part of its input ends and the next one starts, and the
blocks that are open there. -/
def passedBetween (before after : List Token) : List Token × List Open :=
  visitLinesBefore (logicalLines after) (logicalLines before) []

theorem addBlockEnds_append {before : List Token} (whole : Whole before) (after : List Token) :
    addBlockEnds (before ++ after) = (passedBetween before after).1 ++
      (visitLines (logicalLines after) (passedBetween before after).2).1 ++
      closedAtEnd (before ++ after)
        (visitLines (logicalLines after) (passedBetween before after).2).2 := by
  rw [addBlockEnds_eq_closedAtEnd, whole.logicalLines_append, visitLines_append]
  rfl

end Arcade.Proofs
