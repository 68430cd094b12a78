import Arcade.Proofs.LogicalLines

/-! What the lines of an input come to when its blocks are closed: each of them stands as it was,
after the lines that close blocks in front of it, and the end of the input closes what is left.
The open blocks that a line closes are always the innermost ones. -/

namespace Arcade.Proofs
open Arcade.Indent

/-- Where something is added: an offset and a position in the text. -/
structure Place where
  offset : Nat
  pos : Position

/-- In front of a token. -/
def Place.before (token : Token) : Place := ⟨token.span.start, token.pos⟩

/-- After a token. The position is still the token's own. -/
def Place.after (token : Token) : Place := ⟨token.span.stop, token.pos⟩

/-- The line that closes a block at a place. -/
def endLineAt (place : Place) (block : Open) : List Token :=
  endLine place.offset place.pos block.indent

/-- Whether a line of the given indentation closes the block. -/
def closes (indent : Nat) (ownLevel : Bool) (block : Open) : Bool :=
  block.implicit && (indent < block.indent || (ownLevel && block.indent = indent))

/-- The open blocks that a line closes. -/
def closedBy (line : List Token) (opened : List Open) : List Open :=
  match line, lineIndent? line with
  | first :: _, some indent => opened.takeWhile (closes indent (closesOwnLevel first))
  | _, _ => []

/-- The lines that close blocks in front of a line. -/
def endsBefore (line : List Token) (opened : List Open) : List (List Token) :=
  match line with
  | [] => []
  | first :: _ => (closedBy line opened).map (endLineAt (.before first))

/-- The lines that close at the end of the input what may be closed there. -/
def endsAfter (place : Place) (opened : List Open) : List (List Token) :=
  (opened.takeWhile (·.implicit)).map (endLineAt place)

/-- The lines that some lines come to, but for what is left open at the end. -/
def closedLines : List (List Token) → List Open → List (List Token)
  | [], _ => []
  | line :: lines, opened =>
    endsBefore line opened ++ line :: closedLines lines (visitLine line lines opened).2

/-- The blocks that are open after some lines. -/
def openAfter : List (List Token) → List Open → List Open
  | [], opened => opened
  | line :: lines, opened => openAfter lines (visitLine line lines opened).2

/-- The first indentation among the lines, which the one of a block is compared with. -/
def nextIndent? (lines : List (List Token)) : Option Nat := lines.findSome? lineIndent?

theorem closeDeeper_eq (indent : Nat) (ownLevel : Bool) (opened : List Open) :
    closeDeeper indent ownLevel opened = ((opened.takeWhile (closes indent ownLevel)).map Open.indent,
      opened.dropWhile (closes indent ownLevel)) := by
  induction opened with
  | nil => rfl
  | cons top rest ih =>
    rw [closeDeeper, List.takeWhile_cons, List.dropWhile_cons, ih]
    cases closed : closes indent ownLevel top <;> rw [closes] at closed <;> simp [closed]

/-! ### One line -/

section
variable {first : Token} {line rest : List Token} {indent : Nat}

/-- A line has no indentation, or a first token that has it. -/
theorem indent_cases (line : List Token) : lineIndent? line = none ∨
    ∃ first rest indent, line = first :: rest ∧ lineIndent? (first :: rest) = some indent := by
  cases indented : lineIndent? line with
  | none => exact .inl rfl
  | some indent =>
    cases line with
    | nil => cases indented
    | cons first rest => exact .inr ⟨first, rest, indent, rfl, indented⟩

theorem visitLine_unindented (none : lineIndent? line = none) (following : List (List Token))
    (opened : List Open) : visitLine line following opened = ([], opened) := by
  cases line with
  | nil => rfl
  | cons first rest => simp [visitLine, none]

theorem closedBy_unindented (none : lineIndent? line = none) (opened : List Open) :
    closedBy line opened = [] := by
  cases line with
  | nil => rfl
  | cons first rest => simp [closedBy, none]

theorem endsBefore_unindented (none : lineIndent? line = none) (opened : List Open) :
    endsBefore line opened = [] := by
  cases line with
  | nil => rfl
  | cons first rest => rw [endsBefore, closedBy_unindented none, List.map_nil]

theorem closedBy_indented (indented : lineIndent? (first :: rest) = some indent) (opened : List Open) :
    closedBy (first :: rest) opened = opened.takeWhile (closes indent (closesOwnLevel first)) := by
  simp [closedBy, indented]

/-- A line takes away the blocks that it closes, then the one that it is the `end` of, and adds
the one that it opens. -/
theorem visitLine_indented (indented : lineIndent? (first :: rest) = some indent)
    (following : List (List Token)) (opened : List Open) :
    (visitLine (first :: rest) following opened).2 =
      (if opensBlock (first :: rest) then
        [⟨indent, (nextIndent? following).any (indent < ·)⟩] else []) ++
      (opened.dropWhile (closes indent (closesOwnLevel first))).drop
        (if first.kind = .keyword .endWord then 1 else 0) := by
  simp only [visitLine, indented, closeDeeper_eq, nextIndent?]
  split <;> split <;> rfl

theorem visitLine_fst (line : List Token) (following : List (List Token)) (opened : List Open) :
    (visitLine line following opened).1 = (endsBefore line opened).flatten := by
  obtain unindented | ⟨first, rest, indent, rfl, indented⟩ := indent_cases line
  · rw [visitLine_unindented unindented, endsBefore_unindented unindented, List.flatten_nil]
  · rw [endsBefore, closedBy_indented indented]
    simp only [visitLine, indented, closeDeeper_eq, List.flatMap_def, List.map_map]
    rfl

/-- A line whose blocks are closed already closes none of those that are open. -/
theorem visitLine_quiet (indented : lineIndent? (first :: rest) = some indent)
    {opened : List Open}
    (stays : ∀ block ∈ opened.head?, closes indent (closesOwnLevel first) block = false) :
    endsBefore (first :: rest) opened = [] ∧ ∀ following,
      visitLine (first :: rest) following opened = ([],
        (if opensBlock (first :: rest) then
          [⟨indent, (nextIndent? following).any (indent < ·)⟩] else []) ++
        opened.drop (if first.kind = .keyword .endWord then 1 else 0)) := by
  have untouched : opened.takeWhile (closes indent (closesOwnLevel first)) = [] ∧
      opened.dropWhile (closes indent (closesOwnLevel first)) = opened := by
    cases opened with
    | nil => exact ⟨rfl, rfl⟩
    | cons block opened =>
      have stays : ¬ closes indent (closesOwnLevel first) block = true := by simp [stays block rfl]
      exact ⟨List.takeWhile_cons_of_neg stays, List.dropWhile_cons_of_neg stays⟩
  have quiet : endsBefore (first :: rest) opened = [] := by
    rw [endsBefore, closedBy_indented indented, untouched.1]
    rfl
  refine ⟨quiet, fun following => Prod.ext ?_ ?_⟩
  · rw [visitLine_fst, quiet, List.flatten_nil]
  · rw [visitLine_indented indented, untouched.2]

/-- Of the lines that follow, only the next indentation counts. -/
theorem visitLine_congr {following others : List (List Token)}
    (same : nextIndent? following = nextIndent? others) (opened : List Open) :
    visitLine line following opened = visitLine line others opened := by
  unfold nextIndent? at same
  simp only [visitLine, same]

/-! ### The end of a line has no say in what it closes and opens -/

section
variable {eol : Token} (solid : line ≠ []) (ends : isEol eol = true)
include solid

theorem lineIndent?_ended (eol : Token) : lineIndent? (line ++ [eol]) = lineIndent? line := by
  cases line with
  | nil => exact absurd rfl solid
  | cons first rest => rfl

theorem endsBefore_ended (eol : Token) (opened : List Open) :
    endsBefore (line ++ [eol]) opened = endsBefore line opened := by
  cases line with
  | nil => exact absurd rfl solid
  | cons first rest =>
    have same : lineIndent? (first :: (rest ++ [eol])) = lineIndent? (first :: rest) := rfl
    simp only [List.cons_append, endsBefore, closedBy, same]
    cases lineIndent? (first :: rest) <;> rfl

include ends

theorem visitLine_ended (following : List (List Token)) (opened : List Open) :
    visitLine (line ++ [eol]) following opened = visitLine line following opened := by
  have same : opensBlock (line ++ [eol]) = opensBlock line := by
    simp [opensBlock, ends]
  cases line with
  | nil => exact absurd rfl solid
  | cons first rest =>
    rw [visitLine.eq_def, visitLine.eq_def (first :: rest), lineIndent?_ended solid, same]
    cases lineIndent? (first :: rest) <;> rfl

end
end

/-! ### All lines -/

theorem visitLines_eq (lines : List (List Token)) (opened : List Open) :
    visitLines lines opened = ((closedLines lines opened).flatten, openAfter lines opened) := by
  induction lines generalizing opened with
  | nil => rfl
  | cons line lines ih => simp [visitLines, ih, closedLines, openAfter, visitLine_fst]

theorem endLineAt_complete (place : Place) (block : Open) : Complete (endLineAt place block) := by
  show Complete ([_] ++ [_])
  refine .intro ?_ rfl
  simp [isEol, Token.synthesized]

theorem exists_endsBefore_eq (line : List Token) (opened : List Open) :
    ∃ place, endsBefore line opened = (closedBy line opened).map (endLineAt place) := by
  cases line with
  | nil => exact ⟨⟨0, ⟨0, 0, .invalid⟩⟩, rfl⟩
  | cons first rest => exact ⟨.before first, rfl⟩

theorem endsBefore_complete (line : List Token) (opened : List Open) :
    ∀ added ∈ endsBefore line opened, Complete added := by
  obtain ⟨place, added⟩ := exists_endsBefore_eq line opened
  rw [added, List.forall_mem_map]
  exact fun block _ => endLineAt_complete place block

theorem endsAfter_complete (place : Place) (opened : List Open) :
    ∀ added ∈ endsAfter place opened, Complete added := by
  rw [endsAfter, List.forall_mem_map]
  exact fun block _ => endLineAt_complete _ block

theorem closedLines_complete {lines : List (List Token)} (complete : ∀ line ∈ lines, Complete line)
    (opened : List Open) : ∀ line ∈ closedLines lines opened, Complete line := by
  induction lines generalizing opened with
  | nil => exact nofun
  | cons line lines ih =>
    rw [List.forall_mem_cons] at complete
    rw [closedLines, List.forall_mem_append, List.forall_mem_cons]
    exact ⟨endsBefore_complete line opened, complete.1, ih complete.2 _⟩

theorem closedLines_split {lines : List (List Token)} (split : Split lines) (opened : List Open) :
    Split (closedLines lines opened) := by
  induction split generalizing opened with
  | nil => exact .nil
  | last inside some => exact (Split.last inside some).prepend (endsBefore_complete _ opened)
  | line complete _ ih => exact (Split.line complete (ih _)).prepend (endsBefore_complete _ opened)

/-- If the last line gets an end, nothing changes but that it has one. -/
theorem closedLines_ended {line : List Token} {eol : Token} (solid : line ≠ [])
    (ends : isEol eol = true) (before : List (List Token)) (opened : List Open) :
    (closedLines (before ++ [line ++ [eol]]) opened).flatten =
        (closedLines (before ++ [line]) opened).flatten ++ [eol] ∧
      openAfter (before ++ [line ++ [eol]]) opened = openAfter (before ++ [line]) opened := by
  induction before generalizing opened with
  | nil => simp [closedLines, openAfter, endsBefore_ended solid, visitLine_ended solid ends]
  | cons first before ih =>
    have same : nextIndent? (before ++ [line ++ [eol]]) = nextIndent? (before ++ [line]) := by
      simp [nextIndent?, List.findSome?_append, lineIndent?_ended solid]
    simp only [List.cons_append, closedLines, openAfter, visitLine_congr same, List.flatten_append,
      List.flatten_cons, List.append_assoc]
    exact ⟨by rw [(ih _).1], (ih _).2⟩

/-! ### The whole input -/

/-- Where an input ends. -/
def endOf (tokens : List Token) : Place :=
  (tokens.getLast?.map Place.after).getD ⟨0, ⟨0, 0, .invalid⟩⟩

/-- The line end that the last line gets if it has none and blocks are closed after it. -/
def missingEnd (tokens : List Token) : List Token :=
  match tokens.getLast? with
  | none => []
  | some last =>
    if isEol last || (endsAfter (.after last) (openAfter (logicalLines tokens) [])).isEmpty then []
    else [Token.synthesized .eol last.span.stop last.pos]

/-- The lines of an input, all of them ended if need be. -/
def endedLines (tokens : List Token) : List (List Token) := logicalLines (tokens ++ missingEnd tokens)

private theorem closeRemaining_eq (last : Token) (opened : List Open) :
    closeRemaining last opened =
      (if isEol last || (endsAfter (.after last) opened).isEmpty then []
        else [Token.synthesized .eol last.span.stop last.pos]) ++
      (endsAfter (.after last) opened).flatten := by
  unfold closeRemaining endsAfter
  cases closed : opened.takeWhile (·.implicit) with
  | nil => simp
  | cons block blocks =>
    cases isEol last <;> simp [List.flatMap_def] <;> rfl

theorem missingEnd_of_getLast {tokens : List Token} {last : Token}
    (there : tokens.getLast? = some last) : missingEnd tokens =
      if isEol last || (endsAfter (endOf tokens) (openAfter (logicalLines tokens) [])).isEmpty then []
      else [Token.synthesized .eol last.span.stop last.pos] := by
  simp [missingEnd, endOf, there]

theorem addBlockEnds_eq (tokens : List Token) : addBlockEnds tokens =
    (closedLines (logicalLines tokens) []).flatten ++ missingEnd tokens ++
      (endsAfter (endOf tokens) (openAfter (logicalLines tokens) [])).flatten := by
  cases there : tokens.getLast? with
  | none =>
    obtain rfl := List.getLast?_eq_none_iff.mp there
    rfl
  | some last =>
    rw [missingEnd_of_getLast there]
    simp only [addBlockEnds, visitLines_eq, there, closeRemaining_eq, endOf, Option.map_some,
      Option.getD_some, List.append_assoc]

/-- No end is missing, or just the one of the last line, in front of lines that close blocks. -/
theorem endedLines_cases (tokens : List Token) :
    (missingEnd tokens = [] ∧ ((∀ line ∈ logicalLines tokens, Complete line) ∨
      endsAfter (endOf tokens) (openAfter (logicalLines tokens) []) = [])) ∨
    ∃ before line eol, logicalLines tokens = before ++ [line] ∧ missingEnd tokens = [eol] ∧
      isEol eol = true ∧ line ≠ [] ∧ endedLines tokens = before ++ [line ++ [eol]] ∧
      ∀ ended ∈ before ++ [line ++ [eol]], Complete ended := by
  have whole := flatten_logicalLines tokens
  obtain all | ⟨before, line, shape, all, inside, solid⟩ := (split_logicalLines tokens).all_or_last
  · refine .inl ⟨?_, .inl all⟩
    cases there : tokens.getLast? with
    | none => simp [missingEnd, there]
    | some last =>
      have ends := isEol_of_complete all (by rwa [whole])
      rw [missingEnd_of_getLast there, ends, Bool.true_or, if_pos rfl]
  · have there : tokens.getLast? = some (line.getLast solid) := by
      rw [← whole, shape]
      simp [List.getLast?_append, List.getLast?_eq_some_getLast solid]
    have missing := missingEnd_of_getLast there
    rw [inside _ (List.getLast_mem solid), Bool.false_or] at missing
    cases quiet : (endsAfter (endOf tokens) (openAfter (logicalLines tokens) [])).isEmpty with
    | true =>
      rw [quiet] at missing
      exact .inl ⟨missing, .inr (List.isEmpty_iff.mp quiet)⟩
    | false =>
      rw [quiet] at missing
      let eol := Token.synthesized .eol (line.getLast solid).span.stop (line.getLast solid).pos
      have complete : ∀ ended ∈ before ++ [line ++ [eol]], Complete ended := by
        rw [List.forall_mem_append, List.forall_mem_singleton]
        exact ⟨all, .intro inside rfl⟩
      have lines : endedLines tokens = before ++ [line ++ [eol]] := by
        rw [← Split.logicalLines_flatten (Split.of_complete complete), endedLines, missing, ← whole,
          shape]
        simp [eol]
      exact .inr ⟨before, line, eol, shape, missing, rfl, solid, lines, complete⟩

/-- The missing line end adds nothing to what the input says. -/
theorem contentLines_endedLines (tokens : List Token) :
    contentLines (endedLines tokens) = contents tokens := by
  obtain ⟨missing, _⟩ | ⟨before, line, eol, shape, _, ends, _, lines, _⟩ := endedLines_cases tokens
  · rw [endedLines, missing, List.append_nil, contents]
  · rw [lines, contents, shape, contentLines_append, contentLines_append, contentLines_cons,
      contentLines_cons]
    simp [content, ends]

/-- The lines of the output: what the lines of the input come to, and what its end adds. -/
theorem logicalLines_addBlockEnds (tokens : List Token) :
    logicalLines (addBlockEnds tokens) = closedLines (endedLines tokens) [] ++
      endsAfter (endOf tokens) (openAfter (endedLines tokens) []) := by
  rw [addBlockEnds_eq]
  obtain ⟨missing, closed⟩ | ⟨before, line, eol, shape, missing, ends, solid, lines, complete⟩ :=
    endedLines_cases tokens
  · rw [endedLines, missing, List.append_nil, List.append_nil, ← List.flatten_append]
    apply Split.logicalLines_flatten
    obtain all | none := closed
    · exact .of_complete (List.forall_mem_append.mpr
        ⟨closedLines_complete all [], endsAfter_complete _ _⟩)
    · rw [none, List.append_nil]
      exact closedLines_split (split_logicalLines tokens) []
  · obtain ⟨same, opened⟩ := closedLines_ended solid ends before []
    rw [missing, lines, opened, shape, ← same, ← List.flatten_append]
    apply Split.logicalLines_flatten
    exact .of_complete (List.forall_mem_append.mpr
      ⟨closedLines_complete complete [], endsAfter_complete _ _⟩)

end Arcade.Proofs
