import Arcade.Proofs.ClosingTwice
import Arcade.Proofs.PartialClosing
import Arcade.Proofs.TreeClosing
import Arcade.Scan.Tokenizer

/-! Units whose blocks are closed already, put into other input. Deeper than all blocks around it, such a
unit stays as it is: its lines close and open blocks as they do in the unit by itself, on top of
those around it, and what they have opened they have closed when it ends. -/

namespace Arcade.Proofs
open Arcade.Indent Arcade.Scan

variable {tokens line : List Token} {lines : List (List Token)} {opened held : List Open}
  {levels : Nat}

/-! ### Lines that balance -/

/-- A line that the pass takes for the `end` of a block. -/
def isEndLine (line : List Token) : Bool :=
  (lineIndent? line).isSome && line.head?.any (·.kind = .keyword .endWord)

/-- Some line is the `end` of no block, as none is open that it has not closed itself. -/
def strayEnd : List (List Token) → List Open → Bool
  | [], _ => false
  | line :: lines, opened =>
    (isEndLine line && (keptBy line opened).isEmpty) || strayEnd lines (visitLine line lines opened).2

def openAtEnd (tokens : List Token) : List Open :=
  (visitLines (logicalLines tokens) []).2.dropWhile (·.implicit)

/-- Indentation closes nothing in the lines, every `end` has its block, and no block is left. -/
inductive Balanced : List (List Token) → List Open → Prop where
  | nil : Balanced [] []
  | line {line : List Token} {lines : List (List Token)} {opened : List Open}
      (quiet : endsBefore line opened = []) (paired : isEndLine line = true → opened ≠ [])
      (others : Balanced lines (visitLine line lines opened).2) : Balanced (line :: lines) opened

theorem Balanced.ends (place : Place) (blocks : List Open) (balanced : Balanced lines opened) :
    Balanced (blocks.map (endLineAt place) ++ lines) (blocks ++ opened) := by
  induction blocks with
  | nil => exact balanced
  | cons block blocks ih =>
    refine .line (endLineAt_closes_none place block _) (fun _ => List.cons_ne_nil _ _) ?_
    rw [List.cons_append, endLineAt_ends]
    exact ih

theorem visitLine_settled_kept (place : Place) (line : List Token) (lines : List (List Token))
    (opened : List Open) :
    (visitLine line (settledLines place lines (visitLine line lines opened).2)
      (keptBy line opened)).2 = (visitLine line lines opened).2 := by
  rw [visitLine_keptBy, visitLine_settledLines]

/-- What a pass yields is balanced if all blocks were closed and every `end` had one. -/
theorem settledLines_balanced (place : Place) (paired : strayEnd lines opened = false)
    (closed : (openAfter lines opened).dropWhile (·.implicit) = []) :
    Balanced (settledLines place lines opened) opened := by
  induction lines generalizing opened with
  | nil =>
    have whole : opened.takeWhile (·.implicit) = opened := by
      have split := List.takeWhile_append_dropWhile (p := fun block : Open => block.implicit) (l := opened)
      rwa [show opened.dropWhile (·.implicit) = [] from closed, List.append_nil] at split
    rw [settledLines_nil, whole]
    simpa using Balanced.ends place opened .nil
  | cons line lines ih =>
    rw [strayEnd, Bool.or_eq_false_iff] at paired
    have others := ih paired.2 closed
    obtain ⟨place', added⟩ := exists_endsBefore_eq line opened
    have rest : Balanced (line :: settledLines place lines (visitLine line lines opened).2)
        (keptBy line opened) := by
      refine .line (endsBefore_keptBy line opened) (fun ends none => ?_) ?_
      · rw [ends, none] at paired
        cases paired.1
      · rwa [visitLine_settled_kept]
    rw [settledLines_cons, added]
    have all := rest.ends place' (closedBy line opened)
    rwa [closedBy_append_keptBy] at all

private theorem strayEnd_ended {eol : Token} (solid : line ≠ [])
    (before : List (List Token)) (opened : List Open) :
    strayEnd (before ++ [line ++ [eol]]) opened = strayEnd (before ++ [line]) opened := by
  induction before generalizing opened with
  | nil =>
    have same : isEndLine (line ++ [eol]) = isEndLine line ∧
        keptBy (line ++ [eol]) opened = keptBy line opened := by
      obtain ⟨first, rest, rfl⟩ := List.exists_cons_of_ne_nil solid
      have indented : lineIndent? (first :: (rest ++ [eol])) = lineIndent? (first :: rest) := rfl
      refine ⟨by simp [isEndLine, indented], ?_⟩
      simp only [List.cons_append, keptBy, indented]
      cases lineIndent? (first :: rest) <;> rfl
    simp only [List.nil_append, strayEnd, same]
  | cons first before ih =>
    have same : nextIndent? (before ++ [line ++ [eol]]) = nextIndent? (before ++ [line]) := by
      simp [nextIndent?, List.findSome?_append, lineIndent?_ended solid]
    simp only [List.cons_append, strayEnd, visitLine_congr same, ih]

/-- A unit that a pass has closed is balanced. -/
theorem addBlockEnds_balanced (paired : strayEnd (logicalLines tokens) [] = false)
    (closed : openAtEnd tokens = []) : Balanced (logicalLines (addBlockEnds tokens)) [] := by
  rw [logicalLines_addBlockEnds, ← settledLines]
  rw [openAtEnd, visitLines_eq] at closed
  obtain ⟨missing, _⟩ | ⟨before, line, eol, shape, _, ends, solid, lines, _⟩ := endedLines_cases tokens
  · rw [endedLines, missing, List.append_nil]
    exact settledLines_balanced _ paired closed
  · rw [shape] at paired closed
    rw [lines]
    refine settledLines_balanced _ ?_ ?_
    · rwa [strayEnd_ended solid]
    · rwa [(closedLines_ended solid ends before []).2]

/-! ### Deeper lines -/

def deeper (levels : Nat) (block : Open) : Open := { block with indent := block.indent + levels }

theorem lineIndent?_shift (levels : Nat) (line : List Token) :
    lineIndent? (shift levels line) = (lineIndent? line).map (· + levels) := by
  cases line with
  | nil => rfl
  | cons first rest =>
    show (if isEol first then none else first.indent.map (· + levels)) =
      (if isEol first then none else first.indent).map (· + levels)
    split <;> rfl

theorem nextIndent?_shift (levels : Nat) (lines : List (List Token)) :
    nextIndent? (lines.map (shift levels)) = (nextIndent? lines).map (· + levels) := by
  induction lines with
  | nil => rfl
  | cons line lines ih =>
    have moved := lineIndent?_shift levels line
    cases indented : lineIndent? line with
    | none =>
      rw [indented] at moved
      rw [List.map_cons, nextIndent?_cons_unindented moved, ih, nextIndent?_cons_unindented indented]
    | some indent =>
      rw [indented] at moved
      rw [List.map_cons, nextIndent?_cons_indented moved, nextIndent?_cons_indented indented]
      rfl

theorem logicalLines_shift (levels : Nat) (tokens : List Token) :
    logicalLines (shift levels tokens) = (logicalLines tokens).map (shift levels) :=
  logicalLines_map (by exact fun _ => rfl) tokens

/-- Whether a line opens a block shows in the kinds of its tokens. -/
theorem opensBlock_congr {other : List Token}
    (same : (content line).map (·.kind) = (content other).map (·.kind)) :
    opensBlock line = opensBlock other := by
  have first : firstKind? (content line) = firstKind? (content other) := by
    simpa [firstKind?] using congrArg List.head? same
  have last : lastKind? (content line) = lastKind? (content other) := by
    simpa [lastKind?] using congrArg List.getLast? same
  rw [Bool.eq_iff_iff, opensBlock_iff_content, opensBlock_iff_content]
  simp only [EndsInArrow, StartsWith, first, last]

theorem opensBlock_shift (levels : Nat) (line : List Token) :
    opensBlock (shift levels line) = opensBlock line := by
  apply opensBlock_congr
  have solid : content (shift levels line) = shift levels (content line) := List.filter_map
  rw [solid, shift, List.map_map]
  rfl

theorem whole_shift (whole : Whole tokens) : Whole (shift levels tokens) := by
  intro last there
  rw [shift, List.getLast?_map, Option.mem_def, Option.map_eq_some_iff] at there
  obtain ⟨token, there, rfl⟩ := there
  exact whole token there

theorem closes_deeper (levels indent : Nat) (ownLevel : Bool) (block : Open) :
    closes (indent + levels) ownLevel (deeper levels block) = closes indent ownLevel block := by
  simp [closes, deeper]

/-! ### Balanced lines on top of other blocks -/

private theorem quiet_stays {first : Token} {rest : List Token} {indent : Nat}
    (indented : lineIndent? (first :: rest) = some indent)
    (quiet : endsBefore (first :: rest) opened = []) :
    ∀ block ∈ opened.head?, closes indent (closesOwnLevel first) block = false := by
  intro block top
  obtain ⟨others, rfl⟩ := List.head?_eq_some_iff.mp top
  rw [endsBefore, closedBy_indented indented, List.map_eq_nil_iff] at quiet
  by_contra closed
  rw [List.takeWhile_cons_of_pos (by simpa using closed)] at quiet
  cases quiet

/-- A line closes no block above which it stands. -/
private theorem held_stays {first : Token} {indent : Nat}
    (stays : ∀ block ∈ opened.head?, closes indent (closesOwnLevel first) block = false)
    (below : ∀ block ∈ held, block.indent < levels) :
    ∀ block ∈ (opened.map (deeper levels) ++ held).head?,
      closes (indent + levels) (closesOwnLevel first) block = false := by
  intro block top
  cases opened with
  | nil =>
    have outside := below block (List.mem_of_mem_head? top)
    simp only [closes, Bool.and_eq_false_iff, Bool.or_eq_false_iff, decide_eq_false_iff_not]
    omega
  | cons own opened =>
    cases top
    rw [closes_deeper]
    exact stays own rfl

/-- A block that balanced lines close has its `end` among them, whose indentation decides whether
it could have gone without. -/
private theorem Balanced.nextIndent (balanced : Balanced lines opened) (solid : opened ≠ []) :
    ∃ indent, nextIndent? lines = some indent := by
  induction balanced with
  | nil => exact absurd rfl solid
  | @line line lines opened quiet paired others ih =>
    cases indented : lineIndent? line with
    | some indent => exact ⟨indent, nextIndent?_cons_indented indented⟩
    | none =>
      rw [nextIndent?_cons_unindented indented]
      exact ih (by rwa [visitLine_unindented indented])

/-- A line of balanced ones does to its own blocks what it did without those around them. -/
private theorem visited_shift {first : Token} {rest : List Token} {indent : Nat}
    (indented : lineIndent? (first :: rest) = some indent)
    (moved : lineIndent? (shift levels (first :: rest)) = some (indent + levels))
    (quiet : endsBefore (first :: rest) opened = [])
    (paired : isEndLine (first :: rest) = true → opened ≠ [])
    (next : (visitLine (first :: rest) lines opened).2 ≠ [] →
      ∃ indent, nextIndent? lines = some indent)
    (below : ∀ block ∈ held, block.indent < levels) (following : List (List Token)) :
    visitLine (shift levels (first :: rest)) (lines.map (shift levels) ++ following)
        (opened.map (deeper levels) ++ held) =
      ([], (visitLine (first :: rest) lines opened).2.map (deeper levels) ++ held) := by
  have stays := quiet_stays indented quiet
  obtain ⟨_, alone⟩ := visitLine_quiet indented stays
  obtain ⟨_, nested⟩ := visitLine_quiet moved (held_stays stays below)
  have dropped : (opened.map (deeper levels) ++ held).drop
      (if first.kind = .keyword .endWord then 1 else 0) =
        (opened.drop (if first.kind = .keyword .endWord then 1 else 0)).map (deeper levels) ++ held := by
    split
    next ends =>
      obtain ⟨block, others, rfl⟩ :=
        List.exists_cons_of_ne_nil (paired (by simp [isEndLine, indented, ends]))
      rfl
    next => rfl
  rw [alone] at next ⊢
  refine (nested _).trans (Prod.ext rfl ?_)
  show (if opensBlock (shift levels (first :: rest)) = true then _ else _) ++ _ = _
  rw [opensBlock_shift, dropped, List.map_append, List.append_assoc]
  split
  next opens =>
    rw [if_pos opens] at next
    obtain ⟨indent', found⟩ := next (by simp)
    simp [nextIndent?_append, nextIndent?_shift, found, deeper]
  next => rfl

/-- Balanced lines, all of them deeper than the open blocks, stay as they are, and so do the
blocks. -/
theorem Balanced.visitLinesBefore_shift (balanced : Balanced lines opened)
    (below : ∀ block ∈ held, block.indent < levels) (following : List (List Token)) :
    visitLinesBefore following (lines.map (shift levels)) (opened.map (deeper levels) ++ held) =
      ((lines.map (shift levels)).flatten, held) := by
  induction balanced with
  | nil => rfl
  | @line line lines opened quiet paired others ih =>
    -- All of `held` stays below the line, so the line does to its own blocks what it did without them.
    have visited : visitLine (shift levels line) (lines.map (shift levels) ++ following)
        (opened.map (deeper levels) ++ held) =
          ([], (visitLine line lines opened).2.map (deeper levels) ++ held) := by
      have moved := lineIndent?_shift levels line
      obtain unindented | ⟨first, rest, indent, rfl, indented⟩ := indent_cases line
      · rw [unindented] at moved
        rw [visitLine_unindented moved, visitLine_unindented unindented]
      · rw [indented] at moved
        exact visited_shift indented moved quiet paired others.nextIndent below following
    rw [List.map_cons, visitLinesBefore, visited]
    simp [ih]

/-- A unit whose blocks are all closed, spliced in deeper than the blocks that are open around it:
nothing is added in it or in front of it, and the same blocks are open after it as before. -/
theorem addBlockEnds_splice {unit before : List Token} {levels : Nat}
    (whole : Whole (addBlockEnds unit)) (closed : openAtEnd unit = [])
    (paired : strayEnd (logicalLines unit) [] = false) (ended : Whole before)
    (below : ∀ block ∈ (visitLines (logicalLines before) []).2, block.indent < levels)
    (after : List Token) :
    let spliced := shift levels (addBlockEnds unit)
    ∃ emitted held, passedBetween before (spliced ++ after) = (emitted, held) ∧
      (∀ line ∈ (logicalLines before).getLast?, line <:+ emitted) ∧
      passedBetween (before ++ spliced) after = (emitted ++ spliced, held) ∧
      addBlockEnds (before ++ spliced ++ after) = emitted ++ spliced ++
        (visitLines (logicalLines after) held).1 ++
        closedAtEnd (before ++ spliced ++ after) (visitLines (logicalLines after) held).2 := by
  intro spliced
  have wholeSpliced : Whole spliced := whole_shift whole
  have lines : logicalLines spliced = (logicalLines (addBlockEnds unit)).map (shift levels) :=
    logicalLines_shift levels _
  have same : logicalLines (spliced ++ after) = logicalLines spliced ++ logicalLines after :=
    wholeSpliced.logicalLines_append after
  cases passed : passedBetween before (spliced ++ after) with
  | mk emitted held =>
    have heldBelow : ∀ block ∈ held, block.indent < levels := by
      have indents := map_indent_visitLinesBefore (logicalLines (spliced ++ after))
        (logicalLines before) []
      rw [← passedBetween, passed] at indents
      rw [← List.forall_mem_map (f := Open.indent) (P := (· < levels))] at below ⊢
      rwa [indents]
    have inside : visitLinesBefore (logicalLines after) (logicalLines spliced) held =
        (spliced, held) := by
      have balanced := addBlockEnds_balanced paired closed
      have run := balanced.visitLinesBefore_shift heldBelow (logicalLines after)
      rwa [← lines, flatten_logicalLines] at run
    have through : passedBetween (before ++ spliced) after = (emitted ++ spliced, held) := by
      rw [passedBetween, same] at passed
      rw [passedBetween, ended.logicalLines_append, visitLinesBefore_append, passed, inside]
    refine ⟨emitted, held, rfl, fun line last => ?_, through, ?_⟩
    · have suffix := suffix_visitLinesBefore (logicalLines (spliced ++ after)) last []
      rwa [← passedBetween, passed] at suffix
    · rw [addBlockEnds_append (ended.append wholeSpliced), through]

/-- A unit with a block in a block, of which neither has an `end`. -/
def nestedUnit : List Token :=
  lineInRow 1 0 [.keyword .ifWord, .identifier ⟨1⟩] ++ eolInRow 1 ::
    (lineInRow 2 1 [.keyword .whileWord, .identifier ⟨1⟩] ++ eolInRow 2 ::
    lineInRow 3 2 [.identifier ⟨2⟩])

/-- The heads of a class and of a method. What follows decides whether the method needs an `end`. -/
def openMethod : List Token :=
  lineInRow 1 0 [.keyword .classWord, .identifier ⟨3⟩] ++ eolInRow 1 ::
    (lineInRow 2 1 [.identifier ⟨4⟩, .punctuation .openParens, .punctuation .closeParens,
      .punctuation .arrow] ++ [eolInRow 2])

theorem addBlockEnds_splice_in_method :
    Whole (addBlockEnds nestedUnit) ∧ openAtEnd nestedUnit = [] ∧
    strayEnd (logicalLines nestedUnit) [] = false ∧ Whole openMethod ∧
    (∀ block ∈ (visitLines (logicalLines openMethod) []).2, block.indent < 2) ∧
    let spliced := shift 2 (addBlockEnds nestedUnit)
    let after := lineInRow 3 0 [.identifier ⟨2⟩]
    ∃ emitted held, passedBetween openMethod (spliced ++ after) = (emitted, held) ∧
      (∀ line ∈ (logicalLines openMethod).getLast?, line <:+ emitted) ∧
      passedBetween (openMethod ++ spliced) after = (emitted ++ spliced, held) ∧
      addBlockEnds (openMethod ++ spliced ++ after) = emitted ++ spliced ++
        (visitLines (logicalLines after) held).1 ++
        closedAtEnd (openMethod ++ spliced ++ after) (visitLines (logicalLines after) held).2 := by
  have whole : Whole (addBlockEnds nestedUnit) := by decide
  have closed : openAtEnd nestedUnit = [] := by decide
  have paired : strayEnd (logicalLines nestedUnit) [] = false := by decide
  have ended : Whole openMethod := by decide
  have below : ∀ block ∈ (visitLines (logicalLines openMethod) []).2, block.indent < 2 := by decide
  exact ⟨whole, closed, paired, ended, below,
    addBlockEnds_splice whole closed paired ended below (lineInRow 3 0 [.identifier ⟨2⟩])⟩

end Arcade.Proofs
