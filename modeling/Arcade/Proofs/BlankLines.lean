import Arcade.Proofs.PartialClosing
import Arcade.Proofs.ProgramReadings
import Arcade.Proofs.RepeatedLinesParsed

/-! Blank lines say nothing. Repeated behind a line, its end is a line of its own that closes and opens
no block, and the parser reads what it does without it. -/

namespace Arcade.Proofs
open Arcade.Indent Arcade.Parse

/-- Parsing does not depend on how often line ends are repeated. -/
theorem parse_repeats {first second : List Token} (repeats : Repeats first second) (scopes : Scopes) :
    ∃ parsed, parse first scopes = .ok parsed ∧ parse second scopes = .ok parsed := by
  obtain ⟨body, trace, run, _, _⟩ := program_runs anyReading_closed first
  obtain ⟨body', trace', run', _, _⟩ := program_runs anyReading_closed second
  have agreed := statements_alike (ofLevels_alike (first.length + 1) (second.length + 1)) first second
    repeats scopes.reset []
  have done := run.run (Nest.ofGlobals scopes) [] rfl
  have done' := run'.run (Nest.ofGlobals scopes) [] rfl
  rw [Nest.flatten_ofGlobals] at done done'
  rw [done, done'] at agreed
  obtain ⟨statements, left, errors⟩ := agreed.done_eq
  rw [List.nil_append, List.nil_append] at errors
  refine ⟨_, parse_of_runs run _, ?_⟩
  rw [parse_of_runs run', statements, left, errors]

/-- Closing blocks leaves a repeated line end behind the one that it repeats. -/
theorem addBlockEnds_repeats (before after : List Token) {eol : Token} (ends : isEol eol = true) :
    Repeats (addBlockEnds (before ++ eol :: after)) (addBlockEnds (before ++ eol :: eol :: after)) := by
  have whole : Whole (before ++ [eol]) := by simpa [Whole] using ends
  have unindented : lineIndent? [eol] = none := by simp [lineIndent?, ends]
  have lines : logicalLines (eol :: after) = [eol] :: logicalLines after := by
    simp [logicalLines, ends]
  have passed : passedBetween (before ++ [eol]) (eol :: after) =
      passedBetween (before ++ [eol]) after := by
    rw [passedBetween, lines]
    exact visitLinesBefore_congr (nextIndent?_cons_unindented unindented) _ _
  have last (opened : List Open) : closedAtEnd (before ++ [eol] ++ eol :: after) opened =
      closedAtEnd (before ++ [eol] ++ after) opened := by
    cases after <;> simp [closedAtEnd, List.getLast?_append]
  have visited (opened : List Open) : visitLines (logicalLines (eol :: after)) opened =
      (eol :: (visitLines (logicalLines after) opened).1, (visitLines (logicalLines after) opened).2) := by
    rw [lines, visitLines, visitLine_unindented unindented]
    rfl
  obtain ⟨emitted, atEnd⟩ : [eol] <:+ (passedBetween (before ++ [eol]) after).1 := by
    obtain ⟨line, there, suffix⟩ := whole.last_line List.getLast?_concat
    exact suffix.trans (suffix_visitLinesBefore _ there [])
  have once := addBlockEnds_append whole after
  have twice := addBlockEnds_append whole (eol :: after)
  rw [passed, last, visited] at twice
  rw [← atEnd] at once twice
  simp only [List.append_assoc, List.cons_append, List.nil_append] at once twice
  rw [once, twice]
  exact .append emitted (.again (by simpa [isEol] using ends) (.refl _))

/-- A repeated line end changes neither the statements of a program, with their positions, nor the
errors in it. -/
theorem parse_blank_line (before after : List Token) {eol : Token} (ends : isEol eol = true)
    (scopes : Scopes) :
    ∃ parsed, parse (addBlockEnds (before ++ eol :: after)) scopes = .ok parsed ∧
      parse (addBlockEnds (before ++ eol :: eol :: after)) scopes = .ok parsed :=
  parse_repeats (addBlockEnds_repeats before after ends) scopes

/-- Behind the opening parenthesis of a call, and in front of a line that should not be there. -/
theorem parse_blank_line_in_call :
    let eol := Token.synthesized .eol 2 ⟨1, 2, .invalid⟩
    let call := inLine [.identifier ⟨1⟩, .punctuation .openParens]
    let stray := inLine [.keyword .whileWord]
    isEol eol = true ∧ ∃ parsed, parse (addBlockEnds (call ++ eol :: stray)) ⟨[], [], 0⟩ = .ok parsed ∧
      parse (addBlockEnds (call ++ eol :: eol :: stray)) ⟨[], [], 0⟩ = .ok parsed :=
  ⟨rfl, parse_blank_line _ _ rfl ⟨[], [], 0⟩⟩

end Arcade.Proofs
