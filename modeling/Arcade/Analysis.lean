import Arcade.Parse.Grammar
import Arcade.Scan.Tokenizer
import Arcade.Source
import Arcade.Syntax.Printer

/-! The analysis of a source: its tokens, its program, and all that is wrong with either. -/

namespace Arcade

/-- An error of either stage. -/
inductive Problem where
  | lexical (error : Scan.Error)
  | syntactic (error : Parse.Error)
deriving DecidableEq

namespace Problem

def shown (problem : Problem) (interner : Interner) : String :=
  match problem with
  | lexical error => error.shown interner
  | syntactic error => error.shown interner

/-- The text without names and paths. -/
def plain (problem : Problem) : String := problem.shown Interner.empty

end Problem

/-- The lines of a report, at most `limit` of them; a last line counts the problems left out. -/
def report (problems : List Problem) (limit : Option Nat) (interner : Interner) : String :=
  let count := (limit.map (min problems.length)).getD problems.length
  let line problem := Text.paint .red "Error" ++ ": " ++ problem.shown interner ++ "\n"
  let left := problems.length - count
  String.join ((problems.take count).map line)
    ++ (if left = 0 then ""
      else Text.paint .red (toString left) ++ " "
        ++ Text.paint .red "more suppressed syntax errors" ++ "\n")

structure Analysis where
  /-- The program, incomplete if there are syntax errors. -/
  program : Program
  /-- All errors, lexical ones first. -/
  problems : List Problem
  tokens : Scan.Tokens
  syntaxErrors : List Parse.Error

namespace Analysis

/-- Analyzes a source. It is parsed also if it has lexical errors, to find as many errors as
possible. -/
def analyze (source : Source) (interner : Interner) (resolver : Scan.Resolver)
    (globals : Globals) : Except Fault (Analysis × Interner) := do
  let tokenizer : Scan.Tokenizer := { interner }
  let (tokens, tokenizer) ← tokenizer.tokenize resolver source.path source.text
  let (scopes, interner) := Scopes.ofGlobals globals tokenizer.interner
  let parsed ← Parse.parse tokens.tokens scopes
  let problems := tokens.errors.map Problem.lexical ++ parsed.errors.map Problem.syntactic
  return (⟨⟨source.path, parsed.statements⟩, problems, tokens, parsed.errors⟩, interner)

/-- The program, if there were no errors. -/
def valid? (analysis : Analysis) : Except (List Problem) Program :=
  if analysis.problems.isEmpty then .ok analysis.program else .error analysis.problems

/-- The report, then the program. -/
def shown (analysis : Analysis) (limit : Option Nat) (interner : Interner) : String :=
  report analysis.problems limit interner ++ analysis.program.shown interner

end Analysis
end Arcade
