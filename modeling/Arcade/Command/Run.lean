import Arcade.Analysis
import Arcade.Command.Arguments
import Arcade.Command.Dump
import Arcade.Command.Log
import Arcade.Command.Path
import Arcade.Syntax.Export

/-! What the program does with its arguments: a function of what can be read to what is
written. -/

namespace Arcade.Command

/-- A place that text is read from. -/
inductive Input where
  | standard
  | file (path : String)
deriving DecidableEq

/-- What a run depends on, its arguments apart. -/
structure Environment where
  read : Input → Except ReadFailure (List UInt8)
  /-- The description of the log filter, if there is one. It decides over the verbosity flags. -/
  logging : Option String := none

def Environment.readText (environment : Environment) (input : Input) : Except ReadFailure String :=
  environment.read input >>= Arcade.readText

/-- The exit code, the texts written, and all that was read. -/
structure Outcome where
  code : Nat
  stdout : String := ""
  stderr : String := ""
  asked : List Input := []
deriving DecidableEq

/-- The exit code of a run that a fault ended. -/
def faultCode : Nat := 101

/-- How many errors a report shows. -/
def maxReported : Nat := 20

/-- The line between parts of the output. -/
def separator : String := Text.paint .yellow (String.ofList (List.replicate 50 '-')) ++ "\n"

namespace Arguments

def input (arguments : Arguments) : Input := (arguments.script.map Input.file).getD .standard

/-- The path that positions show. -/
def path (arguments : Arguments) : String := arguments.script.getD "<stdin>"

/-- The directory of included sources: the one given, or that of the script, or the current. -/
def base (arguments : Arguments) : String :=
  arguments.includeDir.getD ((arguments.script.bind Path.parent?).getD ".")

def included (arguments : Arguments) (name : String) : Input :=
  .file (Path.join arguments.base name)

def resolver (arguments : Arguments) (environment : Environment) : Scan.Resolver := fun _ name =>
  (environment.readText (arguments.included name)).mapError ReadFailure.message

def filter (arguments : Arguments) (environment : Environment) : LogFilter :=
  match environment.logging with
  | some description => LogFilter.ofText description
  | none => LogFilter.ofVerbosity arguments.verbosity

def eventRecord (arguments : Arguments) : Scan.Event → LogRecord
  | .requested name =>
    ⟨.debug, "retrovm::syntax::source", "loading include " ++ Path.join arguments.base name⟩
  | .entered name depth =>
    ⟨.debug, "retrovm::syntax::lexer",
      "including \"" ++ name ++ "\" at depth " ++ toString depth⟩
  | .defined count =>
    ⟨.trace, "retrovm::syntax::lexer", "defined constant with " ++ toString count ++ " tokens"⟩

/-- The records of a tokenization. -/
def tokenRecords (arguments : Arguments) (result : Scan.Tokens) : List LogRecord :=
  result.events.map arguments.eventRecord ++
    [⟨.debug, "retrovm::syntax::lexer", "tokenized " ++ toString result.tokens.length
      ++ " tokens, " ++ toString result.errors.length ++ " errors"⟩]

/-- The records of an analysis. -/
def analysisRecords (arguments : Arguments) (analysis : Analysis) : List LogRecord :=
  arguments.tokenRecords analysis.tokens
    ++ analysis.syntaxErrors.map (fun error =>
      ⟨.trace, "retrovm::syntax::parser", "parser error: " ++ Dump.error error⟩)
    ++ [⟨.debug, "retrovm::syntax::parser", "parsed "
        ++ toString analysis.program.statements.length ++ " statements, "
        ++ toString analysis.syntaxErrors.length ++ " errors"⟩,
      ⟨.debug, "retrovm::syntax", "analyzed " ++ toString analysis.tokens.tokens.length
        ++ " tokens, " ++ toString analysis.problems.length ++ " errors"⟩]

end Arguments

/-- The tokens of a source, a line each. -/
def listing (tokens : List Token) (interner : Interner) : String :=
  separator ++ String.join (tokens.map fun token => token.shown interner ++ "\n") ++ separator

/-- The program as text and as data, as far as they are asked for. -/
def rendering (arguments : Arguments) (program : Program) (interner : Interner) : String :=
  (if arguments.ast && !arguments.check then
    separator ++ program.shown interner ++ "\n" ++ separator else "")
    ++ (if arguments.json && !arguments.check then
      (program.toJson interner).pretty 0 ++ "\n" else "")

/-- Analyzes a text that has been read. -/
def analyzeText (arguments : Arguments) (environment : Environment) (text : String) :
    Except Fault Outcome := do
  let resolver := arguments.resolver environment
  let (path, interner) := Interner.empty.intern arguments.path
  let (early, interner) ←
    if arguments.tokens then do
      let tokenizer : Scan.Tokenizer := { interner }
      let (result, tokenizer) ← tokenizer.tokenize resolver path text
      pure (some result, tokenizer.interner)
    else pure (none, interner)
  let (analysis, final) ← Analysis.analyze ⟨path, text⟩ interner resolver Globals.builtin
  let records := early.toList.flatMap arguments.tokenRecords ++ arguments.analysisRecords analysis
  let listed := early.elim "" fun result => listing result.tokens interner
  return {
    code := if analysis.problems.isEmpty then 0 else 2
    stdout := listed ++ rendering arguments analysis.program final
    stderr := (arguments.filter environment).shown records
      ++ report analysis.problems (some maxReported) final
    asked := arguments.input :: analysis.tokens.asked.map arguments.included }

/-- Reads the source and analyzes it. -/
def analyze (arguments : Arguments) (environment : Environment) : Outcome :=
  let asked := [arguments.input]
  let outcome : Outcome :=
    match environment.readText arguments.input with
    | .error failure =>
      { code := 1, stderr := Text.paint .red "Error" ++ ": " ++ failure.message ++ "\n", asked }
    | .ok text =>
      match analyzeText arguments environment text with
      | .ok outcome => outcome
      | .error fault => { code := faultCode, stderr := fault.message.getD "" ++ "\n", asked }
  { outcome with stderr := (arguments.filter environment).complaints ++ outcome.stderr }

/-- Does what the arguments ask for. The program's name is not among them. -/
def run (arguments : List String) (environment : Environment) : Outcome :=
  match Request.ofArguments arguments with
  | .error error => { code := 1, stderr := error.message }
  | .ok .help => { code := 0, stdout := helpText ++ "\n" }
  | .ok .version => { code := 0, stdout := versionText ++ "\n" }
  | .ok (.run arguments) => analyze arguments environment

end Arcade.Command
