import Arcade.Text.Similarity

/-! The arguments of the command line. -/

namespace Arcade.Command

/-- What may be given on the command line. -/
inductive Parameter where
  | ast | check | help | includeDir | json | script | tokens | version | verbose
deriving DecidableEq

namespace Parameter

/-- The parameters that are given by name, in the order in which usage lines show them. -/
def named : List Parameter := [ast, check, help, includeDir, json, tokens, version, verbose]

/-- The options with a long name, in the order of their declaration. -/
def long? : Parameter → Option String
  | check => some "check"
  | tokens => some "tokens"
  | ast => some "ast"
  | json => some "json"
  | help => some "help"
  | version => some "version"
  | includeDir => some "include"
  | script | verbose => none

def declared : List Parameter := [check, tokens, ast, json, help, version, includeDir]

def short? : Parameter → Option Char
  | verbose => some 'v'
  | help => some 'h'
  | version => some 'V'
  | includeDir => some 'I'
  | _ => none

/-- The parameter as usage lines and errors show it. -/
def shown : Parameter → String
  | script => "<script>"
  | verbose => "-v"
  | includeDir => "--include <include>"
  | option => "--" ++ option.long?.getD ""

def ofLong? (name : String) : Option Parameter := declared.find? (·.long? = some name)
def ofShort? (letter : Char) : Option Parameter := named.find? (·.short? = some letter)

end Parameter

/-- Why arguments are refused. `given` are the parameters already seen. -/
inductive ArgumentError where
  | unknown (argument : String) (suggestion : Option Parameter) (given : List Parameter)
  | repeated (parameter : Parameter) (given : List Parameter)
  | missingValue (parameter : Parameter) (given : List Parameter)
deriving DecidableEq

/-- The usage line for the parameters that were given. The script is not repeated. -/
def usage (given : List Parameter) : String :=
  let shown := (Parameter.named.filter given.contains).map fun parameter => " " ++ parameter.shown
  "USAGE:\n    retrovm"
    ++ (if shown.isEmpty then " [FLAGS] [OPTIONS] [script]" else String.join shown)

/-- Suggestions are green wherever they are written. -/
def suggested (text : String) : String := "\x1b[32m" ++ text ++ "\x1b[0m"

def ArgumentError.message (error : ArgumentError) : String :=
  let closing given := "\n\n" ++ usage given ++ "\n\nFor more information try --help\n"
  match error with
  | .unknown argument suggestion given =>
    "error: Found argument '" ++ argument
      ++ "' which wasn't expected, or isn't valid in this context"
      ++ (match suggestion with
        | some parameter =>
          "\n\tDid you mean " ++ suggested "--" ++ suggested (parameter.long?.getD "") ++ "?"
            ++ closing (parameter :: given)
        | none => closing given)
  | .repeated parameter given =>
    "error: The argument '" ++ parameter.shown
      ++ "' was provided more than once, but cannot be used multiple times" ++ closing given
  | .missingValue parameter given =>
    "error: The argument '" ++ parameter.shown ++ "' requires a value but none was supplied"
      ++ closing given

def versionText : String := "retrovm 0.1.0"

def helpText : String :=
  versionText ++ "\n\n" ++
    "Script front-end and memory core for a small retro-style virtual machine\n\n" ++
    "USAGE:\n    retrovm [FLAGS] [OPTIONS] [script]\n\n" ++
    "FLAGS:\n" ++
    "        --ast        Print the AST\n" ++
    "        --check      Only report errors\n" ++
    "    -h, --help       Prints help information\n" ++
    "        --json       Print the AST as JSON\n" ++
    "        --tokens     Print the tokens\n" ++
    "    -V, --version    Prints version information\n" ++
    "    -v               Increase the log verbosity\n\n" ++
    "OPTIONS:\n    -I, --include <include>    Directory for resolving includes\n\n" ++
    "ARGS:\n    <script>    The script to analyze, defaults to stdin"

structure Arguments where
  /-- The path of the script; standard input is read if there is none. -/
  script : Option String := none
  /-- The directory of included sources. -/
  includeDir : Option String := none
  /-- Only errors are wanted. -/
  check : Bool := false
  tokens : Bool := false
  ast : Bool := false
  json : Bool := false
  verbosity : Nat := 0
deriving DecidableEq

/-- What a command line asks for. -/
inductive Request where
  | help
  | version
  | run (arguments : Arguments)
deriving DecidableEq

/-- The arguments read so far. -/
structure Reader where
  /-- Every parameter given, as often as it was. -/
  given : List Parameter := []
  script : Option String := none
  includeDirs : List String := []
  /-- The next argument is the directory of included sources. -/
  awaiting : Bool := false
  /-- After `--` all arguments are positional. -/
  trailing : Bool := false
deriving DecidableEq

/-- How reading an argument ends the command line. -/
inductive Stop where
  | request (request : Request)
  | error (error : ArgumentError)

namespace Reader

def give (reader : Reader) (parameter : Parameter) : Reader :=
  { reader with given := reader.given ++ [parameter] }

/-- Takes the directory option, with its value if it is in the same argument. Equals signs
before the value are no part of it. -/
def giveDir (reader : Reader) (value : Option (List Char)) : Reader :=
  let reader := reader.give .includeDir
  match value with
  | none => { reader with awaiting := true }
  | some value =>
    let dir := String.ofList (value.dropWhile (· == '='))
    { reader with includeDirs := reader.includeDirs ++ [dir], awaiting := false }

/-- Takes an option, which may ask for help or the version. -/
def giveOption (reader : Reader) (parameter : Parameter) (value : Option (List Char)) :
    Except Stop Reader :=
  match parameter with
  | .help => .error (.request .help)
  | .version => .error (.request .version)
  | .includeDir => .ok (reader.giveDir value)
  | flag => .ok { reader.give flag with awaiting := false }

def readLong (reader : Reader) (argument : List Char) : Except Stop Reader :=
  let body := argument.dropWhile (· == '-')
  let name := String.ofList (body.takeWhile (· != '='))
  let value := if body.contains '=' then some ((body.dropWhile (· != '=')).drop 1) else none
  match Parameter.ofLong? name with
  | some parameter => reader.giveOption parameter value
  | none =>
    let similar := Text.mostSimilar? name (Parameter.declared.filterMap Parameter.long?)
    .error (.error (.unknown ("--" ++ name) (similar.bind Parameter.ofLong?) reader.given))

/-- Reads letters that are options, up to one that takes the rest as its value. -/
def readShorts (reader : Reader) : List Char → Except Stop Reader
  | [] => .ok reader
  | letter :: rest =>
    match Parameter.ofShort? letter with
    | some .includeDir => .ok (reader.giveDir (if rest.isEmpty then none else some rest))
    | some parameter => do readShorts (← reader.giveOption parameter none) rest
    | none => .error (.error (.unknown (String.ofList ['-', letter]) none reader.given))

/-- Takes the script; there can be only one. -/
def readPositional (reader : Reader) (argument : String) : Except Stop Reader :=
  match reader.script with
  | none => .ok { reader.give .script with script := some argument }
  | some _ => .error (.error (.unknown argument none reader.given))

def read (reader : Reader) (argument : String) : Except Stop Reader :=
  let chars := argument.toList
  if reader.trailing then reader.readPositional argument
  else if argument = "--" then .ok { reader with trailing := true }
  else if chars.take 2 = ['-', '-'] then reader.readLong chars
  else if chars.head? = some '-' && chars.length != 1 then
    reader.readShorts (chars.dropWhile (· == '-'))
  else if reader.awaiting then
    .ok { reader with includeDirs := reader.includeDirs ++ [argument], awaiting := false }
  else reader.readPositional argument

/-- Checks what can only be said of the whole command line. -/
def finish (reader : Reader) : Except ArgumentError Arguments :=
  let repeats := Parameter.named.find? fun parameter =>
    parameter != .verbose && 1 < reader.given.count parameter
  if reader.given.contains .includeDir && reader.includeDirs.isEmpty then
    .error (.missingValue .includeDir reader.given)
  else match repeats with
    | some parameter => .error (.repeated parameter reader.given)
    | none => .ok
      { script := reader.script
        includeDir := reader.includeDirs.head?
        check := reader.given.contains .check
        tokens := reader.given.contains .tokens
        ast := reader.given.contains .ast
        json := reader.given.contains .json
        verbosity := reader.given.count .verbose }

/-- Reads all arguments, until one of them decides the request. -/
def readAll (reader : Reader) : List String → Except Stop Reader
  | [] => .ok reader
  | argument :: rest => do readAll (← reader.read argument) rest

end Reader

/-- The request of a command line, the program's name left out. -/
def Request.ofArguments (arguments : List String) : Except ArgumentError Request :=
  match Reader.readAll {} arguments with
  | .error (.request request) => .ok request
  | .error (.error error) => .error error
  | .ok reader => (reader.finish).map .run

end Arcade.Command
