import Arcade.Indent.BlockEnds
import Arcade.Scan.Error
import Arcade.Scan.Lexeme
import Arcade.Scan.Literal

/-! From source text to tokens. Named constants are replaced by their tokens, included sources
take the place of their directives, and blocks closed by indentation get their `end`. -/

namespace Arcade.Scan

/-- How many include directives may be nested. -/
def maxIncludeDepth : Nat := 16

/-- Loads the text of an included source, or says why that failed. The answer may depend on
the names asked for before. -/
abbrev Resolver := (asked : List String) → (name : String) → Except String String

/-- The resolver for sources that may not include anything. -/
def Resolver.none : Resolver := fun _ name =>
  .error ("includes are disabled, can't load \"" ++ name ++ "\"")

/-- Constants and the tokens they stand for, the newest first. -/
abbrev Constants := List (Symbol × List Token)

/-- What a token stands for: the tokens of a constant, or itself. -/
def expand (constants : Constants) (token : Token) : List Token :=
  match token.kind with
  | .identifier name => (constants.lookup name).getD [token]
  | _ => [token]

/-- What is being read after a `CONST` word. -/
inductive Directive where
  | none
  /-- The name is expected next. -/
  | name (pos : Position)
  /-- The tokens up to the end of the line are the constant's. They are dropped if the name is
  the invalid one. -/
  | body (name : Symbol) (tokens : List Token)
deriving DecidableEq

/-- Steps of a scan that leave no token of their own. -/
inductive Event where
  /-- An included source was asked for. -/
  | requested (name : String)
  /-- An included source was loaded, nested this deep. -/
  | entered (name : String) (depth : Nat)
  /-- A constant was given this many tokens. -/
  | defined (count : Nat)
deriving DecidableEq

/-- What a part of a source yields. -/
structure Output where
  tokens : List Token := []
  errors : List Error := []
  events : List Event := []
deriving DecidableEq

instance : Append Output where
  append first second :=
    ⟨first.tokens ++ second.tokens, first.errors ++ second.errors, first.events ++ second.events⟩

def Output.error (kind : ErrorKind) (pos : Position) : Output := { errors := [⟨kind, pos⟩] }

/-- What outlives a source: the texts interned, the constants defined and the names asked for. -/
structure Session where
  interner : Interner
  constants : Constants
  asked : List String := []

/-- The state within a source. `annotated` is the last line whose first token has been given
its indentation. -/
structure Progress where
  session : Session
  directive : Directive := .none
  annotated : Option Nat := none

/-- Records a constant, unless its directive was malformed. -/
def Session.define (session : Session) (name : Symbol) (tokens : List Token) : Output × Session :=
  if name = Symbol.invalid then ({}, session)
  else
    ({ events := [.defined tokens.length] },
      { session with constants := (name, tokens) :: session.constants })

/-- Puts tokens on the line of the cursor. Only the first token of a line shows the line's
indentation. -/
def Progress.place (progress : Progress) (cursor : Cursor) : List Token → Output × Progress
  | [] => ({}, progress)
  | first :: rest =>
    let indent := if progress.annotated = some cursor.line then none else some cursor.indent
    ({ tokens := { first with indent } :: rest.map ({ · with indent := none }) },
      { progress with annotated := some cursor.line })

/-- Takes the next token: as a part of a directive, or as a token of the source. -/
def Progress.append (progress : Progress) (cursor : Cursor) (token : Token) : Output × Progress :=
  match progress.directive with
  | .none => progress.place cursor (expand progress.session.constants token)
  | .name pos =>
    match token.kind with
    | .identifier name => ({}, { progress with directive := .body name [] })
    | .eol => (.error .invalidConstant pos, { progress with directive := .none })
    | _ => (.error .invalidConstant pos, { progress with directive := .body Symbol.invalid [] })
  | .body name tokens =>
    if token.kind = .eol then
      let (output, session) := progress.session.define name tokens
      (output, { progress with session, directive := .none })
    else
      let tokens := tokens ++ expand progress.session.constants token
      ({}, { progress with directive := .body name tokens })

/-- Completes a source. A constant still being read ends here. -/
def Progress.finish (progress : Progress) : Output × Session :=
  match progress.directive with
  | .body name tokens => progress.session.define name tokens
  | _ => ({}, progress.session)

/-- Scans a whole source, given the symbol of its path. -/
abbrev Scanner := (path : Symbol) → (text : List Char) → Session → Except Fault (Output × Session)

/-- Nests the indentation of tokens `levels` deeper. -/
def shift (levels : Nat) (tokens : List Token) : List Token :=
  tokens.map fun token => { token with indent := token.indent.map (· + levels) }

/-- Puts an included source in the place of its directive. The source sees none of the
constants defined so far, and adds its own to them. If it has errors, nothing of it is kept
but the errors. `nested` is the depth inside of the source and its scanner, none if it would be
too deep. -/
def include? (resolver : Resolver) (nested : Option (Nat × Scanner)) (name : String)
    (cursor : Cursor) (pos : Position) (session : Session) : Except Fault (Output × Session) :=
  match nested with
  | none => .ok (.error (.inclusion name .tooDeep) pos, session)
  | some (depth, scan) =>
    let requested : Output := { events := [.requested name] }
    let asking := { session with asked := session.asked ++ [name] }
    match resolver session.asked name with
    | .error reason => .ok (requested ++ .error (.inclusion name (.unreadable reason)) pos, asking)
    | .ok text => do
      let (path, interner) := session.interner.intern name
      let (output, inner) ← scan path text.toList { asking with interner, constants := [] }
      let entered : Output := { events := [.requested name, .entered name depth] }
      if output.errors.isEmpty then
        let tokens := shift cursor.indent (Indent.addBlockEnds output.tokens)
        return (entered ++ { output with tokens },
          { inner with constants := inner.constants ++ session.constants })
      else
        let failure := Output.error (.inclusion name (.errors output.errors.length)) pos
        return (entered ++ { output with tokens := [] } ++ failure,
          { inner with constants := session.constants })

/-- What a lexeme yields, and the state after it. -/
def visit (resolver : Resolver) (nested : Option (Nat × Scanner)) (path : Symbol) (lexeme : Lexeme)
    (progress : Progress) : Except Fault (Output × Progress) :=
  let pos := lexeme.pos path
  let token kind : Token := { kind, span := lexeme.span, pos }
  let append kind := progress.append lexeme.start (token kind)
  let inner := (lexeme.text.drop 1).dropLast
  match lexeme.rule with
  | .blank | .lineComment | .blockComment => .ok ({}, progress)
  | .unclosedComment => .ok (.error .unterminatedComment pos, progress)
  | .unclosedString => .ok (.error .unterminatedString pos, progress)
  | .lineEnd => .ok (append .eol)
  | .inclusion => do
    let name := String.ofList (inner.drop 1)
    let (output, session) ← include? resolver nested name lexeme.start pos progress.session
    return (output, { progress with session })
  | .number =>
    match numberValue? lexeme.text with
    | some value => .ok (append (.literal value))
    | none => .ok (.error (.invalidNumber (String.ofList lexeme.text)) pos, progress)
  | .string =>
    match unescape inner with
    | .ok value => .ok (append (.literal (.string (String.ofList value))))
    | .error sequence => .ok (.error (.invalidEscape (String.ofList sequence)) pos, progress)
  | .reserved => do
    match ← reservedKind lexeme.text with
    | some kind => return append kind
    | none => return ({}, { progress with directive := .name pos })
  | .identifier =>
    let (name, interner) := progress.session.interner.intern (String.ofList lexeme.text)
    .ok ({ progress with session := { progress.session with interner } }.append lexeme.start
      (token (.identifier name)))
  | .sign =>
    match signKind? lexeme.text with
    | some kind => .ok (append kind)
    | none => .error (.unknownSign (String.ofList lexeme.text))
  | .unknown =>
    match lexeme.text with
    | c :: _ => .ok (.error (.unexpected c) pos, progress)
    | [] => .ok ({}, progress)

/-- Visits lexemes in order and completes the source. -/
def visitAll (resolver : Resolver) (nested : Option (Nat × Scanner)) (path : Symbol) :
    List Lexeme → Progress → Except Fault (Output × Session)
  | [], progress => .ok progress.finish
  | lexeme :: rest, progress => do
    let (output, progress) ← visit resolver nested path lexeme progress
    let (following, session) ← visitAll resolver nested path rest progress
    return (output ++ following, session)

/-- The scanner that may nest `levels` includes. Its tokens have no added block ends yet. -/
def scan (resolver : Resolver) : (levels : Nat) → Scanner
  | 0 => fun path text session =>
    visitAll resolver none path (lexemes text) { session }
  | levels + 1 => fun path text session =>
    visitAll resolver (some (maxIncludeDepth - levels, scan resolver levels)) path (lexemes text)
      { session }

/-- The tokens of a source. They are kept also when there are errors. -/
structure Tokens where
  tokens : List Token
  errors : List Error
  events : List Event
deriving DecidableEq

/-- The names of the sources asked for, in order. -/
def Tokens.asked (result : Tokens) : List String :=
  result.events.filterMap fun
    | .requested name => some name
    | _ => none

/-- The tokens, if there were no errors. -/
def Tokens.valid? (result : Tokens) : Except (List Error) (List Token) :=
  if result.errors.isEmpty then .ok result.tokens else .error result.errors

/-- Constants survive from one source to the next, until they are reset. -/
structure Tokenizer where
  interner : Interner
  constants : Constants := []

namespace Tokenizer

/-- Forgets all constants. -/
def reset (tokenizer : Tokenizer) : Tokenizer := { tokenizer with constants := [] }

/-- The tokens recorded for a constant. -/
def constant? (tokenizer : Tokenizer) (name : Symbol) : Option (List Token) :=
  tokenizer.constants.lookup name

/-- Tokenizes a source to its end, whatever errors there are. -/
def tokenize (tokenizer : Tokenizer) (resolver : Resolver) (path : Symbol) (text : String) :
    Except Fault (Tokens × Tokenizer) := do
  let (output, session) ← scan resolver maxIncludeDepth path text.toList
    { interner := tokenizer.interner, constants := tokenizer.constants }
  return (⟨Indent.addBlockEnds output.tokens, output.errors, output.events⟩,
    ⟨session.interner, session.constants⟩)

end Tokenizer
end Arcade.Scan
