import Arcade.Parse.Error
import Arcade.Scope.Basic

/-! Parsers over a list of tokens, and the steps that productions are made of. A parser that
fails keeps the state it has reached, as parsing goes on from there. -/

namespace Arcade.Parse

/-- The tokens not yet consumed, the open scopes, and the errors so far. -/
structure State where
  rest : List Token
  scopes : Scopes
  errors : List Error
deriving DecidableEq

inductive Outcome (α : Type) where
  | done (value : α) (state : State)
  | failed (error : Error) (recovery : Recovery) (state : State)
  | fault (fault : Fault)

abbrev Parser (α : Type) := State → Outcome α

namespace Parser

variable {α β : Type}

def finish (value : α) : Parser α := fun state => .done value state

def andThen (first : Parser α) (next : α → Parser β) : Parser β := fun state =>
  match first state with
  | .done value state => next value state
  | .failed error recovery state => .failed error recovery state
  | .fault fault => .fault fault

instance : Monad Parser where
  pure := finish
  bind := andThen

def fail (error : Error) (recovery : Recovery) : Parser α := fun state =>
  .failed error recovery state

def ofExcept (result : Except Fault α) : Parser α := fun state =>
  match result with
  | .ok value => .done value state
  | .error fault => .fault fault

/-- The current token. -/
def peek : Parser (Option Token) := fun state => .done state.rest.head? state

/-- Moves past the current token, if there is one. -/
def step : Parser Unit := fun state => .done () { state with rest := state.rest.tail }

/-- Whether the current token is of the given kind. -/
def isAt (kind : TokenKind) : Parser Bool := do
  return (← peek).any (·.kind = kind)

/-- Moves past the current token if it is of the given kind. -/
def stepIf (kind : TokenKind) : Parser Bool := do
  if ← isAt kind then
    step
    return true
  else return false

def skipEols : Parser Unit := fun state =>
  .done () { state with rest := state.rest.dropWhile (·.kind = .eol) }

/-- Consumes the current token if `accept` does, and answers what it makes of it. -/
def eat (accept : Token → Except (Error × Recovery) α) : Parser α := do
  match ← peek with
  | none => fail .unexpectedEnd .keep
  | some token =>
    match accept token with
    | .ok value =>
      step
      return value
    | .error (error, recovery) => fail error recovery

/-- Consumes a token of the given kind. -/
def expect (kind : TokenKind) : Parser Position :=
  eat fun token =>
    if token.kind = kind then .ok token.pos
    else .error (.unexpected token (.token kind), .line)

/-- Consumes the `end` of a block. Another token is kept, as it may end an enclosing block. -/
def expectEnd : Parser Unit :=
  eat fun token =>
    if token.kind = .keyword .endWord then .ok ()
    else .error (.unexpected token (.token (.keyword .endWord)), .keep)

def identifier : Parser (Symbol × Position) :=
  eat fun token =>
    match token.kind with
    | .identifier name => .ok (name, token.pos)
    | _ => .error (.unexpected token (.words "identifier"), .line)

/-- Records an error that does not interrupt the production. -/
def report (error : Error) : Parser Unit := fun state =>
  .done () { state with errors := state.errors ++ [error] }

def scopes : Parser Scopes := fun state => .done state.scopes state

def declare (name : Symbol) (kind : DeclKind) (pos : Position) : Parser Unit := fun state =>
  match state.scopes.add name kind pos with
  | .ok (_, scopes) => .done () { state with scopes }
  | .error fault => .fault fault

/-- Reports an error unless the name is declared, as the given kind if there is one. -/
def requireDeclared (name : Symbol) (kind : Option DeclKind) (error : Error) : Parser Unit := do
  if (← ofExcept ((← scopes).find? name kind)).isNone then report error

/-- Reports an error outside of class bodies. -/
def requireClass (error : Error) : Parser Unit := do
  if !(← scopes).inClass then report error

def leaveScope (state : State) (outcome : State → Outcome α) : Outcome α :=
  match state.scopes.leave with
  | .ok (_, scopes) => outcome { state with scopes }
  | .error fault => .fault fault

/-- Runs a parser in a new scope, which is closed also if the parser fails. -/
def inScope (kind : ScopeKind) (body : Parser α) : Parser α := fun state =>
  match body { state with scopes := state.scopes.enter kind } with
  | .done value state => leaveScope state (.done value)
  | .failed error recovery state => leaveScope state (.failed error recovery)
  | .fault fault => .fault fault

/-- What a speculative parser may have changed, to be restored after it. -/
structure Checkpoint where
  rest : List Token
  errors : Nat
  scopes : Mark

def checkpoint (state : State) : Checkpoint :=
  ⟨state.rest, state.errors.length, state.scopes.mark⟩

def restore (point : Checkpoint) (state : State) : State :=
  ⟨point.rest, state.scopes.rewind point.scopes, state.errors.take point.errors⟩

/-- Whether the tokens after the next `skip` ones satisfy a test. The test leaves no trace. -/
def speculate (skip : Nat) (test : Parser Bool) : Parser Bool := fun state =>
  let point := checkpoint state
  match test { state with rest := state.rest.drop skip } with
  | .done found state => .done found (restore point state)
  | .failed _ _ state => .done false (restore point state)
  | .fault fault => .fault fault

/-- Whether a loop goes on after a turn. -/
inductive Turn (α : Type) where
  | again (value : α)
  | stop (value : α)

/-- Takes turns until one stops, at most `count` of them. -/
def iterate (turn : α → Parser (Turn α)) : (count : Nat) → α → Parser α
  | 0, _ => ofExcept (.error .exhausted)
  | count + 1, value => do
    match ← turn value with
    | .again value => iterate turn count value
    | .stop value => return value

/-- Takes turns until one stops. A turn that goes on has consumed a token, so there are no more
of those than tokens. -/
def loop (turn : α → Parser (Turn α)) (value : α) : Parser α := fun state =>
  iterate turn (state.rest.length + 1) value state

/-- One or more items with commas between them. Line ends are allowed after the commas. -/
def commaSeparated (item : Parser α) : Parser (List α) := do
  let first ← item
  loop (fun items => do
    if ← stepIf (.punctuation .comma) then
      skipEols
      return .again (items ++ [← item])
    else return .stop items) [first]

/-- Items up to the closing token, which is left. There may be none, a comma after the last, and
line ends around them. -/
def delimited (closing : TokenKind) (item : Parser α) : Parser (List α) :=
  loop (fun items => do
    skipEols
    if ← isAt closing then return .stop items
    let items := items ++ [← item]
    skipEols
    if ← stepIf (.punctuation .comma) then return .again items
    else return .stop items) []

/-- Items between an opening and a closing token. -/
def enclosed (opening closing : Punctuation) (item : Parser α) : Parser (List α) := do
  let _ ← expect (.punctuation opening)
  let items ← delimited (.punctuation closing) item
  let _ ← expect (.punctuation closing)
  return items

/-- Skips to the place where parsing goes on. -/
def synchronize : Recovery → List Token → List Token
  | .keep, rest => rest
  | .skipOne, rest => rest.tail
  | .line, rest => rest.dropWhile fun token => token.kind != .eol && !token.kind.isBlockTerminator

/-- Runs a parser; if it fails, records the error, goes on from the next good place and answers
`fallback`. -/
def recovering (fallback : α) (parser : Parser α) : Parser α := fun state =>
  match parser state with
  | .failed error recovery state =>
    .done fallback
      { state with rest := synchronize recovery state.rest, errors := state.errors ++ [error] }
  | outcome => outcome

end Parser
end Arcade.Parse
