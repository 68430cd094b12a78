import Arcade.Parse.Parser
import Arcade.Syntax.Tree

/-! The productions of the language. Names are resolved while parsing: every identifier must
refer to a declaration of an enclosing scope. A production that contains others of its own sort
takes them from a `Grammar`; one is built from the next smaller one, as a contained production
starts after at least one token of its own. -/

namespace Arcade.Parse

open Arcade.Parse.Parser

/-- The parsers for what stands inside of a production. -/
structure Grammar where
  expression : Parser Expr
  block : Parser Block
  /-- The rest of an `if` statement after its keyword, which stood at the position. -/
  ifRest : Position → Parser Statement

/-! ### Functions -/

/-- The parameters of a function in parentheses. -/
def params : Parser (List (Symbol × Position)) := enclosed .openParens .closeParens identifier

/-- Whether the head of a function starts after the next `skip` tokens. -/
def functionFollows (skip : Nat) : Parser Bool :=
  speculate skip do
    let _ ← params
    isAt (.punctuation .arrow)

/-- Reports every parameter that one before it, or among `earlier`, has the name of. -/
def reportDuplicates (earlier : List Symbol) : List (Symbol × Position) → Parser Unit
  | [] => return ()
  | (name, pos) :: rest => do
    if earlier.contains name then report (.duplicateParams pos)
    reportDuplicates (name :: earlier) rest

def declareParams : List (Symbol × Position) → Parser Unit
  | [] => return ()
  | (name, pos) :: rest => do
    declare name .varDecl pos
    declareParams rest

/-- A function from its parameters on. -/
def function (grammar : Grammar) : Parser (List Symbol × Block) := do
  let params ← params
  reportDuplicates [] params
  let _ ← expect (.punctuation .arrow)
  let body ← inScope .functionBody do
    declareParams params
    grammar.block
  expectEnd
  return (params.map (·.1), body)

/-! ### Expressions -/

/-- An entry of a dict, either `key: value` or `:key`, which is short for `key: key`. -/
def dictEntry (grammar : Grammar) : Parser (Symbol × Expr) := do
  if ← stepIf (.punctuation .colon) then
    let (key, pos) ← identifier
    requireDeclared key none (.undeclared key pos)
    return (key, .identifier key pos)
  else
    let (key, _) ← identifier
    let _ ← expect (.punctuation .colon)
    skipEols
    return (key, ← grammar.expression)

def primary (grammar : Grammar) : Parser Expr := do
  match ← peek with
  | none => fail .unexpectedEnd .keep
  | some token =>
    let pos := token.pos
    match token.kind with
    | .identifier name =>
      step
      requireDeclared name none (.undeclared name pos)
      return .identifier name pos
    | .keyword .thisWord =>
      step
      requireClass (.thisOutsideClass pos)
      return .thisRef pos
    | .keyword .superWord =>
      step
      requireClass (.superOutsideClass pos)
      return .superRef pos
    | .punctuation .atSign =>
      step
      let (name, _) ← identifier
      requireClass (.thisOutsideClass pos)
      return .field name pos
    | .literal value =>
      step
      return .literal value pos
    | .punctuation .openBracket =>
      return .array (← enclosed .openBracket .closeBracket grammar.expression) pos
    | .punctuation .openBrace =>
      return .dict (← enclosed .openBrace .closeBrace (dictEntry grammar)) pos
    | .punctuation .openParens =>
      if ← functionFollows 0 then
        let (params, body) ← function grammar
        return .function params body pos
      else
        step
        let inner ← grammar.expression
        let _ ← expect (.punctuation .closeParens)
        return inner
    | .keyword .newWord =>
      step
      let (className, classPos) ← identifier
      requireDeclared className (some .classDecl) (.undeclaredClass className classPos)
      let args ← enclosed .openParens .closeParens grammar.expression
      return .new className args pos
    | _ => fail (.unexpected token (.words "expression")) .line

/-- One more call, index or member after an expression, if there is one. -/
def postfixTurn (grammar : Grammar) (object : Expr) : Parser (Turn Expr) := do
  match ← peek with
  | none => return .stop object
  | some token =>
    match token.kind with
    | .punctuation .openParens =>
      let args ← enclosed .openParens .closeParens grammar.expression
      return .again (.call object args token.pos)
    | .punctuation .openBracket =>
      step
      skipEols
      let key ← grammar.expression
      skipEols
      let _ ← expect (.punctuation .closeBracket)
      return .again (.index object key token.pos)
    | .punctuation .dot =>
      step
      let (name, _) ← identifier
      return .again (.member object name token.pos)
    | _ => return .stop object

/-- A primary expression and the calls, indices and members after it. -/
def postfixed (grammar : Grammar) : Parser Expr := do
  loop (postfixTurn grammar) (← primary grammar)

/-- Consumes an operator of the given sort, if one is next. -/
def operatorIf? (isOfSort : Operator → Bool) : Parser (Option (Operator × Position)) := do
  match ← peek with
  | some ⟨.operator op, _, pos, _⟩ =>
    if isOfSort op then
      step
      return some (op, pos)
    else return none
  | _ => return none

/-- The operators before an operand, the outermost first. -/
def unaryOperators : Parser (List (Operator × Position)) :=
  loop (fun operators => do
    match ← operatorIf? Operator.isUnary with
    | some operator => return .again (operators ++ [operator])
    | none => return .stop operators) []

/-- Applies operators to an operand, the last one first. -/
def applyUnary (operand : Expr) : List (Operator × Position) → Except Fault Expr
  | [] => .ok operand
  | (op, pos) :: rest => do
    let inner ← applyUnary operand rest
    return .unary (← UnaryOp.ofToken op) inner pos

def unary (grammar : Grammar) : Parser Expr := do
  let operators ← unaryOperators
  let operand ← postfixed grammar
  ofExcept (applyUnary operand operators)

/-- Operands joined by the operators of one tier, which group to the left. -/
def binaryTier (isOfTier : Operator → Bool) (operand : Parser Expr) : Parser Expr := do
  let first ← operand
  loop (fun left => do
    match ← operatorIf? isOfTier with
    | some (op, pos) =>
      let right ← operand
      return .again (.binary left (← ofExcept (BinaryOp.ofToken op)) right pos)
    | none => return .stop left) first

/-- Expressions. From lowest to highest, the tiers are junctions, comparisons, terms, factors,
unary operators and what follows a primary expression. -/
def expression (grammar : Grammar) : Parser Expr :=
  binaryTier Operator.isJunction <| binaryTier Operator.isConditional <|
    binaryTier Operator.isTerm <| binaryTier Operator.isFactor <| unary grammar

/-! ### Statements -/

/-- A `let` after its keyword. A function is declared before its body, which may call it; a
variable after its value, which may use an outer one of the same name. -/
def letRest (grammar : Grammar) (pos : Position) : Parser Statement := do
  let (name, _) ← identifier
  if ← isAt (.punctuation .openParens) then
    declare name .functionDecl pos
    let (params, body) ← function grammar
    return .functionDecl name params body pos
  else
    let _ ← expect (.operator .assign)
    let init ← expression grammar
    declare name .varDecl pos
    return .letDecl name init pos

/-- An `if` after its keyword. The parts of an `else if` chain share one `end`. -/
def ifRest (grammar : Grammar) (pos : Position) : Parser Statement := do
  let condition ← expression grammar
  let body ← inScope .ifBody grammar.block
  if ← stepIf (.keyword .elseWord) then
    match ← peek with
    | some ⟨.keyword .ifWord, _, innerPos, _⟩ =>
      step
      let inner ← grammar.ifRest innerPos
      return .ifElse condition body (some [inner]) pos
    | _ =>
      let otherwise ← inScope .elseBody grammar.block
      expectEnd
      return .ifElse condition body (some otherwise) pos
  else
    expectEnd
    return .ifElse condition body none pos

def whileRest (grammar : Grammar) (pos : Position) : Parser Statement := do
  let condition ← expression grammar
  let body ← inScope .whileBody grammar.block
  expectEnd
  return .whileLoop condition body pos

def stepPart (grammar : Grammar) : Parser (Option Expr) := do
  if ← stepIf (.keyword .stepWord) then return some (← expression grammar)
  else return none

/-- A `for` after its keyword. The variable is declared in the body's scope. -/
def forRest (grammar : Grammar) (pos : Position) : Parser Statement := do
  let (name, namePos) ← identifier
  let _ ← expect (.operator .assign)
  let first ← expression grammar
  let _ ← expect (.keyword .toWord)
  let last ← expression grammar
  let step ← stepPart grammar
  let body ← inScope .forBody do
    declare name .varDecl namePos
    grammar.block
  expectEnd
  return .forLoop name first last step body pos

/-- Whether nothing more of the statement follows. -/
def atStatementEnd : Parser Bool := do
  return (← peek).all fun token => token.kind = .eol || token.kind.isBlockTerminator

def returnRest (grammar : Grammar) (pos : Position) : Parser Statement := do
  if ← atStatementEnd then return .returnValues [] pos
  else return .returnValues (← commaSeparated (expression grammar)) pos

/-- The name of a class to extend. -/
def parent : Parser Symbol := do
  let (name, pos) ← identifier
  requireDeclared name (some .classDecl) (.undeclaredClass name pos)
  return name

def parents : Parser (List Symbol) := do
  if ← stepIf (.keyword .extendsWord) then commaSeparated parent
  else return []

/-- A class after its keyword. -/
def classRest (grammar : Grammar) (pos : Position) : Parser Statement := do
  let (name, _) ← identifier
  let parents ← parents
  declare name .classDecl pos
  let body ← inScope .classBody grammar.block
  expectEnd
  return .classDecl name parents body pos

/-- An expression, or an assignment to one. -/
def assignmentOrExpression (grammar : Grammar) : Parser Statement := do
  let target ← expression grammar
  match ← operatorIf? Operator.isAssignment with
  | some (op, pos) =>
    if !target.isLvalue then report (.invalidAssignment pos)
    let value ← expression grammar
    return .assign target (← ofExcept (BinaryOp.ofAssignment op)) value pos
  | none => return .expr target

def statement (grammar : Grammar) : Parser Statement := do
  match ← peek with
  | none => fail .unexpectedEnd .keep
  | some token =>
    let pos := token.pos
    match token.kind with
    | .keyword .letWord => step; letRest grammar pos
    | .keyword .ifWord => step; ifRest grammar pos
    | .keyword .whileWord => step; whileRest grammar pos
    | .keyword .forWord => step; forRest grammar pos
    | .keyword .returnWord => step; returnRest grammar pos
    | .keyword .breakWord => step; return .breakLoop pos
    | .keyword .continueWord => step; return .continueLoop pos
    | .keyword .classWord => step; classRest grammar pos
    | .identifier name =>
      if ← functionFollows 1 then
        step
        declare name .functionDecl pos
        let (params, body) ← function grammar
        return .functionDecl name params body pos
      else assignmentOrExpression grammar
    | _ => assignmentOrExpression grammar

/-- A field or a method of a class. Neither declares a name. -/
def classMember (grammar : Grammar) : Parser Statement := do
  let (name, pos) ← identifier
  if ← isAt (.punctuation .openParens) then
    let (params, body) ← function grammar
    return .functionDecl name params body pos
  else
    let _ ← expect (.operator .assign)
    return .fieldDecl name (← expression grammar) pos

/-- Consumes the line end after a statement. A block terminator does as well, and is left. -/
def lineEnd : Parser Unit := do
  match ← peek with
  | none => return ()
  | some token =>
    if token.kind = .eol then step
    else if token.kind.isBlockTerminator then return ()
    else fail (.unexpected token (.words "end of line")) .line

def line (grammar : Grammar) : Parser Statement := do
  let statement ←
    if (← scopes).kind = .classBody then classMember grammar else statement grammar
  lineEnd
  return statement

/-- Statements up to a block terminator or the end of the input. -/
def block (grammar : Grammar) : Parser Block :=
  loop (fun statements => do
    skipEols
    match ← peek with
    | none => return .stop statements
    | some token =>
      if token.kind.isBlockTerminator then return .stop statements
      else return .again (statements ++ [← recovering .illFormed (line grammar)])) []

/-! ### Programs -/

/-- The grammar for productions nested less than `levels` deep. -/
def Grammar.ofLevels : (levels : Nat) → Grammar
  | 0 =>
    let exhausted {α : Type} : Parser α := ofExcept (.error .exhausted)
    ⟨exhausted, exhausted, fun _ => exhausted⟩
  | levels + 1 =>
    let inner := Grammar.ofLevels levels
    ⟨Parse.expression inner, Parse.block inner, Parse.ifRest inner⟩

/-- The statements of a program. A block terminator that ends no block is an error. -/
def statements (grammar : Grammar) : Parser Block :=
  loop (fun statements => do
    let statements := statements ++ (← block grammar)
    match ← peek with
    | none => return .stop statements
    | some token =>
      let stray := fail (.unexpected token (.words "statement")) .skipOne
      return .again (statements ++ [← recovering .illFormed stray])) []

/-- What parsing yields. The statements are meaningful only if there are no errors. -/
structure Parsed where
  statements : Block
  errors : List Error
  scopes : Scopes

/-- Parses all tokens, starting in the root scope. -/
def parse (tokens : List Token) (scopes : Scopes) : Except Fault Parsed :=
  let grammar := Grammar.ofLevels (tokens.length + 1)
  match statements grammar ⟨tokens, scopes.reset, []⟩ with
  | .done statements state => .ok ⟨statements, state.errors, state.scopes⟩
  | .failed error _ state => .ok ⟨[], state.errors ++ [error], state.scopes⟩
  | .fault fault => .error fault

end Arcade.Parse
