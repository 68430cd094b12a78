import Arcade.Syntax.Tree

/-! How a syntax tree is written. Each node is a phrase, which holds of the tokens that it may be
written as; the phrases of its parts stand in it in order, and whatever the phrase leaves open is
a freedom of the writer. -/

namespace Arcade.Proofs

/-- The token lists that a piece of source may be. -/
abbrev Phrase := List Token → Prop

namespace Phrase

def never : Phrase := fun _ => False

def empty : Phrase := fun tokens => tokens = []

/-- One token of the given kind, wherever it stands. -/
def one (kind : TokenKind) : Phrase := fun tokens => ∃ token, tokens = [token] ∧ token.kind = kind

/-- One token of the given kind that stands where the node says. -/
def oneAt (kind : TokenKind) (pos : Position) : Phrase := fun tokens =>
  ∃ token, tokens = [token] ∧ token.kind = kind ∧ token.pos = pos

/-- Any number of line ends. -/
def blank : Phrase := fun tokens => ∀ token ∈ tokens, token.kind = .eol

def either (first second : Phrase) : Phrase := fun tokens => first tokens ∨ second tokens

/-- A phrase that may be left out under a condition. -/
def optionalIf (condition : Bool) (phrase : Phrase) : Phrase :=
  if condition then either empty phrase else phrase

/-- Phrases one after the other. -/
def seq : List Phrase → Phrase
  | [] => empty
  | first :: rest => fun tokens => ∃ used left, tokens = used ++ left ∧ first used ∧ seq rest left

/-- Any number of parentheses around a phrase. -/
inductive Grouped (inner : Phrase) : Phrase where
  | plain {tokens} (inside : inner tokens) : Grouped inner tokens
  | parens {start used stop} (opens : start.kind = .punctuation .openParens)
      (inside : Grouped inner used) (closes : stop.kind = .punctuation .closeParens) :
      Grouped inner (start :: (used ++ [stop]))

/-- Items with commas between them, perhaps one after the last, and line ends around them. -/
def delimited : List Phrase → Phrase
  | [] => blank
  | item :: rest =>
    seq [blank, item, blank,
      optionalIf rest.isEmpty (seq [one (.punctuation .comma), delimited rest])]

/-- One or more items with commas between them and line ends after the commas. -/
def separated : List Phrase → Phrase
  | [] => never
  | [item] => item
  | item :: rest => seq [item, one (.punctuation .comma), blank, separated rest]

end Phrase

/-! ### Expressions -/

/-- How tightly an operator binds, from junctions to factors. -/
def tierOf : BinaryOp → Nat
  | .and | .or | .xor => 0
  | .equals | .notEquals | .greater | .greaterEquals | .lower | .lowerEquals => 1
  | .plus | .minus => 2
  | .times | .div | .mod => 3

/-- The tier of unary operators. -/
def unaryTier : Nat := 4

/-- The tier of what may be called, indexed or asked for a member as it stands. -/
def postfixTier : Nat := 5

def exprTier : Expr → Nat
  | .binary _ op _ _ => tierOf op
  | .unary .. => unaryTier
  | _ => postfixTier

open Phrase

/-- An operand where one of at least the given tier must stand. Others need parentheses, and any
may have more of them than it needs. -/
def operand (least : Nat) (tree : Expr) (plain : Phrase) : Phrase :=
  either (if least ≤ exprTier tree then plain else never)
    (seq [one (.punctuation .openParens), Grouped plain, one (.punctuation .closeParens)])

/-- The entry of a dict whose value is the variable of its name. -/
def shortEntry (key : Symbol) : Expr → Phrase
  | .identifier name pos =>
    if name = key then seq [one (.punctuation .colon), oneAt (.identifier key) pos] else never
  | _ => never

/-- A function from its parameters on, given how they open and its body is written. -/
def functionPhrase (opens : Phrase) (params : List Symbol) (body : Phrase) : Phrase :=
  seq [opens, delimited (params.map fun name => one (.identifier name)),
    one (.punctuation .closeParens), one (.punctuation .arrow), body, one (.keyword .endWord)]

/-- The operator of an assignment, which may apply another one. -/
def assignment (op : Option BinaryOp) (pos : Position) : Phrase := fun tokens =>
  ∃ sign, BinaryOp.ofAssignment sign = .ok op ∧ oneAt (.operator sign) pos tokens

def parentsPhrase (names : List Symbol) : Phrase :=
  if names.isEmpty then empty
  else seq [one (.keyword .extendsWord), separated (names.map fun name => one (.identifier name))]

def isIf : Statement → Bool
  | .ifElse .. => true
  | _ => false

mutual

/-- An expression without parentheses around it. -/
def exprPhrase (tree : Expr) : Phrase :=
  match tree with
  | .identifier name pos => oneAt (.identifier name) pos
  | .thisRef pos => oneAt (.keyword .thisWord) pos
  | .superRef pos => oneAt (.keyword .superWord) pos
  | .field name pos => seq [oneAt (.punctuation .atSign) pos, one (.identifier name)]
  | .literal value pos => oneAt (.literal value) pos
  | .array items pos =>
    seq [oneAt (.punctuation .openBracket) pos, delimited (exprPhrases items),
      one (.punctuation .closeBracket)]
  | .dict entries pos =>
    seq [oneAt (.punctuation .openBrace) pos, delimited (entryPhrases entries),
      one (.punctuation .closeBrace)]
  | .function params body pos => functionPhrase (oneAt (.punctuation .openParens) pos) params (blockPhrase false body)
  | .unary op inner pos =>
    seq [oneAt (.operator op.token) pos, operand unaryTier inner (exprPhrase inner)]
  | .binary left op right pos =>
    -- Operators of one tier group to the left.
    seq [operand (tierOf op) left (exprPhrase left), oneAt (.operator op.token) pos,
      operand (tierOf op + 1) right (exprPhrase right)]
  | .member object name pos =>
    seq [operand postfixTier object (exprPhrase object), oneAt (.punctuation .dot) pos,
      one (.identifier name)]
  | .index object key pos =>
    seq [operand postfixTier object (exprPhrase object), oneAt (.punctuation .openBracket) pos,
      blank, operand 0 key (exprPhrase key), blank, one (.punctuation .closeBracket)]
  | .call callee args pos =>
    seq [operand postfixTier callee (exprPhrase callee), oneAt (.punctuation .openParens) pos,
      delimited (exprPhrases args), one (.punctuation .closeParens)]
  | .new className args pos =>
    seq [oneAt (.keyword .newWord) pos, one (.identifier className),
      one (.punctuation .openParens), delimited (exprPhrases args), one (.punctuation .closeParens)]
  | .illFormed => never
termination_by structural tree

def exprPhrases (items : List Expr) : List Phrase :=
  match items with
  | [] => []
  | item :: rest => operand 0 item (exprPhrase item) :: exprPhrases rest
termination_by structural items

def entryPhrases (entries : List (Symbol × Expr)) : List Phrase :=
  match entries with
  | [] => []
  | (key, value) :: rest =>
    either (shortEntry key value)
      (seq [one (.identifier key), one (.punctuation .colon), blank,
        operand 0 value (exprPhrase value)]) :: entryPhrases rest
termination_by structural entries

/-- Statements with line ends between them. The last one may go without. -/
def blockPhrase (inClassBody : Bool) (body : List Statement) : Phrase :=
  match body with
  | [] => blank
  | first :: rest =>
    seq [blank, if inClassBody then memberPhrase first else statementPhrase first,
      optionalIf rest.isEmpty (seq [one .eol, blockPhrase inClassBody rest])]
termination_by structural body

/-- A field or a method of a class. -/
def memberPhrase (tree : Statement) : Phrase :=
  match tree with
  | .fieldDecl name init pos =>
    seq [oneAt (.identifier name) pos, one (.operator .assign), operand 0 init (exprPhrase init)]
  | .functionDecl name params body pos =>
    seq [oneAt (.identifier name) pos,
      functionPhrase (one (.punctuation .openParens)) params (blockPhrase false body)]
  | _ => never
termination_by structural tree

def statementPhrase (tree : Statement) : Phrase :=
  match tree with
  | .letDecl name init pos =>
    seq [oneAt (.keyword .letWord) pos, one (.identifier name), one (.operator .assign),
      operand 0 init (exprPhrase init)]
  | .assign target op value pos =>
    seq [operand 0 target (exprPhrase target), assignment op pos, operand 0 value (exprPhrase value)]
  | .functionDecl name params body pos =>
    let rest := functionPhrase (one (.punctuation .openParens)) params (blockPhrase false body)
    either (seq [oneAt (.identifier name) pos, rest])
      (seq [oneAt (.keyword .letWord) pos, one (.identifier name), rest])
  | .ifElse condition body otherwise pos =>
    seq [oneAt (.keyword .ifWord) pos, operand 0 condition (exprPhrase condition),
      blockPhrase false body, elsePhrase otherwise]
  | .whileLoop condition body pos =>
    seq [oneAt (.keyword .whileWord) pos, operand 0 condition (exprPhrase condition),
      blockPhrase false body, one (.keyword .endWord)]
  | .forLoop name first last step body pos =>
    seq [oneAt (.keyword .forWord) pos, one (.identifier name), one (.operator .assign),
      operand 0 first (exprPhrase first), one (.keyword .toWord), operand 0 last (exprPhrase last),
      stepPhrase step, blockPhrase false body, one (.keyword .endWord)]
  | .returnValues values pos =>
    seq [oneAt (.keyword .returnWord) pos,
      if values.isEmpty then empty else separated (exprPhrases values)]
  | .breakLoop pos => oneAt (.keyword .breakWord) pos
  | .continueLoop pos => oneAt (.keyword .continueWord) pos
  | .classDecl name parents body pos =>
    seq [oneAt (.keyword .classWord) pos, one (.identifier name), parentsPhrase parents,
      blockPhrase true body, one (.keyword .endWord)]
  | .expr value => operand 0 value (exprPhrase value)
  | .fieldDecl .. | .illFormed => never
termination_by structural tree

/-- The end of an `if` statement. One that is all of the `else` part may bring the `end`. -/
def elsePhrase (part : Option (List Statement)) : Phrase :=
  match part with
  | none => one (.keyword .endWord)
  | some body =>
    either (seq [one (.keyword .elseWord), blockPhrase false body, one (.keyword .endWord)])
      (seq [one (.keyword .elseWord), loneIfPhrase body])
termination_by structural part

/-- An `if` statement that is the only statement of a block. -/
def loneIfPhrase (body : List Statement) : Phrase :=
  match body with
  | [] => never
  | first :: rest => if rest.isEmpty && isIf first then statementPhrase first else never
termination_by structural body

def stepPhrase (part : Option Expr) : Phrase :=
  match part with
  | none => empty
  | some value => seq [one (.keyword .stepWord), operand 0 value (exprPhrase value)]
termination_by structural part

end

end Arcade.Proofs
