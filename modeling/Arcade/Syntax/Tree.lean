import Arcade.Fault
import Arcade.Token.Basic

/-! The syntax tree of programs. -/

namespace Arcade

inductive UnaryOp where
  | minus | not
deriving DecidableEq

/-- The operators of binary expressions. Assignment is none of them. -/
inductive BinaryOp where
  | plus | minus | times | div | mod
  | equals | notEquals | greater | greaterEquals | lower | lowerEquals
  | and | or | xor
deriving DecidableEq

/-- The operator as a token. -/
def UnaryOp.token : UnaryOp → Operator
  | minus => .minus
  | not => .not

def UnaryOp.ofToken : Operator → Except Fault UnaryOp
  | .minus => .ok minus
  | .not => .ok not
  | _ => .error .notUnary

namespace BinaryOp

/-- The operator as a token. -/
def token : BinaryOp → Operator
  | plus => .plus
  | minus => .minus
  | times => .times
  | div => .div
  | mod => .mod
  | equals => .equals
  | notEquals => .notEquals
  | greater => .greater
  | greaterEquals => .greaterEquals
  | lower => .lower
  | lowerEquals => .lowerEquals
  | and => .and
  | or => .or
  | xor => .xor

def ofToken : Operator → Except Fault BinaryOp
  | .plus => .ok plus
  | .minus => .ok minus
  | .times => .ok times
  | .div => .ok div
  | .mod => .ok mod
  | .equals => .ok equals
  | .notEquals => .ok notEquals
  | .greater => .ok greater
  | .greaterEquals => .ok greaterEquals
  | .lower => .ok lower
  | .lowerEquals => .ok lowerEquals
  | .and => .ok and
  | .or => .ok or
  | .xor => .ok xor
  | _ => .error .notBinary

/-- The operator that a compound assignment applies; plain assignment applies none. -/
def ofAssignment : Operator → Except Fault (Option BinaryOp)
  | .assign => .ok none
  | .plusAssign => .ok (some plus)
  | .minusAssign => .ok (some minus)
  | .timesAssign => .ok (some times)
  | .divAssign => .ok (some div)
  | .modAssign => .ok (some mod)
  | _ => .error .notAssignment

end BinaryOp

mutual

/-- Expressions. Ill-formed nodes take the place of what could not be parsed. -/
inductive Expr where
  | identifier (name : Symbol) (pos : Position)
  | thisRef (pos : Position)
  | superRef (pos : Position)
  /-- A field of `this`, written `@name`. -/
  | field (name : Symbol) (pos : Position)
  | literal (value : Literal) (pos : Position)
  | array (items : List Expr) (pos : Position)
  /-- The entries stand in the order of the source. -/
  | dict (entries : List (Symbol × Expr)) (pos : Position)
  | function (params : List Symbol) (body : List Statement) (pos : Position)
  | unary (op : UnaryOp) (operand : Expr) (pos : Position)
  | binary (left : Expr) (op : BinaryOp) (right : Expr) (pos : Position)
  | member (object : Expr) (name : Symbol) (pos : Position)
  | index (object : Expr) (key : Expr) (pos : Position)
  | call (callee : Expr) (args : List Expr) (pos : Position)
  | new (className : Symbol) (args : List Expr) (pos : Position)
  | illFormed

inductive Statement where
  | letDecl (name : Symbol) (init : Expr) (pos : Position)
  /-- A field declared in a class body. -/
  | fieldDecl (name : Symbol) (init : Expr) (pos : Position)
  | assign (target : Expr) (op : Option BinaryOp) (value : Expr) (pos : Position)
  | functionDecl (name : Symbol) (params : List Symbol) (body : List Statement) (pos : Position)
  /-- `else if` is an else part whose only statement is an `if`. -/
  | ifElse (condition : Expr) (body : List Statement) (otherwise : Option (List Statement))
      (pos : Position)
  | whileLoop (condition : Expr) (body : List Statement) (pos : Position)
  | forLoop (name : Symbol) (first last : Expr) (step : Option Expr) (body : List Statement)
      (pos : Position)
  | returnValues (values : List Expr) (pos : Position)
  | breakLoop (pos : Position)
  | continueLoop (pos : Position)
  | classDecl (name : Symbol) (parents : List Symbol) (body : List Statement) (pos : Position)
  | expr (value : Expr)
  | illFormed

end

/-- A block is a list of statements. -/
abbrev Block := List Statement

/-- Whether the expression may be assigned to. -/
def Expr.isLvalue : Expr → Bool
  | .identifier .. | .field .. | .member .. | .index .. => true
  | _ => false

def Statement.isIllFormed : Statement → Bool
  | .illFormed => true
  | _ => false

/-- Whether one of the block's own statements is ill-formed. -/
def Block.isIllFormed (block : Block) : Bool := block.any Statement.isIllFormed

/-- A parsed source. -/
structure Program where
  path : Symbol
  statements : Block

end Arcade
