import Arcade.Syntax.Tree
import Arcade.Text.Parts
import Arcade.Token.Shown

/-! Programs as text, one statement a line. Binary expressions stand in parentheses, which
shows how they are grouped. -/

namespace Arcade

open Text

def UnaryOp.shown (op : UnaryOp) : String := op.token.shown
def BinaryOp.shown (op : BinaryOp) : String := op.token.shown

namespace Printer

def illFormed : String := paint .red "***ill-formed***"

/-- Two spaces for each level. -/
def indentation : Nat → String
  | 0 => ""
  | level + 1 => "  " ++ indentation level

def names (interner : Interner) (symbols : List Symbol) : String :=
  joined ", " (symbols.map (·.shown interner))

/-- A body that a line of its own ends with `end`. -/
def ended (level : Nat) (body : String) (isEmpty : Bool) : String :=
  "\n" ++ (if isEmpty then "" else body ++ "\n") ++ indentation level ++ Keyword.endWord.shown

mutual

def expr (interner : Interner) (level : Nat) : Expr → String
  | .identifier name _ => name.shown interner
  | .thisRef _ => Keyword.thisWord.shown
  | .superRef _ => Keyword.superWord.shown
  | .field name _ => "@" ++ name.shown interner
  | .literal value _ => value.shown
  | .array items _ => "[" ++ joined ", " (exprs interner level items) ++ "]"
  | .dict items _ => "\x7b" ++ joined ", " (entries interner level items) ++ "\x7d"
  | .function params body _ =>
    "(" ++ names interner params ++ ") " ++ Punctuation.arrow.shown
      ++ ended level (joined "\n" (block interner (level + 1) body)) body.isEmpty
  | .unary op operand _ => op.shown ++ expr interner level operand
  | .binary left op right _ =>
    "(" ++ expr interner level left ++ " " ++ op.shown ++ " " ++ expr interner level right ++ ")"
  | .member object name _ => expr interner level object ++ "." ++ name.shown interner
  | .index object key _ => expr interner level object ++ "[" ++ expr interner level key ++ "]"
  | .call callee args _ =>
    expr interner level callee ++ "(" ++ joined ", " (exprs interner level args) ++ ")"
  | .new className args _ =>
    Keyword.newWord.shown ++ " " ++ className.shown interner
      ++ "(" ++ joined ", " (exprs interner level args) ++ ")"
  | .illFormed => illFormed
termination_by structural tree => tree

def exprs (interner : Interner) (level : Nat) : List Expr → List String
  | [] => []
  | item :: rest => expr interner level item :: exprs interner level rest
termination_by structural items => items

def entries (interner : Interner) (level : Nat) : List (Symbol × Expr) → List String
  | [] => []
  | (key, value) :: rest =>
    (key.shown interner ++ ": " ++ expr interner level value) :: entries interner level rest
termination_by structural items => items

/-- The lines of a block, each with its indentation. -/
def block (interner : Interner) (level : Nat) : List Statement → List String
  | [] => []
  | first :: rest =>
    (indentation level ++ statement interner level first) :: block interner level rest
termination_by structural items => items

def statement (interner : Interner) (level : Nat) : Statement → String
  | .letDecl name init _ =>
    Keyword.letWord.shown ++ " " ++ name.shown interner ++ " = " ++ expr interner level init
  | .fieldDecl name init _ => name.shown interner ++ " = " ++ expr interner level init
  | .assign target op value _ =>
    expr interner level target
      ++ (match op with
        | some op => " " ++ op.shown ++ "= "
        | none => " = ")
      ++ expr interner level value
  | .functionDecl name params body _ =>
    name.shown interner ++ "(" ++ names interner params ++ ") " ++ Punctuation.arrow.shown
      ++ ended level (joined "\n" (block interner (level + 1) body)) body.isEmpty
  | .ifElse condition body otherwise _ =>
    Keyword.ifWord.shown ++ " " ++ expr interner level condition ++ "\n"
      ++ joined "\n" (block interner (level + 1) body)
      ++ elsePart interner level otherwise
      ++ "\n" ++ indentation level ++ Keyword.endWord.shown
  | .whileLoop condition body _ =>
    Keyword.whileWord.shown ++ " " ++ expr interner level condition
      ++ ended level (joined "\n" (block interner (level + 1) body)) body.isEmpty
  | .forLoop name first last step body _ =>
    Keyword.forWord.shown ++ " " ++ name.shown interner ++ " = " ++ expr interner level first
      ++ " " ++ Keyword.toWord.shown ++ " " ++ expr interner level last
      ++ stepPart interner level step
      ++ ended level (joined "\n" (block interner (level + 1) body)) body.isEmpty
  | .returnValues values _ =>
    Keyword.returnWord.shown
      ++ (if values.isEmpty then "" else " " ++ joined ", " (exprs interner level values))
  | .breakLoop _ => Keyword.breakWord.shown
  | .continueLoop _ => Keyword.continueWord.shown
  | .classDecl name parents body _ =>
    Keyword.classWord.shown ++ " " ++ name.shown interner
      ++ (if parents.isEmpty then ""
        else " " ++ Keyword.extendsWord.shown ++ " " ++ names interner parents)
      ++ ended level (joined "\n" (block interner (level + 1) body)) body.isEmpty
  | .expr value => expr interner level value
  | .illFormed => illFormed
termination_by structural tree => tree

def elsePart (interner : Interner) (level : Nat) : Option (List Statement) → String
  | none => ""
  | some body =>
    "\n" ++ indentation level ++ Keyword.elseWord.shown ++ "\n"
      ++ joined "\n" (block interner (level + 1) body)
termination_by structural part => part

def stepPart (interner : Interner) (level : Nat) : Option Expr → String
  | none => ""
  | some step => " " ++ Keyword.stepWord.shown ++ " " ++ expr interner level step
termination_by structural part => part

end
end Printer

/-- The path on a line of its own, then the statements. -/
def Program.shown (program : Program) (interner : Interner) : String :=
  paint .magenta ((interner.resolve? program.path).getD "<unknown>") ++ "\n"
    ++ joined "\n" (Printer.block interner 0 program.statements)

end Arcade
