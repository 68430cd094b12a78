import Arcade.Json
import Arcade.Syntax.Tree

/-! Programs as JSON, for tools that work on the parsed source. Every node is an object with its
sort under `node`; statements also have their line. -/

namespace Arcade
namespace Export

def name (interner : Interner) (symbol : Symbol) : Json :=
  match interner.resolve? symbol with
  | some text => .string text
  | none => .null

def names (interner : Interner) (symbols : List Symbol) : Json :=
  .array (symbols.map (name interner))

/-- Only finite numbers can be exported. -/
def float (bits : Nat) : Json :=
  match Decimal.double.read bits with
  | .finite .. => .float bits
  | _ => .null

def literal : Literal → Json
  | .null => .null
  | .bool value => .bool value
  | .int value => .int value
  | .float bits => float bits
  | .string value => .string value

/-- A node of the given sort. -/
def node (sort : String) (fields : List (String × Json)) : Json :=
  .object (("node", .string sort) :: fields)

/-- A statement, whose line is kept. -/
def lined (sort : String) (pos : Position) (fields : List (String × Json)) : Json :=
  node sort (("line", .int pos.line) :: fields)

def function (interner : Interner) (params : List Symbol) (body : List Json) : Json :=
  .object [("params", names interner params), ("body", .array body)]

def unaryOp (op : UnaryOp) : Json := .string op.token.spelling
def binaryOp (op : BinaryOp) : Json := .string op.token.spelling

mutual

def expr (interner : Interner) : Expr → Json
  | .identifier symbol _ => node "identifier" [("name", name interner symbol)]
  | .thisRef _ => node "this" []
  | .superRef _ => node "super" []
  | .field symbol _ => node "field" [("name", name interner symbol)]
  | .literal value _ => node "literal" [("value", literal value)]
  | .array items _ => node "literal" [("value", .object [("array", .array (exprs interner items))])]
  | .dict items _ => node "literal" [("value", .object [("dict", .array (entries interner items))])]
  | .function params body _ =>
    let value := function interner params (block interner body)
    node "literal" [("value", .object [("function", value)])]
  | .unary op operand _ => node "unary" [("op", unaryOp op), ("operand", expr interner operand)]
  | .binary left op right _ =>
    node "binary" [("op", binaryOp op), ("left", expr interner left),
      ("right", expr interner right)]
  | .member object symbol _ =>
    node "member" [("object", expr interner object), ("field", name interner symbol)]
  | .index object key _ =>
    node "index" [("object", expr interner object), ("index", expr interner key)]
  | .call callee args _ =>
    node "call" [("function", expr interner callee), ("args", .array (exprs interner args))]
  | .new className args _ =>
    node "new" [("class", name interner className), ("args", .array (exprs interner args))]
  | .illFormed => node "ill-formed" []
termination_by structural tree => tree

def exprs (interner : Interner) : List Expr → List Json
  | [] => []
  | item :: rest => expr interner item :: exprs interner rest
termination_by structural items => items

def entries (interner : Interner) : List (Symbol × Expr) → List Json
  | [] => []
  | (key, value) :: rest =>
    .array [name interner key, expr interner value] :: entries interner rest
termination_by structural items => items

def block (interner : Interner) : List Statement → List Json
  | [] => []
  | first :: rest => statement interner first :: block interner rest
termination_by structural items => items

def statement (interner : Interner) : Statement → Json
  | .letDecl symbol init pos =>
    lined "let" pos [("name", name interner symbol), ("init", expr interner init)]
  | .fieldDecl symbol init pos =>
    lined "field" pos [("name", name interner symbol), ("init", expr interner init)]
  | .assign target op value pos =>
    lined "assign" pos [("op", (op.map binaryOp).getD .null), ("left", expr interner target),
      ("right", expr interner value)]
  | .functionDecl symbol params body pos =>
    lined "function" pos [("name", name interner symbol),
      ("function", function interner params (block interner body))]
  | .ifElse condition body otherwise pos =>
    lined "if" pos [("condition", expr interner condition), ("then", .array (block interner body)),
      ("else", elsePart interner otherwise)]
  | .whileLoop condition body pos =>
    lined "while" pos [("condition", expr interner condition),
      ("block", .array (block interner body))]
  | .forLoop symbol first last step body pos =>
    lined "for" pos [("name", name interner symbol), ("start", expr interner first),
      ("end", expr interner last), ("step", stepPart interner step),
      ("block", .array (block interner body))]
  | .returnValues values pos => lined "return" pos [("values", .array (exprs interner values))]
  | .breakLoop pos => lined "break" pos []
  | .continueLoop pos => lined "continue" pos []
  | .classDecl symbol parents body pos =>
    lined "class" pos [("name", name interner symbol), ("extends", names interner parents),
      ("body", .array (block interner body))]
  | .expr value => node "expr" [("expr", expr interner value)]
  | .illFormed => node "ill-formed" []
termination_by structural tree => tree

def elsePart (interner : Interner) : Option (List Statement) → Json
  | none => .null
  | some body => .array (block interner body)
termination_by structural part => part

def stepPart (interner : Interner) : Option Expr → Json
  | none => .null
  | some step => expr interner step
termination_by structural part => part

end
end Export

def Program.toJson (program : Program) (interner : Interner) : Json :=
  .object [("path", Export.name interner program.path),
    ("statements", .array (Export.block interner program.statements))]

end Arcade
