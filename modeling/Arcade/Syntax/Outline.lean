import Arcade.Syntax.Tree

/-! The nodes of a program in the order of the source, with their positions. -/

namespace Arcade

/-- A node of a program. Ill-formed nodes have no position. -/
structure OutlineEntry where
  tag : String
  pos : Option Position
  isLvalue : Bool := false
deriving DecidableEq

namespace Outline

mutual

def expr (tree : Expr) : List OutlineEntry :=
  match tree with
  | .identifier _ pos => [⟨"identifier", some pos, true⟩]
  | .thisRef pos => [⟨"this", some pos, false⟩]
  | .superRef pos => [⟨"super", some pos, false⟩]
  | .field _ pos => [⟨"field", some pos, true⟩]
  | .literal _ pos => [⟨"literal", some pos, false⟩]
  | .array items pos => ⟨"literal", some pos, false⟩ :: exprs items
  | .dict items pos => ⟨"literal", some pos, false⟩ :: entries items
  | .function _ body pos => ⟨"literal", some pos, false⟩ :: block body
  | .unary _ operand pos => ⟨"unary", some pos, false⟩ :: expr operand
  | .binary left _ right pos => ⟨"binary", some pos, false⟩ :: (expr left ++ expr right)
  | .member object _ pos => ⟨"member", some pos, true⟩ :: expr object
  | .index object key pos => ⟨"index", some pos, true⟩ :: (expr object ++ expr key)
  | .call callee args pos => ⟨"call", some pos, false⟩ :: (expr callee ++ exprs args)
  | .new _ args pos => ⟨"new", some pos, false⟩ :: exprs args
  | .illFormed => [⟨"ill-formed", none, false⟩]
termination_by structural tree

def exprs : List Expr → List OutlineEntry
  | [] => []
  | item :: rest => expr item ++ exprs rest
termination_by structural items => items

def entries : List (Symbol × Expr) → List OutlineEntry
  | [] => []
  | (_, value) :: rest => expr value ++ entries rest
termination_by structural items => items

def block : List Statement → List OutlineEntry
  | [] => []
  | first :: rest => statement first ++ block rest
termination_by structural items => items

def statement : Statement → List OutlineEntry
  | .letDecl _ init pos => ⟨"let", some pos, false⟩ :: expr init
  | .fieldDecl _ init pos => ⟨"field-def", some pos, false⟩ :: expr init
  | .assign target _ value pos => ⟨"assign", some pos, false⟩ :: (expr target ++ expr value)
  | .functionDecl _ _ body pos => ⟨"function", some pos, false⟩ :: block body
  | .ifElse condition body otherwise pos =>
    ⟨"if", some pos, false⟩ :: (expr condition ++ block body ++ elsePart otherwise)
  | .whileLoop condition body pos =>
    ⟨"while", some pos, false⟩ :: (expr condition ++ block body)
  | .forLoop _ first last step body pos =>
    ⟨"for", some pos, false⟩ :: (expr first ++ expr last ++ stepPart step ++ block body)
  | .returnValues values pos => ⟨"return", some pos, false⟩ :: exprs values
  | .breakLoop pos => [⟨"break", some pos, false⟩]
  | .continueLoop pos => [⟨"continue", some pos, false⟩]
  | .classDecl _ _ body pos => ⟨"class", some pos, false⟩ :: block body
  | .expr value => expr value
  | .illFormed => [⟨"ill-formed", none, false⟩]
termination_by structural tree => tree

def elsePart : Option (List Statement) → List OutlineEntry
  | none => []
  | some body => block body
termination_by structural part => part

def stepPart : Option Expr → List OutlineEntry
  | none => []
  | some step => expr step
termination_by structural part => part

end
end Outline

def Program.outline (program : Program) : List OutlineEntry := Outline.block program.statements

end Arcade
