import Arcade.Syntax.Printer

/-! Listings put no parentheses around a unary operator and its operand. In a listing an operator in front of a
member, an index or a call may be applied before it or after it. Of all trees that are listed alike one applies
such operators last. -/

namespace Arcade.Proofs

/-! ### Operators applied last -/

/-- Changes the operand that unary operators are applied to. -/
def underUnary (change : Expr → Expr) : Expr → Expr
  | .unary op operand pos => .unary op (underUnary change operand) pos
  | tree => change tree

mutual

/-- The same tree with unary operators applied after all members, indices and calls, and with all positions
forgotten. -/
def hoistExpr (tree : Expr) : Expr :=
  match tree with
  | .identifier name _ => .identifier name default
  | .thisRef _ => .thisRef default
  | .superRef _ => .superRef default
  | .field name _ => .field name default
  | .literal value _ => .literal value default
  | .array items _ => .array (hoistExprs items) default
  | .dict entries _ => .dict (hoistEntries entries) default
  | .function params body _ => .function params (hoistBlock body) default
  | .unary op operand _ => .unary op (hoistExpr operand) default
  | .binary left op right _ => .binary (hoistExpr left) op (hoistExpr right) default
  | .member object name _ => underUnary (.member · name default) (hoistExpr object)
  | .index object key _ => underUnary (.index · (hoistExpr key) default) (hoistExpr object)
  | .call callee args _ => underUnary (.call · (hoistExprs args) default) (hoistExpr callee)
  | .new className args _ => .new className (hoistExprs args) default
  | .illFormed => .illFormed
termination_by structural tree

def hoistExprs (items : List Expr) : List Expr :=
  match items with
  | [] => []
  | item :: rest => hoistExpr item :: hoistExprs rest
termination_by structural items

def hoistEntries (entries : List (Symbol × Expr)) : List (Symbol × Expr) :=
  match entries with
  | [] => []
  | (key, value) :: rest => (key, hoistExpr value) :: hoistEntries rest
termination_by structural entries

def hoistBlock (body : List Statement) : List Statement :=
  match body with
  | [] => []
  | first :: rest => hoistStatement first :: hoistBlock rest
termination_by structural body

def hoistStatement (tree : Statement) : Statement :=
  match tree with
  | .letDecl name init _ => .letDecl name (hoistExpr init) default
  | .fieldDecl name init _ => .fieldDecl name (hoistExpr init) default
  | .assign target op value _ => .assign (hoistExpr target) op (hoistExpr value) default
  | .functionDecl name params body _ => .functionDecl name params (hoistBlock body) default
  | .ifElse condition body otherwise _ =>
    .ifElse (hoistExpr condition) (hoistBlock body) (hoistElse otherwise) default
  | .whileLoop condition body _ => .whileLoop (hoistExpr condition) (hoistBlock body) default
  | .forLoop name first last step body _ =>
    .forLoop name (hoistExpr first) (hoistExpr last) (hoistStep step) (hoistBlock body) default
  | .returnValues values _ => .returnValues (hoistExprs values) default
  | .breakLoop _ => .breakLoop default
  | .continueLoop _ => .continueLoop default
  | .classDecl name parents body _ => .classDecl name parents (hoistBlock body) default
  | .expr value => .expr (hoistExpr value)
  | .illFormed => .illFormed
termination_by structural tree

def hoistElse (part : Option (List Statement)) : Option (List Statement) :=
  match part with
  | none => none
  | some body => some (hoistBlock body)
termination_by structural part

def hoistStep (part : Option Expr) : Option Expr :=
  match part with
  | none => none
  | some step => some (hoistExpr step)
termination_by structural part

end

variable {interner : Interner}

/-! ### Listings of hoisted trees -/

/-- What is listed after the operand stays there. -/
theorem shown_underUnary (level : Nat) {change : Expr → Expr} {behind : String}
    (lists : ∀ tree, Printer.expr interner level (change tree) = Printer.expr interner level tree ++ behind)
    (tree : Expr) : Printer.expr interner level (underUnary change tree) =
      Printer.expr interner level tree ++ behind := by
  match tree with
  | .unary op operand _ =>
    have inside := shown_underUnary level lists operand
    rw [underUnary, Printer.expr, inside, Printer.expr, String.append_assoc]
  | .identifier .. | .thisRef _ | .superRef _ | .field .. | .literal .. | .array .. | .dict .. | .function ..
  | .binary .. | .member .. | .index .. | .call .. | .new .. | .illFormed => exact lists _
termination_by structural tree

theorem isEmpty_hoistBlock (body : List Statement) : (hoistBlock body).isEmpty = body.isEmpty := by
  cases body <;> rfl

theorem isEmpty_hoistExprs (items : List Expr) : (hoistExprs items).isEmpty = items.isEmpty := by
  cases items <;> rfl

mutual

theorem shown_hoistExpr (level : Nat) (tree : Expr) :
    Printer.expr interner level (hoistExpr tree) = Printer.expr interner level tree := by
  match tree with
  | .identifier .. | .thisRef _ | .superRef _ | .field .. | .literal .. | .illFormed => rfl
  | .array items _ => rw [hoistExpr, Printer.expr, Printer.expr, shown_hoistExprs level items]
  | .dict entries _ => rw [hoistExpr, Printer.expr, Printer.expr, shown_hoistEntries level entries]
  | .function params body _ =>
    rw [hoistExpr, Printer.expr, Printer.expr, shown_hoistBlock (level + 1) body, isEmpty_hoistBlock]
  | .unary op operand _ => rw [hoistExpr, Printer.expr, Printer.expr, shown_hoistExpr level operand]
  | .binary left op right _ =>
    rw [hoistExpr, Printer.expr, Printer.expr, shown_hoistExpr level left, shown_hoistExpr level right]
  | .member object name pos =>
    have lists (tree : Expr) : Printer.expr interner level (.member tree name default) =
        Printer.expr interner level tree ++ ("." ++ name.shown interner) := String.append_assoc ..
    rw [hoistExpr, shown_underUnary level lists, shown_hoistExpr level object]
    exact (String.append_assoc ..).symm
  | .index object key pos =>
    have lists (tree : Expr) : Printer.expr interner level (.index tree (hoistExpr key) default) =
        Printer.expr interner level tree ++ ("[" ++ Printer.expr interner level key ++ "]") := by
      simp only [Printer.expr, shown_hoistExpr level key, String.append_assoc]
    rw [hoistExpr, shown_underUnary level lists, shown_hoistExpr level object]
    simp only [Printer.expr, String.append_assoc]
  | .call callee args pos =>
    have lists (tree : Expr) : Printer.expr interner level (.call tree (hoistExprs args) default) =
        Printer.expr interner level tree ++
          ("(" ++ Text.joined ", " (Printer.exprs interner level args) ++ ")") := by
      simp only [Printer.expr, shown_hoistExprs level args, String.append_assoc]
    rw [hoistExpr, shown_underUnary level lists, shown_hoistExpr level callee]
    simp only [Printer.expr, String.append_assoc]
  | .new className args _ => rw [hoistExpr, Printer.expr, Printer.expr, shown_hoistExprs level args]
termination_by structural tree

theorem shown_hoistExprs (level : Nat) (items : List Expr) :
    Printer.exprs interner level (hoistExprs items) = Printer.exprs interner level items := by
  match items with
  | [] => rfl
  | item :: rest =>
    rw [hoistExprs, Printer.exprs, Printer.exprs, shown_hoistExpr level item, shown_hoistExprs level rest]
termination_by structural items

theorem shown_hoistEntries (level : Nat) (entries : List (Symbol × Expr)) :
    Printer.entries interner level (hoistEntries entries) = Printer.entries interner level entries := by
  match entries with
  | [] => rfl
  | (key, value) :: rest =>
    rw [hoistEntries, Printer.entries, Printer.entries, shown_hoistExpr level value, shown_hoistEntries level rest]
termination_by structural entries

theorem shown_hoistBlock (level : Nat) (body : List Statement) :
    Printer.block interner level (hoistBlock body) = Printer.block interner level body := by
  match body with
  | [] => rfl
  | first :: rest =>
    rw [hoistBlock, Printer.block, Printer.block, shown_hoistStatement level first, shown_hoistBlock level rest]
termination_by structural body

theorem shown_hoistStatement (level : Nat) (tree : Statement) :
    Printer.statement interner level (hoistStatement tree) = Printer.statement interner level tree := by
  match tree with
  | .letDecl _ init _ | .fieldDecl _ init _ =>
    rw [hoistStatement, Printer.statement, Printer.statement, shown_hoistExpr level init]
  | .assign target op value _ =>
    simp only [hoistStatement, Printer.statement, shown_hoistExpr level target, shown_hoistExpr level value]
  | .functionDecl _ _ body _ | .classDecl _ _ body _ =>
    rw [hoistStatement, Printer.statement, Printer.statement, shown_hoistBlock (level + 1) body,
      isEmpty_hoistBlock]
  | .ifElse condition body otherwise _ =>
    rw [hoistStatement, Printer.statement, Printer.statement, shown_hoistExpr level condition,
      shown_hoistBlock (level + 1) body, shown_hoistElse level otherwise]
  | .whileLoop condition body _ =>
    rw [hoistStatement, Printer.statement, Printer.statement, shown_hoistExpr level condition,
      shown_hoistBlock (level + 1) body, isEmpty_hoistBlock]
  | .forLoop _ first last step body _ =>
    rw [hoistStatement, Printer.statement, Printer.statement, shown_hoistExpr level first,
      shown_hoistExpr level last, shown_hoistStep level step, shown_hoistBlock (level + 1) body,
      isEmpty_hoistBlock]
  | .returnValues values _ =>
    rw [hoistStatement, Printer.statement, Printer.statement, shown_hoistExprs level values, isEmpty_hoistExprs]
  | .breakLoop _ | .continueLoop _ | .illFormed => rfl
  | .expr value => rw [hoistStatement, Printer.statement, Printer.statement, shown_hoistExpr level value]
termination_by structural tree

theorem shown_hoistElse (level : Nat) (part : Option (List Statement)) :
    Printer.elsePart interner level (hoistElse part) = Printer.elsePart interner level part := by
  match part with
  | none => rfl
  | some body => rw [hoistElse, Printer.elsePart, Printer.elsePart, shown_hoistBlock (level + 1) body]
termination_by structural part

theorem shown_hoistStep (level : Nat) (part : Option Expr) :
    Printer.stepPart interner level (hoistStep part) = Printer.stepPart interner level part := by
  match part with
  | none => rfl
  | some step => rw [hoistStep, Printer.stepPart, Printer.stepPart, shown_hoistExpr level step]
termination_by structural part

end

end Arcade.Proofs
