import Arcade.Fault
import Arcade.Position

/-! Lexical scopes. The declarations of all open scopes stand in one list, outermost first; a
scope is known by where its own declarations start. The root scope is always open and holds
the built-in globals. -/

namespace Arcade

/-- What a scope is the body of. -/
inductive ScopeKind where
  | program | functionBody | ifBody | elseBody | whileBody | forBody | classBody
deriving DecidableEq

/-- What a name is declared as. -/
inductive DeclKind where
  | varDecl | functionDecl | classDecl
deriving DecidableEq

/-- A declared name. Built-ins have no position. -/
structure Declaration where
  name : Symbol
  kind : DeclKind
  pos : Option Position
deriving DecidableEq

/-- The built-in names. -/
abbrev Globals := List (String × DeclKind)

/-- The functions that the machine provides. -/
def Globals.builtin : Globals :=
  ["print", "cls", "locate", "color", "pset", "line", "rect", "sprite", "sound", "key", "mouse",
    "peek", "poke", "alloc", "free", "len", "str", "int", "rnd", "abs", "floor", "sin", "cos",
    "sqrt", "time", "wait"].map (·, .functionDecl)

/-- An open scope above the root. -/
structure Scope where
  kind : ScopeKind
  start : Nat
deriving DecidableEq

/-- The open scopes. `inner` are those above the root, outermost first; the first `globals`
declarations are the built-in ones. -/
structure Scopes where
  inner : List Scope
  declared : List Declaration
  globals : Nat
deriving DecidableEq

/-- Names a declaration by its scope and its place in it. It is good while the scope is open. -/
structure DeclRef where
  scope : Nat
  item : Nat
deriving DecidableEq

/-- A state to come back to. As scopes and declarations are only added and removed at the
end, two lengths identify it. -/
structure Mark where
  depth : Nat
  declared : Nat
deriving DecidableEq

/-- Gives each name its symbol, in order. -/
def Globals.declare (interner : Interner) : Globals → List Declaration × Interner
  | [] => ([], interner)
  | (name, kind) :: rest =>
    let (symbol, interner) := interner.intern name
    let (declared, interner) := Globals.declare interner rest
    (⟨symbol, kind, none⟩ :: declared, interner)

namespace Scopes

/-- The root scope alone, with the given globals. -/
def ofGlobals (globals : Globals) (interner : Interner) : Scopes × Interner :=
  let (declared, interner) := globals.declare interner
  (⟨[], declared, declared.length⟩, interner)

/-- How many scopes are open, the root among them. -/
def depth (scopes : Scopes) : Nat := scopes.inner.length + 1

/-- Where the declarations of each scope start. -/
def starts (scopes : Scopes) : List Nat := 0 :: scopes.inner.map Scope.start

/-- Opens an empty scope. -/
def enter (scopes : Scopes) (kind : ScopeKind) : Scopes :=
  { scopes with inner := scopes.inner ++ [⟨kind, scopes.declared.length⟩] }

/-- Closes the innermost scope and drops its declarations. The root cannot be closed. -/
def leave (scopes : Scopes) : Except Fault (ScopeKind × Scopes) :=
  match scopes.inner.getLast? with
  | none => .error .rootScopeEnded
  | some scope => .ok (scope.kind,
      { scopes with inner := scopes.inner.dropLast, declared := scopes.declared.take scope.start })

/-- Where the declarations of the innermost scope start. -/
def currentStart (scopes : Scopes) : Nat := (scopes.inner.getLast?.map Scope.start).getD 0

/-- Declares a name in the innermost scope. A name may be declared again. -/
def add (scopes : Scopes) (name : Symbol) (kind : DeclKind) (pos : Position) :
    Except Fault (DeclRef × Scopes) :=
  if scopes.declared.length < scopes.currentStart then .error .badIndex
  else .ok (⟨scopes.inner.length, scopes.declared.length - scopes.currentStart⟩,
    { scopes with declared := scopes.declared ++ [⟨name, kind, some pos⟩] })

/-- The declarations of the scope at `depth`, which the declarations of the next one end. After
rewinding out of order they may not be a part of the list. -/
def declaredAt (scopes : Scopes) (depth : Nat) : Except Fault (List Declaration) :=
  let start := scopes.starts.getD depth 0
  let stop := (scopes.starts[depth + 1]?).getD scopes.declared.length
  if start ≤ stop ∧ stop ≤ scopes.declared.length then
    .ok ((scopes.declared.take stop).drop start)
  else .error .badIndex

/-- Whether a declaration is of the name, and of the kind if one is given. -/
def isOf (name : Symbol) (kind : Option DeclKind) (declaration : Declaration) : Bool :=
  declaration.name = name && kind.all (· = declaration.kind)

/-- Searches the scopes below `depth`, the highest first. -/
def findBelow (scopes : Scopes) (name : Symbol) (kind : Option DeclKind) :
    (depth : Nat) → Except Fault (Option Declaration)
  | 0 => .ok none
  | depth + 1 => do
    match (← scopes.declaredAt depth).find? (isOf name kind) with
    | some declaration => return some declaration
    | none => scopes.findBelow name kind depth

/-- The nearest declaration of a name: the first of the innermost scope that has one. -/
def find? (scopes : Scopes) (name : Symbol) (kind : Option DeclKind) :
    Except Fault (Option Declaration) :=
  scopes.findBelow name kind scopes.depth

/-- The declaration that a ref names. -/
def get? (scopes : Scopes) (ref : DeclRef) : Except Fault (Option Declaration) :=
  if ref.scope < scopes.depth then do
    return (← scopes.declaredAt ref.scope)[ref.item]?
  else .ok none

/-- The kind of the innermost scope. -/
def kind (scopes : Scopes) : ScopeKind := (scopes.inner.getLast?.map Scope.kind).getD .program

/-- Whether some open scope is the body of a class. -/
def inClass (scopes : Scopes) : Bool := scopes.inner.any (·.kind = .classBody)

def mark (scopes : Scopes) : Mark := ⟨scopes.depth, scopes.declared.length⟩

/-- Drops what was added since the mark. -/
def rewind (scopes : Scopes) (mark : Mark) : Scopes :=
  { scopes with
    inner := scopes.inner.take (mark.depth - 1)
    declared := scopes.declared.take mark.declared }

/-- Drops all but the root scope and its globals. -/
def reset (scopes : Scopes) : Scopes :=
  { scopes with inner := [], declared := scopes.declared.take scopes.globals }

end Scopes
end Arcade
