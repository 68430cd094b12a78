import Arcade.Parse.Error
import Arcade.Scope.Basic
import Arcade.Syntax.Tree

/-! A checker for the names of a program that walks the finished tree, from left to right, with
a stack of scopes. It knows nothing of tokens or positions. -/

namespace Arcade.Proofs

/-- What can be wrong in a program whose syntax is right. -/
inductive Issue where
  | undeclared (name : Symbol)
  | undeclaredClass (name : Symbol)
  | thisOutsideClass
  | superOutsideClass
  | invalidAssignment
  | duplicateParams
deriving DecidableEq

/-- The issue that an error of the parser reports. Errors of syntax are none. -/
def issueOf : Parse.Error → Option Issue
  | .undeclared name _ => some (.undeclared name)
  | .undeclaredClass name _ => some (.undeclaredClass name)
  | .thisOutsideClass _ => some .thisOutsideClass
  | .superOutsideClass _ => some .superOutsideClass
  | .invalidAssignment _ => some .invalidAssignment
  | .duplicateParams _ => some .duplicateParams
  | .unexpectedEnd | .unexpected .. => none

/-- A scope and the names declared in it. -/
structure NameScope where
  kind : ScopeKind
  names : List (Symbol × DeclKind)

/-- The scopes around a place in the program, the innermost first. -/
abbrev ScopeStack := List NameScope

/-- What the checker keeps of declarations. -/
def declaredAs (declarations : List Declaration) : List (Symbol × DeclKind) :=
  declarations.map fun item => (item.name, item.kind)

namespace ScopeStack

/-- Whether a scope around declares the name, as the given kind if there is one. -/
def declares (stack : ScopeStack) (name : Symbol) (kind : Option DeclKind) : Bool :=
  stack.any fun scope => scope.names.any fun (declared, as) => declared = name && kind.all (· = as)

def inClass (stack : ScopeStack) : Bool := stack.any (·.kind = .classBody)

/-- Whether the innermost scope is the body of a class. -/
def inClassBody (stack : ScopeStack) : Bool := stack.head?.any (·.kind = .classBody)

def enter (stack : ScopeStack) (kind : ScopeKind) (names : List (Symbol × DeclKind)) : ScopeStack :=
  ⟨kind, names⟩ :: stack

/-- Adds names to the innermost scope. Around everything is the scope of the program. -/
def declare (stack : ScopeStack) (names : List (Symbol × DeclKind)) : ScopeStack :=
  match stack with
  | [] => [⟨.program, names⟩]
  | scope :: outer => ⟨scope.kind, scope.names ++ names⟩ :: outer

/-- The scope of a program before its first statement, which holds the globals. -/
def ofGlobals (scopes : Scopes) : ScopeStack :=
  [⟨.program, declaredAs (scopes.declared.take scopes.globals)⟩]

end ScopeStack

/-- What a statement declares in the scope that it stands in. Members of a class declare
nothing. -/
def declaredBy (inClassBody : Bool) : Statement → List (Symbol × DeclKind)
  | .letDecl name _ _ => [(name, .varDecl)]
  | .functionDecl name _ _ _ => if inClassBody then [] else [(name, .functionDecl)]
  | .classDecl name _ _ _ => [(name, .classDecl)]
  | _ => []

/-- The parameters that one before them, or among `earlier`, is equal to. -/
def duplicateIssues (earlier : List Symbol) : List Symbol → List Issue
  | [] => []
  | name :: rest =>
    (if earlier.contains name then [.duplicateParams] else []) ++ duplicateIssues (name :: earlier) rest

def nameIssues (stack : ScopeStack) (name : Symbol) : List Issue :=
  if stack.declares name none then [] else [.undeclared name]

/-- A use of a class. A nearer declaration that is none does not hide it. -/
def classIssues (stack : ScopeStack) (name : Symbol) : List Issue :=
  if stack.declares name (some .classDecl) then [] else [.undeclaredClass name]

mutual

@[simp] def exprIssues (stack : ScopeStack) (tree : Expr) : List Issue :=
  match tree with
  | .identifier name _ => nameIssues stack name
  | .thisRef _ | .field _ _ => if stack.inClass then [] else [.thisOutsideClass]
  | .superRef _ => if stack.inClass then [] else [.superOutsideClass]
  | .literal _ _ => []
  | .array items _ => exprsIssues stack items
  | .dict items _ => entriesIssues stack items
  | .function params body _ =>
    duplicateIssues [] params ++
      blockIssues (stack.enter .functionBody (params.map (·, .varDecl))) body
  | .unary _ operand _ => exprIssues stack operand
  | .binary left _ right _ => exprIssues stack left ++ exprIssues stack right
  | .member object _ _ => exprIssues stack object
  | .index object key _ => exprIssues stack object ++ exprIssues stack key
  | .call callee args _ => exprIssues stack callee ++ exprsIssues stack args
  | .new className args _ => classIssues stack className ++ exprsIssues stack args
  | .illFormed => []
termination_by structural tree

@[simp] def exprsIssues (stack : ScopeStack) (items : List Expr) : List Issue :=
  match items with
  | [] => []
  | item :: rest => exprIssues stack item ++ exprsIssues stack rest
termination_by structural items

@[simp] def entriesIssues (stack : ScopeStack) (items : List (Symbol × Expr)) : List Issue :=
  match items with
  | [] => []
  | (_, value) :: rest => exprIssues stack value ++ entriesIssues stack rest
termination_by structural items

/-- What a statement declares is known to the ones after it. -/
@[simp] def blockIssues (stack : ScopeStack) (body : List Statement) : List Issue :=
  match body with
  | [] => []
  | first :: rest =>
    statementIssues stack first ++
      blockIssues (stack.declare (declaredBy stack.inClassBody first)) rest
termination_by structural body

/-- A function is known in its own body, a variable not in its value. -/
@[simp] def statementIssues (stack : ScopeStack) (tree : Statement) : List Issue :=
  match tree with
  | .letDecl _ init _ | .fieldDecl _ init _ => exprIssues stack init
  | .assign target _ value _ =>
    exprIssues stack target ++ (if target.isLvalue then [] else [.invalidAssignment]) ++
      exprIssues stack value
  | .functionDecl name params body _ =>
    let known := if stack.inClassBody then stack else stack.declare [(name, .functionDecl)]
    duplicateIssues [] params ++
      blockIssues (known.enter .functionBody (params.map (·, .varDecl))) body
  | .ifElse condition body otherwise _ =>
    exprIssues stack condition ++ blockIssues (stack.enter .ifBody []) body ++
      elseIssues stack otherwise
  | .whileLoop condition body _ =>
    exprIssues stack condition ++ blockIssues (stack.enter .whileBody []) body
  | .forLoop name first last step body _ =>
    exprIssues stack first ++ exprIssues stack last ++ stepIssues stack step ++
      blockIssues (stack.enter .forBody [(name, .varDecl)]) body
  | .returnValues values _ => exprsIssues stack values
  | .breakLoop _ | .continueLoop _ => []
  | .classDecl name parents body _ =>
    parents.flatMap (classIssues stack) ++
      blockIssues ((stack.declare [(name, .classDecl)]).enter .classBody []) body
  | .expr value => exprIssues stack value
  | .illFormed => []
termination_by structural tree

@[simp] def elseIssues (stack : ScopeStack) (part : Option (List Statement)) : List Issue :=
  match part with
  | none => []
  | some body => blockIssues (stack.enter .elseBody []) body
termination_by structural part

@[simp] def stepIssues (stack : ScopeStack) (part : Option Expr) : List Issue :=
  match part with
  | none => []
  | some step => exprIssues stack step
termination_by structural part

end

end Arcade.Proofs
