import Arcade.Proofs.ProgramReadings
import Arcade.Proofs.ScopeChecker

/-! Names are resolved while parsing, from one flat list of scopes, as the checker of the finished
tree resolves them with its stack. The two are compared where a trace is replayed: the errors it
comes to must be the issues of the tree that was read, in any scopes that show the same names. -/

namespace Arcade.Proofs
open Arcade.Parse

/-! ### The two views of the scopes -/

/-- The nest and the stack show the same names. How many scopes they have may differ. -/
structure Sees (nest : Nest) (stack : ScopeStack) : Prop where
  names : ∀ name kind, (nest.find? name kind).isSome = stack.declares name kind
  inClass : nest.inClass = stack.inClass

private theorem isSome_find?_eq (nest : Nest) (name : Symbol) (kind : Option DeclKind) :
    (nest.find? name kind).isSome =
      (nest.inner.any (·.declared.any (Scopes.isOf name kind)) ||
        nest.root.any (Scopes.isOf name kind)) := by
  simp only [Nest.find?, List.isSome_findSome?, List.isSome_find?, List.any_append, List.any_map,
    List.any_cons, List.any_nil, Bool.or_false, Function.comp_def]

private theorem any_declaredAs (declarations : List Declaration) (name : Symbol)
    (kind : Option DeclKind) :
    ((declaredAs declarations).any fun (declared, as) => declared = name && kind.all (· = as)) =
      declarations.any (Scopes.isOf name kind) := List.any_map

private theorem declares_declare (stack : ScopeStack) (added : List Declaration) (name : Symbol)
    (kind : Option DeclKind) : (stack.declare (declaredAs added)).declares name kind =
      (stack.declares name kind || added.any (Scopes.isOf name kind)) := by
  cases stack with
  | nil => simp [ScopeStack.declare, ScopeStack.declares, any_declaredAs]
  | cons scope outer =>
    simp only [ScopeStack.declare, ScopeStack.declares, List.any_cons, List.any_append, any_declaredAs]
    ac_rfl

theorem inClassBody_declare (stack : ScopeStack) (names : List (Symbol × DeclKind)) :
    (stack.declare names).inClassBody = stack.inClassBody := by
  cases stack <;> rfl

theorem declare_nil_declare (stack : ScopeStack) (names : List (Symbol × DeclKind)) :
    (stack.declare []).declare names = stack.declare names := by
  cases stack <;> simp [ScopeStack.declare]

namespace Sees

variable {nest : Nest} {stack : ScopeStack}

theorem ofGlobals (scopes : Scopes) : Sees (Nest.ofGlobals scopes) (ScopeStack.ofGlobals scopes) := by
  refine ⟨fun name kind => ?_, rfl⟩
  rw [isSome_find?_eq]
  simp [Nest.ofGlobals, ScopeStack.ofGlobals, ScopeStack.declares, any_declaredAs]

theorem enter (sees : Sees nest stack) (kind : ScopeKind) :
    Sees (nest.enter kind) (stack.enter kind []) := by
  refine ⟨fun name as => ?_, ?_⟩
  · have names := sees.names name as
    rw [isSome_find?_eq] at names ⊢
    simpa [Nest.enter, ScopeStack.enter, ScopeStack.declares] using names
  · simp [Nest.inClass_enter, ScopeStack.inClass, ScopeStack.enter, sees.inClass]

/-- An empty scope shows nothing unless it is the body of a class. -/
theorem enter_empty (sees : Sees nest stack) {kind : ScopeKind} (plain : kind ≠ .classBody) :
    Sees nest (stack.enter kind []) := by
  refine ⟨fun name as => ?_, ?_⟩
  · rw [sees.names name as]
    simp [ScopeStack.enter, ScopeStack.declares]
  · rw [sees.inClass]
    simp [ScopeStack.enter, ScopeStack.inClass, plain]

theorem declare (sees : Sees nest stack) (added : List Declaration) :
    Sees (nest.declare added) (stack.declare (declaredAs added)) := by
  refine ⟨fun name kind => ?_, ?_⟩
  · have names := sees.names name kind
    rw [declares_declare, ← names, isSome_find?_eq, isSome_find?_eq]
    obtain ⟨inner, root, globals⟩ := nest
    cases inner with
    | nil => simp [Nest.declare]
    | cons layer outer =>
      simp only [Nest.declare, List.any_cons, List.any_append]
      ac_rfl
  · rw [Nest.inClass_declare, sees.inClass]
    cases stack <;> rfl

end Sees

/-! ### Traces and issues -/

/-- A trace comes to the given issues, in any scopes, and leaves them as they are. -/
def Agrees (issues : ScopeStack → List Issue) (trace : Trace) : Prop :=
  trace.Clean → ∀ nest stack, Sees nest stack →
    trace.apply nest = nest ∧ (trace.errors nest).map issueOf = (issues stack).map some

/-- The same of statements, which declare names in the scope that they stand in. -/
def AgreesDeclaring (inClassBody : Bool) (issues : ScopeStack → List Issue)
    (names : List (Symbol × DeclKind)) (trace : Trace) : Prop :=
  trace.Clean → ∀ nest stack, Sees nest stack → stack.inClassBody = inClassBody →
    (∃ added, trace.apply nest = nest.declare added ∧ declaredAs added = names) ∧
      (trace.errors nest).map issueOf = (issues stack).map some

section
variable {issues more : ScopeStack → List Issue} {trace traces : Trace}

theorem Agrees.nil : Agrees (fun _ => []) [] := fun _ _ _ _ => ⟨rfl, rfl⟩

theorem Agrees.append (first : Agrees issues trace) (rest : Agrees more traces) :
    Agrees (fun stack => issues stack ++ more stack) (trace ++ traces) := by
  intro clean nest stack sees
  obtain ⟨clean, clean'⟩ := (Trace.clean_append ..).mp clean
  obtain ⟨stays, errors⟩ := first clean nest stack sees
  obtain ⟨stays', errors'⟩ := rest clean' nest stack sees
  rw [Trace.apply_append, Trace.errors_append, stays, List.map_append, errors, errors',
    List.map_append]
  exact ⟨stays', rfl⟩

theorem Agrees.of_eq (agrees : Agrees issues trace) (same : ∀ stack, issues stack = more stack) :
    Agrees more trace := by
  rwa [← funext same]

theorem Agrees.declaring (agrees : Agrees issues trace) (inClassBody : Bool) :
    AgreesDeclaring inClassBody issues [] trace := by
  intro clean nest stack sees _
  obtain ⟨stays, errors⟩ := agrees clean nest stack sees
  exact ⟨⟨[], by rw [stays, Nest.declare_nil], rfl⟩, errors⟩

theorem AgreesDeclaring.of_eq {inClassBody : Bool} {names : List (Symbol × DeclKind)}
    (agrees : AgreesDeclaring inClassBody issues names trace)
    (same : ∀ stack, stack.inClassBody = inClassBody → issues stack = more stack) :
    AgreesDeclaring inClassBody more names trace := by
  intro clean nest stack sees inside
  rw [← same stack inside]
  exact agrees clean nest stack sees inside

theorem AgreesDeclaring.append {inClassBody : Bool} {names names' : List (Symbol × DeclKind)}
    (first : AgreesDeclaring inClassBody issues names trace)
    (rest : AgreesDeclaring inClassBody more names' traces) :
    AgreesDeclaring inClassBody (fun stack => issues stack ++ more (stack.declare names))
      (names ++ names') (trace ++ traces) := by
  intro clean nest stack sees inside
  obtain ⟨clean, clean'⟩ := (Trace.clean_append ..).mp clean
  obtain ⟨⟨added, after, rfl⟩, errors⟩ := first clean nest stack sees inside
  obtain ⟨⟨added', after', rfl⟩, errors'⟩ :=
    rest clean' (nest.declare added) _ (sees.declare added) (by rw [inClassBody_declare, inside])
  refine ⟨⟨added ++ added', ?_, List.map_append⟩, ?_⟩
  · rw [Trace.apply_append, after, after', Nest.declare_declare]
  · rw [Trace.errors_append, after, List.map_append, errors, errors', List.map_append]

/-- Nothing that is declared in a scope of its own is left of it. -/
theorem AgreesDeclaring.scope {kind : ScopeKind} {names : List (Symbol × DeclKind)}
    (inside : AgreesDeclaring (decide (kind = .classBody)) issues names trace) :
    Agrees (fun stack => issues (stack.enter kind [])) (.enter kind :: (trace ++ [.leave])) := by
  intro clean nest stack sees
  have clean : trace.Clean := by simpa using clean
  obtain ⟨⟨added, after, _⟩, errors⟩ :=
    inside clean (nest.enter kind) (stack.enter kind []) (sees.enter kind) rfl
  constructor
  · simp [Action.apply, after]
  · simpa [Action.errors, Action.apply] using errors

/-- An empty scope around changes no issue. -/
theorem Agrees.in_empty (agrees : Agrees issues trace) (kind : ScopeKind) (plain : kind ≠ .classBody) :
    Agrees (fun stack => issues (stack.enter kind [])) trace :=
  fun clean nest _ sees => agrees clean nest _ (sees.enter_empty plain)

/-! ### Single actions -/

private theorem agrees_action {action : Action} (stays : ∀ nest, action.apply nest = nest)
    (errors : ∀ nest stack, Sees nest stack →
      (action.errors nest).map issueOf = (issues stack).map some) : Agrees issues [action] := by
  intro _ nest stack sees
  simp [stays, errors nest stack sees]

theorem agrees_report {error : Error} {issue : Issue} (same : issueOf error = some issue) :
    Agrees (fun _ => [issue]) [.report error] :=
  agrees_action (fun _ => rfl) fun _ _ _ => by simp [Action.errors, same]

theorem agrees_useName (name : Symbol) (pos : Position) :
    Agrees (nameIssues · name) [.useName name pos] := by
  refine agrees_action (fun _ => rfl) ?_
  intro nest stack sees
  rw [nameIssues, ← sees.names, Action.errors]
  cases nest.find? name none <;> rfl

theorem agrees_useClass (name : Symbol) (pos : Position) :
    Agrees (classIssues · name) [.useClass name pos] := by
  refine agrees_action (fun _ => rfl) ?_
  intro nest stack sees
  rw [classIssues, ← sees.names, Action.errors]
  cases nest.find? name (some .classDecl) <;> rfl

theorem agrees_useThis (pos : Position) :
    Agrees (fun stack => if stack.inClass then [] else [.thisOutsideClass]) [.useThis pos] := by
  refine agrees_action (fun _ => rfl) ?_
  intro nest stack sees
  rw [← sees.inClass, Action.errors]
  cases nest.inClass <;> rfl

theorem agrees_useSuper (pos : Position) :
    Agrees (fun stack => if stack.inClass then [] else [.superOutsideClass]) [.useSuper pos] := by
  refine agrees_action (fun _ => rfl) ?_
  intro nest stack sees
  rw [← sees.inClass, Action.errors]
  cases nest.inClass <;> rfl

theorem agrees_declare (inClassBody : Bool) (name : Symbol) (kind : DeclKind) (pos : Position) :
    AgreesDeclaring inClassBody (fun _ => []) [(name, kind)] [.declare name kind pos] :=
  fun _ _ _ _ _ => ⟨⟨[⟨name, kind, some pos⟩], rfl, rfl⟩, rfl⟩

end

/-! ### Lists and functions -/

section
variable {α : Type} {item : Reading α} {issues : ScopeStack → α → List Issue}

theorem delimited_agrees {used : List Token} {values : List α} {trace : Trace}
    (inside : Delimited item used values trace)
    (items : ∀ used value trace, item used value trace → Agrees (issues · value) trace) :
    Agrees (fun stack => values.flatMap (issues stack)) trace := by
  induction inside with
  | empty => exact .nil
  | last _ first => exact (items _ _ _ first).of_eq fun _ => by simp
  | more _ first _ _ _ ih => exact ((items _ _ _ first).append ih).of_eq fun _ => rfl

theorem separated_agrees {used : List Token} {values : List α} {trace : Trace}
    (inside : Separated item used values trace)
    (items : ∀ used value trace, item used value trace → Agrees (issues · value) trace) :
    Agrees (fun stack => values.flatMap (issues stack)) trace := by
  induction inside with
  | last first => exact (items _ _ _ first).of_eq fun _ => by simp
  | more first _ _ _ ih => exact ((items _ _ _ first).append ih).of_eq fun _ => rfl

theorem enclosed_agrees {opening closing : Punctuation} {used : List Token} {values : List α}
    {trace : Trace}
    (inside : Enclosed opening closing item used values trace)
    (items : ∀ used value trace, item used value trace → Agrees (issues · value) trace) :
    Agrees (fun stack => values.flatMap (issues stack)) trace := by
  cases inside with
  | intro _ inside _ => exact delimited_agrees inside items

end

theorem exprsIssues_eq (stack : ScopeStack) (items : List Expr) :
    exprsIssues stack items = items.flatMap (exprIssues stack) := by
  induction items with
  | nil => rfl
  | cons item rest ih => rw [exprsIssues, ih, List.flatMap_cons]

theorem entriesIssues_eq (stack : ScopeStack) (items : List (Symbol × Expr)) :
    entriesIssues stack items = items.flatMap fun entry => exprIssues stack entry.2 := by
  induction items with
  | nil => rfl
  | cons item rest ih => rw [entriesIssues, ih, List.flatMap_cons]

theorem params_agree {used : List Token} {params : List (Symbol × Position)} {quiet : Trace}
    (names : Enclosed .openParens .closeParens NameReading used params quiet) :
    Agrees (fun _ => []) quiet :=
  by
  have items (used : List Token) (value : Symbol × Position) (trace : Trace)
      (name : NameReading used value trace) : Agrees (fun _ => []) trace := by
    cases name
    exact .nil
  exact (enclosed_agrees names items).of_eq fun _ => by simp

theorem duplicateReports_agree (earlier : List Symbol) (params : List (Symbol × Position)) :
    Agrees (fun _ => duplicateIssues earlier (params.map (·.1))) (duplicateReports earlier params) := by
  induction params generalizing earlier with
  | nil => exact .nil
  | cons param rest ih =>
    obtain ⟨name, pos⟩ := param
    have first : Agrees (fun _ => if earlier.contains name then [.duplicateParams] else [])
        (if earlier.contains name then [.report (.duplicateParams pos)] else []) := by
      split
      · exact agrees_report rfl
      · exact .nil
    exact first.append (ih (name :: earlier))

theorem paramDeclarations_agree (inClassBody : Bool) (params : List (Symbol × Position)) :
    AgreesDeclaring inClassBody (fun _ => []) (params.map fun param => (param.1, .varDecl))
      (paramDeclarations params) := by
  induction params with
  | nil => exact Agrees.nil.declaring inClassBody
  | cons param rest ih => exact (agrees_declare inClassBody _ _ _).append ih

/-! ### The reading -/

/-- The names of every production are resolved as the checker resolves them in its tree. -/
def resolution : GrammarReading where
  expression := fun _ value trace => Agrees (exprIssues · value) trace
  block := fun inClassBody _ body trace =>
    AgreesDeclaring inClassBody (blockIssues · body) (body.flatMap (declaredBy inClassBody)) trace
  ifRest := fun _ _ value trace => Agrees (statementIssues · value) trace

section
variable {used : List Token} {trace : Trace}

/-- The block of a scope that starts with some names declared. -/
theorem block_agrees (kind : ScopeKind) {names : List (Symbol × DeclKind)} {opening : Trace}
    {body : Block}
    (declares : AgreesDeclaring (decide (kind = .classBody)) (fun _ => []) names opening)
    (inside : resolution.block (decide (kind = .classBody)) used body trace) :
    Agrees (fun stack => blockIssues (stack.enter kind names) body)
      (.enter kind :: (opening ++ trace ++ [.leave])) :=
  (declares.append inside).scope.of_eq fun _ => rfl

/-- The block of a scope that starts empty. -/
theorem plain_block_agrees (kind : ScopeKind) {body : Block}
    (inside : resolution.block (decide (kind = .classBody)) used body trace) :
    Agrees (fun stack => blockIssues (stack.enter kind []) body)
      (.enter kind :: (trace ++ [.leave])) :=
  block_agrees kind (Agrees.nil.declaring _) inside

theorem function_agrees {params : List Symbol} {body : Block}
    (inside : FunctionReading resolution used (params, body) trace) :
    Agrees (fun stack => duplicateIssues [] params ++
      blockIssues (stack.enter .functionBody (params.map (·, .varDecl))) body) trace := by
  generalize whole : (params, body) = value at inside
  cases inside with
  | intro names _ inside _ =>
    cases whole
    refine (((params_agree names).append (duplicateReports_agree [] _)).append
      (block_agrees .functionBody (paramDeclarations_agree _ _) inside)).of_eq ?_
    intro stack
    simp [Function.comp_def]

theorem entry_agrees {entry : Symbol × Expr} (inside : EntryReading resolution used entry trace) :
    Agrees (exprIssues · entry.2) trace := by
  cases inside with
  | short => exact (agrees_useName _ _).of_eq fun _ => by rw [exprIssues]
  | pair _ _ _ inside => exact inside

theorem primary_agrees {value : Expr} (inside : PrimaryReading resolution used value trace) :
    Agrees (exprIssues · value) trace := by
  cases inside with
  | identifier => exact (agrees_useName _ _).of_eq fun _ => by rw [exprIssues]
  | thisRef => exact (agrees_useThis _).of_eq fun _ => by rw [exprIssues]
  | superRef => exact (agrees_useSuper _).of_eq fun _ => by rw [exprIssues]
  | field => exact (agrees_useThis _).of_eq fun _ => by rw [exprIssues]
  | literal => exact Agrees.nil.of_eq fun _ => by rw [exprIssues]
  | array inside =>
    exact (enclosed_agrees inside fun _ _ _ => id).of_eq fun _ => by rw [exprIssues, exprsIssues_eq]
  | dict inside =>
    exact (enclosed_agrees inside fun _ _ _ => entry_agrees).of_eq fun _ => by rw [exprIssues, entriesIssues_eq]
  | function inside => exact (function_agrees inside).of_eq fun _ => by rw [exprIssues]
  | group _ inside => exact inside
  | new _ _ inside =>
    exact ((agrees_useClass _ _).append (enclosed_agrees inside fun _ _ _ => id)).of_eq fun _ => by
      rw [exprIssues, exprsIssues_eq]

theorem postfix_agrees {value : Expr} (inside : PostfixReading resolution used value trace) :
    Agrees (exprIssues · value) trace := by
  induction inside with
  | primary inside => exact primary_agrees inside
  | call _ inside ih =>
    exact (ih.append (enclosed_agrees inside fun _ _ _ => id)).of_eq fun _ => by rw [exprIssues, exprsIssues_eq]
  | index _ _ _ inside _ _ ih => exact (ih.append inside).of_eq fun _ => by rw [exprIssues]
  | member _ _ _ ih => exact ih.of_eq fun _ => by rw [exprIssues]

theorem unary_agrees {value : Expr} (inside : UnaryReading resolution used value trace) :
    Agrees (exprIssues · value) trace := by
  induction inside with
  | operand inside => exact postfix_agrees inside
  | unary _ _ _ ih => exact ih.of_eq fun _ => by rw [exprIssues]

theorem tier_agrees {isOfTier : Operator → Bool} {operand : Reading Expr} {value : Expr}
    (operands : ∀ {used value trace}, operand used value trace → Agrees (exprIssues · value) trace)
    (inside : TierReading isOfTier operand used value trace) : Agrees (exprIssues · value) trace := by
  induction inside with
  | operand inside => exact operands inside
  | binary _ _ _ _ inside ih => exact (ih.append (operands inside)).of_eq fun _ => by rw [exprIssues]

theorem expression_agrees {value : Expr} (inside : ExpressionReading resolution used value trace) :
    Agrees (exprIssues · value) trace :=
  tier_agrees (tier_agrees (tier_agrees (tier_agrees unary_agrees))) inside

/-! ### Statements -/

/-- A function that its own scope knows, as methods are not. -/
theorem functionDecl_agrees {name : Symbol} {params : List Symbol} {body : Block} {pos declPos : Position}
    (inside : FunctionReading resolution used (params, body) trace) :
    AgreesDeclaring false (statementIssues · (.functionDecl name params body pos))
      [(name, .functionDecl)] (.declare name .functionDecl declPos :: trace) := by
  refine ((agrees_declare false name .functionDecl declPos).append
    ((function_agrees inside).declaring false)).of_eq ?_
  intro stack outside
  simp [statementIssues, outside]

theorem let_agrees {pos : Position} {value : Statement}
    (inside : LetReading resolution pos used value trace) :
    AgreesDeclaring false (statementIssues · value) (declaredBy false value) trace := by
  cases inside with
  | function _ inside => exact functionDecl_agrees inside
  | @value _ _ _ name _ _ _ _ inside =>
    refine (((expression_agrees inside).declaring false).append
      (agrees_declare false name .varDecl pos)).of_eq ?_
    intro stack _
    rw [statementIssues, List.append_nil]

theorem branch_agrees {condition : Expr} {body : Block}
    (inside : BranchReading resolution used (condition, body) trace) :
    Agrees (fun stack => exprIssues stack condition ++ blockIssues (stack.enter .ifBody []) body)
      trace := by
  cases inside with
  | intro head inside => exact (expression_agrees head).append (plain_block_agrees .ifBody inside)

theorem if_agrees {pos : Position} {value : Statement}
    (inside : IfReading resolution pos used value trace) : Agrees (statementIssues · value) trace := by
  cases inside with
  | plain branch =>
    exact (branch_agrees branch).of_eq fun _ => by rw [statementIssues, elseIssues, List.append_nil]
  | otherwise branch _ inside =>
    exact ((branch_agrees branch).append (plain_block_agrees .elseBody inside)).of_eq fun _ => by
      rw [statementIssues, elseIssues]
  | chain branch _ _ inside =>
    -- The tree has an `else` block of one statement, whose scope stays empty.
    have inner : Agrees (statementIssues · _) _ := inside
    refine ((branch_agrees branch).append (inner.in_empty .elseBody nofun)).of_eq ?_
    intro _
    rw [statementIssues, elseIssues, blockIssues, blockIssues, List.append_nil]

theorem while_agrees {pos : Position} {value : Statement}
    (inside : WhileReading resolution pos used value trace) :
    Agrees (statementIssues · value) trace := by
  cases inside with
  | intro head inside =>
    exact ((expression_agrees head).append (plain_block_agrees .whileBody inside)).of_eq fun _ => by
      rw [statementIssues]

theorem step_agrees {value : Option Expr} (inside : StepReading resolution used value trace) :
    Agrees (stepIssues · value) trace := by
  cases inside with
  | none => exact Agrees.nil.of_eq fun _ => by rw [stepIssues]
  | some _ inside => exact (expression_agrees inside).of_eq fun _ => by rw [stepIssues]

theorem for_agrees {pos : Position} {value : Statement}
    (inside : ForReading resolution pos used value trace) :
    Agrees (statementIssues · value) trace := by
  cases inside with
  | @intro key _ _ _ _ _ _ _ name _ _ _ _ _ _ _ _ _ _ head _ limit stride inside _ =>
    have block := block_agrees .forBody (agrees_declare false name .varDecl key.pos) inside
    refine ((expression_agrees head).append ((expression_agrees limit).append
      ((step_agrees stride).append block))).of_eq ?_
    intro _
    simp only [statementIssues, List.append_assoc]

theorem return_agrees {pos : Position} {value : Statement}
    (inside : ReturnReading resolution pos used value trace) :
    Agrees (statementIssues · value) trace := by
  cases inside with
  | bare => exact Agrees.nil.of_eq fun _ => by rw [statementIssues, exprsIssues]
  | values inside =>
    exact (separated_agrees inside fun _ _ _ => expression_agrees).of_eq fun _ => by
      rw [statementIssues, exprsIssues_eq]

theorem parents_agree {names : List Symbol} (inside : ParentsReading used names trace) :
    Agrees (fun stack => names.flatMap (classIssues stack)) trace := by
  have parents (used : List Token) (name : Symbol) (trace : Trace)
      (parent : ParentReading used name trace) : Agrees (classIssues · name) trace := by
    cases parent
    exact agrees_useClass _ _
  cases inside with
  | none => exact .nil
  | some _ inside => exact separated_agrees inside parents

theorem assign_agrees {value : Statement} (inside : AssignReading resolution used value trace) :
    Agrees (statementIssues · value) trace := by
  cases inside with
  | expr inside => exact (expression_agrees inside).of_eq fun _ => by rw [statementIssues]
  | @assign _ token _ target _ _ _ _ _ left _ _ right =>
    have place : Agrees (fun _ => if target.isLvalue then [] else [.invalidAssignment])
        (if target.isLvalue then [] else [.report (.invalidAssignment token.pos)]) := by
      split
      · exact .nil
      · exact agrees_report rfl
    refine ((expression_agrees left).append (place.append (expression_agrees right))).of_eq ?_
    intro _
    rw [statementIssues, List.append_assoc]

theorem class_agrees {pos : Position} {value : Statement}
    (inside : ClassReading resolution pos used value trace) :
    AgreesDeclaring false (statementIssues · value) (declaredBy false value) trace := by
  cases inside with
  | @intro _ _ _ _ name parents body _ _ _ heads inside _ =>
    have members := (plain_block_agrees .classBody inside).declaring false
    refine (((parents_agree heads).declaring false).append
      ((agrees_declare false name .classDecl pos).append members)).of_eq ?_
    intro stack _
    simp only [statementIssues, declare_nil_declare, List.nil_append]

theorem statement_agrees {value : Statement} (inside : StatementReading resolution used value trace) :
    AgreesDeclaring false (statementIssues · value) (declaredBy false value) trace := by
  cases inside with
  | letDecl _ inside => exact let_agrees inside
  | ifElse _ inside =>
    have agrees := (if_agrees inside).declaring false
    cases inside <;> exact agrees
  | whileLoop _ inside =>
    have agrees := (while_agrees inside).declaring false
    cases inside
    exact agrees
  | forLoop _ inside =>
    have agrees := (for_agrees inside).declaring false
    cases inside
    exact agrees
  | returnValues _ inside =>
    have agrees := (return_agrees inside).declaring false
    cases inside <;> exact agrees
  | breakLoop | continueLoop =>
    exact (Agrees.nil.of_eq fun _ => by rw [statementIssues]).declaring false
  | classDecl _ inside => exact class_agrees inside
  | functionDecl _ inside => exact functionDecl_agrees inside
  | assign inside =>
    have agrees := (assign_agrees inside).declaring false
    cases inside <;> exact agrees

theorem member_agrees {value : Statement} (inside : MemberReading resolution used value trace) :
    AgreesDeclaring true (statementIssues · value) (declaredBy true value) trace := by
  cases inside with
  | method _ inside =>
    refine ((function_agrees inside).declaring true).of_eq ?_
    intro stack members
    rw [statementIssues, if_pos members]
  | field _ _ inside =>
    exact ((expression_agrees inside).of_eq fun _ => by rw [statementIssues]).declaring true

theorem line_agrees {inClassBody : Bool} {value : Statement}
    (inside : LineReading resolution inClassBody used value trace) :
    AgreesDeclaring inClassBody (statementIssues · value) (declaredBy inClassBody value) trace := by
  cases inClassBody with
  | true => exact member_agrees inside
  | false => exact statement_agrees inside

theorem body_agrees {inClassBody : Bool} {body : Block}
    (inside : BlockReading resolution inClassBody used body trace) :
    AgreesDeclaring inClassBody (blockIssues · body) (body.flatMap (declaredBy inClassBody)) trace := by
  induction inside with
  | empty => exact (Agrees.nil.of_eq fun _ => by rw [blockIssues]).declaring inClassBody
  | last _ first =>
    rw [List.flatMap_singleton]
    exact (line_agrees first).of_eq fun stack _ => by rw [blockIssues, blockIssues, List.append_nil]
  | line _ first _ _ ih =>
    refine ((line_agrees first).append ih).of_eq ?_
    intro stack members
    rw [blockIssues, members]
  | skipped _ wrong => exact fun clean => absurd clean (by simp [wrong])

theorem resolution_closed : resolution.Closed :=
  ⟨expression_agrees, body_agrees, if_agrees⟩

theorem program_agrees {body : Block} (inside : ProgramReading resolution used body trace) :
    AgreesDeclaring false (blockIssues · body) (body.flatMap (declaredBy false)) trace := by
  cases inside with
  | last inside => exact body_agrees inside
  | stray _ wrong => exact fun clean => absurd clean (by simp [wrong])

end

/-- Unless there are errors of syntax, the errors that parsing reports are the issues that the
checker finds in the finished tree, in the same order. -/
theorem parse_resolves_names (tokens : List Token) (scopes : Scopes) :
    ∃ parsed, parse tokens scopes = .ok parsed ∧
      ((∀ error ∈ parsed.errors, error.isSyntax = false) →
        parsed.errors.map issueOf =
          (blockIssues (ScopeStack.ofGlobals scopes) parsed.statements).map some) := by
  obtain ⟨body, trace, _, inside, answers⟩ := parse_eq resolution_closed tokens
  refine ⟨_, answers scopes, fun accepted => ?_⟩
  have clean := (Trace.clean_iff trace (Nest.ofGlobals scopes)).mpr accepted
  exact (program_agrees inside clean _ _ (Sees.ofGlobals scopes) rfl).2

/-- A class that extends one that is not there, with a method that takes a name twice and uses
another that is not declared. -/
theorem parse_resolves_names_of_class :
    let tokens := inLine [.keyword .classWord, .identifier ⟨1⟩, .keyword .extendsWord,
      .identifier ⟨2⟩, .eol, .identifier ⟨3⟩, .punctuation .openParens, .identifier ⟨4⟩,
      .punctuation .comma, .identifier ⟨4⟩, .punctuation .closeParens, .punctuation .arrow, .eol,
      .keyword .returnWord, .identifier ⟨5⟩, .eol, .keyword .endWord, .eol, .keyword .endWord, .eol]
    let scopes : Scopes := ⟨[], [], 0⟩
    ∃ parsed, parse tokens scopes = .ok parsed ∧
      parsed.errors.map issueOf =
        [some (.undeclaredClass ⟨2⟩), some .duplicateParams, some (.undeclared ⟨5⟩)] ∧
      parsed.errors.map issueOf =
        (blockIssues (ScopeStack.ofGlobals scopes) parsed.statements).map some := by
  intro tokens scopes
  obtain ⟨parsed, answer, resolves⟩ := parse_resolves_names tokens scopes
  have errors : (parse tokens scopes).toOption.map Parsed.errors =
      some [.undeclaredClass ⟨2⟩ ⟨1, 3, .invalid⟩, .duplicateParams ⟨1, 9, .invalid⟩,
        .undeclared ⟨5⟩ ⟨1, 14, .invalid⟩] := by decide +kernel
  rw [answer] at errors
  have errors := Option.some.inj errors
  refine ⟨parsed, answer, by rw [errors]; rfl, resolves ?_⟩
  rw [errors]
  decide

end Arcade.Proofs
