import Arcade.Proofs.ProgramReadings

/-! Ill-formed nodes mark the places of errors of syntax. Where a statement cannot be parsed, an
ill-formed one takes its place, and with it go the marks of the errors that were got over inside.
So there may be fewer nodes than errors, but never a node without an error of its own, nor errors
without any node. -/

namespace Arcade.Proofs
open Arcade.Parse

/-- The sorts of nodes that can be ill-formed. -/
inductive NodeSort where
  | expression | statement
deriving DecidableEq

mutual

/-- The ill-formed nodes in an expression, each by its sort, from left to right at any depth. -/
@[simp] def exprGaps (tree : Expr) : List NodeSort :=
  match tree with
  | .identifier _ _ | .thisRef _ | .superRef _ | .field _ _ | .literal _ _ => []
  | .array items _ => exprsGaps items
  | .dict entries _ => entriesGaps entries
  | .function _ body _ => blockGaps body
  | .unary _ operand _ => exprGaps operand
  | .binary left _ right _ => exprGaps left ++ exprGaps right
  | .member object _ _ => exprGaps object
  | .index object key _ => exprGaps object ++ exprGaps key
  | .call callee args _ => exprGaps callee ++ exprsGaps args
  | .new _ args _ => exprsGaps args
  | .illFormed => [.expression]
termination_by structural tree

@[simp] def exprsGaps (items : List Expr) : List NodeSort :=
  match items with
  | [] => []
  | item :: rest => exprGaps item ++ exprsGaps rest
termination_by structural items

@[simp] def entriesGaps (entries : List (Symbol × Expr)) : List NodeSort :=
  match entries with
  | [] => []
  | (_, value) :: rest => exprGaps value ++ entriesGaps rest
termination_by structural entries

@[simp] def blockGaps (body : List Statement) : List NodeSort :=
  match body with
  | [] => []
  | first :: rest => statementGaps first ++ blockGaps rest
termination_by structural body

@[simp] def statementGaps (tree : Statement) : List NodeSort :=
  match tree with
  | .letDecl _ init _ | .fieldDecl _ init _ => exprGaps init
  | .assign target _ value _ => exprGaps target ++ exprGaps value
  | .functionDecl _ _ body _ => blockGaps body
  | .ifElse condition body otherwise _ =>
    exprGaps condition ++ blockGaps body ++ elseGaps otherwise
  | .whileLoop condition body _ => exprGaps condition ++ blockGaps body
  | .forLoop _ first last step body _ =>
    exprGaps first ++ exprGaps last ++ stepGaps step ++ blockGaps body
  | .returnValues values _ => exprsGaps values
  | .breakLoop _ | .continueLoop _ => []
  | .classDecl _ _ body _ => blockGaps body
  | .expr value => exprGaps value
  | .illFormed => [.statement]
termination_by structural tree

@[simp] def elseGaps (part : Option (List Statement)) : List NodeSort :=
  match part with
  | none => []
  | some body => blockGaps body
termination_by structural part

@[simp] def stepGaps (part : Option Expr) : List NodeSort :=
  match part with
  | none => []
  | some step => exprGaps step
termination_by structural part

end

theorem exprsGaps_eq (items : List Expr) : exprsGaps items = items.flatMap exprGaps := by
  induction items with
  | nil => rfl
  | cons item rest ih => rw [exprsGaps, ih, List.flatMap_cons]

theorem entriesGaps_eq (entries : List (Symbol × Expr)) :
    entriesGaps entries = entries.flatMap fun entry => exprGaps entry.2 := by
  induction entries with
  | nil => rfl
  | cons entry rest ih => rw [entriesGaps, ih, List.flatMap_cons]

theorem blockGaps_append (first rest : Block) :
    blockGaps (first ++ rest) = blockGaps first ++ blockGaps rest := by
  induction first with
  | nil => rfl
  | cons statement first ih => rw [List.cons_append, blockGaps, ih, blockGaps, List.append_assoc]

/-! ### Nodes that account for errors -/

/-- Ill-formed nodes account for some number of errors of syntax: they are all statements, there
are no more of them than errors, and there are some if there is an error. -/
structure Accounts (gaps : List NodeSort) (mistakes : Nat) : Prop where
  statements : ∀ gap ∈ gaps, gap = .statement
  bounded : gaps.length ≤ mistakes
  present : 0 < mistakes → gaps ≠ []

namespace Accounts

variable {gaps more : List NodeSort} {mistakes others : Nat}

theorem nil : Accounts [] 0 := ⟨nofun, Nat.le_refl 0, nofun⟩

/-- Where no node is ill-formed there was no error. -/
theorem eq_zero (accounts : Accounts [] mistakes) : mistakes = 0 :=
  Nat.eq_zero_of_not_pos fun wrong => accounts.present wrong rfl

theorem append (first : Accounts gaps mistakes) (rest : Accounts more others) :
    Accounts (gaps ++ more) (mistakes + others) := by
  refine ⟨?_, ?_, fun wrong => ?_⟩
  · intro gap member
    obtain here | there := List.mem_append.mp member
    · exact first.statements gap here
    · exact rest.statements gap there
  · have here := first.bounded
    have there := rest.bounded
    rw [List.length_append]
    omega
  · rw [Ne, List.append_eq_nil_iff]
    rintro ⟨rfl, rfl⟩
    have here := first.eq_zero
    have there := rest.eq_zero
    omega

/-- One node stands for everything that went wrong in its place. -/
theorem lost (wrong : 0 < mistakes) : Accounts [.statement] mistakes :=
  ⟨fun _ member => List.mem_singleton.mp member, wrong, fun _ => List.cons_ne_nil _ _⟩

theorem statement_mem_iff (accounts : Accounts gaps mistakes) : .statement ∈ gaps ↔ 0 < mistakes := by
  constructor
  · intro member
    exact Nat.lt_of_lt_of_le (List.length_pos_of_mem member) accounts.bounded
  · intro wrong
    obtain ⟨gap, member⟩ := List.exists_mem_of_ne_nil gaps (accounts.present wrong)
    rwa [accounts.statements gap member] at member

end Accounts

section
variable {α : Type} {item : Reading α} {gaps : α → List NodeSort} {used : List Token}
  {values : List α} {trace : Trace}

theorem delimited_accounts (inside : Delimited item used values trace)
    (items : ∀ used value trace, item used value trace → Accounts (gaps value) trace.mistakes) :
    Accounts (values.flatMap gaps) trace.mistakes := by
  induction inside with
  | empty => exact .nil
  | last _ first => simpa using items _ _ _ first
  | more _ first _ _ _ ih => simpa using (items _ _ _ first).append ih

theorem separated_accounts (inside : Separated item used values trace)
    (items : ∀ used value trace, item used value trace → Accounts (gaps value) trace.mistakes) :
    Accounts (values.flatMap gaps) trace.mistakes := by
  induction inside with
  | last first => simpa using items _ _ _ first
  | more first _ _ _ ih => simpa using (items _ _ _ first).append ih

theorem enclosed_accounts {opening closing : Punctuation}
    (inside : Enclosed opening closing item used values trace)
    (items : ∀ used value trace, item used value trace → Accounts (gaps value) trace.mistakes) :
    Accounts (values.flatMap gaps) trace.mistakes := by
  cases inside with
  | intro _ inside _ => exact delimited_accounts inside items

end

/-! ### The reading -/

/-- The ill-formed nodes of every production account for the errors in it. -/
def accounting : GrammarReading where
  expression := fun _ value trace => Accounts (exprGaps value) trace.mistakes
  block := fun _ _ body trace => Accounts (blockGaps body) trace.mistakes
  ifRest := fun _ _ value trace => Accounts (statementGaps value) trace.mistakes

section
variable {used : List Token} {trace : Trace}

theorem function_accounts {params : List Symbol} {body : Block}
    (inside : FunctionReading accounting used (params, body) trace) :
    Accounts (blockGaps body) trace.mistakes := by
  generalize whole : (params, body) = value at inside
  cases inside with
  | @intro _ params _ _ _ _ _ _ names _ inside _ =>
    cases whole
    have quiet (used : List Token) (param : Symbol × Position) (trace : Trace)
        (name : NameReading used param trace) : Accounts [] trace.mistakes := by
      cases name
      exact .nil
    have heads := enclosed_accounts names quiet
    rw [List.flatMap_eq_nil_iff.mpr fun _ _ => rfl] at heads
    have block : Accounts (blockGaps body) _ := inside
    have duplicates := Trace.mistakes_eq_zero_iff.mpr (duplicateReports_clean [] params)
    have declarations := Trace.mistakes_eq_zero_iff.mpr (paramDeclarations_clean params)
    simpa [duplicates, declarations] using heads.append block

theorem entry_accounts {entry : Symbol × Expr} (inside : EntryReading accounting used entry trace) :
    Accounts (exprGaps entry.2) trace.mistakes := by
  cases inside with
  | short => exact .nil
  | pair _ _ _ inside => exact inside

theorem primary_accounts {value : Expr} (inside : PrimaryReading accounting used value trace) :
    Accounts (exprGaps value) trace.mistakes := by
  cases inside with
  | identifier | thisRef | superRef | field | literal => exact .nil
  | array inside =>
    rw [exprGaps, exprsGaps_eq]
    exact enclosed_accounts inside fun _ _ _ => id
  | dict inside =>
    rw [exprGaps, entriesGaps_eq]
    exact enclosed_accounts inside fun _ _ _ => entry_accounts
  | function inside => exact function_accounts inside
  | group _ inside => exact inside
  | new _ _ inside =>
    rw [exprGaps, exprsGaps_eq]
    simpa using enclosed_accounts inside fun _ _ _ => id

theorem postfix_accounts {value : Expr} (inside : PostfixReading accounting used value trace) :
    Accounts (exprGaps value) trace.mistakes := by
  induction inside with
  | primary inside => exact primary_accounts inside
  | call _ inside ih =>
    rw [exprGaps, exprsGaps_eq, Trace.mistakes_append]
    exact ih.append (enclosed_accounts inside fun _ _ _ => id)
  | index _ _ _ inside _ _ ih =>
    rw [exprGaps, Trace.mistakes_append]
    exact ih.append inside
  | member _ _ _ ih => exact ih

theorem unary_accounts {value : Expr} (inside : UnaryReading accounting used value trace) :
    Accounts (exprGaps value) trace.mistakes := by
  induction inside with
  | operand inside => exact postfix_accounts inside
  | unary _ _ _ ih => exact ih

theorem tier_accounts {isOfTier : Operator → Bool} {operand : Reading Expr} {value : Expr}
    (operands : ∀ {used value trace}, operand used value trace →
      Accounts (exprGaps value) trace.mistakes)
    (inside : TierReading isOfTier operand used value trace) :
    Accounts (exprGaps value) trace.mistakes := by
  induction inside with
  | operand inside => exact operands inside
  | binary _ _ _ _ inside ih =>
    rw [exprGaps, Trace.mistakes_append]
    exact ih.append (operands inside)

theorem expression_accounts {value : Expr} (inside : ExpressionReading accounting used value trace) :
    Accounts (exprGaps value) trace.mistakes :=
  tier_accounts (tier_accounts (tier_accounts (tier_accounts unary_accounts))) inside

/-! ### Statements -/

theorem let_accounts {pos : Position} {value : Statement}
    (inside : LetReading accounting pos used value trace) :
    Accounts (statementGaps value) trace.mistakes := by
  cases inside with
  | function _ inside => simpa using function_accounts inside
  | value _ _ inside => simpa using expression_accounts inside

theorem branch_accounts {condition : Expr} {body : Block}
    (inside : BranchReading accounting used (condition, body) trace) :
    Accounts (exprGaps condition ++ blockGaps body) trace.mistakes := by
  cases inside with
  | intro head inside => simpa using (expression_accounts head).append inside

theorem if_accounts {pos : Position} {value : Statement}
    (inside : IfReading accounting pos used value trace) :
    Accounts (statementGaps value) trace.mistakes := by
  cases inside with
  | plain branch => simpa using branch_accounts branch
  | otherwise branch _ inside => simpa using (branch_accounts branch).append inside
  | chain branch _ _ inside => simpa using (branch_accounts branch).append inside

theorem while_accounts {pos : Position} {value : Statement}
    (inside : WhileReading accounting pos used value trace) :
    Accounts (statementGaps value) trace.mistakes := by
  cases inside with
  | intro head inside => simpa using (expression_accounts head).append inside

theorem step_accounts {value : Option Expr} (inside : StepReading accounting used value trace) :
    Accounts (stepGaps value) trace.mistakes := by
  cases inside with
  | none => exact .nil
  | some _ inside => exact expression_accounts inside

theorem for_accounts {pos : Position} {value : Statement}
    (inside : ForReading accounting pos used value trace) :
    Accounts (statementGaps value) trace.mistakes := by
  cases inside with
  | intro _ _ head _ limit stride inside _ =>
    simpa using (expression_accounts head).append
      ((expression_accounts limit).append ((step_accounts stride).append inside))

theorem return_accounts {pos : Position} {value : Statement}
    (inside : ReturnReading accounting pos used value trace) :
    Accounts (statementGaps value) trace.mistakes := by
  cases inside with
  | bare => exact .nil
  | values inside =>
    rw [statementGaps, exprsGaps_eq]
    exact separated_accounts inside fun _ _ _ => expression_accounts

theorem parents_account {names : List Symbol} (inside : ParentsReading used names trace) :
    Accounts [] trace.mistakes := by
  have quiet (used : List Token) (name : Symbol) (trace : Trace)
      (parent : ParentReading used name trace) : Accounts [] trace.mistakes := by
    cases parent
    exact .nil
  cases inside with
  | none => exact .nil
  | some _ inside =>
    have heads := separated_accounts inside quiet
    rwa [List.flatMap_eq_nil_iff.mpr fun _ _ => rfl] at heads

theorem class_accounts {pos : Position} {value : Statement}
    (inside : ClassReading accounting pos used value trace) :
    Accounts (statementGaps value) trace.mistakes := by
  cases inside with
  | intro _ heads inside _ => simpa using (parents_account heads).append inside

theorem assign_accounts {value : Statement} (inside : AssignReading accounting used value trace) :
    Accounts (statementGaps value) trace.mistakes := by
  cases inside with
  | expr inside => exact expression_accounts inside
  | @assign _ token _ target _ _ _ _ _ left _ _ right =>
    have sides := (expression_accounts left).append (expression_accounts right)
    cases target.isLvalue with
    | true => simpa using sides
    | false => simpa [Error.isSyntax] using sides

theorem statement_accounts {value : Statement}
    (inside : StatementReading accounting used value trace) :
    Accounts (statementGaps value) trace.mistakes := by
  cases inside with
  | letDecl _ inside => exact let_accounts inside
  | ifElse _ inside => exact if_accounts inside
  | whileLoop _ inside => exact while_accounts inside
  | forLoop _ inside => exact for_accounts inside
  | returnValues _ inside => exact return_accounts inside
  | breakLoop | continueLoop => exact .nil
  | classDecl _ inside => exact class_accounts inside
  | functionDecl _ inside => simpa using function_accounts inside
  | assign inside => exact assign_accounts inside

theorem member_accounts {value : Statement} (inside : MemberReading accounting used value trace) :
    Accounts (statementGaps value) trace.mistakes := by
  cases inside with
  | method _ inside => exact function_accounts inside
  | field _ _ inside => exact expression_accounts inside

theorem line_accounts {inClassBody : Bool} {value : Statement}
    (inside : LineReading accounting inClassBody used value trace) :
    Accounts (statementGaps value) trace.mistakes := by
  cases inClassBody with
  | true => exact member_accounts inside
  | false => exact statement_accounts inside

/-! ### Blocks and programs -/

/-- An error that ends a line costs all that the line has been read as, and leaves one node. -/
theorem skipped_accounts (trace : Trace) {values : Block} {error : Error} {traces : Trace}
    (wrong : error.isSyntax = true) (others : Accounts (blockGaps values) traces.mistakes) :
    Accounts (blockGaps (.illFormed :: values)) (trace ++ .report error :: traces).mistakes := by
  have here : Accounts [.statement] (trace.mistakes + 1) := .lost (Nat.succ_pos _)
  simpa [wrong, Nat.add_assoc] using here.append others

theorem body_accounts {inClassBody : Bool} {body : Block}
    (inside : BlockReading accounting inClassBody used body trace) :
    Accounts (blockGaps body) trace.mistakes := by
  induction inside with
  | empty => exact .nil
  | last _ first => simpa using line_accounts first
  | line _ first _ _ ih => simpa using (line_accounts first).append ih
  | skipped _ wrong _ ih => exact skipped_accounts _ wrong ih

theorem accounting_closed : accounting.Closed :=
  ⟨expression_accounts, body_accounts, if_accounts⟩

theorem program_accounts {body : Block} (inside : ProgramReading accounting used body trace) :
    Accounts (blockGaps body) trace.mistakes := by
  induction inside with
  | last inside => exact body_accounts inside
  | stray inside wrong _ ih =>
    rw [blockGaps_append, Trace.mistakes_append]
    exact (body_accounts inside).append (skipped_accounts [] wrong ih)

end

/-- Whatever the tokens are, parsing leaves an ill-formed statement somewhere in the tree just if it
reports an error of syntax, and no more ill-formed statements than such errors. Expressions are
never ill-formed. -/
theorem parse_marks_errors (tokens : List Token) (scopes : Scopes) :
    ∃ parsed, parse tokens scopes = .ok parsed ∧
      (.statement ∈ blockGaps parsed.statements ↔ ∃ error ∈ parsed.errors, error.isSyntax = true) ∧
      (blockGaps parsed.statements).count .statement ≤ parsed.errors.countP Error.isSyntax ∧
      .expression ∉ blockGaps parsed.statements := by
  obtain ⟨body, trace, _, inside, answers⟩ := parse_eq accounting_closed tokens
  have accounts := program_accounts inside
  refine ⟨_, answers scopes, ?_, ?_, ?_⟩
  · rw [accounts.statement_mem_iff, ← Trace.countP_errors trace (Nest.ofGlobals scopes),
      List.countP_pos_iff]
  · rw [Trace.countP_errors]
    exact Nat.le_trans List.count_le_length accounts.bounded
  · intro member
    cases accounts.statements _ member

/-- What is marked inside of an `if` goes with it where its `end` is missing. -/
example : (parse (inLine [.keyword .ifWord, .identifier ⟨1⟩, .eol, .punctuation .closeParens, .eol])
    ⟨[], [], 0⟩).toOption.map (fun parsed =>
      (blockGaps parsed.statements, parsed.errors.countP Error.isSyntax)) = some ([.statement], 2) := by
  decide +kernel

end Arcade.Proofs
