import Arcade.Parse.Grammar
import Arcade.Proofs.RepeatedLineEnds

/-! The productions of the language on tokens with line ends repeated. Only the end of a statement
reads a single line end, and what reads on from there skips all of them. -/

namespace Arcade.Proofs
open Arcade.Parse Arcade.Parse.Parser

/-- Both grammars do the same on tokens with line ends repeated. -/
structure AlikeGrammars (grammar other : Grammar) : Prop where
  expression : Alike grammar.expression other.expression
  block : Alike grammar.block other.block
  ifRest : ∀ pos, Alike (grammar.ifRest pos) (other.ifRest pos)

variable {grammar other : Grammar}

/-! ### Functions -/

theorem params_alike : Alike params params := Alike.enclosed .identifier

/-- The head of a function may stand behind the next token, if that is no line end. -/
theorem functionFollows_bind {β : Type} {token : Token} (solid : token.kind ≠ .eol) {skip : Nat}
    (near : skip ≤ 1) {next next' : Bool → Parser β}
    (tail : ∀ found, AlikeFrom token (next found) (next' found)) :
    AlikeFrom token (functionFollows skip >>= next) (functionFollows skip >>= next') := by
  intro first second repeats
  have head : Alike (do let _ ← params; isAt (.punctuation .arrow))
      (do let _ ← params; isAt (.punctuation .arrow)) :=
    params_alike.bind fun _ => .isAt _
  refine (AgreeOn.speculate (head _ _ ?_)).bind ?_
  · obtain ⟨rest, rfl, others⟩ := repeats.uncons solid
    cases skip with
    | zero => exact others.cons token
    | succ skip =>
      obtain rfl : skip = 0 := by omega
      exact others
  · rintro found _ _ ⟨rfl, rfl⟩
    exact tail found _ _ repeats

theorem reportDuplicates_alike (earlier : List Symbol) (params : List (Symbol × Position)) :
    Alike (reportDuplicates earlier params) (reportDuplicates earlier params) := by
  induction params generalizing earlier with
  | nil => exact .pure ()
  | cons param rest ih =>
    unfold reportDuplicates
    split
    · exact (Alike.report _).bind fun _ => ih _
    · exact ih _

theorem declareParams_alike (params : List (Symbol × Position)) :
    Alike (declareParams params) (declareParams params) := by
  induction params with
  | nil => exact .pure ()
  | cons param rest ih => exact (Alike.declare _ _ _).bind fun _ => ih

theorem Alike.inScope {α : Type} {kind : ScopeKind} {parser other : Parser α}
    (body : Alike parser other) : Alike (inScope kind parser) (inScope kind other) :=
  fun first second repeats => (body first second repeats).inScope

section
variable (alike : AlikeGrammars grammar other)
include alike

theorem function_alike : Alike (function grammar) (function other) := by
  refine params_alike.bind fun params => ?_
  refine (reportDuplicates_alike [] params).bind fun _ => ?_
  refine (Alike.expect _ (by nofun)).bind fun _ => ?_
  refine (Alike.inScope ((declareParams_alike params).bind fun _ => alike.block)).bind fun body => ?_
  exact Alike.expectEnd.bind fun _ => .pure _

/-! ### Expressions -/

theorem dictEntry_alike : Alike (dictEntry grammar) (dictEntry other) := by
  refine (Alike.stepIf _ (by nofun)).bind fun short => ?_
  cases short with
  | true =>
    refine Alike.identifier.bind fun key => ?_
    exact (Alike.requireDeclared _ _ _).bind fun _ => .pure _
  | false =>
    refine Alike.identifier.bind fun key => ?_
    refine (Alike.expect _ (by nofun)).bind fun _ => ?_
    refine Alike.skipEols.bind fun _ => ?_
    exact alike.expression.bind fun value => .pure _

theorem primary_alike : Alike (primary grammar) (primary other) := by
  refine .of_cons (Alike.fail _ _ [] [] .nil) fun token => ?_
  refine AlikeFrom.peek_bind ?_
  have solid {kind : TokenKind} (same : token.kind = kind) (other : kind ≠ .eol) :
      token.kind ≠ .eol := same ▸ other
  dsimp only
  split
  next name same =>
    refine .step_bind (solid same nofun) ?_
    exact (Alike.requireDeclared _ _ _).bind fun _ => .pure _
  next same =>
    refine .step_bind (solid same nofun) ?_
    exact (Alike.requireClass _).bind fun _ => .pure _
  next same =>
    refine .step_bind (solid same nofun) ?_
    exact (Alike.requireClass _).bind fun _ => .pure _
  next same =>
    refine .step_bind (solid same nofun) ?_
    refine Alike.identifier.bind fun name => ?_
    exact (Alike.requireClass _).bind fun _ => .pure _
  next value same => exact .step_bind (solid same nofun) (.pure _)
  next => exact (alike.expression.enclosed.bind fun items => .pure _).alikeFrom token
  next => exact ((dictEntry_alike alike).enclosed.bind fun entries => .pure _).alikeFrom token
  next same =>
    refine functionFollows_bind (solid same nofun) (Nat.zero_le 1) fun found => ?_
    cases found with
    | true => exact ((function_alike alike).bind fun function => .pure _).alikeFrom token
    | false =>
      refine .step_bind (solid same nofun) ?_
      refine alike.expression.bind fun inner => ?_
      exact (Alike.expect _ (by nofun)).bind fun _ => .pure _
  next same =>
    refine .step_bind (solid same nofun) ?_
    refine Alike.identifier.bind fun name => ?_
    refine (Alike.requireDeclared _ _ _).bind fun _ => ?_
    exact alike.expression.enclosed.bind fun args => .pure _
  next => exact (Alike.fail _ _).alikeFrom token

theorem postfixTurn_alike (object : Expr) :
    Alike (postfixTurn grammar object) (postfixTurn other object) := by
  refine .of_cons (fun _ _ => .done .nil) fun token => ?_
  refine AlikeFrom.peek_bind ?_
  dsimp only
  split
  next => exact (alike.expression.enclosed.bind fun args => .pure _).alikeFrom token
  next same =>
    refine .step_bind (by simp [same]) ?_
    refine Alike.skipEols.bind fun _ => ?_
    refine alike.expression.bind fun key => ?_
    refine Alike.skipEols.bind fun _ => ?_
    exact (Alike.expect _ (by nofun)).bind fun _ => .pure _
  next same =>
    refine .step_bind (by simp [same]) ?_
    exact Alike.identifier.bind fun name => .pure _
  next => exact (Alike.pure _).alikeFrom token

theorem postfixed_alike : Alike (postfixed grammar) (postfixed other) :=
  (primary_alike alike).bind fun object => .loop (postfixTurn_alike alike) object

omit alike in
theorem operatorIf_alike (isOfSort : Operator → Bool) :
    Alike (operatorIf? isOfSort) (operatorIf? isOfSort) := by
  refine .of_cons (fun _ _ => .done .nil) fun token => ?_
  refine AlikeFrom.peek_bind ?_
  split
  next op span pos indent same =>
    cases same
    split
    · exact .step_bind nofun (.pure _)
    · exact (Alike.pure _).alikeFrom _
  next => exact (Alike.pure _).alikeFrom token

omit alike in
theorem unaryOperators_alike : Alike unaryOperators unaryOperators := by
  refine .loop (fun operators => ?_) []
  refine (operatorIf_alike _).bind fun found => ?_
  cases found <;> exact .pure _

theorem unary_alike : Alike (unary grammar) (unary other) := by
  refine unaryOperators_alike.bind fun operators => ?_
  exact (postfixed_alike alike).bind fun operand => .ofExcept _

omit alike in
theorem binaryTier_alike (isOfTier : Operator → Bool) {operand operand' : Parser Expr}
    (operands : Alike operand operand') :
    Alike (binaryTier isOfTier operand) (binaryTier isOfTier operand') := by
  refine operands.bind fun first => ?_
  refine .loop (fun left => ?_) first
  refine (operatorIf_alike isOfTier).bind fun found => ?_
  cases found with
  | none => exact .pure _
  | some operator =>
    refine operands.bind fun right => ?_
    exact (Alike.ofExcept _).bind fun op => .pure _

theorem expression_alike : Alike (expression grammar) (expression other) :=
  binaryTier_alike _ (binaryTier_alike _ (binaryTier_alike _ (binaryTier_alike _ (unary_alike alike))))

/-! ### Statements -/

theorem letRest_alike (pos : Position) : Alike (letRest grammar pos) (letRest other pos) := by
  refine Alike.identifier.bind fun name => ?_
  refine (Alike.isAt _).bind fun called => ?_
  cases called with
  | true =>
    refine (Alike.declare _ _ _).bind fun _ => ?_
    exact (function_alike alike).bind fun function => .pure _
  | false =>
    refine (Alike.expect _ (by nofun)).bind fun _ => ?_
    refine (expression_alike alike).bind fun init => ?_
    exact (Alike.declare _ _ _).bind fun _ => .pure _

theorem ifRest_alike (pos : Position) : Alike (ifRest grammar pos) (ifRest other pos) := by
  refine (expression_alike alike).bind fun condition => ?_
  refine alike.block.inScope.bind fun body => ?_
  refine (Alike.stepIf _ (by nofun)).bind fun otherwise => ?_
  cases otherwise with
  | false => exact Alike.expectEnd.bind fun _ => .pure _
  | true =>
    have plain : Alike (inScope .elseBody grammar.block >>= fun otherwise => do
        expectEnd; return Statement.ifElse condition body (some otherwise) pos)
        (inScope .elseBody other.block >>= fun otherwise => do
          expectEnd; return Statement.ifElse condition body (some otherwise) pos) :=
      alike.block.inScope.bind fun otherwise => Alike.expectEnd.bind fun _ => .pure _
    refine .of_cons (plain [] [] .nil) fun token => ?_
    refine AlikeFrom.peek_bind ?_
    split
    next span innerPos indent same =>
      cases same
      refine .step_bind nofun ?_
      exact (alike.ifRest innerPos).bind fun inner => .pure _
    next => exact plain.alikeFrom token

theorem whileRest_alike (pos : Position) : Alike (whileRest grammar pos) (whileRest other pos) := by
  refine (expression_alike alike).bind fun condition => ?_
  refine alike.block.inScope.bind fun body => ?_
  exact Alike.expectEnd.bind fun _ => .pure _

theorem stepPart_alike : Alike (stepPart grammar) (stepPart other) := by
  refine (Alike.stepIf _ (by nofun)).bind fun found => ?_
  cases found with
  | true => exact (expression_alike alike).bind fun step => .pure _
  | false => exact .pure _

theorem forRest_alike (pos : Position) : Alike (forRest grammar pos) (forRest other pos) := by
  refine Alike.identifier.bind fun name => ?_
  refine (Alike.expect _ (by nofun)).bind fun _ => ?_
  refine (expression_alike alike).bind fun first => ?_
  refine (Alike.expect _ (by nofun)).bind fun _ => ?_
  refine (expression_alike alike).bind fun last => ?_
  refine (stepPart_alike alike).bind fun step => ?_
  refine (Alike.inScope ((Alike.declare _ _ _).bind fun _ => alike.block)).bind fun body => ?_
  exact Alike.expectEnd.bind fun _ => .pure _

theorem returnRest_alike (pos : Position) : Alike (returnRest grammar pos) (returnRest other pos) := by
  have atEnd : Alike atStatementEnd atStatementEnd := Alike.peek.bind fun here => .pure _
  refine atEnd.bind fun ended => ?_
  cases ended with
  | true => exact .pure _
  | false => exact (expression_alike alike).commaSeparated.bind fun values => .pure _

omit alike in
theorem parents_alike : Alike parents parents := by
  have parent : Alike parent parent :=
    Alike.identifier.bind fun name => (Alike.requireDeclared _ _ _).bind fun _ => .pure _
  refine (Alike.stepIf _ (by nofun)).bind fun found => ?_
  cases found with
  | true => exact parent.commaSeparated
  | false => exact .pure _

theorem classRest_alike (pos : Position) : Alike (classRest grammar pos) (classRest other pos) := by
  refine Alike.identifier.bind fun name => ?_
  refine parents_alike.bind fun parents => ?_
  refine (Alike.declare _ _ _).bind fun _ => ?_
  refine alike.block.inScope.bind fun body => ?_
  exact Alike.expectEnd.bind fun _ => .pure _

theorem assignmentOrExpression_alike :
    Alike (assignmentOrExpression grammar) (assignmentOrExpression other) := by
  refine (expression_alike alike).bind fun target => ?_
  refine (operatorIf_alike _).bind fun found => ?_
  cases found with
  | none => exact .pure _
  | some operator =>
    have assigned : Alike (expression grammar >>= fun value => do
        return Statement.assign target (← ofExcept (BinaryOp.ofAssignment operator.1)) value operator.2)
        (expression other >>= fun value => do
          return Statement.assign target (← ofExcept (BinaryOp.ofAssignment operator.1)) value operator.2) :=
      (expression_alike alike).bind fun value => (Alike.ofExcept _).bind fun op => .pure _
    dsimp only
    split
    · exact (Alike.report _).bind fun _ => assigned
    · exact assigned

theorem statement_alike : Alike (statement grammar) (statement other) := by
  refine .of_cons (Alike.fail _ _ [] [] .nil) fun token => ?_
  refine AlikeFrom.peek_bind ?_
  have solid {kind : TokenKind} (same : token.kind = kind) (other : kind ≠ .eol) :
      token.kind ≠ .eol := same ▸ other
  dsimp only
  split
  next same => exact .step_bind (solid same nofun) (letRest_alike alike _)
  next same => exact .step_bind (solid same nofun) (ifRest_alike alike _)
  next same => exact .step_bind (solid same nofun) (whileRest_alike alike _)
  next same => exact .step_bind (solid same nofun) (forRest_alike alike _)
  next same => exact .step_bind (solid same nofun) (returnRest_alike alike _)
  next same => exact .step_bind (solid same nofun) (.pure _)
  next same => exact .step_bind (solid same nofun) (.pure _)
  next same => exact .step_bind (solid same nofun) (classRest_alike alike _)
  next name same =>
    refine functionFollows_bind (solid same nofun) (Nat.le_refl 1) fun found => ?_
    cases found with
    | true =>
      refine .step_bind (solid same nofun) ?_
      refine (Alike.declare _ _ _).bind fun _ => ?_
      exact (function_alike alike).bind fun function => .pure _
    | false => exact (assignmentOrExpression_alike alike).alikeFrom token
  next => exact (assignmentOrExpression_alike alike).alikeFrom token

theorem classMember_alike : Alike (classMember grammar) (classMember other) := by
  refine Alike.identifier.bind fun name => ?_
  refine (Alike.isAt _).bind fun called => ?_
  cases called with
  | true => exact (function_alike alike).bind fun function => .pure _
  | false =>
    refine (Alike.expect _ (by nofun)).bind fun _ => ?_
    exact (expression_alike alike).bind fun value => .pure _

/-! ### Lines -/

omit alike in
/-- Of the line ends behind a statement one is read, and the rest is left for the next line. -/
theorem lineEnd_behind {first second : List Token} (repeats : Repeats first second) :
    AgreeOn lineEnd lineEnd (fun _ => RepeatsBehind) first second := by
  cases first with
  | nil =>
    obtain rfl := repeats.eq_nil
    exact fun scopes errors => .done repeats.behind
  | cons token first =>
    obtain ⟨rest, rfl⟩ := List.head?_eq_some_iff.mp repeats.head?_eq.symm
    intro scopes errors
    show Agree _ ((if _ then _ else _ : Parser Unit) _) ((if _ then _ else _ : Parser Unit) _)
    split
    next ends => exact .done (repeats.after_eol ends)
    next =>
      split
      · exact .done repeats.behind
      · exact .failed (repeats.synchronize _)

theorem line_behind {first second : List Token} (repeats : Repeats first second) :
    AgreeOn (line grammar) (line other) (fun _ => RepeatsBehind) first second := by
  have ended (statement : Statement) {first second : List Token} (repeats : Repeats first second) :
      AgreeOn (do lineEnd; return statement) (do lineEnd; return statement)
        (fun _ => RepeatsBehind) first second :=
    (lineEnd_behind repeats).bind fun _ _ _ behind _ _ => .done behind
  refine (Alike.scopes first second repeats).bind fun scopes first second repeats => ?_
  dsimp only
  split
  · exact (classMember_alike alike first second repeats).bind fun statement _ _ => ended statement
  · exact (statement_alike alike first second repeats).bind fun statement _ _ => ended statement

theorem block_behind {first second : List Token} (behind : RepeatsBehind first second) :
    AgreeOn (block grammar) (block other) (fun _ => Repeats) first second := by
  refine loop_agrees RepeatsBehind (fun statements first second behind => ?_) [] behind
  have skipped : AgreeOn skipEols skipEols (fun _ => Repeats) first second :=
    fun _ _ => .done behind
  refine skipped.bind fun _ first second repeats => ?_
  refine (Alike.peek first second repeats).bind fun here first second repeats => ?_
  cases here with
  | none => exact fun _ _ => .done repeats
  | some token =>
    dsimp only
    split
    · exact fun _ _ => .done repeats
    · exact (line_behind alike repeats).recovering.bind fun _ _ _ behind _ _ => .done behind

theorem block_alike : Alike (block grammar) (block other) :=
  fun _ _ repeats => block_behind alike repeats.behind

end

/-! ### Programs -/

theorem ofLevels_alike (levels levels' : Nat) :
    AlikeGrammars (Grammar.ofLevels levels) (Grammar.ofLevels levels') := by
  induction levels generalizing levels' with
  | zero =>
    have exhausted {α : Type} (other : Parser α) :
        Alike (ofExcept (.error .exhausted)) other := fun _ _ _ _ _ => .fault_left .exhausted _
    exact ⟨exhausted _, exhausted _, fun _ => exhausted _⟩
  | succ levels ih =>
    cases levels' with
    | zero =>
      have exhausted {α : Type} (parser : Parser α) :
          Alike parser (ofExcept (.error .exhausted)) := fun _ _ _ _ _ => .fault_right _ .exhausted
      exact ⟨exhausted _, exhausted _, fun _ => exhausted _⟩
    | succ levels' =>
      have inner := ih levels'
      exact ⟨expression_alike inner, block_alike inner, ifRest_alike inner⟩

theorem statements_alike (alike : AlikeGrammars grammar other) :
    Alike (statements grammar) (statements other) := by
  refine fun first second repeats => loop_agrees RepeatsBehind ?_ [] repeats.behind
  intro statements first second behind
  refine (block_behind alike behind).bind fun body first second repeats => ?_
  refine (Alike.peek first second repeats).bind fun here first second repeats => ?_
  cases here with
  | none => exact fun _ _ => .done repeats
  | some token =>
    have stray : AgreeOn (fail (.unexpected token (.words "statement")) .skipOne : Parser Statement)
        (fail (.unexpected token (.words "statement")) .skipOne) (fun _ => RepeatsBehind)
        first second := fun _ _ => .failed (repeats.synchronize _)
    exact stray.recovering.bind fun _ _ _ behind _ _ => .done behind

end Arcade.Proofs
