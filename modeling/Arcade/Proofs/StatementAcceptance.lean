import Arcade.Proofs.OperatorAcceptance

/-! The canonical tokens of a statement are parsed to that statement, up to positions, if a line
end follows. A grammar that accepts what is smaller is enough for it. -/

namespace Arcade.Proofs
open Arcade.Parse Arcade.Parse.Parser

variable {inClassBody : Bool} {kinds left : List TokenKind} {limit : Nat} {grammar : Grammar}

/-- The parser takes canonical tokens of the statement for it, up to positions. -/
def Makes (parser : Parser Statement) (inClassBody : Bool) (kinds left : List TokenKind)
    (tree : Statement) : Prop :=
  Parses parser inClassBody kinds left fun value => bareStatement value = bareStatement tree

/-- No line or block ends where an expression starts. -/
theorem not_end_of_starts {kind : TokenKind} (begins : startsExpr kind = true) :
    (kind = .eol || kind.isBlockTerminator) = false := by
  unfold startsExpr at begins
  split at begins <;> first | rfl | cases begins

/-! ### Declarations -/

theorem letRest_accepts (below : AcceptsBelow limit grammar) {name : Symbol} {init : Expr}
    {pos place : Position} (proper : isProperExpr init = true)
    (within : (exprKinds init).length ≤ limit) (ends : endsExpr left = true) :
    Makes (letRest grammar place) inClassBody
      (.identifier name :: .operator .assign :: exprKinds init) left (.letDecl name init pos) := by
  apply Parses.identifier_bind
  intro _
  apply Parses.isAt_bind
  rw [if_neg (by simp)]
  apply Parses.expect_bind
  intro _
  apply Parses.bind_last (expression_accepts below proper within ends)
  intro value same
  apply Parses.action_bind (fun _ => .declare name .varDecl place) (by simp)
  exact .pure (by simp only [bareStatement, same])

theorem parents_accept (names : List Symbol) (ends : left.head? = some .eol) :
    Parses parents inClassBody (parentKinds names) left (· = names) := by
  cases names with
  | nil => exact .stepIf_no (by simp [parentKinds, ends]) (.pure rfl)
  | cons first rest =>
    have each : ListItems parent inClassBody (fun name => [.identifier name]) id id .eol
        (first :: rest) := by
      refine ⟨?_, fun _ _ => ⟨_, _, rfl, by simp, by simp⟩⟩
      intro name _ left _
      apply Parses.identifier_bind
      intro namePos
      exact .action_bind (fun _ => .useClass name namePos) (by simp) (.pure rfl)
    apply Parses.stepIf_yes
    refine (Parses.commaSeparated each (by simp) ends).mono ?_
    intro values same
    simpa using same

theorem classRest_accepts (below : AcceptsBelow limit grammar) {name : Symbol} {names : List Symbol}
    {body : Block} {pos place : Position} (proper : isProperBlock true body = true)
    (fewer : (bodyKinds body).length < limit) :
    Makes (classRest grammar place) inClassBody
      (.identifier name :: (parentKinds names ++ .eol :: (bodyKinds body ++ [.keyword .endWord]))) left
      (.classDecl name names body pos) := by
  apply Parses.identifier_bind
  intro _
  apply Parses.bind (parents_accept names rfl)
  rintro _ rfl
  apply Parses.action_bind (fun _ => .declare name .classDecl place) (by simp)
  refine .closed_block (below.block proper fewer rfl) ?_
  intro value same
  exact .pure (by simp only [bareStatement, same])

theorem classMember_accepts (below : AcceptsBelow limit grammar) {tree : Statement}
    (proper : isProperMember tree = true) (within : (statementKinds tree).length ≤ limit)
    (ends : endsExpr left = true) :
    Makes (classMember grammar) inClassBody (statementKinds tree) left tree := by
  cases tree with
  | fieldDecl name init pos =>
    simp only [statementKinds, isProperMember, List.length_cons] at proper within ⊢
    apply Parses.identifier_bind
    intro place
    apply Parses.isAt_bind
    rw [if_neg (by simp)]
    apply Parses.expect_bind
    intro _
    apply Parses.bind_last (expression_accepts below proper (by omega) ends)
    intro value same
    exact .pure (by simp only [bareStatement, same])
  | functionDecl name params body pos =>
    simp only [statementKinds, isProperMember, List.length_cons, List.length_append] at proper within ⊢
    apply Parses.identifier_bind
    intro place
    apply Parses.isAt_bind
    rw [if_pos (by simp [headKinds])]
    apply Parses.bind_last (function_accepts below proper (by omega))
    rintro ⟨params', body'⟩ ⟨rfl, same⟩
    exact .pure (by simp only [bareStatement, same])
  | _ => simp [isProperMember] at proper

/-! ### Conditions and loops -/

theorem ifRest_accepts (below : AcceptsBelow limit grammar) {condition : Expr} {body : Block}
    {otherwise : Option Block} {pos place : Position} (proper : isProperExpr condition = true)
    (within : (exprKinds condition).length ≤ limit) (properBody : isProperBlock false body = true)
    (fewer : (bodyKinds body).length < limit) (properElse : isProperElse otherwise = true)
    (fewerElse : (elseKinds otherwise).length ≤ limit) :
    Makes (ifRest grammar place) inClassBody
      (exprKinds condition ++ .eol :: (bodyKinds body ++ elseKinds otherwise)) left
      (.ifElse condition body otherwise pos) := by
  apply Parses.bind (expression_accepts below proper within rfl)
  intro condition' same
  rw [← List.cons_append]
  cases otherwise with
  | none =>
    refine .bind (.inScope (below.block properBody fewer rfl)) ?_
    intro body' same'
    apply Parses.stepIf_no (by simp [elseKinds])
    apply Parses.expectEnd_bind
    exact .pure (by simp only [bareStatement, bareElse, same, same'])
  | some others =>
    simp only [elseKinds, isProperElse, List.length_cons, List.length_append] at properElse fewerElse ⊢
    refine .bind (.inScope (below.block properBody fewer rfl)) ?_
    intro body' same'
    apply Parses.stepIf_yes
    apply Parses.peek_cons_bind
    rintro ⟨kind, span, at_, indent⟩ rfl
    refine .closed_block (below.block properElse (by omega) rfl) ?_
    intro others' same''
    exact .pure (by simp only [bareStatement, bareElse, same, same', same''])

theorem whileRest_accepts (below : AcceptsBelow limit grammar) {condition : Expr} {body : Block}
    {pos place : Position} (proper : isProperExpr condition = true)
    (within : (exprKinds condition).length ≤ limit) (properBody : isProperBlock false body = true)
    (fewer : (bodyKinds body).length < limit) :
    Makes (whileRest grammar place) inClassBody
      (exprKinds condition ++ .eol :: (bodyKinds body ++ [.keyword .endWord])) left
      (.whileLoop condition body pos) := by
  apply Parses.bind (expression_accepts below proper within rfl)
  intro condition' same
  refine .closed_block (below.block properBody fewer rfl) ?_
  intro body' same'
  exact .pure (by simp only [bareStatement, same, same'])

private theorem stepPart_accepts (below : AcceptsBelow limit grammar) {step : Option Expr}
    (proper : isProperStep step = true) (within : (stepKinds step).length ≤ limit)
    (ends : left.head? = some .eol) :
    Parses (stepPart grammar) inClassBody (stepKinds step) left
      fun value => bareStep value = bareStep step := by
  cases step with
  | none => exact .stepIf_no (by simp [stepKinds, ends]) (.pure rfl)
  | some tree =>
    simp only [stepKinds, isProperStep, List.length_cons] at proper within ⊢
    apply Parses.stepIf_yes
    apply Parses.bind_last (expression_accepts below proper (by omega) (endsExpr_of_head ends rfl))
    intro value same
    exact .pure (by simp only [bareStep, same])

private theorem stepKinds_ends (step : Option Expr) (rest : List TokenKind) :
    endsExpr (stepKinds step ++ .eol :: rest) = true := by
  cases step <;> rfl

theorem forRest_accepts (below : AcceptsBelow limit grammar) {name : Symbol} {first last : Expr}
    {step : Option Expr} {body : Block} {pos place : Position} (properFirst : isProperExpr first = true)
    (withinFirst : (exprKinds first).length ≤ limit) (properLast : isProperExpr last = true)
    (withinLast : (exprKinds last).length ≤ limit) (properStep : isProperStep step = true)
    (withinStep : (stepKinds step).length ≤ limit) (properBody : isProperBlock false body = true)
    (fewer : (bodyKinds body).length < limit) :
    Makes (forRest grammar place) inClassBody (.identifier name :: .operator .assign ::
      (exprKinds first ++ .keyword .toWord :: (exprKinds last ++ (stepKinds step ++ .eol ::
        (bodyKinds body ++ [.keyword .endWord]))))) left
      (.forLoop name first last step body pos) := by
  apply Parses.identifier_bind
  intro namePos
  apply Parses.expect_bind
  intro _
  apply Parses.bind (expression_accepts below properFirst withinFirst rfl)
  intro first' sameFirst
  apply Parses.expect_bind
  intro _
  have ends := stepKinds_ends step (bodyKinds body ++ [.keyword .endWord] ++ left)
  apply Parses.bind (expression_accepts below properLast withinLast (by simpa using ends))
  intro last' sameLast
  apply Parses.bind (stepPart_accepts below properStep withinStep rfl)
  intro step' sameStep
  refine .closed_block (.action_bind (fun _ => .declare name .varDecl namePos) (by simp)
    (below.block properBody fewer rfl)) ?_
  intro body' sameBody
  exact .pure (by simp only [bareStatement, sameFirst, sameLast, sameStep, sameBody])

/-! ### Statements without blocks -/

private theorem atStatementEnd_bind {next : Bool → Parser Statement} {after : Statement → Prop}
    (tail : Parses (next ((kinds ++ left).head?.all fun kind => kind = .eol || kind.isBlockTerminator))
      inClassBody kinds left after) :
    Parses (atStatementEnd >>= next) inClassBody kinds left after := by
  refine .look fun tokens rest same same' => ⟨_, Runs.bind .peek (.pure _), ?_⟩
  rw [← same, ← same', ← List.map_append, List.head?_map, Option.all_map] at tail
  rw [← same, ← same']
  exact tail

theorem returnRest_accepts (below : AcceptsBelow limit grammar) {values : List Expr}
    {pos place : Position} (proper : areProperExprs values = true)
    (within : (commas (exprsKinds values)).length ≤ limit) (ends : left.head? = some .eol) :
    Makes (returnRest grammar place) inClassBody (commas (exprsKinds values)) left
      (.returnValues values pos) := by
  apply atStatementEnd_bind
  cases values with
  | nil =>
    rw [if_pos (by simp [exprsKinds, commas, ends])]
    exact .pure rfl
  | cons first rest =>
    have properFirst := (areProperExprs_iff _).mp proper first List.mem_cons_self
    obtain ⟨kind, kinds, shape, begins⟩ := exprKinds_starts first properFirst
    have goesOn : ((commas (exprsKinds (first :: rest)) ++ left).head?.all
        fun kind => kind = .eol || kind.isBlockTerminator) = false := by
      have stops : (kind = .eol || kind.isBlockTerminator) = false := not_end_of_starts begins
      rw [exprsKinds, commas_cons, shape]
      exact stops
    rw [goesOn]
    have each : ListItems (expression grammar) inClassBody exprKinds bareExpr bareExpr .eol
        (first :: rest) := by
      refine exprs_are_items proper ?_ rfl rfl
      intro tree member left ends
      have inside := length_le_commas (List.mem_map_of_mem (f := exprKinds) member)
      rw [← exprsKinds_eq] at inside
      exact expression_accepts below ((areProperExprs_iff _).mp proper tree member) (by omega) ends
    rw [exprsKinds_eq]
    apply Parses.bind_last (Parses.commaSeparated each (by simp) ends)
    intro values' same
    exact .pure (by simp only [bareStatement, bareExprs_eq, same])

theorem BinaryOp.ofAssignment_sign {op : Option BinaryOp} (assignable : isAssignable op = true) :
    BinaryOp.ofAssignment (assignSign op) = .ok op := by
  cases op with
  | none => rfl
  | some op => cases op <;> first | rfl | cases assignable

private theorem isAssignment_sign (op : Option BinaryOp) : (assignSign op).isAssignment = true := by
  unfold assignSign
  split <;> rfl

private theorem endsExpr_of_sign (op : Option BinaryOp) (rest : List TokenKind) :
    endsExpr (.operator (assignSign op) :: rest) = true := by
  refine endsExpr_of_head rfl ?_
  unfold assignSign
  split <;> rfl

private theorem expression_statement (below : AcceptsBelow limit grammar) {tree : Expr}
    (proper : isProperExpr tree = true) (within : (exprKinds tree).length ≤ limit) :
    Makes (assignmentOrExpression grammar) inClassBody (exprKinds tree) (.eol :: left) (.expr tree) := by
  apply Parses.bind_last (expression_accepts below proper within rfl)
  intro value same
  apply Parses.operatorIf_no
  · intro sign here
    cases here
  · exact .pure (by simp only [bareStatement, same])

private theorem assignment_statement (below : AcceptsBelow limit grammar) {target value : Expr}
    {op : Option BinaryOp} {pos : Position} (proper : isProperExpr target = true)
    (within : (exprKinds target).length ≤ limit) (assignable : isAssignable op = true)
    (properValue : isProperExpr value = true) (withinValue : (exprKinds value).length ≤ limit) :
    Makes (assignmentOrExpression grammar) inClassBody
      (exprKinds target ++ .operator (assignSign op) :: exprKinds value) (.eol :: left)
      (.assign target op value pos) := by
  apply Parses.bind (expression_accepts below proper within (endsExpr_of_sign op _))
  intro target' same
  apply Parses.operatorIf_yes (isAssignment_sign op)
  intro place
  have assigned : Makes (do
      let value ← expression grammar
      return .assign target' (← ofExcept (BinaryOp.ofAssignment (assignSign op))) value place)
      inClassBody (exprKinds value) (.eol :: left) (.assign target op value pos) := by
    apply Parses.bind_last (expression_accepts below properValue withinValue rfl)
    intro value' same'
    rw [BinaryOp.ofAssignment_sign assignable]
    exact .pure (by simp only [bareStatement, same, same'])
  -- A target that cannot be assigned to is an error, but none of syntax.
  cases target'.isLvalue with
  | true => exact assigned
  | false =>
    apply Parses.action_bind (fun _ => .report rfl) (by simp [Error.isSyntax])
    exact assigned

/-! ### All statements -/

/-- What starts like an expression is parsed as one, unless a function follows a name. -/
private theorem statement_of_expression {kind : TokenKind} {tree : Statement}
    (begins : startsExpr kind = true)
    (plain : ∀ name, kind = .identifier name → looksLikeFunction (kinds ++ left) = false)
    (inside : Makes (assignmentOrExpression grammar) inClassBody (kind :: kinds) left tree) :
    Makes (statement grammar) inClassBody (kind :: kinds) left tree := by
  apply Parses.peek_cons_bind
  intro token same
  simp only [same]
  cases kind with
  | identifier name => exact .functionFollows_no (plain name rfl) inside
  | keyword word => cases word <;> first | exact inside | cases begins
  | _ => exact inside

theorem statement_accepts (below : AcceptsBelow limit grammar) {tree : Statement}
    (proper : isProperStatement tree = true) (within : (statementKinds tree).length ≤ limit) :
    Makes (statement grammar) inClassBody (statementKinds tree) (.eol :: left) tree := by
  cases tree with
  | fieldDecl | illFormed => simp [isProperStatement] at proper
  | expr value =>
    simp only [statementKinds, isProperStatement] at proper within ⊢
    have inside : Makes (assignmentOrExpression grammar) inClassBody (exprKinds value) (.eol :: left)
        (.expr value) := expression_statement below proper within
    obtain ⟨kind, kinds, shape, begins⟩ := exprKinds_starts value proper
    rw [shape] at inside ⊢
    refine statement_of_expression begins ?_ inside
    rintro name rfl
    exact not_function_after_name value shape (by simp) rfl
  | assign target op value pos =>
    simp only [statementKinds, isProperStatement, Bool.and_eq_true, List.length_append,
      List.length_cons] at proper within ⊢
    obtain ⟨⟨properTarget, assignable⟩, properValue⟩ := proper
    have inside : Makes (assignmentOrExpression grammar) inClassBody
        (exprKinds target ++ .operator (assignSign op) :: exprKinds value) (.eol :: left)
        (.assign target op value pos) :=
      assignment_statement below properTarget (by omega) assignable properValue (by omega)
    obtain ⟨kind, kinds, shape, begins⟩ := exprKinds_starts target properTarget
    rw [shape, List.cons_append] at inside ⊢
    refine statement_of_expression begins ?_ inside
    rintro name rfl
    rw [List.append_assoc]
    exact not_function_after_name target shape (by simp) rfl
  | letDecl name init pos =>
    simp only [statementKinds, isProperStatement, List.length_cons] at proper within ⊢
    apply Parses.peek_cons_bind
    intro token same
    simp only [same]
    apply Parses.step_bind
    exact letRest_accepts below proper (by omega) rfl
  | functionDecl name params body pos =>
    simp only [statementKinds, isProperStatement, List.length_cons, List.length_append]
      at proper within ⊢
    apply Parses.peek_cons_bind
    intro token same
    simp only [same]
    have shape (rest : List TokenKind) : (.identifier name :: (headKinds params ++ rest) ++
        .eol :: left).drop 1 = headKinds params ++ (rest ++ .eol :: left) :=
      List.append_assoc ..
    apply Parses.functionFollows_yes (shape _)
    apply Parses.step_bind
    apply Parses.action_bind (fun _ => .declare name .functionDecl token.pos) (by simp)
    apply Parses.bind_last (function_accepts below proper (by omega))
    rintro ⟨params', body'⟩ ⟨rfl, same'⟩
    exact .pure (by simp only [bareStatement, same'])
  | ifElse condition body otherwise pos =>
    simp only [statementKinds, isProperStatement, Bool.and_eq_true, List.length_append,
      List.length_cons] at proper within ⊢
    obtain ⟨⟨properCondition, properBody⟩, properElse⟩ := proper
    apply Parses.peek_cons_bind
    intro token same
    simp only [same]
    apply Parses.step_bind
    exact ifRest_accepts below properCondition (by omega) properBody (by omega) properElse (by omega)
  | whileLoop condition body pos =>
    simp only [statementKinds, isProperStatement, Bool.and_eq_true, List.length_append,
      List.length_cons] at proper within ⊢
    apply Parses.peek_cons_bind
    intro token same
    simp only [same]
    apply Parses.step_bind
    exact whileRest_accepts below proper.1 (by omega) proper.2 (by omega)
  | forLoop name first last step body pos =>
    simp only [statementKinds, isProperStatement, Bool.and_eq_true, List.length_append,
      List.length_cons] at proper within ⊢
    obtain ⟨⟨⟨properFirst, properLast⟩, properStep⟩, properBody⟩ := proper
    apply Parses.peek_cons_bind
    intro token same
    simp only [same]
    apply Parses.step_bind
    exact forRest_accepts below properFirst (by omega) properLast (by omega) properStep (by omega)
      properBody (by omega)
  | returnValues values pos =>
    simp only [statementKinds, isProperStatement, List.length_cons] at proper within ⊢
    apply Parses.peek_cons_bind
    intro token same
    simp only [same]
    apply Parses.step_bind
    exact returnRest_accepts below proper (by omega) rfl
  | breakLoop pos | continueLoop pos =>
    apply Parses.peek_cons_bind
    intro token same
    simp only [same]
    exact .step_bind (.pure rfl)
  | classDecl name parents body pos =>
    simp only [statementKinds, isProperStatement, List.length_append, List.length_cons]
      at proper within ⊢
    apply Parses.peek_cons_bind
    intro token same
    simp only [same]
    apply Parses.step_bind
    exact classRest_accepts below proper (by omega)

end Arcade.Proofs
