import Arcade.Proofs.FunctionHeads
import Arcade.Proofs.ProgramReadings

/-! The productions of the language on tokens that more tokens follow. An operand goes on with a call,
an index or a member that stands behind it, and names in parentheses become the head of a function
where an arrow does; nothing else that follows an operand changes how it is parsed. -/

namespace Arcade.Proofs
open Arcade.Parse Arcade.Parse.Parser

variable {α β : Type} {more tokens : List Token} {spare : List Token → Prop}

/-! ### Functions -/

/-- What a production contains does the same when more tokens follow. -/
structure LocalGrammars (more : List Token) (grammar other : Grammar) : Prop where
  expression : Local more grammar.expression other.expression
  block : Local more grammar.block other.block
  ifRest : ∀ pos, Local more (grammar.ifRest pos) (other.ifRest pos)

theorem Local.inScope {kind : ScopeKind} {parser other : Parser α} (body : Local more parser other) :
    Local more (inScope kind parser) (inScope kind other) := fun tokens => (body tokens).inScope

section
variable {grammar other : Grammar} (kept : LocalGrammars more grammar other)
include kept

theorem function_closes : Closes more (function grammar) (function other) := by
  refine Closes.identifier.isSealed.isLocal.enclosed.bind fun params => ?_
  refine Sealed.bind (.action fun _ _ => reportDuplicates_runs [] params) fun _ => ?_
  refine (Closes.expect _).isSealed.bind fun _ => Closes.isSealed ?_
  have body : Local more (declareParams params >>= fun _ => grammar.block)
      (declareParams params >>= fun _ => other.block) :=
    (Sealed.action fun _ _ => declareParams_runs params).isLocal.bind fun _ => kept.block
  exact body.inScope.closes fun body => Closes.expectEnd.bind fun _ => .pure _

/-! ### Expressions -/

theorem dictEntry_local : Local more (dictEntry grammar) (dictEntry other) := by
  refine (Local.stepIf _).bind fun short => ?_
  cases short with
  | true =>
    refine Closes.identifier.isSealed.isLocal.bind fun key => ?_
    refine (Sealed.action fun _ _ => .useName ..).isLocal.bind fun _ => ?_
    exact (Sealed.pure _).isLocal
  | false =>
    refine Closes.identifier.isSealed.isLocal.bind fun key => ?_
    refine (Closes.expect _).isSealed.isLocal.bind fun _ => ?_
    refine Local.skipEols.bind fun _ => ?_
    exact kept.expression.bind fun value => (Sealed.pure _).isLocal

/-- The tokens are the head of a function, and its arrow follows. -/
def BecomesHead (more tokens : List Token) : Prop :=
  IsHead tokens ∧ more.head?.any (·.kind = .punctuation .arrow) = true

theorem group_spent {token : Token} {rest : List Token} (cut : Cut more (token :: rest)) (nest : Nest)
    (errors : List Error) :
    Spent (fun left => left = [] ∧ BecomesHead more (token :: rest))
      ((step >>= fun _ => grammar.expression >>= fun inner => do
        let _ ← expect (.punctuation .closeParens); return inner)
        ⟨token :: rest, nest.flatten, errors⟩) := by
  have free : EndFree rest := cut.free.suffix (List.suffix_cons token rest)
  obtain ⟨others, arrow, behind, head, points, rfl⟩ := cut.shape
  have inside := (kept.expression rest nest errors).within.mono (fun _ => id)
    fun _ within => free.suffix within.suffix
  refine inside.bind ?_
  rintro inner ⟨left, scopes, errors⟩ ⟨suffix, _⟩
  have closing := (expect_lands (.punctuation .closeParens) left scopes errors).mono
    (fun _ => id) fun _ same => same ▸ free.suffix suffix
  refine closing.bind ?_
  rintro _ ⟨left, scopes, errors⟩ ⟨close, closes, rfl⟩
  obtain ⟨before, rfl⟩ := suffix
  rw [List.cons_append, List.append_assoc, List.cons_append] at head
  obtain ⟨rfl, rfl⟩ := List.append_eq_nil_iff.mp (head.closed closes)
  exact ⟨rfl, by simpa using head, by simp [points]⟩

theorem primary_keeps (tokens : List Token) : KeepsOn more (primary grammar) (primary other)
    (fun rest => rest = [] ∧ BecomesHead more tokens) tokens := by
  cases tokens with
  | nil =>
    have stuck (inClassBody : Bool) : Runs (primary grammar) inClassBody []
        (.failed .unexpectedEnd .keep) [] [] := .quiet List.suffix_rfl fun _ _ => rfl
    exact .of_run stuck endFree_nil
  | cons token rest =>
    refine .peek_cons ?_
    dsimp only
    split
    next name _ =>
      refine .step_cons (Sealed.bind ?_ fun _ => .pure _).anywhere
      exact .action fun _ _ => .useName ..
    next =>
      refine .step_cons (Sealed.bind ?_ fun _ => .pure _).anywhere
      exact .action fun _ _ => .useThis _
    next =>
      refine .step_cons (Sealed.bind ?_ fun _ => .pure _).anywhere
      exact .action fun _ _ => .useSuper _
    next =>
      refine .step_cons (Closes.identifier.isSealed.bind fun name => ?_).anywhere
      exact Sealed.bind (.action fun _ _ => .useThis _) fun _ => .pure _
    next => exact .step_cons (Sealed.pure _).anywhere
    next => exact (kept.expression.enclosed.bind fun items => .pure _).isSealed.anywhere
    next => exact ((dictEntry_local kept).enclosed.bind fun entries => .pure _).isSealed.anywhere
    next =>
      refine .functionFollows (Nat.zero_le _) (fun found => ?_) fun cut => group_spent kept cut
      cases found with
      | true => exact ((function_closes kept).bind fun function => .pure _).isSealed.anywhere
      | false =>
        refine .step_cons (Closes.isSealed ?_).anywhere
        exact kept.expression.closes fun inner => (Closes.expect _).bind fun _ => .pure inner
    next =>
      refine .step_cons (Closes.identifier.bind fun name => ?_).isSealed.anywhere
      refine Sealed.bind (.action fun _ _ => .useClass ..) fun _ => ?_
      exact (kept.expression.enclosed.bind fun args => .pure _).isSealed
    next => exact (Sealed.fail _ _).anywhere

/-- A call, an index or a member follows. -/
def ChainsOn (more : List Token) : Prop := more.head?.any (continuesChain ·.kind) = true

omit kept in
theorem postfixTurn_stops (grammar : Grammar) (object : Expr) {inClassBody : Bool}
    (ends : ¬ ChainsOn tokens) :
    Runs (postfixTurn grammar object) inClassBody tokens (.done (.stop object)) tokens [] := by
  refine Runs.bind .peek ?_
  cases tokens with
  | nil => exact .pure _
  | cons token rest =>
    dsimp only [List.head?_cons]
    split
    all_goals first | exact .pure _ | exact absurd (by simp [ChainsOn, continuesChain, *]) ends

theorem postfixTurn_keeps (object : Expr) (tokens : List Token) :
    KeepsOn more (postfixTurn grammar object) (postfixTurn other object)
      (fun rest => rest = [] ∧ ChainsOn more) tokens := by
  cases tokens with
  | nil =>
    by_cases chains : ChainsOn more
    · exact .of_run (fun _ => postfixTurn_stops grammar object nofun) ⟨rfl, chains⟩
    · exact .of_runs (fun _ => postfixTurn_stops grammar object nofun)
        fun _ => postfixTurn_stops other object chains
  | cons token rest =>
    refine .peek_cons ?_
    dsimp only
    split
    next => exact (kept.expression.enclosed.bind fun args => .pure _).isSealed.anywhere
    next =>
      refine .step_cons (Closes.isSealed ?_).anywhere
      refine Local.skipEols.closes fun _ => ?_
      refine kept.expression.closes fun key => ?_
      refine Local.skipEols.closes fun _ => ?_
      exact (Closes.expect _).bind fun _ => .pure _
    next =>
      refine .step_cons (Closes.isSealed ?_).anywhere
      exact Closes.identifier.bind fun name => .pure _
    next => exact (Sealed.pure _).anywhere

theorem postfixed_keeps (tokens : List Token) :
    KeepsOn more (postfixed grammar) (postfixed other)
      (fun rest => rest = [] ∧ (BecomesHead more tokens ∨ ChainsOn more)) tokens := by
  refine .bind (final_nil _) ((primary_keeps kept tokens).mono fun _ => And.imp_right .inl) ?_
  intro object rest _
  refine .loop (final_nil _) (fun object rest _ => ?_) object
  exact (postfixTurn_keeps kept object rest).mono fun _ => And.imp_right .inr

omit kept in
theorem operatorIf_local (isOfSort : Operator → Bool) :
    Local more (operatorIf? isOfSort) (operatorIf? isOfSort) := by
  refine Local.peek.bind fun here => ?_
  split
  · split
    · exact Local.step.bind fun _ => (Sealed.pure _).isLocal
    · exact (Sealed.pure _).isLocal
  · exact (Sealed.pure _).isLocal

theorem unary_local : Local more (unary grammar) (unary other) := by
  have signs : Local more unaryOperators unaryOperators := by
    refine .loop (fun operators => ?_) []
    refine (operatorIf_local _).bind fun found => ?_
    cases found <;> exact (Sealed.pure _).isLocal
  refine signs.bind fun operators => ?_
  have operand : Local more (postfixed grammar) (postfixed other) := fun tokens =>
    (postfixed_keeps kept tokens).mono fun _ => And.left
  exact operand.bind fun operand => (Sealed.ofExcept _).isLocal

omit kept in
theorem binaryTier_local (isOfTier : Operator → Bool) {operand operand' : Parser Expr}
    (operands : Local more operand operand') :
    Local more (binaryTier isOfTier operand) (binaryTier isOfTier operand') := by
  refine operands.bind fun first => ?_
  refine .loop (fun left => ?_) first
  refine (operatorIf_local isOfTier).bind fun found => ?_
  cases found with
  | none => exact (Sealed.pure _).isLocal
  | some operator =>
    refine operands.bind fun right => ?_
    exact (Sealed.ofExcept _).isLocal.bind fun op => (Sealed.pure _).isLocal

theorem expression_local : Local more (expression grammar) (expression other) :=
  binaryTier_local _ <| binaryTier_local _ <| binaryTier_local _ <| binaryTier_local _ <|
    unary_local kept

/-! ### Statements -/

theorem letRest_local (pos : Position) : Local more (letRest grammar pos) (letRest other pos) := by
  refine Closes.identifier.isSealed.isLocal.bind fun name => ?_
  refine (Local.isAt _).bind fun called => ?_
  have declared (kind : DeclKind) : Local more (declare name.1 kind pos) (declare name.1 kind pos) :=
    (Sealed.action fun _ _ => .declare ..).isLocal
  cases called with
  | true =>
    refine (declared _).bind fun _ => ?_
    exact ((function_closes kept).bind fun function => .pure _).isSealed.isLocal
  | false =>
    refine (Closes.expect _).isSealed.isLocal.bind fun _ => ?_
    refine (expression_local kept).bind fun init => ?_
    exact (declared _).bind fun _ => (Sealed.pure _).isLocal

theorem body_local {kind : ScopeKind} {next next' : Block → Parser β}
    (tail : ∀ body, Local more (next body) (next' body)) :
    Local more (inScope kind grammar.block >>= next) (inScope kind other.block >>= next') :=
  kept.block.inScope.bind tail

omit kept in
theorem end_local {value : α} : Local more (do expectEnd; return value) (do expectEnd; return value) :=
  (Closes.expectEnd.bind fun _ => .pure _).isSealed.isLocal

theorem ifRest_local (pos : Position) : Local more (ifRest grammar pos) (ifRest other pos) := by
  refine (expression_local kept).bind fun condition => ?_
  refine body_local kept fun body => ?_
  refine (Local.stepIf _).bind fun otherwise => ?_
  cases otherwise with
  | false => exact end_local
  | true =>
    refine Local.peek.bind fun here => ?_
    split
    · refine Local.step.bind fun _ => ?_
      exact (kept.ifRest _).bind fun inner => (Sealed.pure _).isLocal
    · exact body_local kept fun otherwise => end_local

theorem whileRest_local (pos : Position) :
    Local more (whileRest grammar pos) (whileRest other pos) := by
  refine (expression_local kept).bind fun condition => ?_
  exact body_local kept fun body => end_local

theorem forRest_local (pos : Position) : Local more (forRest grammar pos) (forRest other pos) := by
  refine Closes.identifier.isSealed.isLocal.bind fun name => ?_
  refine (Closes.expect _).isSealed.isLocal.bind fun _ => ?_
  refine (expression_local kept).bind fun first => ?_
  refine (Closes.expect _).isSealed.isLocal.bind fun _ => ?_
  refine (expression_local kept).bind fun last => ?_
  have stepPart : Local more (stepPart grammar) (stepPart other) := by
    refine (Local.stepIf _).bind fun found => ?_
    cases found with
    | true => exact (expression_local kept).bind fun step => (Sealed.pure _).isLocal
    | false => exact (Sealed.pure _).isLocal
  refine stepPart.bind fun step => ?_
  have body : Local more (declare name.1 .varDecl name.2 >>= fun _ => grammar.block)
      (declare name.1 .varDecl name.2 >>= fun _ => other.block) :=
    (Sealed.action fun _ _ => .declare ..).isLocal.bind fun _ => kept.block
  exact body.inScope.bind fun body => end_local

theorem returnRest_local (pos : Position) :
    Local more (returnRest grammar pos) (returnRest other pos) := by
  have atEnd : Local more atStatementEnd atStatementEnd :=
    Local.peek.bind fun here => (Sealed.pure _).isLocal
  refine atEnd.bind fun ended => ?_
  cases ended with
  | true => exact (Sealed.pure _).isLocal
  | false => exact (expression_local kept).commaSeparated.bind fun values => (Sealed.pure _).isLocal

theorem classRest_local (pos : Position) :
    Local more (classRest grammar pos) (classRest other pos) := by
  refine Closes.identifier.isSealed.isLocal.bind fun name => ?_
  have parent : Local more parent parent := by
    refine Closes.identifier.isSealed.isLocal.bind fun name => ?_
    refine (Sealed.action fun _ _ => .useClass ..).isLocal.bind fun _ => ?_
    exact (Sealed.pure _).isLocal
  have parents : Local more parents parents := by
    refine (Local.stepIf _).bind fun found => ?_
    cases found with
    | true => exact parent.commaSeparated
    | false => exact (Sealed.pure _).isLocal
  refine parents.bind fun parents => ?_
  refine (Sealed.action fun _ _ => .declare ..).isLocal.bind fun _ => ?_
  exact body_local kept fun body => end_local

theorem assignmentOrExpression_local :
    Local more (assignmentOrExpression grammar) (assignmentOrExpression other) := by
  refine (expression_local kept).bind fun target => ?_
  refine (operatorIf_local _).bind fun found => ?_
  cases found with
  | none => exact (Sealed.pure _).isLocal
  | some operator =>
    have assigned : Local more (expression grammar >>= fun value => do
        return Statement.assign target (← ofExcept (BinaryOp.ofAssignment operator.1)) value operator.2)
        (expression other >>= fun value => do
          return Statement.assign target (← ofExcept (BinaryOp.ofAssignment operator.1)) value operator.2) :=
      (expression_local kept).bind fun value =>
        ((Sealed.ofExcept _).bind fun op => .pure _).isLocal
    dsimp only
    split
    · exact (Sealed.action fun _ _ => .report rfl).isLocal.bind fun _ => assigned
    · exact assigned

theorem classMember_local : Local more (classMember grammar) (classMember other) := by
  refine Closes.identifier.isSealed.isLocal.bind fun name => ?_
  refine (Local.isAt _).bind fun called => ?_
  cases called with
  | true => exact ((function_closes kept).bind fun function => .pure _).isSealed.isLocal
  | false =>
    refine (Closes.expect _).isSealed.isLocal.bind fun _ => ?_
    exact (expression_local kept).bind fun value => (Sealed.pure _).isLocal

theorem statement_keeps (tokens : List Token) :
    KeepsOn more (statement grammar) (statement other) EndFree tokens := by
  cases tokens with
  | nil =>
    have stuck (inClassBody : Bool) : Runs (statement grammar) inClassBody []
        (.failed .unexpectedEnd .keep) [] [] := .quiet List.suffix_rfl fun _ _ => rfl
    exact .of_run stuck endFree_nil
  | cons token rest =>
    refine .peek_cons ?_
    dsimp only
    split
    next => exact .step_cons (letRest_local kept _).endFree
    next => exact .step_cons (ifRest_local kept _).endFree
    next => exact .step_cons (whileRest_local kept _).endFree
    next => exact .step_cons (forRest_local kept _).endFree
    next => exact .step_cons (returnRest_local kept _).endFree
    next => exact .step_cons (Sealed.pure _).anywhere
    next => exact .step_cons (Sealed.pure _).anywhere
    next => exact .step_cons (classRest_local kept _).endFree
    next name same =>
      refine .functionFollows (Nat.succ_le_succ (Nat.zero_le _)) (fun found => ?_) fun cut => ?_
      · cases found with
        | true =>
          refine .step_cons (Sealed.bind (.action fun _ _ => .declare ..) fun _ => ?_).anywhere
          exact ((function_closes kept).bind fun function => .pure _).isSealed
        | false => exact (assignmentOrExpression_local kept).endFree
      · have solid : token.kind.isBlockTerminator = false := by
          rw [same]
          rfl
        have free : EndFree (token :: rest) := List.forall_mem_cons.mpr ⟨solid, cut.free⟩
        exact (assignmentOrExpression_local kept).endFree.ends final_endFree free
    next => exact (assignmentOrExpression_local kept).endFree

/-! ### Lines and blocks -/

theorem line_keeps (tokens : List Token) : KeepsOn more (line grammar) (line other) EndFree tokens := by
  have lineEnded : Local more lineEnd lineEnd := by
    refine Local.peek.bind fun here => ?_
    split
    · exact (Sealed.pure _).isLocal
    · split
      · exact Local.step
      · split
        · exact (Sealed.pure _).isLocal
        · exact (Sealed.fail _ _).isLocal
  have ended (statement : Statement) (tokens : List Token) :
      KeepsOn more (do lineEnd; return statement) (do lineEnd; return statement) EndFree tokens :=
    (lineEnded.bind fun _ => (Sealed.pure _).isLocal).endFree
  refine .bind final_endFree Sealed.scopes.anywhere fun scopes rest _ => ?_
  split
  · exact .bind final_endFree (classMember_local kept).endFree fun statement rest _ => ended statement rest
  · exact .bind final_endFree (statement_keeps kept rest) fun statement rest _ => ended statement rest

omit kept in
/-- A block goes on until a token that ends it, or until the end of the tokens. -/
theorem block_stops (grammar : Grammar) (state : State) :
    Lands (fun after => AtBlockEnd after.rest) (fun _ => True) (block grammar state) := by
  refine Lands.loop (fun statements state result after stopped => ?_) [] state
  obtain ⟨_, _, skipped, turn⟩ := bind_done stopped
  cases skipped
  obtain ⟨_, _, looked, turn⟩ := bind_done turn
  cases looked
  generalize state.rest.dropWhile (·.kind = .eol) = tokens at turn
  cases tokens with
  | nil =>
    cases turn
    nofun
  | cons token rest =>
    dsimp only [List.head?_cons] at turn
    split at turn
    next stops =>
      cases turn
      rintro _ _ ⟨⟩
      exact stops
    next =>
      obtain ⟨_, _, _, again⟩ := bind_done turn
      cases again

theorem block_local : Local more (block grammar) (block other) := by
  intro tokens
  have loose : KeepsOn more (block grammar) (block other) EndFree tokens := by
    refine .loop final_endFree (fun statements rest _ => ?_) []
    refine .bind final_endFree Local.skipEols.endFree fun _ rest _ => ?_
    refine .bind final_endFree Local.peek.endFree fun here rest _ => ?_
    split
    · exact (Sealed.pure _).anywhere
    · split
      · exact (Sealed.pure _).anywhere
      · exact .bind final_endFree (line_keeps kept rest).recovering fun _ _ _ => (Sealed.pure _).anywhere
  intro nest errors
  obtain ⟨within, same⟩ := loose nest errors
  refine ⟨within, same.imp_left fun ends => ?_⟩
  have stops := block_stops grammar ⟨tokens, nest.flatten, errors⟩
  generalize block grammar ⟨tokens, nest.flatten, errors⟩ = outcome at ends stops
  cases outcome with
  | done body state =>
    obtain ⟨rest, scopes, errors⟩ := state
    cases rest with
    | nil => rfl
    | cons token rest =>
      have goesOn := ends token List.mem_cons_self
      rw [stops token rest rfl] at goesOn
      cases goesOn
  | failed error recovery state => exact ends
  | fault fault => trivial

end

/-- Grammars of any depths do the same. -/
theorem ofLevels_local (levels levels' : Nat) :
    LocalGrammars more (Grammar.ofLevels levels) (Grammar.ofLevels levels') := by
  induction levels generalizing levels' with
  | zero =>
    have exhausted {α : Type} (other : Parser α) : Local more (ofExcept (.error .exhausted)) other :=
      fun _ _ _ => ⟨trivial, .inl trivial⟩
    exact ⟨exhausted _, exhausted _, fun _ => exhausted _⟩
  | succ levels ih =>
    cases levels' with
    | zero =>
      have inner := ih 0
      have exhausted {α : Type} {parser other : Parser α} (kept : Local more parser other) :
          Local more parser (ofExcept (.error .exhausted)) := fun tokens nest errors =>
        ⟨(kept tokens nest errors).within, .inr (.inr ⟨.exhausted, rfl⟩)⟩
      exact ⟨exhausted (expression_local inner), exhausted (block_local inner),
        fun pos => exhausted (ifRest_local inner pos)⟩
    | succ levels' =>
      have inner := ih levels'
      exact ⟨expression_local inner, block_local inner, ifRest_local inner⟩

end Arcade.Proofs
