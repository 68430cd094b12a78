import Arcade.Proofs.ExpressionReadings

/-! The parsers of statements have the readings of their productions. What stands after the first
keyword of a statement is a production of its own, which therefore starts late. -/

namespace Arcade.Proofs
open Arcade.Parse Arcade.Parse.Parser

variable {late inClassBody : Bool} {tokens : List Token} {limit : Nat} {reading : GrammarReading}
  {grammar : Grammar}

theorem letRest_reads (below : ReadsBelow limit reading grammar) (within : tokens.length ≤ limit)
    (pos : Position) : Reads late (letRest grammar pos) inClassBody tokens
      fun used _ value trace => LetReading reading pos used value trace := by
  apply Reads.identifier_bind
  intro key rest name split same
  apply Reads.isAt_bind
  subst split
  rw [List.length_cons] at within
  split
  · refine .action_bind (.declare name .functionDecl pos) rfl ?_
    apply Reads.bind (function_reads below (by omega)).anywhere
    intro used rest (params, body) trace _ inside
    apply Reads.pure
    simpa using LetReading.function same inside
  · apply Reads.expect_bind
    intro sign rest split assigns
    subst split
    rw [List.length_cons] at within
    apply Reads.bind (expression_reads below (by omega)).anywhere
    intro used rest init trace _ inside
    refine .action_bind (.declare name .varDecl pos) rfl (.pure ?_)
    simpa using LetReading.value same assigns inside

theorem ifRest_reads (below : ReadsBelow limit reading grammar) (within : tokens.length ≤ limit)
    (pos : Position) : Reads true (ifRest grammar pos) inClassBody tokens
      fun used _ value trace => IfReading reading pos used value trace := by
  apply Reads.bind (expression_reads below within).anywhere
  intro used rest condition trace split head
  subst split
  have fewer := head.shorter within
  apply Reads.inScope_bind (below.block fewer)
  intro inner rest body traces split inside
  subst split
  have branch := BranchReading.intro head inside
  rw [List.length_append] at fewer
  refine .stepIf_bind (fun _ => ?_) (fun middle rest split divides => .peek_bind ?_)
  · apply Reads.expectEnd_bind
    intro stop rest _ closes
    apply Reads.pure
    simpa using IfReading.plain branch closes
  · subst split
    rw [List.length_cons] at fewer
    have otherwise : Reads true (do
          let otherwise ← inScope .elseBody grammar.block
          expectEnd
          return .ifElse condition body (some otherwise) pos) inClassBody rest
        fun used' _ value trace' => IfReading reading pos (used ++ (inner ++ middle :: used')) value
          (trace ++ .enter .ifBody :: (traces ++ .leave :: trace')) := by
      apply Reads.inScope_bind (below.block (by omega))
      intro other rest block traces _ inside
      apply Reads.expectEnd_bind
      intro stop rest _ closes
      apply Reads.pure
      simpa using IfReading.otherwise branch divides inside closes
    split
    next innerPos _ there =>
      obtain ⟨others, rfl⟩ := List.head?_eq_some_iff.mp there
      rw [List.length_cons] at fewer
      refine .step_bind (.bind (below.ifRest (by omega)) fun used rest inner trace _ inside => .pure ?_)
      simpa using IfReading.chain branch divides rfl inside
    next => exact otherwise

theorem whileRest_reads (below : ReadsBelow limit reading grammar) (within : tokens.length ≤ limit)
    (pos : Position) : Reads true (whileRest grammar pos) inClassBody tokens
      fun used _ value trace => WhileReading reading pos used value trace := by
  apply Reads.bind (expression_reads below within).anywhere
  intro used rest condition trace split head
  subst split
  apply Reads.inScope_bind (below.block (head.shorter within))
  intro inner rest body traces _ inside
  apply Reads.expectEnd_bind
  intro stop rest _ closes
  apply Reads.pure
  simpa using WhileReading.intro head inside closes

theorem stepPart_reads (below : ReadsBelow limit reading grammar) (within : tokens.length ≤ limit) :
    Reads true (stepPart grammar) inClassBody tokens
      fun used _ value trace => StepReading reading used value trace := by
  refine .stepIf_bind (fun _ => .pure .none) ?_
  intro word rest split same
  subst split
  rw [List.length_cons] at within
  apply Reads.bind (expression_reads below (by omega)).anywhere
  intro used rest value trace _ inside
  apply Reads.pure
  simpa using StepReading.some same inside

theorem forRest_reads (below : ReadsBelow limit reading grammar) (within : tokens.length ≤ limit)
    (pos : Position) : Reads true (forRest grammar pos) inClassBody tokens
      fun used _ value trace => ForReading reading pos used value trace := by
  apply Reads.identifier_bind
  intro key rest name split same
  apply Reads.expect_bind
  intro sign rest split' assigns
  subst split split'
  simp only [List.length_cons] at within
  apply Reads.bind (expression_reads below (by omega)).anywhere
  intro start rest first trace₁ split head
  apply Reads.expect_bind
  intro middle rest split' divides
  subst split split'
  rw [List.length_append, List.length_cons] at within
  apply Reads.bind (expression_reads below (by omega)).anywhere
  intro stop rest last trace₂ split bound
  subst split
  rw [List.length_append] at within
  apply Reads.bind (stepPart_reads below (by omega))
  intro step rest every trace₃ split stride
  subst split
  rw [List.length_append] at within
  have body : Reads true (declare name .varDecl key.pos >>= fun _ => grammar.block) false rest
      fun used _ body trace => ∃ inner, trace = .declare name .varDecl key.pos :: inner ∧
        reading.block false used body inner :=
    .action_bind (.declare name .varDecl key.pos) rfl ((below.block (by omega)).mono
      fun used _ body inner _ held => ⟨inner, rfl, held⟩)
  apply Reads.inScope_bind body
  rintro inner rest body _ _ ⟨trace₄, shape, inside⟩
  apply Reads.expectEnd_bind
  intro close rest _ closes
  apply Reads.pure
  simpa [shape] using ForReading.intro same assigns head divides bound stride inside closes

theorem returnRest_reads (below : ReadsBelow limit reading grammar) (within : tokens.length ≤ limit)
    (pos : Position) : Reads true (returnRest grammar pos) inClassBody tokens
      fun used _ value trace => ReturnReading reading pos used value trace := by
  have stops : Runs atStatementEnd inClassBody tokens (.done (tokens.head?.all fun token =>
      token.kind = .eol || token.kind.isBlockTerminator)) tokens [] := .bind .peek (.pure _)
  refine .after_quiet [] stops ?_
  split
  · exact .pure .bare
  · refine .bind (commaSeparated_reads (fun tokens within => expression_reads below within)
      within).anywhere ?_
    intro used rest values trace _ inside
    apply Reads.pure
    simpa using ReturnReading.values inside

theorem parent_reads : Reads false parent inClassBody tokens
    fun used _ name trace => ParentReading used name trace :=
  .named_bind (fun _ _ _ => .useClass ..) (fun _ _ => rfl) (fun _ _ => rfl)
    fun _ _ _ _ same => .pure (.intro same)

theorem parents_reads : Reads true parents inClassBody tokens
    fun used _ names trace => ParentsReading used names trace := by
  refine .stepIf_bind (fun _ => .pure .none) ?_
  intro word rest split same
  refine (commaSeparated_reads (fun _ _ => parent_reads) (Nat.le_refl _)).anywhere.mono ?_
  intro used rest names trace _ inside
  exact .some same inside

theorem classRest_reads (below : ReadsBelow limit reading grammar) (within : tokens.length ≤ limit)
    (pos : Position) : Reads true (classRest grammar pos) inClassBody tokens
      fun used _ value trace => ClassReading reading pos used value trace := by
  apply Reads.identifier_bind
  intro key rest name split same
  subst split
  rw [List.length_cons] at within
  apply Reads.bind parents_reads
  intro used rest parents trace split heads
  subst split
  rw [List.length_append] at within
  refine .action_bind (.declare name .classDecl pos) rfl ?_
  apply Reads.inScope_bind (below.block (by omega))
  intro inner rest body traces _ inside
  apply Reads.expectEnd_bind
  intro stop rest _ closes
  apply Reads.pure
  simpa using ClassReading.intro same heads inside closes

theorem assignmentOrExpression_reads (below : ReadsBelow limit reading grammar)
    (within : tokens.length ≤ limit) : Reads false (assignmentOrExpression grammar) inClassBody tokens
      fun used _ value trace => AssignReading reading used value trace := by
  apply Reads.bind (expression_reads below within)
  intro used rest target trace split left
  subst split
  have fewer := left.shorter within
  refine operatorIf_bind (.pure (by simpa using AssignReading.expr left)) ?_
  intro token rest sign split same member
  subst split
  rw [List.length_cons] at fewer
  obtain ⟨op, maps⟩ : ∃ op, BinaryOp.ofAssignment sign = .ok op := by
    cases sign <;> first | exact ⟨_, rfl⟩ | cases member
  have assigned : Reads true (do
        let value ← expression grammar
        return Statement.assign target (← ofExcept (BinaryOp.ofAssignment sign)) value token.pos)
      inClassBody rest fun more _ value traces => ∃ right,
        ExpressionReading reading more right traces ∧ value = .assign target op right token.pos := by
    rw [maps]
    refine .bind (expression_reads below (by omega)).anywhere fun more rest right traces _ inside =>
      .pure ⟨right, by simpa using inside, rfl⟩
  cases place : target.isLvalue with
  | true =>
    simp only [Bool.not_true, Bool.false_eq_true, ↓reduceIte]
    refine assigned.mono ?_
    rintro more _ value traces _ ⟨right, inside, shape⟩
    rw [shape]
    simpa [place] using AssignReading.assign left same maps inside
  | false =>
    simp only [Bool.not_false, ↓reduceIte]
    refine .action_bind (.report rfl) rfl (assigned.mono
      fun more _ value traces _ ⟨right, inside, shape⟩ => ?_)
    rw [shape]
    simpa [place] using AssignReading.assign left same maps inside

theorem statement_reads (below : ReadsBelow limit reading grammar) (within : tokens.length ≤ limit) :
    Reads false (statement grammar) inClassBody tokens
      fun used _ value trace => StatementReading reading used value trace := by
  have assignment : Reads false (assignmentOrExpression grammar) inClassBody tokens
      fun used _ value trace => StatementReading reading used value trace :=
    (assignmentOrExpression_reads below within).mono fun _ _ _ _ _ inside => .assign inside
  apply Reads.peek_bind
  cases tokens with
  | nil => exact .fail_at_end
  | cons token rest =>
    rw [List.length_cons] at within
    have fewer : rest.length ≤ limit := by omega
    cases kind : token.kind with
    | keyword word =>
      cases word with
      | letWord =>
        simp only [List.head?_cons, kind]
        exact .step_bind ((letRest_reads below fewer token.pos).mono
          fun _ _ _ _ _ inside => .letDecl kind inside)
      | ifWord =>
        simp only [List.head?_cons, kind]
        exact .step_bind ((ifRest_reads below fewer token.pos).mono
          fun _ _ _ _ _ inside => .ifElse kind inside)
      | whileWord =>
        simp only [List.head?_cons, kind]
        exact .step_bind ((whileRest_reads below fewer token.pos).mono
          fun _ _ _ _ _ inside => .whileLoop kind inside)
      | forWord =>
        simp only [List.head?_cons, kind]
        exact .step_bind ((forRest_reads below fewer token.pos).mono
          fun _ _ _ _ _ inside => .forLoop kind inside)
      | returnWord =>
        simp only [List.head?_cons, kind]
        exact .step_bind ((returnRest_reads below fewer token.pos).mono
          fun _ _ _ _ _ inside => .returnValues kind inside)
      | breakWord =>
        simp only [List.head?_cons, kind]
        exact .step_bind (.pure (.breakLoop kind))
      | continueWord =>
        simp only [List.head?_cons, kind]
        exact .step_bind (.pure (.continueLoop kind))
      | classWord =>
        simp only [List.head?_cons, kind]
        exact .step_bind ((classRest_reads below fewer token.pos).mono
          fun _ _ _ _ _ inside => .classDecl kind inside)
      | _ => simpa only [List.head?_cons, kind] using assignment
    | identifier name =>
      simp only [List.head?_cons, kind]
      obtain ⟨found, looks, _⟩ := functionFollows_runs inClassBody (token :: rest) 1
      refine .after_quiet [] looks ?_
      cases found with
      | true =>
        refine .step_bind (.action_bind (.declare name .functionDecl token.pos) rfl ?_)
        apply Reads.bind (function_reads below fewer).anywhere
        intro used rest (params, body) trace _ inside
        apply Reads.pure
        simpa using StatementReading.functionDecl kind inside
      | false => simpa using assignment
    | _ => simpa only [List.head?_cons, kind] using assignment

theorem classMember_reads (below : ReadsBelow limit reading grammar)
    (within : tokens.length ≤ limit) : Reads false (classMember grammar) inClassBody tokens
      fun used _ value trace => MemberReading reading used value trace := by
  apply Reads.identifier_bind
  intro key rest name split same
  apply Reads.isAt_bind
  subst split
  rw [List.length_cons] at within
  split
  · apply Reads.bind (function_reads below (by omega)).anywhere
    intro used rest (params, body) trace _ inside
    apply Reads.pure
    simpa using MemberReading.method same inside
  · apply Reads.expect_bind
    intro sign rest split assigns
    subst split
    rw [List.length_cons] at within
    apply Reads.bind (expression_reads below (by omega)).anywhere
    intro used rest init trace _ inside
    apply Reads.pure
    simpa using MemberReading.field same assigns inside

end Arcade.Proofs
