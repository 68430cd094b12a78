import Arcade.Proofs.ProductionReadings

/-! The parsers of functions and expressions have the readings of their productions, on all
tokens. Productions that contain others of their own sort take them from a smaller grammar, which
is enough for as many tokens as are left after the first one. -/

namespace Arcade.Proofs
open Arcade.Parse Arcade.Parse.Parser

variable {α : Type} {late inClassBody : Bool} {tokens : List Token} {limit : Nat}

/-- The productions of a grammar read what they should, from fewer tokens than the limit. -/
structure ReadsBelow (limit : Nat) (reading : GrammarReading) (grammar : Grammar) : Prop where
  expression {inClassBody : Bool} {tokens : List Token} (below : tokens.length < limit) :
    Reads false grammar.expression inClassBody tokens
      fun used _ value trace => reading.expression used value trace
  block {inClassBody : Bool} {tokens : List Token} (below : tokens.length < limit) :
    Reads true grammar.block inClassBody tokens
      fun used _ body trace => reading.block inClassBody used body trace
  ifRest {pos : Position} {inClassBody : Bool} {tokens : List Token} (below : tokens.length < limit) :
    Reads true (grammar.ifRest pos) inClassBody tokens
      fun used _ value trace => reading.ifRest pos used value trace

/-! ### Lists -/

section
variable {item : Parser α} {reading : Reading α}

theorem delimited_reads (closing : TokenKind)
    (items : ∀ tokens : List Token, tokens.length ≤ limit →
      Reads false item inClassBody tokens fun used _ value trace => reading used value trace)
    (within : tokens.length ≤ limit) :
    Reads false (delimited closing item) inClassBody tokens
      fun used _ values trace => Delimited reading used values trace := by
  refine (Reads.loop (fun values used _ result trace => ∃ more, result = values ++ more ∧
    Delimited reading used more trace) (fun values tokens within => ?_) [] within).mono
    fun used rest result trace _ held => ?_
  · apply Reads.skipEols_bind
    intro blank rest split blanks _
    apply Reads.isAt_bind
    subst split
    rw [List.length_append] at within
    split
    · exact .pure ⟨[], by simp, by simpa using Delimited.empty blanks⟩
    · apply Reads.bind (items rest (by omega)).anywhere
      intro used rest value trace split held
      apply Reads.skipEols_bind
      intro more rest split' blanks' _
      refine .stepIf_bind (fun _ => .pure ?_) (fun comma rest split'' same => .pure ?_)
      · exact ⟨[value], rfl, by simpa using Delimited.last blanks held blanks'⟩
      · refine ⟨by simp, fun used' rest' result trace' _ ⟨others, shape, tail⟩ => ?_⟩
        exact ⟨value :: others, by simp [shape], by
          simpa using Delimited.more blanks held blanks' same tail⟩
  · obtain ⟨values, shape, held⟩ := held
    rw [shape]
    exact held

theorem commaSeparated_reads
    (items : ∀ tokens : List Token, tokens.length ≤ limit →
      Reads false item inClassBody tokens fun used _ value trace => reading used value trace)
    (within : tokens.length ≤ limit) :
    Reads false (commaSeparated item) inClassBody tokens
      fun used _ values trace => Separated reading used values trace := by
  apply Reads.bind (items tokens within)
  intro used rest first trace split held
  subst split
  rw [List.length_append] at within
  refine (Reads.loop (fun values used' _ result trace' => ∃ more, result = values ++ more ∧
    ∀ used trace last, reading used last trace →
      Separated reading (used ++ used') (last :: more) (trace ++ trace'))
    (fun values tokens within => ?_) [first] (Nat.le_of_add_left_le within)).anywhere.mono
    fun used' rest' result trace' _ held' => ?_
  · refine .stepIf_bind (fun _ => .pure ?_) (fun comma rest split same => ?_)
    · exact ⟨[], by simp, fun used trace last held => by simpa using Separated.last held⟩
    · subst split
      rw [List.length_cons] at within
      apply Reads.skipEols_bind
      intro blank rest split blanks _
      subst split
      rw [List.length_append] at within
      apply Reads.bind (items rest (by omega)).anywhere
      intro used rest value trace _ held
      apply Reads.pure
      refine ⟨by simp, fun used' rest' result trace' _ ⟨others, shape, tail⟩ => ?_⟩
      refine ⟨value :: others, by simp [shape], fun used'' trace'' last held' => ?_⟩
      simpa using Separated.more held' same blanks (tail _ _ _ held)
  · obtain ⟨values, shape, tail⟩ := held'
    rw [shape]
    exact tail _ _ _ held

theorem enclosed_reads (opening closing : Punctuation)
    (items : ∀ tokens : List Token, tokens.length < limit →
      Reads false item inClassBody tokens fun used _ value trace => reading used value trace)
    (within : tokens.length ≤ limit) :
    Reads false (enclosed opening closing item) inClassBody tokens
      fun used _ values trace => Enclosed opening closing reading used values trace := by
  apply Reads.expect_bind
  intro start rest split opens
  subst split
  rw [List.length_cons] at within
  have list := delimited_reads (.punctuation closing)
    (fun tokens (fewer : tokens.length ≤ rest.length) => items tokens (by omega)) (Nat.le_refl _)
  apply Reads.bind list.anywhere
  intro used rest values trace _ held
  apply Reads.expect_bind
  intro stop rest _ closes
  apply Reads.pure
  simpa using Enclosed.intro opens held closes

end

/-! ### Functions -/

theorem identifier_reads : Reads late identifier inClassBody tokens
    fun used _ value trace => NameReading used value trace := by
  rw [← parser_bind_pure identifier]
  exact .identifier_bind fun token rest name _ same => .pure (.intro same)

theorem params_reads : Reads false params inClassBody tokens
    fun used _ params trace => Enclosed .openParens .closeParens NameReading used params trace :=
  enclosed_reads .openParens .closeParens (fun _ _ => identifier_reads) (Nat.le_refl _)

/-- The answer depends on the tokens alone, and a head is found only where one stands. -/
theorem functionFollows_runs (inClassBody : Bool) (tokens : List Token) (skip : Nat) :
    ∃ found, Runs (functionFollows skip) inClassBody tokens (.done found) tokens [] ∧
      (found = true → ∃ head arrow rest params quiet, tokens.drop skip = head ++ arrow :: rest ∧
        Enclosed .openParens .closeParens NameReading head params quiet ∧
        arrow.kind = .punctuation .arrow) := by
  have test : Reads false (params >>= fun _ => isAt (.punctuation .arrow)) inClassBody
      (tokens.drop skip) fun used rest found _ => found = true → ∃ arrow after params quiet,
        rest = arrow :: after ∧ Enclosed .openParens .closeParens NameReading used params quiet ∧
        arrow.kind = .punctuation .arrow := by
    apply Reads.bind params_reads
    intro used rest params trace _ held
    rw [← parser_bind_pure (isAt (.punctuation .arrow))]
    refine .isAt_bind (.pure fun yes => ?_)
    cases rest with
    | nil => cases yes
    | cons arrow after =>
      exact ⟨arrow, after, params, _, rfl, by simpa using held, by simpa using yes⟩
  cases test with
  | failed run => exact ⟨false, .speculate run, nofun⟩
  | @done used rest found trace split run named _ held =>
    refine ⟨found, .speculate run, fun yes => ?_⟩
    obtain ⟨arrow, after, params, quiet, same, head, points⟩ := held yes
    exact ⟨used, arrow, after, params, quiet, by rw [split, same], head, points⟩

theorem reportDuplicates_runs (earlier : List Symbol) (params : List (Symbol × Position)) :
    Runs (reportDuplicates earlier params) inClassBody tokens (.done ()) tokens
      (duplicateReports earlier params) := by
  induction params generalizing earlier with
  | nil => exact .pure ()
  | cons param rest ih =>
    obtain ⟨name, pos⟩ := param
    unfold reportDuplicates duplicateReports
    split
    · exact Runs.bind (.report rfl) (ih (name :: earlier))
    · exact ih (name :: earlier)

theorem declareParams_runs (params : List (Symbol × Position)) :
    Runs (declareParams params) inClassBody tokens (.done ()) tokens (paramDeclarations params) := by
  induction params with
  | nil => exact .pure ()
  | cons param rest ih => exact Runs.bind (.declare ..) ih

private theorem nameless_namesFrom {trace : Trace} (nameless : ∀ action ∈ trace, action.used? = none)
    (tokens : List Token) : trace.NamesFrom tokens := fun action member name used => by
  rw [nameless action member] at used
  cases used

private theorem duplicateReports_nameless (earlier : List Symbol)
    (params : List (Symbol × Position)) :
    ∀ action ∈ duplicateReports earlier params, action.used? = none := by
  induction params generalizing earlier with
  | nil => simp [duplicateReports]
  | cons param rest ih =>
    obtain ⟨name, pos⟩ := param
    intro action member
    rw [duplicateReports, List.mem_append] at member
    obtain here | later := member
    · split at here
      · rw [List.mem_singleton.mp here]
        rfl
      · cases here
    · exact ih _ action later

private theorem paramDeclarations_nameless (params : List (Symbol × Position)) :
    ∀ action ∈ paramDeclarations params, action.used? = none := by
  simp only [paramDeclarations, List.mem_map]
  rintro _ ⟨⟨name, pos⟩, _, rfl⟩
  rfl

section
variable {reading : GrammarReading} {grammar : Grammar}

theorem function_reads (below : ReadsBelow limit reading grammar) (within : tokens.length ≤ limit) :
    Reads false (function grammar) inClassBody tokens
      fun used _ value trace => FunctionReading reading used value trace := by
  apply Reads.bind params_reads
  intro head rest params quiet split names
  subst split
  rw [List.length_append] at within
  refine .after_run [] (reportDuplicates_runs [] params)
    (nameless_namesFrom (duplicateReports_nameless [] params) _) (.inr (.inl rfl)) ?_
  apply Reads.expect_bind
  intro arrow rest split points
  subst split
  rw [List.length_cons] at within
  have body : Reads true (declareParams params >>= fun _ => grammar.block) false rest
      fun used _ body trace => ∃ inner, trace = paramDeclarations params ++ inner ∧
        reading.block false used body inner := by
    refine .after_run [] (declareParams_runs params)
      (nameless_namesFrom (paramDeclarations_nameless params) _) (.inl rfl) ?_
    exact (below.block (by omega)).mono fun used _ body inner _ held => ⟨inner, rfl, held⟩
  apply Reads.inScope_bind body
  rintro used rest value trace split ⟨inner, shape, inside⟩
  apply Reads.expectEnd_bind
  intro stop rest split closes
  apply Reads.pure
  simpa [shape] using FunctionReading.intro names points inside closes

/-! ### Expressions -/

/-- What starts with a sign starts with the token at hand. -/
theorem Enclosed.starts {α : Type} {item : Reading α} {opening closing : Punctuation} {token : Token}
    {rest used left : List Token} {values : List α} {trace : Trace}
    (inside : Enclosed opening closing item used values trace) (split : token :: rest = used ++ left) :
    ∃ more, used = token :: more := by
  cases inside with
  | intro opens items closes =>
    cases split
    exact ⟨_, rfl⟩

theorem FunctionReading.starts {token : Token} {rest used left : List Token}
    {value : List Symbol × Block} {trace : Trace} (inside : FunctionReading reading used value trace)
    (split : token :: rest = used ++ left) : ∃ more, used = token :: more := by
  cases inside with
  | intro names points inside closes =>
    obtain ⟨more, rfl⟩ := names.starts (split.trans (List.append_assoc ..))
    exact ⟨_, rfl⟩

theorem dictEntry_reads (below : ReadsBelow limit reading grammar) (within : tokens.length ≤ limit) :
    Reads false (dictEntry grammar) inClassBody tokens
      fun used _ value trace => EntryReading reading used value trace := by
  refine .stepIf_bind (fun _ => ?_) (fun colon rest split sign => ?_)
  · apply Reads.identifier_bind
    intro key rest name split same
    apply Reads.expect_bind
    intro colon rest' split' sign
    apply Reads.skipEols_bind
    intro blank rest'' split'' blanks _
    subst split split' split''
    rw [List.length_cons, List.length_cons, List.length_append] at within
    apply Reads.bind (below.expression (by omega)).anywhere
    intro used rest value trace _ inside
    apply Reads.pure
    simpa using EntryReading.pair same sign blanks inside
  · refine .named_bind (fun _ _ _ => .useName ..) (fun _ _ => rfl) (fun _ _ => rfl) ?_
    intro key rest name _ same
    apply Reads.pure
    exact .short sign same

theorem primary_reads (below : ReadsBelow limit reading grammar) (within : tokens.length ≤ limit) :
    Reads false (primary grammar) inClassBody tokens
      fun used _ value trace => PrimaryReading reading used value trace := by
  apply Reads.peek_bind
  cases tokens with
  | nil => exact .fail_at_end
  | cons token rest =>
    rw [List.length_cons] at within
    have refused : Reads false (fail (.unexpected token (.words "expression")) .line : Parser Expr)
        inClassBody (token :: rest) fun used _ value trace => PrimaryReading reading used value trace :=
      .fail_line rfl
    cases kind : token.kind with
    | identifier name =>
      simp only [List.head?_cons, kind]
      refine .use_bind .step rfl (.useName name token.pos) kind rfl (.pure ?_)
      exact .identifier kind
    | keyword word =>
      cases word with
      | thisWord =>
        simp only [List.head?_cons, kind]
        refine .step_bind (.action_bind (.useThis token.pos) rfl (.pure ?_))
        exact .thisRef kind
      | superWord =>
        simp only [List.head?_cons, kind]
        refine .step_bind (.action_bind (.useSuper token.pos) rfl (.pure ?_))
        exact .superRef kind
      | newWord =>
        simp only [List.head?_cons, kind]
        refine .step_bind (.named_bind (fun _ _ _ => .useClass ..) (fun _ _ => rfl) (fun _ _ => rfl)
          fun key rest' name split named => ?_)
        subst split
        rw [List.length_cons] at within
        refine .bind (enclosed_reads .openParens .closeParens
          (fun tokens (fewer : tokens.length < limit) => below.expression fewer)
          (by omega)).anywhere ?_
        intro used rest args trace _ inside
        apply Reads.pure
        simpa using PrimaryReading.new kind named inside
      | _ => simpa only [List.head?_cons, kind] using refused
    | literal value =>
      simp only [List.head?_cons, kind]
      exact .step_bind (.pure (.literal kind))
    | punctuation sign =>
      cases sign with
      | atSign =>
        simp only [List.head?_cons, kind]
        refine .step_bind (.identifier_bind fun key rest name _ same => ?_)
        exact .action_bind (.useThis token.pos) rfl (.pure (.field kind same))
      | openBracket =>
        simp only [List.head?_cons, kind]
        refine .bind (enclosed_reads .openBracket .closeBracket
          (fun tokens (fewer : tokens.length < limit) => below.expression fewer)
          within) ?_
        intro used rest items trace split inside
        apply Reads.pure
        obtain ⟨more, rfl⟩ := inside.starts split
        simpa using PrimaryReading.array inside
      | openBrace =>
        simp only [List.head?_cons, kind]
        refine .bind (enclosed_reads .openBrace .closeBrace
          (fun tokens (fewer : tokens.length < limit) => dictEntry_reads below (Nat.le_of_lt fewer))
          within) ?_
        intro used rest entries trace split inside
        apply Reads.pure
        obtain ⟨more, rfl⟩ := inside.starts split
        simpa using PrimaryReading.dict inside
      | openParens =>
        simp only [List.head?_cons, kind]
        obtain ⟨found, looks, _⟩ := functionFollows_runs inClassBody (token :: rest) 0
        refine .after_quiet [] looks ?_
        cases found with
        | true =>
          refine .bind (function_reads below within) ?_
          intro used rest (params, body) trace split inside
          apply Reads.pure
          obtain ⟨more, rfl⟩ := inside.starts split
          simpa using PrimaryReading.function inside
        | false =>
          refine .step_bind (.bind (below.expression (by omega)).anywhere
            fun used rest inner trace _ inside => ?_)
          apply Reads.expect_bind
          intro stop rest _ closes
          apply Reads.pure
          simpa using PrimaryReading.group kind inside closes
      | _ => simpa only [List.head?_cons, kind] using refused
    | operator | eol => simpa only [List.head?_cons, kind] using refused

theorem postfixed_reads (below : ReadsBelow limit reading grammar) (within : tokens.length ≤ limit) :
    Reads false (postfixed grammar) inClassBody tokens
      fun used _ value trace => PostfixReading reading used value trace := by
  refine .grow ((primary_reads below within).mono fun _ _ _ _ _ inside => .primary inside)
    (fun object tokens within => ?_) within
  apply Reads.peek_bind
  cases tokens with
  | nil => exact .pure ⟨rfl, rfl, rfl⟩
  | cons token rest =>
    rw [List.length_cons] at within
    cases kind : token.kind with
    | punctuation sign =>
      cases sign with
      | openParens =>
        simp only [List.head?_cons, kind]
        refine .bind (enclosed_reads .openParens .closeParens
          (fun tokens (fewer : tokens.length < limit) => below.expression fewer)
          within) ?_
        intro used rest args trace split inside
        apply Reads.pure
        obtain ⟨more, rfl⟩ := inside.starts split
        exact ⟨by simp, fun used' trace' head => by simpa using head.call inside⟩
      | openBracket =>
        simp only [List.head?_cons, kind]
        refine .step_bind (.skipEols_bind fun blank rest split before _ => ?_)
        subst split
        rw [List.length_append] at within
        apply Reads.bind (below.expression (by omega)).anywhere
        intro used rest key trace _ inside
        apply Reads.skipEols_bind
        intro after rest _ blanks _
        apply Reads.expect_bind
        intro stop rest _ closes
        refine .pure ⟨by simp, fun used' trace' head => ?_⟩
        simpa using head.index kind before inside blanks closes
      | dot =>
        simp only [List.head?_cons, kind]
        refine .step_bind (.identifier_bind fun key rest name _ same => .pure ?_)
        exact ⟨by simp, fun used' trace' head => by simpa using head.member kind same⟩
      | _ => simpa only [List.head?_cons, kind] using .pure ⟨rfl, rfl, rfl⟩
    | _ => simpa only [List.head?_cons, kind] using .pure ⟨rfl, rfl, rfl⟩

/-- An operator of the given sort is consumed. -/
theorem operatorIf_some {isOfSort : Operator → Bool} {token : Token} {rest : List Token}
    {sign : Operator} (same : token.kind = .operator sign) (yes : isOfSort sign = true) :
    Runs (operatorIf? isOfSort) inClassBody (token :: rest) (.done (some (sign, token.pos))) rest [] := by
  refine Runs.bind .peek ?_
  obtain ⟨kind, span, pos, indent⟩ := token
  cases same
  simpa [yes] using Runs.step.bind (.pure (some (sign, pos)))

/-- Nothing else is. -/
theorem operatorIf_none {isOfSort : Operator → Bool}
    (other : ∀ token rest sign, tokens = token :: rest → token.kind = .operator sign →
      isOfSort sign = false) :
    Runs (operatorIf? isOfSort) inClassBody tokens (.done none) tokens [] := by
  refine Runs.bind .peek ?_
  cases tokens with
  | nil => exact .pure none
  | cons token rest =>
    obtain ⟨kind, span, pos, indent⟩ := token
    cases kind with
    | operator sign =>
      have no := other _ _ sign rfl rfl
      simpa [no] using .pure none
    | _ => exact .pure none

theorem operatorIf_bind {β : Type} {isOfSort : Operator → Bool}
    {next : Option (Operator × Position) → Parser β}
    {after : List Token → List Token → β → Trace → Prop}
    (stays : Reads late (next none) inClassBody tokens after)
    (steps : ∀ token rest sign, tokens = token :: rest → token.kind = .operator sign →
      isOfSort sign = true →
      Reads true (next (some (sign, token.pos))) inClassBody rest fun used => after (token :: used)) :
    Reads late (operatorIf? isOfSort >>= next) inClassBody tokens after := by
  by_cases found : ∃ token rest sign, tokens = token :: rest ∧ token.kind = .operator sign ∧
      isOfSort sign = true
  · obtain ⟨token, rest, sign, rfl, same, yes⟩ := found
    exact .after_quiet [token] (operatorIf_some same yes)
      (by simpa using steps token rest sign rfl same yes)
  · refine .after_quiet [] (operatorIf_none fun token rest sign split same => ?_) (by simpa using stays)
    exact Bool.eq_false_iff.mpr fun yes => found ⟨token, rest, sign, split, same, yes⟩

/-- The tokens are operators that can be applied to any operand after them. -/
def Applicable (reading : GrammarReading) (signs : List Token)
    (operators : List (Operator × Position)) : Prop :=
  ∀ {used operand trace}, PostfixReading reading used operand trace →
    ∃ value, applyUnary operand operators = .ok value ∧
      UnaryReading reading (signs ++ used) value trace

theorem Applicable.cons {token : Token} {sign : Operator} {signs : List Token}
    {operators : List (Operator × Position)} (same : token.kind = .operator sign)
    (member : sign.isUnary = true) (others : Applicable reading signs operators) :
    Applicable reading (token :: signs) ((sign, token.pos) :: operators) := by
  intro used operand trace inside
  obtain ⟨value, applied, inside⟩ := others inside
  obtain ⟨op, maps⟩ : ∃ op, UnaryOp.ofToken sign = .ok op := by
    cases sign with
    | minus | not => exact ⟨_, rfl⟩
    | _ => cases member
  refine ⟨.unary op value token.pos, ?_, .unary same maps inside⟩
  simp [applyUnary, applied, maps, bind, Except.bind, pure, Except.pure]

theorem unaryOperators_reads : Reads false unaryOperators inClassBody tokens
    fun used _ operators trace => Applicable reading used operators ∧ trace = [] := by
  refine (Reads.loop (fun operators used _ result trace => ∃ more, result = operators ++ more ∧
    Applicable reading used more ∧ trace = []) (fun operators tokens within => ?_) []
    (Nat.le_refl tokens.length)).mono fun used _ result trace _ held => ?_
  · refine operatorIf_bind (.pure ⟨[], by simp, fun inside => ⟨_, rfl, .operand inside⟩, rfl⟩) ?_
    intro token rest sign _ same member
    apply Reads.pure
    refine ⟨by simp, fun used rest result trace _ ⟨more, shape, signs, quiet⟩ => ?_⟩
    exact ⟨(sign, token.pos) :: more, by simp [shape], signs.cons same member, quiet⟩
  · obtain ⟨more, rfl, held⟩ := held
    exact held

theorem unary_reads (below : ReadsBelow limit reading grammar) (within : tokens.length ≤ limit) :
    Reads false (unary grammar) inClassBody tokens
      fun used _ value trace => UnaryReading reading used value trace := by
  have signs : Reads false unaryOperators inClassBody tokens fun used _ operators trace =>
      Applicable reading used operators ∧ trace = [] := unaryOperators_reads
  refine signs.bind ?_
  rintro signs rest operators trace split ⟨applicable, quiet⟩
  subst split quiet
  rw [List.length_append] at within
  have operand : Reads false (postfixed grammar) inClassBody rest _ :=
    postfixed_reads below (by omega)
  refine operand.anywhere.bind ?_
  intro used rest operand trace _ inside
  obtain ⟨value, applied, held⟩ := applicable inside
  rw [applied]
  exact .pure (by simpa using held)

theorem binaryTier_reads {isOfTier : Operator → Bool} {operand : Parser Expr} {inside : Reading Expr}
    (binary : ∀ sign, isOfTier sign = true → ∃ op, BinaryOp.ofToken sign = .ok op)
    (operands : ∀ tokens : List Token, tokens.length ≤ limit →
      Reads false operand inClassBody tokens fun used _ value trace => inside used value trace)
    (within : tokens.length ≤ limit) :
    Reads false (binaryTier isOfTier operand) inClassBody tokens
      fun used _ value trace => TierReading isOfTier inside used value trace := by
  refine .grow ((operands tokens within).mono fun _ _ _ _ _ held => .operand held)
    (fun left tokens within => ?_) within
  refine operatorIf_bind (.pure ⟨rfl, rfl, rfl⟩) ?_
  intro token rest sign split same member
  subst split
  rw [List.length_cons] at within
  apply Reads.bind (operands rest (by omega)).anywhere
  intro used rest right trace _ held
  obtain ⟨op, maps⟩ := binary sign member
  rw [maps]
  refine .pure ⟨by simp, fun before trace' head => ?_⟩
  simpa using head.binary same member maps held

theorem expression_reads (below : ReadsBelow limit reading grammar) (within : tokens.length ≤ limit) :
    Reads false (expression grammar) inClassBody tokens
      fun used _ value trace => ExpressionReading reading used value trace := by
  refine binaryTier_reads (fun sign member => ?_) (fun tokens within => binaryTier_reads
    (fun sign member => ?_) (fun tokens within => binaryTier_reads (fun sign member => ?_)
      (fun tokens within => binaryTier_reads (fun sign member => ?_)
        (fun tokens within => unary_reads below within) within) within) within) within
  all_goals cases sign <;> first | exact ⟨_, rfl⟩ | cases member

theorem PrimaryReading.nonempty {used : List Token} {value : Expr} {trace : Trace}
    (inside : PrimaryReading reading used value trace) : used ≠ [] := by
  cases inside <;> exact nofun

theorem PostfixReading.nonempty {used : List Token} {value : Expr} {trace : Trace}
    (inside : PostfixReading reading used value trace) : used ≠ [] := by
  cases inside with
  | primary inside => exact inside.nonempty
  | _ => simp

theorem UnaryReading.nonempty {used : List Token} {value : Expr} {trace : Trace}
    (inside : UnaryReading reading used value trace) : used ≠ [] := by
  cases inside with
  | operand inside => exact inside.nonempty
  | unary => exact nofun

theorem TierReading.nonempty {isOfTier : Operator → Bool} {operand : Reading Expr}
    {used : List Token} {value : Expr} {trace : Trace}
    (operands : ∀ {used value trace}, operand used value trace → used ≠ [])
    (inside : TierReading isOfTier operand used value trace) : used ≠ [] := by
  cases inside with
  | operand inside => exact operands inside
  | binary => simp

theorem ExpressionReading.nonempty {used : List Token} {value : Expr} {trace : Trace}
    (inside : ExpressionReading reading used value trace) : used ≠ [] :=
  TierReading.nonempty (TierReading.nonempty (TierReading.nonempty
    (TierReading.nonempty UnaryReading.nonempty))) inside

/-- An expression leaves fewer tokens to the production that it stands in. -/
theorem ExpressionReading.shorter {used rest : List Token} {value : Expr} {trace : Trace}
    (inside : ExpressionReading reading used value trace) (within : (used ++ rest).length ≤ limit) :
    rest.length < limit := by
  have some := List.length_pos_iff.mpr inside.nonempty
  rw [List.length_append] at within
  omega

end

end Arcade.Proofs
