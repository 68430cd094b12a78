import Arcade.Proofs.StatementReadings

/-! Lines, blocks and whole programs have their readings. With them the grammar of every depth
has the readings of its productions, and a program is read to its last token, whatever is wrong
with it. -/

namespace Arcade.Proofs
open Arcade.Parse Arcade.Parse.Parser

variable {α β : Type} {late inClassBody : Bool} {tokens : List Token} {limit : Nat}
  {reading : GrammarReading} {grammar : Grammar}

/-! ### Lines -/

theorem FunctionReading.nonempty {used : List Token} {value : List Symbol × Block} {trace : Trace}
    (inside : FunctionReading reading used value trace) : used ≠ [] := by
  cases inside
  simp

theorem LineReading.nonempty {used : List Token} {value : Statement} {trace : Trace}
    (inside : LineReading reading inClassBody used value trace) : used ≠ [] := by
  cases inClassBody with
  | true => cases inside <;> exact nofun
  | false =>
    cases inside with
    | assign inside =>
      cases inside with
      | expr inside => exact inside.nonempty
      | assign => simp
    | _ => exact nofun

/-- Whether a block would stop in front of the tokens. -/
def AtBlockEnd (tokens : List Token) : Prop :=
  ∀ token rest, tokens = token :: rest → token.kind.isBlockTerminator = true

theorem lineEnd_reads : Reads late lineEnd inClassBody tokens fun used rest _ trace =>
    trace = [] ∧ (used = [] ∧ AtBlockEnd rest ∨ ∃ eol, used = [eol] ∧ eol.kind = .eol) := by
  apply Reads.peek_bind
  cases tokens with
  | nil => exact .pure ⟨rfl, .inl ⟨rfl, nofun⟩⟩
  | cons token rest =>
    simp only [List.head?_cons]
    split
    next ends =>
      rw [← parser_bind_pure step]
      exact .step_bind (.pure ⟨rfl, .inr ⟨token, rfl, ends⟩⟩)
    next =>
      split
      next stops =>
        refine .pure ⟨rfl, .inl ⟨rfl, fun _ _ same => ?_⟩⟩
        cases same
        exact stops
      next => exact .fail_line rfl

/-- A line that a block would stop behind, or one with its line end. -/
def EndedLine (reading : GrammarReading) (inClassBody : Bool) (used rest : List Token)
    (value : Statement) (trace : Trace) : Prop :=
  LineReading reading inClassBody used value trace ∧ AtBlockEnd rest ∨
    ∃ before eol, used = before ++ [eol] ∧ eol.kind = .eol ∧
      LineReading reading inClassBody before value trace

theorem EndedLine.nonempty {used rest : List Token} {value : Statement} {trace : Trace}
    (line : EndedLine reading inClassBody used rest value trace) : used ≠ [] := by
  obtain ⟨inside, _⟩ | ⟨before, eol, rfl, _, _⟩ := line
  · exact inside.nonempty
  · simp

theorem line_reads (below : ReadsBelow limit reading grammar) (within : tokens.length ≤ limit) :
    Reads false (line grammar) inClassBody tokens (EndedLine reading inClassBody) := by
  have ended {first : Parser Statement} (inside : Reads false first inClassBody tokens
      fun used _ value trace => LineReading reading inClassBody used value trace) :
      Reads false (do
        let statement ← first
        lineEnd
        return statement) inClassBody tokens (EndedLine reading inClassBody) := by
    apply Reads.bind inside
    intro used rest value trace _ inside
    apply Reads.bind lineEnd_reads
    rintro ending rest _ _ _ ⟨quiet, ends⟩
    apply Reads.pure
    subst quiet
    obtain ⟨rfl, stops⟩ | ⟨eol, rfl, ends⟩ := ends
    · exact .inl ⟨by simpa using inside, stops⟩
    · exact .inr ⟨used, eol, by simp, ends, by simpa using inside⟩
  apply Reads.scopes_bind
  cases inClassBody with
  | true => exact ended (classMember_reads below within)
  | false => exact ended (statement_reads below within)

/-! ### Blocks -/

/-- Where a block ends at once there is no line end to skip. -/
private theorem blank_at_end {blank rest : List Token} (blanks : Eols blank)
    (stops : AtBlockEnd (blank ++ rest)) : blank = [] := by
  cases blank with
  | nil => rfl
  | cons token blank =>
    have same : token.kind = .eol := blanks token List.mem_cons_self
    have stop := stops token _ rfl
    rw [same] at stop
    cases stop

/-- What a block reads of the tokens in front of it. Where it would stop it reads nothing. -/
def BlockPart (reading : GrammarReading) (inClassBody : Bool) (used rest : List Token)
    (body : Block) (trace : Trace) : Prop :=
  BlockReading reading inClassBody used body trace ∧
    (AtBlockEnd (used ++ rest) → used = [] ∧ body = [] ∧ trace = [])

private theorem BlockPart.blank {blank rest : List Token} (blanks : Eols blank) :
    BlockPart reading inClassBody blank rest [] [] :=
  ⟨.empty blanks, fun stops => ⟨blank_at_end blanks stops, rfl, rfl⟩⟩

private theorem BlockPart.line {blank used others rest : List Token} {value : Statement}
    {values : Block} {trace traces : Trace} (blanks : Eols blank)
    (first : EndedLine reading inClassBody used (others ++ rest) value trace)
    (more : BlockPart reading inClassBody others rest values traces) :
    BlockReading reading inClassBody (blank ++ used ++ others) (value :: values)
      (trace ++ traces) := by
  obtain ⟨inside, ends⟩ | ⟨before, eol, rfl, ends, inside⟩ := first
  · obtain ⟨rfl, rfl, rfl⟩ := more.2 ends
    simpa using BlockReading.last blanks inside
  · simpa using BlockReading.line blanks inside ends more.1

theorem block_reads (below : ReadsBelow limit reading grammar) (within : tokens.length ≤ limit) :
    Reads true (block grammar) inClassBody tokens
      fun used _ body trace => BlockReading reading inClassBody used body trace := by
  refine (Reads.loop (fun statements used rest result trace => ∃ more, result = statements ++ more ∧
    BlockPart reading inClassBody used rest more trace) (fun statements tokens within => ?_) []
    within).mono fun used rest body trace _ ⟨more, shape, held⟩ => by simpa [shape] using held.1
  apply Reads.skipEols_bind
  intro blank rest split blanks inside
  apply Reads.peek_bind
  subst split
  cases rest with
  | nil => exact .pure ⟨[], by simp, by simpa using BlockPart.blank blanks⟩
  | cons token rest =>
    simp only [List.head?_cons]
    split
    next => exact .pure ⟨[], by simp, by simpa using BlockPart.blank blanks⟩
    next goesOn =>
      rw [List.length_append] at within
      have begins : token.kind ≠ .eol := by simpa using inside
      have solid : ¬ AtBlockEnd (blank ++ token :: rest) := fun stops => by
        cases blank_at_end blanks stops
        exact goesOn (stops _ _ rfl)
      refine .recovering_bind (line_reads below (by omega)) begins (by simpa using goesOn) ?_
      intro used left value trace split made
      apply Reads.pure
      have progress : used ≠ [] := by
        obtain line | ⟨moved, _⟩ := made
        · exact line.nonempty
        · exact moved
      refine ⟨by simp [progress], fun used' left' result traces split' ⟨more, shape, others⟩ => ?_⟩
      subst split'
      rw [split] at solid
      refine ⟨value :: more, by simp [shape], ?_, fun stops => absurd (by simpa using stops) solid⟩
      obtain line | ⟨_, rfl, before, error, rfl, wrong⟩ := made
      · simpa using BlockPart.line blanks line others
      · simpa using BlockReading.skipped blanks wrong others.1

/-! ### Programs -/

/-- A grammar of some depth is enough for as many tokens. -/
theorem ofLevels_reads (closed : reading.Closed) (levels : Nat) :
    ReadsBelow levels reading (Grammar.ofLevels levels) := by
  induction levels with
  | zero => exact ⟨nofun, nofun, nofun⟩
  | succ levels inner =>
    refine ⟨fun below => ?_, fun below => ?_, fun {pos} _ _ below => ?_⟩
    · exact (expression_reads inner (Nat.le_of_lt_succ below)).mono
        fun _ _ _ _ _ inside => closed.expression inside
    · exact (block_reads inner (Nat.le_of_lt_succ below)).mono
        fun _ _ _ _ _ inside => closed.block inside
    · exact (ifRest_reads inner (Nat.le_of_lt_succ below) pos).mono
        fun _ _ _ _ _ inside => closed.ifRest inside

theorem statements_reads (below : ReadsBelow limit reading grammar) (within : tokens.length ≤ limit) :
    Reads true (statements grammar) false tokens
      fun used rest body trace => ProgramReading reading used body trace ∧ rest = [] := by
  refine (Reads.loop (fun statements used rest result trace => ∃ more, result = statements ++ more ∧
    ProgramReading reading used more trace ∧ rest = []) (fun statements tokens within => ?_) []
    within).mono fun used rest body trace _ ⟨more, shape, held⟩ => by simpa [shape] using held
  apply Reads.bind (block_reads below within)
  intro used rest body trace split inside
  apply Reads.peek_bind
  cases rest with
  | nil => exact .pure ⟨body, rfl, by simpa using ProgramReading.last inside, rfl⟩
  | cons token rest =>
    simp only [List.head?_cons]
    let error : Error := .unexpected token (.words "statement")
    have skipped : Runs (recovering Statement.illFormed (fail error .skipOne)) false (token :: rest)
        (.done .illFormed) rest [.report error] :=
      Runs.recovering_failed (.fail error .skipOne) (by simp [synchronize])
    have named : Trace.NamesFrom [.report error] (token :: rest) := by
      apply Trace.namesFrom_cons.mpr
      refine ⟨?_, Trace.namesFrom_nil _⟩
      intro name used
      cases used
    refine .after_run [token] skipped named (.inl rfl) ?_
    refine .pure ⟨by simp, ?_⟩
    rintro used' rest' result trace' _ ⟨more, shape, others, done⟩
    refine ⟨body ++ .illFormed :: more, by simp [shape], ?_, done⟩
    simpa using ProgramReading.stray inside (rfl : error.isSyntax = true) others

/-- No error gets out of the parser. -/
def Recovers (parser : Parser α) : Prop :=
  ∀ state error recovery after, parser state ≠ .failed error recovery after

namespace Recovers

/-- A parser that only ever succeeds. -/
theorem of_done {parser : Parser α} (done : ∀ state, ∃ value after, parser state = .done value after) :
    Recovers parser := by
  intro state error recovery after broken
  obtain ⟨value, middle, same⟩ := done state
  rw [same] at broken
  cases broken

theorem pure (value : α) : Recovers (pure value) := of_done fun _ => ⟨_, _, rfl⟩

theorem bind {first : Parser α} {next : α → Parser β} (head : Recovers first)
    (tail : ∀ value, Recovers (next value)) : Recovers (first >>= next) := by
  intro state error recovery after broken
  change andThen first next state = _ at broken
  unfold andThen at broken
  split at broken
  next value middle _ => exact tail value middle error recovery after broken
  next failed => exact head _ _ _ _ failed
  next => cases broken

theorem recovering (fallback : α) (parser : Parser α) : Recovers (recovering fallback parser) := by
  intro state error recovery after broken
  unfold Parser.recovering at broken
  split at broken
  next => cases broken
  next fails => exact fails _ _ _ broken

theorem loop {turn : α → Parser (Turn α)} (turns : ∀ value, Recovers (turn value)) (value : α) :
    Recovers (loop turn value) := by
  have iterated (count : Nat) (value : α) : Recovers (iterate turn count value) := by
    induction count generalizing value with
    | zero =>
      intro state error recovery after broken
      cases broken
    | succ count ih =>
      refine (turns value).bind ?_
      intro after
      cases after with
      | again value => exact ih value
      | stop value => exact pure value
  exact fun state => iterated (state.rest.length + 1) value state

end Recovers

theorem block_recovers (grammar : Grammar) : Recovers (block grammar) := by
  refine .loop (fun statements => ?_) []
  refine .bind (.of_done fun _ => ⟨_, _, rfl⟩) ?_
  intro _
  refine .bind (.of_done fun _ => ⟨_, _, rfl⟩) ?_
  intro here
  cases here with
  | none => exact .pure _
  | some token =>
    dsimp only
    split
    · exact .pure _
    · exact .bind (.recovering _ _) fun _ => .pure _

theorem statements_recovers (grammar : Grammar) : Recovers (statements grammar) := by
  refine .loop (fun statements => ?_) []
  refine .bind (block_recovers grammar) ?_
  intro body
  refine .bind (.of_done fun _ => ⟨_, _, rfl⟩) ?_
  intro here
  cases here with
  | none => exact .pure _
  | some token => exact .bind (.recovering _ _) fun _ => .pure _

theorem parse_of_runs {body : Block} {rest : List Token} {trace : Trace}
    (run : Runs (statements (Grammar.ofLevels (tokens.length + 1))) false tokens (.done body) rest
      trace) (scopes : Scopes) :
    parse tokens scopes = .ok ⟨body, trace.errors (Nest.ofGlobals scopes),
      (trace.apply (Nest.ofGlobals scopes)).flatten⟩ := by
  have whole := run.run (Nest.ofGlobals scopes) [] rfl
  rw [Nest.flatten_ofGlobals] at whole
  simp [parse, whole, Ending.outcome]

/-- A program is read to its end by every grammar that is deep enough. -/
theorem statements_run (closed : reading.Closed) {tokens : List Token} {levels : Nat}
    (within : tokens.length ≤ levels) :
    ∃ body trace, Runs (statements (Grammar.ofLevels levels)) false tokens (.done body) [] trace ∧
      trace.NamesFrom tokens ∧ ProgramReading reading tokens body trace := by
  cases statements_reads (ofLevels_reads closed levels) within with
  | done split run named _ held =>
    obtain ⟨held, rfl⟩ := held
    rw [split, List.append_nil] at run named ⊢
    exact ⟨_, _, run, named, held⟩
  | failed run _ _ _ =>
    exact absurd (run.run (Nest.ofGlobals (Scopes.mk [] [] 0)) [] rfl) (statements_recovers _ _ _ _ _)

/-- Parsing always answers. It reads every token, and the statements and the trace are the same
whatever is declared beforehand. -/
theorem program_runs (closed : reading.Closed) (tokens : List Token) :
    ∃ body trace, Runs (statements (Grammar.ofLevels (tokens.length + 1))) false tokens (.done body) []
      trace ∧ trace.NamesFrom tokens ∧ ProgramReading reading tokens body trace :=
  statements_run closed (Nat.le_succ tokens.length)

theorem parse_eq (closed : reading.Closed) (tokens : List Token) :
    ∃ body trace, trace.NamesFrom tokens ∧ ProgramReading reading tokens body trace ∧
      ∀ scopes, parse tokens scopes = .ok ⟨body, trace.errors (Nest.ofGlobals scopes),
        (trace.apply (Nest.ofGlobals scopes)).flatten⟩ := by
  obtain ⟨body, trace, run, named, held⟩ := program_runs closed tokens
  exact ⟨body, trace, named, held, parse_of_runs run⟩

/-- Parsing completes whatever the tokens and the scopes are. It comes to the last token without a
fault, closes every scope that it opens, so that the root scope alone is left with what has been
declared in it, and reports no more errors of syntax than there are tokens. -/
theorem parse_completes (tokens : List Token) (scopes : Scopes) :
    ∃ body errors added, let final := { scopes.reset with declared := scopes.reset.declared ++ added }
      statements (Grammar.ofLevels (tokens.length + 1)) ⟨tokens, scopes.reset, []⟩ =
        .done body ⟨[], final, errors⟩ ∧
      parse tokens scopes = .ok ⟨body, errors, final⟩ ∧ final.depth = 1 ∧
      errors.countP Error.isSyntax ≤ tokens.length := by
  obtain ⟨body, trace, run, _, _⟩ := program_runs anyReading_closed tokens
  obtain ⟨added, level⟩ := run.level.apply_eq
  have final : (trace.apply (Nest.ofGlobals scopes)).flatten =
      { scopes.reset with declared := scopes.reset.declared ++ added } := by
    rw [level]
    rfl
  have whole := run.run (Nest.ofGlobals scopes) [] rfl
  rw [Nest.flatten_ofGlobals, final, List.nil_append] at whole
  have answer := parse_of_runs run scopes
  rw [final] at answer
  refine ⟨body, trace.errors (Nest.ofGlobals scopes), added, whole, answer, rfl, ?_⟩
  rw [Trace.countP_errors]
  simpa using run.paid

/-- Tokens of the given kinds in one line, each a column wide. -/
def inLine (kinds : List TokenKind) : List Token :=
  kinds.mapIdx fun column kind => ⟨kind, ⟨column, column + 1⟩, ⟨1, column, .invalid⟩, none⟩

end Arcade.Proofs
