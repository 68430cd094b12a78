import Arcade.Proofs.IllFormedNodes
import Arcade.Proofs.LineContainment
import Arcade.Proofs.RepeatedLinesParsed

/-! A malformed line is contained. A line that opens nothing takes one turn of the block it stands in,
and the loops go on behind its end as they would from the start, with one more statement collected. -/

namespace Arcade.Proofs
open Arcade.Parse Arcade.Parse.Parser

variable {α β : Type}

/-! ### Loops that collect -/

def mapped (change : α → β) : Outcome α → Outcome β
  | .done value state => .done (change value) state
  | .failed error recovery state => .failed error recovery state
  | .fault fault => .fault fault

def turned (change : α → β) : Turn α → Turn β
  | .again value => .again (change value)
  | .stop value => .stop (change value)

theorem bind_mapped {γ : Type} {first : Parser α} {next : α → Parser β} {change : β → γ}
    {changed : α → Parser γ} (same : ∀ value state, changed value state = mapped change (next value state))
    (state : State) : (first >>= changed) state = mapped change ((first >>= next) state) := by
  show andThen first changed state = mapped change (andThen first next state)
  unfold andThen
  cases first state with
  | done value state => exact same value state
  | failed error recovery state => rfl
  | fault fault => rfl

section
variable {turn : α → Parser (Turn α)} {change : α → α} {count limit : Nat} {value value' : α}
  {state state' : State}

theorem iterate_again (taken : turn value state = .done (.again value') state') :
    iterate turn (count + 1) value state = iterate turn count value' state' := by
  simp only [iterate, Bind.bind, andThen, taken]

/-- One turn that differs in what `change` does, and the turns after it. -/
theorem iterate_ahead (here : turn value' state' = mapped (turned change) (turn value state))
    (later : ∀ value state, (∀ fault, iterate turn count value state ≠ .fault fault) →
      iterate turn limit (change value) state = mapped change (iterate turn count value state))
    (ends : ∀ fault, iterate turn (count + 1) value state ≠ .fault fault) :
    iterate turn (limit + 1) value' state' = mapped change (iterate turn (count + 1) value state) := by
  simp only [iterate, Bind.bind, andThen] at ends ⊢
  rw [here]
  cases outcome : turn value state with
  | fault fault => rfl
  | failed error recovery state => rfl
  | done result state =>
    rw [outcome] at ends
    cases result with
    | stop result => rfl
    | again result => exact later result state ends

/-- More turns are no different either. -/
theorem iterate_mapped
    (same : ∀ value state, turn (change value) state = mapped (turned change) (turn value state))
    (within : count ≤ limit) (ends : ∀ fault, iterate turn count value state ≠ .fault fault) :
    iterate turn limit (change value) state = mapped change (iterate turn count value state) := by
  induction count generalizing limit value state with
  | zero => exact absurd rfl (ends .exhausted)
  | succ count ih =>
    cases limit with
    | zero => exact absurd within (Nat.not_succ_le_zero count)
    | succ limit => exact iterate_ahead (same value state) (fun _ _ => ih (Nat.le_of_succ_le_succ within)) ends

/-- A loop that has taken a turn less, from the start. -/
theorem loop_ahead (here : turn value' state' = mapped (turned change) (turn value state))
    (same : ∀ value state, turn (change value) state = mapped (turned change) (turn value state))
    (within : state.rest.length ≤ limit) (ends : ∀ fault, loop turn value state ≠ .fault fault) :
    iterate turn (limit + 1) value' state' = mapped change (loop turn value state) :=
  iterate_ahead here (fun _ _ => iterate_mapped same within) ends

end

section
variable {grammar : Grammar}

def blockTurn (grammar : Grammar) (statements : Block) : Parser (Turn Block) := do
  skipEols
  match ← peek with
  | none => return .stop statements
  | some token =>
    if token.kind.isBlockTerminator then return .stop statements
    else return .again (statements ++ [← recovering .illFormed (line grammar)])

/-- What a turn of a program does behind a block. -/
def afterBlock (statements : Block) : Parser (Turn Block) := do
  match ← peek with
  | none => return .stop statements
  | some token =>
    let stray := fail (.unexpected token (.words "statement")) .skipOne
    return .again (statements ++ [← recovering .illFormed stray])

def programTurn (grammar : Grammar) (statements : Block) : Parser (Turn Block) := do
  afterBlock (statements ++ (← block grammar))

theorem block_eq (grammar : Grammar) : block grammar = loop (blockTurn grammar) [] := rfl

theorem statements_eq (grammar : Grammar) : statements grammar = loop (programTurn grammar) [] := rfl

/-- What has been collected before stays in front. -/
theorem blockTurn_collects (first : Statement) (statements : Block) (state : State) :
    blockTurn grammar (first :: statements) state =
      mapped (turned (first :: ·)) (blockTurn grammar statements state) := by
  refine bind_mapped (fun _ state => bind_mapped (fun here state => ?_) state) state
  cases here with
  | none => rfl
  | some token =>
    dsimp only
    split
    · rfl
    · refine bind_mapped (fun value state => ?_) state
      rfl

theorem afterBlock_collects (first : Statement) (statements : Block) (state : State) :
    afterBlock (first :: statements) state = mapped (turned (first :: ·)) (afterBlock statements state) := by
  refine bind_mapped (fun here state => ?_) state
  cases here with
  | none => rfl
  | some token =>
    refine bind_mapped (fun value state => ?_) state
    rfl

/-- A line end in front of a block is skipped. -/
theorem blockTurn_skips {eol : Token} (ends : eol.kind = .eol) (statements : Block) (rest : List Token)
    (scopes : Scopes) (errors : List Error) :
    blockTurn grammar statements ⟨eol :: rest, scopes, errors⟩ =
      blockTurn grammar statements ⟨rest, scopes, errors⟩ := by
  have skipped : skipEols ⟨eol :: rest, scopes, errors⟩ = skipEols ⟨rest, scopes, errors⟩ := by
    simp [skipEols, ends]
  simp only [blockTurn, Bind.bind, andThen, skipped]

end

/-! ### One line -/

theorem Reads.never_faults {late inClassBody : Bool} {parser : Parser α} {tokens : List Token}
    {holds : List Token → List Token → α → Trace → Prop}
    (reads : Reads late parser inClassBody tokens holds) {nest : Nest} (kind : nest.inClassBody = inClassBody)
    (errors : List Error) (fault : Fault) : parser ⟨tokens, nest.flatten, errors⟩ ≠ .fault fault := by
  intro broken
  cases reads with
  | done _ run =>
    rw [run.run nest errors kind] at broken
    cases broken
  | failed run =>
    rw [run.run nest errors kind] at broken
    cases broken

/-- The errors of syntax of a trace do not depend on what is declared. -/
theorem filter_errors (trace : Trace) (nest nest' : Nest) :
    (trace.errors nest).filter Error.isSyntax = (trace.errors nest').filter Error.isSyntax := by
  induction trace generalizing nest nest' with
  | nil => rfl
  | cons action rest ih =>
    have same : (action.errors nest).filter Error.isSyntax = (action.errors nest').filter Error.isSyntax := by
      cases action with
      | useName name pos | useClass name pos | useThis pos | useSuper pos =>
        simp only [Action.errors]
        split <;> split <;> rfl
      | report | declare | enter | leave => rfl
    rw [Trace.errors_cons, Trace.errors_cons, List.filter_append, List.filter_append, same, ih]

section
variable {eol : Token} {line rest : List Token} {limit : Nat}

/-- What becomes of a line: an ill-formed statement and one error of syntax, or a statement without
gaps and none. -/
def Marks (first : Statement) (own : List Error) : Prop :=
  first = .illFormed ∧ own.length = 1 ∨ statementGaps first = [] ∧ own = []

/-- Skipping stops at the end of the line. -/
theorem OneLine.synchronize (one : OneLine line) (ends : eol.kind = .eol) :
    synchronize .line (line ++ eol :: rest) = eol :: rest := by
  have skips : ∀ token ∈ line, (token.kind != .eol && !token.kind.isBlockTerminator) = true := by
    intro token member
    have inside := one.isInline token member
    have solid : token.kind ≠ .eol := ne_of_isInline inside rfl
    simp [solid, goesOn_of_isInline inside]
  rw [Parser.synchronize, List.dropWhile_append_of_pos skips, List.dropWhile_cons_of_neg (by simp [ends])]

theorem line_marks (ends : eol.kind = .eol) (one : OneLine line) (begins : line ≠ [])
    (within : (line ++ eol :: rest).length ≤ limit) :
    ∃ first own left trace, (left = rest ∨ left = eol :: rest) ∧ Marks first own ∧
      Runs (recovering .illFormed (Parse.line (Grammar.ofLevels limit))) false (line ++ eol :: rest)
        (.done first) left trace ∧
      ∀ nest, (trace.errors nest).filter Error.isSyntax = own := by
  have below := ofLevels_reads accounting_closed limit
  have contained : Stays (· = rest) (eol :: rest) (Parse.line (Grammar.ofLevels limit)) line :=
    line_contained ends one
  have stays := contained (Nest.mk [] [] 0).flatten []
  have silent {trace : Trace} (clean : trace.Clean) (nest : Nest) :
      (trace.errors nest).filter Error.isSyntax = [] := by
    rw [List.filter_eq_nil_iff]
    intro error member
    simp [(trace.clean_iff nest).mp clean error member]
  have reads : Reads false (Parse.line (Grammar.ofLevels limit)) false (line ++ eol :: rest) _ :=
    line_reads below within
  cases reads with
  | @done used left value trace split run named _ held =>
    rw [run.run ⟨[], [], 0⟩ [] rfl] at stays
    obtain ⟨stands, added, same, clean⟩ := stays
    have clean : trace.Clean := (trace.clean_iff _).mpr (List.append_cancel_left same ▸ clean)
    have accounts : Accounts (statementGaps value) trace.mistakes := by
      obtain ⟨inside, _⟩ | ⟨before, _, _, _, inside⟩ := held
      · exact line_accounts inside
      · exact line_accounts inside
    have whole : statementGaps value = [] := by
      have bounded := accounts.bounded
      rw [Trace.mistakes_eq_zero_iff.mpr clean] at bounded
      exact List.eq_nil_of_length_eq_zero (Nat.le_zero.mp bounded)
    exact ⟨value, [], left, trace, .inl stands, .inr ⟨whole, rfl⟩, .recovering_done run, silent clean⟩
  | @failed error recovery left trace run named wrong moves =>
    rw [run.run ⟨[], [], 0⟩ [] rfl] at stays
    obtain ⟨_, rfl, ⟨last, suffix, rfl⟩, added, same, clean⟩ := stays
    have clean : trace.Clean := (trace.clean_iff _).mpr (List.append_cancel_left same ▸ clean)
    have skipped : synchronize .line (last ++ eol :: rest) = eol :: rest :=
      (one.suffix suffix).synchronize ends
    have spare : trace.mistakes + (synchronize .line (last ++ eol :: rest)).length <
        (line ++ eol :: rest).length := by
      have shorter : 0 < line.length := List.length_pos_iff.mpr begins
      rw [skipped, Trace.mistakes_eq_zero_iff.mpr clean, List.length_append]
      omega
    have recovered : Runs (recovering .illFormed (Parse.line (Grammar.ofLevels limit))) false
        (line ++ eol :: rest) (.done .illFormed) (synchronize .line (last ++ eol :: rest))
        (trace ++ [.report error]) := .recovering_failed run spare
    rw [skipped] at recovered
    refine ⟨.illFormed, [error], eol :: rest, _, .inr rfl, .inl ⟨rfl, rfl⟩, recovered, fun nest => ?_⟩
    rw [Trace.errors_append, List.filter_append, silent clean]
    simp [Action.errors, wrong]

/-! ### Behind the line -/

section
variable {grammar : Grammar} {scopes scopes' : Scopes} {errors errors' : List Error} {first : Statement}
  {left : List Token}

/-- The block takes the line in one turn and goes on as from its start. -/
theorem block_ahead (ends : eol.kind = .eol) (one : OneLine line) (begins : line ≠ [])
    (stands : left = rest ∨ left = eol :: rest)
    (taken : recovering .illFormed (Parse.line grammar) ⟨line ++ eol :: rest, scopes, errors⟩ =
      .done first ⟨left, scopes', errors'⟩)
    (answers : ∀ fault, block grammar ⟨rest, scopes', errors'⟩ ≠ .fault fault) :
    block grammar ⟨line ++ eol :: rest, scopes, errors⟩ =
      mapped (first :: ·) (block grammar ⟨rest, scopes', errors'⟩) := by
  have turn : blockTurn grammar [] ⟨line ++ eol :: rest, scopes, errors⟩ =
      .done (.again [first]) ⟨left, scopes', errors'⟩ := by
    cases line with
    | nil => exact absurd rfl begins
    | cons token line =>
      have inside := one.isInline token (.head _)
      have solid : token.kind ≠ .eol := ne_of_isInline inside rfl
      have unskipped : skipEols ⟨token :: line ++ eol :: rest, scopes, errors⟩ =
          .done () ⟨token :: line ++ eol :: rest, scopes, errors⟩ := by simp [skipEols, solid]
      have goesOn : ¬ token.kind.isBlockTerminator = true := by simp [goesOn_of_isInline inside]
      calc blockTurn grammar [] ⟨token :: line ++ eol :: rest, scopes, errors⟩
        _ = (if token.kind.isBlockTerminator then return .stop []
              else return .again ([] ++ [← recovering .illFormed (Parse.line grammar)]) :
              Parser (Turn Block)) ⟨token :: line ++ eol :: rest, scopes, errors⟩ := bind_of_done unskipped
        _ = .done (.again [first]) ⟨left, scopes', errors'⟩ := by
          rw [if_neg goesOn]
          exact bind_of_done taken
  have next : blockTurn grammar [first] ⟨left, scopes', errors'⟩ =
      mapped (turned (first :: ·)) (blockTurn grammar [] ⟨rest, scopes', errors'⟩) := by
    rw [← blockTurn_collects]
    obtain rfl | rfl := stands
    · rfl
    · exact blockTurn_skips ends ..
  obtain ⟨count, size⟩ : ∃ count, (line ++ eol :: rest).length = count + 1 ∧ rest.length ≤ count := by
    refine ⟨line.length + rest.length, ?_, Nat.le_add_left ..⟩
    rw [List.length_append, List.length_cons, Nat.add_assoc]
  calc block grammar ⟨line ++ eol :: rest, scopes, errors⟩
    _ = iterate (blockTurn grammar) (count + 2) [] ⟨line ++ eol :: rest, scopes, errors⟩ := by
      rw [block_eq, loop, size.1]
    _ = iterate (blockTurn grammar) (count + 1) [first] ⟨left, scopes', errors'⟩ := iterate_again turn
    _ = mapped (first :: ·) (block grammar ⟨rest, scopes', errors'⟩) :=
      loop_ahead next (blockTurn_collects first) size.2 answers

theorem statements_ahead
    (ahead : block grammar ⟨line ++ eol :: rest, scopes, errors⟩ =
      mapped (first :: ·) (block grammar ⟨rest, scopes', errors'⟩))
    (answers : ∀ fault, statements grammar ⟨rest, scopes', errors'⟩ ≠ .fault fault) :
    statements grammar ⟨line ++ eol :: rest, scopes, errors⟩ =
      mapped (first :: ·) (statements grammar ⟨rest, scopes', errors'⟩) := by
  have collects (statements : Block) (state : State) : programTurn grammar (first :: statements) state =
      mapped (turned (first :: ·)) (programTurn grammar statements state) :=
    bind_mapped (fun body state => afterBlock_collects first (statements ++ body) state) state
  have here : programTurn grammar [] ⟨line ++ eol :: rest, scopes, errors⟩ =
      mapped (turned (first :: ·)) (programTurn grammar [] ⟨rest, scopes', errors'⟩) := by
    show andThen _ _ _ = mapped _ (andThen _ _ _)
    unfold andThen
    rw [ahead]
    cases block grammar ⟨rest, scopes', errors'⟩ with
    | done body state => exact afterBlock_collects first body state
    | failed error recovery state => rfl
    | fault fault => rfl
  have longer : rest.length ≤ (line ++ eol :: rest).length := by
    rw [List.length_append, List.length_cons]
    omega
  rw [statements_eq]
  exact loop_ahead here collects longer answers

end

end

/-- A line that opens nothing becomes one statement, whatever its tokens are: an ill-formed one with one
error of syntax, or one without gaps and with none. The lines behind it have the statements and the
errors of syntax that they have alone. -/
theorem malformed_line_contained {line : List Token} (one : OneLine line) (begins : line ≠ [])
    {eol : Token} (ends : eol.kind = .eol) (rest : List Token) (scopes : Scopes) :
    ∃ first own whole alone, parse (line ++ eol :: rest) scopes = .ok whole ∧
      parse rest scopes = .ok alone ∧ whole.statements = first :: alone.statements ∧
      whole.errors.filter Error.isSyntax = own ++ alone.errors.filter Error.isSyntax ∧
      (first = .illFormed ∧ own.length = 1 ∨ statementGaps first = [] ∧ own = []) := by
  let nest := Nest.ofGlobals scopes
  let levels := (line ++ eol :: rest).length + 1
  have within : (line ++ eol :: rest).length ≤ levels := Nat.le_succ _
  have fewer : rest.length ≤ levels := by
    rw [List.length_append, List.length_cons] at within
    omega
  obtain ⟨first, own, left, trace, stands, marks, taken, reported⟩ := line_marks ends one begins within
  have root : (trace.apply nest).inClassBody = false := taken.level.inClassBody_apply nest
  -- The rest is parsed behind the line, and alone by a grammar that is less deep.
  obtain ⟨body, behind, run, _, _⟩ := statements_run anyReading_closed fewer
  obtain ⟨body', behind', run', _, _⟩ := program_runs anyReading_closed rest
  have agreed := statements_alike (ofLevels_alike levels (rest.length + 1)) rest rest (.refl rest)
    nest.flatten []
  rw [run.run nest [] rfl, run'.run nest [] rfl] at agreed
  obtain ⟨rfl, _, alike⟩ := agreed.done_eq
  rw [List.nil_append, List.nil_append] at alike
  -- What the whole is parsed to.
  obtain ⟨whole, traces, runs, _, _⟩ := program_runs anyReading_closed (line ++ eol :: rest)
  have inside : Reads true (block (Grammar.ofLevels levels)) false rest _ :=
    block_reads (ofLevels_reads anyReading_closed levels) fewer
  have after := run.run (trace.apply nest) ([] ++ trace.errors nest) root
  have ahead := statements_ahead
    (block_ahead ends one begins stands (taken.run nest [] rfl) (inside.never_faults root _))
    (by rw [after]; exact nofun)
  rw [after, runs.run nest [] rfl] at ahead
  obtain ⟨same, left⟩ := Outcome.done.inj ahead
  have errors : traces.errors nest = trace.errors nest ++ behind.errors (trace.apply nest) :=
    congrArg State.errors left
  refine ⟨first, own, _, _, parse_of_runs runs scopes, parse_of_runs run' scopes, same, ?_, marks⟩
  calc (traces.errors nest).filter Error.isSyntax
    _ = (trace.errors nest).filter Error.isSyntax ++
          (behind.errors (trace.apply nest)).filter Error.isSyntax := by rw [errors, List.filter_append]
    _ = own ++ (behind.errors nest).filter Error.isSyntax := by
      rw [reported, filter_errors behind _ nest]
    _ = own ++ (behind'.errors nest).filter Error.isSyntax := by rw [alike]

/-- A `let` without a name, in front of a line with one name and an `end` too many. -/
theorem malformed_line_contained_of_let :
    let line := inLine [.keyword .letWord, .punctuation .arrow, .literal (.bool true)]
    let eol := Token.synthesized .eol 3 ⟨1, 3, .invalid⟩
    let rest := inLine [.identifier ⟨1⟩, .keyword .endWord]
    OneLine line ∧ line ≠ [] ∧ eol.kind = .eol ∧
      ∃ own whole alone, parse (line ++ eol :: rest) ⟨[], [], 0⟩ = .ok whole ∧
        parse rest ⟨[], [], 0⟩ = .ok alone ∧ whole.statements = .illFormed :: alone.statements ∧
        whole.errors.filter Error.isSyntax = own ++ alone.errors.filter Error.isSyntax ∧
        own.length = 1 := by
  intro line eol rest
  have one : OneLine line := ⟨by decide, fun token last => by cases last; decide⟩
  obtain ⟨first, own, whole, alone, parsed, parsed', statements, errors, marks⟩ :=
    malformed_line_contained one nofun (rfl : eol.kind = .eol) rest ⟨[], [], 0⟩
  obtain ⟨more, made⟩ : ∃ more, (parse (line ++ eol :: rest) ⟨[], [], 0⟩).map Parsed.statements =
      .ok (.illFormed :: more) := ⟨_, rfl⟩
  rw [parsed, Except.map, statements] at made
  cases made
  obtain ⟨_, single⟩ | ⟨closed, _⟩ := marks
  · exact ⟨one, nofun, rfl, own, whole, alone, parsed, parsed', statements, errors, single⟩
  · cases closed

end Arcade.Proofs
