import Arcade.Proofs.FunctionHeads
import Arcade.Proofs.ScopeRewinding

/-! Looking ahead for a function. The parsers of its head answer from the tokens alone. So an answer
holds in all scopes and after all errors, and a head that was found is parsed again, whatever was
declared in between. -/

namespace Arcade.Proofs
open Arcade.Parse Arcade.Parse.Parser

variable {α β : Type}

/-- The same outcome in other scopes and after other errors. -/
def among (scopes : Scopes) (errors : List Error) : Outcome α → Outcome α
  | .done value state => .done value ⟨state.rest, scopes, errors⟩
  | .failed error recovery state => .failed error recovery ⟨state.rest, scopes, errors⟩
  | .fault fault => .fault fault

/-- Neither looks at the scopes and errors nor changes them. -/
def Blind (parser : Parser α) : Prop := ∀ tokens scopes errors scopes' errors',
  parser ⟨tokens, scopes', errors'⟩ = among scopes' errors' (parser ⟨tokens, scopes, errors⟩)

namespace Blind

theorem pure (value : α) : Blind (pure value) := fun _ _ _ _ _ => rfl

theorem bind {first : Parser α} {next : α → Parser β} (head : Blind first)
    (tail : ∀ value, Blind (next value)) : Blind (first >>= next) := by
  intro tokens scopes errors scopes' errors'
  show andThen first next _ = among scopes' errors' (andThen first next _)
  rw [andThen, andThen, head tokens scopes errors]
  cases first ⟨tokens, scopes, errors⟩ with
  | done value state => exact tail value ..
  | failed error recovery state => rfl
  | fault fault => rfl

theorem skipEols : Blind skipEols := fun _ _ _ _ _ => rfl

theorem isAt (kind : TokenKind) : Blind (isAt kind) := fun _ _ _ _ _ => rfl

theorem step : Blind step := fun _ _ _ _ _ => rfl

theorem stepIf (kind : TokenKind) : Blind (stepIf kind) := by
  refine (isAt kind).bind fun found => ?_
  cases found with
  | true => exact step.bind fun _ => pure true
  | false => exact pure false

theorem eat (accept : Token → Except (Error × Recovery) α) : Blind (eat accept) := by
  have peek : Blind peek := fun _ _ _ _ _ => rfl
  refine peek.bind fun next => ?_
  cases next with
  | none => exact fun _ _ _ _ _ => rfl
  | some token =>
    dsimp only
    split
    next value _ => exact step.bind fun _ => pure value
    next => exact fun _ _ _ _ _ => rfl

/-- The count of the turns comes from the tokens as well. -/
theorem loop {turn : α → Parser (Turn α)} (turns : ∀ value, Blind (turn value)) (value : α) :
    Blind (loop turn value) := by
  have iterated (count : Nat) : ∀ value, Blind (iterate turn count value) := by
    induction count with
    | zero => exact fun _ _ _ _ _ _ => rfl
    | succ count ih =>
      refine fun value => (turns value).bind fun next => ?_
      cases next with
      | again next => exact ih next
      | stop result => exact pure result
  exact fun tokens => iterated (tokens.length + 1) value tokens

theorem delimited {item : Parser α} (closing : TokenKind) (items : Blind item) :
    Blind (delimited closing item) := by
  refine .loop (fun values => skipEols.bind fun _ => (isAt closing).bind fun closed => ?_) []
  cases closed with
  | true => exact pure _
  | false =>
    refine items.bind fun value => skipEols.bind fun _ => (stepIf _).bind fun more => ?_
    cases more with
    | true => exact pure _
    | false => exact pure _

theorem enclosed {item : Parser α} (opening closing : Punctuation) (items : Blind item) :
    Blind (enclosed opening closing item) :=
  (eat _).bind fun _ => (delimited _ items).bind fun _ => (eat _).bind fun _ => pure _

theorem params : Blind params := enclosed .openParens .closeParens (eat _)

/-- What is restored is what was there, as the test has not touched it. -/
theorem speculate (skip : Nat) {test : Parser Bool} (blind : Blind test) : Blind (speculate skip test) := by
  have kept (tokens : List Token) (scopes : Scopes) (errors : List Error) (rest : List Token) :
      restore (checkpoint ⟨tokens, scopes, errors⟩) ⟨rest, scopes, errors⟩ = ⟨tokens, scopes, errors⟩ := by
    simp [restore, checkpoint, (StandsBelow.refl scopes).rewind]
  intro tokens scopes errors scopes' errors'
  simp only [Parser.speculate]
  rw [blind (tokens.drop skip) scopes errors, blind (tokens.drop skip) scopes errors scopes errors]
  cases test ⟨tokens.drop skip, scopes, errors⟩ <;> simp [among, kept]

theorem functionFollows (skip : Nat) : Blind (functionFollows skip) :=
  speculate skip (params.bind fun _ => isAt _)

/-- A run in one state shows those in all others. -/
theorem of_runs {parser : Parser α} {tokens rest : List Token} {ending : Ending α} {trace : Trace}
    (blind : Blind parser) (runs : Runs parser false tokens ending rest trace) (scopes : Scopes)
    (errors : List Error) : parser ⟨tokens, scopes, errors⟩ = ending.outcome ⟨rest, scopes, errors⟩ := by
  have run := runs.run ⟨[], [], 0⟩ [] rfl
  rw [blind tokens _ _ scopes errors, run]
  cases ending <;> rfl

end Blind

/-! ### The body behind a head -/

/-- What is left of a function when its parameters and its arrow are behind. -/
def functionBody (grammar : Grammar) (params : List (Symbol × Position)) :
    Parser (List Symbol × Block) := do
  let body ← inScope .functionBody do
    declareParams params
    grammar.block
  expectEnd
  return (params.map (·.1), body)

/-- To name two parameters alike is an error, but does not keep one from going on. -/
theorem reportDuplicates_goes_on (earlier : List Symbol) (params : List (Symbol × Position)) :
    ∃ reports : List Error, (∀ error ∈ reports, ∃ pos, error = .duplicateParams pos) ∧
      ∀ tokens scopes errors, reportDuplicates earlier params ⟨tokens, scopes, errors⟩ =
        .done () ⟨tokens, scopes, errors ++ reports⟩ := by
  induction params generalizing earlier with
  | nil =>
    refine ⟨[], List.forall_mem_nil _, fun tokens scopes errors => ?_⟩
    rw [List.append_nil, reportDuplicates]
    rfl
  | cons param rest ih =>
    obtain ⟨name, pos⟩ := param
    obtain ⟨reports, named, goes⟩ := ih (name :: earlier)
    unfold reportDuplicates
    by_cases again : earlier.contains name
    · refine ⟨.duplicateParams pos :: reports, ?_, fun tokens scopes errors => ?_⟩
      · rw [List.forall_mem_cons]
        exact ⟨⟨pos, rfl⟩, named⟩
      · rw [if_pos again, List.append_cons]
        exact goes tokens scopes _
    · refine ⟨reports, named, fun tokens scopes errors => ?_⟩
      rw [if_neg again]
      exact goes tokens scopes errors

/-- A function at these tokens is parsed up to its body in all scopes and after all errors, and by every
grammar. Only parameters of one name are reported on the way. -/
inductive EntersBody : List Token → Prop
  | intro {head arrow rest params quiet reports}
      (names : Enclosed .openParens .closeParens NameReading head params quiet)
      (points : arrow.kind = .punctuation .arrow)
      (duplicates : ∀ error ∈ reports, ∃ pos, error = Error.duplicateParams pos)
      (enters : ∀ grammar scopes errors, function grammar ⟨head ++ arrow :: rest, scopes, errors⟩ =
        functionBody grammar params ⟨rest, scopes, errors ++ reports⟩) :
      EntersBody (head ++ arrow :: rest)

theorem bind_of_done {first : Parser α} {next : α → Parser β} {state after : State} {value : α}
    (done : first state = .done value after) : (first >>= next) state = next value after := by
  show andThen first next state = next value after
  rw [andThen, done]

/-- Looking for the head, and parsing it, take the same way. -/
theorem StartsFunction.params {tokens : List Token} (starts : StartsFunction tokens) :
    ∃ head arrow rest params quiet trace, tokens = head ++ arrow :: rest ∧
      Enclosed .openParens .closeParens NameReading head params quiet ∧
      arrow.kind = .punctuation .arrow ∧
      Runs Parse.params false tokens (.done params) (arrow :: rest) trace := by
  have answer (ending : Ending Bool) {rest : List Token} {trace : Trace}
      (test : Runs (Parse.params >>= fun _ => isAt (.punctuation .arrow)) false tokens ending rest trace) :
      ending = .done true := by
    have here : StartsFunction (tokens.drop 0) := starts
    have found := (functionFollows_found false here).run ⟨[], [], 0⟩ [] rfl
    have tested : functionFollows 0 ⟨tokens, _, _⟩ = _ := (Runs.speculate test).run ⟨[], [], 0⟩ [] rfl
    rw [tested] at found
    cases ending with
    | done answer =>
      cases found
      rfl
    | failed error recovery => cases found
  cases (params_reads : Reads false Parse.params false tokens _) with
  | failed run => cases answer _ run.bind_failed
  | @done used rest params trace split run named _ names =>
    have points := answer _ (run.bind (.isAt _))
    cases rest with
    | nil => cases points
    | cons arrow rest =>
      exact ⟨used, arrow, rest, params, trace, trace, split, names, by simpa using points, run⟩

theorem StartsFunction.enters {tokens : List Token} (starts : StartsFunction tokens) :
    EntersBody tokens := by
  obtain ⟨head, arrow, rest, params, quiet, trace, rfl, names, points, run⟩ := starts.params
  obtain ⟨reports, duplicates, goes⟩ := reportDuplicates_goes_on [] params
  refine .intro names points duplicates fun grammar scopes errors => ?_
  calc function grammar ⟨head ++ arrow :: rest, scopes, errors⟩
    _ = (reportDuplicates [] params >>= fun _ => expect (.punctuation .arrow) >>= fun _ =>
          functionBody grammar params) ⟨arrow :: rest, scopes, errors⟩ :=
      bind_of_done (Blind.params.of_runs run scopes errors)
    _ = (expect (.punctuation .arrow) >>= fun _ => functionBody grammar params)
          ⟨arrow :: rest, scopes, errors ++ reports⟩ := bind_of_done (goes ..)
    _ = functionBody grammar params ⟨rest, scopes, errors ++ reports⟩ :=
      bind_of_done (Blind.of_runs (.eat _) (.expect points) ..)

/-- Looking for a function leaves tokens, scopes and errors as they are, in every state and however far
ahead it looks. It finds one exactly where the head of a function stands, which is names in parentheses
and an arrow; and then a function is parsed from there into its body without failing, also in other
scopes and after other errors. -/
theorem speculation_exact (skip : Nat) (state : State) :
    ∃ found, functionFollows skip state = .done found state ∧
      (found = true ↔ StartsFunction (state.rest.drop skip)) ∧
      (found = true → EntersBody (state.rest.drop skip)) := by
  obtain ⟨tokens, scopes, errors⟩ := state
  have blind := Blind.functionFollows skip
  by_cases starts : StartsFunction (tokens.drop skip)
  · exact ⟨true, blind.of_runs (functionFollows_found false starts) scopes errors,
      iff_of_true rfl starts, fun _ => starts.enters⟩
  · exact ⟨false, blind.of_runs (functionFollows_missing false starts) scopes errors,
      iff_of_false nofun starts, nofun⟩

/-- A head with line ends and a comma after the last name is found behind a name. -/
example :
    let token (kind : TokenKind) : Token := ⟨kind, ⟨0, 0⟩, ⟨1, 0, ⟨0⟩⟩, none⟩
    let state : State := ⟨[token (.identifier ⟨1⟩), token (.punctuation .openParens), token .eol,
      token (.identifier ⟨2⟩), token (.punctuation .comma), token .eol,
      token (.punctuation .closeParens), token (.punctuation .arrow)], ⟨[], [], 0⟩, []⟩
    functionFollows 1 state = .done true state ∧ functionFollows 9 state = .done false state :=
  ⟨rfl, rfl⟩

end Arcade.Proofs
