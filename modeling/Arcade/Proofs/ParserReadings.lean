import Arcade.Proofs.ParserRuns

/-! What a parser reads off the tokens in front of it, whichever they are. A reading relates the
tokens consumed and the tokens left to the value and the trace. That a parser has a reading also
says that it ends, with a value or with an error of syntax, and never in a fault, and that the
names it uses stand in the tokens. -/

namespace Arcade.Proofs
open Arcade.Parse Arcade.Parse.Parser

variable {α β : Type}

/-- Line ends, which many productions skip. -/
def Eols (tokens : List Token) : Prop := ∀ token ∈ tokens, token.kind = .eol

/-- A parser yields what `holds` says of the tokens used and left, the value and the trace, or it
fails. Unless it stands late in its production, it has used more tokens than it has reported
errors of syntax, or used none and asks for the line to be skipped, so that parsing always goes
on and every error costs a token. -/
inductive Reads (late : Bool) (parser : Parser α) (inClassBody : Bool) (tokens : List Token)
    (holds : List Token → List Token → α → Trace → Prop) : Prop where
  | done {used rest : List Token} {value : α} {trace : Trace} (split : tokens = used ++ rest)
      (run : Runs parser inClassBody tokens (.done value) rest trace)
      (named : trace.NamesFrom tokens) (spare : late = true ∨ used = [] ∨ trace.mistakes < used.length)
      (held : holds used rest value trace)
  | failed {error : Error} {recovery : Recovery} {rest : List Token} {trace : Trace}
      (run : Runs parser inClassBody tokens (.failed error recovery) rest trace)
      (named : trace.NamesFrom tokens) (wrong : error.isSyntax = true)
      (moves : late = true ∨ tokens = [] ∨ trace.mistakes + rest.length < tokens.length ∨
        recovery = .line ∧ rest = tokens)

/-- A parser at the end of a production, as one that goes on to answer its value. -/
theorem parser_bind_pure (parser : Parser α) : (parser >>= fun value => pure value) = parser := by
  funext state
  show andThen parser finish state = parser state
  rw [andThen]
  cases parser state <;> rfl

/-- What a turn of a loop adds to what has been read so far, which is `value`. -/
def Adds (grows : List Token → α → Trace → Prop) (value : α) (used : List Token) (trace : Trace) :
    Turn α → Prop
  | .stop result => used = [] ∧ result = value ∧ trace = []
  | .again next => used ≠ [] ∧ ∀ before trace', grows before value trace' →
      grows (before ++ used) next (trace' ++ trace)

namespace Reads

variable {late inClassBody : Bool} {tokens : List Token} {parser : Parser α} {first : Parser α}
  {next : α → Parser β} {holds : List Token → List Token → α → Trace → Prop}
  {after : List Token → List Token → β → Trace → Prop}

theorem mono {other : List Token → List Token → α → Trace → Prop}
    (reads : Reads late parser inClassBody tokens holds)
    (implies : ∀ used rest value trace, tokens = used ++ rest →
      holds used rest value trace → other used rest value trace) :
    Reads late parser inClassBody tokens other := by
  cases reads with
  | done split run named spare held => exact .done split run named spare (implies _ _ _ _ split held)
  | failed run named wrong moves => exact .failed run named wrong moves

theorem anywhere (reads : Reads false parser inClassBody tokens holds) :
    Reads late parser inClassBody tokens holds := by
  cases reads with
  | done split run named spare held =>
    exact .done split run named (.inr (spare.resolve_left nofun)) held
  | failed run named wrong moves => exact .failed run named wrong (.inr (moves.resolve_left nofun))

/-- A parser that is done has not reported more errors of syntax than it has used tokens. -/
private theorem mistakes_le {value : α} {used rest : List Token} {trace : Trace}
    (run : Runs parser inClassBody (used ++ rest) (.done value) rest trace) :
    trace.mistakes ≤ used.length := by
  have paid := run.paid
  rw [List.length_append] at paid
  omega

private theorem spare_append {used used' : List Token} {trace trace' : Trace}
    (spare : late = true ∨ used = [] ∨ trace.mistakes < used.length)
    (paid : trace.mistakes ≤ used.length)
    (spare' : (late || !used.isEmpty) = true ∨ used' = [] ∨ trace'.mistakes < used'.length)
    (paid' : trace'.mistakes ≤ used'.length) :
    late = true ∨ used ++ used' = [] ∨ (trace ++ trace').mistakes < (used ++ used').length := by
  rw [Trace.mistakes_append, List.length_append]
  cases used with
  | nil =>
    have none : trace.mistakes = 0 := Nat.le_zero.mp paid
    simpa [none] using spare'
  | cons token used =>
    obtain late | none | more := spare
    · exact .inl late
    · cases none
    · exact .inr (.inr (by omega))

theorem bind (head : Reads late first inClassBody tokens holds)
    (tail : ∀ used rest value trace, tokens = used ++ rest → holds used rest value trace →
      Reads (late || !used.isEmpty) (next value) inClassBody rest
        fun used' rest' value' trace' => after (used ++ used') rest' value' (trace ++ trace')) :
    Reads late (first >>= next) inClassBody tokens after := by
  cases head with
  | failed run named wrong moves => exact .failed run.bind_failed named wrong moves
  | @done used rest value trace split run named spare held =>
    subst split
    have within : rest ⊆ used ++ rest := List.subset_append_right used rest
    have paid := mistakes_le run
    cases tail used rest value trace rfl held with
    | @done used' rest' value' trace' split' run' named' spare' held' =>
      subst split'
      exact .done (List.append_assoc ..).symm (run.bind run')
        (Trace.namesFrom_append.mpr ⟨named, named'.mono within⟩)
        (spare_append spare paid spare' (mistakes_le run')) held'
    | @failed error recovery left trace' run' named' wrong moves =>
      refine .failed (run.bind run') (Trace.namesFrom_append.mpr ⟨named, named'.mono within⟩)
        wrong ?_
      have paid' := run'.paid
      rw [Trace.mistakes_append, List.length_append]
      cases used with
      | nil =>
        have none : trace.mistakes = 0 := Nat.le_zero.mp paid
        simpa [none] using moves
      | cons token used =>
        obtain late | none | more := spare
        · exact .inl late
        · cases none
        · exact .inr (.inr (.inl (by omega)))

/-- Goes on after a part that is known to succeed. -/
theorem after_run (used : List Token) {rest : List Token} {value : α} {trace : Trace}
    (run : Runs first inClassBody (used ++ rest) (.done value) rest trace)
    (named : trace.NamesFrom (used ++ rest))
    (spare : late = true ∨ used = [] ∨ trace.mistakes < used.length)
    (tail : Reads (late || !used.isEmpty) (next value) inClassBody rest
      fun used' rest' value' trace' => after (used ++ used') rest' value' (trace ++ trace')) :
    Reads late (first >>= next) inClassBody (used ++ rest) after := by
  have head : Reads late first inClassBody (used ++ rest) fun used' rest' value' trace' =>
      used' = used ∧ rest' = rest ∧ value' = value ∧ trace' = trace :=
    .done rfl run named spare ⟨rfl, rfl, rfl, rfl⟩
  refine head.bind ?_
  rintro _ _ _ _ - ⟨rfl, rfl, rfl, rfl⟩
  exact tail

/-- Goes on after a part that only consumes tokens. -/
theorem after_quiet (used : List Token) {rest : List Token} {value : α}
    (run : Runs first inClassBody (used ++ rest) (.done value) rest [])
    (tail : Reads (late || !used.isEmpty) (next value) inClassBody rest
      fun used' => after (used ++ used')) :
    Reads late (first >>= next) inClassBody (used ++ rest) after := by
  have spare : used = [] ∨ 0 < used.length := by
    rw [List.length_pos_iff]
    exact Decidable.em (used = [])
  exact after_run used run (Trace.namesFrom_nil _) (.inr spare) (by simpa using tail)

theorem pure {value : α} (held : holds [] tokens value []) :
    Reads late (pure value) inClassBody tokens holds :=
  .done rfl (.pure value) (Trace.namesFrom_nil _) (.inr (.inl rfl)) held

/-- An error at the current token, which is skipped with its line. -/
theorem fail_line {error : Error} (wrong : error.isSyntax = true) :
    Reads late (fail error .line) inClassBody tokens holds :=
  .failed (.fail ..) (Trace.namesFrom_nil _) wrong (.inr (.inr (.inr ⟨rfl, rfl⟩)))

theorem fail_at_end : Reads late (fail .unexpectedEnd .keep) inClassBody [] holds :=
  .failed (.fail ..) (Trace.namesFrom_nil _) rfl (.inr (.inl rfl))

theorem peek_bind {next : Option Token → Parser β}
    (tail : Reads late (next tokens.head?) inClassBody tokens after) :
    Reads late (peek >>= next) inClassBody tokens after :=
  after_quiet [] .peek (by simpa using tail)

theorem isAt_bind {kind : TokenKind} {next : Bool → Parser β}
    (tail : Reads late (next (tokens.head?.any (·.kind = kind))) inClassBody tokens after) :
    Reads late (isAt kind >>= next) inClassBody tokens after :=
  after_quiet [] (.isAt kind) (by simpa using tail)

theorem step_bind {token : Token} {rest : List Token} {next : Unit → Parser β}
    (tail : Reads true (next ()) inClassBody rest fun used => after (token :: used)) :
    Reads late (step >>= next) inClassBody (token :: rest) after :=
  after_quiet [token] .step (by simpa using tail)

theorem stepIf_bind {kind : TokenKind} {next : Bool → Parser β}
    (stays : tokens.head?.any (·.kind = kind) = false →
      Reads late (next false) inClassBody tokens after)
    (steps : ∀ token rest, tokens = token :: rest → token.kind = kind →
      Reads true (next true) inClassBody rest fun used => after (token :: used)) :
    Reads late (stepIf kind >>= next) inClassBody tokens after := by
  cases here : tokens.head?.any (·.kind = kind) with
  | false => exact after_quiet [] (.stepIf_false here) (by simpa using stays here)
  | true =>
    cases tokens with
    | nil => cases here
    | cons token rest =>
      have same : token.kind = kind := by simpa using here
      exact after_quiet [token] (.stepIf_true same)
        (by simpa using steps token rest rfl same)

theorem skipEols_bind {next : Unit → Parser β}
    (tail : ∀ blank rest, tokens = blank ++ rest → Eols blank →
      rest.head?.any (·.kind = .eol) = false →
      Reads (late || !blank.isEmpty) (next ()) inClassBody rest fun used => after (blank ++ used)) :
    Reads late (skipEols >>= next) inClassBody tokens after := by
  have split : tokens = tokens.takeWhile (·.kind = .eol) ++ tokens.dropWhile (·.kind = .eol) :=
    List.takeWhile_append_dropWhile.symm
  have blank : Eols (tokens.takeWhile (·.kind = .eol)) := fun token member => by
    simpa using List.all_eq_true.mp List.all_takeWhile token member
  have stops : (tokens.dropWhile (·.kind = .eol)).head?.any (·.kind = .eol) = false := by
    have head := List.head?_dropWhile_not (fun token : Token => decide (token.kind = .eol)) tokens
    cases left : (tokens.dropWhile (·.kind = .eol)).head? with
    | none => rfl
    | some token => simpa [left] using head
  have run : Runs Parser.skipEols inClassBody tokens (.done ())
      (tokens.dropWhile (·.kind = .eol)) [] := .skipEols
  have goesOn := tail _ _ split blank stops
  clear tail
  generalize tokens.takeWhile (·.kind = .eol) = blank at *
  generalize tokens.dropWhile (·.kind = .eol) = rest at *
  subst split
  exact after_quiet _ run (by simpa using goesOn)

/-! ### Expected tokens -/

theorem expect_bind {kind : TokenKind} {next : Position → Parser β}
    (tail : ∀ token rest, tokens = token :: rest → token.kind = kind →
      Reads true (next token.pos) inClassBody rest fun used => after (token :: used)) :
    Reads late (expect kind >>= next) inClassBody tokens after := by
  cases tokens with
  | nil => exact .failed (Runs.bind_failed .eat_nil) (Trace.namesFrom_nil _) rfl (.inr (.inl rfl))
  | cons token rest =>
    by_cases same : token.kind = kind
    · exact after_quiet [token] (.expect same) (by simpa using tail token rest rfl same)
    · exact .failed (Runs.bind_failed (.eat_error (if_neg same))) (Trace.namesFrom_nil _) rfl
        (.inr (.inr (.inr ⟨rfl, rfl⟩)))

theorem identifier_bind {next : Symbol × Position → Parser β}
    (tail : ∀ token rest name, tokens = token :: rest → token.kind = .identifier name →
      Reads true (next (name, token.pos)) inClassBody rest fun used => after (token :: used)) :
    Reads late (identifier >>= next) inClassBody tokens after := by
  cases tokens with
  | nil => exact .failed (Runs.bind_failed .eat_nil) (Trace.namesFrom_nil _) rfl (.inr (.inl rfl))
  | cons token rest =>
    cases kind : token.kind with
    | identifier name =>
      exact after_quiet [token] (.identifier kind) (by simpa using tail token rest name rfl kind)
    | _ =>
      have refused : Runs Parser.identifier inClassBody (token :: rest)
          (.failed (.unexpected token (.words "identifier")) .line) (token :: rest) [] :=
        .eat_error (by simp [kind])
      exact .failed refused.bind_failed (Trace.namesFrom_nil _) rfl (.inr (.inr (.inr ⟨rfl, rfl⟩)))

/-- The `end` of a block stands late in its production, which starts with another token. -/
theorem expectEnd_bind {next : Unit → Parser β}
    (tail : ∀ token rest, tokens = token :: rest → token.kind = .keyword .endWord →
      Reads true (next ()) inClassBody rest fun used => after (token :: used)) :
    Reads true (expectEnd >>= next) inClassBody tokens after := by
  cases tokens with
  | nil => exact .failed (Runs.bind_failed .eat_nil) (Trace.namesFrom_nil _) rfl (.inl rfl)
  | cons token rest =>
    by_cases same : token.kind = .keyword .endWord
    · exact after_quiet [token] (.expectEnd same) (by simpa using tail token rest rfl same)
    · exact .failed (Runs.bind_failed (.eat_error (if_neg same))) (Trace.namesFrom_nil _) rfl (.inl rfl)

/-! ### Scopes and errors -/

theorem action_bind {action : Action} {value : α}
    (run : Runs first inClassBody tokens (.done value) tokens [action])
    (nameless : action.used? = none)
    (tail : Reads late (next value) inClassBody tokens
      fun used rest value trace => after used rest value (action :: trace)) :
    Reads late (first >>= next) inClassBody tokens after :=
  after_run [] run
    (Trace.namesFrom_cons.mpr ⟨fun name used => by simp [nameless] at used, Trace.namesFrom_nil _⟩)
    (.inr (.inl rfl)) (by simpa using tail)

/-- A name is used right where it stands. -/
theorem use_bind {token : Token} {rest : List Token} {name : Symbol} {action : Action}
    {value : α} {use : Parser Unit} {goOn : Unit → Parser β}
    (run : Runs first inClassBody (token :: rest) (.done value) rest [])
    (shape : next value = (use >>= goOn))
    (uses : Runs use inClassBody rest (.done ()) rest [action])
    (same : token.kind = .identifier name) (used : action.used? = some name)
    (tail : Reads true (goOn ()) inClassBody rest
      fun used rest value trace => after (token :: used) rest value (action :: trace)) :
    Reads late (first >>= next) inClassBody (token :: rest) after := by
  have whole {ending : Ending β} {left : List Token} {trace : Trace}
      (run' : Runs (goOn ()) inClassBody rest ending left trace) :
      Runs (first >>= next) inClassBody (token :: rest) ending left (action :: trace) :=
    run.bind (by rw [shape]; exact uses.bind run')
  have there {trace : Trace} (named : trace.NamesFrom rest) :
      Trace.NamesFrom (action :: trace) (token :: rest) :=
    Trace.namesFrom_cons.mpr ⟨fun other mention => ⟨token, List.mem_cons_self, by simp_all⟩,
      named.mono (List.subset_cons_self token rest)⟩
  -- The use itself is no error of syntax, so the token can pay for one.
  have spare (trace : Trace) : Trace.mistakes (action :: trace) = trace.mistakes := by
    have paid := uses.paid
    rw [← List.singleton_append, Trace.mistakes_append]
    omega
  cases tail with
  | @done used _ _ trace split run' named _ held =>
    subst split
    have paid := mistakes_le run'
    refine .done rfl (whole run') (there named) (.inr (.inr ?_)) held
    rw [spare, List.length_cons]
    omega
  | @failed _ _ left trace run' named wrong _ =>
    have paid := run'.paid
    refine .failed (whole run') (there named) wrong (.inr (.inr (.inl ?_)))
    rw [spare, List.length_cons]
    omega

/-- A name that is used as soon as it is read. -/
theorem named_bind {next : Symbol × Position → Parser β} {use : Symbol → Position → Parser Unit}
    {goOn : Symbol → Position → Unit → Parser β} {action : Symbol → Position → Action}
    (uses : ∀ name pos rest,
      Runs (use name pos) inClassBody rest (.done ()) rest [action name pos])
    (used : ∀ name pos, (action name pos).used? = some name)
    (shape : ∀ name pos, next (name, pos) = (use name pos >>= goOn name pos))
    (tail : ∀ token rest name, tokens = token :: rest → token.kind = .identifier name →
      Reads true (goOn name token.pos ()) inClassBody rest fun used rest value trace =>
        after (token :: used) rest value (action name token.pos :: trace)) :
    Reads late (Parser.identifier >>= next) inClassBody tokens after := by
  by_cases named : ∃ token rest name, tokens = token :: rest ∧ token.kind = .identifier name
  · obtain ⟨token, rest, name, rfl, same⟩ := named
    exact use_bind (.identifier same) (shape _ _) (uses ..) same (used ..) (tail _ _ _ rfl same)
  · exact identifier_bind fun token rest name split same =>
      absurd ⟨token, rest, name, split, same⟩ named

theorem inScope_bind {kind : ScopeKind} {body : Parser α}
    (inside : Reads true body (decide (kind = .classBody)) tokens holds)
    (tail : ∀ used rest value trace, tokens = used ++ rest → holds used rest value trace →
      Reads true (next value) inClassBody rest fun used' rest' value' trace' =>
        after (used ++ used') rest' value' (.enter kind :: (trace ++ .leave :: trace'))) :
    Reads true (inScope kind body >>= next) inClassBody tokens after := by
  have enclosed {trace : Trace} (named : trace.NamesFrom tokens) :
      Trace.NamesFrom (.enter kind :: (trace ++ [.leave])) tokens :=
    Trace.namesFrom_cons.mpr ⟨nofun, Trace.namesFrom_append.mpr
      ⟨named, Trace.namesFrom_cons.mpr ⟨nofun, Trace.namesFrom_nil _⟩⟩⟩
  cases inside with
  | failed run named wrong _ =>
    exact .failed (Runs.bind_failed run.inScope) (enclosed named) wrong (.inl rfl)
  | done split run named _ held =>
    subst split
    exact after_run _ run.inScope (enclosed named) (.inl rfl) (by simpa using tail _ _ _ _ rfl held)

theorem scopes_bind {inside outside : Parser α}
    (tail : Reads late (if inClassBody = true then inside else outside) inClassBody tokens holds) :
    Reads late (scopes >>= fun scopes => if scopes.kind = .classBody then inside else outside)
      inClassBody tokens holds := by
  cases tail with
  | done split run named spare held => exact .done split run.scopes_kind named spare held
  | failed run named wrong moves => exact .failed run.scopes_kind named wrong moves

/-- A line that cannot be parsed is passed over, with one error of syntax the more. -/
theorem recovering_bind {fallback : α} {token : Token} {rest : List Token}
    (reads : Reads false parser inClassBody (token :: rest) holds)
    (inside : token.kind ≠ .eol) (goesOn : token.kind.isBlockTerminator = false)
    (tail : ∀ used rest' value trace, token :: rest = used ++ rest' →
      (holds used rest' value trace ∨ used ≠ [] ∧ value = fallback ∧ ∃ before error,
        trace = before ++ [.report error] ∧ error.isSyntax = true) →
      Reads true (next value) inClassBody rest' fun used' rest'' value' trace' =>
        after (used ++ used') rest'' value' (trace ++ trace')) :
    Reads true (recovering fallback parser >>= next) inClassBody (token :: rest) after := by
  cases reads with
  | done split run named _ held =>
    exact bind (.done split (Runs.recovering_done run) named (.inl rfl) (.inl held)) tail
  | @failed error recovery left trace run named wrong moves =>
    have kept := (Runs.synchronize_suffix recovery left).length_le
    have paid := run.paid
    have spare : trace.mistakes + (synchronize recovery left).length < (token :: rest).length := by
      obtain moves | moves | moves | ⟨rfl, rfl⟩ := moves
      · cases moves
      · cases moves
      · omega
      · have skips : synchronize .line (token :: rest) = synchronize .line rest := by
          simp [synchronize, inside, goesOn]
        have fewer := (Runs.synchronize_suffix .line rest).length_le
        rw [skips]
        rw [List.length_cons] at paid ⊢
        omega
    have skipped : Runs (recovering fallback parser) _ _ _ _ _ := Runs.recovering_failed run spare
    obtain ⟨used, split⟩ := skipped.suffix
    refine bind (.done split.symm skipped (Trace.namesFrom_append.mpr
      ⟨named, Trace.namesFrom_cons.mpr ⟨nofun, Trace.namesFrom_nil _⟩⟩) (.inl rfl)
      (.inr ⟨?_, rfl, trace, error, rfl, wrong⟩)) tail
    rintro rfl
    rw [← split, List.nil_append] at spare
    omega

/-! ### Loops -/

/-- `holds value` is what the loop reads once it has come to `value`. -/
theorem loop {turn : α → Parser (Turn α)} {limit : Nat}
    (holds : α → List Token → List Token → α → Trace → Prop)
    (step : ∀ value tokens, tokens.length ≤ limit →
      Reads late (turn value) inClassBody tokens fun used rest next trace => match next with
        | .stop result => holds value used rest result trace
        | .again next => used ≠ [] ∧ ∀ used' rest' result trace', rest = used' ++ rest' →
            holds next used' rest' result trace' →
            holds value (used ++ used') rest' result (trace ++ trace'))
    (value : α) (within : tokens.length ≤ limit) :
    Reads late (loop turn value) inClassBody tokens (holds value) := by
  induction size : tokens.length using Nat.strongRecOn generalizing tokens value with
  | ind size ih =>
    cases step value tokens within with
    | failed run named wrong moves => exact .failed run.loop_failed named wrong moves
    | @done used rest next trace split run named spare held =>
      cases next with
      | stop result => exact .done split run.loop_stop named spare held
      | again next =>
        obtain ⟨progress, joined⟩ := held
        subst split
        rw [List.length_append] at within size
        have solid := List.length_pos_iff.mpr progress
        have shorter : rest.length < (used ++ rest).length := by
          rw [List.length_append]
          omega
        have inside : rest ⊆ used ++ rest := List.subset_append_right used rest
        cases ih rest.length (by omega) next (by omega) rfl with
        | failed run' named' wrong _ =>
          have paid := run'.paid
          refine .failed (run.loop_again shorter run')
            (Trace.namesFrom_append.mpr ⟨named, named'.mono inside⟩) wrong ?_
          rw [Trace.mistakes_append, List.length_append]
          obtain late | none | more := spare
          · exact .inl late
          · exact absurd none progress
          · exact .inr (.inr (.inl (by omega)))
        | done split' run' named' spare' held' =>
          have joinedHeld := joined _ _ _ _ split' held'
          subst split'
          refine .done (List.append_assoc ..).symm (run.loop_again shorter run')
            (Trace.namesFrom_append.mpr ⟨named, named'.mono inside⟩)
            (spare_append spare (mistakes_le run) ?_ (mistakes_le run')) joinedHeld
          exact spare'.imp_left fun late => by simp [late]

/-- A loop whose turns each add to what has been read so far. -/
theorem grow {first : Parser α} {turn : α → Parser (Turn α)} {limit : Nat}
    {grows : List Token → α → Trace → Prop}
    (head : Reads false first inClassBody tokens fun used _ value trace => grows used value trace)
    (step : ∀ value tokens, tokens.length ≤ limit →
      Reads false (turn value) inClassBody tokens fun used _ next trace =>
        Adds grows value used trace next)
    (within : tokens.length ≤ limit) :
    Reads false (first >>= Parser.loop turn) inClassBody tokens fun used _ value trace =>
      grows used value trace := by
  refine head.bind ?_
  intro used rest value trace split held
  subst split
  rw [List.length_append] at within
  refine (loop (fun value used' _ result trace' => ∀ used trace,
    grows used value trace → grows (used ++ used') result (trace ++ trace'))
    (fun value tokens within => ?_) value (Nat.le_of_add_left_le within)).anywhere.mono
    fun used' _ result trace' _ joined => joined used trace held
  refine (step value tokens within).mono ?_
  intro used rest next trace _ held
  cases next with
  | stop result =>
    obtain ⟨rfl, rfl, rfl⟩ := held
    simp
  | again next =>
    refine ⟨held.1, fun used' rest' result trace' _ joined used'' trace'' before => ?_⟩
    have := joined _ _ (held.2 _ _ before)
    simpa using this

end Reads
end Arcade.Proofs
