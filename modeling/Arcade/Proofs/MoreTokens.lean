import Arcade.Proofs.ParserRuns

/-! Parsers on tokens that more tokens follow. Until a parser looks past the end of its tokens, it
does the same on the longer list. What it does after that says nothing about the longer list, but on
the shorter one it has no tokens left or is about to fail, and so are the parsers that it is a part
of. A fault says nothing either, so that the longer list may take a larger grammar. -/

namespace Arcade.Proofs
open Arcade.Parse Arcade.Parse.Parser

variable {α β : Type} {more tokens : List Token} {spare between : List Token → Prop}

/-- No token ends a block, so that skipping lines comes to the end of the tokens. -/
def EndFree (tokens : List Token) : Prop := ∀ token ∈ tokens, token.kind.isBlockTerminator = false

theorem EndFree.suffix {rest : List Token} (free : EndFree tokens) (suffix : rest <:+ tokens) : EndFree rest :=
  fun token member => free token (suffix.mem member)

theorem endFree_nil : EndFree [] := nofun

theorem bind_done {parser : Parser α} {next : α → Parser β} {state after : State} {result : β}
    (done : (parser >>= next) state = .done result after) :
    ∃ value middle, parser state = .done value middle ∧ next value middle = .done result after := by
  change andThen parser next state = _ at done
  unfold andThen at done
  split at done
  next value middle here => exact ⟨value, middle, here, done⟩
  next => cases done
  next => cases done

/-- The state of an outcome satisfies what it must. -/
def Lands (done failed : State → Prop) : Outcome α → Prop
  | .done _ state => done state
  | .failed _ _ state => failed state
  | .fault _ => True

theorem Lands.mono {done failed done' failed' : State → Prop} {outcome : Outcome α}
    (lands : Lands done failed outcome) (whenDone : ∀ state, done state → done' state)
    (whenFailed : ∀ state, failed state → failed' state) : Lands done' failed' outcome := by
  cases outcome with
  | done value state => exact whenDone state lands
  | failed error recovery state => exact whenFailed state lands
  | fault => trivial

theorem Lands.bind {parser : Parser α} {next : α → Parser β} {state : State}
    {between done failed : State → Prop} (head : Lands between failed (parser state))
    (tail : ∀ value state, between state → Lands done failed (next value state)) :
    Lands done failed ((parser >>= next) state) := by
  show Lands done failed (andThen parser next state)
  unfold andThen
  generalize parser state = outcome at head ⊢
  cases outcome with
  | done value state => exact tail value state head
  | failed error recovery state => exact head
  | fault fault => trivial

/-- The outcome of a parser that has looked past the end of its tokens. -/
abbrev Spent (spare : List Token → Prop) : Outcome α → Prop :=
  Lands (fun state => spare state.rest) (fun state => EndFree state.rest)

theorem expect_lands (kind : TokenKind) (tokens : List Token) (scopes : Scopes) (errors : List Error) :
    Lands (fun state => ∃ token, token.kind = kind ∧ tokens = token :: state.rest)
      (fun state => state.rest = tokens) (expect kind ⟨tokens, scopes, errors⟩) := by
  cases tokens with
  | nil => rfl
  | cons token rest =>
    simp only [expect, eat, Bind.bind, andThen, peek, List.head?_cons]
    by_cases same : token.kind = kind
    · rw [if_pos same]
      exact ⟨token, same, rfl⟩
    · rw [if_neg same]
      rfl

/-- What a parser may come to from the tokens. -/
structure Reached (tokens : List Token) (state : State) : Prop where
  suffix : state.rest <:+ tokens
  nested : ∃ nest : Nest, nest.flatten = state.scopes

def followed (more : List Token) : Outcome α → Outcome α
  | .done value state => .done value { state with rest := state.rest ++ more }
  | .failed error recovery state => .failed error recovery { state with rest := state.rest ++ more }
  | .fault fault => .fault fault

structure Keeps (more tokens : List Token) (spare : List Token → Prop) (first second : Outcome α) :
    Prop where
  within : Lands (Reached tokens) (Reached tokens) first
  same : Spent spare first ∨ second = followed more first ∨ ∃ fault, second = .fault fault

/-- The first parser on the tokens and the second one with more of them behind. -/
def KeepsOn (more : List Token) (parser other : Parser α) (spare : List Token → Prop)
    (tokens : List Token) : Prop :=
  ∀ (nest : Nest) errors, Keeps more tokens spare (parser ⟨tokens, nest.flatten, errors⟩)
    (other ⟨tokens ++ more, nest.flatten, errors⟩)

/-- There may be nothing left. -/
def Local (more : List Token) (parser other : Parser α) : Prop :=
  ∀ tokens, KeepsOn more parser other (· = []) tokens

/-- A parser that is done has not looked past the end of its tokens. -/
def Sealed (more : List Token) (parser other : Parser α) : Prop :=
  ∀ tokens, KeepsOn more parser other (fun _ => False) tokens

/-- It is not done either where there are no tokens. -/
structure Closes (more : List Token) (parser other : Parser α) : Prop where
  isSealed : Sealed more parser other
  stuck : ∀ (nest : Nest) errors, Spent (fun _ => False) (parser ⟨[], nest.flatten, errors⟩)

/-- What may be left stays so whatever is consumed of it. -/
structure Final (spare : List Token → Prop) : Prop where
  free : ∀ {tokens}, spare tokens → EndFree tokens
  kept : ∀ {tokens rest}, rest <:+ tokens → spare tokens → spare rest

theorem final_endFree : Final EndFree := ⟨id, fun suffix free => free.suffix suffix⟩

theorem final_nil (condition : Prop) : Final (fun rest => rest = [] ∧ condition) where
  free := fun ⟨nothing, _⟩ => nothing ▸ endFree_nil
  kept := by
    rintro _ rest suffix ⟨rfl, held⟩
    exact ⟨List.suffix_nil.mp suffix, held⟩

theorem final_nothing : Final (· = []) where
  free nothing := nothing ▸ endFree_nil
  kept := by
    rintro _ rest suffix rfl
    exact List.suffix_nil.mp suffix

section
variable {parser other : Parser α} {next next' : α → Parser β}

namespace KeepsOn

theorem mono {spare' : List Token → Prop} (kept : KeepsOn more parser other spare tokens)
    (implies : ∀ rest, spare rest → spare' rest) : KeepsOn more parser other spare' tokens :=
  fun nest errors => ⟨(kept nest errors).within, (kept nest errors).same.imp_left fun ends =>
    ends.mono (fun state => implies state.rest) fun _ => id⟩

/-- Whatever the parser does where it may stop, it may stop there afterwards. -/
theorem ends (kept : KeepsOn more parser other spare tokens) (final : Final between)
    (spent : between tokens) (nest : Nest) (errors : List Error) :
    Spent between (parser ⟨tokens, nest.flatten, errors⟩) :=
  (kept nest errors).within.mono (fun _ within => final.kept within.suffix spent)
    fun _ within => final.free (final.kept within.suffix spent)

theorem bind_spent (head : KeepsOn more parser other between tokens)
    (tail : ∀ value rest, rest <:+ tokens → KeepsOn more (next value) (next' value) spare rest)
    (ends : ∀ value rest, rest <:+ tokens → between rest → ∀ (nest : Nest) errors,
      Spent spare (next value ⟨rest, nest.flatten, errors⟩)) :
    KeepsOn more (parser >>= next) (other >>= next') spare tokens := by
  intro nest errors
  show Keeps more tokens spare (andThen parser next _) (andThen other next' _)
  obtain ⟨within, same⟩ := head nest errors
  unfold andThen
  generalize parser ⟨tokens, nest.flatten, errors⟩ = outcome at within same ⊢
  generalize other ⟨tokens ++ more, nest.flatten, errors⟩ = outcome' at same ⊢
  cases outcome with
  | fault fault => exact ⟨trivial, .inl trivial⟩
  | failed error recovery state =>
    obtain free | rfl | ⟨fault, rfl⟩ := same
    · exact ⟨within, .inl free⟩
    · exact ⟨within, .inr (.inl rfl)⟩
    · exact ⟨within, .inr (.inr ⟨fault, rfl⟩)⟩
  | done value state =>
    obtain ⟨rest, scopes, errors⟩ := state
    obtain ⟨suffix, inner, rfl⟩ := within
    have goesOn := tail value rest suffix inner errors
    have shorter : Lands (Reached tokens) (Reached tokens) (next value ⟨rest, inner.flatten, errors⟩) :=
      goesOn.within.mono (fun _ within => ⟨within.suffix.trans suffix, within.nested⟩)
        fun _ within => ⟨within.suffix.trans suffix, within.nested⟩
    -- What the other parser did is known only if this one has not looked past the end yet.
    obtain spent | rfl | ⟨fault, rfl⟩ := same
    · exact ⟨shorter, .inl (ends value rest suffix spent inner errors)⟩
    · exact ⟨shorter, goesOn.same⟩
    · exact ⟨shorter, .inr (.inr ⟨fault, rfl⟩)⟩

theorem bind (final : Final spare) (head : KeepsOn more parser other spare tokens)
    (tail : ∀ value rest, rest <:+ tokens → KeepsOn more (next value) (next' value) spare rest) :
    KeepsOn more (parser >>= next) (other >>= next') spare tokens :=
  bind_spent head tail fun value rest suffix => (tail value rest suffix).ends final

theorem peek_cons {token : Token} {rest : List Token} {next next' : Option Token → Parser β}
    (tail : KeepsOn more (next (some token)) (next' (some token)) spare (token :: rest)) :
    KeepsOn more (peek >>= next) (peek >>= next') spare (token :: rest) := tail

theorem step_cons {token : Token} {rest : List Token} {next next' : Unit → Parser β}
    (tail : KeepsOn more (next ()) (next' ()) spare rest) :
    KeepsOn more (step >>= next) (step >>= next') spare (token :: rest) := by
  intro nest errors
  obtain ⟨within, same⟩ := tail nest errors
  have suffix {left : List Token} (shorter : left <:+ rest) : left <:+ token :: rest :=
    shorter.trans (List.suffix_cons token rest)
  exact ⟨within.mono (fun _ within => ⟨suffix within.suffix, within.nested⟩)
    fun _ within => ⟨suffix within.suffix, within.nested⟩, same⟩

/-- Two runs that do the same, one of them with more tokens left. -/
theorem of_runs {ending : Ending α} {rest : List Token} {trace : Trace}
    (first : ∀ inClassBody, Runs parser inClassBody tokens ending rest trace)
    (second : ∀ inClassBody, Runs other inClassBody (tokens ++ more) ending (rest ++ more) trace) :
    KeepsOn more parser other spare tokens := by
  intro nest errors
  rw [(first _).run nest errors rfl, (second _).run nest errors rfl]
  have within : Reached tokens ⟨rest, (trace.apply nest).flatten, errors ++ trace.errors nest⟩ :=
    ⟨(first true).suffix, _, rfl⟩
  cases ending with
  | done value => exact ⟨within, .inr (.inl rfl)⟩
  | failed error recovery => exact ⟨within, .inr (.inl rfl)⟩

theorem of_run {ending : Ending α} {rest : List Token} {trace : Trace}
    (first : ∀ inClassBody, Runs parser inClassBody tokens ending rest trace)
    (ends : Spent spare (ending.outcome ⟨rest, ⟨[], [], 0⟩, []⟩)) :
    KeepsOn more parser other spare tokens := by
  intro nest errors
  rw [(first _).run nest errors rfl]
  have within : Reached tokens ⟨rest, (trace.apply nest).flatten, errors ++ trace.errors nest⟩ :=
    ⟨(first true).suffix, _, rfl⟩
  cases ending with
  | done value => exact ⟨within, .inl ends⟩
  | failed error recovery => exact ⟨within, .inl ends⟩

/-! ### Scopes and recovery -/

theorem leaveScope_cases (nest : Nest) (errors : List Error) :
    (∃ outer : Nest, ∀ rest (outcome : State → Outcome α),
      leaveScope ⟨rest, nest.flatten, errors⟩ outcome = outcome ⟨rest, outer.flatten, errors⟩) ∨
    ∃ fault, ∀ rest (outcome : State → Outcome α),
      leaveScope ⟨rest, nest.flatten, errors⟩ outcome = .fault fault := by
  cases above : nest.inner with
  | nil =>
    have root : nest.flatten.leave = .error .rootScopeEnded := by
      simp [Scopes.leave, Nest.flatten, Nest.flatScopes, above]
    exact .inr ⟨.rootScopeEnded, fun _ _ => by rw [leaveScope, root]⟩
  | cons layer outer =>
    have closed := nest.flatten_leave layer outer above
    exact .inl ⟨nest.leave, fun _ _ => by rw [leaveScope, closed]⟩

theorem inScope {kind : ScopeKind} (body : KeepsOn more parser other spare tokens) :
    KeepsOn more (inScope kind parser) (inScope kind other) spare tokens := by
  intro nest errors
  obtain ⟨within, same⟩ := body (nest.enter kind) errors
  simp only [Parser.inScope, Nest.flatten_enter]
  generalize parser ⟨tokens, (nest.enter kind).flatten, errors⟩ = outcome at within same ⊢
  generalize other ⟨tokens ++ more, (nest.enter kind).flatten, errors⟩ = outcome' at same ⊢
  cases outcome with
  | fault fault => exact ⟨trivial, .inl trivial⟩
  | done _ state | failed _ _ state =>
    obtain ⟨rest, scopes, errors⟩ := state
    obtain ⟨suffix, inner, rfl⟩ := within
    dsimp only
    obtain ⟨outer, closed⟩ | ⟨fault, closed⟩ := leaveScope_cases inner errors
    · rw [closed]
      refine ⟨⟨suffix, outer, rfl⟩, same.imp id (Or.imp ?_ ?_)⟩
      · rintro rfl
        exact closed _ _
      · rintro ⟨fault, rfl⟩
        exact ⟨fault, rfl⟩
    · rw [closed]
      exact ⟨trivial, .inl trivial⟩

/-- What is skipped after an error does not depend on the tokens behind, unless all is skipped. -/
theorem synchronize_append (recovery : Recovery) (rest more : List Token) :
    synchronize recovery rest = [] ∨
      synchronize recovery (rest ++ more) = synchronize recovery rest ++ more := by
  cases recovery with
  | keep => exact .inr rfl
  | skipOne =>
    cases rest with
    | nil => exact .inl rfl
    | cons token rest => exact .inr rfl
  | line =>
    induction rest with
    | nil => exact .inl rfl
    | cons token rest ih =>
      simp only [synchronize, List.cons_append, List.dropWhile_cons] at ih ⊢
      split
      · exact ih
      · exact .inr rfl

theorem recovering {fallback : α} (line : KeepsOn more parser other EndFree tokens) :
    KeepsOn more (recovering fallback parser) (recovering fallback other) EndFree tokens := by
  intro nest errors
  obtain ⟨within, same⟩ := line nest errors
  simp only [Parser.recovering]
  generalize parser ⟨tokens, nest.flatten, errors⟩ = outcome at within same ⊢
  generalize other ⟨tokens ++ more, nest.flatten, errors⟩ = outcome' at same ⊢
  cases outcome with
  | fault fault => exact ⟨trivial, .inl trivial⟩
  | done value state =>
    obtain free | rfl | ⟨fault, rfl⟩ := same
    · exact ⟨within, .inl free⟩
    · exact ⟨within, .inr (.inl rfl)⟩
    · exact ⟨within, .inr (.inr ⟨fault, rfl⟩)⟩
  | failed error recovery state =>
    obtain ⟨rest, scopes, errors⟩ := state
    have skipped : synchronize recovery rest <:+ rest := Runs.synchronize_suffix recovery rest
    refine ⟨⟨skipped.trans within.suffix, within.nested⟩, ?_⟩
    obtain free | rfl | ⟨fault, rfl⟩ := same
    · exact .inl (free.suffix skipped)
    · obtain nothing | apart := synchronize_append recovery rest more
      · exact .inl (by simpa only [Lands, nothing] using endFree_nil)
      · exact .inr (.inl (by simp only [followed, apart]))
    · exact .inr (.inr ⟨fault, rfl⟩)

end KeepsOn

/-! ### Parsers that look at tokens -/

namespace Sealed

theorem anywhere (kept : Sealed more parser other) : KeepsOn more parser other spare tokens :=
  (kept tokens).mono fun _ => False.elim

theorem isLocal (kept : Sealed more parser other) : Local more parser other :=
  fun _ => kept.anywhere

theorem bind (head : Sealed more parser other) (tail : ∀ value, Sealed more (next value) (next' value)) :
    Sealed more (parser >>= next) (other >>= next') :=
  fun _ => (head _).bind_spent (fun value rest _ => tail value rest) fun _ _ _ => False.elim

theorem pure (value : α) : Sealed more (pure value) (pure value) :=
  fun _ => .of_runs (fun _ => .pure value) fun _ => .pure value

theorem fail (error : Error) (recovery : Recovery) :
    Sealed more (fail error recovery : Parser α) (fail error recovery) :=
  fun _ => .of_runs (fun _ => .fail error recovery) fun _ => .fail error recovery

theorem ofExcept (result : Except Fault α) : Sealed more (ofExcept result) (ofExcept result) := by
  cases result with
  | ok value => exact pure value
  | error fault => exact fun _ _ _ => ⟨trivial, .inl trivial⟩

theorem action {parser : Parser Unit} {trace : Trace}
    (run : ∀ inClassBody tokens, Runs parser inClassBody tokens (.done ()) tokens trace) :
    Sealed more parser parser :=
  fun tokens => .of_runs (fun inClassBody => run inClassBody tokens) fun inClassBody =>
    run inClassBody (tokens ++ more)

theorem scopes : Sealed more scopes scopes :=
  fun _ nest _ => ⟨⟨List.suffix_rfl, nest, rfl⟩, .inr (.inl rfl)⟩

end Sealed

namespace Closes

theorem bind (head : Closes more parser other) (tail : ∀ value, Sealed more (next value) (next' value)) :
    Closes more (parser >>= next) (other >>= next') where
  isSealed := head.isSealed.bind tail
  stuck nest errors := (head.stuck nest errors).bind fun _ _ => False.elim

theorem eat (accept : Token → Except (Error × Recovery) α) :
    Closes more (eat accept) (eat accept) := by
  refine ⟨fun tokens => ?_, fun _ _ => endFree_nil⟩
  cases tokens with
  | nil => exact .of_run (fun _ => .eat_nil) endFree_nil
  | cons token rest =>
    cases here : accept token with
    | ok value => exact .of_runs (fun _ => .eat_ok here) fun _ => .eat_ok here
    | error refusal => exact .of_runs (fun _ => .eat_error here) fun _ => .eat_error here

theorem expect (kind : TokenKind) : Closes more (expect kind) (expect kind) := eat _

theorem expectEnd : Closes more expectEnd expectEnd := eat _

theorem identifier : Closes more identifier identifier := eat _

end Closes

namespace Local

/-- What comes before a parser that closes the production may leave nothing, as that is not enough. -/
theorem closes (head : Local more parser other)
    (tail : ∀ value, Closes more (next value) (next' value)) :
    Closes more (parser >>= next) (other >>= next') := by
  refine ⟨fun tokens => (head tokens).bind_spent (fun value rest _ => (tail value).isSealed rest) ?_,
    fun nest errors => ?_⟩
  · rintro value _ _ rfl
    exact (tail value).stuck
  · have within := (head [] nest errors).within
    refine (within.mono (fun _ => id) fun _ within => endFree_nil.suffix within.suffix).bind ?_
    rintro value ⟨rest, scopes, errors⟩ ⟨suffix, inner, rfl⟩
    obtain rfl := List.suffix_nil.mp suffix
    exact (tail value).stuck inner errors

theorem bind (head : Local more parser other) (tail : ∀ value, Local more (next value) (next' value)) :
    Local more (parser >>= next) (other >>= next') :=
  fun tokens => (head tokens).bind final_nothing fun value rest _ => tail value rest

/-- In a line that is skipped after an error, what is left may be more than nothing. -/
theorem endFree (kept : Local more parser other) : KeepsOn more parser other EndFree tokens :=
  (kept tokens).mono fun _ nothing => nothing ▸ endFree_nil

theorem peek : Local more peek peek := by
  intro tokens
  cases tokens with
  | nil => exact .of_run (fun _ => .peek) rfl
  | cons token rest => exact .of_runs (fun _ => .peek) fun _ => .peek

theorem step : Local more step step := by
  intro tokens
  cases tokens with
  | nil =>
    have run (inClassBody : Bool) : Runs Parser.step inClassBody [] (.done ()) [] [] :=
      .quiet List.suffix_rfl fun _ _ => rfl
    exact .of_run run rfl
  | cons token rest => exact .of_runs (fun _ => .step) fun _ => .step

theorem isAt (kind : TokenKind) : Local more (isAt kind) (isAt kind) :=
  peek.bind fun _ => (Sealed.pure _).isLocal

theorem stepIf (kind : TokenKind) : Local more (stepIf kind) (stepIf kind) := by
  refine (isAt kind).bind fun found => ?_
  cases found with
  | true => exact step.bind fun _ => (Sealed.pure true).isLocal
  | false => exact (Sealed.pure false).isLocal

theorem skipEols : Local more skipEols skipEols := by
  intro tokens
  have run (inClassBody : Bool) (tokens : List Token) : Runs Parser.skipEols inClassBody tokens
      (.done ()) (tokens.dropWhile (·.kind = .eol)) [] := .skipEols
  by_cases nothing : tokens.dropWhile (·.kind = .eol) = []
  · exact .of_run (fun _ => run _ tokens) nothing
  · have longer : (tokens ++ more).dropWhile (·.kind = .eol) = tokens.dropWhile (·.kind = .eol) ++ more := by
      rw [List.dropWhile_append, if_neg (by simpa using nothing)]
    exact .of_runs (fun _ => run _ tokens) fun _ => longer ▸ run _ (tokens ++ more)

end Local

/-! ### Loops -/

section
variable {turn turn' : α → Parser (Turn α)}

theorem Lands.loop {done : State → Prop}
    (turns : ∀ value state result after, turn value state = .done (.stop result) after → done after)
    (value : α) (state : State) : Lands done (fun _ => True) (loop turn value state) := by
  have iterated (count : Nat) (value : α) (state : State) :
      Lands done (fun _ => True) (iterate turn count value state) := by
    induction count generalizing value state with
    | zero => trivial
    | succ count ih =>
      simp only [iterate, Bind.bind, andThen]
      split
      next result after here =>
        cases result with
        | again value => exact ih value after
        | stop value => exact turns _ _ _ _ here
      next => trivial
      next => trivial
  exact iterated _ value state

theorem KeepsOn.loop (final : Final spare)
    (turns : ∀ value rest, rest <:+ tokens → KeepsOn more (turn value) (turn' value) spare rest)
    (value : α) : KeepsOn more (loop turn value) (loop turn' value) spare tokens := by
  -- More tokens allow more turns. The first loop is at a fault when its own are spent, so that the
  -- induction is on their number and the second one has some to spare.
  have iterated (count spared : Nat) (value : α) (rest : List Token) (suffix : rest <:+ tokens) :
      KeepsOn more (iterate turn count value) (iterate turn' (count + spared) value) spare rest := by
    induction count generalizing value rest with
    | zero => exact fun _ _ => ⟨trivial, .inl trivial⟩
    | succ count ih =>
      rw [Nat.add_right_comm]
      refine (turns value rest suffix).bind final fun after rest' shorter => ?_
      cases after with
      | again value => exact ih value rest' (shorter.trans suffix)
      | stop value => exact (Sealed.pure value).anywhere
  intro nest errors
  have limit : (tokens ++ more).length + 1 = tokens.length + 1 + more.length := by
    rw [List.length_append]
    omega
  show Keeps more tokens spare _ (iterate turn' ((tokens ++ more).length + 1) value _)
  rw [limit]
  exact iterated _ _ value tokens List.suffix_rfl nest errors

namespace Local

theorem loop (turns : ∀ value, Local more (turn value) (turn' value)) (value : α) :
    Local more (loop turn value) (loop turn' value) :=
  fun _ => .loop final_nothing (fun value rest _ => turns value rest) value

variable {item item' : Parser α}

theorem commaSeparated (items : Local more item item') :
    Local more (commaSeparated item) (commaSeparated item') := by
  refine items.bind fun first => ?_
  refine loop (fun values => ?_) [first]
  refine (stepIf _).bind fun found => ?_
  cases found with
  | false => exact (Sealed.pure _).isLocal
  | true =>
    refine skipEols.bind fun _ => ?_
    exact items.bind fun value => (Sealed.pure _).isLocal

theorem delimited {closing : TokenKind} (items : Local more item item') :
    Local more (delimited closing item) (delimited closing item') := by
  refine loop (fun values => ?_) []
  refine skipEols.bind fun _ => ?_
  refine (isAt closing).bind fun closed => ?_
  cases closed with
  | true => exact (Sealed.pure _).isLocal
  | false =>
    refine items.bind fun value => ?_
    refine skipEols.bind fun _ => ?_
    refine (stepIf _).bind fun found => ?_
    cases found <;> exact (Sealed.pure _).isLocal

theorem enclosed {opening closing : Punctuation} (items : Local more item item') :
    Closes more (enclosed opening closing item) (enclosed opening closing item') := by
  refine (Closes.expect _).bind fun _ => Closes.isSealed ?_
  exact (delimited items).closes fun values => (Closes.expect _).bind fun _ => .pure values

end Local
end

end
end Arcade.Proofs
