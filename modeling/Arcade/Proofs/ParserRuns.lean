import Arcade.Proofs.ParserTrace

/-! Runs of parsers from all scopes at once. What a parser consumes and how it ends depends on
the tokens alone, and on whether the innermost scope is the body of a class; the scopes and the
errors come out as its trace says. The rules below build such runs up from those of the parts. -/

namespace Arcade.Proofs
open Arcade.Parse Arcade.Parse.Parser

variable {α β : Type}

/-- How a run that is no fault ends. -/
inductive Ending (α : Type) where
  | done (value : α)
  | failed (error : Error) (recovery : Recovery)

def Ending.outcome (ending : Ending α) (state : State) : Outcome α :=
  match ending with
  | .done value => .done value state
  | .failed error recovery => .failed error recovery state

structure Runs (parser : Parser α) (inClassBody : Bool) (tokens : List Token) (ending : Ending α)
    (rest : List Token) (trace : Trace) : Prop where
  level : trace.Level
  suffix : rest <:+ tokens
  /-- Every error of syntax that is got over has cost a token. -/
  paid : trace.mistakes + rest.length ≤ tokens.length
  run : ∀ nest errors, nest.inClassBody = inClassBody →
    parser ⟨tokens, nest.flatten, errors⟩ =
      ending.outcome ⟨rest, (trace.apply nest).flatten, errors ++ trace.errors nest⟩

namespace Runs

variable {first : Parser α} {next : α → Parser β} {inClassBody : Bool} {tokens rest : List Token}
  {token : Token}

/-- A run that neither looks at the scopes nor touches them or the errors. -/
theorem quiet {parser : Parser α} {ending : Ending α} (suffix : rest <:+ tokens)
    (run : ∀ scopes errors, parser ⟨tokens, scopes, errors⟩ = ending.outcome ⟨rest, scopes, errors⟩) :
    Runs parser inClassBody tokens ending rest [] where
  level := .nil
  suffix := suffix
  paid := by simpa using suffix.length_le
  run nest errors _ := by simp [run]

theorem pure (value : α) :
    Runs (pure value) inClassBody tokens (.done value) tokens [] :=
  quiet (List.suffix_refl tokens) fun _ _ => rfl

theorem bind {value : α} {middle : List Token} {ending : Ending β} {before after : Trace}
    (head : Runs first inClassBody tokens (.done value) middle before)
    (tail : Runs (next value) inClassBody middle ending rest after) :
    Runs (first >>= next) inClassBody tokens ending rest (before ++ after) where
  level := head.level.append tail.level
  suffix := tail.suffix.trans head.suffix
  paid := by
    have before := head.paid
    have behind := tail.paid
    rw [Trace.mistakes_append]
    omega
  run nest errors kind := by
    have tail := tail.run (before.apply nest) (errors ++ before.errors nest)
      (by rw [head.level.inClassBody_apply, kind])
    show andThen first next _ = _
    rw [andThen, head.run nest errors kind, Trace.apply_append, Trace.errors_append,
      ← List.append_assoc]
    exact tail

theorem bind_failed {error : Error} {recovery : Recovery} {trace : Trace}
    (head : Runs first inClassBody tokens (.failed error recovery) rest trace) :
    Runs (first >>= next) inClassBody tokens (.failed error recovery) rest trace where
  level := head.level
  suffix := head.suffix
  paid := head.paid
  run nest errors kind := by
    show andThen first next _ = _
    rw [andThen, head.run nest errors kind]
    rfl

/-! ### Tokens -/

theorem peek : Runs peek inClassBody tokens (.done tokens.head?) tokens [] :=
  quiet (List.suffix_refl tokens) fun _ _ => rfl

theorem step : Runs step inClassBody (token :: rest) (.done ()) rest [] :=
  quiet (List.suffix_cons token rest) fun _ _ => rfl

theorem fail (error : Error) (recovery : Recovery) :
    Runs (fail error recovery : Parser α) inClassBody tokens (.failed error recovery) tokens [] :=
  quiet (List.suffix_refl tokens) fun _ _ => rfl

theorem isAt (kind : TokenKind) :
    Runs (isAt kind) inClassBody tokens (.done (tokens.head?.any (·.kind = kind))) tokens [] :=
  quiet (List.suffix_refl tokens) fun _ _ => rfl

theorem stepIf_true {kind : TokenKind} (same : token.kind = kind) :
    Runs (stepIf kind) inClassBody (token :: rest) (.done true) rest [] :=
  (isAt kind).bind (by simpa [same] using step.bind (pure true))

theorem stepIf_false {kind : TokenKind} (other : tokens.head?.any (·.kind = kind) = false) :
    Runs (stepIf kind) inClassBody tokens (.done false) tokens [] :=
  (isAt kind).bind (by simpa [other] using pure false)

theorem skipEols : Runs skipEols inClassBody tokens (.done ())
    (tokens.dropWhile (·.kind = .eol)) [] :=
  quiet (List.dropWhile_suffix _) fun _ _ => rfl

section
variable {accept : Token → Except (Error × Recovery) α}

theorem eat_nil : Runs (eat accept) inClassBody [] (.failed .unexpectedEnd .keep) [] [] :=
  quiet (List.suffix_refl []) fun _ _ => rfl

theorem eat_ok {value : α} (accepted : accept token = .ok value) :
    Runs (eat accept) inClassBody (token :: rest) (.done value) rest [] :=
  quiet (List.suffix_cons token rest) fun scopes errors => by
    simp [eat, Bind.bind, andThen, Parser.peek, accepted, Parser.step, Pure.pure, finish, Ending.outcome]

theorem eat_error {error : Error} {recovery : Recovery}
    (refused : accept token = .error (error, recovery)) :
    Runs (eat accept) inClassBody (token :: rest) (.failed error recovery) (token :: rest) [] :=
  quiet (List.suffix_refl _) fun scopes errors => by
    simp [eat, Bind.bind, andThen, Parser.peek, refused, Parser.fail, Ending.outcome]

end

theorem expect {kind : TokenKind} (same : token.kind = kind) :
    Runs (expect kind) inClassBody (token :: rest) (.done token.pos) rest [] :=
  eat_ok (if_pos same)

theorem expectEnd (same : token.kind = .keyword .endWord) :
    Runs expectEnd inClassBody (token :: rest) (.done ()) rest [] :=
  eat_ok (if_pos same)

theorem identifier {name : Symbol} (same : token.kind = .identifier name) :
    Runs identifier inClassBody (token :: rest) (.done (name, token.pos)) rest [] :=
  eat_ok (by simp [same])

/-! ### Errors and names -/

/-- A run of a parser that consumes nothing and does one thing to the errors or the scopes. -/
private theorem action {parser : Parser Unit} {action : Action}
    (opens : ∀ kind, action ≠ .enter kind) (closes : action ≠ .leave) (clean : action.isClean = true)
    (run : ∀ nest : Nest, ∀ errors, parser ⟨tokens, nest.flatten, errors⟩ =
      .done () ⟨tokens, (action.apply nest).flatten, errors ++ action.errors nest⟩) :
    Runs parser inClassBody tokens (.done ()) tokens [action] where
  level := .action opens closes
  suffix := List.suffix_refl tokens
  paid := by
    rw [Trace.mistakes_cons, if_pos clean]
    simp
  run nest errors _ := by simp [run, Ending.outcome]

theorem report {error : Error} (other : error.isSyntax = false) :
    Runs (report error) inClassBody tokens (.done ()) tokens [.report error] :=
  action nofun nofun (by simp [other]) fun _ _ => rfl

theorem declare (name : Symbol) (kind : DeclKind) (pos : Position) :
    Runs (declare name kind pos) inClassBody tokens (.done ()) tokens [.declare name kind pos] :=
  action nofun nofun rfl fun nest errors => by
    have added := nest.flatten_add name kind pos
    simp [Parser.declare, added, Action.apply, Action.errors]

private theorem requireDeclared_eq (nest : Nest) (errors : List Error) (name : Symbol)
    (kind : Option DeclKind) (error : Error) :
    requireDeclared name kind error ⟨tokens, nest.flatten, errors⟩ = .done () ⟨tokens, nest.flatten,
      errors ++ if (nest.find? name kind).isNone then [error] else []⟩ := by
  simp only [requireDeclared, Bind.bind, andThen, Parser.scopes, Nest.flatten_find?,
    Parser.ofExcept.eq_def]
  split <;> simp [Parser.report, Pure.pure, finish]

private theorem requireClass_eq (nest : Nest) (errors : List Error) (error : Error) :
    requireClass error ⟨tokens, nest.flatten, errors⟩ = .done () ⟨tokens, nest.flatten,
      errors ++ if nest.inClass then [] else [error]⟩ := by
  simp only [requireClass, Bind.bind, andThen, Parser.scopes, Nest.flatten_inClass]
  cases nest.inClass <;> simp [Parser.report, Pure.pure, finish]

theorem useName (name : Symbol) (pos : Position) :
    Runs (requireDeclared name none (.undeclared name pos)) inClassBody tokens (.done ()) tokens
      [.useName name pos] :=
  action nofun nofun rfl fun nest errors => requireDeclared_eq nest errors ..

theorem useClass (name : Symbol) (pos : Position) :
    Runs (requireDeclared name (some .classDecl) (.undeclaredClass name pos)) inClassBody tokens
      (.done ()) tokens [.useClass name pos] :=
  action nofun nofun rfl fun nest errors => requireDeclared_eq nest errors ..

theorem useThis (pos : Position) :
    Runs (requireClass (.thisOutsideClass pos)) inClassBody tokens (.done ()) tokens
      [.useThis pos] :=
  action nofun nofun rfl fun nest errors => requireClass_eq nest errors _

theorem useSuper (pos : Position) :
    Runs (requireClass (.superOutsideClass pos)) inClassBody tokens (.done ()) tokens
      [.useSuper pos] :=
  action nofun nofun rfl fun nest errors => requireClass_eq nest errors _

/-! ### Scopes, recovery and speculation -/

/-- The only thing that the scopes decide about a parse. -/
theorem scopes_kind {inside outside : Parser α} {ending : Ending α} {trace : Trace}
    (run : Runs (if inClassBody = true then inside else outside) inClassBody tokens ending rest
      trace) :
    Runs (scopes >>= fun scopes => if scopes.kind = .classBody then inside else outside) inClassBody
      tokens ending rest trace where
  level := run.level
  suffix := run.suffix
  paid := run.paid
  run nest errors kind := by
    show (if nest.flatten.kind = .classBody then inside else outside) _ = _
    rw [← run.run nest errors kind, ← kind, Nest.flatten_kind]
    by_cases same : nest.kind = .classBody <;> simp [Nest.inClassBody, same]

theorem inScope {kind : ScopeKind} {body : Parser α} {ending : Ending α} {trace : Trace}
    (run : Runs body (decide (kind = .classBody)) tokens ending rest trace) :
    Runs (inScope kind body) inClassBody tokens ending rest
      (.enter kind :: (trace ++ [.leave])) where
  level := .scope kind run.level
  suffix := run.suffix
  paid := by simpa using run.paid
  run nest errors _ := by
    obtain ⟨added, after⟩ := run.level.apply_eq
    have inside := run.run (nest.enter kind) errors rfl
    have closed : ((nest.enter kind).declare added).flatten.leave = .ok (kind, nest.flatten) :=
      Nest.flatten_leave _ ⟨kind, [] ++ added⟩ nest.inner rfl
    rw [Trace.errors_cons, Trace.errors_append, Trace.Level.scope_apply run.level]
    simp only [Parser.inScope, Nest.flatten_enter, inside, after]
    cases ending <;> simp [Ending.outcome, leaveScope, closed, Action.errors, Action.apply]

theorem recovering_done {fallback value : α} {parser : Parser α} {trace : Trace}
    (run : Runs parser inClassBody tokens (.done value) rest trace) :
    Runs (recovering fallback parser) inClassBody tokens (.done value) rest trace where
  level := run.level
  suffix := run.suffix
  paid := run.paid
  run nest errors kind := by rw [recovering, run.run nest errors kind]; rfl

theorem synchronize_suffix (recovery : Recovery) (tokens : List Token) :
    synchronize recovery tokens <:+ tokens := by
  cases recovery with
  | keep => exact List.suffix_refl tokens
  | skipOne => exact List.tail_suffix tokens
  | line => exact List.dropWhile_suffix _

theorem recovering_failed {fallback : α} {parser : Parser α} {error : Error} {recovery : Recovery}
    {trace : Trace} (run : Runs parser inClassBody tokens (.failed error recovery) rest trace)
    (spare : trace.mistakes + (synchronize recovery rest).length < tokens.length) :
    Runs (recovering fallback parser) inClassBody tokens (.done fallback)
      (synchronize recovery rest) (trace ++ [.report error]) where
  level := run.level.append (.action nofun nofun)
  suffix := (synchronize_suffix recovery rest).trans run.suffix
  paid := by
    rw [Trace.mistakes_append, Trace.mistakes_cons, Trace.mistakes_nil]
    split <;> omega
  run nest errors kind := by
    rw [recovering, run.run nest errors kind]
    simp [Ending.outcome, Action.apply, Action.errors]

/-- Whatever the test does is undone. Its answer is all that is left of it. -/
theorem speculate {skip : Nat} {test : Parser Bool} {ending : Ending Bool} {trace : Trace}
    (run : Runs test inClassBody (tokens.drop skip) ending rest trace) :
    Runs (speculate skip test) inClassBody tokens
      (.done (match ending with | .done found => found | .failed .. => false)) tokens [] where
  level := .nil
  suffix := List.suffix_refl tokens
  paid := by simp
  run nest errors kind := by
    obtain ⟨added, after⟩ := run.level.apply_eq
    have undone (errors' : List Error) : restore (checkpoint ⟨tokens, nest.flatten, errors⟩)
        ⟨rest, (nest.declare added).flatten, errors ++ errors'⟩ = ⟨tokens, nest.flatten, errors⟩ := by
      simp [restore, checkpoint, Nest.flatten_rewind]
    simp only [Parser.speculate, run.run nest errors kind, after]
    cases ending <;> simp [Ending.outcome, undone]

/-! ### Loops -/

section
variable {turn : α → Parser (Turn α)} {value : α}

/-- A loop that ends within some turns is not changed by a higher limit on them. -/
private theorem iterate_more {count limit : Nat} {state : State} (within : count ≤ limit)
    (ends : ∀ fault, iterate turn count value state ≠ .fault fault) :
    iterate turn limit value state = iterate turn count value state := by
  induction count generalizing limit value state with
  | zero => exact absurd rfl (ends .exhausted)
  | succ count ih =>
    obtain ⟨limit, rfl⟩ := Nat.exists_eq_add_of_le within
    rw [Nat.add_right_comm] at *
    simp only [iterate, Bind.bind, andThen] at ends ⊢
    split
    next result after _ =>
      cases result with
      | stop result => rfl
      | again result => exact ih (Nat.le_add_right ..) (by simpa [*] using ends)
    next => rfl
    next => rfl

theorem loop_stop {result : α} {trace : Trace}
    (head : Runs (turn value) inClassBody tokens (.done (.stop result)) rest trace) :
    Runs (loop turn value) inClassBody tokens (.done result) rest trace := by
  have run : Runs (iterate turn (tokens.length + 1) value) inClassBody tokens (.done result) rest
      (trace ++ []) := head.bind (pure result)
  rw [List.append_nil] at run
  exact ⟨run.level, run.suffix, run.paid, run.run⟩

theorem loop_failed {error : Error} {recovery : Recovery} {trace : Trace}
    (head : Runs (turn value) inClassBody tokens (.failed error recovery) rest trace) :
    Runs (loop turn value) inClassBody tokens (.failed error recovery) rest trace := by
  have run : Runs (iterate turn (tokens.length + 1) value) inClassBody tokens
      (.failed error recovery) rest trace := head.bind_failed
  exact ⟨run.level, run.suffix, run.paid, run.run⟩

/-- A turn that goes on leaves fewer tokens, and with them enough turns, to the rest. -/
theorem loop_again {middle : List Token} {after : α} {ending : Ending α} {trace more : Trace}
    (head : Runs (turn value) inClassBody tokens (.done (.again after)) middle trace)
    (shorter : middle.length < tokens.length)
    (tail : Runs (loop turn after) inClassBody middle ending rest more) :
    Runs (loop turn value) inClassBody tokens ending rest (trace ++ more) := by
  have enough : Runs (iterate turn tokens.length after) inClassBody middle ending rest more := by
    refine ⟨tail.level, tail.suffix, tail.paid, fun nest errors kind => ?_⟩
    have whole := tail.run nest errors kind
    rw [← whole]
    refine iterate_more (by exact shorter) ?_
    intro fault broken
    rw [show iterate turn (middle.length + 1) after _ = _ from whole] at broken
    cases ending <;> cases broken
  have run : Runs (iterate turn (tokens.length + 1) value) inClassBody tokens ending rest
      (trace ++ more) := head.bind enough
  exact ⟨run.level, run.suffix, run.paid, run.run⟩

end

end Runs
end Arcade.Proofs
