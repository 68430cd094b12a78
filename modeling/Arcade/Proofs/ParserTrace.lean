import Arcade.Parse.Parser
import Arcade.Proofs.ScopeNesting

/-! What a parser does besides consuming tokens. A trace lists the errors it reports, the names
it uses and declares and the scopes it opens and closes, in order; which of the uses are errors
is left open until the trace is replayed from given scopes. -/

namespace Arcade.Proofs
open Arcade.Parse

inductive Action where
  | report (error : Error)
  | useName (name : Symbol) (pos : Position)
  /-- A use of a name that must be a class. -/
  | useClass (name : Symbol) (pos : Position)
  | useThis (pos : Position)
  | useSuper (pos : Position)
  | declare (name : Symbol) (kind : DeclKind) (pos : Position)
  | enter (kind : ScopeKind)
  | leave

abbrev Trace := List Action

def Action.apply (action : Action) (nest : Nest) : Nest :=
  match action with
  | .declare name kind pos => nest.declare [⟨name, kind, some pos⟩]
  | .enter kind => nest.enter kind
  | .leave => nest.leave
  | _ => nest

/-- The errors that an action amounts to in given scopes. -/
def Action.errors (action : Action) (nest : Nest) : List Error :=
  match action with
  | .report error => [error]
  | .useName name pos => if (nest.find? name none).isNone then [.undeclared name pos] else []
  | .useClass name pos =>
    if (nest.find? name (some .classDecl)).isNone then [.undeclaredClass name pos] else []
  | .useThis pos => if nest.inClass then [] else [.thisOutsideClass pos]
  | .useSuper pos => if nest.inClass then [] else [.superOutsideClass pos]
  | _ => []

@[simp] def Action.isClean : Action → Bool
  | .report error => !error.isSyntax
  | _ => true

/-- The name that must be declared for the action not to be an error. -/
def Action.used? : Action → Option Symbol
  | .useName name _ | .useClass name _ => some name
  | _ => none

namespace Trace

/-- The scopes after a trace. -/
def apply : Trace → Nest → Nest
  | [], nest => nest
  | action :: rest, nest => apply rest (action.apply nest)

/-- The errors of a trace, each judged by the scopes that are open where it stands. -/
def errors : Trace → Nest → List Error
  | [], _ => []
  | action :: rest, nest => action.errors nest ++ errors rest (action.apply nest)

@[simp] theorem apply_nil (nest : Nest) : apply [] nest = nest := rfl

@[simp] theorem apply_cons (action : Action) (rest : Trace) (nest : Nest) :
    apply (action :: rest) nest = apply rest (action.apply nest) := rfl

@[simp] theorem apply_append (first rest : Trace) (nest : Nest) :
    apply (first ++ rest) nest = apply rest (apply first nest) := by
  induction first generalizing nest with
  | nil => rfl
  | cons action first ih => exact ih (action.apply nest)

@[simp] theorem errors_nil (nest : Nest) : errors [] nest = [] := rfl

@[simp] theorem errors_cons (action : Action) (rest : Trace) (nest : Nest) :
    errors (action :: rest) nest = action.errors nest ++ errors rest (action.apply nest) := rfl

@[simp] theorem errors_append (first rest : Trace) (nest : Nest) :
    errors (first ++ rest) nest = errors first nest ++ errors rest (apply first nest) := by
  induction first generalizing nest with
  | nil => rfl
  | cons action first ih => simp [ih, List.append_assoc]

/-! ### Traces that close the scopes they open -/

/-- Every scope that is opened is closed again, and no other one. -/
inductive Level : Trace → Prop where
  | nil : Level []
  | action {action : Action} (opens : ∀ kind, action ≠ .enter kind) (closes : action ≠ .leave) :
      Level [action]
  | append {first rest : Trace} (before : Level first) (after : Level rest) : Level (first ++ rest)
  | scope (kind : ScopeKind) {body : Trace} (level : Level body) :
      Level (.enter kind :: (body ++ [.leave]))

/-- A level trace leaves the scopes as they are but for what it declares in the innermost one. -/
theorem Level.apply_eq {trace : Trace} (level : Level trace) :
    ∃ added, ∀ nest, trace.apply nest = nest.declare added := by
  induction level with
  | nil => exact ⟨[], by simp⟩
  | @action action opens closes =>
    cases action with
    | enter kind => exact absurd rfl (opens kind)
    | leave => exact absurd rfl closes
    | declare name kind pos => exact ⟨[⟨name, kind, some pos⟩], fun _ => rfl⟩
    | report | useName | useClass | useThis | useSuper => exact ⟨[], by simp [Action.apply]⟩
  | append _ _ first rest =>
    obtain ⟨added, first⟩ := first
    obtain ⟨more, rest⟩ := rest
    exact ⟨added ++ more, fun nest => by rw [apply_append, first, rest, Nest.declare_declare]⟩
  | scope kind _ body =>
    obtain ⟨added, body⟩ := body
    exact ⟨[], fun nest => by simp [Action.apply, body]⟩

theorem Level.inClassBody_apply {trace : Trace} (level : Level trace) (nest : Nest) :
    (trace.apply nest).inClassBody = nest.inClassBody := by
  obtain ⟨added, same⟩ := level.apply_eq
  rw [same, Nest.inClassBody, Nest.kind_declare, Nest.inClassBody]

/-- A scope of its own keeps what a level trace declares in it from the scopes around it. -/
theorem Level.scope_apply {body : Trace} (level : Level body) (kind : ScopeKind) (nest : Nest) :
    apply (.enter kind :: (body ++ [.leave])) nest = nest := by
  obtain ⟨added, same⟩ := level.apply_eq
  simp [Action.apply, same]

/-! ### Errors of syntax -/

/-- How many errors of syntax are reported. -/
def mistakes (trace : Trace) : Nat := trace.countP fun action => !action.isClean

@[simp] theorem mistakes_nil : mistakes [] = 0 := rfl

@[simp] theorem mistakes_cons (action : Action) (rest : Trace) :
    mistakes (action :: rest) = (if action.isClean then 0 else 1) + mistakes rest := by
  unfold mistakes
  rw [List.countP_cons]
  cases action.isClean <;> simp [Nat.add_comm]

@[simp] theorem mistakes_append (first rest : Trace) :
    mistakes (first ++ rest) = mistakes first + mistakes rest := List.countP_append

private theorem countP_errors_action (action : Action) (nest : Nest) :
    (action.errors nest).countP Error.isSyntax = if action.isClean then 0 else 1 := by
  cases action with
  | report error => cases here : error.isSyntax <;> simp [Action.errors, here]
  | useName name pos | useClass name pos | useThis pos | useSuper pos =>
    simp only [Action.errors, Action.isClean]
    split <;> simp [Error.isSyntax]
  | declare | enter | leave => rfl

/-- Every replay of a trace has the same number of errors of syntax. -/
theorem countP_errors (trace : Trace) (nest : Nest) :
    (trace.errors nest).countP Error.isSyntax = trace.mistakes := by
  induction trace generalizing nest with
  | nil => rfl
  | cons action rest ih =>
    rw [errors_cons, List.countP_append, countP_errors_action, ih, mistakes_cons]

/-- No error of syntax is reported. Errors of name resolution may be. -/
def Clean (trace : Trace) : Prop := ∀ action ∈ trace, action.isClean = true

@[simp] theorem clean_nil : Clean [] := by simp [Clean]

@[simp] theorem clean_cons (action : Action) (rest : Trace) :
    Clean (action :: rest) ↔ action.isClean = true ∧ Clean rest := List.forall_mem_cons

@[simp] theorem clean_append (first rest : Trace) :
    Clean (first ++ rest) ↔ Clean first ∧ Clean rest := List.forall_mem_append

theorem mistakes_eq_zero_iff {trace : Trace} : trace.mistakes = 0 ↔ trace.Clean := by
  unfold mistakes Clean
  rw [List.countP_eq_zero]
  refine forall₂_congr fun action _ => ?_
  cases action.isClean <;> decide

/-- Whether a trace is clean shows in the errors of any replay of it. -/
theorem clean_iff (trace : Trace) (nest : Nest) :
    trace.Clean ↔ ∀ error ∈ trace.errors nest, error.isSyntax = false := by
  rw [← mistakes_eq_zero_iff, ← countP_errors trace nest, List.countP_eq_zero]
  simp only [Bool.not_eq_true]

/-! ### Names -/

/-- The names that a trace uses all stand in the tokens. -/
def NamesFrom (trace : Trace) (tokens : List Token) : Prop :=
  ∀ action ∈ trace, ∀ name, action.used? = some name →
    ∃ token ∈ tokens, token.kind = .identifier name

theorem namesFrom_nil (tokens : List Token) : NamesFrom [] tokens := fun _ member => by
  cases member

theorem namesFrom_append {first rest : Trace} {tokens : List Token} :
    NamesFrom (first ++ rest) tokens ↔ NamesFrom first tokens ∧ NamesFrom rest tokens := by
  unfold NamesFrom
  exact List.forall_mem_append

theorem namesFrom_cons {action : Action} {rest : Trace} {tokens : List Token} :
    NamesFrom (action :: rest) tokens ↔
      (∀ name, action.used? = some name → ∃ token ∈ tokens, token.kind = .identifier name) ∧
        NamesFrom rest tokens := by
  unfold NamesFrom
  exact List.forall_mem_cons

theorem NamesFrom.mono {trace : Trace} {tokens more : List Token} (named : trace.NamesFrom tokens)
    (within : tokens ⊆ more) : trace.NamesFrom more := fun action member name used =>
  have ⟨token, present, same⟩ := named action member name used
  ⟨token, within present, same⟩

end Trace
end Arcade.Proofs
