import Arcade.Proofs.Interning
import Arcade.Proofs.ProgramReadings

/-! What is declared beforehand has no say in how a program is parsed. The statements and the
errors of syntax are the same with any globals, and more globals only take away errors of name
resolution. All of it is read off the one trace that a list of tokens has. -/

namespace Arcade.Proofs
open Arcade.Parse

/-! ### Errors of other sorts -/

/-- A use of a name is no error, or one of resolution. -/
private theorem action_other_errors (action : Action) (first second : Nest) :
    (action.errors first).filter (!·.isResolution) =
      (action.errors second).filter (!·.isResolution) := by
  have used (nest : Nest) (name : Symbol) (kind : Option DeclKind) (error : Error)
      (resolution : error.isResolution = true) :
      (if (nest.find? name kind).isNone then [error] else []).filter (!·.isResolution) = [] := by
    split <;> simp [resolution]
  have inside (nest : Nest) (error : Error) (resolution : error.isResolution = true) :
      (if nest.inClass then [] else [error]).filter (!·.isResolution) = [] := by
    split <;> simp [resolution]
  cases action with
  | useName name pos | useClass name pos =>
    exact (used first name _ _ rfl).trans (used second name _ _ rfl).symm
  | useThis pos | useSuper pos => exact (inside first _ rfl).trans (inside second _ rfl).symm
  | _ => rfl

theorem other_errors_eq (trace : Trace) (first second : Nest) :
    (trace.errors first).filter (!·.isResolution) =
      (trace.errors second).filter (!·.isResolution) := by
  induction trace generalizing first second with
  | nil => rfl
  | cons action rest ih =>
    rw [Trace.errors_cons, Trace.errors_cons, List.filter_append, List.filter_append,
      action_other_errors action first second, ih (action.apply first) (action.apply second)]

/-! ### More globals -/

/-- The same scopes are open, and of the names that the tokens mention, none is missing in the root
of the second nest alone. -/
structure Covers (tokens : List Token) (first second : Nest) : Prop where
  inner : first.inner = second.inner
  root : ∀ token ∈ tokens, ∀ name, token.kind = .identifier name → ∀ kind,
    second.root.find? (Scopes.isOf name kind) = none → first.root.find? (Scopes.isOf name kind) = none

variable {tokens : List Token} {first second : Nest}

theorem Covers.apply (covers : Covers tokens first second) (action : Action) :
    Covers tokens (action.apply first) (action.apply second) := by
  obtain ⟨inner, root, globals⟩ := first
  obtain ⟨inner', root', globals'⟩ := second
  obtain ⟨same, declared⟩ := covers
  cases same
  cases action with
  | enter kind => exact ⟨rfl, declared⟩
  | leave => exact ⟨rfl, declared⟩
  | declare name kind pos =>
    cases inner with
    | cons layer outer => exact ⟨rfl, declared⟩
    | nil =>
      refine ⟨rfl, fun token member mention same kind' => ?_⟩
      have before := declared token member mention same kind'
      simp only [Action.apply, Nest.declare, List.find?_append, Option.or_eq_none_iff]
      exact fun missing => ⟨before missing.1, missing.2⟩
  | report | useName | useClass | useThis | useSuper => exact ⟨rfl, declared⟩

/-- A name that is missing in the second nest is missing in the first one. -/
theorem Covers.find? (covers : Covers tokens first second) {name : Symbol}
    (mention : ∃ token ∈ tokens, token.kind = .identifier name) (kind : Option DeclKind)
    (missing : second.find? name kind = none) : first.find? name kind = none := by
  obtain ⟨token, member, same⟩ := mention
  simp only [Nest.find?, List.findSome?_append, List.findSome?_singleton, Option.or_eq_none_iff,
    covers.inner] at missing ⊢
  exact ⟨missing.1, covers.root token member name same kind missing.2⟩

theorem Covers.errors (covers : Covers tokens first second) {action : Action}
    (mention : ∀ name, action.used? = some name →
      ∃ token ∈ tokens, token.kind = .identifier name) :
    (action.errors second).Sublist (action.errors first) := by
  have inClass : second.inClass = first.inClass := by rw [Nest.inClass, Nest.inClass, covers.inner]
  cases action with
  | useName name pos | useClass name pos =>
    simp only [Action.errors, Option.isNone_iff_eq_none]
    split
    next missing =>
      have absent := covers.find? (mention name rfl) _ missing
      simp only [absent, ↓reduceIte, List.Sublist.refl]
    next => exact List.nil_sublist _
  | useThis pos | useSuper pos => simp only [Action.errors, inClass, List.Sublist.refl]
  | _ => exact List.Sublist.refl _

theorem Covers.errors_sublist (covers : Covers tokens first second) {trace : Trace}
    (named : trace.NamesFrom tokens) : (trace.errors second).Sublist (trace.errors first) := by
  induction trace generalizing first second with
  | nil => exact List.Sublist.refl _
  | cons action rest ih =>
    obtain ⟨mention, named⟩ := Trace.namesFrom_cons.mp named
    exact (covers.errors mention).append (ih (covers.apply action) named)

/-- A table that has all the entries of another one declares all that the other one does. -/
theorem covers_of_subset {globals more : Globals} {interner other : Interner}
    (subset : globals ⊆ more)
    (alike : ∀ token ∈ tokens, ∀ name, token.kind = .identifier name →
      (Scopes.ofGlobals globals interner).2.resolve? name =
        (Scopes.ofGlobals more other).2.resolve? name) :
    Covers tokens (Nest.ofGlobals (Scopes.ofGlobals globals interner).1)
      (Nest.ofGlobals (Scopes.ofGlobals more other).1) := by
  refine ⟨rfl, fun token member name mention kind missing => ?_⟩
  simp only [Nest.ofGlobals, Scopes.ofGlobals, List.take_length, List.find?_eq_none] at alike missing ⊢
  intro declaration declared named
  simp only [Scopes.isOf, Bool.and_eq_true, decide_eq_true_eq] at named
  obtain ⟨rfl, fits⟩ := named
  obtain ⟨text, entry, resolved⟩ := entry_of_declared declared
  obtain ⟨again, declared', kinds, resolved'⟩ := declared_of_entry (subset entry) other
  rw [alike token member _ mention] at resolved
  refine missing again declared' ?_
  simp only [Scopes.isOf, kinds, fits, resolve?_inj resolved' resolved, decide_true, Bool.and_self]

/-! ### The two parses -/

/-- Any two tables of globals lead to the same statements and the same errors other than those of
resolution. If the second one has all entries of the first one, and both agree on the text of
every name in the tokens, then it leads to no errors of resolution that the first one does not. -/
theorem parse_globals_independent (tokens : List Token) (globals more : Globals)
    (interner other : Interner) :
    ∃ parsed parsed', parse tokens (Scopes.ofGlobals globals interner).1 = .ok parsed ∧
      parse tokens (Scopes.ofGlobals more other).1 = .ok parsed' ∧
      parsed.statements = parsed'.statements ∧
      parsed.errors.filter (!·.isResolution) = parsed'.errors.filter (!·.isResolution) ∧
      (globals ⊆ more → (∀ token ∈ tokens, ∀ name, token.kind = .identifier name →
        (Scopes.ofGlobals globals interner).2.resolve? name =
          (Scopes.ofGlobals more other).2.resolve? name) →
        (parsed'.errors.filter Error.isResolution).Sublist
          (parsed.errors.filter Error.isResolution)) := by
  obtain ⟨body, trace, named, _, answers⟩ := parse_eq anyReading_closed tokens
  refine ⟨_, _, answers _, answers _, rfl, other_errors_eq trace _ _, fun subset alike => ?_⟩
  exact ((covers_of_subset subset alike).errors_sublist named).filter _

/-- A call of `print` with and without a declaration of it. -/
theorem parse_globals_independent_print :
    let names := (Interner.empty.intern "print").2
    let tokens := inLine [.identifier ⟨1⟩, .punctuation .openParens, .punctuation .closeParens]
    ∃ parsed parsed', parse tokens (Scopes.ofGlobals [] names).1 = .ok parsed ∧
      parse tokens (Scopes.ofGlobals [("print", .functionDecl)] names).1 = .ok parsed' ∧
      parsed.statements = parsed'.statements ∧
      (parsed'.errors.filter Error.isResolution).Sublist
        (parsed.errors.filter Error.isResolution) := by
  intro names tokens
  obtain ⟨parsed, parsed', first, second, same, _, fewer⟩ :=
    parse_globals_independent tokens [] [("print", .functionDecl)] names names
  refine ⟨parsed, parsed', first, second, same, fewer (List.nil_subset _) ?_⟩
  intro token member name mention
  obtain rfl : name = ⟨1⟩ := by
    simp only [tokens, inLine, List.mapIdx_cons, List.mapIdx_nil, List.mem_cons, List.not_mem_nil,
      or_false] at member
    obtain rfl | rfl | rfl := member <;> cases mention
    rfl
  decide

end Arcade.Proofs
