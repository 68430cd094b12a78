import Arcade.Proofs.ScopeNesting

/-! Runs over the open scopes. The flat list of declarations answers as scopes with lists of their
own would, whatever is opened, declared and closed in between; only rewinding out of order can put
it into other states, and resetting leads out of those, too. -/

namespace Arcade.Proofs

/-- A change to the open scopes. -/
inductive ScopeStep
  | enter (kind : ScopeKind)
  | leave
  | add (name : Symbol) (kind : DeclKind) (pos : Position)
  | reset

namespace ScopeStep

def run (step : ScopeStep) (scopes : Scopes) : Except Fault Scopes :=
  match step with
  | enter kind => .ok (scopes.enter kind)
  | leave => scopes.leave.map (·.2)
  | add name kind pos => (scopes.add name kind pos).map (·.2)
  | reset => .ok scopes.reset

/-- The same change to scopes with lists of their own. Resetting leads back to the first scopes. -/
def runNested (first : Nest) (step : ScopeStep) (nest : Nest) : Except Fault Nest :=
  match step with
  | enter kind => .ok (nest.enter kind)
  | leave =>
    match nest.inner with
    | [] => .error .rootScopeEnded
    | _ :: _ => .ok nest.leave
  | add name kind pos => .ok (nest.declare [⟨name, kind, some pos⟩])
  | reset => .ok first

end ScopeStep

def runSteps (steps : List ScopeStep) (scopes : Scopes) : Except Fault Scopes :=
  steps.foldlM (fun scopes step => step.run scopes) scopes

def runNested (first : Nest) (steps : List ScopeStep) (nest : Nest) : Except Fault Nest :=
  steps.foldlM (fun nest step => step.runNested first nest) nest

/-- How many scopes stand open inside of a given one, `above` before the steps. None if the given one is
closed on the way, or all scopes are reset. -/
def openAbove : (above : Nat) → List ScopeStep → Option Nat
  | above, [] => some above
  | above, .enter _ :: steps => openAbove (above + 1) steps
  | 0, .leave :: _ => none
  | above + 1, .leave :: steps => openAbove above steps
  | above, .add .. :: steps => openAbove above steps
  | _, .reset :: _ => none

/-- All that can be asked about open scopes is answered from the nested ones. -/
structure Shows (scopes : Scopes) (nest : Nest) : Prop where
  find : ∀ name kind, scopes.find? name kind = .ok (nest.find? name kind)
  get : ∀ ref, scopes.get? ref = .ok (nest.get? ref)
  kind : scopes.kind = nest.kind
  inClass : scopes.inClass = nest.inClass
  depth : scopes.depth = nest.inner.length + 1

/-- States that are also reached by rewinding, to any of the marks made so far. -/
inductive Rewound (first : Scopes) : List Mark → Scopes → Prop
  | start : Rewound first [] first
  | step {marks before after} {step : ScopeStep} (reached : Rewound first marks before)
      (done : step.run before = .ok after) : Rewound first marks after
  | mark {marks scopes} (reached : Rewound first marks scopes) :
      Rewound first (scopes.mark :: marks) scopes
  | rewind {marks scopes mark} (reached : Rewound first marks scopes) (made : mark ∈ marks) :
      Rewound first marks (scopes.rewind mark)

/-! ### Nested scopes -/

namespace Nest

theorem flatten_shows (nest : Nest) : Shows nest.flatten nest :=
  ⟨nest.flatten_find?, nest.flatten_get?, nest.flatten_kind, nest.flatten_inClass,
    nest.flatten_depth⟩

/-- More scopes, the innermost first, inside of those open. -/
def under (layers : List Layer) (nest : Nest) : Nest := { nest with inner := layers ++ nest.inner }

/-- What happens inside of a scope leaves those around it as they are, and only adds to the
scope's own declarations. -/
theorem run_inside (first nest : Nest) {steps : List ScopeStep} {above left : Nat}
    (inside : openAbove above steps = some left) (added : List Declaration) (layers : List Layer)
    (height : layers.length = above) : ∃ more last, last.length = left ∧
      runNested first steps (under layers (nest.declare added)) =
        .ok (under last (nest.declare (added ++ more))) := by
  induction steps generalizing above added layers with
  | nil =>
    cases inside
    exact ⟨[], layers, height, by rw [List.append_nil]; rfl⟩
  | cons step steps ih =>
    cases step with
    | enter kind => exact ih inside added (⟨kind, []⟩ :: layers) (congrArg Nat.succ height)
    | leave =>
      cases layers with
      | nil =>
        subst height
        cases inside
      | cons layer layers =>
        subst height
        exact ih inside added layers rfl
    | add name kind pos =>
      cases layers with
      | nil =>
        obtain ⟨more, last, size, done⟩ := ih inside (added ++ [⟨name, kind, some pos⟩]) [] height
        refine ⟨⟨name, kind, some pos⟩ :: more, last, size, ?_⟩
        rw [List.append_cons, ← done, ← declare_declare]
        rfl
      | cons layer layers =>
        exact ih inside added (⟨layer.kind, layer.declared ++ [⟨name, kind, some pos⟩]⟩ :: layers) height
    | reset => cases inside

/-- A scope that is opened is closed again with nothing left of it. -/
theorem run_closed (first nest : Nest) (kind : ScopeKind) {inside : List ScopeStep}
    (closed : openAbove 0 inside = some 0) : ∃ added,
      runNested first (.enter kind :: inside) nest = .ok ((nest.enter kind).declare added) := by
  obtain ⟨added, last, empty, done⟩ := run_inside first (nest.enter kind) closed [] [] rfl
  obtain rfl := List.eq_nil_of_length_eq_zero empty
  exact ⟨added, done⟩

/-- A declaration is found under its ref for as long as its scope is open. -/
theorem get?_inside (nest : Nest) (declaration : Declaration) (more : List Declaration)
    (layers : List Layer) :
    (under layers (nest.declare (declaration :: more))).get? nest.nextRef = some declaration := by
  obtain ⟨inner, root, globals⟩ := nest
  cases inner with
  | nil => simp [get?, under, parts, declare, nextRef]
  | cons layer outer => simp [get?, under, parts, declare, nextRef]

end Nest

theorem runNested_error {first nest : Nest} {steps : List ScopeStep} {fault : Fault}
    (failed : runNested first steps nest = .error fault) : fault = .rootScopeEnded := by
  induction steps generalizing nest with
  | nil => cases failed
  | cons step steps ih =>
    rw [runNested, List.foldlM_cons] at failed
    cases done : step.runNested first nest with
    | ok next =>
      rw [done] at failed
      exact ih failed
    | error other =>
      rw [done] at failed
      cases failed
      cases step with
      | leave =>
        obtain ⟨inner, root, globals⟩ := nest
        cases inner with
        | nil =>
          cases done
          rfl
        | cons => cases done
      | _ => cases done

/-! ### Globals -/

/-- The built-in declarations stand before all others. -/
structure Grounded (builtin : List Declaration) (scopes : Scopes) : Prop where
  globals : scopes.globals = builtin.length
  first : builtin <+: scopes.declared
  starts : ∀ scope ∈ scopes.inner, builtin.length ≤ scope.start

variable {builtin : List Declaration} {before after scopes : Scopes} {nest : Nest}

theorem Grounded.cut (grounded : Grounded builtin before) {stop : Nat} (above : builtin.length ≤ stop)
    (kept : ∀ scope ∈ after.inner, scope ∈ before.inner) (same : after.globals = before.globals)
    (declared : after.declared = before.declared.take stop) : Grounded builtin after := by
  refine ⟨same.trans grounded.globals, ?_, fun scope opened => grounded.starts scope (kept scope opened)⟩
  rw [declared]
  exact List.prefix_take_iff.mpr ⟨grounded.first, above⟩

theorem Grounded.reset (grounded : Grounded builtin scopes) :
    scopes.reset = ⟨[], builtin, builtin.length⟩ := by
  unfold Scopes.reset
  rw [grounded.globals, ← List.prefix_iff_eq_take.mp grounded.first]

theorem ScopeStep.leave_ok (done : run .leave before = .ok after) : ∃ outer scope,
    before.inner = outer ++ [scope] ∧
      after = { before with inner := outer, declared := before.declared.take scope.start } := by
  change before.leave.map (·.2) = .ok after at done
  unfold Scopes.leave at done
  split at done
  next => cases done
  next scope last =>
    cases done
    obtain ⟨outer, split⟩ := List.getLast?_eq_some_iff.mp last
    exact ⟨outer, scope, split, by rw [split, List.dropLast_concat]⟩

theorem ScopeStep.add_ok {name : Symbol} {kind : DeclKind} {pos : Position}
    (done : run (.add name kind pos) before = .ok after) :
    after = { before with declared := before.declared ++ [⟨name, kind, some pos⟩] } := by
  change (before.add name kind pos).map (·.2) = .ok after at done
  unfold Scopes.add at done
  split at done
  next => cases done
  next =>
    cases done
    rfl

theorem Grounded.step {step : ScopeStep} (grounded : Grounded builtin before)
    (done : step.run before = .ok after) : Grounded builtin after := by
  obtain ⟨globals, first, starts⟩ := grounded
  cases step with
  | enter kind =>
    cases done
    refine ⟨globals, first, ?_⟩
    intro scope opened
    rcases List.mem_append.mp opened with old | new
    · exact starts scope old
    · rw [List.mem_singleton.mp new]
      exact first.length_le
  | leave =>
    obtain ⟨outer, scope, split, rfl⟩ := ScopeStep.leave_ok done
    have opened : scope ∈ before.inner := split ▸ List.mem_append_right outer (.head _)
    exact Grounded.cut ⟨globals, first, starts⟩ (starts scope opened)
      (fun _ kept => split ▸ List.mem_append_left _ kept) rfl rfl
  | add name kind pos =>
    obtain rfl := ScopeStep.add_ok done
    exact ⟨globals, first.trans (List.prefix_append ..), starts⟩
  | reset =>
    cases done
    rw [Grounded.reset ⟨globals, first, starts⟩]
    exact ⟨rfl, List.prefix_rfl, nofun⟩

theorem Rewound.grounded {start : Scopes} {marks : List Mark} (grounded : Grounded builtin start)
    (reached : Rewound start marks scopes) :
    Grounded builtin scopes ∧ ∀ mark ∈ marks, builtin.length ≤ mark.declared := by
  induction reached with
  | start => exact ⟨grounded, nofun⟩
  | step _ done ih => exact ⟨ih.1.step done, ih.2⟩
  | mark _ ih =>
    refine ⟨ih.1, ?_⟩
    rw [List.forall_mem_cons]
    exact ⟨ih.1.first.length_le, ih.2⟩
  | rewind _ made ih =>
    exact ⟨ih.1.cut (ih.2 _ made) (fun _ => List.mem_of_mem_take) rfl rfl, ih.2⟩

/-! ### Flat and nested scopes -/

theorem ScopeStep.run_flatten (grounded : Grounded builtin nest.flatten) (step : ScopeStep) :
    step.run nest.flatten =
      (step.runNested ⟨[], builtin, builtin.length⟩ nest).map Nest.flatten := by
  cases step with
  | enter kind => exact congrArg Except.ok (nest.flatten_enter kind)
  | leave =>
    obtain ⟨inner, root, globals⟩ := nest
    cases inner with
    | nil => rfl
    | cons layer outer =>
      exact congrArg (Except.map (·.2)) (Nest.flatten_leave ⟨layer :: outer, root, globals⟩ layer outer rfl)
  | add name kind pos => exact congrArg (Except.map (·.2)) (nest.flatten_add name kind pos)
  | reset => exact congrArg Except.ok grounded.reset

theorem runSteps_flatten (grounded : Grounded builtin nest.flatten) (steps : List ScopeStep) :
    runSteps steps nest.flatten =
      (runNested ⟨[], builtin, builtin.length⟩ steps nest).map Nest.flatten := by
  induction steps generalizing nest with
  | nil => rfl
  | cons step steps ih =>
    have same := step.run_flatten grounded
    rw [runSteps, runNested, List.foldlM_cons, List.foldlM_cons, same]
    cases done : step.runNested ⟨[], builtin, builtin.length⟩ nest with
    | error fault => rfl
    | ok next =>
      rw [done] at same
      exact ih (grounded.step same)

theorem Grounded.run {steps : List ScopeStep} (grounded : Grounded builtin before)
    (done : runSteps steps before = .ok after) : Grounded builtin after := by
  induction steps generalizing before with
  | nil =>
    cases done
    exact grounded
  | cons step steps ih =>
    rw [runSteps, List.foldlM_cons] at done
    cases first : step.run before with
    | error fault =>
      rw [first] at done
      cases done
    | ok next =>
      rw [first] at done
      exact ih (grounded.step first) done

theorem runSteps_ok {next : Nest} {steps : List ScopeStep} (grounded : Grounded builtin nest.flatten)
    (done : runNested ⟨[], builtin, builtin.length⟩ steps nest = .ok next) :
    runSteps steps nest.flatten = .ok next.flatten := by
  rw [runSteps_flatten grounded, done]
  rfl

/-- The flat scopes behave as nested ones that start from the globals alone. The only fault of a run is
to close the root. In every state that a run leads to, all questions are answered from the
nested scopes; a scope that is opened and closed leaves nothing behind, whatever was opened and
declared in it; and a declaration is found under its ref until its scope is closed or all are
reset. Resetting leads back to the globals alone also after rewinding out of order. -/
theorem scopes_behave_nested (globals : Globals) (interner : Interner) :
    let start := (Scopes.ofGlobals globals interner).1
    let first : Nest := ⟨[], start.declared, start.declared.length⟩
    (∀ steps, match runNested first steps first with
      | .error fault => fault = .rootScopeEnded ∧ runSteps steps start = .error .rootScopeEnded
      | .ok nest => ∃ scopes, runSteps steps start = .ok scopes ∧ Shows scopes nest ∧
        (∀ kind inside, openAbove 0 inside = some 0 → ∃ inner,
          runSteps (.enter kind :: inside) scopes = .ok inner ∧ inner.leave = .ok (kind, scopes)) ∧
        ∀ name kind pos, ∃ ref added, scopes.add name kind pos = .ok (ref, added) ∧
          ∀ later above, openAbove 0 later = some above → ∃ final,
            runSteps later added = .ok final ∧ final.get? ref = .ok (some ⟨name, kind, some pos⟩)) ∧
    ∀ marks scopes, Rewound start marks scopes → scopes.reset = start := by
  intro start first
  have grounded : Grounded start.declared first.flatten := ⟨rfl, List.prefix_rfl, nofun⟩
  refine ⟨fun steps => ?_, fun marks scopes reached => (reached.grounded grounded).1.reset⟩
  cases ran : runNested first steps first with
  | error fault =>
    obtain rfl := runNested_error ran
    have flat : runSteps steps start = (runNested first steps first).map Nest.flatten :=
      runSteps_flatten grounded steps
    exact ⟨rfl, by rw [flat, ran]; rfl⟩
  | ok nest =>
    have flat : runSteps steps start = .ok nest.flatten := runSteps_ok grounded ran
    have reached := grounded.run flat
    refine ⟨nest.flatten, flat, nest.flatten_shows, ?_, ?_⟩
    · intro kind inside closed
      obtain ⟨added, done⟩ := Nest.run_closed first nest kind closed
      exact ⟨_, runSteps_ok reached done, Nest.flatten_leave _ ⟨kind, [] ++ added⟩ nest.inner rfl⟩
    · intro name kind pos
      have declared := nest.flatten_add name kind pos
      refine ⟨_, _, declared, ?_⟩
      intro later above inside
      obtain ⟨more, last, _, done⟩ := Nest.run_inside first nest inside [⟨name, kind, some pos⟩] [] rfl
      have added : ScopeStep.run (.add name kind pos) nest.flatten =
          .ok (nest.declare [⟨name, kind, some pos⟩]).flatten :=
        congrArg (Except.map Prod.snd) declared
      refine ⟨_, runSteps_ok (reached.step added) done, ?_⟩
      rw [Nest.flatten_get?]
      exact congrArg Except.ok (nest.get?_inside ⟨name, kind, some pos⟩ more last)

/-- A function that is declared beside a global of its name, in whose body a block is opened and closed;
and a state after rewinding to a scope that was closed, where looking a name up is a fault. -/
theorem scopes_behave_nested_rewound :
    let start := (Scopes.ofGlobals [("a", .varDecl)] Interner.empty).1
    let name : Symbol := ⟨1⟩
    (∃ scopes inner, runSteps [.add name .functionDecl ⟨1, 0, ⟨0⟩⟩] start = .ok scopes ∧
      scopes.find? name none = .ok (some ⟨name, .varDecl, none⟩) ∧
      scopes.find? name (some .functionDecl) = .ok (some ⟨name, .functionDecl, some ⟨1, 0, ⟨0⟩⟩⟩) ∧
      runSteps [.enter .functionBody, .enter .ifBody, .add name .varDecl ⟨2, 0, ⟨0⟩⟩, .leave] scopes =
        .ok inner ∧ inner.leave = .ok (.functionBody, scopes)) ∧
    ∃ marks scopes, Rewound start marks scopes ∧ scopes.find? name none = .error .badIndex ∧
      scopes.reset = start := by
  intro start name
  obtain ⟨runs, resets⟩ := scopes_behave_nested [("a", .varDecl)] Interner.empty
  constructor
  · obtain ⟨scopes, done, shows, closes, _⟩ := runs [.add name .functionDecl ⟨1, 0, ⟨0⟩⟩]
    obtain ⟨inner, opened, closed⟩ :=
      closes .functionBody [.enter .ifBody, .add name .varDecl ⟨2, 0, ⟨0⟩⟩, .leave] rfl
    exact ⟨scopes, inner, done, shows.find _ _, shows.find _ _, opened, closed⟩
  · have inside : Rewound start _ _ :=
      .mark (.step .start (rfl : ScopeStep.run (.enter .ifBody) start = .ok _))
    have again : Rewound start _ _ := .step (.step (.step inside
      (rfl : ScopeStep.run .leave _ = .ok _))
      (rfl : ScopeStep.run (.add name .varDecl ⟨1, 0, ⟨0⟩⟩) _ = .ok _))
      (rfl : ScopeStep.run (.enter .elseBody) _ = .ok _)
    have reached := again.rewind (.head _)
    exact ⟨_, _, reached, rfl, resets _ _ reached⟩

end Arcade.Proofs
