import Arcade.Proofs.ScopeRuns

/-! Rewinding. A mark holds two lengths only. They are enough as long as no scope that was open at
the mark is closed: what stood below the mark then still stands there, and every scope opened since
starts above it, so that closing one, or rewinding to a later mark, cannot cut into it. -/

namespace Arcade.Proofs

/-- States that are reached from a marked one while the scopes that were open there stay open. One may
rewind to any of the marks made on the way, also out of order. -/
inductive Since (marked : Scopes) : List Mark → Scopes → Prop
  | start : Since marked [] marked
  | step {marks before after} {step : ScopeStep} (reached : Since marked marks before)
      (done : step.run before = .ok after) (keeps : step ≠ .reset)
      (inside : marked.depth ≤ after.depth) : Since marked marks after
  | mark {marks scopes} (reached : Since marked marks scopes) :
      Since marked (scopes.mark :: marks) scopes
  | rewind {marks scopes mark} (reached : Since marked marks scopes) (made : mark ∈ marks) :
      Since marked marks (scopes.rewind mark)

/-- What was there at the mark is there still, and the scopes opened since start behind it. -/
structure StandsBelow (marked scopes : Scopes) : Prop where
  inner : marked.inner <+: scopes.inner
  declared : marked.declared <+: scopes.declared
  globals : scopes.globals = marked.globals
  starts : ∀ scope ∈ scopes.inner.drop marked.inner.length, marked.declared.length ≤ scope.start

namespace StandsBelow

variable {marked before after scopes : Scopes}

theorem refl (marked : Scopes) : StandsBelow marked marked := by
  refine ⟨List.prefix_rfl, List.prefix_rfl, rfl, ?_⟩
  rw [List.drop_length]
  exact nofun

theorem rewind (below : StandsBelow marked scopes) : scopes.rewind marked.mark = marked := by
  have inner : scopes.inner.take marked.inner.length = marked.inner :=
    (List.prefix_iff_eq_take.mp below.inner).symm
  have declared : scopes.declared.take marked.declared.length = marked.declared :=
    (List.prefix_iff_eq_take.mp below.declared).symm
  simp only [Scopes.rewind, Scopes.mark, Scopes.depth, Nat.add_sub_cancel, inner, declared, below.globals]

/-- Cutting both lists behind the mark. -/
theorem cut (below : StandsBelow marked before) {height stop : Nat} (inside : marked.inner.length ≤ height)
    (above : marked.declared.length ≤ stop) :
    StandsBelow marked
      { before with inner := before.inner.take height, declared := before.declared.take stop } := by
  refine ⟨List.prefix_take_iff.mpr ⟨below.inner, inside⟩, List.prefix_take_iff.mpr ⟨below.declared, above⟩,
    below.globals, fun scope opened => below.starts scope ?_⟩
  change scope ∈ (before.inner.take height).drop _ at opened
  rw [List.drop_take] at opened
  exact List.mem_of_mem_take opened

theorem enter (below : StandsBelow marked scopes) (kind : ScopeKind) :
    StandsBelow marked (scopes.enter kind) := by
  refine ⟨below.inner.trans (List.prefix_append ..), below.declared, below.globals, fun scope opened => ?_⟩
  change scope ∈ (scopes.inner ++ [_]).drop _ at opened
  rw [List.drop_append_of_le_length below.inner.length_le] at opened
  rcases List.mem_append.mp opened with old | new
  · exact below.starts scope old
  · rw [List.mem_singleton.mp new]
    exact below.declared.length_le

theorem add (below : StandsBelow marked before) {name : Symbol} {kind : DeclKind} {pos : Position}
    (done : ScopeStep.run (.add name kind pos) before = .ok after) : StandsBelow marked after := by
  obtain rfl := ScopeStep.add_ok done
  exact ⟨below.inner, below.declared.trans (List.prefix_append ..), below.globals, below.starts⟩

/-- The scope that is closed was opened since the mark, as all the others are still open. -/
theorem leave (below : StandsBelow marked before) (done : ScopeStep.run .leave before = .ok after)
    (inside : marked.depth ≤ after.depth) : StandsBelow marked after := by
  obtain ⟨outer, scope, split, rfl⟩ := ScopeStep.leave_ok done
  have kept : marked.inner.length ≤ outer.length := Nat.le_of_succ_le_succ inside
  have opened : scope ∈ before.inner.drop marked.inner.length := by
    rw [split, List.drop_append_of_le_length kept]
    exact List.mem_append_right _ (.head _)
  have cut := below.cut kept (below.starts scope opened)
  rwa [split, List.take_left] at cut

theorem step {step : ScopeStep} (below : StandsBelow marked before)
    (done : step.run before = .ok after) (keeps : step ≠ .reset)
    (inside : marked.depth ≤ after.depth) : StandsBelow marked after := by
  cases step with
  | enter kind =>
    cases done
    exact below.enter kind
  | leave => exact below.leave done inside
  | add name kind pos => exact below.add done
  | reset => exact absurd rfl keeps

end StandsBelow

variable {marked scopes : Scopes} {marks : List Mark}

/-- The marks made on the way point behind the first one. -/
theorem Since.standsBelow (reached : Since marked marks scopes) : StandsBelow marked scopes ∧
    ∀ mark ∈ marks, marked.depth ≤ mark.depth ∧ marked.declared.length ≤ mark.declared := by
  induction reached with
  | start => exact ⟨.refl marked, nofun⟩
  | step _ done keeps inside ih => exact ⟨ih.1.step done keeps inside, ih.2⟩
  | mark _ ih =>
    refine ⟨ih.1, ?_⟩
    rw [List.forall_mem_cons]
    exact ⟨⟨Nat.succ_le_succ ih.1.inner.length_le, ih.1.declared.length_le⟩, ih.2⟩
  | rewind _ made ih =>
    obtain ⟨deep, long⟩ := ih.2 _ made
    exact ⟨ih.1.cut (Nat.le_sub_of_add_le deep) long, ih.2⟩

/-- What a run leads to are nested scopes. -/
theorem runSteps_nested {globals : Globals} {interner : Interner} {steps : List ScopeStep}
    (reached : runSteps steps (Scopes.ofGlobals globals interner).1 = .ok scopes) :
    ∃ nest : Nest, scopes = nest.flatten := by
  let start := (Scopes.ofGlobals globals interner).1
  let first : Nest := ⟨[], start.declared, start.declared.length⟩
  have grounded : Grounded start.declared first.flatten := ⟨rfl, List.prefix_rfl, nofun⟩
  have flat : runSteps steps start = (runNested first steps first).map Nest.flatten :=
    runSteps_flatten grounded steps
  rw [reached] at flat
  cases ran : runNested first steps first with
  | error fault =>
    rw [ran] at flat
    cases flat
  | ok nest =>
    rw [ran] at flat
    exact ⟨nest, Except.ok.inj flat⟩

/-- Rewinding restores the marked state, with its scopes, its declarations and their order, whatever was
opened, closed, declared, marked and rewound in between, if only no scope was closed that was open at
the mark. So every name is found again, or missing again, as it was at the mark. -/
theorem rewind_restores (globals : Globals) (interner : Interner) (steps : List ScopeStep)
    {marked later : Scopes} {marks : List Mark}
    (reached : runSteps steps (Scopes.ofGlobals globals interner).1 = .ok marked)
    (since : Since marked marks later) :
    later.rewind marked.mark = marked ∧
      ∀ name kind, ∃ found, marked.find? name kind = .ok found ∧
        (later.rewind marked.mark).find? name kind = .ok found := by
  have restored : later.rewind marked.mark = marked := since.standsBelow.1.rewind
  obtain ⟨nest, rfl⟩ := runSteps_nested reached
  refine ⟨restored, fun name kind => ⟨nest.find? name kind, nest.flatten_find? name kind, ?_⟩⟩
  rw [restored]
  exact nest.flatten_find? name kind

/-- In a function, a block is opened, marked and closed, a name is declared and another block is opened.
Rewinding to the mark of the closed block takes the name, but not the block behind it. -/
theorem rewind_restores_out_of_order :
    let name : Symbol := ⟨1⟩
    let declare : ScopeStep := .add name .varDecl ⟨1, 0, ⟨0⟩⟩
    let marked : Scopes :=
      ⟨[⟨.functionBody, 1⟩], [⟨name, .varDecl, none⟩, ⟨name, .varDecl, some ⟨1, 0, ⟨0⟩⟩⟩], 1⟩
    ∃ marks later,
      runSteps [.enter .functionBody, declare] (Scopes.ofGlobals [("a", .varDecl)] Interner.empty).1 =
        .ok marked ∧
      Since marked marks later ∧ later.depth = 3 ∧ later.find? name none = .error .badIndex ∧
      later.rewind marked.mark = marked ∧
      (later.rewind marked.mark).find? name none = .ok (some ⟨name, .varDecl, some ⟨1, 0, ⟨0⟩⟩⟩) := by
  intro name declare marked
  have block : Since marked _ _ :=
    .mark (.step .start (rfl : ScopeStep.run (.enter .ifBody) marked = .ok _) nofun (by decide))
  have closed : Since marked _ _ :=
    .step block (rfl : ScopeStep.run .leave _ = .ok marked) nofun (by decide)
  have declared : Since marked _ _ := .step closed (rfl : declare.run marked = .ok _) nofun (by decide)
  have again : Since marked _ _ :=
    .step declared (rfl : ScopeStep.run (.enter .elseBody) _ = .ok _) nofun (by decide)
  have since := again.rewind (.head _)
  have reached : runSteps [.enter .functionBody, declare]
    (Scopes.ofGlobals [("a", .varDecl)] Interner.empty).1 = .ok marked := rfl
  obtain ⟨restored, finds⟩ := rewind_restores [("a", .varDecl)] Interner.empty _ reached since
  obtain ⟨found, before, after⟩ := finds name none
  exact ⟨_, _, reached, since, rfl, rfl, restored, after.trans (before.symm.trans rfl)⟩

/-- Closing a scope that was open at the mark cannot be taken back. -/
example :
    let marked : Scopes := Scopes.enter ⟨[], [], 0⟩ .ifBody
    ∃ outer, marked.leave = .ok (.ifBody, outer) ∧
      (outer.enter .elseBody).rewind marked.mark ≠ marked :=
  ⟨⟨[], [], 0⟩, rfl, by decide⟩

end Arcade.Proofs
