import Arcade.Proofs.IncludeNesting
import Arcade.Proofs.TextPlaces

/-! What a directive leaves behind. An included source that fails leaves its errors and that of the directive,
and nothing else. One that succeeds leaves what a tokenizer without constants makes of it alone, as its
scan knows nothing of the source around it but the names asked for so far. -/

namespace Arcade.Proofs.Scanning
open Arcade.Indent Arcade.Scan

variable {resolver : Resolver} {nested nested' : Option (Nat × Scanner)} {path : Symbol}
  {lexeme directive : Lexeme} {text : List Char} {source : String} {output inner : Output}
  {progress next : Progress} {after : Session} {point : Point} {passed asked : List String} {depth : Nat}

/-! ### Scans that know less

Where a scan has no errors, it goes the same way in fewer directives, and if not it but somebody else asked for
the first names. -/

/-- The resolver as it answers when these names have been asked for. -/
def answersAfter (resolver : Resolver) (passed : List String) : Resolver := fun asked => resolver (passed ++ asked)

def asking (asked : List String) (progress : Progress) : Progress :=
  { progress with session := { progress.session with asked } }

def Point.again (point : Point) (depth : Nat) (asked : List String) : Point :=
  { point with depth, progress := asking asked point.progress }

theorem define_asking (session : Session) (name : Symbol) (tokens : List Token) :
    ({ session with asked } : Session).define name tokens =
      ((session.define name tokens).1, { (session.define name tokens).2 with asked }) := by
  unfold Session.define
  split <;> rfl

theorem append_asking (progress : Progress) (cursor : Cursor) (token : Token) :
    (asking asked progress).append cursor token =
      Prod.map id (asking asked) (progress.append cursor token) := by
  obtain ⟨session, directive, annotated⟩ := progress
  unfold Progress.append
  cases directive with
  | none =>
    show Progress.place _ _ (expand session.constants token) =
      Prod.map id _ (Progress.place _ _ (expand session.constants token))
    cases expand session.constants token <;> rfl
  | name pos =>
    dsimp only [asking]
    split <;> rfl
  | body name tokens =>
    dsimp only [asking]
    split
    · rw [define_asking]
      rfl
    · rfl

theorem finish_asking (progress : Progress) :
    (asking asked progress).finish = (progress.finish.1, { progress.finish.2 with asked }) := by
  obtain ⟨session, directive, annotated⟩ := progress
  cases directive with
  | none | name pos => rfl
  | body name tokens => exact define_asking ..

/-- Only directives ask for names. -/
theorem visit_asking (other : lexeme.rule ≠ .inclusion)
    (visited : visit resolver nested path lexeme progress = .ok (output, next)) (resolver' : Resolver) :
    visit resolver' nested' path lexeme (asking asked progress) = .ok (output, asking asked next) := by
  obtain ⟨rule, text, cursor⟩ := lexeme
  cases known : fixedKind? rule text with
  | some kind =>
    rw [visit_fixed known] at visited ⊢
    rw [append_asking, Except.ok.inj visited]
    rfl
  | none =>
    by_cases isName : rule = .identifier
    · subst isName
      let interned := progress.session.interner.intern (String.ofList text)
      let named : Progress := { progress with session := { progress.session with interner := interned.2 } }
      have made : named.append cursor (tokenAt path text cursor (.identifier interned.1)) = (output, next) :=
        Except.ok.inj visited
      show Except.ok ((asking asked named).append cursor (tokenAt path text cursor (.identifier interned.1))) = _
      rw [append_asking, made]
      rfl
    cases wordless known other isName with
    | gap _ visits | mistake _ _ _ visits | constant _ _ visits =>
      rw [visits] at visited ⊢
      cases visited
      rfl
    | misspelled fault visits =>
      rw [visits] at visited
      cases visited

theorem Directed.visits (isInclusion : directive.rule = .inclusion)
    (directed : Directed resolver point directive output next) :
    point.visit resolver directive = .ok (output, next) := by
  unfold Point.visit visit include? nestedAt
  simp only [isInclusion]
  change Except.bind _ _ = _
  cases directed with
  | tooDeep deep =>
    rw [if_neg (Nat.not_lt_of_le deep)]
    rfl
  | refused shallow refused =>
    unfold sourceName at refused ⊢
    simp only [if_pos shallow, refused]
    rfl
  | spliced shallow answered ran clean =>
    rw [Point.included, run_start shallow] at ran
    unfold sourceName at answered ran ⊢
    simp only [if_pos shallow, answered, ran, Except.bind, bind, clean, List.isEmpty_nil, if_true]
    rfl
  | rejected shallow answered ran failed =>
    rw [Point.included, run_start shallow] at ran
    unfold sourceName at answered ran ⊢
    simp only [if_pos shallow, answered, ran, Except.bind, bind, List.isEmpty_iff, if_neg failed]
    rfl

theorem visit_stopped {fault : Fault} (isInclusion : directive.rule = .inclusion)
    (shallow : point.depth < maxIncludeDepth)
    (answered : resolver point.progress.session.asked (sourceName directive) = .ok source)
    (stopped : (point.included (sourceName directive) source).run resolver = .error fault) :
    point.visit resolver directive = .error fault := by
  rw [Point.included, run_start shallow] at stopped
  unfold Point.visit visit include? nestedAt
  unfold sourceName at answered stopped
  simp only [isInclusion, if_pos shallow, answered, stopped, Except.bind, bind]

/-- A scan without errors does the same in fewer directives, when the names before were asked for by another. -/
theorem run_again (completed : point.run resolver = .ok (output, after)) (clean : output.errors = [])
    (before : point.progress.session.asked = passed ++ asked) (shallower : depth ≤ point.depth) :
    ∃ again asked', (point.again depth asked).run (answersAfter resolver passed) =
        .ok (again, { after with asked := asked' }) ∧
      after.asked = passed ++ asked' ∧ again.tokens = output.tokens ∧ again.errors = [] := by
  -- Included sources are not parts of the one around them, so the induction is on the steps of the scan.
  induction point using (steps_wellFounded resolver).induction generalizing depth asked output after with
  | _ point ih =>
    cases here : point.rest with
    | nil =>
      have done := run_nil here completed
      refine ⟨output, asked, ?_, ?_, rfl, clean⟩
      · unfold Point.run
        rw [show (point.again depth asked).rest = [] from here]
        show Except.ok (asking asked point.progress).finish = _
        rw [finish_asking, done]
      · have quiet := (finish_quiet point.progress).2
        rwa [done, before] at quiet
    | cons lexeme rest =>
      obtain ⟨found, next, following, visited, onward, rfl⟩ := (run_cons here).mp completed
      obtain ⟨clean, cleanAfter⟩ := List.append_eq_nil_iff.mp clean
      have step := Advances.intro here visited
      -- what is left to show once the lexeme is visited again
      have advance {output : Output} {asked' : List String}
          (visits : (point.again depth asked).visit (answersAfter resolver passed) lexeme =
            .ok (output, asking asked' next)) (same : next.session.asked = passed ++ asked')
          (tokens : output.tokens = found.tokens) (errors : output.errors = []) :
          ∃ again asked', (point.again depth asked).run (answersAfter resolver passed) =
              .ok (again, { after with asked := asked' }) ∧
            after.asked = passed ++ asked' ∧ again.tokens = (found ++ following).tokens ∧ again.errors = [] := by
        obtain ⟨more, asked'', runs, names, tokens', errors'⟩ := ih _ (.inl step) onward cleanAfter same shallower
        refine ⟨output ++ more, asked'', ?_, names, ?_, ?_⟩
        · exact (run_cons (show (point.again depth asked).rest = _ from here)).mpr ⟨_, _, _, visits, runs, rfl⟩
        · exact congrArg₂ (· ++ ·) tokens tokens'
        · exact List.append_eq_nil_iff.mpr ⟨errors, errors'⟩
      by_cases isInclusion : lexeme.rule = .inclusion
      · cases visit_directive isInclusion visited with
        | tooDeep | refused => cases clean
        | rejected => cases (List.append_eq_nil_iff.mp clean).2
        | @spliced text inner last shallow answered ran _ =>
          have there : point.At lexeme := ⟨by rw [here]; rfl, isInclusion⟩
          have inside : (point.included (sourceName lexeme) text).progress.session.asked =
              passed ++ (asked ++ [sourceName lexeme]) := by
            rw [← List.append_assoc, ← before]
            rfl
          obtain ⟨again, asked', runs, names, tokens, errors⟩ :=
            ih _ (.inr (.intro there shallow answered)) ran clean inside (Nat.succ_le_succ shallower)
          rw [before] at answered
          have visits : (point.again depth asked).visit (answersAfter resolver passed) lexeme = _ :=
            (Directed.spliced (Nat.lt_of_le_of_lt shallower shallow) answered runs errors).visits isInclusion
          refine advance visits names ?_ errors
          show shift _ (addBlockEnds again.tokens) = shift _ (addBlockEnds inner.tokens)
          rw [tokens]
      · have same := (visit_undirected isInclusion visited).asked
        exact advance (visit_asking isInclusion visited _) (same.trans before) rfl clean

/-! ### Directives -/

/-- The directive adds nothing but errors: those of its source, and then one of its own. -/
def Fails (resolver : Resolver) (point : Point) (directive : Lexeme) (nested : List Scan.Error)
    (failure : IncludeFailure) : Prop :=
  ∃ output next, point.visit resolver directive = .ok (output, next) ∧
    output.tokens = [] ∧
    output.errors = nested ++ [⟨.inclusion (sourceName directive) failure, directive.pos point.path⟩] ∧
    next.session.constants = point.progress.session.constants ∧
    next.directive = point.progress.directive ∧ next.annotated = point.progress.annotated

def Point.knowing (point : Point) (constants : Constants) : Point :=
  { point with progress := { point.progress with session := { point.progress.session with constants } } }

/-- The directive adds the tokens of the source tokenized alone, nested as deep as its line, and the constants
that are defined there go before those that were. What these were has no influence. -/
def Splices (resolver : Resolver) (point : Point) (directive : Lexeme) (indent : Nat) (source : String) : Prop :=
  let session := point.progress.session
  let (path, interner) := session.interner.intern (sourceName directive)
  ∃ result last output next,
    (Tokenizer.mk interner session.constants).reset.tokenize
      (answersAfter resolver (session.asked ++ [sourceName directive])) path source = .ok (result, last) ∧
    result.errors = [] ∧
    point.visit resolver directive = .ok (output, next) ∧
    output.errors = [] ∧
    output.tokens = shift indent result.tokens ∧
    (∀ name, next.session.constants.lookup name = (last.constant? name).or (session.constants.lookup name)) ∧
    (∀ constants, ∃ other, (point.knowing constants).visit resolver directive = .ok (output, other)) ∧
    next.session.interner = last.interner ∧
    next.directive = point.progress.directive ∧ next.annotated = point.progress.annotated

theorem splices_of_run (isInclusion : directive.rule = .inclusion) (shallow : point.depth < maxIncludeDepth)
    (answered : resolver point.progress.session.asked (sourceName directive) = .ok source)
    (ran : (point.included (sourceName directive) source).run resolver = .ok (inner, after))
    (clean : inner.errors = []) : Splices resolver point directive directive.start.indent source := by
  have visits {constants : Constants} := Directed.visits isInclusion
    (.spliced (show (point.knowing constants).depth < maxIncludeDepth from shallow) answered ran clean)
  obtain ⟨alone, asked, runs, _, tokens, errors⟩ :=
    run_again ran clean (List.append_nil _).symm (Nat.zero_le _)
  change (Point.start 0 _ source.toList _).run _ = _ at runs
  rw [run_start (Nat.zero_le _)] at runs
  refine ⟨⟨addBlockEnds alone.tokens, alone.errors, alone.events⟩, ⟨after.interner, after.constants⟩, _, _,
    Except.bind_ok.mpr ⟨_, runs, rfl⟩, errors, visits, clean, ?_, fun name => List.lookup_append,
    fun constants => ⟨_, visits⟩, rfl, rfl, rfl⟩
  show shift _ (addBlockEnds inner.tokens) = shift _ (addBlockEnds alone.tokens)
  rw [tokens]

/-- Whatever was scanned before it and however deep it is, a directive changes nothing or does all it is to do.
Only a fault in the included source is a fault of the directive. -/
theorem include_atomic (resolver : Resolver) (point : Point) (member : directive ∈ lexemes text)
    (isInclusion : directive.rule = .inclusion) :
    if maxIncludeDepth ≤ point.depth then Fails resolver point directive [] .tooDeep
    else match resolver point.progress.session.asked (sourceName directive) with
      | .error reason => Fails resolver point directive [] (.unreadable reason)
      | .ok source =>
        match (point.included (sourceName directive) source).run resolver with
        | .error fault => point.visit resolver directive = .error fault
        | .ok (inner, _) =>
          if inner.errors = [] then
            ∃ line, (Text.split '\n' text)[directive.start.line - 1]? = some line ∧
              Splices resolver point directive (indentOf line) source
          else Fails resolver point directive inner.errors (.errors inner.errors.length) := by
  split
  next deep => exact ⟨_, _, (Directed.tooDeep deep).visits isInclusion, rfl, rfl, rfl, rfl, rfl⟩
  next shallow =>
    have shallow := Nat.lt_of_not_le shallow
    split
    next refused => exact ⟨_, _, (Directed.refused shallow refused).visits isInclusion, rfl, rfl, rfl, rfl, rfl⟩
    next answered =>
      split
      next stopped => exact visit_stopped isInclusion shallow answered stopped
      next ran =>
        split
        next clean =>
          obtain ⟨line, here, indent⟩ := lexemesAfter_lines [] text directive (lexemes_eq text ▸ member)
          exact ⟨line, here, indent ▸ splices_of_run isInclusion shallow answered ran clean⟩
        next failed =>
          exact ⟨_, _, (Directed.rejected shallow answered ran failed).visits isInclusion, rfl, rfl, rfl, rfl, rfl⟩

/-- The third source defines a constant, but the second one has an error, so the first one gets nothing. -/
theorem include_atomic_of_unexpected :
    let resolver : Resolver := fun _ name => .ok (if name = "a" then "#\"b\" ?" else "CONST B 2")
    let directive : Lexeme := ⟨.inclusion, "#\"a\"".toList, ⟨1, 1, 1, 1⟩⟩
    let point : Point := ⟨3, ⟨0⟩, [], { session := { interner := Interner.empty, constants := [(⟨7⟩, [])] } }⟩
    ∃ output next, point.visit resolver directive = .ok (output, next) ∧
      output.tokens = [] ∧ next.session.constants = [(⟨7⟩, [])] ∧
      output.errors.map (·.kind) = [.unexpected '?', .inclusion "a" (.errors 1)] := by
  intro resolver directive point
  have member : directive ∈ lexemes "\t#\"a\"".toList := by decide +kernel
  have made : ((point.included "a" "#\"b\" ?").run resolver).toOption.map (·.1.errors.map (·.kind)) =
      some [.unexpected '?'] := by
    decide +kernel
  have asked : resolver point.progress.session.asked (sourceName directive) = .ok "#\"b\" ?" := rfl
  have atomic := include_atomic resolver point member rfl
  rw [if_neg (by decide), asked, show sourceName directive = "a" from rfl] at atomic
  cases ran : (point.included "a" "#\"b\" ?").run resolver with
  | error fault =>
    rw [ran] at made
    cases made
  | ok result =>
    obtain ⟨inner, after⟩ := result
    rw [ran] at made
    have kinds : inner.errors.map (·.kind) = [.unexpected '?'] := Option.some.inj made
    have count : inner.errors.length = 1 := by rw [← List.length_map, kinds, List.length_singleton]
    have failed : inner.errors ≠ [] := List.ne_nil_of_length_pos (by rw [count]; exact Nat.one_pos)
    simp only [ran, if_neg failed] at atomic
    obtain ⟨output, next, visited, tokens, errors, constants, _⟩ := atomic
    refine ⟨output, next, visited, tokens, constants, ?_⟩
    rw [errors, List.map_append, kinds, count]
    rfl

end Arcade.Proofs.Scanning
