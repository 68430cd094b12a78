import Mathlib.Order.WellFounded
import Arcade.Proofs.LexemeMeaning
import Arcade.Proofs.ScanCompletion

/-! How deep sources include each other. A scan advances over its source lexeme by lexeme, and at a directive
it enters the included source unless that would be too deep. Both together cannot go on forever, so every
scan ends. An error in the deepest source comes back through all the directives that lead to it. -/

namespace Arcade.Proofs.Scanning
open Arcade.Indent Arcade.Scan

variable {resolver : Resolver} {path : Symbol}
  {lexeme directive : Lexeme} {output : Output} {progress next : Progress} {session after : Session}

/-! ### Where a scan stands -/

/-- Where a scan stands: how many directives it is in, and what is left of the source. -/
structure Point where
  depth : Nat
  path : Symbol
  rest : List Lexeme
  progress : Progress

variable {point first last : Point} {entered : List Point} {errors : List Scan.Error}

/-- The scanner for what is included at a depth. -/
def nestedAt (resolver : Resolver) (depth : Nat) : Option (Nat × Scanner) :=
  if depth < maxIncludeDepth then some (depth + 1, scan resolver (maxIncludeDepth - (depth + 1))) else none

namespace Point

def start (depth : Nat) (path : Symbol) (text : List Char) (session : Session) : Point :=
  ⟨depth, path, lexemes text, { session }⟩

def run (resolver : Resolver) (point : Point) : Except Fault (Output × Session) :=
  visitAll resolver (nestedAt resolver point.depth) point.path point.rest point.progress

/-- The next lexeme is a directive that includes a source. -/
def At (point : Point) (directive : Lexeme) : Prop :=
  point.rest.head? = some directive ∧ directive.rule = .inclusion

def visit (resolver : Resolver) (point : Point) (lexeme : Lexeme) : Except Fault (Output × Progress) :=
  Scan.visit resolver (nestedAt resolver point.depth) point.path lexeme point.progress

def included (point : Point) (name text : String) : Point :=
  start (point.depth + 1) (point.progress.session.interner.intern name).1 text.toList
    { point.progress.session with
      interner := (point.progress.session.interner.intern name).2
      constants := []
      asked := point.progress.session.asked ++ [name] }

end Point

def sourceName (directive : Lexeme) : String := String.ofList (((directive.text.drop 1).dropLast).drop 1)

/-- The scan has visited the next lexeme. -/
inductive Advances (resolver : Resolver) : Point → Point → Prop where
  | intro {point : Point} {lexeme : Lexeme} {rest : List Lexeme} {output : Output} {next : Progress}
      (first : point.rest = lexeme :: rest) (visited : point.visit resolver lexeme = .ok (output, next)) :
      Advances resolver point { point with rest := rest, progress := next }

/-- The scan goes on in the source that the next lexeme includes. -/
inductive Enters (resolver : Resolver) : Point → Point → Prop where
  | intro {point : Point} {directive : Lexeme} {text : String} (here : point.At directive)
      (shallow : point.depth < maxIncludeDepth)
      (answered : resolver point.progress.session.asked (sourceName directive) = .ok text) :
      Enters resolver point (point.included (sourceName directive) text)

/-- A scan gets from one point to another. Listed are the points at the directives it is in, the outermost
first. -/
inductive Follows (resolver : Resolver) : Point → List Point → Point → Prop where
  | here (point : Point) : Follows resolver point [] point
  | advance {first middle last : Point} {entered : List Point} (step : Advances resolver first middle)
      (onward : Follows resolver middle entered last) : Follows resolver first entered last
  | enter {first inside last : Point} {entered : List Point} (step : Enters resolver first inside)
      (onward : Follows resolver inside entered last) : Follows resolver first (first :: entered) last

/-- A scan cannot advance and enter sources forever. -/
theorem steps_wellFounded (resolver : Resolver) :
    WellFounded fun later earlier => Advances resolver earlier later ∨ Enters resolver earlier later := by
  -- Depth counts first, as an included source may be longer than what is left of the one around it.
  refine Subrelation.wf (fun {later earlier} step => ?_)
    (InvImage.wf (fun point : Point => (maxIncludeDepth - point.depth, point.rest.length))
      (WellFounded.prod_lex Nat.lt_wfRel.wf Nat.lt_wfRel.wf))
  obtain ⟨first, _⟩ | ⟨_, shallow, _⟩ := step
  · refine Prod.Lex.right _ ?_
    rw [first]
    exact Nat.lt_succ_self _
  · refine Prod.Lex.left _ _ ?_
    exact Nat.sub_lt_sub_left shallow (Nat.lt_succ_self _)

theorem Follows.depth (follows : Follows resolver first entered last) :
    last.depth = first.depth + entered.length := by
  induction follows with
  | here => rfl
  | advance step _ ih =>
    cases step
    exact ih
  | enter step _ ih =>
    cases step
    rw [ih, List.length_cons, Nat.add_comm _ 1, ← Nat.add_assoc]
    rfl

theorem Follows.depth_le (follows : Follows resolver first entered last)
    (shallow : first.depth ≤ maxIncludeDepth) : last.depth ≤ maxIncludeDepth := by
  induction follows with
  | here => exact shallow
  | advance step _ ih =>
    cases step
    exact ih shallow
  | enter step _ ih =>
    obtain ⟨_, deeper, _⟩ := step
    exact ih deeper

theorem run_start {depth : Nat} (shallow : depth ≤ maxIncludeDepth) (path : Symbol) (text : List Char)
    (session : Session) : (Point.start depth path text session).run resolver =
      scan resolver (maxIncludeDepth - depth) path text session := by
  obtain ⟨levels, total⟩ := Nat.exists_eq_add_of_le shallow
  have left : maxIncludeDepth - depth = levels := by omega
  rw [left, Point.run]
  change visitAll resolver (nestedAt resolver depth) path (lexemes text) { session } = _
  cases levels with
  | zero =>
    rw [nestedAt, if_neg (by omega)]
    rfl
  | succ levels =>
    have inner : maxIncludeDepth - (depth + 1) = levels := by omega
    have outer : depth + 1 = maxIncludeDepth - levels := by omega
    rw [nestedAt, if_pos (by omega), inner, outer]
    rfl

theorem run_cons {rest : List Lexeme} (here : point.rest = lexeme :: rest) :
    point.run resolver = .ok (output, after) ↔ ∃ found next following,
      point.visit resolver lexeme = .ok (found, next) ∧
        { point with rest := rest, progress := next }.run resolver = .ok (following, after) ∧
          found ++ following = output := by
  unfold Point.run
  rw [here, visitAll, Except.bind_ok]
  constructor
  · rintro ⟨⟨found, next⟩, visited, continued⟩
    obtain ⟨⟨following, _⟩, rest, done⟩ := Except.bind_ok.mp continued
    cases done
    exact ⟨found, next, following, visited, rest, rfl⟩
  · rintro ⟨found, next, following, visited, rest, rfl⟩
    exact ⟨(found, next), visited, Except.bind_ok.mpr ⟨_, rest, rfl⟩⟩

/-! ### Directives -/

/-- What a directive yields, and the state after it. -/
inductive Directed (resolver : Resolver) (point : Point) (directive : Lexeme) : Output → Progress → Prop where
  | tooDeep (deep : maxIncludeDepth ≤ point.depth) : Directed resolver point directive
      (.error (.inclusion (sourceName directive) .tooDeep) (directive.pos point.path)) point.progress
  | refused {reason : String} (shallow : point.depth < maxIncludeDepth)
      (asked : resolver point.progress.session.asked (sourceName directive) = .error reason) :
      Directed resolver point directive
        ({ events := [.requested (sourceName directive)] } ++
          .error (.inclusion (sourceName directive) (.unreadable reason)) (directive.pos point.path))
        { point.progress with session := { point.progress.session with
            asked := point.progress.session.asked ++ [sourceName directive] } }
  | spliced {text : String} {inner : Output} {after : Session} (shallow : point.depth < maxIncludeDepth)
      (asked : resolver point.progress.session.asked (sourceName directive) = .ok text)
      (ran : (point.included (sourceName directive) text).run resolver = .ok (inner, after))
      (clean : inner.errors = []) :
      Directed resolver point directive
        ({ events := [.requested (sourceName directive), .entered (sourceName directive) (point.depth + 1)] } ++
          { inner with tokens := shift directive.start.indent (addBlockEnds inner.tokens) })
        { point.progress with session := { after with
            constants := after.constants ++ point.progress.session.constants } }
  | rejected {text : String} {inner : Output} {after : Session} (shallow : point.depth < maxIncludeDepth)
      (asked : resolver point.progress.session.asked (sourceName directive) = .ok text)
      (ran : (point.included (sourceName directive) text).run resolver = .ok (inner, after))
      (failed : inner.errors ≠ []) :
      Directed resolver point directive
        ({ events := [.requested (sourceName directive), .entered (sourceName directive) (point.depth + 1)] } ++
          { inner with tokens := [] } ++
          .error (.inclusion (sourceName directive) (.errors inner.errors.length)) (directive.pos point.path))
        { point.progress with session := { after with constants := point.progress.session.constants } }

theorem visit_directive (isInclusion : directive.rule = .inclusion)
    (visited : point.visit resolver directive = .ok (output, next)) :
    Directed resolver point directive output next := by
  unfold Point.visit visit at visited
  simp only [isInclusion] at visited
  obtain ⟨⟨found, session⟩, yields, done⟩ := Except.bind_ok.mp visited
  cases done
  change include? resolver (nestedAt resolver point.depth) (sourceName directive) directive.start
    (directive.pos point.path) point.progress.session = .ok (found, session) at yields
  unfold include? nestedAt at yields
  by_cases shallow : point.depth < maxIncludeDepth
  · rw [if_pos shallow] at yields
    dsimp only at yields
    split at yields
    next reason refused =>
      cases yields
      exact .refused shallow refused
    next text answered =>
      obtain ⟨⟨inner, after⟩, ran, yields⟩ := Except.bind_ok.mp yields
      rw [← run_start shallow] at ran
      dsimp only at yields
      split at yields
      next clean =>
        cases yields
        exact .spliced shallow answered ran (List.isEmpty_iff.mp clean)
      next failed =>
        cases yields
        exact .rejected shallow answered ran (mt List.isEmpty_iff.mpr failed)
  · rw [if_neg shallow] at yields
    cases yields
    exact .tooDeep (Nat.le_of_not_lt shallow)

/-- A directive asks for its own source, and then for what is asked for in there. -/
theorem Directed.requests (directed : Directed resolver point directive output next) :
    requests output = [] ∨ point.depth < maxIncludeDepth ∧ (requests output = [sourceName directive] ∨
      ∃ text inner after, resolver point.progress.session.asked (sourceName directive) = .ok text ∧
        (point.included (sourceName directive) text).run resolver = .ok (inner, after) ∧
        requests output = sourceName directive :: requests inner) := by
  cases directed with
  | tooDeep => exact .inl rfl
  | refused shallow => exact .inr ⟨shallow, .inl rfl⟩
  | spliced shallow answered ran => exact .inr ⟨shallow, .inr ⟨_, _, _, answered, ran, rfl⟩⟩
  | rejected shallow answered ran =>
    refine .inr ⟨shallow, .inr ⟨_, _, _, answered, ran, ?_⟩⟩
    rw [requests_append, requests_append]
    exact List.append_nil _

theorem Directed.asks {before rest : List String} {name : String}
    (directed : Directed resolver point directive output next)
    (asks : Scanning.requests output = before ++ name :: rest) :
    point.depth < maxIncludeDepth ∧ (before = [] ∧ sourceName directive = name ∨
      ∃ text inner after between, resolver point.progress.session.asked (sourceName directive) = .ok text ∧
        (point.included (sourceName directive) text).run resolver = .ok (inner, after) ∧
        before = sourceName directive :: between ∧ Scanning.requests inner = between ++ name :: rest) := by
  obtain none | ⟨shallow, one | ⟨text, inner, after, answered, ran, all⟩⟩ := directed.requests
  · rw [none] at asks
    cases before <;> cases asks
  · rw [one] at asks
    obtain ⟨rfl, same⟩ | ⟨between, rfl, wrong⟩ := List.cons_eq_append_iff.mp asks
    · exact ⟨shallow, .inl ⟨rfl, (List.cons.inj same).1.symm⟩⟩
    · cases between <;> cases wrong
  · rw [all] at asks
    obtain ⟨rfl, same⟩ | ⟨between, rfl, inside⟩ := List.cons_eq_append_iff.mp asks
    · exact ⟨shallow, .inl ⟨rfl, (List.cons.inj same).1.symm⟩⟩
    · exact ⟨shallow, .inr ⟨text, inner, after, between, answered, ran, rfl, inside⟩⟩

theorem visit_tooDeep (here : point.At directive) (deep : maxIncludeDepth ≤ point.depth) :
    point.visit resolver directive =
      .ok (.error (.inclusion (sourceName directive) .tooDeep) (directive.pos point.path), point.progress) := by
  unfold Point.visit visit nestedAt
  simp only [here.2, if_neg (Nat.not_lt_of_le deep)]
  rfl

/-- The directive yields no tokens and no constants, but an error that counts those of its source. -/
def Rejected (resolver : Resolver) (errors : List Scan.Error) (point : Point) : Prop :=
  ∃ directive output next count, point.At directive ∧ point.visit resolver directive = .ok (output, next) ∧
    output.tokens = [] ∧ next.session.constants = point.progress.session.constants ∧
    next.directive = point.progress.directive ∧
    ⟨.inclusion (sourceName directive) (.errors count), directive.pos point.path⟩ ∈ output.errors ∧
    output.errors ⊆ errors

theorem Rejected.mono {more : List Scan.Error} (rejected : Rejected resolver errors point) (subset : errors ⊆ more) :
    Rejected resolver more point := by
  obtain ⟨directive, output, next, count, here, visited, tokens, constants, quiet, error, all⟩ := rejected
  exact ⟨directive, output, next, count, here, visited, tokens, constants, quiet, error, List.Subset.trans all subset⟩

def tooDeepError (point : Point) (directive : Lexeme) : Scan.Error :=
  ⟨.inclusion (sourceName directive) .tooDeep, directive.pos point.path⟩

theorem Point.At.rest (here : point.At directive) : ∃ rest, point.rest = directive :: rest :=
  List.head?_eq_some_iff.mp here.1

/-- A directive that is too deep is an error of every scan that gets to it, and so are all directives on the
way. -/
theorem Follows.rejected (follows : Follows resolver first entered last) (here : last.At directive)
    (deep : maxIncludeDepth ≤ last.depth) (completed : first.run resolver = .ok (output, after)) :
    tooDeepError last directive ∈ output.errors ∧ ∀ passed ∈ entered, Rejected resolver output.errors passed := by
  induction follows generalizing output after with
  | here point =>
    obtain ⟨rest, next⟩ := here.rest
    obtain ⟨found, _, following, visited, _, rfl⟩ := (run_cons next).mp completed
    refine ⟨List.mem_append_left _ ?_, nofun⟩
    cases visit_directive here.2 visited with
    | tooDeep => exact List.mem_singleton_self _
    | refused shallow | spliced shallow | rejected shallow => exact absurd deep (Nat.not_le_of_lt shallow)
  | advance step _ ih =>
    obtain ⟨next, visited⟩ := step
    obtain ⟨found, _, following, again, onward, rfl⟩ := (run_cons next).mp completed
    cases visited.symm.trans again
    obtain ⟨error, others⟩ := ih here deep onward
    exact ⟨List.mem_append_right _ error, fun passed member =>
      (others passed member).mono (List.subset_append_right _ _)⟩
  | @enter first _ last entered step _ ih =>
    obtain ⟨there, shallow, answered⟩ := step
    obtain ⟨rest, next⟩ := there.rest
    obtain ⟨found, _, following, visited, _, rfl⟩ := (run_cons next).mp completed
    cases visit_directive there.2 visited with
    | tooDeep deep => exact absurd deep (Nat.not_le_of_lt shallow)
    | refused _ refused => cases answered.symm.trans refused
    | spliced _ asked ran clean =>
      -- A source with an error in it would not be spliced.
      cases answered.symm.trans asked
      obtain ⟨error, _⟩ := ih here deep ran
      rw [clean] at error
      cases error
    | @rejected _ inner after _ asked ran failed =>
      cases answered.symm.trans asked
      obtain ⟨error, others⟩ := ih here deep ran
      have deeper (more : List Scan.Error) : inner.errors ⊆ (inner.errors ++ more) ++ following.errors :=
        fun _ member => List.mem_append_left _ (List.mem_append_left more member)
      refine ⟨deeper _ error, List.forall_mem_cons.mpr ⟨?_, fun passed member =>
        (others passed member).mono (deeper _)⟩⟩
      exact ⟨_, _, _, _, there, visited, rfl, rfl, rfl, List.mem_append_right _ (List.mem_singleton_self _),
        List.subset_append_left _ _⟩

/-! ### Other lexemes -/

theorem define_errors (session : Session) (name : Symbol) (tokens : List Token) :
    (session.define name tokens).1.errors = [] := by
  unfold Session.define
  split <;> rfl

theorem append_errors (progress : Progress) (cursor : Cursor) (token : Token) :
    ∀ error ∈ (progress.append cursor token).1.errors, error.kind = .invalidConstant := by
  unfold Progress.append
  split
  · unfold Progress.place
    split <;> exact nofun
  · split
    · exact nofun
    · exact List.forall_mem_singleton.mpr rfl
    · exact List.forall_mem_singleton.mpr rfl
  next name tokens _ =>
    split
    · show ∀ error ∈ (progress.session.define name tokens).1.errors, _
      rw [define_errors]
      exact nofun
    · exact nofun

theorem finish_errors (progress : Progress) : progress.finish.1.errors = [] := by
  unfold Progress.finish
  split
  · exact define_errors ..
  · rfl

/-- A part of a scan that asks for nothing and has no errors from directives. -/
structure Undirected (before : Session) (output : Output) (after : Session) : Prop where
  silent : requests output = []
  asked : after.asked = before.asked
  errors : ∀ error ∈ output.errors, ∀ name failure, error.kind ≠ .inclusion name failure

theorem visit_undirected (other : lexeme.rule ≠ .inclusion)
    (visited : point.visit resolver lexeme = .ok (output, next)) :
    Undirected point.progress.session output next.session := by
  obtain ⟨rule, text, cursor⟩ := lexeme
  unfold Point.visit at visited
  have appended {progress : Progress} {token : Token} (made : progress.append cursor token = (output, next)) :
      Undirected progress.session output next.session := by
    obtain ⟨silent, asked⟩ := append_quiet progress cursor token
    have errors := append_errors progress cursor token
    rw [made] at silent asked errors
    refine ⟨silent, asked, fun error member name failure same => ?_⟩
    cases (errors error member).symm.trans same
  cases known : fixedKind? rule text with
  | some kind =>
    rw [visit_fixed known] at visited
    exact appended (Except.ok.inj visited)
  | none =>
    by_cases isName : rule = .identifier
    · subst isName
      have made := appended (Except.ok.inj visited)
      exact ⟨made.silent, made.asked, made.errors⟩
    cases wordless known other isName with
    | gap _ visits | constant _ _ visits =>
      rw [visits] at visited
      cases visited
      exact ⟨rfl, rfl, nofun⟩
    | mistake kind _ own visits =>
      rw [visits] at visited
      cases visited
      exact ⟨rfl, rfl, List.forall_mem_singleton.mpr own.1⟩
    | misspelled fault visits =>
      rw [visits] at visited
      cases visited

/-! ### Runs -/

theorem included_asked {name text : String} {inner : Output} (shallow : point.depth < maxIncludeDepth)
    (ran : (point.included name text).run resolver = .ok (inner, after)) :
    after.asked = point.progress.session.asked ++ name :: requests inner := by
  rw [Point.included, run_start shallow] at ran
  have ends := scan_reliable resolver (maxIncludeDepth - (point.depth + 1))
    (point.progress.session.interner.intern name).1 text.toList
    { point.progress.session with
      interner := (point.progress.session.interner.intern name).2
      constants := []
      asked := point.progress.session.asked ++ [name] }
  rw [ran] at ends
  exact ends.names.trans (List.append_assoc ..)

theorem visit_asked (visited : point.visit resolver lexeme = .ok (output, next)) :
    next.session.asked = point.progress.session.asked ++ requests output := by
  by_cases isInclusion : lexeme.rule = .inclusion
  · cases visit_directive isInclusion visited with
    | tooDeep => exact (List.append_nil _).symm
    | refused => rfl
    | @spliced _ inner after shallow _ ran =>
      show after.asked = point.progress.session.asked ++ sourceName lexeme :: requests inner
      exact included_asked shallow ran
    | rejected shallow _ ran =>
      rw [requests_append, requests_append]
      exact (included_asked shallow ran).trans (congrArg _ (List.append_nil _).symm)
  · obtain ⟨silent, asked, _⟩ := visit_undirected isInclusion visited
    rw [asked, silent, List.append_nil]

theorem run_nil (done : point.rest = []) (completed : point.run resolver = .ok (output, after)) :
    point.progress.finish = (output, after) := by
  unfold Point.run at completed
  rw [done] at completed
  exact Except.ok.inj completed

theorem cons_of_append {first last before rest : List String} {name : String}
    (same : first ++ last = before ++ name :: rest) :
    (∃ more, first = before ++ name :: more) ∨
      ∃ between, before = first ++ between ∧ last = between ++ name :: rest := by
  obtain later | ⟨between, now, following⟩ := List.append_eq_append_iff.mp same
  · exact .inr later
  · cases between with
    | nil => exact .inr ⟨[], by rw [now, List.append_nil, List.append_nil], following.symm⟩
    | cons _ more =>
      cases following
      exact .inl ⟨more, now⟩

/-- Every name is asked for at a directive that is not too deep, after the names before it. -/
theorem run_asks {before rest : List String} {name : String}
    (completed : point.run resolver = .ok (output, after)) (asks : requests output = before ++ name :: rest) :
    ∃ entered last directive, Follows resolver point entered last ∧ last.At directive ∧
      last.depth < maxIncludeDepth ∧ sourceName directive = name ∧
        last.progress.session.asked = point.progress.session.asked ++ before := by
  -- The texts that are answered are not parts of one another, so the induction is on the steps of the scan.
  induction point using (steps_wellFounded resolver).induction generalizing output after before rest with
  | _ point ih =>
    cases here : point.rest with
    | nil =>
      have quiet := (finish_quiet point.progress).1
      rw [run_nil here completed] at quiet
      rw [quiet] at asks
      cases before <;> cases asks
    | cons lexeme following =>
      obtain ⟨found, next, later, visited, onward, rfl⟩ := (run_cons here).mp completed
      rw [requests_append] at asks
      obtain ⟨more, now⟩ | ⟨between, rfl, after⟩ := cons_of_append asks
      · by_cases isInclusion : lexeme.rule = .inclusion
        · have there : point.At lexeme := ⟨by rw [here]; rfl, isInclusion⟩
          obtain ⟨shallow, ⟨rfl, named⟩ | ⟨text, inner, after, between, answered, ran, rfl, inside⟩⟩ :=
            (visit_directive isInclusion visited).asks now
          · exact ⟨[], point, lexeme, .here _, there, shallow, named, (List.append_nil _).symm⟩
          · have step := Enters.intro there shallow answered
            obtain ⟨entered, last, directive, follows, found, shallow, named, asked⟩ := ih _ (.inr step) ran inside
            exact ⟨point :: entered, last, directive, .enter step follows, found, shallow, named,
              asked.trans (List.append_assoc ..)⟩
        · rw [(visit_undirected isInclusion visited).silent] at now
          cases before <;> cases now
      · have step := Advances.intro here visited
        obtain ⟨entered, last, directive, follows, there, shallow, named, asked⟩ := ih _ (.inl step) onward after
        refine ⟨entered, last, directive, .advance step follows, there, shallow, named, ?_⟩
        rw [asked, ← List.append_assoc]
        exact congrArg (· ++ between) (visit_asked visited)

/-- An include that is too deep comes from a directive in the deepest source. -/
theorem run_tooDeep {error : Scan.Error} {name : String} (completed : point.run resolver = .ok (output, after))
    (member : error ∈ output.errors) (tooDeep : error.kind = .inclusion name .tooDeep) :
    ∃ entered last directive, Follows resolver point entered last ∧ last.At directive ∧
      maxIncludeDepth ≤ last.depth ∧ error = tooDeepError last directive := by
  induction point using (steps_wellFounded resolver).induction generalizing output after with
  | _ point ih =>
    cases here : point.rest with
    | nil =>
      have none := finish_errors point.progress
      rw [run_nil here completed] at none
      rw [none] at member
      cases member
    | cons lexeme rest =>
      obtain ⟨found, next, following, visited, onward, rfl⟩ := (run_cons here).mp completed
      obtain now | later := List.mem_append.mp member
      · by_cases isInclusion : lexeme.rule = .inclusion
        · have there : point.At lexeme := ⟨by rw [here]; rfl, isInclusion⟩
          cases visit_directive isInclusion visited with
          | tooDeep deep => exact ⟨[], point, lexeme, .here _, there, deep, List.mem_singleton.mp now⟩
          | refused =>
            cases List.mem_singleton.mp now
            cases tooDeep
          | spliced shallow asked ran clean =>
            change error ∈ [] ++ _ at now
            rw [List.nil_append, clean] at now
            cases now
          | rejected shallow asked ran failed =>
            obtain inside | count := List.mem_append.mp now
            · have step := Enters.intro there shallow asked
              obtain ⟨entered, last, directive, follows, found⟩ := ih _ (.inr step) ran inside
              exact ⟨point :: entered, last, directive, .enter step follows, found⟩
            · cases List.mem_singleton.mp count
              cases tooDeep
        · exact absurd tooDeep ((visit_undirected isInclusion visited).errors error now _ _)
      · have step := Advances.intro here visited
        obtain ⟨entered, last, directive, follows, found⟩ := ih _ (.inl step) onward later
        exact ⟨entered, last, directive, .advance step follows, found⟩

/-! ### Texts -/

theorem lexemesAfter_cut (before text : List Char) :
    (lexemesAfter before text).flatMap Lexeme.text = text ∧ ∀ lexeme ∈ lexemesAfter before text, lexeme.text ≠ [] := by
  induction text using cut_induction generalizing before with
  | nil =>
    rw [lexemesAfter_nil]
    exact ⟨rfl, nofun⟩
  | cut rule word following takes ih =>
    obtain ⟨whole, solid⟩ := ih (before ++ word)
    rw [lexemesAfter_takes before takes, List.flatMap_cons, whole]
    exact ⟨rfl, List.forall_mem_cons.mpr ⟨takes.solid, solid⟩⟩

/-- The text that the scan of the source has not read yet. -/
def Point.unread (point : Point) : List Char := point.rest.flatMap Lexeme.text

theorem start_unread (depth : Nat) (path : Symbol) (text : List Char) (session : Session) :
    (Point.start depth path text session).unread = text := by
  rw [Point.unread, Point.start, lexemes_eq]
  exact (lexemesAfter_cut [] text).1

theorem start_solid (depth : Nat) (path : Symbol) (text : List Char) (session : Session) :
    ∀ lexeme ∈ (Point.start depth path text session).rest, lexeme.text ≠ [] := by
  rw [Point.start, lexemes_eq]
  exact (lexemesAfter_cut [] text).2

theorem Follows.solid (follows : Follows resolver first entered last)
    (solid : ∀ lexeme ∈ first.rest, lexeme.text ≠ []) : ∀ lexeme ∈ last.rest, lexeme.text ≠ [] := by
  induction follows with
  | here => exact solid
  | advance step _ ih =>
    obtain ⟨next, _⟩ := step
    rw [next] at solid
    exact ih (List.forall_mem_cons.mp solid).2
  | enter step _ ih =>
    cases step
    exact ih (start_solid _ _ _ _)

/-- To advance is to read at least one character. -/
theorem Advances.reads (step : Advances resolver first last) (solid : ∀ lexeme ∈ first.rest, lexeme.text ≠ []) :
    ∃ word, word ≠ [] ∧ first.unread = word ++ last.unread := by
  obtain ⟨next, _⟩ := step
  refine ⟨_, solid _ (next ▸ List.mem_cons_self), ?_⟩
  rw [Point.unread, next]
  rfl

/-! ### The whole source -/

/-- How the directives of a source came out, those of included sources with them. -/
structure Nesting (resolver : Resolver) (root : Point) (result : Tokens) : Prop where
  /-- Every name was asked for at a directive in fewer than `maxIncludeDepth` others. -/
  asked : ∀ before name rest, result.asked = before ++ name :: rest →
    ∃ entered point directive, Follows resolver root entered point ∧ point.At directive ∧
      entered.length < maxIncludeDepth ∧ sourceName directive = name ∧ point.progress.session.asked = before
  /-- A directive deeper than that is an error, of which all the directives that lead to it have one too. -/
  tooDeep : ∀ error ∈ result.errors, ∀ name, error.kind = .inclusion name .tooDeep →
    ∃ entered point directive, Follows resolver root entered point ∧ point.At directive ∧
      entered.length = maxIncludeDepth ∧ error = tooDeepError point directive ∧
      ∀ passed ∈ entered, Rejected resolver result.errors passed
  reported : ∀ entered point directive, Follows resolver root entered point → point.At directive →
    entered.length = maxIncludeDepth → tooDeepError point directive ∈ result.errors

/-- Whatever its directives are answered, a source is read to its end or to a misspelled word. -/
theorem tokenize_nesting (tokenizer : Tokenizer) (resolver : Resolver) (path : Symbol) (text : String) :
    let root := Point.start 0 path text.toList
      { interner := tokenizer.interner, constants := tokenizer.constants }
    (WellFounded fun later earlier => Advances resolver earlier later ∨ Enters resolver earlier later) ∧
    root.unread = text.toList ∧
    (∀ entered point, Follows resolver root entered point →
      point.depth = entered.length ∧ entered.length ≤ maxIncludeDepth ∧
      (∀ next, Advances resolver point next → ∃ word, word ≠ [] ∧ point.unread = word ++ next.unread) ∧
      ∀ directive, point.At directive → entered.length = maxIncludeDepth → point.visit resolver directive =
        .ok (.error (.inclusion (sourceName directive) .tooDeep) (directive.pos point.path), point.progress)) ∧
    ((∃ word, tokenizer.tokenize resolver path text = .error (.unknownReserved word)) ∨
      ∃ result after, tokenizer.tokenize resolver path text = .ok (result, after) ∧
        Nesting resolver root result) := by
  intro root
  have depths {entered : List Point} {point : Point} (follows : Follows resolver root entered point) :
      point.depth = entered.length := follows.depth.trans (Nat.zero_add _)
  refine ⟨steps_wellFounded resolver, start_unread .., fun entered point follows =>
    ⟨depths follows, ?_, ?_, ?_⟩, ?_⟩
  · exact depths follows ▸ follows.depth_le (Nat.zero_le _)
  · exact fun next step => step.reads (follows.solid (start_solid _ _ _ _))
  · intro directive here deepest
    exact visit_tooDeep here (by rw [depths follows, deepest])
  have started : root.run resolver = scan resolver maxIncludeDepth path text.toList
      { interner := tokenizer.interner, constants := tokenizer.constants } := run_start (Nat.zero_le _) ..
  have ends := scan_reliable resolver maxIncludeDepth path text.toList
    { interner := tokenizer.interner, constants := tokenizer.constants }
  unfold Tokenizer.tokenize
  rw [← started] at ends ⊢
  cases completed : root.run resolver with
  | error fault =>
    rw [completed] at ends
    left
    obtain ⟨_, _, _, rfl⟩ | ⟨_, _, _, _, _, _, _, rfl⟩ := ends
    · exact ⟨_, rfl⟩
    · exact ⟨_, rfl⟩
  | ok pair =>
    obtain ⟨output, after⟩ := pair
    refine .inr ⟨_, _, rfl, ⟨?_, ?_, ?_⟩⟩
    · intro before name rest asks
      obtain ⟨entered, point, directive, follows, here, shallow, named, asked⟩ := run_asks completed asks
      exact ⟨entered, point, directive, follows, here, depths follows ▸ shallow, named, asked⟩
    · intro error member name kind
      obtain ⟨entered, point, directive, follows, here, deep, same⟩ := run_tooDeep completed member kind
      have deepest := Nat.le_antisymm (follows.depth_le (Nat.zero_le _)) deep
      exact ⟨entered, point, directive, follows, here, depths follows ▸ deepest, same,
        (follows.rejected here deep completed).2⟩
    · intro entered point directive follows here deepest
      exact (follows.rejected here (by rw [depths follows, deepest]) completed).1

/-- Every source includes itself. The deepest directive is in sixteen others, which all report it. -/
theorem tokenize_nesting_of_self :
    let tokenizer : Tokenizer := ⟨Interner.empty, []⟩
    let resolver : Resolver := fun _ _ => .ok "#\"a\""
    ∃ result after, tokenizer.tokenize resolver ⟨0⟩ "#\"a\"" = .ok (result, after) ∧
      result.errors.map (·.kind) = .inclusion "a" .tooDeep ::
        (List.range 16).map (fun deeper => .inclusion "a" (.errors (deeper + 1))) ∧
      result.asked.length = 16 ∧ result.tokens = [] ∧
      ∃ entered point directive, Follows resolver
          (.start 0 ⟨0⟩ "#\"a\"".toList { interner := Interner.empty, constants := [] }) entered point ∧
        point.At directive ∧ entered.length = 16 ∧ ∀ passed ∈ entered, Rejected resolver result.errors passed := by
  intro tokenizer resolver
  obtain ⟨_, _, _, ⟨word, failed⟩ | ⟨result, after, completed, nesting⟩⟩ :=
    tokenize_nesting tokenizer resolver ⟨0⟩ "#\"a\""
  · have made : (tokenizer.tokenize resolver ⟨0⟩ "#\"a\"").isOk := by decide +kernel
    rw [failed] at made
    cases made
  · have made : (tokenizer.tokenize resolver ⟨0⟩ "#\"a\"").toOption.map
        (fun result => (result.1.errors.map (·.kind), result.1.asked.length, result.1.tokens.length)) =
        some (.inclusion "a" .tooDeep :: (List.range 16).map (fun deeper => .inclusion "a" (.errors (deeper + 1))),
          16, 0) := by
      decide +kernel
    rw [completed] at made
    obtain ⟨kinds, rest⟩ := Prod.mk.inj (Option.some.inj made)
    obtain ⟨asked, tokens⟩ := Prod.mk.inj rest
    obtain ⟨error, member, kind⟩ : ∃ error ∈ result.errors, error.kind = .inclusion "a" .tooDeep :=
      List.mem_map.mp (kinds ▸ List.mem_cons_self)
    obtain ⟨entered, point, directive, follows, here, deepest, _, rejected⟩ := nesting.tooDeep error member "a" kind
    exact ⟨result, after, completed, kinds, asked, List.eq_nil_of_length_eq_zero tokens,
      entered, point, directive, follows, here, deepest, rejected⟩

end Arcade.Proofs.Scanning
