import Arcade.Proofs.SymbolIndependence

/-! What a tokenizer makes of a source after it was reset. Two scans that are given the same texts go through
alike steps, so nothing that was interned or defined before has an influence on the tokens and errors. -/

namespace Arcade.Proofs.Scanning
open Arcade.Indent Arcade.Scan

variable {names : Interner × Interner} {resolver : Resolver} {nested : Option (Nat × Scanner)}
  {session session' : Session} {progress progress' : Progress} {token token' : Token}
  {tokens tokens' : List Token} {path path' name name' : Symbol} {pos pos' : Position}

/-! ### Parts of a scan -/

/-- Both parts of a scan ended in the same way, with alike outputs and states. -/
inductive Alike {State : Type} (interner : State → Interner) (states : State → State → Prop)
    (names : Interner × Interner) : Except Fault (Output × State) → Except Fault (Output × State) → Prop where
  | ok {output output' : Output} {state state' : State}
      (grown : Extends names (interner state, interner state'))
      (outputs : OutputAlike (interner state, interner state') output output')
      (alike : states state state') :
      Alike interner states names (.ok (output, state)) (.ok (output', state'))
  | error (fault : Fault) : Alike interner states names (.error fault) (.error fault)

theorem Alike.of_ok {State : Type} {interner : State → Interner} {states : State → State → Prop}
    {result result' : Output × State} (alike : Alike interner states names (.ok result) (.ok result')) :
    Extends names (interner result.2, interner result'.2) ∧
      OutputAlike (interner result.2, interner result'.2) result.1 result'.1 ∧ states result.2 result'.2 := by
  cases alike with
  | ok grown outputs alike => exact ⟨grown, outputs, alike⟩

theorem Alike.since {State : Type} {interner : State → Interner} {states : State → State → Prop}
    {later : Interner × Interner} {result result' : Except Fault (Output × State)} (grown : Extends names later)
    (alike : Alike interner states later result result') : Alike interner states names result result' := by
  cases alike with
  | ok further outputs alike => exact .ok (grown.trans further) outputs alike
  | error fault => exact .error fault

/-- Alike parts that go on alike. -/
theorem Alike.bind {First Last : Type} {interner : First → Interner} {states : First → First → Prop}
    {interner' : Last → Interner} {states' : Last → Last → Prop} {later : Interner × Interner}
    {result result' : Except Fault (Output × First)}
    {next next' : Output × First → Except Fault (Output × Last)}
    (alike : Alike interner states names result result')
    (onward : ∀ output state output' state', Extends names (interner state, interner state') →
      OutputAlike (interner state, interner state') output output' → states state state' →
      Alike interner' states' later (next (output, state)) (next' (output', state'))) :
    Alike interner' states' later (result >>= next) (result' >>= next') := by
  cases alike with
  | ok grown outputs alike => exact onward _ _ _ _ grown outputs alike
  | error fault => exact .error fault

abbrev StepAlike (names : Interner × Interner) :=
  Alike (fun progress : Progress => progress.session.interner) ProgressAlike names

abbrev ScanAlike (names : Interner × Interner) := Alike Session.interner SessionAlike names

theorem OutputAlike.append {first first' last last' : Output} (begun : OutputAlike names first first')
    (ended : OutputAlike names last last') : OutputAlike names (first ++ last) (first' ++ last') :=
  ⟨List.rel_append begun.tokens ended.tokens, List.rel_append begun.errors ended.errors,
    congrArg₂ (· ++ ·) begun.events ended.events⟩

theorem outputAlike_of_events (events : List Event) :
    OutputAlike names { events := events } { events := events } := ⟨.nil, .nil, rfl⟩

theorem outputAlike_error (kind : ErrorKind) (place : PlaceAlike names pos pos') :
    OutputAlike names (.error kind pos) (.error kind pos') := ⟨.nil, .cons ⟨rfl, place⟩ .nil, rfl⟩

/-! ### Constants -/

theorem lookup_alike {constants constants' : Constants} (alike : ConstantsAlike names constants constants')
    (same : Same names name name') : Option.Rel (List.Forall₂ (TokenAlike names))
      (constants.lookup name) (constants'.lookup name') := by
  induction alike with
  | nil => exact .none
  | @cons entry entry' constants constants' first _ ih =>
    obtain ⟨key, value⟩ := entry
    obtain ⟨key', value'⟩ := entry'
    obtain ⟨keys, values⟩ := first
    by_cases here : name = key
    · obtain rfl := (same.eq_iff keys).mp here
      subst here
      rw [List.lookup_cons_self, List.lookup_cons_self]
      exact .some values
    · have there : name' ≠ key' := mt (same.eq_iff keys).mpr here
      rw [List.lookup_cons, List.lookup_cons, beq_false_of_ne here, beq_false_of_ne there]
      exact ih

theorem expand_alike {constants constants' : Constants} (alike : ConstantsAlike names constants constants')
    (same : TokenAlike names token token') :
    List.Forall₂ (TokenAlike names) (expand constants token) (expand constants' token') := by
  have single : List.Forall₂ (TokenAlike names) [token] [token'] := .cons same .nil
  obtain ⟨kind, span, pos, indent⟩ := token
  obtain ⟨kind', span', pos', indent'⟩ := token'
  cases same.kind with
  | @name name name' named =>
    have found := lookup_alike alike named
    show List.Forall₂ _ ((constants.lookup name).getD _) ((constants'.lookup name').getD _)
    generalize constants.lookup name = left, constants'.lookup name' = right at found ⊢
    cases found with
    | some tokens => exact tokens
    | none => exact single
  | other nameless =>
    cases kind with
    | identifier name => exact absurd rfl (nameless name)
    | _ => exact single

theorem define_alike (alike : SessionAlike session session')
    (same : Same (session.interner, session'.interner) name name')
    (values : List.Forall₂ (TokenAlike (session.interner, session'.interner)) tokens tokens') :
    ScanAlike (session.interner, session'.interner)
      (.ok (session.define name tokens)) (.ok (session'.define name' tokens')) := by
  have dropped := same.eq_iff (same_invalid _)
  unfold Session.define
  by_cases malformed : name = Symbol.invalid
  · rw [if_pos malformed, if_pos (dropped.mp malformed)]
    exact .ok (.refl _) (outputAlike_of_events []) alike
  · rw [if_neg malformed, if_neg (mt dropped.mpr malformed), values.length_eq]
    exact .ok (.refl _) (outputAlike_of_events _) ⟨.cons ⟨same, values⟩ alike.constants, alike.asked⟩

/-! ### Tokens -/

theorem place_alike (alike : ProgressAlike progress progress') (cursor : Cursor)
    (placed : List.Forall₂ (TokenAlike (progress.session.interner, progress'.session.interner)) tokens tokens') :
    StepAlike (progress.session.interner, progress'.session.interner)
      (.ok (progress.place cursor tokens)) (.ok (progress'.place cursor tokens')) := by
  cases placed with
  | nil => exact .ok (.refl _) (outputAlike_of_events []) alike
  | cons first rest =>
    unfold Progress.place
    rw [alike.annotated]
    refine .ok (.refl _) ⟨.cons ⟨first.kind, first.span, first.pos, rfl⟩ ?_, .nil, rfl⟩
      ⟨alike.session, alike.directive, rfl⟩
    rw [List.forall₂_map_left_iff, List.forall₂_map_right_iff]
    exact rest.imp fun _ _ token => ⟨token.kind, token.span, token.pos, rfl⟩

theorem append_alike (alike : ProgressAlike progress progress') (cursor : Cursor)
    (same : TokenAlike (progress.session.interner, progress'.session.interner) token token') :
    StepAlike (progress.session.interner, progress'.session.interner)
      (.ok (progress.append cursor token)) (.ok (progress'.append cursor token')) := by
  have ends := same.kind.eq_iff (show ∀ name, TokenKind.eol ≠ .identifier name from fun _ => nofun)
  have expanded := expand_alike alike.session.constants same
  obtain ⟨session, directive, annotated⟩ := progress
  obtain ⟨session', directive', annotated'⟩ := progress'
  cases alike.directive with
  | none => exact place_alike alike cursor expanded
  | @name pos pos' place =>
    have malformed := outputAlike_error .invalidConstant place
    obtain ⟨kind, span, start, indent⟩ := token
    obtain ⟨kind', span', start', indent'⟩ := token'
    cases same.kind with
    | name named =>
      exact .ok (.refl _) (outputAlike_of_events []) ⟨alike.session, .body named .nil, alike.annotated⟩
    | other nameless =>
      cases kind with
      | identifier name => exact absurd rfl (nameless name)
      | eol => exact .ok (.refl _) malformed ⟨alike.session, .none, alike.annotated⟩
      | _ =>
        exact .ok (.refl _) malformed ⟨alike.session, .body (same_invalid _) .nil, alike.annotated⟩
  | @body name name' tokens tokens' named recorded =>
    unfold Progress.append
    by_cases ended : token.kind = .eol
    · obtain ⟨grown, outputs, defined⟩ := (define_alike alike.session named recorded).of_ok
      simp only [if_pos ended, if_pos (ends.mp ended)]
      exact .ok grown outputs ⟨defined, .none, alike.annotated⟩
    · simp only [if_neg ended, if_neg (mt ends.mpr ended)]
      exact .ok (.refl _) (outputAlike_of_events [])
        ⟨alike.session, .body named (List.rel_append recorded expanded), alike.annotated⟩

theorem finish_alike (alike : ProgressAlike progress progress') :
    ScanAlike (progress.session.interner, progress'.session.interner)
      (.ok progress.finish) (.ok progress'.finish) := by
  obtain ⟨session, directive, annotated⟩ := progress
  obtain ⟨session', directive', annotated'⟩ := progress'
  cases alike.directive with
  | none => exact .ok (.refl _) (outputAlike_of_events []) alike.session
  | name place => exact .ok (.refl _) (outputAlike_of_events []) alike.session
  | body named recorded => exact define_alike alike.session named recorded

/-! ### Included sources -/

/-- A scanner that does the same in alike sessions. -/
def Agrees (scan : Scanner) : Prop := ∀ path path' text session session',
  Same (session.interner, session'.interner) path path' → SessionAlike session session' →
    ScanAlike (session.interner, session'.interner) (scan path text session) (scan path' text session')

theorem shift_alike (alike : List.Forall₂ (TokenAlike names) tokens tokens') (levels : Nat) :
    List.Forall₂ (TokenAlike names) (shift levels tokens) (shift levels tokens') := by
  unfold shift
  rw [List.forall₂_map_left_iff, List.forall₂_map_right_iff]
  exact alike.imp fun _ _ token => ⟨token.kind, token.span, token.pos, congrArg (Option.map (· + levels)) token.indent⟩

theorem include?_alike (agrees : ∀ depth scan, nested = some (depth, scan) → Agrees scan)
    (alike : SessionAlike session session') (source : String) (cursor : Cursor)
    (place : PlaceAlike (session.interner, session'.interner) pos pos') :
    ScanAlike (session.interner, session'.interner)
      (include? resolver nested source cursor pos session)
      (include? resolver nested source cursor pos' session') := by
  unfold include?
  split
  next => exact .ok (.refl _) (outputAlike_error _ place) alike
  next depth scan =>
    dsimp only
    rw [← alike.asked]
    split
    next reason refused =>
      refine .ok (.refl _) ((outputAlike_of_events _).append (outputAlike_error _ place)) ?_
      exact ⟨alike.constants, congrArg (· ++ [source]) rfl⟩
    next text answered =>
      obtain ⟨grown, path⟩ := same_intern (session.interner, session'.interner) source
      refine .since grown (.bind (agrees depth scan rfl _ _ text.toList _ _ path ⟨.nil, rfl⟩) ?_)
      intro output inner output' inner' further outputs inside
      have clean : output.errors.isEmpty = output'.errors.isEmpty := by
        rw [Bool.eq_iff_iff, List.isEmpty_iff_length_eq_zero, List.isEmpty_iff_length_eq_zero,
          outputs.errors.length_eq]
      have outer := alike.constants.mono (grown.trans further)
      dsimp only
      rw [← clean]
      split
      · refine .ok further ((outputAlike_of_events _).append ?_)
          ⟨List.rel_append inside.constants outer, inside.asked⟩
        exact ⟨shift_alike (addBlockEnds_alike outputs.tokens) _, outputs.errors, outputs.events⟩
      · have kept : OutputAlike (inner.interner, inner'.interner) { output with tokens := [] }
            { output' with tokens := [] } := ⟨.nil, outputs.errors, outputs.events⟩
        have failed := outputAlike_error (.inclusion source (.errors output.errors.length))
          (place.mono (grown.trans further))
        rw [← outputs.errors.length_eq]
        exact .ok further (((outputAlike_of_events _).append kept).append failed) ⟨outer, inside.asked⟩

/-! ### Whole sources -/

theorem visit_alike (agrees : ∀ depth scan, nested = some (depth, scan) → Agrees scan)
    (same : Same (progress.session.interner, progress'.session.interner) path path') (lexeme : Lexeme)
    (alike : ProgressAlike progress progress') :
    StepAlike (progress.session.interner, progress'.session.interner)
      (visit resolver nested path lexeme progress) (visit resolver nested path' lexeme progress') := by
  obtain ⟨rule, text, cursor⟩ := lexeme
  have place : PlaceAlike (progress.session.interner, progress'.session.interner) (cursor.pos path)
      (cursor.pos path') := ⟨rfl, rfl, same⟩
  cases known : fixedKind? rule text with
  | some kind =>
    rw [visit_fixed known, visit_fixed known]
    exact append_alike alike cursor ⟨.other (fixedKind?_nameless known), rfl, place, rfl⟩
  | none =>
    by_cases isInclusion : rule = .inclusion
    · subst isInclusion
      refine .bind (include?_alike agrees alike.session _ cursor place) ?_
      intro output session output' session' grown outputs inside
      exact .ok grown outputs ⟨inside, alike.directive.mono grown, alike.annotated⟩
    by_cases isName : rule = .identifier
    · subst isName
      obtain ⟨grown, named⟩ :=
        same_intern (progress.session.interner, progress'.session.interner) (String.ofList text)
      have interned : ProgressAlike
          { progress with session := { progress.session with
              interner := (progress.session.interner.intern (String.ofList text)).2 } }
          { progress' with session := { progress'.session with
              interner := (progress'.session.interner.intern (String.ofList text)).2 } } :=
        ⟨⟨alike.session.constants.mono grown, alike.session.asked⟩, alike.directive.mono grown, alike.annotated⟩
      exact .since grown (append_alike interned cursor ⟨.name named, rfl, place.mono grown, rfl⟩)
    cases wordless known isInclusion isName with
    | gap _ visits =>
      rw [visits, visits]
      exact .ok (.refl _) (outputAlike_of_events []) alike
    | mistake kind _ _ visits =>
      rw [visits, visits]
      exact .ok (.refl _) (outputAlike_error kind place) alike
    | constant _ _ visits =>
      rw [visits, visits]
      exact .ok (.refl _) (outputAlike_of_events []) ⟨alike.session, .name place, alike.annotated⟩
    | misspelled fault visits =>
      rw [visits, visits]
      exact .error _

theorem visitAll_alike (agrees : ∀ depth scan, nested = some (depth, scan) → Agrees scan)
    (same : Same (progress.session.interner, progress'.session.interner) path path') (lexemes : List Lexeme)
    (alike : ProgressAlike progress progress') :
    ScanAlike (progress.session.interner, progress'.session.interner)
      (visitAll resolver nested path lexemes progress) (visitAll resolver nested path' lexemes progress') := by
  induction lexemes generalizing progress progress' with
  | nil => exact finish_alike alike
  | cons lexeme lexemes ih =>
    refine .bind (visit_alike agrees same lexeme alike) ?_
    intro first next first' next' grown begun alike
    refine .since grown (.bind (ih (same.mono grown) alike) ?_)
    intro last session last' session' further ended sessions
    exact .ok further ((begun.mono further).append ended) sessions

theorem started_alike (alike : SessionAlike session session') :
    ProgressAlike { session } { session := session' } := ⟨alike, .none, rfl⟩

theorem scan_agrees (resolver : Resolver) (levels : Nat) : Agrees (scan resolver levels) := by
  induction levels with
  | zero =>
    intro path path' text session session' same alike
    refine visitAll_alike ?_ same _ (started_alike alike)
    intro depth scan none
    cases none
  | succ levels ih =>
    intro path path' text session session' same alike
    refine visitAll_alike ?_ same _ (started_alike alike)
    rintro depth scan ⟨⟩
    exact ih

/-! ### Results without symbols -/

/-- A token with its name and path as texts. -/
structure NamedToken where
  kind : NamedKind
  span : Span
  line : Nat
  column : Nat
  path : Option String
  indent : Option Nat
deriving DecidableEq

structure NamedError where
  kind : ErrorKind
  line : Nat
  column : Nat
  path : Option String
deriving DecidableEq

def namedToken (interner : Interner) (token : Token) : NamedToken where
  kind := namedKind interner token.kind
  span := token.span
  line := token.pos.line
  column := token.pos.column
  path := interner.resolve? token.pos.path
  indent := token.indent

def namedError (interner : Interner) (error : Scan.Error) : NamedError where
  kind := error.kind
  line := error.pos.line
  column := error.pos.column
  path := interner.resolve? error.pos.path

/-- The tokens, errors and events of a source, as the tokenizer's interner reads them afterwards. -/
def namedResult (result : Tokens × Tokenizer) : List NamedToken × List NamedError × List Event :=
  (result.1.tokens.map (namedToken result.2.interner), result.1.errors.map (namedError result.2.interner),
    result.1.events)

theorem Same.resolved (same : Same names name name') : names.1.resolve? name = names.2.resolve? name' := by
  obtain ⟨text, left, right⟩ := same
  exact left.trans right.symm

theorem KindAlike.named {kind kind' : TokenKind} (alike : KindAlike names kind kind') :
    namedKind names.1 kind = namedKind names.2 kind' := by
  cases alike with
  | name same => exact congrArg NamedKind.name same.resolved
  | other nameless => rw [namedKind_fixed nameless, namedKind_fixed nameless]

theorem TokenAlike.named (alike : TokenAlike names token token') :
    namedToken names.1 token = namedToken names.2 token' := by
  simp only [namedToken, alike.kind.named, alike.span, alike.pos.line, alike.pos.column, alike.pos.path.resolved,
    alike.indent]

theorem ErrorAlike.named {error error' : Scan.Error} (alike : ErrorAlike names error error') :
    namedError names.1 error = namedError names.2 error' := by
  simp only [namedError, alike.kind, alike.pos.line, alike.pos.column, alike.pos.path.resolved]

theorem map_eq_map {α β γ : Type} {related : α → β → Prop} {first : α → γ} {second : β → γ} {left : List α}
    {right : List β} (same : ∀ a b, related a b → first a = second b) (alike : List.Forall₂ related left right) :
    left.map first = right.map second := by
  rw [← List.forall₂_eq_eq_eq, List.forall₂_map_left_iff, List.forall₂_map_right_iff]
  exact alike.imp same

/-- Whatever a tokenizer has read before, after it was reset it makes of a source what a new one does. -/
theorem tokenize_after_reset (tokenizer : Tokenizer) (resolver : Resolver) {path : Symbol} {name : String}
    (known : tokenizer.interner.resolve? path = some name) (text : String) :
    (tokenizer.reset.tokenize resolver path text).map namedResult =
      ((Tokenizer.mk (Interner.empty.intern name).2 []).tokenize resolver (Interner.empty.intern name).1
        text).map namedResult := by
  have fresh : SessionAlike ⟨tokenizer.interner, [], []⟩ ⟨(Interner.empty.intern name).2, [], []⟩ := ⟨.nil, rfl⟩
  have alike := scan_agrees resolver maxIncludeDepth path (Interner.empty.intern name).1 text.toList _ _
    ⟨name, known, resolve?_intern _ _⟩ fresh
  unfold Tokenizer.tokenize Tokenizer.reset
  dsimp only
  revert alike
  generalize scan resolver maxIncludeDepth path text.toList ⟨tokenizer.interner, [], []⟩ = left
  generalize scan resolver maxIncludeDepth (Interner.empty.intern name).1 text.toList
    ⟨(Interner.empty.intern name).2, [], []⟩ = right
  intro alike
  cases alike with
  | ok grown outputs alike =>
    refine congrArg Except.ok (Prod.ext ?_ (Prod.ext ?_ outputs.events))
    · exact map_eq_map (fun _ _ token => token.named) (addBlockEnds_alike outputs.tokens)
    · exact map_eq_map (fun _ _ error => error.named) outputs.errors
  | error fault => rfl

/-- The name of a constant that stood for nothing is a name again. -/
theorem tokenize_after_reset_of_constant :
    let used : Tokenizer := ⟨((Interner.empty.intern "N").2.intern "main").2, [(⟨1⟩, [])]⟩
    used.constant? ⟨1⟩ = some [] ∧ used.interner.resolve? ⟨2⟩ = some "main" ∧
      (used.reset.tokenize Resolver.none ⟨2⟩ "N").map namedResult =
        ((Tokenizer.mk (Interner.empty.intern "main").2 []).tokenize Resolver.none ⟨1⟩ "N").map namedResult := by
  refine ⟨by decide, by decide, ?_⟩
  exact tokenize_after_reset ⟨((Interner.empty.intern "N").2.intern "main").2, [(⟨1⟩, [])]⟩ Resolver.none
    (by decide) "N"

end Arcade.Proofs.Scanning
