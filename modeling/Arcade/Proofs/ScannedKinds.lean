import Arcade.Proofs.LexemeMeaning
import Arcade.Proofs.LexemeShapes
import Arcade.Proofs.PartialClosing

/-! What holds of all tokens of a scan. They come from lexemes, be it through constants or included sources, and
from the blocks that indentation closes. -/

namespace Arcade.Proofs

/-! ### Closed blocks -/

section
open Arcade.Indent

variable {tokens : List Token} {token : Token}

/-- The tokens that close blocks. -/
def IsClosing (kind : TokenKind) : Prop := kind = .keyword .endWord ∨ kind = .eol

theorem closing_endLine {offset indent : Nat} {pos : Position} (member : token ∈ endLine offset pos indent) :
    IsClosing token.kind := by
  rcases List.mem_pair.1 member with rfl | rfl
  · exact .inl rfl
  · exact .inr rfl

theorem closing_endsBefore {line : List Token} {opened : List Open}
    (member : token ∈ (endsBefore line opened).flatten) : IsClosing token.kind := by
  unfold endsBefore at member
  split at member
  · exact nomatch member
  · obtain ⟨_, inside, here⟩ := List.mem_flatten.1 member
    obtain ⟨block, _, rfl⟩ := List.mem_map.1 inside
    exact closing_endLine here

theorem closing_closeRemaining {last : Token} {opened : List Open}
    (member : token ∈ closeRemaining last opened) : IsClosing token.kind := by
  unfold closeRemaining at member
  dsimp only at member
  split at member
  · exact nomatch member
  · rcases List.mem_append.1 member with eol | ends
    · split at eol
      · exact nomatch eol
      · obtain rfl := List.mem_singleton.1 eol
        exact .inr rfl
    · obtain ⟨block, _, here⟩ := List.mem_flatMap.1 ends
      exact closing_endLine here

theorem mem_visitLines {lines : List (List Token)} {opened : List Open}
    (member : token ∈ (visitLines lines opened).1) : token ∈ lines.flatten ∨ IsClosing token.kind := by
  induction lines generalizing opened with
  | nil => exact nomatch member
  | cons line lines ih =>
    simp only [visitLines, visitLine_fst, List.mem_append] at member
    rcases member with (ends | here) | later
    · exact .inr (closing_endsBefore ends)
    · exact .inl (List.mem_append_left _ here)
    · exact (ih later).imp_left (List.mem_append_right _)

theorem mem_addBlockEnds (member : token ∈ addBlockEnds tokens) : token ∈ tokens ∨ IsClosing token.kind := by
  have inside (here : token ∈ (visitLines (logicalLines tokens) []).1) : token ∈ tokens ∨ IsClosing token.kind := by
    have source := mem_visitLines here
    rwa [flatten_logicalLines] at source
  rw [addBlockEnds_eq_closedAtEnd, List.mem_append] at member
  rcases member with here | closed
  · exact inside here
  · unfold closedAtEnd at closed
    cases last : tokens.getLast? <;> rw [last] at closed
    · exact nomatch closed
    · exact .inr (closing_closeRemaining closed)

end

namespace Scanning
open Arcade.Scan

/-! ### Properties of tokens -/

/-- A property that the tokens of all lexemes found have, given the texts of names, and that stays when more names
are known. -/
structure Inherent (found : Lexeme → Prop) (holds : Interner → TokenKind → Prop) : Prop where
  grows {names later : Interner} {kind : TokenKind} : holds names kind → Grows names later → holds later kind
  fixed {names : Interner} {lexeme : Lexeme} {kind : TokenKind} : found lexeme →
    fixedKind? lexeme.rule lexeme.text = some kind → holds names kind
  named {names : Interner} {lexeme : Lexeme} {name : Symbol} : found lexeme → lexeme.rule = .identifier →
    names.resolve? name = some (String.ofList lexeme.text) → holds names (.identifier name)
  ends {names : Interner} {kind : TokenKind} : IsClosing kind → holds names kind

variable {found : Lexeme → Prop} {holds : Interner → TokenKind → Prop} {names later : Interner} {resolver : Resolver}
  {nested : Option (Nat × Scanner)} {session : Session} {progress : Progress} {path : Symbol}
  {tokens : List Token} {token : Token} {constants : Constants} {lexeme : Lexeme}

def AllHold (holds : Interner → TokenKind → Prop) (names : Interner) (tokens : List Token) : Prop :=
  ∀ token ∈ tokens, holds names token.kind

/-- The property holds of what constants stand for. -/
def ConstantsHold (holds : Interner → TokenKind → Prop) (names : Interner) (constants : Constants) : Prop :=
  ∀ entry ∈ constants, AllHold holds names entry.2

inductive DirectiveHolds (holds : Interner → TokenKind → Prop) (names : Interner) : Directive → Prop where
  | none : DirectiveHolds holds names .none
  | name (pos : Position) : DirectiveHolds holds names (.name pos)
  | body (name : Symbol) {tokens : List Token} (all : AllHold holds names tokens) :
      DirectiveHolds holds names (.body name tokens)

def SessionHolds (holds : Interner → TokenKind → Prop) (session : Session) : Prop :=
  ConstantsHold holds session.interner session.constants

structure ProgressHolds (holds : Interner → TokenKind → Prop) (progress : Progress) : Prop where
  session : SessionHolds holds progress.session
  directive : DirectiveHolds holds progress.session.interner progress.directive

/-! ### Parts of a scan -/

/-- What a part of a scan yields has the property, and so has what it leaves for later. -/
inductive Carries {State : Type} (holds : Interner → TokenKind → Prop) (interner : State → Interner)
    (sound : State → Prop) (names : Interner) : Except Fault (Output × State) → Prop where
  | ok {output : Output} {state : State} (grown : Grows names (interner state))
      (all : AllHold holds (interner state) output.tokens) (kept : sound state) :
      Carries holds interner sound names (.ok (output, state))
  | error (fault : Fault) : Carries holds interner sound names (.error fault)

abbrev StepCarries (holds : Interner → TokenKind → Prop) :=
  Carries holds (fun progress : Progress => progress.session.interner) (ProgressHolds holds)

abbrev ScanCarries (holds : Interner → TokenKind → Prop) := Carries holds Session.interner (SessionHolds holds)

theorem Carries.since {State : Type} {interner : State → Interner} {sound : State → Prop}
    {result : Except Fault (Output × State)} (carries : Carries holds interner sound later result)
    (grown : Grows names later) : Carries holds interner sound names result := by
  cases carries with
  | ok further all kept => exact .ok (grown.trans further) all kept
  | error fault => exact .error fault

theorem Carries.of_ok {State : Type} {interner : State → Interner} {sound : State → Prop}
    {result : Output × State} (carries : Carries holds interner sound names (.ok result)) :
    Grows names (interner result.2) ∧ AllHold holds (interner result.2) result.1.tokens ∧ sound result.2 := by
  cases carries with
  | ok grown all kept => exact ⟨grown, all, kept⟩

theorem Carries.bind {First Last : Type} {interner : First → Interner} {sound : First → Prop}
    {interner' : Last → Interner} {sound' : Last → Prop} {result : Except Fault (Output × First)}
    {next : Output × First → Except Fault (Output × Last)} (carries : Carries holds interner sound names result)
    (onward : ∀ output state, Grows names (interner state) → AllHold holds (interner state) output.tokens →
      sound state →
      Carries holds interner' sound' (interner state) (next (output, state))) :
    Carries holds interner' sound' names (result >>= next) := by
  cases carries with
  | ok grown all kept => exact (onward _ _ grown all kept).since grown
  | error fault => exact .error fault

theorem allHold_nil : AllHold holds names [] := nofun

theorem constantsHold_nil (names : Interner) : ConstantsHold holds names [] := nofun

theorem AllHold.append {others : List Token} (all : AllHold holds names tokens)
    (all' : AllHold holds names others) : AllHold holds names (tokens ++ others) :=
  List.forall_mem_append.2 ⟨all, all'⟩

/-- Where tokens stand does not matter. -/
theorem AllHold.map {place : Token → Token} (all : AllHold holds names tokens)
    (same : ∀ token, (place token).kind = token.kind) : AllHold holds names (tokens.map place) := by
  intro token member
  obtain ⟨before, inside, rfl⟩ := List.mem_map.1 member
  exact same before ▸ all before inside

theorem AllHold.shift (all : AllHold holds names tokens) (levels : Nat) :
    AllHold holds names (shift levels tokens) := all.map fun _ => rfl

section
variable (inherent : Inherent found holds)
include inherent

theorem AllHold.grows (all : AllHold holds names tokens) (grown : Grows names later) : AllHold holds later tokens :=
  fun token member => inherent.grows (all token member) grown

theorem AllHold.addBlockEnds (all : AllHold holds names tokens) :
    AllHold holds names (Indent.addBlockEnds tokens) :=
  fun token member => (mem_addBlockEnds member).elim (all token) inherent.ends

theorem ConstantsHold.grows (all : ConstantsHold holds names constants) (grown : Grows names later) :
    ConstantsHold holds later constants :=
  fun entry member => (all entry member).grows inherent grown

theorem DirectiveHolds.grows {directive : Directive} (sound : DirectiveHolds holds names directive)
    (grown : Grows names later) : DirectiveHolds holds later directive := by
  cases sound with
  | none => exact .none
  | name pos => exact .name pos
  | body name all => exact .body name (all.grows inherent grown)

end

/-! ### Tokens -/

theorem ConstantsHold.lookup {name : Symbol} (sound : ConstantsHold holds names constants)
    (found : constants.lookup name = some tokens) : AllHold holds names tokens := by
  induction constants with
  | nil => exact nomatch found
  | cons entry rest ih =>
    obtain ⟨here, later⟩ := List.forall_mem_cons.1 sound
    rw [List.lookup_cons] at found
    split at found
    · cases found
      exact here
    · exact ih later found

theorem ConstantsHold.expand (sound : ConstantsHold holds names constants) (here : holds names token.kind) :
    AllHold holds names (expand constants token) := by
  have alone : AllHold holds names [token] := List.forall_mem_singleton.2 here
  unfold Scan.expand
  split
  next name _ =>
    cases found : constants.lookup name with
    | none => exact alone
    | some tokens => exact sound.lookup found
  next => exact alone

theorem define_carries {name : Symbol} (sound : SessionHolds holds session)
    (all : AllHold holds session.interner tokens) :
    ScanCarries holds session.interner (.ok (session.define name tokens)) := by
  unfold Session.define
  split
  · exact .ok (.refl _) allHold_nil sound
  · exact .ok (.refl _) allHold_nil (List.forall_mem_cons.2 ⟨all, sound⟩)

theorem place_carries (sound : ProgressHolds holds progress) (cursor : Cursor)
    (all : AllHold holds progress.session.interner tokens) :
    StepCarries holds progress.session.interner (.ok (progress.place cursor tokens)) := by
  unfold Progress.place
  split
  · exact .ok (.refl _) allHold_nil sound
  · obtain ⟨first, rest⟩ := List.forall_mem_cons.1 all
    exact .ok (.refl _) (List.forall_mem_cons.2 ⟨first, AllHold.map rest fun _ => rfl⟩) ⟨sound.session, sound.directive⟩

theorem append_carries (sound : ProgressHolds holds progress) (cursor : Cursor)
    (here : holds progress.session.interner token.kind) :
    StepCarries holds progress.session.interner (.ok (progress.append cursor token)) := by
  have expanded := sound.session.expand here
  obtain ⟨session, directive, annotated⟩ := progress
  obtain ⟨constants, directive⟩ := sound
  cases directive with
  | none => exact place_carries ⟨constants, .none⟩ cursor expanded
  | name pos =>
    unfold Progress.append
    dsimp only
    split
    · exact .ok (.refl _) allHold_nil ⟨constants, .body _ allHold_nil⟩
    · exact .ok (.refl _) allHold_nil ⟨constants, .none⟩
    · exact .ok (.refl _) allHold_nil ⟨constants, .body _ allHold_nil⟩
  | body name all =>
    unfold Progress.append
    dsimp only
    split
    · obtain ⟨grown, silent, kept⟩ := (define_carries constants all).of_ok
      exact .ok grown silent ⟨kept, .none⟩
    · exact .ok (.refl _) allHold_nil ⟨constants, .body name (all.append expanded)⟩

theorem finish_carries (sound : ProgressHolds holds progress) :
    ScanCarries holds progress.session.interner (.ok progress.finish) := by
  obtain ⟨session, directive, annotated⟩ := progress
  obtain ⟨constants, directive⟩ := sound
  cases directive with
  | none | name => exact .ok (.refl _) allHold_nil constants
  | body name all => exact define_carries constants all

/-! ### Whole sources -/

theorem ProgressHolds.started (sound : SessionHolds holds session) : ProgressHolds holds { session } :=
  ⟨sound, .none⟩

/-- A scanner whose tokens have the property, if its lexemes are found and the constants that it starts with have
the property. -/
def ScannerCarries (found : Lexeme → Prop) (holds : Interner → TokenKind → Prop) (scan : Scanner) : Prop :=
  ∀ path text session, (∀ lexeme ∈ lexemes text, found lexeme) → SessionHolds holds session →
    ScanCarries holds session.interner (scan path text session)

/-- The lexemes of all sources that are answered are found. -/
def AnswersFound (found : Lexeme → Prop) (resolver : Resolver) : Prop :=
  ∀ asked name text, resolver asked name = .ok text → ∀ lexeme ∈ lexemes text.toList, found lexeme

section
variable (inherent : Inherent found holds)
include inherent

theorem include?_carries (answers : AnswersFound found resolver)
    (carries : ∀ depth scan, nested = some (depth, scan) → ScannerCarries found holds scan)
    (sound : SessionHolds holds session) (name : String) (cursor : Cursor) (pos : Position) :
    ScanCarries holds session.interner (include? resolver nested name cursor pos session) := by
  unfold include?
  split
  next => exact .ok (.refl _) allHold_nil sound
  next depth scan =>
    dsimp only
    split
    next => exact .ok (.refl _) allHold_nil sound
    next text answered =>
      have grown := grows_intern session.interner name
      have inside := answers _ name text answered
      refine .since (.bind (carries depth scan rfl _ text.toList _ inside nofun) ?_) grown
      intro output inner further all kept
      have outer := sound.grows inherent (grown.trans further)
      dsimp only
      split
      · have placed := (all.addBlockEnds inherent).shift cursor.indent
        exact .ok (.refl _) (allHold_nil.append placed) (List.forall_mem_append.2 ⟨kept, outer⟩)
      · exact .ok (.refl _) allHold_nil outer

theorem visit_carries (answers : AnswersFound found resolver)
    (carries : ∀ depth scan, nested = some (depth, scan) → ScannerCarries found holds scan) (here : found lexeme)
    (sound : ProgressHolds holds progress) :
    StepCarries holds progress.session.interner (visit resolver nested path lexeme progress) := by
  obtain ⟨rule, word, cursor⟩ := lexeme
  cases known : fixedKind? rule word with
  | some kind =>
    rw [visit_fixed known]
    exact append_carries sound cursor (inherent.fixed here known)
  | none =>
    by_cases isInclusion : rule = .inclusion
    · subst isInclusion
      refine .bind (include?_carries inherent answers carries sound.session _ cursor _) ?_
      intro output session grown all kept
      exact .ok (.refl _) all ⟨kept, sound.directive.grows inherent grown⟩
    by_cases isName : rule = .identifier
    · subst isName
      have grown := grows_intern progress.session.interner (String.ofList word)
      have interned : ProgressHolds holds { progress with session := { progress.session with
          interner := (progress.session.interner.intern (String.ofList word)).2 } } :=
        ⟨sound.session.grows inherent grown, sound.directive.grows inherent grown⟩
      exact (append_carries interned cursor (inherent.named here rfl (resolve?_intern ..))).since grown
    cases wordless known isInclusion isName with
    | gap _ visits | mistake _ _ _ visits =>
      rw [visits]
      exact .ok (.refl _) allHold_nil sound
    | constant _ _ visits =>
      rw [visits]
      exact .ok (.refl _) allHold_nil ⟨sound.session, .name _⟩
    | misspelled fault visits =>
      rw [visits]
      exact .error _

theorem visitAll_carries (answers : AnswersFound found resolver)
    (carries : ∀ depth scan, nested = some (depth, scan) → ScannerCarries found holds scan) {left : List Lexeme}
    (known : ∀ lexeme ∈ left, found lexeme) (sound : ProgressHolds holds progress) :
    ScanCarries holds progress.session.interner (visitAll resolver nested path left progress) := by
  induction left generalizing progress with
  | nil => exact finish_carries sound
  | cons lexeme rest ih =>
    obtain ⟨here, later⟩ := List.forall_mem_cons.1 known
    refine .bind (visit_carries inherent answers carries here sound) ?_
    intro output progress grown all sound
    refine .bind (ih later sound) ?_
    intro following session further others kept
    exact .ok (.refl _) ((all.grows inherent further).append others) kept

theorem scan_carries (answers : AnswersFound found resolver) (levels : Nat) :
    ScannerCarries found holds (scan resolver levels) := by
  induction levels with
  | zero =>
    intro path text session known sound
    refine visitAll_carries inherent answers ?_ known (ProgressHolds.started sound)
    intro depth scan none
    cases none
  | succ levels ih =>
    intro path text session known sound
    refine visitAll_carries inherent answers ?_ known (ProgressHolds.started sound)
    rintro depth scan ⟨⟩
    exact ih

/-- The tokens of a source have the property, and so have those of all constants, if the constants had it before.
All names stay known. -/
theorem tokenize_carries {tokenizer after : Tokenizer} {text : String} {result : Tokens}
    (known : ∀ lexeme ∈ lexemes text.toList, found lexeme) (answers : AnswersFound found resolver)
    (sound : ConstantsHold holds tokenizer.interner tokenizer.constants)
    (completed : tokenizer.tokenize resolver path text = .ok (result, after)) :
    Grows tokenizer.interner after.interner ∧ AllHold holds after.interner result.tokens ∧
      ConstantsHold holds after.interner after.constants := by
  obtain ⟨⟨output, session⟩, scanned, done⟩ := Except.bind_ok.mp completed
  cases done
  have carries := scan_carries inherent answers maxIncludeDepth path text.toList
    { interner := tokenizer.interner, constants := tokenizer.constants } known sound
  rw [scanned] at carries
  obtain ⟨grown, all, kept⟩ := carries.of_ok
  exact ⟨grown, all.addBlockEnds inherent, kept⟩

end

end Scanning
end Arcade.Proofs
