import Mathlib.Data.List.Forall2
import Arcade.Proofs.LexemeMeaning
import Arcade.Proofs.RenamedTokens

/-! Scans with different interners side by side. Symbols are compared by their texts only, so as long as both
scans are given the same texts they do the same, whatever their symbols are, and what was interned
before has no influence. -/

namespace Arcade.Proofs.Scanning
open Arcade.Indent Arcade.Scan

/-! ### The same texts

The two interners of a pair grow, and what is the same in them stays the same. -/

variable {names later : Interner × Interner}

/-- The symbols have the same text, the first one in the first interner and the second in the second. -/
def Same (names : Interner × Interner) (name name' : Symbol) : Prop :=
  ∃ text, names.1.resolve? name = some text ∧ names.2.resolve? name' = some text

inductive KindAlike (names : Interner × Interner) : TokenKind → TokenKind → Prop where
  | name {name name' : Symbol} (same : Same names name name') :
      KindAlike names (.identifier name) (.identifier name')
  | other {kind : TokenKind} (nameless : ∀ name, kind ≠ .identifier name) : KindAlike names kind kind

structure PlaceAlike (names : Interner × Interner) (pos pos' : Position) : Prop where
  line : pos.line = pos'.line
  column : pos.column = pos'.column
  path : Same names pos.path pos'.path

structure TokenAlike (names : Interner × Interner) (token token' : Token) : Prop where
  kind : KindAlike names token.kind token'.kind
  span : token.span = token'.span
  pos : PlaceAlike names token.pos token'.pos
  indent : token.indent = token'.indent

structure ErrorAlike (names : Interner × Interner) (error error' : Scan.Error) : Prop where
  kind : error.kind = error'.kind
  pos : PlaceAlike names error.pos error'.pos

structure OutputAlike (names : Interner × Interner) (output output' : Output) : Prop where
  tokens : List.Forall₂ (TokenAlike names) output.tokens output'.tokens
  errors : List.Forall₂ (ErrorAlike names) output.errors output'.errors
  events : output.events = output'.events

def ConstantsAlike (names : Interner × Interner) (constants constants' : Constants) : Prop :=
  List.Forall₂ (fun entry entry' => Same names entry.1 entry'.1 ∧
    List.Forall₂ (TokenAlike names) entry.2 entry'.2) constants constants'

inductive DirectiveAlike (names : Interner × Interner) : Directive → Directive → Prop where
  | none : DirectiveAlike names .none .none
  | name {pos pos' : Position} (place : PlaceAlike names pos pos') :
      DirectiveAlike names (.name pos) (.name pos')
  | body {name name' : Symbol} {tokens tokens' : List Token} (same : Same names name name')
      (alike : List.Forall₂ (TokenAlike names) tokens tokens') :
      DirectiveAlike names (.body name tokens) (.body name' tokens')

structure SessionAlike (session session' : Session) : Prop where
  constants : ConstantsAlike (session.interner, session'.interner) session.constants session'.constants
  asked : session.asked = session'.asked

structure ProgressAlike (progress progress' : Progress) : Prop where
  session : SessionAlike progress.session progress'.session
  directive : DirectiveAlike (progress.session.interner, progress'.session.interner)
    progress.directive progress'.directive
  annotated : progress.annotated = progress'.annotated

/-- Both interners have grown. -/
def Extends (names later : Interner × Interner) : Prop := Grows names.1 later.1 ∧ Grows names.2 later.2

theorem Extends.refl (names : Interner × Interner) : Extends names names := ⟨.refl _, .refl _⟩

theorem Extends.trans {last : Interner × Interner} (first : Extends names later) (second : Extends later last) :
    Extends names last := ⟨first.1.trans second.1, first.2.trans second.2⟩

theorem Same.mono {name name' : Symbol} (same : Same names name name') (grown : Extends names later) :
    Same later name name' := by
  obtain ⟨text, known, known'⟩ := same
  exact ⟨text, grown.1 _ _ known, grown.2 _ _ known'⟩

theorem PlaceAlike.mono {pos pos' : Position} (alike : PlaceAlike names pos pos')
    (grown : Extends names later) : PlaceAlike later pos pos' :=
  ⟨alike.line, alike.column, alike.path.mono grown⟩

theorem KindAlike.mono {kind kind' : TokenKind} (alike : KindAlike names kind kind')
    (grown : Extends names later) : KindAlike later kind kind' := by
  cases alike with
  | name same => exact .name (same.mono grown)
  | other nameless => exact .other nameless

theorem TokenAlike.mono {token token' : Token} (alike : TokenAlike names token token')
    (grown : Extends names later) : TokenAlike later token token' :=
  ⟨alike.kind.mono grown, alike.span, alike.pos.mono grown, alike.indent⟩

theorem tokens_mono {tokens tokens' : List Token} (alike : List.Forall₂ (TokenAlike names) tokens tokens')
    (grown : Extends names later) : List.Forall₂ (TokenAlike later) tokens tokens' :=
  alike.imp fun _ _ token => token.mono grown

theorem OutputAlike.mono {output output' : Output} (alike : OutputAlike names output output')
    (grown : Extends names later) : OutputAlike later output output' :=
  ⟨tokens_mono alike.tokens grown,
    alike.errors.imp fun _ _ error => ⟨error.kind, error.pos.mono grown⟩, alike.events⟩

theorem ConstantsAlike.mono {constants constants' : Constants} (alike : ConstantsAlike names constants constants')
    (grown : Extends names later) : ConstantsAlike later constants constants' :=
  List.Forall₂.imp (fun _ _ entry => ⟨entry.1.mono grown, tokens_mono entry.2 grown⟩) alike

theorem DirectiveAlike.mono {directive directive' : Directive}
    (alike : DirectiveAlike names directive directive') (grown : Extends names later) :
    DirectiveAlike later directive directive' := by
  cases alike with
  | none => exact .none
  | name place => exact .name (place.mono grown)
  | body same tokens => exact .body (same.mono grown) (tokens_mono tokens grown)

/-- Symbols are told apart as their texts are. -/
theorem Same.eq_iff {first first' second second' : Symbol} (same : Same names first first')
    (other : Same names second second') : first = second ↔ first' = second' := by
  obtain ⟨text, left, right⟩ := same
  obtain ⟨text', left', right'⟩ := other
  constructor
  · rintro rfl
    cases left.symm.trans left'
    exact resolve?_inj right right'
  · rintro rfl
    cases right.symm.trans right'
    exact resolve?_inj left left'

theorem same_invalid (names : Interner × Interner) : Same names Symbol.invalid Symbol.invalid :=
  ⟨Symbol.invalidText, rfl, rfl⟩

theorem same_intern (names : Interner × Interner) (text : String) :
    Extends names ((names.1.intern text).2, (names.2.intern text).2) ∧
      Same ((names.1.intern text).2, (names.2.intern text).2) (names.1.intern text).1 (names.2.intern text).1 :=
  ⟨⟨grows_intern names.1 text, grows_intern names.2 text⟩, text, resolve?_intern .., resolve?_intern ..⟩

theorem KindAlike.eq_iff {kind kind' expected : TokenKind} (alike : KindAlike names kind kind')
    (nameless : ∀ name, expected ≠ .identifier name) : kind = expected ↔ kind' = expected := by
  cases alike with
  | name same => exact ⟨fun found => absurd found.symm (nameless _), fun found => absurd found.symm (nameless _)⟩
  | other => rfl

/-! ### Closed blocks -/

/-- Alike tokens are the same tokens renamed in two ways. -/
theorem exists_renamings (names : Interner × Interner) : ∃ first second : Symbol → Symbol,
    (∀ name, Same names (first name) (second name)) ∧
      ∀ name name', Same names name name' → first name = name ∧ second name = name' := by
  have each (name : Symbol) : ∃ first second, Same names first second ∧
      ∀ name', Same names name name' → first = name ∧ second = name' := by
    by_cases known : ∃ name', Same names name name'
    · obtain ⟨name', same⟩ := known
      exact ⟨name, name', same, fun other same' => ⟨rfl, (same.eq_iff same').mp rfl⟩⟩
    · exact ⟨_, _, same_invalid names, fun name' same => absurd ⟨name', same⟩ known⟩
  choose first second same kept using each
  exact ⟨first, second, same, kept⟩

theorem addBlockEnds_alike {tokens tokens' : List Token} (alike : List.Forall₂ (TokenAlike names) tokens tokens') :
    List.Forall₂ (TokenAlike names) (addBlockEnds tokens) (addBlockEnds tokens') := by
  obtain ⟨first, second, same, kept⟩ := exists_renamings names
  have renamings {token token' : Token} (alike : TokenAlike names token token') :
      renamed first token = token ∧ renamed second token = token' := by
    obtain ⟨kind, span, ⟨line, column, path⟩, indent⟩ := token
    obtain ⟨kind', span', ⟨line', column', path'⟩, indent'⟩ := token'
    obtain ⟨kinds, rfl, ⟨rfl, rfl, paths⟩, rfl⟩ := alike
    obtain ⟨path, path'⟩ := kept _ _ paths
    cases kinds with
    | name names =>
      obtain ⟨name, name'⟩ := kept _ _ names
      simp [renamed, renamedKind, path, path', name, name']
    | other nameless =>
      cases kind with
      | identifier name => exact absurd rfl (nameless name)
      | _ => simp [renamed, renamedKind, path, path']
  have before : tokens.map (renamed first) = tokens ∧ tokens.map (renamed second) = tokens' := by
    induction alike with
    | nil => exact ⟨rfl, rfl⟩
    | cons token _ ih => simp [renamings token, ih]
  rw [← before.2, ← congrArg addBlockEnds before.1, addBlockEnds_renamed, addBlockEnds_renamed,
    List.forall₂_map_left_iff, List.forall₂_map_right_iff]
  refine List.forall₂_same.mpr fun token _ => ?_
  refine ⟨?_, rfl, ⟨rfl, rfl, same _⟩, rfl⟩
  show KindAlike names (renamedKind first token.kind) (renamedKind second token.kind)
  cases token.kind with
  | identifier name => exact .name (same name)
  | _ => exact .other (by simp [renamedKind])

end Arcade.Proofs.Scanning
