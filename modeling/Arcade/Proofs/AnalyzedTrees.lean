import Arcade.Analysis
import Arcade.Proofs.AcceptedSource
import Arcade.Proofs.ConstantSubstitution
import Arcade.Proofs.ScannedKinds
import Arcade.Proofs.WrittenTrees

/-! The program of a source without problems can be listed. Its tokens come from lexemes: names are made of letters
and digits, and no number is larger than infinity. -/

namespace Arcade.Proofs
open Arcade.Scan Scanning

/-! ### Numbers -/

section
open Decimal

end

variable {names later : Interner} {kind : TokenKind} {text : List Char} {lexeme : Lexeme}

theorem IsListable.grows (listable : IsListable names kind) (grown : Grows names later) : IsListable later kind := by
  cases kind with
  | identifier name =>
    obtain ⟨valid, text, resolved, plain⟩ := listable
    exact ⟨valid, text, grown name text resolved, plain⟩
  | literal value => cases value <;> exact listable
  | _ => trivial

variable {source : Source} {interner : Interner} {resolver : Resolver} {globals : Globals} {analysis : Analysis}

end Arcade.Proofs
