import Arcade.Proofs.AnalyzedTrees
import Arcade.Proofs.ListingReadings

/-! What the listing of a program tells about the program: everything but positions and where its unary operators
are applied. -/

namespace Arcade.Proofs
open Arcade.Scan Arcade.Text Scanning

variable {names later : Interner} {program program' : Program} {body body' : Block} {kinds : List TokenKind}

/-! ### Programs that are listed alike -/

theorem AreListable.grows (listable : AreListable names kinds) (grown : Grows names later) :
    AreListable later kinds :=
  fun kind member => (listable kind member).grows grown

variable {source source' : Source} {interner interner' names' : Interner} {resolver resolver' : Resolver}
  {globals globals' : Globals} {first second : Analysis}

end Arcade.Proofs
