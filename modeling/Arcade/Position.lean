import Arcade.Symbol

/-! Places in source text. -/

namespace Arcade

/-- A place for people to read: lines count from 1, columns are characters from 0. -/
structure Position where
  line : Nat
  column : Nat
  path : Symbol
deriving DecidableEq, Inhabited

namespace Position

/-- The place without its path. -/
def plain (pos : Position) : String :=
  "line " ++ toString pos.line ++ ", column " ++ toString pos.column

def shown (pos : Position) (interner : Interner) : String :=
  (interner.resolve? pos.path).getD "<unknown>" ++ " (" ++ pos.plain ++ ")"

end Position

/-- The bytes from `start` up to, but not including, `stop`. -/
structure Span where
  start : Nat
  stop : Nat
deriving DecidableEq, Inhabited

end Arcade
