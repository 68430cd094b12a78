import Arcade.Token.Shown

/-! Errors of syntax and of name resolution. -/

namespace Arcade.Parse

/-- What was expected in the place of a token. -/
inductive Expected where
  | token (kind : TokenKind)
  | words (description : String)
deriving DecidableEq

inductive Error where
  | unexpectedEnd
  | unexpected (token : Token) (expected : Expected)
  /-- A name that no open scope declares. -/
  | undeclared (name : Symbol) (pos : Position)
  /-- A name that no open scope declares as a class. -/
  | undeclaredClass (name : Symbol) (pos : Position)
  /-- `this`, or a field of it, outside of a class body. -/
  | thisOutsideClass (pos : Position)
  | superOutsideClass (pos : Position)
  /-- An assignment to something that cannot be assigned to. -/
  | invalidAssignment (pos : Position)
  | duplicateParams (pos : Position)
deriving DecidableEq

/-- How the parser finds the place to go on after an error. -/
inductive Recovery where
  /-- Goes on where the error is. -/
  | keep
  | skipOne
  /-- Skips up to a line end or a block terminator. -/
  | line
deriving DecidableEq

def Expected.shown (expected : Expected) (interner : Interner) : String :=
  match expected with
  | .token kind => "'" ++ kind.shown interner ++ "'"
  | .words description => description

namespace Error

/-- Whether the error is about names rather than about syntax. -/
def isResolution : Error → Bool
  | undeclared .. | undeclaredClass .. | thisOutsideClass .. | superOutsideClass .. => true
  | _ => false

/-- Whether the error keeps a statement from being parsed. -/
def isSyntax : Error → Bool
  | unexpectedEnd | unexpected .. => true
  | _ => false

def shown (error : Error) (interner : Interner) : String :=
  match error with
  | unexpectedEnd => "unexpected end of file"
  | unexpected token expected =>
    token.pos.shown interner ++ " - unexpected '" ++ token.kind.shown interner ++ "', expected "
      ++ expected.shown interner
  | undeclared name pos =>
    pos.shown interner ++ " - undeclared identifier '" ++ name.shown interner ++ "'"
  | undeclaredClass name pos =>
    pos.shown interner ++ " - undeclared class '" ++ name.shown interner ++ "'"
  | thisOutsideClass pos => pos.shown interner ++ " - 'this' used outside of a class"
  | superOutsideClass pos => pos.shown interner ++ " - 'super' used outside of a class"
  | invalidAssignment pos => pos.shown interner ++ " - invalid assignment target"
  | duplicateParams pos => pos.shown interner ++ " - duplicate parameters in function"

/-- The text without names and paths. -/
def plain (error : Error) : String := error.shown Interner.empty

end Error
end Arcade.Parse
