import Arcade.Position
import Arcade.Text.Quoted

/-! Lexical errors. -/

namespace Arcade.Scan

/-- Why a source could not be included. -/
inductive IncludeFailure where
  | unreadable (reason : String)
  /-- The included source has this many errors of its own, reported before. -/
  | errors (count : Nat)
  | tooDeep
deriving DecidableEq

inductive ErrorKind where
  /-- No rule takes this character. -/
  | unexpected (c : Char)
  | unterminatedString
  | unterminatedComment
  | invalidEscape (sequence : String)
  /-- An integer that is too large. -/
  | invalidNumber (text : String)
  /-- A `CONST` that no name follows. -/
  | invalidConstant
  | inclusion (name : String) (failure : IncludeFailure)
deriving DecidableEq

structure Error where
  kind : ErrorKind
  pos : Position
deriving DecidableEq

def IncludeFailure.message : IncludeFailure → String
  | unreadable reason => reason
  | errors count => toString count ++ " lexical errors"
  | tooDeep => "includes nested too deeply"

def ErrorKind.message : ErrorKind → String
  | unexpected c => "unexpected '" ++ Text.escapedAlone c ++ "'"
  | unterminatedString => "unterminated string literal"
  | unterminatedComment => "unterminated block comment"
  | invalidEscape sequence => "invalid escape sequence: " ++ sequence
  | invalidNumber text => "invalid number: " ++ text
  | invalidConstant => "expected constant name after CONST"
  | inclusion name failure => "failed to include \"" ++ name ++ "\": " ++ failure.message

namespace Error

def shown (error : Error) (interner : Interner) : String :=
  error.pos.shown interner ++ " - " ++ error.kind.message ++ "."

/-- The text without the path. -/
def plain (error : Error) : String := error.pos.plain ++ " - " ++ error.kind.message ++ "."

end Error
end Arcade.Scan
