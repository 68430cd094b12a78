import Arcade.Symbol
import Arcade.Text.Utf8

/-! Sources of programs and why they cannot be read. -/

namespace Arcade

/-- A source text. The path may be made up, such as `<stdin>`. -/
structure Source where
  path : Symbol
  text : String

inductive ReadFailure where
  | notFound
  | isDirectory
  /-- A file stands in the path where a directory is needed. -/
  | notDirectory
  /-- The bytes are no text. -/
  | notText
  /-- A name holds a character that ends names. -/
  | nulInName
  | nameTooLong
  | other (description : String)
deriving DecidableEq

def ReadFailure.message : ReadFailure → String
  | notFound => "No such file or directory (os error 2)"
  | isDirectory => "Is a directory (os error 21)"
  | notDirectory => "Not a directory (os error 20)"
  | notText => "stream did not contain valid UTF-8"
  | nulInName => "file name contained an unexpected NUL byte"
  | nameTooLong => "File name too long (os error 36)"
  | other description => description

/-- The text that bytes hold. -/
def readText (bytes : List UInt8) : Except ReadFailure String :=
  match Utf8.decode? bytes with
  | some text => .ok text
  | none => .error .notText

end Arcade
