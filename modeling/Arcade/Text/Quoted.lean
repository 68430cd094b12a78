import Arcade.Text.Extending
import Arcade.Text.Printable

/-! Text with escapes. Control characters and characters that would not show are written
as escapes; which quotes are escaped, and whether a combining character is, depends on
where the text stands. -/

namespace Arcade.Text

/-- Which characters are escaped although they can be shown. -/
structure Escaping where
  singleQuote : Bool
  doubleQuote : Bool
  combining : Bool

def lowerHexDigits (code : Nat) : String := String.ofList (Nat.toDigits 16 code)

/-- The escape that names a character by its code point, in lower case hexadecimal. -/
def codeEscape (c : Char) : String := "\\u\x7b" ++ lowerHexDigits c.toNat ++ "\x7d"

def escapeChar (escaping : Escaping) (c : Char) : String :=
  if c = '\x00' then "\\0"
  else if c = '\t' then "\\t"
  else if c = '\r' then "\\r"
  else if c = '\n' then "\\n"
  else if c = '\\' then "\\\\"
  else if c = '"' then (if escaping.doubleQuote then "\\\"" else "\"")
  else if c = '\'' then (if escaping.singleQuote then "\\'" else "'")
  else if escaping.combining && CharSet.extending.contains c then codeEscape c
  else if CharSet.printable.contains c then c.toString
  else codeEscape c

def escapeChars (escaping : Escaping) : List Char → String
  | [] => ""
  | c :: rest => escapeChar escaping c ++ escapeChars escaping rest

/-- A character on its own: everything that could be misread is escaped. -/
def escapedAlone (c : Char) : String := escapeChar ⟨true, true, true⟩ c

/-- A run of text. A combining character is escaped only at the start, where it has no
character to attach to. -/
def escaped (text : String) : String :=
  match text.toList with
  | [] => ""
  | c :: rest => escapedAlone c ++ escapeChars ⟨true, true, false⟩ rest

/-- Text between double quotes, in which a single quote stands for itself. -/
def quoted (text : String) : String :=
  "\"" ++ escapeChars ⟨false, true, true⟩ text.toList ++ "\""

end Arcade.Text
