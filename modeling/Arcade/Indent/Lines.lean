import Arcade.Text.Parts

/-! Physical lines of a text and their indentation. -/

namespace Arcade.Indent

/-- The leading tabs and pairs of spaces. An odd space before a tab, or before the text, does
not count. -/
def indentOf : List Char → Nat
  | '\t' :: rest => indentOf rest + 1
  | ' ' :: '\t' :: rest => indentOf rest + 1
  | ' ' :: ' ' :: rest => indentOf rest + 1
  | _ => 0

/-- The number of bytes of a run of text. -/
def byteLength : List Char → Nat
  | [] => 0
  | c :: rest => c.utf8Size + byteLength rest

/-- A physical line: the byte where it starts, and its indentation. -/
structure Line where
  start : Nat
  indent : Nat
deriving DecidableEq

/-- Measures lines that follow one another from the given byte on. -/
def measure (start : Nat) : List (List Char) → List Line
  | [] => []
  | line :: lines => ⟨start, indentOf line⟩ :: measure (start + byteLength line + 1) lines

def lines (text : String) : List Line := measure 0 (Text.split '\n' text.toList)

end Arcade.Indent
