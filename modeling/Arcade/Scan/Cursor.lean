import Arcade.Indent.Lines
import Arcade.Position

/-! Where the scanner stands in a text. -/

namespace Arcade.Scan

open Indent

/-- The byte offset, the line and column, and the indentation of the physical line. -/
structure Cursor where
  offset : Nat
  line : Nat
  column : Nat
  indent : Nat
deriving DecidableEq

namespace Cursor

def start (text : List Char) : Cursor := ⟨0, 1, 0, indentOf text⟩

/-- Moves over `read`, which `following` comes after. -/
def past (cursor : Cursor) : (read following : List Char) → Cursor
  | [], _ => cursor
  | c :: read, following =>
    let offset := cursor.offset + c.utf8Size
    if c = '\n' then past ⟨offset, cursor.line + 1, 0, indentOf (read ++ following)⟩ read following
    else past ⟨offset, cursor.line, cursor.column + 1, cursor.indent⟩ read following

def pos (cursor : Cursor) (path : Symbol) : Position := ⟨cursor.line, cursor.column, path⟩

end Cursor
end Arcade.Scan
