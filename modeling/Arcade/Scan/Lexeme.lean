import Arcade.Scan.Cursor
import Arcade.Scan.Rule

/-! A text as a sequence of lexemes, which joined give the text again. -/

namespace Arcade.Scan

open Indent

/-- A piece of text, the rule that took it and where it starts. -/
structure Lexeme where
  rule : Rule
  text : List Char
  start : Cursor
deriving DecidableEq

namespace Lexeme

def span (lexeme : Lexeme) : Span :=
  ⟨lexeme.start.offset, lexeme.start.offset + byteLength lexeme.text⟩

def pos (lexeme : Lexeme) (path : Symbol) : Position := lexeme.start.pos path

end Lexeme

/-- Takes lexemes from the start of the text until none of it is left. -/
def lexemesFrom (cursor : Cursor) : List Char → List Lexeme
  | [] => []
  | c :: rest =>
    let rule := (Rule.matching? (c :: rest)).getD .unknown
    let more := rule.length (c :: rest) - 1
    let text := c :: rest.take more
    ⟨rule, text, cursor⟩ :: lexemesFrom (cursor.past text (rest.drop more)) (rest.drop more)
termination_by text => text.length
decreasing_by simp only [List.length_drop, List.length_cons]; omega

def lexemes (text : List Char) : List Lexeme := lexemesFrom (Cursor.start text) text

end Arcade.Scan
