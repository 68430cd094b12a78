import Arcade.Decimal.Layout
import Arcade.Text.Quoted
import Arcade.Token.Basic

/-! How tokens are shown in listings and diagnostics. -/

namespace Arcade

open Text

def Keyword.shown (word : Keyword) : String := paint .blue word.spelling

/-- Operators are colored, the plain assignment sign is not. -/
def Operator.shown : Operator → String
  | .assign => "="
  | op => paint .yellow op.spelling

def Literal.shown : Literal → String
  | .null => paint .blue "null"
  | .bool value => paint .blue (toString value)
  | .int value => toString value
  | .float bits => Decimal.Layout.shown.text Decimal.double bits
  | .string value => "\"" ++ bold (escaped value) ++ "\""

def Punctuation.shown : Punctuation → String
  | .arrow => paint .yellow "=>"
  | sign => sign.spelling

def TokenKind.shown (kind : TokenKind) (interner : Interner) : String :=
  match kind with
  | .identifier name => name.shown interner
  | .keyword word => word.shown
  | .operator op => op.shown
  | .literal value => value.shown
  | .punctuation sign => sign.shown
  | .eol => paint .cyan "<eol>"

def Token.shown (token : Token) (interner : Interner) : String :=
  toString token.pos.line ++ ":" ++ toString token.pos.column ++ " "
    ++ (match token.indent with
      | some indent => "[" ++ toString indent ++ "] "
      | none => "")
    ++ token.kind.shown interner
    ++ (if token.isSynthesized then paint .magenta " (synthesized)" else "")

end Arcade
