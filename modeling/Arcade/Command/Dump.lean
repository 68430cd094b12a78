import Arcade.Parse.Error
import Arcade.Text.Parts

/-! Errors of syntax with all their fields written out, as trace records show them. Symbols
stand as numbers. -/

namespace Arcade.Command.Dump

/-- A constructor with one argument. -/
def applied (constructor argument : String) : String := constructor ++ "(" ++ argument ++ ")"

/-- A constructor with named fields. -/
def withFields (constructor : String) (fields : List (String × String)) : String :=
  let shown := fields.map fun (name, value) => name ++ ": " ++ value
  constructor ++ " \x7b " ++ Text.joined ", " shown ++ " \x7d"

def symbol (name : Symbol) : String := applied "Symbol" (applied "Symbol" (toString name.index))

def position (pos : Position) : String :=
  withFields "SourcePos"
    [("line", toString pos.line), ("column", toString pos.column), ("path", symbol pos.path)]

def span (span : Span) : String :=
  withFields "Span" [("start", toString span.start), ("end", toString span.stop)]

/-- A word with its first letter in upper case. -/
def capitalized (word : String) : String :=
  match word.toList with
  | [] => ""
  | first :: rest => String.ofList (first.toUpper :: rest)

def operator : Operator → String
  | .plus => "Plus"
  | .minus => "Minus"
  | .times => "Times"
  | .div => "Div"
  | .mod => "Mod"
  | .equals => "Equals"
  | .notEquals => "NotEquals"
  | .greater => "Greater"
  | .greaterEquals => "GreaterEquals"
  | .lower => "Lower"
  | .lowerEquals => "LowerEquals"
  | .and => "And"
  | .or => "Or"
  | .xor => "Xor"
  | .not => "Not"
  | .assign => "Assign"
  | .plusAssign => "PlusAssign"
  | .minusAssign => "MinusAssign"
  | .timesAssign => "TimesAssign"
  | .divAssign => "DivAssign"
  | .modAssign => "ModAssign"

def literal : Literal → String
  | .null => "Null"
  | .bool value => capitalized (toString value)
  | .int value => applied "Int" (toString value)
  | .float bits => applied "Float" (Decimal.Layout.shown.text Decimal.double bits)
  | .string value => applied "String" (Text.quoted value)

def punctuation : Punctuation → String
  | .comma => "Comma"
  | .colon => "Colon"
  | .dot => "Dot"
  | .atSign => "At"
  | .arrow => "Arrow"
  | .openParens => "OpenParens"
  | .closeParens => "CloseParens"
  | .openBracket => "OpenBracket"
  | .closeBracket => "CloseBracket"
  | .openBrace => "OpenBrace"
  | .closeBrace => "CloseBrace"

def kind : TokenKind → String
  | .identifier name => applied "Identifier" (symbol name)
  | .keyword word => applied "Keyword" (capitalized word.spelling)
  | .operator op => applied "Operator" (operator op)
  | .literal value => applied "Literal" (literal value)
  | .punctuation sign => punctuation sign
  | .eol => "Eol"

def token (token : Token) : String :=
  withFields "Token"
    [("kind", kind token.kind), ("span", span token.span), ("pos", position token.pos),
      ("indent", match token.indent with
        | some indent => applied "Some" (toString indent)
        | none => "None")]

def expected : Parse.Expected → String
  | .token expected => applied "Token" (kind expected)
  | .words description => applied "Message" (Text.quoted description)

def error : Parse.Error → String
  | .unexpectedEnd => "UnexpectedEof"
  | .unexpected found wanted =>
    withFields "Unexpected" [("token", token found), ("expected", expected wanted)]
  | .undeclared name pos =>
    withFields "Undeclared" [("name", symbol name), ("pos", position pos)]
  | .undeclaredClass name pos =>
    withFields "UndeclaredClass" [("name", symbol name), ("pos", position pos)]
  | .thisOutsideClass pos => withFields "ThisOutsideClass" [("pos", position pos)]
  | .superOutsideClass pos => withFields "SuperOutsideClass" [("pos", position pos)]
  | .invalidAssignment pos => withFields "InvalidAssignment" [("pos", position pos)]
  | .duplicateParams pos => withFields "DuplicateParams" [("pos", position pos)]

end Arcade.Command.Dump
