import Arcade.Position

/-! The tokens of the language. -/

namespace Arcade

/-- The reserved words, apart from the ones that are literals. -/
inductive Keyword where
  | letWord | ifWord | elseWord | whileWord | forWord | toWord | stepWord | returnWord
  | breakWord | continueWord | classWord | extendsWord | newWord | thisWord | superWord | endWord
deriving DecidableEq

namespace Keyword

def all : List Keyword :=
  [letWord, ifWord, elseWord, whileWord, forWord, toWord, stepWord, returnWord,
    breakWord, continueWord, classWord, extendsWord, newWord, thisWord, superWord, endWord]

/-- The word in lower case. -/
def spelling : Keyword → String
  | letWord => "let"
  | ifWord => "if"
  | elseWord => "else"
  | whileWord => "while"
  | forWord => "for"
  | toWord => "to"
  | stepWord => "step"
  | returnWord => "return"
  | breakWord => "break"
  | continueWord => "continue"
  | classWord => "class"
  | extendsWord => "extends"
  | newWord => "new"
  | thisWord => "this"
  | superWord => "super"
  | endWord => "end"

/-- Whether the word opens a block at the start of a line. -/
def opensBlock : Keyword → Bool
  | ifWord | whileWord | forWord | classWord => true
  | _ => false

end Keyword

/-- Values written in the source. A `float` is held as the bits of its 64 bit pattern. -/
inductive Literal where
  | null
  | bool (value : Bool)
  | int (value : Int)
  | float (bits : Nat)
  | string (value : String)
deriving DecidableEq

/-- Operators, assignments among them. -/
inductive Operator where
  | plus | minus | times | div | mod
  | equals | notEquals | greater | greaterEquals | lower | lowerEquals
  | and | or | xor | not
  | assign | plusAssign | minusAssign | timesAssign | divAssign | modAssign
deriving DecidableEq

namespace Operator

def all : List Operator :=
  [plus, minus, times, div, mod, equals, notEquals, greater, greaterEquals, lower, lowerEquals,
    and, or, xor, not, assign, plusAssign, minusAssign, timesAssign, divAssign, modAssign]

def spelling : Operator → String
  | plus => "+"
  | minus => "-"
  | times => "*"
  | div => "/"
  | mod => "%"
  | equals => "=="
  | notEquals => "!="
  | greater => ">"
  | greaterEquals => ">="
  | lower => "<"
  | lowerEquals => "<="
  | and => "&"
  | or => "|"
  | xor => "^"
  | not => "!"
  | assign => "="
  | plusAssign => "+="
  | minusAssign => "-="
  | timesAssign => "*="
  | divAssign => "/="
  | modAssign => "%="

/-- The bitwise operators, which bind least. -/
def isJunction : Operator → Bool
  | and | or | xor => true
  | _ => false

/-- Comparisons. -/
def isConditional : Operator → Bool
  | equals | notEquals | greater | greaterEquals | lower | lowerEquals => true
  | _ => false

def isTerm : Operator → Bool
  | plus | minus => true
  | _ => false

def isFactor : Operator → Bool
  | times | div | mod => true
  | _ => false

def isUnary : Operator → Bool
  | minus | not => true
  | _ => false

def isAssignment : Operator → Bool
  | assign | plusAssign | minusAssign | timesAssign | divAssign | modAssign => true
  | _ => false

end Operator

/-- Signs that are no operators. -/
inductive Punctuation where
  | comma | colon | dot | atSign | arrow
  | openParens | closeParens | openBracket | closeBracket | openBrace | closeBrace
deriving DecidableEq

namespace Punctuation

def all : List Punctuation :=
  [comma, colon, dot, atSign, arrow, openParens, closeParens, openBracket, closeBracket, openBrace,
    closeBrace]

def spelling : Punctuation → String
  | comma => ","
  | colon => ":"
  | dot => "."
  | atSign => "@"
  | arrow => "=>"
  | openParens => "("
  | closeParens => ")"
  | openBracket => "["
  | closeBracket => "]"
  | openBrace => "\x7b"
  | closeBrace => "\x7d"

end Punctuation

inductive TokenKind where
  | identifier (name : Symbol)
  | keyword (word : Keyword)
  | operator (op : Operator)
  | literal (value : Literal)
  | punctuation (sign : Punctuation)
  /-- The end of a line, which separates statements. -/
  | eol
deriving DecidableEq

/-- Whether the token ends a block of statements. -/
def TokenKind.isBlockTerminator : TokenKind → Bool
  | .keyword .endWord | .keyword .elseWord => true
  | _ => false

/-- A token and where it stands. The indentation of a line is noted on its first token. -/
structure Token where
  kind : TokenKind
  span : Span
  pos : Position
  indent : Option Nat := none
deriving DecidableEq

namespace Token

/-- A token with no text of its own, at the given offset. -/
def synthesized (kind : TokenKind) (offset : Nat) (pos : Position) : Token :=
  { kind, span := ⟨offset, offset⟩, pos }

/-- Whether the token was added rather than written. -/
def isSynthesized (token : Token) : Bool := token.span.start = token.span.stop

end Token
end Arcade
