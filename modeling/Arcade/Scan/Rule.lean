import Arcade.Text.Word
import Arcade.Token.Basic

/-! The lexical rules. Each says how many characters it takes from the start of the text, none
if it does not apply. They are tried in order and the first that applies wins, so a rule stands
before those that would take a part of its lexemes. -/

namespace Arcade.Scan

inductive Rule where
  | blank | lineEnd | lineComment | blockComment | unclosedComment | inclusion
  | number | string | unclosedString | reserved | identifier | sign
  /-- A single character that no other rule takes. -/
  | unknown
deriving DecidableEq

def isBlank (c : Char) : Bool := c == ' ' || c == '\t' || c == '\r'
def isDigit (c : Char) : Bool := '0' ≤ c && c ≤ '9'
def isBinaryDigit (c : Char) : Bool := c == '0' || c == '1'
def isHexDigit (c : Char) : Bool := isDigit c || ('a' ≤ c && c ≤ 'f') || ('A' ≤ c && c ≤ 'F')
def isLetter (c : Char) : Bool := ('a' ≤ c && c ≤ 'z') || ('A' ≤ c && c ≤ 'Z') || c == '_'
def isNameChar (c : Char) : Bool := isLetter c || isDigit c

def countWhile (holds : Char → Bool) (text : List Char) : Nat := (text.takeWhile holds).length

def lineCommentLength : List Char → Nat
  | '/' :: '/' :: rest => countWhile (· != '\n') rest + 2
  | _ => 0

/-- The characters up to and including the first `*/`. -/
def commentRest? : List Char → Option Nat
  | [] => none
  | '*' :: '/' :: _ => some 2
  | _ :: rest => (commentRest? rest).map (· + 1)

def blockCommentLength : List Char → Nat
  | '/' :: '*' :: rest => ((commentRest? rest).map (· + 2)).getD 0
  | _ => 0

def unclosedCommentLength : List Char → Nat
  | '/' :: '*' :: rest => rest.length + 2
  | _ => 0

/-- A name in double quotes after `#`, on one line. -/
def inclusionLength : List Char → Nat
  | '#' :: '"' :: rest =>
    let name := countWhile (fun c => c != '"' && c != '\n') rest
    if (rest.drop name).head? = some '"' then name + 3 else 0
  | _ => 0

/-- Digits after `0` and a mark for their base. -/
def markedLength (isMark isDigit : Char → Bool) : List Char → Nat
  | '0' :: mark :: rest =>
    let digits := countWhile isDigit rest
    if isMark mark && digits != 0 then digits + 2 else 0
  | _ => 0

def fractionLength : List Char → Nat
  | '.' :: rest => if countWhile isDigit rest = 0 then 0 else countWhile isDigit rest + 1
  | _ => 0

def exponentLength : List Char → Nat
  | mark :: rest =>
    if mark == 'e' || mark == 'E' then
      let signs := if rest.head? = some '-' || rest.head? = some '+' then 1 else 0
      let digits := countWhile isDigit (rest.drop signs)
      if digits = 0 then 0 else digits + signs + 1
    else 0
  | _ => 0

def decimalLength (text : List Char) : Nat :=
  let whole := countWhile isDigit text
  if whole = 0 then 0
  else
    let fraction := fractionLength (text.drop whole)
    whole + fraction + exponentLength (text.drop (whole + fraction))

def numberLength (text : List Char) : Nat :=
  let hex := markedLength (fun c => c == 'x' || c == 'X') isHexDigit text
  let binary := markedLength (fun c => c == 'b' || c == 'B') isBinaryDigit text
  if hex != 0 then hex else if binary != 0 then binary else decimalLength text

/-- The plain characters and escapes at the start of the text. An escape is a backslash and any
character of the same line. -/
def stringBodyLength : List Char → Nat
  | [] => 0
  | '\\' :: c :: rest => if c = '\n' then 0 else stringBodyLength rest + 2
  | c :: rest =>
    if c = '"' || c = '\\' || c = '\n' then 0 else stringBodyLength rest + 1

def stringLength : List Char → Nat
  | '"' :: rest =>
    let body := stringBodyLength rest
    if (rest.drop body).head? = some '"' then body + 2 else 0
  | _ => 0

def unclosedStringLength : List Char → Nat
  | '"' :: rest => stringBodyLength rest + 1
  | _ => 0

/-- The reserved words in lower case, the directive `const` among them. -/
def reservedWords : List String :=
  Keyword.all.map Keyword.spelling ++ ["true", "false", "null", "const"]

/-- Whether a character is the given lower case letter in some case. The long s and the Kelvin
sign are cases of `s` and `k`. -/
def isCaseOf (letter c : Char) : Bool :=
  c == letter || c == letter.toUpper
    || (letter == 's' && c == '\u017f') || (letter == 'k' && c == '\u212a')

/-- Reads a lower case word in any case; answers what follows it. -/
def afterWord? : (word text : List Char) → Option (List Char)
  | [], text => some text
  | letter :: word, c :: text => if isCaseOf letter c then afterWord? word text else none
  | _ :: _, [] => none

/-- Whether the text starts with no character that would continue a word. -/
def atWordEnd (text : List Char) : Bool := !(text.head?.any CharSet.word.contains)

def reservedLength (text : List Char) : Nat :=
  (reservedWords.findSome? fun word =>
    if (afterWord? word.toList text).any atWordEnd then some word.length else none).getD 0

def identifierLength : List Char → Nat
  | c :: rest => if isLetter c then countWhile isNameChar rest + 1 else 0
  | [] => 0

/-- All operators and punctuation with their spellings. -/
def signs : List (List Char × TokenKind) :=
  Operator.all.map (fun op => (op.spelling.toList, .operator op))
    ++ Punctuation.all.map (fun sign => (sign.spelling.toList, .punctuation sign))

def signKind? (text : List Char) : Option TokenKind :=
  (signs.find? (·.1 == text)).map (·.2)

/-- Signs have one or two characters, and the longer one wins. -/
def signLength (text : List Char) : Nat :=
  if (signKind? (text.take 2)).isSome then (text.take 2).length
  else if (signKind? (text.take 1)).isSome then 1
  else 0

namespace Rule

def length : Rule → List Char → Nat
  | blank => countWhile isBlank
  | lineEnd => fun text => if text.head? = some '\n' then 1 else 0
  | lineComment => lineCommentLength
  | blockComment => blockCommentLength
  | unclosedComment => unclosedCommentLength
  | inclusion => inclusionLength
  | number => numberLength
  | string => stringLength
  | unclosedString => unclosedStringLength
  | reserved => reservedLength
  | identifier => identifierLength
  | sign => signLength
  | unknown => fun text => min text.length 1

/-- The order in which the rules are tried. -/
def order : List Rule :=
  [blank, lineEnd, lineComment, blockComment, unclosedComment, inclusion, number, string,
    unclosedString, reserved, identifier, sign, unknown]

/-- The first rule that takes something from the text. -/
def matching? (text : List Char) : Option Rule := order.find? (fun rule => rule.length text != 0)

end Rule
end Arcade.Scan
