import Arcade.Decimal.Literal
import Arcade.Fault
import Arcade.Scan.Rule

/-! What the lexemes of numbers, strings and reserved words stand for. -/

namespace Arcade.Scan

/-- Integers are smaller than this. -/
def intLimit : Nat := Nat.pow 2 63

def hexDigitValue (c : Char) : Nat :=
  if isDigit c then c.toNat - '0'.toNat
  else if 'a' ≤ c then c.toNat - 'a'.toNat + 10
  else c.toNat - 'A'.toNat + 10

def intOfDigits? (base : Nat) (digits : List Char) : Option Literal :=
  let value := Decimal.digitsValue base hexDigitValue digits
  if value < intLimit then some (.int value) else none

/-- The value of a number, unless it is an integer beyond the limit. -/
def numberValue? (text : List Char) : Option Literal :=
  match text with
  | '0' :: 'x' :: digits | '0' :: 'X' :: digits => intOfDigits? 16 digits
  | '0' :: 'b' :: digits | '0' :: 'B' :: digits => intOfDigits? 2 digits
  | _ =>
    if text.any (fun c => c == '.' || c == 'e' || c == 'E') then
      some (.float (Decimal.readDouble text))
    else intOfDigits? 10 text

/-- The character that a letter after a backslash stands for. -/
def escapeValue? : Char → Option Char
  | 'n' => some '\n'
  | 't' => some '\t'
  | 'r' => some '\r'
  | '0' => some '\x00'
  | '\\' => some '\\'
  | '"' => some '"'
  | _ => none

/-- Replaces the escapes in the contents of a string. Fails with the first escape that stands
for nothing. -/
def unescape : List Char → Except (List Char) (List Char)
  | [] => .ok []
  | '\\' :: c :: rest =>
    match escapeValue? c with
    | some value => (unescape rest).map (value :: ·)
    | none => .error ['\\', c]
  | '\\' :: [] => .error ['\\']
  | c :: rest => (unescape rest).map (c :: ·)

/-- The token of a reserved word, or none for the word that starts a constant. The word is
recognized by its ASCII letters in any case; one spelled with other letters is unknown. -/
def reservedKind (text : List Char) : Except Fault (Option TokenKind) :=
  let word := text.map Char.toLower
  match Keyword.all.find? (·.spelling.toList == word) with
  | some keyword => .ok (some (.keyword keyword))
  | none =>
    if word = "true".toList then .ok (some (.literal (.bool true)))
    else if word = "false".toList then .ok (some (.literal (.bool false)))
    else if word = "null".toList then .ok (some (.literal .null))
    else if word = "const".toList then .ok none
    else .error (.unknownReserved (String.ofList (text.map Char.toUpper)))

end Arcade.Scan
