import Arcade.Decimal.Layout
import Arcade.Text.Parts

/-! JSON values and their text. -/

namespace Arcade

/-- A `float` is held as the bits of its 64 bit pattern. -/
inductive Json where
  | null
  | bool (value : Bool)
  | int (value : Int)
  | float (bits : Nat)
  | string (value : String)
  | array (items : List Json)
  | object (fields : List (String × Json))

namespace Json

/-- Numbers as JSON shows them: `0.00001` and `1000000000000000.0`, but `1e-6` and `1e+16`. -/
def layout : Decimal.Layout := ⟨-5, 15, true, .even⟩

/-- Infinite and undefined numbers have no text in JSON. -/
def floatText (bits : Nat) : String :=
  match Decimal.double.read bits with
  | .finite negative mantissa exponent boundary =>
    layout.reading (.finite negative mantissa exponent boundary)
  | _ => "null"

def hexDigit (value : Nat) : Char := (Nat.digitChar value)

def escapeChar (c : Char) : String :=
  match c with
  | '"' => "\\\""
  | '\\' => "\\\\"
  | '\x08' => "\\b"
  | '\x0c' => "\\f"
  | '\n' => "\\n"
  | '\r' => "\\r"
  | '\t' => "\\t"
  | c =>
    if c.toNat < 0x20 then
      "\\u00" ++ String.ofList [hexDigit (c.toNat / 16), hexDigit (c.toNat % 16)]
    else c.toString

def escapeChars : List Char → String
  | [] => ""
  | c :: rest => escapeChar c ++ escapeChars rest

def stringText (value : String) : String := "\"" ++ escapeChars value.toList ++ "\""

/-- Fields in the order of their keys. -/
def sorted (fields : List (String × String)) : List (String × String) :=
  fields.mergeSort (fun first second => decide (first.1 ≤ second.1))

mutual

/-- The text without spaces. -/
def compact : Json → String
  | .null => "null"
  | .bool value => toString value
  | .int value => toString value
  | .float bits => floatText bits
  | .string value => stringText value
  | .array items => "[" ++ Text.joined "," (compactItems items) ++ "]"
  | .object fields =>
    "\x7b" ++ Text.joined "," ((sorted (compactFields fields)).map
      fun (key, value) => stringText key ++ ":" ++ value) ++ "\x7d"
termination_by structural json => json

def compactItems : List Json → List String
  | [] => []
  | item :: rest => compact item :: compactItems rest
termination_by structural items => items

def compactFields : List (String × Json) → List (String × String)
  | [] => []
  | (key, value) :: rest => (key, compact value) :: compactFields rest
termination_by structural fields => fields

end

def newline (level : Nat) : String := "\n" ++ String.ofList (List.replicate (2 * level) ' ')

/-- Items on lines of their own, one level deeper than the brackets. -/
def bracketed (opening closing : String) (level : Nat) (items : List String) : String :=
  if items.isEmpty then opening ++ closing
  else opening ++ newline (level + 1) ++ Text.joined ("," ++ newline (level + 1)) items
    ++ newline level ++ closing

mutual

/-- The text with every item and field on its own line. -/
def pretty (level : Nat) : Json → String
  | .null => "null"
  | .bool value => toString value
  | .int value => toString value
  | .float bits => floatText bits
  | .string value => stringText value
  | .array items => bracketed "[" "]" level (prettyItems (level + 1) items)
  | .object fields =>
    bracketed "\x7b" "\x7d" level ((sorted (prettyFields (level + 1) fields)).map
      fun (key, value) => stringText key ++ ": " ++ value)
termination_by structural json => json

def prettyItems (level : Nat) : List Json → List String
  | [] => []
  | item :: rest => pretty level item :: prettyItems level rest
termination_by structural items => items

def prettyFields (level : Nat) : List (String × Json) → List (String × String)
  | [] => []
  | (key, value) :: rest => (key, pretty level value) :: prettyFields level rest
termination_by structural fields => fields

end
end Json
end Arcade
