import Arcade.Decimal.Binary

/-! Decimal text of a number with fraction and exponent, read as the nearest 64 bit pattern. -/

namespace Arcade.Decimal

def digitValue (c : Char) : Nat := c.toNat - '0'.toNat

/-- The value of digits in the given base. -/
def digitsValue (base : Nat) (value : Char → Nat) (digits : List Char) : Nat :=
  digits.foldl (fun total c => total * base + value c) 0

/-- Beyond these exponents every mantissa is read as infinite, or as zero. -/
def exponentLimit : Nat := 400

/-- The 64 bit pattern nearest to `mantissa * 10 ^ exponent`, where the mantissa has at most
`length` digits. Far exponents are decided without computing the power. -/
def nearestDouble (mantissa length : Nat) (exponent : Int) : Nat :=
  if mantissa = 0 then 0
  else if exponentLimit < exponent then double.infinity
  else if exponent + length < -exponentLimit then 0
  else match exponent with
    | .ofNat up => double.nearest (mantissa * Nat.pow 10 up) 1
    | .negSucc down => double.nearest mantissa (Nat.pow 10 (down + 1))

/-- The parts of a decimal literal. -/
structure Parts where
  whole : List Char
  fraction : List Char
  exponent : Int

/-- Splits a literal at its point and at its exponent mark. -/
def Parts.ofChars (literal : List Char) : Parts :=
  let isMark c := c == 'e' || c == 'E'
  let mantissa := literal.takeWhile (fun c => !isMark c)
  let exponent : Int :=
    match (literal.dropWhile (fun c => !isMark c)).drop 1 with
    | '-' :: digits => -(digitsValue 10 digitValue digits : Int)
    | '+' :: digits => digitsValue 10 digitValue digits
    | digits => digitsValue 10 digitValue digits
  { whole := mantissa.takeWhile (· != '.')
    fraction := (mantissa.dropWhile (· != '.')).drop 1
    exponent := exponent }

/-- The bits of the 64 bit pattern nearest to a decimal literal. -/
def readDouble (literal : List Char) : Nat :=
  let parts := Parts.ofChars literal
  let digits := parts.whole ++ parts.fraction
  nearestDouble (digitsValue 10 digitValue digits) digits.length
    (parts.exponent - parts.fraction.length)

end Arcade.Decimal
