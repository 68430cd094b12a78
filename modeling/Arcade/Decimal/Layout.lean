import Arcade.Decimal.Shortest

/-! How the digits of a floating point number are laid out as text. -/

namespace Arcade.Decimal

/-- The choices of a notation. The exponent of scientific notation decides: from `least` to
`most` a number is written out in positions, with at least one digit after the point. -/
structure Layout where
  least : Int
  most : Int
  /-- A positive exponent is written with its sign. -/
  plus : Bool
  tie : Tie

/-- Numbers as programs and memory values show them: `0.0001` and `1000000000000000.0`, but
`1e-5` and `1e16`. -/
def Layout.shown : Layout := ⟨-4, 15, false, .up⟩

def zeros (count : Nat) : String := String.ofList (List.replicate count '0')

/-- Digits written out around the point. -/
def positional (digits : List Char) (exponent : Int) : String :=
  match exponent with
  | .ofNat up => String.ofList digits ++ zeros up ++ ".0"
  | .negSucc down =>
    let places := down + 1
    if places < digits.length then
      String.ofList (digits.take (digits.length - places)) ++ "."
        ++ String.ofList (digits.drop (digits.length - places))
    else "0." ++ zeros (places - digits.length) ++ String.ofList digits

/-- One digit before the point, and the exponent that restores the value. -/
def scientific (plus : Bool) (digits : List Char) (exponent : Int) : String :=
  let sign := if plus && 0 ≤ exponent then "+" else ""
  match digits with
  | [] => ""
  | first :: [] => first.toString ++ "e" ++ sign ++ toString exponent
  | first :: rest => first.toString ++ "." ++ String.ofList rest ++ "e" ++ sign ++ toString exponent

namespace Layout

def digits (layout : Layout) (value : Digits) : String :=
  let digits := Nat.toDigits 10 value.digits
  let leading := value.exponent + digits.length - 1
  if layout.least ≤ leading && leading ≤ layout.most then positional digits value.exponent
  else scientific layout.plus digits leading

def reading (layout : Layout) : Reading → String
  | .notANumber => "NaN"
  | .infinite negative => if negative then "-inf" else "inf"
  | .finite negative mantissa exponent boundary =>
    let magnitude :=
      if mantissa = 0 then "0.0" else layout.digits (shortest mantissa exponent boundary layout.tie)
    if negative then "-" ++ magnitude else magnitude

/-- The text of a bit pattern. -/
def text (layout : Layout) (format : Format) (bits : Nat) : String :=
  layout.reading (format.read bits)

end Layout
end Arcade.Decimal
