/-! Binary floating point numbers as bit patterns: what a pattern stands for, and the pattern
nearest to a fraction. -/

namespace Arcade.Decimal

/-- The widths of the fraction and exponent fields of a binary format. -/
structure Format where
  fractionBits : Nat
  exponentBits : Nat

/-- The 32 bit format. -/
def single : Format := ⟨23, 8⟩

/-- The 64 bit format. -/
def double : Format := ⟨52, 11⟩

/-- What a pattern stands for. A finite number is `mantissa * 2 ^ exponent`; `boundary` says
that the next smaller pattern is only half as far away as the next larger one. -/
inductive Reading where
  | notANumber
  | infinite (negative : Bool)
  | finite (negative : Bool) (mantissa : Nat) (exponent : Int) (boundary : Bool)
deriving DecidableEq

namespace Format

/-- The exponent of the smallest positive pattern. -/
def lowest (format : Format) : Int :=
  2 - Nat.pow 2 (format.exponentBits - 1) - format.fractionBits

/-- The bits of infinity, sign apart: all larger patterns are no numbers. -/
def infinity (format : Format) : Nat :=
  (Nat.pow 2 format.exponentBits - 1) * Nat.pow 2 format.fractionBits

def signBit (format : Format) : Nat := Nat.pow 2 (format.fractionBits + format.exponentBits)

def read (format : Format) (bits : Nat) : Reading :=
  let negative := format.signBit ≤ bits
  let magnitude := bits % format.signBit
  let hidden := Nat.pow 2 format.fractionBits
  let fraction := magnitude % hidden
  let exponent := magnitude / hidden
  if format.infinity < magnitude then .notANumber
  else if magnitude = format.infinity then .infinite negative
  else if exponent = 0 then .finite negative fraction format.lowest false
  else .finite negative (hidden + fraction) (format.lowest + (exponent - 1 : Nat))
    (fraction = 0 && 1 < exponent)

end Format

/-- The whole number nearest to `num / den`, an exact half going to the even neighbor. -/
def roundHalfEven (num den : Nat) : Nat :=
  let floor := num / den
  let twice := 2 * (num % den)
  if twice < den then floor
  else if den < twice then floor + 1
  else if floor % 2 = 0 then floor
  else floor + 1

/-- `num * 2 ^ shift / den` as a fraction of two naturals. -/
def scaled (num den : Nat) (shift : Int) : Nat × Nat :=
  match shift with
  | .ofNat up => (num * Nat.pow 2 up, den)
  | .negSucc down => (num, den * Nat.pow 2 (down + 1))

/-- The largest `e` with `2 ^ e ≤ num / den`, for positive `num` and `den`. -/
def magnitude (num den : Nat) : Int :=
  let guess : Int := Int.ofNat num.log2 - Int.ofNat den.log2
  let (high, low) := scaled num den (-guess)
  if high < low then guess - 1 else guess

/-- The bits of the non-negative pattern nearest to `num / den`, ties to even. A value beyond
the largest finite one becomes infinite. -/
def Format.nearest (format : Format) (num den : Nat) : Nat :=
  if num = 0 then 0
  else
    let exponent := max (magnitude num den - format.fractionBits) format.lowest
    let (high, low) := scaled num den (-exponent)
    let mantissa := roundHalfEven high low
    min ((exponent - format.lowest).toNat * Nat.pow 2 format.fractionBits + mantissa)
      format.infinity

/-- The bits of the pattern nearest to an integer. -/
def Format.ofInt (format : Format) (value : Int) : Nat :=
  if value < 0 then format.signBit + format.nearest value.natAbs 1
  else format.nearest value.natAbs 1

/-- The whole part of a reading, clamped to the given range; what is no number counts as zero. -/
def Reading.truncate (reading : Reading) (low high : Int) : Int :=
  match reading with
  | .notANumber => 0
  | .infinite negative => if negative then low else high
  | .finite negative mantissa exponent _ =>
    let (num, den) := scaled mantissa 1 exponent
    let whole : Int := Int.ofNat (num / den)
    max low (min high (if negative then -whole else whole))

end Arcade.Decimal
