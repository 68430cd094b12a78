import Arcade.Decimal.Binary

/-! The shortest decimal text that reads back as the same pattern: the fewest digits of any
decimal in the pattern's interval, and of those the decimal nearest to the exact value. -/

namespace Arcade.Decimal

/-- Which of two equally near decimals is chosen. -/
inductive Tie where
  | up | even
deriving DecidableEq

/-- The decimal `digits * 10 ^ exponent`. -/
structure Digits where
  digits : Nat
  exponent : Int
deriving DecidableEq

/-- The decimals that read back as a pattern lie between `low` and `high`, the ends counting
if `closed`, in units of `1 / scale`. `value` is the exact value in the same unit. -/
structure Interval where
  low : Nat
  value : Nat
  high : Nat
  scale : Nat
  closed : Bool

/-- The interval reaches half way to either neighbor, and includes its ends when the mantissa
is even, as halves are read to even. -/
def interval (mantissa : Nat) (exponent : Int) (boundary : Bool) : Interval :=
  let (up, down) := scaled 1 1 exponent
  { low := (4 * mantissa - (if boundary then 1 else 2)) * up
    value := 4 * mantissa * up
    high := (4 * mantissa + 2) * up
    scale := 4 * down
    closed := mantissa % 2 = 0 }

def Interval.holds (bounds : Interval) (num den : Nat) : Bool :=
  let point := num * bounds.scale
  if bounds.closed then bounds.low * den ≤ point && point ≤ bounds.high * den
  else bounds.low * den < point && point < bounds.high * den

/-- `count * 10 ^ place` as a fraction. -/
def atPlace (count : Nat) (place : Int) : Nat × Nat :=
  match place with
  | .ofNat up => (count * Nat.pow 10 up, 1)
  | .negSucc down => (count, Nat.pow 10 (down + 1))

/-- The decimals with last digit at `place` nearest to the value from below and from above;
answers the one that reads back, the nearer of the two if both do. -/
def Interval.atPlace? (bounds : Interval) (place : Int) (tie : Tie) : Option Nat :=
  let (unit, parts) := atPlace 1 place
  let below := bounds.value * parts / (bounds.scale * unit)
  let remainder := bounds.value * parts % (bounds.scale * unit)
  let inside count := let (num, den) := atPlace count place; bounds.holds num den
  let twice := 2 * remainder
  match inside below, inside (below + 1) with
  | true, false => some below
  | false, true => some (below + 1)
  | false, false => none
  | true, true =>
    if twice < bounds.scale * unit then some below
    else if bounds.scale * unit < twice then some (below + 1)
    else match tie with
      | .up => some (below + 1)
      | .even => some (if below % 2 = 0 then below else below + 1)

/-- Tries one digit more at a time, starting at `place`, for `fuel` places; seventeen digits
are enough for either format. -/
def Interval.search (bounds : Interval) (tie : Tie) : Nat → Int → Digits
  | 0, place => ⟨(bounds.atPlace? place tie).getD 0, place⟩
  | fuel + 1, place =>
    match bounds.atPlace? place tie with
    | some digits => ⟨digits, place⟩
    | none => Interval.search bounds tie fuel (place - 1)

/-- A place at or above that of the leading digit of a positive fraction. -/
def leadingPlace (num den : Nat) : Int := (magnitude num den + 1) * 30103 / 100000 + 1

/-- The shortest digits of the positive number `mantissa * 2 ^ exponent`. The coarsest place
that holds a decimal of the interval is tried first, so the last digit is not zero. -/
def shortest (mantissa : Nat) (exponent : Int) (boundary : Bool) (tie : Tie) : Digits :=
  let bounds := interval mantissa exponent boundary
  bounds.search tie 20 (leadingPlace bounds.high bounds.scale)

end Arcade.Decimal
