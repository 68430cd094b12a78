import Arcade.Decimal.Layout
import Arcade.Fault
import Arcade.Memory.Element

/-! Conversions between the types of elements, the text of values, and their comparison. -/

namespace Arcade.Memory

/-- The smallest and largest integer of an integer type. -/
def ElementType.bounds : ElementType → Int × Int
  | .u8 => (0, 255)
  | .i8 => (-128, 127)
  | .u16 => (0, 65535)
  | .i16 => (-32768, 32767)
  | .u32 => (0, 4294967295)
  | .i32 => (-2147483648, 2147483647)
  | .f32 | .str => (0, 0)

namespace Value

/-- What a value is as a number, if it is one. -/
inductive Number where
  | int (value : Int)
  | float (bits : Nat)
  | none (text : String)

def number : Value → Number
  | u8 value => .int value.toNat
  | i8 value => .int value.toInt
  | u16 value => .int value.toNat
  | i16 value => .int value.toInt
  | u32 value => .int value.toNat
  | i32 value => .int value.toInt
  | f32 bits => .float bits.toNat
  | str text => .none text

/-- The text of a float. -/
def floatText (bits : Nat) : String := Decimal.Layout.shown.text Decimal.single bits

/-- An integer as a value of a type. Integer types keep its low bits. -/
def ofInt (type : ElementType) (value : Int) : Value :=
  match type with
  | .u8 => .u8 (UInt8.ofInt value)
  | .i8 => .i8 (Int8.ofInt value)
  | .u16 => .u16 (UInt16.ofInt value)
  | .i16 => .i16 (Int16.ofInt value)
  | .u32 => .u32 (UInt32.ofInt value)
  | .i32 => .i32 (Int32.ofInt value)
  | .f32 => .f32 (UInt32.ofNat (Decimal.single.ofInt value))
  | .str => .str (toString value)

/-- Converts a value to another type. Integers wrap around, floats are cut to the nearest
integer of the type toward zero, and numbers become their text. Text is no number. -/
def cast (value : Value) (type : ElementType) : Except Fault Value :=
  if value.type = type then .ok value
  else match value.number with
    | .int number => .ok (ofInt type number)
    | .float bits =>
      if type = .str then .ok (.str (floatText bits))
      else .ok (ofInt type ((Decimal.single.read bits).truncate type.bounds.1 type.bounds.2))
    | .none text => .error (.textAsNumber text type.name)

def shown (value : Value) : String :=
  match value.number with
  | .int number => toString number
  | .float bits => floatText bits
  | .none text => text

/-- Whether two values are equal as their types compare them: no undefined float equals
anything, and both zeros are equal. -/
def same : Value → Value → Bool
  | f32 first, f32 second =>
    match Decimal.single.read first.toNat, Decimal.single.read second.toNat with
    | .notANumber, _ | _, .notANumber => false
    | .finite _ 0 _ _, .finite _ 0 _ _ => true
    | _, _ => first == second
  | first, second => first = second

end Value
end Arcade.Memory
