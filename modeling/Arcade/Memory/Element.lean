/-! The types of elements and the values that memory holds. -/

namespace Arcade.Memory

/-- The type of the elements of a block. -/
inductive ElementType where
  | u8 | i8 | u16 | i16 | u32 | i32 | f32
  /-- Text in a field of fixed size that a zero byte ends. -/
  | str
deriving DecidableEq

/-- A value of some element type. A 32 bit float is held as its bits. -/
inductive Value where
  | u8 (value : UInt8)
  | i8 (value : Int8)
  | u16 (value : UInt16)
  | i16 (value : Int16)
  | u32 (value : UInt32)
  | i32 (value : Int32)
  | f32 (bits : UInt32)
  | str (text : String)
deriving DecidableEq

namespace ElementType

def all : List ElementType := [u8, i8, u16, i16, u32, i32, f32, str]

/-- The bytes of a text element, its end included. -/
def strSize : Nat := 64

/-- The bytes of an element. -/
def size : ElementType → Nat
  | u8 | i8 => 1
  | u16 | i16 => 2
  | u32 | i32 | f32 => 4
  | str => strSize

def name : ElementType → String
  | u8 => "u8"
  | i8 => "i8"
  | u16 => "u16"
  | i16 => "i16"
  | u32 => "u32"
  | i32 => "i32"
  | f32 => "f32"
  | str => "str"

/-- The type of a name in any case. `string` is another name for `str`. -/
def ofName? (name : String) : Option ElementType :=
  let lower := name.toList.map Char.toLower
  if lower = "string".toList then some str else all.find? (·.name.toList == lower)

/-- The value of an element whose bytes are all zero. -/
def zero : ElementType → Value
  | u8 => .u8 0
  | i8 => .i8 0
  | u16 => .u16 0
  | i16 => .i16 0
  | u32 => .u32 0
  | i32 => .i32 0
  | f32 => .f32 0
  | str => .str ""

end ElementType

namespace Value

def type : Value → ElementType
  | u8 _ => .u8
  | i8 _ => .i8
  | u16 _ => .u16
  | i16 _ => .i16
  | u32 _ => .u32
  | i32 _ => .i32
  | f32 _ => .f32
  | str _ => .str

end Value
end Arcade.Memory
