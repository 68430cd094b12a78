import Arcade.Memory.Element
import Arcade.Text.Utf8

/-! The bytes that stand for values. -/

namespace Arcade.Memory

/-- The order of the bytes of a number. -/
inductive Endian where
  | little | big
deriving DecidableEq

/-- The low bytes of a number, the lowest first. -/
def bytesOfNat : (count value : Nat) → List UInt8
  | 0, _ => []
  | count + 1, value => UInt8.ofNat value :: bytesOfNat count (value / 256)

def natOfBytes : List UInt8 → Nat
  | [] => 0
  | byte :: rest => byte.toNat + 256 * natOfBytes rest

def Endian.order (endian : Endian) (bytes : List UInt8) : List UInt8 :=
  match endian with
  | .little => bytes
  | .big => bytes.reverse

/-- Text cut to leave room for a zero byte, and as many zeros as fill the field. The cut may
fall inside of a character. -/
def strField (text : String) (size : Nat) : List UInt8 :=
  let kept := (Utf8.encode text).take (size - 1)
  kept ++ List.replicate (size - kept.length) 0

/-- The text of a field up to its first zero byte. -/
def strOfField (field : List UInt8) : String := Utf8.decodeLossy (field.takeWhile (· != 0))

/-- The bytes that stand for a value. -/
def Value.encode (value : Value) (endian : Endian) : List UInt8 :=
  match value with
  | .u8 value => bytesOfNat 1 value.toNat
  | .i8 value => bytesOfNat 1 value.toUInt8.toNat
  | .u16 value => endian.order (bytesOfNat 2 value.toNat)
  | .i16 value => endian.order (bytesOfNat 2 value.toUInt16.toNat)
  | .u32 value => endian.order (bytesOfNat 4 value.toNat)
  | .i32 value => endian.order (bytesOfNat 4 value.toUInt32.toNat)
  | .f32 bits => endian.order (bytesOfNat 4 bits.toNat)
  | .str text => strField text ElementType.strSize

/-- The value of a type that as many bytes as it takes stand for. -/
def Value.decode (type : ElementType) (endian : Endian) (bytes : List UInt8) : Value :=
  let number := natOfBytes (endian.order bytes)
  match type with
  | .u8 => .u8 (UInt8.ofNat number)
  | .i8 => .i8 (UInt8.ofNat number).toInt8
  | .u16 => .u16 (UInt16.ofNat number)
  | .i16 => .i16 (UInt16.ofNat number).toInt16
  | .u32 => .u32 (UInt32.ofNat number)
  | .i32 => .i32 (UInt32.ofNat number).toInt32
  | .f32 => .f32 (UInt32.ofNat number)
  | .str => .str (strOfField bytes)

end Arcade.Memory
