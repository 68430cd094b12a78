import Arcade.Memory.Conversion
import Arcade.Memory.Encoding

/-! Access to the bytes of a block, by offset and type or by element. An access that leaves
the block is a fault. -/

namespace Arcade.Memory

/-- Sizes and offsets are below this. -/
def sizeLimit : Nat := Nat.pow 2 64

/-- A size that may have left its range. -/
def checkedSize (size : Nat) : Except Fault Nat :=
  if size < sizeLimit then .ok size else .error .badIndex

/-- The bytes of a block and the type of its elements. -/
structure Block where
  bytes : List UInt8
  type : ElementType
deriving DecidableEq

namespace Block

/-- The number of elements. -/
def count (block : Block) : Nat := block.bytes.length / block.type.size

def isEmpty (block : Block) : Bool := block.bytes.isEmpty

def slice (block : Block) (offset size : Nat) : Except Fault (List UInt8) :=
  if offset + size ≤ block.bytes.length then .ok ((block.bytes.drop offset).take size)
  else .error (.outOfBounds size offset block.bytes.length)

/-- Puts bytes in the place of others. -/
def splice (block : Block) (offset : Nat) (bytes : List UInt8) : Except Fault Block :=
  if offset + bytes.length ≤ block.bytes.length then
    .ok { block with
      bytes := block.bytes.take offset ++ bytes ++ block.bytes.drop (offset + bytes.length) }
  else .error (.outOfBounds bytes.length offset block.bytes.length)

def load (block : Block) (offset : Nat) (type : ElementType) (endian : Endian) :
    Except Fault Value := do
  return Value.decode type endian (← block.slice offset type.size)

/-- Stores a value as its own type. -/
def store (block : Block) (offset : Nat) (value : Value) (endian : Endian) : Except Fault Block :=
  block.splice offset (value.encode endian)

/-- The text in a field of the given size. Bytes that are no text are replaced. -/
def loadStr (block : Block) (offset size : Nat) : Except Fault String := do
  return strOfField (← block.slice offset size)

/-- Stores text in a field of the given size. -/
def storeStr (block : Block) (offset : Nat) (text : String) (size : Nat) : Except Fault Block :=
  if offset + size ≤ block.bytes.length then block.splice offset (strField text size)
  else .error (.outOfBounds size offset block.bytes.length)

/-- The offset of an element. -/
def elementOffset (block : Block) (index : Nat) : Except Fault Nat :=
  checkedSize (index * block.type.size)

/-- An element. Elements are little endian. -/
def get (block : Block) (index : Nat) : Except Fault Value := do
  block.load (← block.elementOffset index) block.type .little

/-- Sets an element to a value, converted to the block's type. -/
def set (block : Block) (index : Nat) (value : Value) : Except Fault Block := do
  let offset ← block.elementOffset index
  block.store offset (← value.cast block.type) .little

/-- All elements. -/
def elements (block : Block) : Except Fault (List Value) :=
  (List.range block.count).mapM block.get

/-- Stores a value of the block's type in `count` elements. -/
def fillFrom (value : Value) : (count : Nat) → (index : Nat) → Block → Except Fault Block
  | 0, _, block => .ok block
  | count + 1, index, block => do
    let block ← block.store (← block.elementOffset index) value .little
    fillFrom value count (index + 1) block

/-- Sets the elements from `start` up to `stop` to a value. -/
def fill (block : Block) (start stop : Nat) (value : Value) : Except Fault Block := do
  fillFrom (← value.cast block.type) (stop - start) start block

/-- Copies the elements from `start` up to `stop` to the place of those from `dest` on. -/
def copyWithin (block : Block) (start stop dest : Nat) : Except Fault Block := do
  let first ← block.elementOffset start
  let last ← block.elementOffset stop
  let target ← block.elementOffset dest
  let length := block.bytes.length
  if length < last then .error (.outOfBounds (last - first) (max target first) length)
  else
    let final ← checkedSize (target + (last - first))
    if length < final then .error (.outOfBounds (last - first) (max target first) length)
    else if last < first then .error .badIndex
    else block.splice target ((block.bytes.drop first).take (last - first))

end Block
end Arcade.Memory
