import Arcade.Memory.Block

/-! Records: values with names, packed in the order of their declaration. -/

namespace Arcade.Memory

/-- A field and the byte where it starts in a record. -/
structure Field where
  name : String
  type : ElementType
  offset : Nat
deriving DecidableEq

/-- The fields of a record and its bytes. -/
structure Layout where
  fields : List Field
  size : Nat
deriving DecidableEq

namespace Layout

/-- Places fields one after another, from an offset on. -/
def placeFrom (offset : Nat) : List (String × ElementType) → List Field
  | [] => []
  | (name, type) :: rest => ⟨name, type, offset⟩ :: placeFrom (offset + type.size) rest

def sizeOf : List (String × ElementType) → Nat
  | [] => 0
  | (_, type) :: rest => type.size + sizeOf rest

def ofFields (fields : List (String × ElementType)) : Layout where
  fields := placeFrom 0 fields
  size := sizeOf fields

end Layout

/-- A record of the values of a layout's fields. -/
structure Record where
  layout : Layout
  values : List Value
deriving DecidableEq

namespace Record

/-- The record whose fields are all zero. -/
def zero (layout : Layout) : Record := ⟨layout, layout.fields.map (·.type.zero)⟩

/-- The place of the first field of a name. -/
def place? (layout : Layout) (name : String) : Option Nat :=
  layout.fields.findIdx? (·.name = name)

def get? (record : Record) (name : String) : Option Value :=
  (place? record.layout name).bind (record.values[·]?)

/-- Sets the first field of a name to a value, converted to the field's type. Answers none if
there is no such field. -/
def set? (record : Record) (name : String) (value : Value) : Except Fault (Option Record) :=
  match place? record.layout name with
  | none => .ok none
  | some place =>
    match record.layout.fields[place]? with
    | none => .ok none
    | some field => do
      let value ← value.cast field.type
      return some { record with values := record.values.set place value }

/-- Reads values at the offsets of fields. -/
def loadFields (block : Block) (offset : Nat) : List Field → Except Fault (List Value)
  | [] => .ok []
  | field :: rest => do
    let value ← block.load (← checkedSize (offset + field.offset)) field.type .little
    return value :: (← loadFields block offset rest)

/-- Reads a record from a block. Fields are little endian. -/
def load (layout : Layout) (block : Block) (offset : Nat) : Except Fault Record := do
  return ⟨layout, ← loadFields block offset layout.fields⟩

/-- Stores values at the offsets of fields. -/
def storeFields (offset : Nat) : List (Field × Value) → Block → Except Fault Block
  | [], block => .ok block
  | (field, value) :: rest, block => do
    let block ← block.store (← checkedSize (offset + field.offset)) value .little
    storeFields offset rest block

/-- Writes the record to a block. -/
def store (record : Record) (offset : Nat) (block : Block) : Except Fault Block :=
  storeFields offset (record.layout.fields.zip record.values) block

/-- Whether two records have the same layout and equal values. -/
def same (first second : Record) : Bool :=
  first.layout = second.layout && first.values.length = second.values.length
    && (first.values.zip second.values).all fun (left, right) => left.same right

end Record
end Arcade.Memory
