import Arcade.Memory.Allocator
import Arcade.Memory.Record

/-! Stacks of values and records in a block of memory. Items are packed without gaps; their types
are kept beside the memory, so that they can be read back. -/

namespace Arcade.Memory

/-- What happens to an item that does not fit: it is dropped, or the oldest items give way. -/
inductive StackMode where
  | bounded | rolling
deriving DecidableEq

inductive Item where
  | value (value : Value)
  | record (record : Record)
deriving DecidableEq

/-- The type of an item. -/
inductive ItemType where
  | value (type : ElementType)
  | record (layout : Layout)
deriving DecidableEq

def ItemType.size : ItemType → Nat
  | .value type => type.size
  | .record layout => layout.size

namespace Item

def type : Item → ItemType
  | .value scalar => .value scalar.type
  | .record fields => .record fields.layout

def size (item : Item) : Nat := item.type.size

def store (item : Item) (offset : Nat) (block : Block) : Except Fault Block :=
  match item with
  | .value scalar => block.store offset scalar .little
  | .record fields => fields.store offset block

end Item

/-- Reads an item of a type. -/
def ItemType.load (type : ItemType) (offset : Nat) (block : Block) : Except Fault Item :=
  match type with
  | .value type => do return .value (← block.load offset type .little)
  | .record layout => do return .record (← Record.load layout block offset)

/-- A stack in the block of a handle. The first `top` bytes are in use, by items of the given
types, the oldest first. -/
structure Stack where
  handle : Handle
  mode : StackMode
  top : Nat
  types : List ItemType
deriving DecidableEq

namespace Stack

/-- Allocates a stack. Its size is rounded up as for any block. -/
def alloc (allocator : Allocator) (capacity : Nat) (mode : StackMode) :
    Except Fault (Except OutOfMemory (Stack × Allocator)) := do
  match ← allocator.alloc .u8 capacity [] with
  | .ok (handle, allocator) => return .ok (⟨handle, mode, 0, []⟩, allocator)
  | .error failure => return .error failure

def capacity (stack : Stack) : Nat := stack.handle.length

/-- Drops the oldest items until `size` bytes fit, moving the others down. -/
def evict (capacity size : Nat) : (types : List ItemType) → (top : Nat) → Block →
    Except Fault (List ItemType × Nat × Block)
  | [], top, block => .ok ([], top, block)
  | oldest :: types, top, block =>
    if top + size ≤ capacity then .ok (oldest :: types, top, block)
    else if top < oldest.size then .error .badIndex
    else do
      let moved ← block.slice oldest.size (top - oldest.size)
      evict capacity size types (top - oldest.size) (← block.splice 0 moved)

/-- Pushes items in order; answers how many were pushed. The first item that cannot be made to
fit ends the push: in a bounded stack one that does not fit, in a rolling one only an item
larger than the whole stack. -/
def pushItems (capacity : Nat) (mode : StackMode) : List Item → (types : List ItemType) →
    (top : Nat) → Block → Except Fault (Nat × List ItemType × Nat × Block)
  | [], types, top, block => .ok (0, types, top, block)
  | item :: items, types, top, block =>
    if capacity < top + item.size && (mode = .bounded || capacity < item.size) then
      .ok (0, types, top, block)
    else do
      let (types, top, block) ← evict capacity item.size types top block
      let block ← item.store top block
      let (pushed, rest) ←
        pushItems capacity mode items (types ++ [item.type]) (top + item.size) block
      return (pushed + 1, rest)

/-- Pushes items, writing them to the stack's block. -/
def push (stack : Stack) (allocator : Allocator) (items : List Item) :
    Except Fault (Nat × Stack × Allocator) := do
  let block ← allocator.view stack.handle
  let (pushed, types, top, block) ←
    pushItems stack.capacity stack.mode items stack.types stack.top block
  let allocator ← allocator.update stack.handle fun _ => .ok block
  return (pushed, { stack with top, types }, allocator)

/-- Removes the newest item. -/
def pop (stack : Stack) (allocator : Allocator) : Except Fault (Option (Item × Stack)) :=
  match stack.types.getLast? with
  | none => .ok none
  | some type =>
    if stack.top < type.size then .error .badIndex
    else do
      let top := stack.top - type.size
      let item ← type.load top (← allocator.view stack.handle)
      return some (item, { stack with top, types := stack.types.dropLast })

/-- Removes all items. -/
def clear (stack : Stack) : Stack := { stack with top := 0, types := [] }

end Stack
end Arcade.Memory
