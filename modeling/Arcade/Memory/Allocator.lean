import Arcade.Memory.Block

/-! The allocator over a memory of fixed size. Tracked ranges are kept in the order of their
allocation, in which free ones are searched for reuse; new ranges are placed at the high-water
mark. A freed range is kept, and may be reused whole or split, until the next collection. -/

namespace Arcade.Memory

structure Config where
  /-- The bytes of the memory. -/
  capacity : Nat := 4 * 1024 * 1024
  /-- The least time between two collections. -/
  interval : Nat := 32 * 1024

/-- Refers to an allocated block. A handle is good until the block is freed. -/
structure Handle where
  id : UInt32
  generation : UInt32
  offset : Nat
  length : Nat
  type : ElementType
deriving DecidableEq

namespace Handle

/-- The number of elements. -/
def count (handle : Handle) : Nat := handle.length / handle.type.size

def stop (handle : Handle) : Nat := handle.offset + handle.length

end Handle

/-- A range in use, or free for reuse. The generation counts how often it was handed out, so that
handles of earlier times are told apart. -/
structure Tracked where
  id : UInt32
  generation : UInt32
  offset : Nat
  length : Nat
  type : ElementType
  active : Bool
deriving DecidableEq

namespace Tracked

def stop (range : Tracked) : Nat := range.offset + range.length

def handle (range : Tracked) : Handle :=
  ⟨range.id, range.generation, range.offset, range.length, range.type⟩

end Tracked

/-- An allocation of `requested` bytes that did not fit in the `available` ones above the
high-water mark. -/
structure OutOfMemory where
  requested : Nat
  available : Nat
deriving DecidableEq

def OutOfMemory.message (failure : OutOfMemory) : String :=
  "out of memory: requested " ++ toString failure.requested ++ " bytes, "
    ++ toString failure.available ++ " available"

/-- The bytes of ranges together. -/
def totalLength : List Tracked → Nat
  | [] => 0
  | range :: rest => range.length + totalLength rest

structure Allocator where
  ram : Array UInt8
  ranges : List Tracked
  nextId : UInt32
  interval : Nat
  /-- The time of the last collection that the clock caused. -/
  lastCollection : Nat

/-- Writes bytes from an offset on. -/
def writeBytes (ram : Array UInt8) (offset : Nat) : List UInt8 → Array UInt8
  | [] => ram
  | byte :: rest => writeBytes (ram.setIfInBounds offset byte) (offset + 1) rest

/-- The bytes from an offset on. -/
def readBytes (ram : Array UInt8) (offset length : Nat) : List UInt8 :=
  (ram.extract offset (offset + length)).toList

namespace Allocator

def ofConfig (config : Config) : Allocator where
  ram := Array.replicate config.capacity 0
  ranges := []
  nextId := 0
  interval := config.interval
  lastCollection := 0

def capacity (allocator : Allocator) : Nat := allocator.ram.size

/-- The end of the highest tracked range, in use or not. -/
def highWater (allocator : Allocator) : Nat :=
  allocator.ranges.foldl (fun mark range => max mark range.stop) 0

/-- The bytes of the ranges in use. -/
def used (allocator : Allocator) : Nat := totalLength (allocator.ranges.filter (·.active))

/-- The bytes above the high-water mark. -/
def available (allocator : Allocator) : Nat := allocator.capacity - allocator.highWater

/-- The number of elements allocated for `count`: a multiple of four, at least four. -/
def roundedCount (count : Nat) : Nat := (max count 1 + 3) / 4 * 4

/-- Hands out the first free range that is large enough. What is left of it becomes a free
range of its own. -/
def reuse? (allocator : Allocator) (type : ElementType) (size : Nat) :
    Option (Handle × Allocator) :=
  match allocator.ranges.findIdx? (fun range => !range.active && size ≤ range.length) with
  | none => none
  | some place =>
    match allocator.ranges[place]? with
    | none => none
    | some range =>
      let taken : Tracked :=
        { range with generation := range.generation + 1, length := size, type, active := true }
      let ranges := allocator.ranges.set place taken
      let left := range.length - size
      if left = 0 then some (taken.handle, { allocator with ranges })
      else
        let rest : Tracked := ⟨allocator.nextId, 0, range.offset + size, left, .u8, false⟩
        some (taken.handle,
          { allocator with ranges := ranges ++ [rest], nextId := allocator.nextId + 1 })

/-- Hands out a zeroed range at the high-water mark. -/
def extend (allocator : Allocator) (type : ElementType) (size : Nat) :
    Except OutOfMemory (Handle × Allocator) :=
  if allocator.available < size then .error ⟨size, allocator.available⟩
  else
    let offset := allocator.highWater
    let range : Tracked := ⟨allocator.nextId, 0, offset, size, type, true⟩
    .ok (range.handle,
      { allocator with
        ram := writeBytes allocator.ram offset (List.replicate size 0)
        ranges := allocator.ranges ++ [range]
        nextId := allocator.nextId + 1 })

/-- Finds a place for a block: a free range if one is large enough, else a new one. -/
def place (allocator : Allocator) (type : ElementType) (size : Nat) :
    Except OutOfMemory (Handle × Allocator) :=
  match allocator.reuse? type size with
  | some reused => .ok reused
  | none => allocator.extend type size

/-- The range of a handle that is still good. -/
def find (allocator : Allocator) (handle : Handle) : Except Fault Tracked :=
  match allocator.ranges.find? (·.id = handle.id) with
  | some range =>
    if range.active && range.generation = handle.generation then .ok range
    else .error (.blockFreed handle.offset)
  | none => .error (.blockFreed handle.offset)

/-- The block of a handle. -/
def view (allocator : Allocator) (handle : Handle) : Except Fault Block := do
  let range ← allocator.find handle
  return ⟨readBytes allocator.ram range.offset range.length, range.type⟩

/-- Changes the bytes of a block. -/
def update (allocator : Allocator) (handle : Handle) (change : Block → Except Fault Block) :
    Except Fault Allocator := do
  let range ← allocator.find handle
  let block ← change (← allocator.view handle)
  return { allocator with ram := writeBytes allocator.ram range.offset block.bytes }

/-- Sets elements from an index on. -/
def setAll (index : Nat) : List Value → Block → Except Fault Block
  | [], block => .ok block
  | value :: rest, block => do setAll (index + 1) rest (← block.set index value)

/-- Allocates a block for `count` elements and sets the first ones. New ranges are zeroed,
reused ones keep their contents apart from the initial values. -/
def alloc (allocator : Allocator) (type : ElementType) (count : Nat) (initial : List Value) :
    Except Fault (Except OutOfMemory (Handle × Allocator)) :=
  let rounded := roundedCount count
  if sizeLimit ≤ max count 1 + 3 ∨ sizeLimit ≤ rounded * type.size then
    .ok (.error ⟨sizeLimit - 1, allocator.available⟩)
  else
    match allocator.place type (rounded * type.size) with
    | .error failure => .ok (.error failure)
    | .ok (handle, allocator) => do
      return .ok (handle, ← allocator.update handle (setAll 0 (initial.take rounded)))

/-- Releases a block. Its bytes are left as they are. -/
def free (allocator : Allocator) (handle : Handle) : Except Fault Allocator := do
  let _ ← allocator.find handle
  let place := allocator.ranges.findIdx (·.id = handle.id)
  return { allocator with ranges := allocator.ranges.modify place ({ · with active := false }) }

/-- Stops tracking free ranges; answers how many there were. -/
def collect (allocator : Allocator) : Nat × Allocator :=
  let kept := allocator.ranges.filter (·.active)
  (allocator.ranges.length - kept.length, { allocator with ranges := kept })

/-- Moves the clock, and collects if enough time has passed since the last time it did. -/
def tick (allocator : Allocator) (time : Nat) : Option Nat × Allocator :=
  if time - allocator.lastCollection < allocator.interval then (none, allocator)
  else
    let (count, allocator) := allocator.collect
    (some count, { allocator with lastCollection := time })

end Allocator
end Arcade.Memory
