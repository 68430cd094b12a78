import Arcade.Memory.Allocator
import Arcade.Memory.Record

/-! Reading and writing parts of the memory, and writing to a block. A write leaves a block as long as it
was, so it does not reach the memory around it. -/

namespace Arcade.Proofs
open Arcade.Memory

variable {ram : Array UInt8} {bytes others : List UInt8} {offset length place : Nat}

/-! ### Parts of the memory -/

@[simp] theorem size_writeBytes (ram : Array UInt8) (offset : Nat) (bytes : List UInt8) :
    (writeBytes ram offset bytes).size = ram.size := by
  induction bytes generalizing ram offset with
  | nil => rfl
  | cons byte rest ih => simp [writeBytes, ih]

theorem getElem?_writeBytes_outside {index : Nat}
    (outside : index < offset ∨ offset + bytes.length ≤ index) :
    (writeBytes ram offset bytes)[index]? = ram[index]? := by
  induction bytes generalizing ram offset with
  | nil => rfl
  | cons byte rest ih =>
    rw [List.length_cons] at outside
    rw [writeBytes, ih (by omega), Array.getElem?_setIfInBounds_ne (by omega)]

theorem getElem?_writeBytes_inside {index : Nat} (inside : offset + bytes.length ≤ ram.size)
    (within : index < bytes.length) :
    (writeBytes ram offset bytes)[offset + index]? = bytes[index]? := by
  induction bytes generalizing ram offset index with
  | nil => cases within
  | cons byte rest ih =>
    rw [List.length_cons] at inside within
    rw [writeBytes]
    cases index with
    | zero =>
      rw [getElem?_writeBytes_outside (.inl (by omega)), Nat.add_zero,
        Array.getElem?_setIfInBounds_self_of_lt (by omega)]
      rfl
    | succ index =>
      rw [Nat.add_comm index 1, ← Nat.add_assoc, Nat.add_comm 1 index, List.getElem?_cons_succ]
      exact ih (by rw [Array.size_setIfInBounds]; omega) (by omega)

theorem getElem?_readBytes (ram : Array UInt8) (offset length index : Nat) :
    (readBytes ram offset length)[index]? = if index < length then ram[offset + index]? else none := by
  rw [readBytes, Array.getElem?_toList, Array.getElem?_extract]
  split
  next inside => rw [if_pos (by omega)]
  next =>
    split
    next => rw [Array.getElem?_eq_none (by omega)]
    next => rfl

theorem length_readBytes (inside : offset + length ≤ ram.size) :
    (readBytes ram offset length).length = length := by
  rw [readBytes, Array.length_toList, Array.size_extract]
  omega

theorem readBytes_writeBytes (inside : offset + bytes.length ≤ ram.size) :
    readBytes (writeBytes ram offset bytes) offset bytes.length = bytes := by
  apply List.ext_getElem?
  intro index
  rw [getElem?_readBytes]
  split
  next within => exact getElem?_writeBytes_inside inside within
  next beyond => rw [List.getElem?_eq_none (by omega)]

theorem readBytes_writeBytes_apart (apart : offset + length ≤ place ∨ place + bytes.length ≤ offset) :
    readBytes (writeBytes ram place bytes) offset length = readBytes ram offset length := by
  apply List.ext_getElem?
  intro index
  rw [getElem?_readBytes, getElem?_readBytes]
  split
  next within => exact getElem?_writeBytes_outside (by omega)
  next => rfl

theorem writeBytes_again (same : bytes.length = others.length) (inside : offset + others.length ≤ ram.size) :
    writeBytes (writeBytes ram offset bytes) offset others = writeBytes ram offset others := by
  apply Array.ext_getElem?
  intro index
  by_cases within : offset ≤ index ∧ index < offset + others.length
  · obtain ⟨more, rfl⟩ := Nat.exists_eq_add_of_le within.1
    have few : more < others.length := by omega
    rw [getElem?_writeBytes_inside (by rwa [size_writeBytes]) few, getElem?_writeBytes_inside inside few]
  · rw [getElem?_writeBytes_outside (by omega), getElem?_writeBytes_outside (by omega),
      getElem?_writeBytes_outside (by omega)]

theorem writeBytes_readBytes (inside : offset + length ≤ ram.size) :
    writeBytes ram offset (readBytes ram offset length) = ram := by
  have whole := length_readBytes inside
  apply Array.ext_getElem?
  intro index
  by_cases within : offset ≤ index ∧ index < offset + length
  · obtain ⟨more, rfl⟩ := Nat.exists_eq_add_of_le within.1
    have few : more < length := by omega
    rw [getElem?_writeBytes_inside (by rwa [whole]) (by rwa [whole]), getElem?_readBytes, if_pos few]
  · rw [getElem?_writeBytes_outside (by omega)]

/-! ### Values as bytes -/

theorem length_bytesOfNat (count value : Nat) : (bytesOfNat count value).length = count := by
  induction count generalizing value with
  | zero => rfl
  | succ count ih => rw [bytesOfNat, List.length_cons, ih]

theorem length_order (endian : Endian) (bytes : List UInt8) :
    (endian.order bytes).length = bytes.length := by
  cases endian
  · rfl
  · exact List.length_reverse

theorem length_strField (text : String) (size : Nat) : (strField text size).length = size := by
  simp only [strField, List.length_append, List.length_take, List.length_replicate]
  omega

theorem length_encode (value : Value) (endian : Endian) :
    (value.encode endian).length = value.type.size := by
  cases value <;>
    simp only [Value.encode, Value.type, ElementType.size, length_order, length_bytesOfNat, length_strField]

theorem type_cast {value converted : Value} {type : ElementType} (done : value.cast type = .ok converted) :
    converted.type = type := by
  have ofInt (number : Int) : (Value.ofInt type number).type = type := by cases type <;> rfl
  unfold Value.cast at done
  split at done
  next same =>
    cases done
    exact same
  next =>
    split at done
    next => cases done; exact ofInt _
    next =>
      split at done
      next text => cases done; exact text.symm
      next => cases done; exact ofInt _
    next => cases done

/-! ### Writes to a block -/

/-- As many bytes, and elements of the same type. -/
structure SameShape (before after : Block) : Prop where
  length : after.bytes.length = before.bytes.length
  type : after.type = before.type

theorem SameShape.refl (block : Block) : SameShape block block := ⟨rfl, rfl⟩

theorem SameShape.trans {first second third : Block} (earlier : SameShape first second)
    (later : SameShape second third) : SameShape first third :=
  ⟨later.length.trans earlier.length, later.type.trans earlier.type⟩

/-- A way to change the bytes of a block. It may fail, but keeps the number of bytes. -/
structure Change where
  run : Block → Except Fault Block
  keeps : ∀ block after, run block = .ok after → after.bytes.length = block.bytes.length

variable {block after : Block}

theorem shape_splice (spliced : block.splice offset bytes = .ok after) : SameShape block after := by
  unfold Block.splice at spliced
  split at spliced
  next inside =>
    cases spliced
    refine ⟨?_, rfl⟩
    simp only [List.length_append, List.length_take, List.length_drop]
    omega
  next => cases spliced

theorem shape_set {index : Nat} {value : Value} (done : block.set index value = .ok after) :
    SameShape block after := by
  obtain ⟨offset, _, done⟩ := Except.bind_ok.mp done
  obtain ⟨value, _, done⟩ := Except.bind_ok.mp done
  exact shape_splice done

theorem shape_setAll {values : List Value} {index : Nat}
    (done : Allocator.setAll index values block = .ok after) : SameShape block after := by
  induction values generalizing index block with
  | nil =>
    cases done
    exact .refl _
  | cons value rest ih =>
    obtain ⟨next, first, done⟩ := Except.bind_ok.mp done
    exact (shape_set first).trans (ih done)

theorem shape_storeFields {fields : List (Field × Value)}
    (done : Record.storeFields offset fields block = .ok after) : SameShape block after := by
  induction fields generalizing block with
  | nil =>
    cases done
    exact .refl _
  | cons field rest ih =>
    obtain ⟨place, _, done⟩ := Except.bind_ok.mp done
    obtain ⟨next, first, done⟩ := Except.bind_ok.mp done
    exact (shape_splice first).trans (ih done)

/-- An element of a block can be set to any value that can be converted. -/
theorem set_answers {index : Nat} {value converted : Value}
    (inside : (index + 1) * block.type.size ≤ block.bytes.length) (small : block.bytes.length < sizeLimit)
    (cast : value.cast block.type = .ok converted) :
    ∃ after, block.set index value = .ok after := by
  rw [Nat.succ_mul] at inside
  have place : block.elementOffset index = .ok (index * block.type.size) := if_pos (by omega)
  have size : (converted.encode .little).length = block.type.size := by rw [length_encode, type_cast cast]
  have spliced : ∃ after, block.splice (index * block.type.size) (converted.encode .little) = .ok after :=
    ⟨_, if_pos (size ▸ inside)⟩
  obtain ⟨after, spliced⟩ := spliced
  exact ⟨after, Except.bind_ok.mpr ⟨_, place, Except.bind_ok.mpr ⟨_, cast, spliced⟩⟩⟩

theorem setAll_answers {values : List Value} {index : Nat}
    (inside : (index + values.length) * block.type.size ≤ block.bytes.length)
    (small : block.bytes.length < sizeLimit)
    (casts : ∀ value ∈ values, ∃ converted, value.cast block.type = .ok converted) :
    ∃ after, Allocator.setAll index values block = .ok after := by
  induction values generalizing index block with
  | nil => exact ⟨block, rfl⟩
  | cons value rest ih =>
    rw [List.forall_mem_cons] at casts
    obtain ⟨converted, cast⟩ := casts.1
    rw [List.length_cons, Nat.add_comm rest.length 1, ← Nat.add_assoc] at inside
    have first : (index + 1) * block.type.size ≤ block.bytes.length :=
      Nat.le_trans (Nat.mul_le_mul_right _ (Nat.le_add_right _ _)) inside
    obtain ⟨next, done⟩ := set_answers first small cast
    have shape := shape_set done
    rw [← shape.type, ← shape.length] at inside
    rw [← shape.type] at casts
    obtain ⟨after, others⟩ := ih inside (shape.length ▸ small) casts.2
    exact ⟨after, Except.bind_ok.mpr ⟨next, done, others⟩⟩

namespace Change

def set (index : Nat) (value : Value) : Change := ⟨(·.set index value), fun _ _ done => (shape_set done).length⟩

/-- The initial values of a block. -/
def setAll (values : List Value) : Change :=
  ⟨Allocator.setAll 0 values, fun _ _ done => (shape_setAll done).length⟩

end Change
end Arcade.Proofs
