import Arcade.Proofs.ItemBytes

/-! Typed access to a block. A number of any type and in either order of its bytes is read and written as the
bytes that stand for it, wherever these lie in the block, and as nothing else. -/

namespace Arcade.Proofs
open Arcade.Memory

variable {block : Block} {type kind : ElementType} {value : Value} {endian : Endian} {offset size : Nat}
  {bytes before held behind : List UInt8}

/-! ### Bytes of numbers -/

theorem natOfBytes_lt (bytes : List UInt8) : natOfBytes bytes < Nat.pow 256 bytes.length := by
  induction bytes with
  | nil => exact Nat.one_pos
  | cons byte rest ih =>
    have small := byte.toNat_lt
    have step : Nat.pow 256 (rest.length + 1) = Nat.pow 256 rest.length * 256 := rfl
    rw [natOfBytes, List.length_cons, step]
    omega

theorem bytesOfNat_natOfBytes (bytes : List UInt8) : bytesOfNat bytes.length (natOfBytes bytes) = bytes := by
  induction bytes with
  | nil => rfl
  | cons byte rest ih =>
    have small := byte.toNat_lt
    have first : UInt8.ofNat (byte.toNat + 256 * natOfBytes rest) = byte := by
      apply UInt8.toNat_inj.mp
      rw [UInt8.toNat_ofNat']
      omega
    have others : (byte.toNat + 256 * natOfBytes rest) / 256 = natOfBytes rest := by omega
    rw [natOfBytes, List.length_cons, bytesOfNat, first, others, ih]

theorem natOfBytes_append (first last : List UInt8) :
    natOfBytes (first ++ last) = natOfBytes first + Nat.pow 256 first.length * natOfBytes last := by
  induction first with
  | nil => exact (Nat.zero_add _).symm.trans (congrArg _ (Nat.one_mul _).symm)
  | cons byte rest ih =>
    have step : Nat.pow 256 (rest.length + 1) = Nat.pow 256 rest.length * 256 := rfl
    rw [List.cons_append, natOfBytes, natOfBytes, ih, List.length_cons, step, Nat.mul_add, ← Nat.add_assoc,
      Nat.mul_comm _ 256, Nat.mul_assoc]

/-- The number whose low bytes are those of another one, the lowest made the highest. -/
def reversedBytes : (count number : Nat) → Nat
  | 0, _ => 0
  | count + 1, number => number % 256 * Nat.pow 256 count + reversedBytes count (number / 256)

theorem natOfBytes_reverse (bytes : List UInt8) :
    natOfBytes bytes.reverse = reversedBytes bytes.length (natOfBytes bytes) := by
  induction bytes with
  | nil => rfl
  | cons byte rest ih =>
    have small := byte.toNat_lt
    have first : (byte.toNat + 256 * natOfBytes rest) % 256 = byte.toNat := by omega
    have others : (byte.toNat + 256 * natOfBytes rest) / 256 = natOfBytes rest := by omega
    have last : natOfBytes [byte] = byte.toNat := rfl
    rw [List.reverse_cons, natOfBytes_append, ih, List.length_reverse, last, natOfBytes, List.length_cons,
      reversedBytes, first, others, Nat.add_comm, Nat.mul_comm]

/-! ### Bytes of values -/

/-- The other order of bytes. -/
def otherEndian : Endian → Endian
  | .little => .big
  | .big => .little

theorem order_otherEndian (endian : Endian) (bytes : List UInt8) :
    (otherEndian endian).order bytes = (endian.order bytes).reverse := by
  cases endian
  · rfl
  · exact (List.reverse_reverse bytes).symm

/-- The value whose bytes are those of another one in reverse. Text has no order of bytes. -/
def reversedValue : Value → Value
  | .u8 value => .u8 (UInt8.ofNat (reversedBytes 1 value.toNat))
  | .i8 value => .i8 (UInt8.ofNat (reversedBytes 1 value.toUInt8.toNat)).toInt8
  | .u16 value => .u16 (UInt16.ofNat (reversedBytes 2 value.toNat))
  | .i16 value => .i16 (UInt16.ofNat (reversedBytes 2 value.toUInt16.toNat)).toInt16
  | .u32 value => .u32 (UInt32.ofNat (reversedBytes 4 value.toNat))
  | .i32 value => .i32 (UInt32.ofNat (reversedBytes 4 value.toUInt32.toNat)).toInt32
  | .f32 bits => .f32 (UInt32.ofNat (reversedBytes 4 bits.toNat))
  | .str text => .str text

/-- A single byte is the same in both orders. -/
theorem order_single (endian : Endian) (single : bytes.length = 1) : endian.order bytes = bytes := by
  obtain ⟨byte, rfl⟩ := List.length_eq_one_iff.mp single
  cases endian <;> rfl

section
variable (scalar : kind ≠ .str) (whole : bytes.length = kind.size)
include scalar whole

/-- The bytes of a number are told by the number. -/
theorem encode_decode (endian : Endian) : (Value.decode kind endian bytes).encode endian = bytes := by
  have ordered : (endian.order bytes).length = kind.size := (length_order endian bytes).trans whole
  have small := natOfBytes_lt (endian.order bytes)
  have back := bytesOfNat_natOfBytes (endian.order bytes)
  rw [ordered] at small back
  cases kind with
  | str => exact absurd rfl scalar
  | u8 | i8 =>
    simp only [Value.decode, Value.encode, UInt8.toInt8, UInt8.toNat_ofNat', ElementType.size,
      Nat.mod_eq_of_lt (show natOfBytes (endian.order bytes) < 2 ^ 8 from small)] at back ⊢
    rw [back, order_single endian whole]
  | u16 | i16 =>
    simp only [Value.decode, Value.encode, UInt16.toInt16, UInt16.toNat_ofNat', ElementType.size,
      Nat.mod_eq_of_lt (show natOfBytes (endian.order bytes) < 2 ^ 16 from small)] at back ⊢
    rw [back, order_order]
  | u32 | i32 | f32 =>
    simp only [Value.decode, Value.encode, UInt32.toInt32, UInt32.toNat_ofNat', ElementType.size,
      Nat.mod_eq_of_lt (show natOfBytes (endian.order bytes) < 2 ^ 32 from small)] at back ⊢
    rw [back, order_order]

/-- The same bytes in the other order are the number with its bytes reversed. -/
theorem decode_otherEndian (endian : Endian) :
    Value.decode kind (otherEndian endian) bytes = reversedValue (Value.decode kind endian bytes) := by
  have ordered : (endian.order bytes).length = kind.size := (length_order endian bytes).trans whole
  have small := natOfBytes_lt (endian.order bytes)
  have reversed := natOfBytes_reverse (endian.order bytes)
  rw [ordered] at small reversed
  rw [← order_otherEndian] at reversed
  cases kind with
  | str => exact absurd rfl scalar
  | u8 | i8 =>
    simp only [Value.decode, reversedValue, UInt8.toInt8, UInt8.toNat_ofNat', reversed, ElementType.size,
      Nat.mod_eq_of_lt (show natOfBytes (endian.order bytes) < 2 ^ 8 from small)]
  | u16 | i16 =>
    simp only [Value.decode, reversedValue, UInt16.toInt16, UInt16.toNat_ofNat', reversed, ElementType.size,
      Nat.mod_eq_of_lt (show natOfBytes (endian.order bytes) < 2 ^ 16 from small)]
  | u32 | i32 | f32 =>
    simp only [Value.decode, reversedValue, UInt32.toInt32, UInt32.toNat_ofNat', reversed, ElementType.size,
      Nat.mod_eq_of_lt (show natOfBytes (endian.order bytes) < 2 ^ 32 from small)]

end

theorem keptValue_scalar (scalar : value.type ≠ .str) : keptValue value = value := by
  cases value with
  | str text => exact absurd rfl scalar
  | _ => rfl

/-! ### Access to a block -/

theorem exists_parts (inside : offset + size ≤ block.bytes.length) : ∃ before held behind,
    block = ⟨before ++ held ++ behind, block.type⟩ ∧ before.length = offset ∧ held.length = size := by
  obtain ⟨bytes, type⟩ := block
  have inside : offset + size ≤ bytes.length := inside
  refine ⟨bytes.take offset, (bytes.drop offset).take size, (bytes.drop offset).drop size, ?_, ?_, ?_⟩
  · rw [List.append_assoc, List.take_append_drop, List.take_append_drop]
  · exact List.length_take_of_le (by omega)
  · exact List.length_take_of_le (by rw [List.length_drop]; omega)

theorem load_parts (type : ElementType) (before behind : List UInt8) (endian : Endian) (whole : held.length = kind.size) :
    (⟨before ++ held ++ behind, type⟩ : Block).load before.length kind endian =
      .ok (Value.decode kind endian held) := by
  unfold Block.load
  rw [← whole, slice_part]
  rfl

theorem store_parts (type : ElementType) (before behind : List UInt8) (endian : Endian)
    (whole : held.length = value.type.size) :
    (⟨before ++ held ++ behind, type⟩ : Block).store before.length value endian =
      .ok ⟨before ++ value.encode endian ++ behind, type⟩ := by
  have same : (value.encode endian).length = held.length := (length_encode value endian).trans whole.symm
  have room : (value.encode endian).length ≤ (held ++ behind).length := by
    rw [same, List.length_append]
    exact Nat.le_add_right _ _
  have stored := splice_part type before room
  rw [same, List.drop_left, ← List.append_assoc] at stored
  exact stored

/-- Two blocks that differ in some bytes of the same place are the same outside of it. -/
theorem getElem?_outside {others : List UInt8} (same : held.length = others.length) {index : Nat}
    (outside : index < before.length ∨ before.length + held.length ≤ index) :
    (before ++ held ++ behind)[index]? = (before ++ others ++ behind)[index]? := by
  rw [List.append_assoc, List.append_assoc]
  rcases outside with first | last
  · rw [List.getElem?_append_left first, List.getElem?_append_left first]
  · rw [List.getElem?_append_right (by omega), List.getElem?_append_right (by omega),
      List.getElem?_append_right (by omega), List.getElem?_append_right (by omega), same]

theorem load_outside (outside : block.bytes.length < offset + kind.size) (endian : Endian) :
    block.load offset kind endian = .error (.outOfBounds kind.size offset block.bytes.length) := by
  unfold Block.load Block.slice
  rw [if_neg (Nat.not_le.mpr outside)]
  rfl

theorem store_outside (outside : block.bytes.length < offset + value.type.size) (endian : Endian) :
    block.store offset value endian = .error (.outOfBounds value.type.size offset block.bytes.length) := by
  unfold Block.store Block.splice
  rw [length_encode, if_neg (Nat.not_le.mpr outside)]

/-- A memory is written as a whole or not at all. -/
theorem update_fault {memory : Allocator} {handle : Handle} {change : Block → Except Fault Block} {fault : Fault}
    (viewed : memory.view handle = .ok block) (failed : change block = .error fault) :
    memory.update handle change = .error fault := by
  obtain ⟨range, found, _⟩ := Except.bind_ok.mp viewed
  unfold Allocator.update
  rw [found, viewed]
  show Except.bind (change block) _ = _
  rw [failed]
  rfl

/-- Every number whose bytes lie in the block can be read and written there. What is read is what was written; what
was read changes nothing when it is written back, and has its bytes reversed when it is read in the other order.
A write keeps all other bytes. If the bytes do not lie in the block, however large the offset is, neither is done:
the fault is all that is answered, in place of a block and of a memory that has the block. -/
theorem typed_access (block : Block) (kind : ElementType) (scalar : kind ≠ .str) (endian : Endian) (offset : Nat) :
    (offset + kind.size ≤ block.bytes.length →
      (∃ value, block.load offset kind endian = .ok value ∧ value.type = kind ∧
        block.store offset value endian = .ok block ∧
        block.load offset kind (otherEndian endian) = .ok (reversedValue value)) ∧
      ∀ value : Value, value.type = kind → ∃ after, block.store offset value endian = .ok after ∧
        after.load offset kind endian = .ok value ∧
        after.type = block.type ∧ after.bytes.length = block.bytes.length ∧
        ∀ index, index < offset ∨ offset + kind.size ≤ index → after.bytes[index]? = block.bytes[index]?) ∧
    (block.bytes.length < offset + kind.size →
      block.load offset kind endian = .error (.outOfBounds kind.size offset block.bytes.length) ∧
      ∀ value : Value, value.type = kind →
        block.store offset value endian = .error (.outOfBounds kind.size offset block.bytes.length) ∧
        ∀ (memory : Allocator) (handle : Handle), memory.view handle = .ok block →
          memory.update handle (·.store offset value endian) =
            .error (.outOfBounds kind.size offset block.bytes.length)) := by
  constructor
  · intro inside
    obtain ⟨before, held, behind, parts, rfl, whole⟩ := exists_parts inside
    generalize block.type = type at parts
    subst parts
    constructor
    · have typed := type_decode kind endian held
      have read := load_parts type before behind endian whole
      have reversed := load_parts type before behind (otherEndian endian) whole
      have fits : held.length = (Value.decode kind endian held).type.size :=
        whole.trans (congrArg ElementType.size typed.symm)
      have written := store_parts type before behind endian fits
      rw [decode_otherEndian scalar whole] at reversed
      rw [encode_decode scalar whole] at written
      exact ⟨_, read, typed, written, reversed⟩
    · rintro value rfl
      have length : (value.encode endian).length = value.type.size := length_encode value endian
      have read := load_parts type before behind endian length
      rw [decode_encode, keptValue_scalar scalar] at read
      refine ⟨_, store_parts type before behind endian whole, read, rfl, ?_, fun index outside => ?_⟩
      · simp only [List.length_append, length, whole]
      · rw [← length] at outside whole
        exact getElem?_outside whole.symm outside
  · intro outside
    refine ⟨load_outside outside endian, ?_⟩
    rintro value rfl
    exact ⟨store_outside outside endian, fun memory handle viewed => update_fault viewed (store_outside outside endian)⟩

/-- A float between two bytes, and one at the largest offset. -/
theorem typed_access_of_float :
    let block : Block := ⟨[7, 0x3f, 0xc0, 0, 0, 9], .u8⟩
    ElementType.f32 ≠ .str ∧ 1 + ElementType.f32.size ≤ block.bytes.length ∧
    block.load 1 .f32 .big = .ok (.f32 0x3fc00000) ∧ block.load 1 .f32 .little = .ok (.f32 0xc03f) ∧
    block.store 1 (.f32 0x3fc00000) .big = .ok block ∧
    (∃ after, block.store 1 (.f32 0xff800001) .big = .ok after ∧ after.load 1 .f32 .big = .ok (.f32 0xff800001) ∧
      after.bytes[0]? = some 7 ∧ after.bytes[5]? = some 9) ∧
    block.bytes.length < (sizeLimit - 1) + ElementType.f32.size ∧
    block.load (sizeLimit - 1) .f32 .big = .error (.outOfBounds 4 18446744073709551615 6) ∧
    block.store (sizeLimit - 1) (.f32 0) .big = .error (.outOfBounds 4 18446744073709551615 6) ∧
    (∃ memory handle, Allocator.view memory handle = .ok block ∧
      memory.update handle (·.store (sizeLimit - 1) (.f32 0) .big) =
        .error (.outOfBounds 4 18446744073709551615 6)) := by
  intro block
  have inside : 1 + ElementType.f32.size ≤ block.bytes.length := by decide
  have outside : block.bytes.length < (sizeLimit - 1) + ElementType.f32.size := by decide
  have read : block.load 1 .f32 .big = .ok (.f32 0x3fc00000) := rfl
  obtain ⟨⟨value, loaded, _, back, reversed⟩, write⟩ := (typed_access block .f32 nofun .big 1).1 inside
  cases read.symm.trans loaded
  obtain ⟨after, stored, again, _, _, kept⟩ := write (.f32 0xff800001) rfl
  obtain ⟨unread, unwritten⟩ := (typed_access block .f32 nofun .big (sizeLimit - 1)).2 outside
  obtain ⟨unstored, refused⟩ := unwritten (.f32 0) rfl
  let memory : Allocator := ⟨#[7, 0x3f, 0xc0, 0, 0, 9], [⟨0, 0, 0, 6, .u8, true⟩], 1, 0, 0⟩
  have viewed : memory.view ⟨0, 0, 0, 6, .u8⟩ = .ok block := rfl
  exact ⟨nofun, inside, read, reversed, back, ⟨after, stored, again, kept 0 (.inl (by decide)),
    kept 5 (.inr (by decide))⟩, outside, unread, unstored, memory, _, viewed, refused memory _ viewed⟩

end Arcade.Proofs
