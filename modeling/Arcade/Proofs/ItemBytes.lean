import Arcade.Memory.Stack
import Arcade.Proofs.MemoryBytes

/-! Items as bytes. A record is stored as its values one after another, so writing or reading an item
is one access to one part of a block, and what is read is what was written. Only text may be cut,
by the field that holds it. -/

namespace Arcade.Proofs
open Arcade.Memory

variable {block : Block} {type : ElementType} {before bytes rest behind : List UInt8} {offset : Nat}

/-! ### Values -/

theorem natOfBytes_bytesOfNat {count value : Nat} (small : value < Nat.pow 256 count) :
    natOfBytes (bytesOfNat count value) = value := by
  induction count generalizing value with
  | zero => exact (Nat.lt_one_iff.mp small).symm
  | succ count ih =>
    have upper : value / 256 < Nat.pow 256 count := by
      apply Nat.div_lt_of_lt_mul
      rw [Nat.mul_comm]
      exact small
    rw [bytesOfNat, natOfBytes, ih upper, UInt8.toNat_ofNat']
    exact Nat.mod_add_div value 256

theorem order_order (endian : Endian) (bytes : List UInt8) : endian.order (endian.order bytes) = bytes := by
  cases endian
  · rfl
  · exact List.reverse_reverse bytes

/-- Text as a field of a text element gives it back. -/
def keptText (text : String) : String := strOfField (strField text ElementType.strSize)

/-- A value as memory gives it back. Numbers keep all their bits. -/
def keptValue : Value → Value
  | .str text => .str (keptText text)
  | number => number

theorem decode_encode (value : Value) (endian : Endian) :
    Value.decode value.type endian (value.encode endian) = keptValue value := by
  have one {number : Nat} (small : number < Nat.pow 256 1) :
      natOfBytes (endian.order (bytesOfNat 1 number)) = number := by
    cases endian <;> exact natOfBytes_bytesOfNat small
  have ordered (count : Nat) {number : Nat} (small : number < Nat.pow 256 count) :
      natOfBytes (endian.order (endian.order (bytesOfNat count number))) = number := by
    rw [order_order, natOfBytes_bytesOfNat small]
  cases value with
  | u8 value => simp [Value.decode, Value.encode, Value.type, keptValue, one value.toNat_lt]
  | i8 value => simp [Value.decode, Value.encode, Value.type, keptValue, one value.toUInt8.toNat_lt]
  | u16 value => simp [Value.decode, Value.encode, Value.type, keptValue, ordered 2 value.toNat_lt]
  | i16 value => simp [Value.decode, Value.encode, Value.type, keptValue, ordered 2 value.toUInt16.toNat_lt]
  | u32 value => simp [Value.decode, Value.encode, Value.type, keptValue, ordered 4 value.toNat_lt]
  | i32 value => simp [Value.decode, Value.encode, Value.type, keptValue, ordered 4 value.toUInt32.toNat_lt]
  | f32 bits => simp [Value.decode, Value.encode, Value.type, keptValue, ordered 4 bits.toNat_lt]
  | str text => rfl

theorem type_decode (type : ElementType) (endian : Endian) (bytes : List UInt8) :
    (Value.decode type endian bytes).type = type := by
  cases type <;> rfl

/-! ### Parts of a block -/

theorem slice_part (type : ElementType) (before bytes behind : List UInt8) :
    (⟨before ++ bytes ++ behind, type⟩ : Block).slice before.length bytes.length = .ok bytes := by
  unfold Block.slice
  rw [if_pos (by simp)]
  simp

theorem splice_part (type : ElementType) (before : List UInt8) (fits : bytes.length ≤ rest.length) :
    (⟨before ++ rest, type⟩ : Block).splice before.length bytes =
      .ok ⟨before ++ bytes ++ rest.drop bytes.length, type⟩ := by
  unfold Block.splice
  rw [if_pos (by simpa using fits)]
  simp

theorem load_part (type : ElementType) (before behind : List UInt8) (value : Value) :
    (⟨before ++ value.encode .little ++ behind, type⟩ : Block).load before.length value.type .little =
      .ok (keptValue value) := by
  unfold Block.load
  rw [← length_encode value .little, slice_part]
  exact congrArg Except.ok (decode_encode value .little)

theorem store_part (type : ElementType) (before : List UInt8) {value : Value} (fits : value.type.size ≤ rest.length) :
    (⟨before ++ rest, type⟩ : Block).store before.length value .little =
      .ok ⟨before ++ value.encode .little ++ rest.drop value.type.size, type⟩ := by
  rw [← length_encode value .little] at fits ⊢
  exact splice_part type before fits

theorem storeStr_part (type : ElementType) (before : List UInt8) (text : String) {size : Nat}
    (fits : size ≤ rest.length) : (⟨before ++ rest, type⟩ : Block).storeStr before.length text size =
      .ok ⟨before ++ strField text size ++ rest.drop size, type⟩ := by
  have inside : before.length + size ≤ (before ++ rest).length := by
    rw [List.length_append]
    exact Nat.add_le_add_left fits _
  have room : (strField text size).length ≤ rest.length := by rwa [length_strField]
  have spliced := splice_part type before room
  rw [length_strField] at spliced
  exact (if_pos inside).trans spliced

theorem loadStr_part (type : ElementType) (before field behind : List UInt8) :
    (⟨before ++ field ++ behind, type⟩ : Block).loadStr before.length field.length = .ok (strOfField field) := by
  unfold Block.loadStr
  rw [slice_part]
  rfl

/-- What a field gives back of a text depends neither on the block nor on the place of the field. -/
theorem loadStr_storeStr (text : String) {size : Nat} (inside : offset + size ≤ block.bytes.length) :
    ∃ after, block.storeStr offset text size = .ok after ∧
      after.loadStr offset size = .ok (strOfField (strField text size)) := by
  obtain ⟨bytes, type⟩ := block
  have fits : offset + size ≤ bytes.length := inside
  have start : (bytes.take offset).length = offset := List.length_take_of_le (by omega)
  have room : size ≤ (bytes.drop offset).length := by
    rw [List.length_drop]
    omega
  have stored := storeStr_part type (bytes.take offset) text room
  have loaded := loadStr_part type (bytes.take offset) (strField text size) ((bytes.drop offset).drop size)
  rw [List.take_append_drop, start] at stored
  rw [start, length_strField] at loaded
  exact ⟨_, stored, loaded⟩

/-! ### Records -/

/-- The values of a record are of the types of its fields, which lie one after another. A record is so
when it is made, and stays so when a field is set. -/
def TypedRecord (record : Record) : Prop :=
  ∃ fields, record.layout = .ofFields fields ∧ record.values.map Value.type = fields.map Prod.snd

theorem types_placeFrom (start : Nat) (fields : List (String × ElementType)) :
    (Layout.placeFrom start fields).map Field.type = fields.map Prod.snd := by
  induction fields generalizing start with
  | nil => rfl
  | cons field rest ih => simp [Layout.placeFrom, ih]

theorem typed_zero (fields : List (String × ElementType)) : TypedRecord (.zero (.ofFields fields)) := by
  have zero (type : ElementType) : type.zero.type = type := by cases type <;> rfl
  refine ⟨fields, rfl, ?_⟩
  rw [← types_placeFrom 0 fields]
  simp [Record.zero, Layout.ofFields, zero]

theorem set?_ok {record changed : Record} {name : String} {value : Value}
    (done : record.set? name value = .ok (some changed)) : ∃ place field converted,
      record.layout.fields[place]? = some field ∧ value.cast field.type = .ok converted ∧
      changed = { record with values := record.values.set place converted } := by
  unfold Record.set? at done
  split at done
  next => cases done
  next place _ =>
    split at done
    next => cases done
    next field found =>
      obtain ⟨converted, cast, done⟩ := Except.bind_ok.mp done
      cases done
      exact ⟨place, field, converted, found, cast, rfl⟩

theorem typed_set {record changed : Record} {name : String} {value : Value} (typed : TypedRecord record)
    (done : record.set? name value = .ok (some changed)) : TypedRecord changed := by
  obtain ⟨fields, layout, types⟩ := typed
  obtain ⟨place, field, converted, found, cast, rfl⟩ := set?_ok done
  refine ⟨fields, layout, ?_⟩
  have there : (fields.map Prod.snd)[place]? = some field.type := by
    rw [layout] at found
    rw [← types_placeFrom 0 fields, List.getElem?_map]
    exact congrArg (Option.map Field.type) found
  obtain ⟨inside, same⟩ := List.getElem?_eq_some_iff.mp there
  rw [List.map_set, type_cast cast, types, ← same, List.set_getElem_self]

/-- The bytes of values one after another. -/
def valuesBytes (values : List Value) : List UInt8 := values.flatMap (·.encode .little)

theorem valuesBytes_cons (value : Value) (values : List Value) :
    valuesBytes (value :: values) = value.encode .little ++ valuesBytes values := List.flatMap_cons

theorem length_valuesBytes {values : List Value} {fields : List (String × ElementType)}
    (types : values.map Value.type = fields.map Prod.snd) :
    (valuesBytes values).length = Layout.sizeOf fields := by
  induction fields generalizing values with
  | nil =>
    obtain rfl := List.map_eq_nil_iff.mp types
    rfl
  | cons field fields ih =>
    obtain ⟨value, others, rfl, same, tail⟩ := List.map_eq_cons_iff.mp types
    rw [valuesBytes_cons, List.length_append, length_encode, ih tail, same]
    rfl

theorem storeFields_part (type : ElementType) {values : List Value} {fields : List (String × ElementType)}
    {start : Nat} (types : values.map Value.type = fields.map Prod.snd) (place : offset + start = before.length)
    (fits : Layout.sizeOf fields ≤ rest.length) (small : before.length + rest.length < sizeLimit) :
    Record.storeFields offset ((Layout.placeFrom start fields).zip values) ⟨before ++ rest, type⟩ =
      .ok ⟨before ++ valuesBytes values ++ rest.drop (Layout.sizeOf fields), type⟩ := by
  induction fields generalizing values start before rest with
  | nil =>
    obtain rfl := List.map_eq_nil_iff.mp types
    simp [Layout.placeFrom, Layout.sizeOf, Record.storeFields, valuesBytes]
  | cons field fields ih =>
    obtain ⟨value, others, rfl, same, tail⟩ := List.map_eq_cons_iff.mp types
    obtain ⟨name, kind⟩ := field
    obtain rfl : value.type = kind := same
    rw [Layout.sizeOf] at fits
    have offsetOk : checkedSize (offset + start) = .ok before.length := by
      rw [place]
      exact if_pos (by omega)
    have stored := store_part type before (by omega : value.type.size ≤ rest.length)
    rw [valuesBytes_cons, ← List.append_assoc, Layout.sizeOf, ← List.drop_drop]
    -- the other fields lie behind the bytes of the first
    refine Except.bind_ok.mpr ⟨_, offsetOk, Except.bind_ok.mpr ⟨_, stored, ih tail ?_ ?_ ?_⟩⟩
    · rw [List.length_append, length_encode, ← place, Nat.add_assoc]
    · rw [List.length_drop]
      omega
    · rw [List.length_append, length_encode, List.length_drop]
      omega

theorem loadFields_part (type : ElementType) (behind : List UInt8) {values : List Value}
    {fields : List (String × ElementType)} {start : Nat} (types : values.map Value.type = fields.map Prod.snd)
    (place : offset + start = before.length) (small : before.length + Layout.sizeOf fields < sizeLimit) :
    Record.loadFields ⟨before ++ valuesBytes values ++ behind, type⟩ offset (Layout.placeFrom start fields) =
      .ok (values.map keptValue) := by
  induction fields generalizing values start before with
  | nil =>
    obtain rfl := List.map_eq_nil_iff.mp types
    rfl
  | cons field fields ih =>
    obtain ⟨value, others, rfl, same, tail⟩ := List.map_eq_cons_iff.mp types
    obtain ⟨name, kind⟩ := field
    obtain rfl : value.type = kind := same
    rw [Layout.sizeOf] at small
    have offsetOk : checkedSize (offset + start) = .ok before.length := by
      rw [place]
      exact if_pos (by omega)
    have loaded := load_part type before (valuesBytes others ++ behind) value
    rw [← List.append_assoc] at loaded
    rw [valuesBytes_cons, ← List.append_assoc]
    refine Except.bind_ok.mpr ⟨_, offsetOk, Except.bind_ok.mpr ⟨_, loaded, ?_⟩⟩
    refine Except.bind_ok.mpr ⟨_, ih tail ?_ ?_, rfl⟩
    · rw [List.length_append, length_encode, ← place, Nat.add_assoc]
    · rw [List.length_append, length_encode]
      omega

/-! ### Items -/

def TypedItem : Item → Prop
  | .value _ => True
  | .record record => TypedRecord record

def itemBytes : Item → List UInt8
  | .value scalar => scalar.encode .little
  | .record record => valuesBytes record.values

/-- An item as memory gives it back. -/
def keptItem : Item → Item
  | .value scalar => .value (keptValue scalar)
  | .record record => .record { record with values := record.values.map keptValue }

theorem length_itemBytes {item : Item} (typed : TypedItem item) : (itemBytes item).length = item.size := by
  cases item with
  | value scalar => exact length_encode scalar .little
  | record record =>
    obtain ⟨fields, layout, types⟩ := typed
    obtain ⟨_, values⟩ := record
    obtain rfl := layout
    exact length_valuesBytes types

theorem store_item (type : ElementType) {item : Item} (typed : TypedItem item) (fits : item.size ≤ rest.length)
    (small : before.length + rest.length < sizeLimit) :
    item.store before.length ⟨before ++ rest, type⟩ =
      .ok ⟨before ++ itemBytes item ++ rest.drop item.size, type⟩ := by
  cases item with
  | value scalar => exact store_part type before fits
  | record record =>
    obtain ⟨fields, layout, types⟩ := typed
    obtain ⟨_, values⟩ := record
    obtain rfl := layout
    exact storeFields_part type types rfl fits small

theorem load_item (type : ElementType) (behind : List UInt8) {item : Item} (typed : TypedItem item)
    (small : before.length + item.size < sizeLimit) :
    item.type.load before.length ⟨before ++ itemBytes item ++ behind, type⟩ = .ok (keptItem item) := by
  cases item with
  | value scalar => exact Except.bind_ok.mpr ⟨_, load_part type before behind scalar, rfl⟩
  | record record =>
    obtain ⟨fields, layout, types⟩ := typed
    obtain ⟨_, values⟩ := record
    obtain rfl := layout
    have loaded := loadFields_part type behind types (Nat.add_zero before.length) small
    exact Except.bind_ok.mpr ⟨_, Except.bind_ok.mpr ⟨_, loaded, rfl⟩, rfl⟩

theorem shape_storeItem {after : Block} {item : Item} (stored : item.store offset block = .ok after) :
    SameShape block after := by
  cases item with
  | value scalar => exact shape_splice stored
  | record record => exact shape_storeFields stored

end Arcade.Proofs
