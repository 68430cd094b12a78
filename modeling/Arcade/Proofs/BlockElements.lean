import Mathlib.Data.List.Forall2
import Arcade.Proofs.LiveBlocks
import Arcade.Proofs.TypedAccess

/-! Blocks of numbers as arrays. The bytes of such a block are those of its elements one after another, so that setting,
filling and copying elements does to the list of them what it says, wherever the elements lie. -/

namespace Arcade.Proofs
open Arcade.Memory

variable {block after : Block} {type : ElementType} {values : List Value} {value converted : Value}
  {bytes : List UInt8} {count index start stop dest : Nat}

/-! ### Packed elements -/

theorem size_pos (type : ElementType) : 0 < type.size := by
  cases type <;> decide

/-- The bytes are those of values of the type, one after another. -/
structure Packs (type : ElementType) (bytes : List UInt8) (values : List Value) : Prop where
  typed : ∀ value ∈ values, value.type = type
  bytes : bytes = valuesBytes values

theorem valuesBytes_append (first last : List Value) :
    valuesBytes (first ++ last) = valuesBytes first ++ valuesBytes last := List.flatMap_append

theorem length_packed (typed : ∀ value ∈ values, value.type = type) :
    (valuesBytes values).length = values.length * type.size := by
  induction values with
  | nil => exact (Nat.zero_mul _).symm
  | cons value rest ih =>
    obtain ⟨rfl, others⟩ := List.forall_mem_cons.mp typed
    rw [valuesBytes_cons, List.length_append, length_encode, ih others, List.length_cons, Nat.succ_mul, Nat.add_comm]

theorem Packs.length (packs : Packs type bytes values) : bytes.length = values.length * type.size := by
  rw [packs.bytes, length_packed packs.typed]

/-- Any bytes are those of numbers, if they are as many as some numbers take. -/
theorem exists_packs (scalar : type ≠ .str) (whole : bytes.length = count * type.size) :
    ∃ values, values.length = count ∧ Packs type bytes values := by
  induction count generalizing bytes with
  | zero =>
    obtain rfl := List.length_eq_zero_iff.mp (whole.trans (Nat.zero_mul _))
    exact ⟨[], rfl, nofun, rfl⟩
  | succ count ih =>
    rw [Nat.succ_mul] at whole
    have own : (bytes.take type.size).length = type.size := List.length_take_of_le (by omega)
    have left : (bytes.drop type.size).length = count * type.size := by
      rw [List.length_drop]
      omega
    obtain ⟨values, rfl, typed, rest⟩ := ih left
    refine ⟨Value.decode type .little (bytes.take type.size) :: values, rfl, ?_, ?_⟩
    · exact List.forall_mem_cons.mpr ⟨type_decode type .little _, typed⟩
    · rw [valuesBytes_cons, encode_decode scalar own, ← rest, List.take_append_drop]

/-- An element among the others, in the place of which another value can stand. -/
theorem Packs.split (packs : Packs type bytes values) (here : values[index]? = some value) :
    ∃ before behind, bytes = before ++ value.encode .little ++ behind ∧ before.length = index * type.size ∧
      value.type = type ∧ ∀ converted, converted.type = type →
        Packs type (before ++ converted.encode .little ++ behind) (values.set index converted) := by
  obtain ⟨typed, rfl⟩ := packs
  obtain ⟨inside, rfl⟩ := List.getElem?_eq_some_iff.mp here
  have parts (other : Value) : valuesBytes (values.take index) ++ other.encode .little ++
      valuesBytes (values.drop (index + 1)) = valuesBytes (values.set index other) := by
    rw [List.set_eq_take_append_cons_drop, if_pos inside, valuesBytes_append, valuesBytes_cons, List.append_assoc]
  refine ⟨valuesBytes (values.take index), valuesBytes (values.drop (index + 1)), ?_, ?_,
    typed _ (List.getElem_mem inside), fun converted same => ⟨fun other member => ?_, parts converted⟩⟩
  · rw [parts, List.set_getElem_self]
  · rw [length_packed fun other member => typed other (List.mem_of_mem_take member),
      List.length_take_of_le (Nat.le_of_lt inside)]
  · obtain isOld | rfl := List.mem_or_eq_of_mem_set member
    · exact typed other isOld
    · exact same

theorem take_valuesBytes (typed : ∀ value ∈ values, value.type = type) (count : Nat) :
    (valuesBytes values).take (count * type.size) = valuesBytes (values.take count) := by
  induction count generalizing values with
  | zero => rw [Nat.zero_mul, List.take_zero, List.take_zero]; rfl
  | succ count ih =>
    cases values with
    | nil => exact List.take_nil
    | cons value rest =>
      obtain ⟨rfl, others⟩ := List.forall_mem_cons.mp typed
      have own := length_encode value .little
      rw [valuesBytes_cons, List.take_succ_cons, valuesBytes_cons, List.take_append, List.take_of_length_le (by
        rw [own, Nat.succ_mul]
        exact Nat.le_add_left ..), own, Nat.succ_mul, Nat.add_sub_cancel, ih others]

theorem drop_valuesBytes (typed : ∀ value ∈ values, value.type = type) (count : Nat) :
    (valuesBytes values).drop (count * type.size) = valuesBytes (values.drop count) := by
  induction count generalizing values with
  | zero => rw [Nat.zero_mul, List.drop_zero, List.drop_zero]
  | succ count ih =>
    cases values with
    | nil => exact List.drop_nil
    | cons value rest =>
      obtain ⟨rfl, others⟩ := List.forall_mem_cons.mp typed
      have own := length_encode value .little
      rw [valuesBytes_cons, List.drop_succ_cons, ← ih others, Nat.succ_mul, Nat.add_comm, ← own, ← List.drop_drop,
        List.drop_left, own]

/-! ### Copied elements -/

/-- The list in which some elements from `start` on stand in the place of those from `dest` on. -/
def copied (values : List Value) (start count dest : Nat) : List Value :=
  values.take dest ++ (values.drop start).take count ++ values.drop (dest + count)

theorem getElem?_copied (inside : start + count ≤ values.length) (room : dest + count ≤ values.length) (index : Nat) :
    (copied values start count dest)[index]? =
      if dest ≤ index ∧ index < dest + count then values[start + (index - dest)]? else values[index]? := by
  have front : (values.take dest).length = dest := List.length_take_of_le (by omega)
  have moved : ((values.drop start).take count).length = count := by
    rw [List.length_take_of_le]
    rw [List.length_drop]
    omega
  unfold copied
  obtain before | ⟨low, high⟩ | behind : index < dest ∨ (dest ≤ index ∧ index < dest + count) ∨
      dest + count ≤ index := by omega
  · rw [if_neg (by omega), List.append_assoc, List.getElem?_append_left (by omega), List.getElem?_take_of_lt before]
  · rw [if_pos ⟨low, high⟩, List.append_assoc, List.getElem?_append_right (by omega), front,
      List.getElem?_append_left (by omega), List.getElem?_take_of_lt (by omega), List.getElem?_drop]
  · rw [if_neg (by omega), List.getElem?_append_right (by rw [List.length_append]; omega), List.length_append, front,
      moved, List.getElem?_drop, Nat.add_sub_cancel' behind]

theorem mem_of_mem_copied (member : value ∈ copied values start count dest) : value ∈ values := by
  obtain isFront | isBehind := List.mem_append.mp member
  · obtain isFirst | isMoved := List.mem_append.mp isFront
    · exact List.mem_of_mem_take isFirst
    · exact List.mem_of_mem_drop (List.mem_of_mem_take isMoved)
  · exact List.mem_of_mem_drop isBehind

/-! ### Access by index -/

/-- The elements of a block, as they are read one by one and all together. -/
structure HasElements (block : Block) (values : List Value) : Prop where
  count : values.length = block.count
  each : ∀ index value, values[index]? = some value → block.get index = .ok value
  all : block.elements = .ok values

section
variable (packs : Packs block.type block.bytes values) (small : block.bytes.length < sizeLimit)
include packs

theorem Packs.count_eq : values.length = block.count := by
  rw [Block.count, packs.length, Nat.mul_div_cancel _ (size_pos _)]

/-- The bytes of a value are put in the place of those of an element. -/
theorem Packs.store (typed : value.type = block.type) (inside : index < values.length) :
    ∃ after, block.store (index * block.type.size) value .little = .ok after ∧ after.type = block.type ∧
      after.bytes.length = block.bytes.length ∧ Packs block.type after.bytes (values.set index value) := by
  obtain ⟨before, behind, bytes, length, same, replaced⟩ := packs.split (List.getElem?_eq_getElem inside)
  obtain ⟨held, type⟩ := block
  obtain rfl : held = _ := bytes
  have whole : (values[index].encode .little).length = value.type.size := by rw [length_encode, same, typed]
  have stored := store_parts type before behind .little whole
  rw [length] at stored
  exact ⟨_, stored, rfl, (shape_splice stored).length, replaced value typed⟩

include small

theorem Packs.offset (inside : index ≤ values.length) : block.elementOffset index = .ok (index * block.type.size) := by
  have low := Nat.mul_le_mul_right block.type.size inside
  rw [← packs.length] at low
  exact if_pos (Nat.lt_of_le_of_lt low small)

theorem Packs.get (scalar : block.type ≠ .str) (here : values[index]? = some value) :
    block.get index = .ok value := by
  have inside := (List.getElem?_eq_some_iff.mp here).1
  refine Except.bind_ok.mpr ⟨_, packs.offset small (Nat.le_of_lt inside), ?_⟩
  obtain ⟨held, type⟩ := block
  obtain ⟨before, behind, bytes, length, rfl, _⟩ := packs.split here
  obtain rfl : held = _ := bytes
  have loaded := load_part value.type before behind value
  rwa [keptValue_scalar scalar, length] at loaded

theorem Packs.hasElements (scalar : block.type ≠ .str) : HasElements block values := by
  refine ⟨packs.count_eq, fun index value => packs.get small scalar, ?_⟩
  have each : List.Forall₂ (fun index value => block.get index = .ok value) (List.range block.count) values := by
    rw [← packs.count_eq]
    refine List.forall₂_of_length_eq_of_get List.length_range fun index _ inside => ?_
    refine packs.get small scalar ?_
    simp
  unfold Block.elements
  generalize List.range block.count = indices at each
  clear packs
  induction each with
  | nil => rfl
  | cons first _ ih =>
    rw [List.mapM_cons]
    exact Except.bind_ok.mpr ⟨_, first, Except.bind_ok.mpr ⟨_, ih, rfl⟩⟩

theorem Packs.set (cast : value.cast block.type = .ok converted) (inside : index < values.length) :
    ∃ after, block.set index value = .ok after ∧ after.type = block.type ∧
      after.bytes.length = block.bytes.length ∧ Packs block.type after.bytes (values.set index converted) := by
  obtain ⟨after, stored, kept⟩ := packs.store (type_cast cast) inside
  refine ⟨after, ?_, kept⟩
  exact Except.bind_ok.mpr ⟨_, packs.offset small (Nat.le_of_lt inside), Except.bind_ok.mpr ⟨_, cast, stored⟩⟩

theorem Packs.fillFrom (typed : value.type = block.type)
    (inside : 0 < count → index + count ≤ values.length) :
    ∃ after changed, Block.fillFrom value count index block = .ok after ∧ after.type = block.type ∧
      after.bytes.length = block.bytes.length ∧ Packs block.type after.bytes changed ∧
      (∀ place, index ≤ place → place < index + count → changed[place]? = some value) ∧
      ∀ place, place < index ∨ index + count ≤ place → changed[place]? = values[place]? := by
  induction count generalizing index block values with
  | zero => exact ⟨block, values, rfl, rfl, rfl, packs, fun place low high => by omega, fun _ _ => rfl⟩
  | succ count ih =>
    have room := inside (Nat.succ_pos count)
    have own : index < values.length := by omega
    obtain ⟨next, stored, type, length, set⟩ := packs.store typed own
    rw [← type] at set typed
    have smaller : next.bytes.length < sizeLimit := by rwa [length]
    have left : 0 < count → index + 1 + count ≤ (values.set index value).length := by
      rw [List.length_set]
      omega
    obtain ⟨after, changed, filled, type', length', packed, inner, outer⟩ := ih set smaller typed left
    rw [type] at type' packed
    rw [length] at length'
    refine ⟨after, changed, ?_, type', length', packed, fun place low high => ?_, fun place beyond => ?_⟩
    · exact Except.bind_ok.mpr ⟨_, packs.offset small (Nat.le_of_lt own), Except.bind_ok.mpr ⟨_, stored, filled⟩⟩
    · obtain rfl | later := Nat.eq_or_lt_of_le low
      · rw [outer index (.inl (Nat.lt_succ_self index)), List.getElem?_set_self own]
      · exact inner place later (by omega)
    · rw [outer place (by omega), List.getElem?_set_ne (by omega)]

theorem Packs.copyWithin (order : start ≤ stop) (inside : stop ≤ values.length)
    (room : dest + (stop - start) ≤ values.length) :
    ∃ after, block.copyWithin start stop dest = .ok after ∧ after.type = block.type ∧
      after.bytes.length = block.bytes.length ∧
      Packs block.type after.bytes (copied values start (stop - start) dest) := by
  obtain ⟨held, type⟩ := block
  have first := packs.offset small (Nat.le_trans order inside)
  have last := packs.offset small inside
  have target := packs.offset small (Nat.le_of_add_right_le room)
  obtain ⟨typed, bytes⟩ := packs
  obtain rfl : held = valuesBytes values := bytes
  have whole := length_packed typed
  have lastInside : stop * type.size ≤ (valuesBytes values).length := whole ▸ Nat.mul_le_mul_right _ inside
  have ordered : start * type.size ≤ stop * type.size := Nat.mul_le_mul_right _ order
  have final : dest * type.size + (stop * type.size - start * type.size) = (dest + (stop - start)) * type.size := by
    rw [← Nat.sub_mul, ← Nat.add_mul]
  have finalInside : (dest + (stop - start)) * type.size ≤ (valuesBytes values).length :=
    whole ▸ Nat.mul_le_mul_right _ room
  have finalOk : checkedSize ((dest + (stop - start)) * type.size) = .ok ((dest + (stop - start)) * type.size) :=
    if_pos (Nat.lt_of_le_of_lt finalInside small)
  -- the elements that are copied are taken before any of them is overwritten
  have taken : ((valuesBytes values).drop (start * type.size)).take (stop * type.size - start * type.size) =
      valuesBytes ((values.drop start).take (stop - start)) := by
    rw [← Nat.sub_mul, drop_valuesBytes typed,
      take_valuesBytes fun value member => typed value (List.mem_of_mem_drop member)]
  have length : (valuesBytes ((values.drop start).take (stop - start))).length =
      stop * type.size - start * type.size := by
    rw [← taken, List.length_take_of_le]
    rw [List.length_drop]
    exact Nat.sub_le_sub_right lastInside _
  have spliced : (⟨valuesBytes values, type⟩ : Block).splice (dest * type.size)
      (valuesBytes ((values.drop start).take (stop - start))) =
        .ok ⟨valuesBytes (copied values start (stop - start) dest), type⟩ := by
    unfold Block.splice copied
    rw [length, final, if_pos finalInside, take_valuesBytes typed, drop_valuesBytes typed, valuesBytes_append,
      valuesBytes_append]
  refine ⟨_, ?_, (shape_splice spliced).type, (shape_splice spliced).length,
    fun value member => typed value (mem_of_mem_copied member), rfl⟩
  refine Except.bind_ok.mpr ⟨_, first, Except.bind_ok.mpr ⟨_, last, Except.bind_ok.mpr ⟨_, target, ?_⟩⟩⟩
  dsimp only
  rw [if_neg (Nat.not_lt.mpr lastInside), final, taken]
  refine Except.bind_ok.mpr ⟨_, finalOk, ?_⟩
  rw [if_neg (Nat.not_lt.mpr finalInside), if_neg (Nat.not_lt.mpr ordered), spliced]

end

/-! ### Access out of bounds -/

theorem elementOffset_eq {offset : Nat} (done : block.elementOffset index = .ok offset) :
    offset = index * block.type.size := by
  unfold Block.elementOffset checkedSize at done
  split at done
  · cases done
    rfl
  · cases done

theorem le_count_iff : index ≤ block.count ↔ index * block.type.size ≤ block.bytes.length :=
  Nat.le_div_iff_mul_le (size_pos block.type)

theorem set_inside (done : block.set index value = .ok after) : index < block.count := by
  obtain ⟨offset, place, done⟩ := Except.bind_ok.mp done
  obtain ⟨converted, cast, stored⟩ := Except.bind_ok.mp done
  obtain rfl := elementOffset_eq place
  apply le_count_iff.mpr
  rw [Nat.succ_mul]
  by_contra outside
  have beyond : block.bytes.length < index * block.type.size + converted.type.size := by
    rw [type_cast cast]
    exact Nat.lt_of_not_le outside
  rw [store_outside beyond] at stored
  cases stored

theorem copyWithin_inside (done : block.copyWithin start stop dest = .ok after) :
    stop ≤ block.count ∧ dest + (stop - start) ≤ block.count := by
  obtain ⟨first, isFirst, done⟩ := Except.bind_ok.mp done
  obtain ⟨last, isLast, done⟩ := Except.bind_ok.mp done
  obtain ⟨target, isTarget, done⟩ := Except.bind_ok.mp done
  obtain rfl := elementOffset_eq isFirst
  obtain rfl := elementOffset_eq isLast
  obtain rfl := elementOffset_eq isTarget
  rw [le_count_iff, le_count_iff, Nat.add_mul, Nat.sub_mul]
  dsimp only at done
  split at done
  next => cases done
  next inside =>
    obtain ⟨final, isFinal, done⟩ := Except.bind_ok.mp done
    split at done
    next => cases done
    next room =>
      unfold checkedSize at isFinal
      split at isFinal
      · cases isFinal
        exact ⟨Nat.le_of_not_lt inside, Nat.le_of_not_lt room⟩
      · cases isFinal

/-- Numbers can be cast to every type of numbers. -/
theorem cast_answers (number : value.type ≠ .str) (scalar : type ≠ .str) :
    ∃ converted, value.cast type = .ok converted := by
  unfold Value.cast
  split
  · exact ⟨_, rfl⟩
  · cases value with
    | str text => exact absurd rfl number
    | _ => exact ⟨_, rfl⟩

end Arcade.Proofs

namespace Arcade.Proofs.Allocation
open Arcade.Memory

variable {config : Config} {history : History} {memory : Allocator} {handle : Handle} {block : Block}

/-- The block of a good handle is an array of numbers. Setting an element makes it the value as the block's type has
it, filling a range does so for the elements of the range, and copying makes the elements behind the destination the
ones that were in the range before, also if these are overwritten; each leaves all other elements alone. An index
beyond the elements, and a copy from or to beyond them, is a fault, which is all that is answered, in place of a
memory. -/
theorem block_is_array (run : Run config history memory) (viewed : memory.view handle = .ok block)
    (numeric : block.type ≠ .str) : ∃ values, HasElements block values ∧
      (∀ index value, value.type ≠ .str →
        (index < block.count → ∃ converted next after, value.cast block.type = .ok converted ∧
          memory.update handle (·.set index value) = .ok next ∧ next.view handle = .ok after ∧
          HasElements after (values.set index converted)) ∧
        (block.count ≤ index → ∃ fault, memory.update handle (·.set index value) = .error fault)) ∧
      (∀ start stop value, value.type ≠ .str → stop ≤ block.count →
        ∃ converted next after changed, value.cast block.type = .ok converted ∧
          memory.update handle (·.fill start stop value) = .ok next ∧ next.view handle = .ok after ∧
          HasElements after changed ∧
          (∀ index, start ≤ index → index < stop → changed[index]? = some converted) ∧
          ∀ index, index < start ∨ stop ≤ index → changed[index]? = values[index]?) ∧
      ∀ start stop dest, start ≤ stop →
        (stop ≤ block.count → dest + (stop - start) ≤ block.count → ∃ next after changed,
          memory.update handle (·.copyWithin start stop dest) = .ok next ∧ next.view handle = .ok after ∧
          HasElements after changed ∧
          (∀ place, place < stop - start → changed[dest + place]? = values[start + place]?) ∧
          ∀ index, index < dest ∨ dest + (stop - start) ≤ index → changed[index]? = values[index]?) ∧
        (block.count < stop ∨ block.count < dest + (stop - start) →
          ∃ fault, memory.update handle (·.copyWithin start stop dest) = .error fault) := by
  have small := run.view_limited viewed
  obtain ⟨count, whole⟩ := run.view_whole viewed
  obtain ⟨values, rfl, packs⟩ := exists_packs numeric (whole.trans (Nat.mul_comm ..))
  have same := packs.count_eq
  -- what is packed in a block of the same type and length are its elements
  have elements {after : Block} {changed : List Value} (type : after.type = block.type)
      (length : after.bytes.length = block.bytes.length) (packed : Packs block.type after.bytes changed) :
      HasElements after changed := by
    rw [← type] at packed numeric
    exact packed.hasElements (length ▸ small) numeric
  have refused {change : Block → Except Fault Block} (never : ∀ after, change block ≠ .ok after) :
      ∃ fault, memory.update handle change = .error fault := by
    cases tried : change block with
    | error fault => exact ⟨fault, update_fault viewed tried⟩
    | ok after => exact absurd tried (never after)
  refine ⟨values, packs.hasElements small numeric, fun index value number => ⟨fun inside => ?_, fun beyond => ?_⟩,
    fun start stop value number inside => ?_, fun start stop dest order => ⟨fun inside room => ?_, fun beyond => ?_⟩⟩
  · obtain ⟨converted, cast⟩ := cast_answers number numeric
    obtain ⟨after, set, type, length, packed⟩ := packs.set small cast (same ▸ inside)
    obtain ⟨next, updated, seen⟩ : ∃ next, memory.update handle (·.set index value) = .ok next ∧
        next.view handle = .ok after := run.view_update viewed set length type
    exact ⟨converted, next, after, cast, updated, seen, elements type length packed⟩
  · exact refused fun after set => absurd (set_inside set) (Nat.not_lt.mpr beyond)
  · obtain ⟨converted, cast⟩ := cast_answers number numeric
    have room : 0 < stop - start → start + (stop - start) ≤ values.length := by omega
    obtain ⟨after, changed, filled, type, length, packed, inner, outer⟩ :=
      packs.fillFrom small (type_cast cast) room
    have done : block.fill start stop value = .ok after := Except.bind_ok.mpr ⟨_, cast, filled⟩
    obtain ⟨next, updated, seen⟩ : ∃ next, memory.update handle (·.fill start stop value) = .ok next ∧
        next.view handle = .ok after := run.view_update viewed done length type
    refine ⟨converted, next, after, changed, cast, updated, seen, elements type length packed,
      fun index low high => inner index low (by omega), fun index beyond => outer index (by omega)⟩
  · obtain ⟨after, done, type, length, packed⟩ := packs.copyWithin small order (same ▸ inside) (same ▸ room)
    obtain ⟨next, updated, seen⟩ : ∃ next, memory.update handle (·.copyWithin start stop dest) = .ok next ∧
        next.view handle = .ok after := run.view_update viewed done length type
    refine ⟨next, after, _, updated, seen, elements type length packed, fun place low => ?_, fun index beyond => ?_⟩
    · rw [getElem?_copied (by omega) (by omega), if_pos (by omega), Nat.add_sub_cancel_left]
    · rw [getElem?_copied (by omega) (by omega), if_neg (by omega)]
  · refine refused fun after done => ?_
    have within := copyWithin_inside done
    omega

/-- Four elements, of which the first three are copied one place on, over two of themselves. -/
theorem block_is_array_of_shorts : ∃ history memory handle block, Run ⟨8, 0⟩ history memory ∧
    memory.view handle = .ok block ∧ block.type ≠ .str ∧ block.count = 4 ∧
    block.elements = .ok [.i16 1, .i16 2, .i16 3, .i16 (-4)] ∧
    (∃ next after, memory.update handle (·.set 1 (.i32 65541)) = .ok next ∧ next.view handle = .ok after ∧
      after.get 1 = .ok (.i16 5) ∧ after.get 3 = .ok (.i16 (-4))) ∧
    (∃ next after, memory.update handle (·.fill 1 3 (.f32 0x40e00000)) = .ok next ∧ next.view handle = .ok after ∧
      after.get 0 = .ok (.i16 1) ∧ after.get 2 = .ok (.i16 7)) ∧
    (∃ next after, memory.update handle (·.copyWithin 0 3 1) = .ok next ∧ next.view handle = .ok after ∧
      after.get 0 = .ok (.i16 1) ∧ after.get 3 = .ok (.i16 3)) ∧
    (∃ fault, memory.update handle (·.set 4 (.u8 0)) = .error fault) ∧
    ∃ fault, memory.update handle (·.copyWithin 0 3 2) = .error fault := by
  have placed : (Allocator.ofConfig ⟨8, 0⟩).alloc .i16 4 [.i16 1, .i16 2, .i16 3, .i16 (-4)] =
      .ok (.ok (⟨0, 0, 0, 8, .i16⟩, ⟨#[1, 0, 2, 0, 3, 0, 252, 255], [⟨0, 0, 0, 8, .i16, true⟩], 1, 0, 0⟩)) := rfl
  have run := Run.step .start (.placed placed)
  have viewed : Allocator.view ⟨#[1, 0, 2, 0, 3, 0, 252, 255], [⟨0, 0, 0, 8, .i16, true⟩], 1, 0, 0⟩
      ⟨0, 0, 0, 8, .i16⟩ = .ok ⟨[1, 0, 2, 0, 3, 0, 252, 255], .i16⟩ := rfl
  have elements : (⟨[1, 0, 2, 0, 3, 0, 252, 255], .i16⟩ : Block).elements =
      .ok [.i16 1, .i16 2, .i16 3, .i16 (-4)] := rfl
  obtain ⟨values, has, set, fill, copy⟩ := block_is_array run viewed nofun
  cases has.all.symm.trans elements
  obtain ⟨converted, next, after, cast, updated, seen, hasSet⟩ := (set 1 (.i32 65541) nofun).1 (by decide)
  cases cast
  obtain ⟨filler, filled, full, _, castFill, updatedFill, seenFill, hasFilled, inner, outer⟩ :=
    fill 1 3 (.f32 0x40e00000) nofun (by decide)
  cases castFill
  obtain ⟨moved, last, _, updatedCopy, seenCopy, hasCopied, inside, outside⟩ :=
    (copy 0 3 1 (by decide)).1 (by decide) (by decide)
  exact ⟨_, _, _, _, run, viewed, nofun, rfl, elements,
    ⟨next, after, updated, seen, hasSet.each 1 _ rfl, hasSet.each 3 _ rfl⟩,
    ⟨filled, full, updatedFill, seenFill, hasFilled.each 0 _ (outer 0 (by decide)),
      hasFilled.each 2 _ (inner 2 (by decide) (by decide))⟩,
    ⟨moved, last, updatedCopy, seenCopy, hasCopied.each 0 _ (outside 0 (by decide)),
      hasCopied.each 3 _ (inside 2 (by decide))⟩,
    (set 4 (.u8 0) nofun).2 (by decide), (copy 0 3 2 (by decide)).2 (by decide)⟩

end Arcade.Proofs.Allocation
