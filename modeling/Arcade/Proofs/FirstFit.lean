import Arcade.Proofs.AllocatorSafety
import Arcade.Proofs.ItemBytes
import Arcade.Proofs.TrackedBytes

/-! Where a block is placed and what it holds. The first free range that is large enough is used, or else the
bytes at the high-water mark. The initial values are the first elements of the block, and its other bytes
are zero or what they were. This needs ids that tell blocks apart, and the ids of a long run repeat. -/

namespace Arcade.Proofs
open Arcade.Memory

variable {type : ElementType} {values converted : List Value} {before rest : List UInt8} {index : Nat}

/-! ### Initial values -/

/-- The values as they are converted to the type. -/
abbrev CastTo (type : ElementType) : List Value → List Value → Prop :=
  List.Forall₂ fun value converted => value.cast type = .ok converted

theorem exists_castTo (casts : ∀ value ∈ values, ∃ converted, value.cast type = .ok converted) :
    ∃ converted, CastTo type values converted := by
  induction values with
  | nil => exact ⟨[], .nil⟩
  | cons value values ih =>
    obtain ⟨⟨first, cast⟩, others⟩ := List.forall_mem_cons.mp casts
    obtain ⟨converted, tail⟩ := ih others
    exact ⟨first :: converted, .cons cast tail⟩

theorem length_elements (casts : CastTo type values converted) :
    (valuesBytes converted).length = values.length * type.size := by
  induction casts with
  | nil => exact (Nat.zero_mul _).symm
  | cons cast _ ih => rw [valuesBytes_cons, List.length_append, length_encode, type_cast cast, ih,
      List.length_cons, Nat.succ_mul, Nat.add_comm]

theorem setAll_part (casts : CastTo type values converted) (place : index * type.size = before.length)
    (fits : values.length * type.size ≤ rest.length) (small : before.length + rest.length < sizeLimit) :
    Allocator.setAll index values ⟨before ++ rest, type⟩ =
      .ok ⟨before ++ valuesBytes converted ++ rest.drop (values.length * type.size), type⟩ := by
  induction casts generalizing index before rest with
  | nil => simp [Allocator.setAll, valuesBytes]
  | @cons value first values converted cast _ ih =>
    obtain rfl := type_cast cast
    rw [List.length_cons, Nat.succ_mul, Nat.add_comm] at fits
    have offset : checkedSize (index * first.type.size) = .ok before.length := by
      rw [place]
      exact if_pos (by omega)
    have stored := store_part first.type before (by omega : first.type.size ≤ rest.length)
    have set : (⟨before ++ rest, first.type⟩ : Block).set index value =
        .ok ⟨before ++ first.encode .little ++ rest.drop first.type.size, first.type⟩ :=
      Except.bind_ok.mpr ⟨_, offset, Except.bind_ok.mpr ⟨_, cast, stored⟩⟩
    rw [valuesBytes_cons, ← List.append_assoc, List.length_cons, Nat.succ_mul, Nat.add_comm, ← List.drop_drop]
    refine Except.bind_ok.mpr ⟨_, set, ih ?_ ?_ ?_⟩
    · rw [List.length_append, length_encode, Nat.succ_mul, place]
    · rw [List.length_drop]
      omega
    · rw [List.length_append, length_encode, List.length_drop]
      omega

theorem get_part {start : Nat} {value : Value} (casts : CastTo type values converted)
    (place : start * type.size = before.length) (here : values[index]? = some value)
    (small : before.length + values.length * type.size < sizeLimit) :
    ∃ kept, value.cast type = .ok kept ∧
      (⟨before ++ valuesBytes converted ++ rest, type⟩ : Block).get (start + index) = .ok (keptValue kept) := by
  induction casts generalizing start index before with
  | nil => cases here
  | @cons value first values converted cast _ ih =>
    rw [List.length_cons, Nat.succ_mul] at small
    rw [valuesBytes_cons, ← List.append_assoc]
    cases index with
    | zero =>
      cases here
      obtain rfl := type_cast cast
      have offset : checkedSize (start * first.type.size) = .ok before.length := by
        rw [place]
        exact if_pos (by omega)
      refine ⟨first, cast, Except.bind_ok.mpr ⟨_, offset, ?_⟩⟩
      rw [List.append_assoc]
      exact load_part first.type before _ first
    | succ index =>
      have length : (before ++ first.encode .little).length = before.length + type.size := by
        rw [List.length_append, length_encode, type_cast cast]
      have next : (start + 1) * type.size = (before ++ first.encode .little).length := by
        rw [length, Nat.succ_mul, place]
      obtain ⟨kept, same, read⟩ := ih next here (by omega)
      rw [Nat.add_right_comm] at read
      exact ⟨kept, same, read⟩

namespace Allocation

variable {config : Config} {history : History} {allocator before after middle : Allocator} {handle : Handle}
  {range : Tracked} {front behind : List Tracked} {type : ElementType} {initial : List Value} {size count n : Nat}

/-- A block for `n` elements that had the bytes `old` before the first elements were set. -/
structure Filled (type : ElementType) (n : Nat) (initial : List Value) (old : List UInt8) (block : Block) : Prop where
  typed : block.type = type
  length : block.bytes.length = n * type.size
  set : ∀ index value, index < n → initial[index]? = some value →
    ∃ converted, value.cast type = .ok converted ∧ block.get index = .ok (keptValue converted)
  kept : ∀ place, min initial.length n * type.size ≤ place → block.bytes[place]? = old[place]?

theorem setAll_fills {old : List UInt8} (length : old.length = n * type.size) (small : old.length < sizeLimit)
    (casts : ∀ value ∈ initial.take n, ∃ converted, value.cast type = .ok converted) :
    ∃ block, Allocator.setAll 0 (initial.take n) ⟨old, type⟩ = .ok block ∧ Filled type n initial old block := by
  obtain ⟨converted, casts⟩ := exists_castTo casts
  have used : (initial.take n).length = min initial.length n := by rw [List.length_take, Nat.min_comm]
  have fits : (initial.take n).length * type.size ≤ old.length :=
    length ▸ Nat.mul_le_mul_right _ (used ▸ Nat.min_le_right _ _)
  have done := setAll_part casts (Nat.zero_mul _) fits (by rwa [List.length_nil, Nat.zero_add])
  refine ⟨_, done, rfl, ?_, fun index value inside here => ?_, fun place beyond => ?_⟩
  · rw [← length]
    exact (shape_setAll done).length
  · rw [← List.getElem?_take_of_lt inside] at here
    obtain ⟨kept, cast, read⟩ := get_part casts (Nat.zero_mul _) here (by rw [List.length_nil]; omega)
    rw [Nat.zero_add] at read
    exact ⟨kept, cast, read⟩
  · rw [← used, ← length_elements casts] at beyond
    rw [List.nil_append, ← length_elements casts, List.getElem?_append_right beyond, List.getElem?_drop]
    congr 1
    omega

/-! ### Ids -/

def ids (allocator : Allocator) : List UInt32 := allocator.ranges.map (·.id)

/-- No two tracked ranges have the same id, and none has the next one. -/
structure Distinct (allocator : Allocator) : Prop where
  nodup : (ids allocator).Nodup
  fresh : allocator.nextId ∉ ids allocator

/-- The ids were counted up to the next one, which is no more than `issued`. -/
structure Numbered (issued : Nat) (allocator : Allocator) : Prop where
  nodup : (ids allocator).Nodup
  low : ∀ id ∈ ids allocator, id.toNat < allocator.nextId.toNat
  bound : allocator.nextId.toNat ≤ issued

theorem Numbered.distinct {issued : Nat} (numbered : Numbered issued allocator) : Distinct allocator :=
  ⟨numbered.nodup, fun known => ne_next (numbered.low _ known) rfl⟩

/-- An operation hands out the next id, or it hands out none. -/
theorem step_ids {event : Event} (step : Step before event after) :
    (ids after).Sublist (ids before) ∧ after.nextId = before.nextId ∨
      allocations (event :: history) = allocations history + 1 ∧
        ids after = ids before ++ [before.nextId] ∧ after.nextId = before.nextId + 1 := by
  cases step with
  | placed done =>
    obtain ⟨middle, placed, updated⟩ := alloc_ok done
    obtain ⟨_, _, _, _, rfl⟩ := update_ok updated
    obtain ⟨front, range, behind, ranges, _, _, _, _, rfl⟩ | ⟨_, _, _, rfl⟩ := place_cases placed
    · unfold restOf
      split
      next => exact .inl ⟨by simp [ids, ranges, takenRange], rfl⟩
      next => exact .inr ⟨rfl, by simp [ids, ranges, takenRange], rfl⟩
    · exact .inr ⟨rfl, by simp [ids, freshRange], rfl⟩
  | refused | seen => exact .inl ⟨.refl _, rfl⟩
  | freed done =>
    obtain ⟨front, range, behind, ranges, _, rfl⟩ := free_ok done
    exact .inl ⟨by simp [ids, ranges], rfl⟩
  | collected => exact .inl ⟨List.filter_sublist.map _, rfl⟩
  | ticked time =>
    unfold Allocator.tick
    split
    · exact .inl ⟨.refl _, rfl⟩
    · exact .inl ⟨List.filter_sublist.map _, rfl⟩
  | written done =>
    obtain ⟨_, _, _, _, rfl⟩ := update_ok done
    exact .inl ⟨.refl _, rfl⟩

theorem Numbered.step {event : Event} (numbered : Numbered (allocations history) before)
    (step : Step before event after) (few : allocations (event :: history) < UInt32.size) :
    Numbered (allocations (event :: history)) after := by
  obtain ⟨nodup, low, bound⟩ := numbered
  obtain ⟨kept, same⟩ | ⟨count, added, next⟩ := step_ids step
  · refine ⟨nodup.sublist kept, fun id known => ?_, ?_⟩
    · rw [same]
      exact low id (kept.subset known)
    · rw [same]
      exact bound.trans (allocations_le event history)
  · rw [count] at few ⊢
    have counted : after.nextId.toNat = before.nextId.toNat + 1 := next ▸ toNat_next bound few
    refine ⟨?_, fun id known => ?_, by omega⟩
    · rw [added, ← List.concat_eq_append]
      exact nodup.concat fun known => ne_next (low _ known) rfl
    · rw [added] at known
      obtain old | new := List.mem_append.mp known
      · exact counted ▸ Nat.lt_succ_of_lt (low id old)
      · rw [List.mem_singleton.mp new]
        omega

theorem Run.numbered (run : Run config history allocator) (few : allocations history < UInt32.size) :
    Numbered (allocations history) allocator := by
  induction run with
  | start => exact ⟨List.nodup_nil, nofun, Nat.le_refl _⟩
  | step _ step ih => exact (ih (Nat.lt_of_le_of_lt (allocations_le ..) few)).step step few

/-! ### Placement -/

/-- The allocator once a free range is handed out again. -/
def reusing (before : Allocator) (front : List Tracked) (range : Tracked) (behind : List Tracked)
    (type : ElementType) (size : Nat) : Allocator where
  ram := before.ram
  ranges := front ++ takenRange range type size :: behind ++ restOf range size before.nextId
  nextId := if range.length - size = 0 then before.nextId else before.nextId + 1
  interval := before.interval
  lastCollection := before.lastCollection

/-- The allocator once a zeroed range is handed out at the high-water mark. -/
def extending (before : Allocator) (type : ElementType) (size : Nat) : Allocator where
  ram := writeBytes before.ram before.highWater (List.replicate size 0)
  ranges := before.ranges ++ [freshRange before type size]
  nextId := before.nextId + 1
  interval := before.interval
  lastCollection := before.lastCollection

/-- No range before this one is free and large enough, but this one is. -/
structure FirstFree (size : Nat) (front : List Tracked) (range : Tracked) : Prop where
  free : range.active = false
  large : size ≤ range.length
  earlier : ∀ other ∈ front, other.active = false → other.length < size

theorem place_reuses (ranges : before.ranges = front ++ range :: behind) (first : FirstFree size front range) :
    before.place type size =
      .ok ((takenRange range type size).handle, reusing before front range behind type size) := by
  obtain ⟨free, large, earlier⟩ := first
  have place : before.ranges.findIdx? (fun range => !range.active && size ≤ range.length) = some front.length := by
    have skipped : front.findIdx? (fun range => !range.active && size ≤ range.length) = none := by
      simpa [List.findIdx?_eq_none_iff] using earlier
    simp [ranges, List.findIdx?_append, skipped, List.findIdx?_cons, free, large]
  have there : before.ranges[front.length]? = some range := by simp [ranges]
  have put (taken : Tracked) : before.ranges.set front.length taken = front ++ taken :: behind := by simp [ranges]
  unfold Allocator.place Allocator.reuse? reusing restOf
  simp only [place, there, put]
  by_cases whole : range.length - size = 0
  · simp only [if_pos whole, List.append_nil]
    rfl
  · simp only [if_neg whole]
    rfl

theorem place_extends (full : ∀ range ∈ before.ranges, range.active = false → range.length < size) :
    before.place type size = before.extend type size := by
  unfold Allocator.place
  obtain ⟨none, _⟩ | ⟨_, range, _, ranges, free, large, _⟩ :=
    reuse?_cases (rfl : before.reuse? type size = _)
  · rw [none]
  · exact absurd (full range (by simp [ranges]) free) (Nat.not_lt_of_le large)

theorem place_extending (full : ∀ range ∈ before.ranges, range.active = false → range.length < size)
    (room : before.highWater + size ≤ before.capacity) :
    before.place type size = .ok ((freshRange before type size).handle, extending before type size) := by
  rw [place_extends full]
  refine if_neg (?_ : ¬ before.capacity - before.highWater < size)
  omega

/-! ### Allocations -/

/-- The range is the first tracked one with its id, and so the one that its handle finds. -/
def FirstWithId (allocator : Allocator) (range : Tracked) : Prop :=
  allocator.ranges.find? (·.id = range.id) = some range

/-- The allocation hands out a range, whose bytes were `old` before the initial values were set, and goes on as
`placed`. If no range before it has its id, only values that cannot be converted keep it from an answer. -/
structure HandsOut (before : Allocator) (type : ElementType) (count n : Nat) (initial : List Value)
    (range : Tracked) (placed : Allocator) (old : List UInt8) : Prop where
  sound : ∀ answer, before.alloc type count initial = .ok answer →
    ∃ ram, answer = .ok (range.handle, { placed with ram })
  first : Distinct before → FirstWithId placed range
  complete : FirstWithId placed range → (∀ value ∈ initial.take n, ∃ converted, value.cast type = .ok converted) →
    ∃ after block, before.alloc type count initial = .ok (.ok (range.handle, after)) ∧
      after.view range.handle = .ok block ∧ Filled type n initial old block ∧
      ∀ place, place < range.offset ∨ range.stop ≤ place → after.ram[place]? = before.ram[place]?

/-- The bytes that are asked for. -/
abbrev blockSize (type : ElementType) (count : Nat) : Nat := Allocator.roundedCount count * type.size

abbrev Countable (type : ElementType) (count : Nat) : Prop :=
  ¬ (sizeLimit ≤ max count 1 + 3 ∨ sizeLimit ≤ blockSize type count)

theorem alloc_placed (small : Countable type count) (initial : List Value)
    (placed : before.place type (blockSize type count) = .ok (handle, middle)) :
    before.alloc type count initial =
      (middle.update handle (Allocator.setAll 0 (initial.take (Allocator.roundedCount count)))).map
        fun after => .ok (handle, after) := by
  unfold Allocator.alloc
  simp only [if_neg small, placed]
  rfl

theorem FirstWithId.find (first : FirstWithId allocator range) (active : range.active = true) :
    allocator.find range.handle = .ok range := find_ok.mpr ⟨first, active, rfl⟩

theorem handsOut (range : Tracked) (small : Countable range.type count) (initial : List Value)
    (placed : before.place range.type (blockSize range.type count) = .ok (range.handle, middle))
    (length : range.length = blockSize range.type count) (inside : range.stop ≤ middle.capacity)
    (active : range.active = true) (first : Distinct before → FirstWithId middle range)
    (outside : ∀ place, place < range.offset ∨ range.stop ≤ place → middle.ram[place]? = before.ram[place]?) :
    HandsOut before range.type count (Allocator.roundedCount count) initial range middle
      (readBytes middle.ram range.offset range.length) := by
  have allocates := alloc_placed small initial placed
  have held : (readBytes middle.ram range.offset range.length).length = range.length := length_readBytes inside
  refine ⟨fun answer allocated => ?_, first, fun first casts => ?_⟩
  · rw [allocates] at allocated
    cases updated : middle.update range.handle
        (Allocator.setAll 0 (initial.take (Allocator.roundedCount count))) with
    | error fault =>
      rw [updated] at allocated
      cases allocated
    | ok after =>
      rw [updated] at allocated
      obtain ⟨_, block, _, _, rfl⟩ := update_ok updated
      cases allocated
      exact ⟨_, rfl⟩
  · have found := first.find active
    have small : (readBytes middle.ram range.offset range.length).length < sizeLimit := by omega
    obtain ⟨block, set, filled⟩ := setAll_fills (held.trans length) small casts
    have size : block.bytes.length = range.length := filled.length.trans length.symm
    have stop : range.offset + block.bytes.length = range.stop := by rw [size, Tracked.stop]
    have viewed := readBytes_writeBytes (stop.trans_le inside)
    rw [update_eq found set] at allocates
    refine ⟨_, block, allocates, ?_, filled, fun place out => ?_⟩
    · have again : Allocator.find { middle with ram := writeBytes middle.ram range.offset block.bytes }
          range.handle = .ok range := found
      rw [view_eq again, ← size, viewed, ← filled.typed]
    · rw [← outside place out]
      exact getElem?_writeBytes_outside (stop ▸ out)

theorem firstWithId_of_ranges (ranges : allocator.ranges = front ++ range :: behind)
    (others : range.id ∉ front.map (·.id)) : FirstWithId allocator range := by
  refine List.find?_eq_some_iff_append.mpr ⟨decide_eq_true rfl, front, behind, ranges, fun other isEarlier => ?_⟩
  have differs : other.id ≠ range.id := fun same => others (List.mem_map.mpr ⟨other, isEarlier, same⟩)
  show (!decide (other.id = range.id)) = true
  simpa using differs

theorem firstWithId_extending (fresh : before.nextId ∉ ids before) :
    FirstWithId (extending before type size) (freshRange before type size) := firstWithId_of_ranges rfl fresh

theorem reusing_handsOut (good : WellFormed before) (ranges : before.ranges = front ++ range :: behind)
    (first : FirstFree (blockSize type count) front range) (small : Countable type count) (initial : List Value) :
    HandsOut before type count (Allocator.roundedCount count) initial (takenRange range type (blockSize type count))
      (reusing before front range behind type (blockSize type count))
      (readBytes before.ram range.offset (blockSize type count)) := by
  have inside : range.offset + range.length ≤ before.capacity := (good.sound range (by simp [ranges])).inside
  refine handsOut (takenRange range type (blockSize type count)) small initial (place_reuses ranges first) rfl
    ((Nat.add_le_add_left first.large _).trans inside) rfl (fun distinct => ?_) fun _ _ => rfl
  have nodup := distinct.nodup
  rw [ids, ranges, List.map_append, List.nodup_append'] at nodup
  exact firstWithId_of_ranges (List.append_assoc ..) fun earlier => nodup.2.2 earlier List.mem_cons_self

theorem extending_handsOut
    (full : ∀ range ∈ before.ranges, range.active = false → range.length < blockSize type count)
    (room : before.highWater + blockSize type count ≤ before.capacity) (small : Countable type count)
    (initial : List Value) :
    HandsOut before type count (Allocator.roundedCount count) initial (freshRange before type (blockSize type count))
      (extending before type (blockSize type count)) (List.replicate (blockSize type count) 0) := by
  have zeros : (List.replicate (blockSize type count) (0 : UInt8)).length = blockSize type count :=
    List.length_replicate
  have zeroed := readBytes_writeBytes (zeros.symm ▸ room : _ ≤ before.ram.size)
  rw [zeros] at zeroed
  rw [← zeroed]
  refine handsOut (freshRange before type (blockSize type count)) small initial (place_extending full room) rfl ?_
    rfl (fun distinct => ?_) fun place out => ?_
  · exact room.trans (size_writeBytes ..).ge
  · exact firstWithId_extending distinct.fresh
  · refine getElem?_writeBytes_outside ?_
    rw [zeros]
    exact out

/-! ### Ids that are used up -/

/-- A new block without initial values is zeroed, and nothing else happens. -/
theorem alloc_zeroed (full : ∀ range ∈ before.ranges, range.active = false → range.length < blockSize type count)
    (room : before.highWater + blockSize type count ≤ before.capacity) (small : Countable type count)
    (fresh : before.nextId ∉ ids before) :
    before.alloc type count [] = .ok (.ok ((freshRange before type (blockSize type count)).handle,
      extending before type (blockSize type count))) := by
  have inside : (freshRange before type (blockSize type count)).stop ≤
      (extending before type (blockSize type count)).ram.size := room.trans (size_writeBytes ..).ge
  have updated : (extending before type (blockSize type count)).update
      (freshRange before type (blockSize type count)).handle (Allocator.setAll 0 []) =
        .ok (extending before type (blockSize type count)) :=
    update_same ((firstWithId_extending fresh).find rfl) inside rfl
  rw [alloc_placed small [] (place_extending full room), List.take_nil, updated]
  rfl

theorem free_extending (fresh : before.nextId ∉ ids before) :
    (extending before type size).free (freshRange before type size).handle = .ok { extending before type size with
      ranges := before.ranges ++ [{ freshRange before type size with active := false }] } :=
  free_eq rfl ((firstWithId_extending fresh).find rfl) fun other member same =>
    fresh (List.mem_map.mpr ⟨other, member, same⟩)

theorem collect_last (ranges : allocator.ranges = front ++ [range]) (used : ∀ range ∈ front, range.active = true)
    (free : range.active = false) : allocator.collect.2 = { allocator with ranges := front } := by
  simp [Allocator.collect, ranges, List.filter_eq_self.mpr used, free]

/-- A round in which a block is allocated, freed and collected beside blocks in use takes an id and leaves them be. -/
theorem Run.round (run : Run config history before) (owns : Owns history)
    (used : ∀ range ∈ before.ranges, range.active = true)
    (room : before.highWater + blockSize type count ≤ before.capacity) (small : Countable type count)
    (fresh : before.nextId ∉ ids before) :
    ∃ later, Run config later { before with
        ram := writeBytes before.ram before.highWater (List.replicate (blockSize type count) 0)
        nextId := before.nextId + 1 } ∧
      Owns later ∧ allocations later = allocations history + 1 := by
  have full : ∀ range ∈ before.ranges, range.active = false → range.length < blockSize type count :=
    fun range member free => absurd (used range member) (by simp [free])
  have allocated := alloc_zeroed full room small fresh
  have ran := Run.step (.step (.step run (.placed allocated)) (.freed (free_extending fresh))) .collected
  rw [collect_last rfl used rfl] at ran
  refine ⟨_, ran, ?_, rfl⟩
  simpa [Owns, Event.access?, handles] using owns

/-- One block of four bytes is in use, in a memory of twelve. -/
def besideOne (nextId : UInt32) : Allocator := ⟨Array.replicate 12 0, [⟨0, 0, 0, 4, .u8, true⟩], nextId, 0, 0⟩

theorem run_besideOne (few : n < UInt32.size) : ∃ history, Run ⟨12, 0⟩ history (besideOne (.ofNat (n + 1))) ∧
    Owns history ∧ allocations history = n + 1 := by
  induction n with
  | zero =>
    have first : (Allocator.ofConfig ⟨12, 0⟩).alloc .u8 1 [] = .ok (.ok (⟨0, 0, 0, 4, .u8⟩, besideOne 1)) := rfl
    exact ⟨_, .step .start (.placed first), ⟨nofun, trivial⟩, rfl⟩
  | succ n ih =>
    obtain ⟨history, run, owns, count⟩ := ih (Nat.lt_of_succ_lt few)
    -- the next id is that of the block only once the count wraps
    have fresh : UInt32.ofNat (n + 1) ∉ ids (besideOne (.ofNat (n + 1))) := by
      intro known
      have zero := congrArg UInt32.toNat (List.mem_singleton.mp known)
      rw [UInt32.toNat_ofNat_of_lt' few] at zero
      cases zero
    have room : (besideOne (.ofNat (n + 1))).highWater + blockSize .u8 1 ≤ (besideOne (.ofNat (n + 1))).capacity :=
      Nat.le_of_ble_eq_true rfl
    obtain ⟨later, ran, owned, counted⟩ := run.round owns (List.forall_mem_singleton.mpr rfl) room (by decide) fresh
    refine ⟨later, ?_, owned, counted.trans (congrArg Nat.succ count)⟩
    rw [UInt32.ofNat_add]
    exact ran

/-! ### First fit -/

/-- In every state that a run leads to, an allocation is first fit. `n` is the number of elements rounded up to a
multiple of four. An allocation that fails has no state after it. Until the ids are used up they are distinct. -/
theorem alloc_first_fit (run : Run config history allocator) (type : ElementType) (initial : List Value)
    (multiple : 4 ∣ n) (rounded : max count 1 ≤ n ∧ n < max count 1 + 4) :
    let size := n * type.size
    let available := allocator.capacity - allocator.highWater
    (allocations history < UInt32.size → Distinct allocator) ∧
    if sizeLimit ≤ n ∨ sizeLimit ≤ size then
      allocator.alloc type count initial = .ok (.error ⟨sizeLimit - 1, available⟩)
    else
      (∀ front range behind, allocator.ranges = front ++ range :: behind → FirstFree size front range →
        (reusing allocator front range behind type size).highWater = allocator.highWater ∧
        HandsOut allocator type count n initial (takenRange range type size)
          (reusing allocator front range behind type size) (readBytes allocator.ram range.offset size)) ∧
      ((∀ range ∈ allocator.ranges, range.active = false → range.length < size) →
        if allocator.highWater + size ≤ allocator.capacity then
          HandsOut allocator type count n initial (freshRange allocator type size) (extending allocator type size)
            (List.replicate size 0)
        else allocator.alloc type count initial = .ok (.error ⟨size, available⟩)) := by
  intro size available
  obtain rfl : Allocator.roundedCount count = n := by
    unfold Allocator.roundedCount
    omega
  have limit : sizeLimit ≤ Allocator.roundedCount count ↔ sizeLimit ≤ max count 1 + 3 := by
    rw [show sizeLimit = 18446744073709551616 from rfl]
    omega
  refine ⟨fun few => (run.numbered few).distinct, ?_⟩
  split
  next large => exact if_pos (large.imp_left limit.mp)
  next small =>
    have small : Countable type count := mt (Or.imp_left limit.mpr) small
    refine ⟨fun front range behind ranges first => ?_, fun full => ?_⟩
    · have good := run.wellFormed.1
      refine ⟨good.highWater_eq (good.place (fits_rounded type count) (place_reuses ranges first)).1 ?_,
        reusing_handsOut good ranges first small initial⟩
      rw [ranges]
      exact places_replace (places_parts first.large _)
    split
    next room => exact extending_handsOut full room small initial
    next tight =>
      have low := run.wellFormed.1.highWater_le
      have refused : allocator.place type size = .error ⟨size, available⟩ := by
        rw [place_extends full]
        refine if_pos (?_ : allocator.capacity - allocator.highWater < size)
        omega
      unfold Allocator.alloc
      simp only [if_neg small]
      rw [refused]

/-- The second of two free blocks is large enough, and is split. -/
theorem alloc_first_fit_of_split : ∃ history allocator after block, Run ⟨16, 0⟩ history allocator ∧
    allocator.ranges = [⟨0, 0, 0, 4, .u8, false⟩, ⟨1, 0, 4, 12, .u8, false⟩] ∧ allocator.highWater = 16 ∧
    allocator.alloc .u8 5 [.i16 263] = .ok (.ok (⟨1, 1, 4, 8, .u8⟩, after)) ∧
    after.ranges = [⟨0, 0, 0, 4, .u8, false⟩, ⟨1, 1, 4, 8, .u8, true⟩, ⟨2, 0, 12, 4, .u8, false⟩] ∧
    after.view ⟨1, 1, 4, 8, .u8⟩ = .ok block ∧ block.get 0 = .ok (.u8 7) := by
  have small : (Allocator.ofConfig ⟨16, 0⟩).alloc .u8 1 [] = .ok (.ok (⟨0, 0, 0, 4, .u8⟩,
      ⟨Array.replicate 16 0, [⟨0, 0, 0, 4, .u8, true⟩], 1, 0, 0⟩)) := rfl
  have large : Allocator.alloc ⟨Array.replicate 16 0, [⟨0, 0, 0, 4, .u8, true⟩], 1, 0, 0⟩ .u8 9 [] =
      .ok (.ok (⟨1, 0, 4, 12, .u8⟩, ⟨Array.replicate 16 0,
        [⟨0, 0, 0, 4, .u8, true⟩, ⟨1, 0, 4, 12, .u8, true⟩], 2, 0, 0⟩)) := rfl
  have first : Allocator.free ⟨Array.replicate 16 0, [⟨0, 0, 0, 4, .u8, true⟩, ⟨1, 0, 4, 12, .u8, true⟩], 2, 0, 0⟩
      ⟨0, 0, 0, 4, .u8⟩ = .ok ⟨Array.replicate 16 0,
        [⟨0, 0, 0, 4, .u8, false⟩, ⟨1, 0, 4, 12, .u8, true⟩], 2, 0, 0⟩ := rfl
  have second : Allocator.free ⟨Array.replicate 16 0, [⟨0, 0, 0, 4, .u8, false⟩, ⟨1, 0, 4, 12, .u8, true⟩], 2, 0, 0⟩
      ⟨1, 0, 4, 12, .u8⟩ = .ok ⟨Array.replicate 16 0,
        [⟨0, 0, 0, 4, .u8, false⟩, ⟨1, 0, 4, 12, .u8, false⟩], 2, 0, 0⟩ := rfl
  have run := Run.step (.step (.step (.step .start (.placed small)) (.placed large)) (.freed first)) (.freed second)
  obtain ⟨distinct, fits⟩ := alloc_first_fit run .u8 [.i16 263] (by decide : 4 ∣ 8)
    (by decide : max 5 1 ≤ 8 ∧ 8 < max 5 1 + 4)
  rw [if_neg (by decide)] at fits
  obtain ⟨_, out⟩ := fits.1 [⟨0, 0, 0, 4, .u8, false⟩] ⟨1, 0, 4, 12, .u8, false⟩ [] rfl
    ⟨rfl, by decide, by decide⟩
  obtain ⟨after, block, allocated, viewed, filled, _⟩ :=
    out.complete (out.first (distinct (by decide))) (List.forall_mem_singleton.mpr ⟨.u8 7, rfl⟩)
  obtain ⟨ram, same⟩ := out.sound _ allocated
  obtain ⟨converted, cast, read⟩ := filled.set 0 (.i16 263) (by decide) rfl
  cases cast
  cases same
  exact ⟨_, _, _, block, run, rfl, rfl, allocated, rfl, viewed, read⟩

/-- Once all ids were used, a new block gets the id of a block that is still tracked. If that one is in use its
bytes are set in place of those of the new block, and if it is free the allocation is a fault. -/
theorem alloc_fails_on_repeated_id : ∃ history after freed, Run ⟨12, 0⟩ history (besideOne 0) ∧ Owns history ∧
    allocations history = UInt32.size ∧
    (besideOne 0).alloc .u8 4 [.u8 7] = .ok (.ok (⟨0, 0, 4, 4, .u8⟩, after)) ∧
    readBytes after.ram 0 4 = [7, 0, 0, 0] ∧ readBytes after.ram 4 4 = [0, 0, 0, 0] ∧
    Step (besideOne 0) (.freed ⟨0, 0, 0, 4, .u8⟩) freed ∧
    (∀ range ∈ freed.ranges, range.active = false → range.length < 8) ∧ freed.highWater + 8 ≤ freed.capacity ∧
    freed.alloc .u8 8 [] = .error (.blockFreed 4) := by
  obtain ⟨history, run, owns, count⟩ := run_besideOne (by decide : UInt32.size - 1 < UInt32.size)
  exact ⟨history, _, _, run, owns, count, rfl, by decide, by decide, .freed rfl, by decide, by decide, rfl⟩

end Allocation
end Arcade.Proofs
