import Arcade.Proofs.MemoryBytes

/-! What the operations of the allocator do, each said once, and the runs that they make up. A run is
told by its history, so that what a program has been handed and what it has written can be read
off without the allocator. -/

namespace Arcade.Proofs
open Arcade.Memory

variable {allocator next : Allocator} {handle : Handle} {type : ElementType} {size : Nat}

/-! ### Operations -/

/-- A free range that is handed out again, cut to the given size. -/
def takenRange (range : Tracked) (type : ElementType) (size : Nat) : Tracked :=
  { range with generation := range.generation + 1, length := size, type, active := true }

/-- What is left of a range that is cut to the given size. -/
def restOf (range : Tracked) (size : Nat) (id : UInt32) : List Tracked :=
  if range.length - size = 0 then []
  else [⟨id, 0, range.offset + size, range.length - size, .u8, false⟩]

def freshRange (allocator : Allocator) (type : ElementType) (size : Nat) : Tracked :=
  ⟨allocator.nextId, 0, allocator.highWater, size, type, true⟩

theorem exists_split_of_findIdx? {α : Type} {test : α → Bool} {items : List α} {place : Nat}
    (found : items.findIdx? test = some place) :
    ∃ before item behind, items = before ++ item :: behind ∧ before.length = place ∧
      test item = true ∧ ∀ other ∈ before, test other = false := by
  obtain ⟨within, here, earlier⟩ := List.findIdx?_eq_some_iff_getElem.mp found
  refine ⟨items.take place, items[place], items.drop (place + 1), ?_, ?_, here, ?_⟩
  · rw [List.getElem_cons_drop, List.take_append_drop]
  · simp [Nat.le_of_lt within]
  · intro other member
    obtain ⟨index, inside, rfl⟩ := List.mem_iff_getElem.mp member
    rw [List.length_take] at inside
    simpa using earlier index (by omega)

theorem reuse?_cases {result : Option (Handle × Allocator)}
    (tried : allocator.reuse? type size = result) :
    (result = none ∧ ∀ range ∈ allocator.ranges, range.active = false → range.length < size) ∨
    ∃ before range behind, allocator.ranges = before ++ range :: behind ∧
      range.active = false ∧ size ≤ range.length ∧
      (∀ other ∈ before, other.active = false → other.length < size) ∧
      result = some ((takenRange range type size).handle, { allocator with
        ranges := before ++ takenRange range type size :: behind ++
          restOf range size allocator.nextId
        nextId := if range.length - size = 0 then allocator.nextId else allocator.nextId + 1 }) := by
  unfold Allocator.reuse? at tried
  split at tried
  next none =>
    refine .inl ⟨tried.symm, fun range member free => ?_⟩
    simpa [free] using List.findIdx?_eq_none_iff.mp none range member
  next place found =>
    obtain ⟨before, range, behind, ranges, rfl, fits, earlier⟩ := exists_split_of_findIdx? found
    have there : allocator.ranges[before.length]? = some range := by simp [ranges]
    have put (taken : Tracked) : allocator.ranges.set before.length taken = before ++ taken :: behind := by
      simp [ranges]
    simp only [there, put] at tried
    obtain ⟨free, large⟩ : range.active = false ∧ size ≤ range.length := by simpa using fits
    refine .inr ⟨before, range, behind, ranges, free, large, fun other member free => ?_, ?_⟩
    · simpa [free] using earlier other member
    · rw [← tried, restOf]
      split <;> simp [takenRange]

theorem extend_ok (extended : allocator.extend type size = .ok (handle, next)) :
    size ≤ allocator.available ∧ handle = (freshRange allocator type size).handle ∧
      next = { allocator with
        ram := writeBytes allocator.ram allocator.highWater (List.replicate size 0)
        ranges := allocator.ranges ++ [freshRange allocator type size]
        nextId := allocator.nextId + 1 } := by
  unfold Allocator.extend at extended
  split at extended
  next => cases extended
  next fits =>
    cases extended
    exact ⟨Nat.le_of_not_lt fits, rfl, rfl⟩

/-- A block is placed in the first free range that is large enough, of which the rest stays free,
or in a new range if there is none. -/
theorem place_cases (placed : allocator.place type size = .ok (handle, next)) :
    (∃ before range behind, allocator.ranges = before ++ range :: behind ∧
      range.active = false ∧ size ≤ range.length ∧
      (∀ other ∈ before, other.active = false → other.length < size) ∧
      handle = (takenRange range type size).handle ∧
      next = { allocator with
        ranges := before ++ takenRange range type size :: behind ++
          restOf range size allocator.nextId
        nextId := if range.length - size = 0 then allocator.nextId else allocator.nextId + 1 }) ∨
    ((∀ range ∈ allocator.ranges, range.active = false → range.length < size) ∧
      size ≤ allocator.available ∧ handle = (freshRange allocator type size).handle ∧
      next = { allocator with
        ram := writeBytes allocator.ram allocator.highWater (List.replicate size 0)
        ranges := allocator.ranges ++ [freshRange allocator type size]
        nextId := allocator.nextId + 1 }) := by
  unfold Allocator.place at placed
  obtain ⟨none, full⟩ | ⟨before, range, behind, ranges, free, large, earlier, some⟩ :=
    reuse?_cases (rfl : allocator.reuse? type size = _)
  · rw [none] at placed
    exact .inr ⟨full, extend_ok placed⟩
  · rw [some] at placed
    cases placed
    exact .inl ⟨before, range, behind, ranges, free, large, earlier, rfl, rfl⟩

/-- The range of a handle is the first one with its id, if that is in use and of its generation. -/
theorem find_ok {range : Tracked} : allocator.find handle = .ok range ↔
    allocator.ranges.find? (·.id = handle.id) = some range ∧ range.active = true ∧
      range.generation = handle.generation := by
  unfold Allocator.find
  split
  next other found =>
    rw [found, Option.some.injEq]
    split
    next good =>
      obtain ⟨active, generation⟩ : other.active = true ∧ other.generation = handle.generation := by
        simpa using good
      constructor
      · intro same
        cases same
        exact ⟨rfl, active, generation⟩
      · rintro ⟨rfl, _, _⟩
        rfl
    next bad =>
      refine ⟨nofun, ?_⟩
      rintro ⟨rfl, active, generation⟩
      simp [active, generation] at bad
  next none => simp [none]

theorem find_mem {range : Tracked} (found : allocator.find handle = .ok range) :
    range ∈ allocator.ranges ∧ range.id = handle.id := by
  have first := (find_ok.mp found).1
  exact ⟨List.mem_of_find?_eq_some first, by simpa using List.find?_some first⟩

/-- The search for the range to free stops where the search for the handle did. -/
theorem free_eq {range : Tracked} {front behind : List Tracked} (ranges : allocator.ranges = front ++ range :: behind)
    (found : allocator.find handle = .ok range) (others : ∀ other ∈ front, other.id ≠ handle.id) :
    allocator.free handle =
      .ok { allocator with ranges := front ++ { range with active := false } :: behind } := by
  have place : allocator.ranges.findIdx (·.id = handle.id) = front.length := by
    have skipped : front.findIdx (fun range => decide (range.id = handle.id)) = front.length :=
      List.findIdx_eq_length.mpr fun other member => decide_eq_false (others other member)
    have here : decide (range.id = handle.id) = true := decide_eq_true (find_mem found).2
    rw [ranges, List.findIdx_append, skipped, if_neg (Nat.lt_irrefl _), List.findIdx_cons, here]
    simp
  refine Except.bind_ok.mpr ⟨range, found, congrArg Except.ok ?_⟩
  rw [place, ranges, List.modify_eq_take_cons_drop (by simp)]
  simp

/-- Only the range of the handle changes when it is freed, and that only by being free. -/
theorem free_ok (freed : allocator.free handle = .ok next) :
    ∃ before range behind, allocator.ranges = before ++ range :: behind ∧
      allocator.find handle = .ok range ∧
      next = { allocator with ranges := before ++ { range with active := false } :: behind } := by
  obtain ⟨range, found, _⟩ := Except.bind_ok.mp freed
  obtain ⟨_, before, behind, ranges, others⟩ := List.find?_eq_some_iff_append.mp (find_ok.mp found).1
  refine ⟨before, range, behind, ranges, found, ?_⟩
  rw [free_eq ranges found fun other member => by simpa using others other member] at freed
  exact (Except.ok.inj freed).symm

theorem view_eq {range : Tracked} (found : allocator.find handle = .ok range) :
    allocator.view handle = .ok ⟨readBytes allocator.ram range.offset range.length, range.type⟩ := by
  unfold Allocator.view
  rw [found]
  rfl

theorem update_ok {change : Block → Except Fault Block}
    (updated : allocator.update handle change = .ok next) :
    ∃ range block, allocator.find handle = .ok range ∧
      change ⟨readBytes allocator.ram range.offset range.length, range.type⟩ = .ok block ∧
      next = { allocator with ram := writeBytes allocator.ram range.offset block.bytes } := by
  obtain ⟨range, found, updated⟩ := Except.bind_ok.mp updated
  obtain ⟨block, viewed, updated⟩ := Except.bind_ok.mp updated
  rw [view_eq found] at viewed
  cases viewed
  obtain ⟨after, changed, done⟩ := Except.bind_ok.mp updated
  cases done
  exact ⟨range, after, found, changed, rfl⟩

theorem update_eq {change : Block → Except Fault Block} {range : Tracked} {block : Block}
    (found : allocator.find handle = .ok range)
    (changed : change ⟨readBytes allocator.ram range.offset range.length, range.type⟩ = .ok block) :
    allocator.update handle change =
      .ok { allocator with ram := writeBytes allocator.ram range.offset block.bytes } :=
  Except.bind_ok.mpr ⟨range, found, Except.bind_ok.mpr ⟨_, view_eq found,
    Except.bind_ok.mpr ⟨block, changed, rfl⟩⟩⟩

theorem update_same {change : Block → Except Fault Block} {range : Tracked} (found : allocator.find handle = .ok range)
    (inside : range.offset + range.length ≤ allocator.ram.size)
    (same : change ⟨readBytes allocator.ram range.offset range.length, range.type⟩ =
      .ok ⟨readBytes allocator.ram range.offset range.length, range.type⟩) :
    allocator.update handle change = .ok allocator := by
  rw [update_eq found same, writeBytes_readBytes inside]

theorem alloc_ok {count : Nat} {initial : List Value}
    (allocated : allocator.alloc type count initial = .ok (.ok (handle, next))) :
    ∃ placed, allocator.place type (Allocator.roundedCount count * type.size) = .ok (handle, placed) ∧
      placed.update handle
        (Change.setAll (initial.take (Allocator.roundedCount count))).run = .ok next := by
  unfold Allocator.alloc at allocated
  dsimp only at allocated
  split at allocated
  · cases allocated
  · split at allocated
    next => cases allocated
    next placed found =>
      obtain ⟨after, updated, done⟩ := Except.bind_ok.mp allocated
      cases done
      exact ⟨_, found, updated⟩

/-! ### Runs -/

namespace Allocation

/-- What a program asks of the allocator, with the answer that it gets. An allocation is told
together with the bytes that its block starts out with. -/
inductive Event
  | placed (type : ElementType) (count : Nat) (initial : List Value) (handle : Handle)
      (bytes : List UInt8)
  | refused (type : ElementType) (count : Nat) (initial : List Value) (failure : OutOfMemory)
  | freed (handle : Handle)
  | collected (count : Nat)
  | ticked (time : Nat) (count : Option Nat)
  | written (handle : Handle) (change : Change)
  | seen (handle : Handle) (block : Block)

/-- One operation. An operation that is a fault, such as an access to a freed block, ends the program
and has no step. -/
inductive Step (before : Allocator) : Event → Allocator → Prop
  | placed {type count initial handle after}
      (done : before.alloc type count initial = .ok (.ok (handle, after))) :
      Step before
        (.placed type count initial handle (readBytes after.ram handle.offset handle.length)) after
  | refused {type count initial failure}
      (done : before.alloc type count initial = .ok (.error failure)) :
      Step before (.refused type count initial failure) before
  | freed {handle after} (done : before.free handle = .ok after) : Step before (.freed handle) after
  | collected : Step before (.collected before.collect.1) before.collect.2
  | ticked (time : Nat) : Step before (.ticked time (before.tick time).1) (before.tick time).2
  | written {handle after} {change : Change} (done : before.update handle change.run = .ok after) :
      Step before (.written handle change) after
  | seen {handle block} (done : before.view handle = .ok block) : Step before (.seen handle block) before

/-- What happened, the latest event first. -/
abbrev History := List Event

inductive Run (config : Config) : History → Allocator → Prop
  | start : Run config [] (.ofConfig config)
  | step {history before event after} (run : Run config history before)
      (step : Step before event after) : Run config (event :: history) after

end Allocation
end Arcade.Proofs
