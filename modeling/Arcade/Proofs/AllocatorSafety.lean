import Arcade.Proofs.AllocatorRanges
import Arcade.Proofs.LiveHandles

/-! No run of the allocator leaves its memory, and only values that cannot be converted keep an
allocation from an answer. -/

namespace Arcade.Proofs.Allocation
open Arcade.Memory

variable {allocator before after : Allocator} {handle : Handle} {range : Tracked} {history : History}
  {type : ElementType} {size : Nat}

/-! ### Accesses -/

/-- No part of the memory that an operation reads or writes leaves it: not the block of a handle, not a
new range that is zeroed, and not the block that initial values are written to. -/
structure Contained (allocator : Allocator) : Prop where
  block : ∀ handle range, allocator.find handle = .ok range → range.stop ≤ allocator.capacity
  zeroed : ∀ type count handle next,
    allocator.extend type (Allocator.roundedCount count * type.size) = .ok (handle, next) →
      handle.stop ≤ allocator.capacity
  initial : ∀ type count handle placed range,
    allocator.place type (Allocator.roundedCount count * type.size) = .ok (handle, placed) →
      placed.find handle = .ok range → range.stop ≤ placed.capacity

theorem WellFormed.contained (good : WellFormed allocator) : Contained allocator := by
  refine ⟨fun handle range => good.find_inside, ?_, ?_⟩
  · intro type count handle next extended
    obtain ⟨room, rfl, _⟩ := extend_ok extended
    have low := good.highWater_le
    unfold Allocator.available at room
    show allocator.highWater + Allocator.roundedCount count * type.size ≤ allocator.capacity
    omega
  · intro type count handle placed range done found
    exact (good.place (fits_rounded type count) done).1.find_inside found

/-! ### Allocations -/

theorem place_handle (placed : before.place type size = .ok (handle, after)) :
    handle.length = size ∧ handle.type = type := by
  obtain ⟨front, range, behind, _, _, _, _, rfl, _⟩ | ⟨_, _, rfl, _⟩ := place_cases placed
  · exact ⟨rfl, rfl⟩
  · exact ⟨rfl, rfl⟩

theorem alloc_length {count : Nat} {initial : List Value}
    (allocated : before.alloc type count initial = .ok (.ok (handle, after))) : handle.length < sizeLimit := by
  obtain ⟨middle, placed, _⟩ := alloc_ok allocated
  unfold Allocator.alloc at allocated
  dsimp only at allocated
  split at allocated
  next => cases allocated
  next small =>
    rw [(place_handle placed).1]
    omega

theorem update_answers {change : Block → Except Fault Block} {block : Block}
    (found : before.find handle = .ok range)
    (changed : change ⟨readBytes before.ram range.offset range.length, range.type⟩ = .ok block) :
    ∃ after, before.update handle change = .ok after :=
  ⟨_, update_eq found changed⟩

/-- The initial values that an allocation uses can be converted to its type. -/
def Converts (type : ElementType) (count : Nat) (initial : List Value) : Prop :=
  ∀ value ∈ initial.take (Allocator.roundedCount count), ∃ converted, value.cast type = .ok converted

theorem alloc_answers (good : WellFormed before) (tracks : Tracks history before)
    (few : allocations history + 1 < UInt32.size) {count : Nat} {initial : List Value}
    (converts : Converts type count initial) : ∃ answer, before.alloc type count initial = .ok answer := by
  unfold Allocator.alloc
  dsimp only
  split
  next => exact ⟨_, rfl⟩
  next small =>
    split
    next => exact ⟨_, rfl⟩
    next handle middle placed =>
      have held : Tracks (.placed type count initial handle [] :: history) middle := tracks.place few placed
      obtain ⟨range, found, rfl⟩ := held.find_live (.head _)
      obtain ⟨length, rfl⟩ := place_handle placed
      have inside := (good.place (fits_rounded ..) placed).1.find_inside found
      have bytes : (readBytes middle.ram range.offset range.length).length =
          Allocator.roundedCount count * range.type.size := (length_readBytes inside).trans length
      have used : (initial.take (Allocator.roundedCount count)).length ≤ Allocator.roundedCount count :=
        List.length_take_le ..
      have room : (0 + (initial.take (Allocator.roundedCount count)).length) * range.type.size ≤
          (readBytes middle.ram range.offset range.length).length := by
        rw [bytes, Nat.zero_add]
        exact Nat.mul_le_mul_right _ used
      have limit : (readBytes middle.ram range.offset range.length).length < sizeLimit := by
        rw [bytes]
        exact Nat.lt_of_not_le fun large => small (.inr large)
      obtain ⟨block, set⟩ : ∃ block, Allocator.setAll 0 (initial.take (Allocator.roundedCount count))
          ⟨readBytes middle.ram range.offset range.length, range.type⟩ = .ok block :=
        setAll_answers room limit converts
      obtain ⟨final, updated⟩ := update_answers found set
      exact ⟨_, Except.bind_ok.mpr ⟨final, updated, rfl⟩⟩

/-! ### Every run -/

/-- In every state that a run leads to, the tracked ranges are well-formed, the bytes in use are no more
than those below the high-water mark, which does not leave the memory, and neither does any access.
Until the ids are used up, only values that cannot be converted make an allocation fault. -/
theorem run_contained {config : Config} (run : Run config history allocator) :
    allocator.capacity = config.capacity ∧ WellFormed allocator ∧
      allocator.used ≤ allocator.highWater ∧ allocator.highWater ≤ allocator.capacity ∧
      Contained allocator ∧
      (Owns history → allocations history + 1 < UInt32.size → ∀ type count initial,
        Converts type count initial → ∃ answer, allocator.alloc type count initial = .ok answer) := by
  obtain ⟨good, memory⟩ := run.wellFormed
  refine ⟨memory, good, good.used_le, good.highWater_le, good.contained, ?_⟩
  intro owns few type count initial converts
  exact alloc_answers good (run.tracks owns (Nat.lt_of_succ_lt few)) few converts

/-- A block is freed, and part of it is handed out again. -/
theorem run_contained_after_split : ∃ history allocator, Run ⟨16, 0⟩ history allocator ∧
    allocator.ranges = [⟨0, 1, 0, 4, .u8, true⟩, ⟨1, 0, 4, 4, .u8, false⟩] ∧
    allocator.capacity = 16 ∧ WellFormed allocator ∧ allocator.used ≤ allocator.highWater ∧
    allocator.highWater ≤ allocator.capacity ∧ Contained allocator ∧
    ∀ type count initial, Converts type count initial →
      ∃ answer, allocator.alloc type count initial = .ok answer := by
  have large : (Allocator.ofConfig ⟨16, 0⟩).alloc .u8 5 [] = .ok (.ok (⟨0, 0, 0, 8, .u8⟩,
      ⟨Array.replicate 16 0, [⟨0, 0, 0, 8, .u8, true⟩], 1, 0, 0⟩)) := rfl
  have freed : Allocator.free ⟨Array.replicate 16 0, [⟨0, 0, 0, 8, .u8, true⟩], 1, 0, 0⟩
      ⟨0, 0, 0, 8, .u8⟩ = .ok ⟨Array.replicate 16 0, [⟨0, 0, 0, 8, .u8, false⟩], 1, 0, 0⟩ := rfl
  have small : Allocator.alloc ⟨Array.replicate 16 0, [⟨0, 0, 0, 8, .u8, false⟩], 1, 0, 0⟩ .u8 1 [] =
      .ok (.ok (⟨0, 1, 0, 4, .u8⟩, ⟨Array.replicate 16 0,
        [⟨0, 1, 0, 4, .u8, true⟩, ⟨1, 0, 4, 4, .u8, false⟩], 2, 0, 0⟩)) := rfl
  have run := Run.step (Run.step (Run.step .start (.placed large)) (.freed freed)) (.placed small)
  obtain ⟨memory, good, used, below, contained, answers⟩ := run_contained run
  exact ⟨_, _, run, rfl, memory, good, used, below, contained,
    answers (by simp [Owns, Event.access?, handles]) (by decide)⟩

end Arcade.Proofs.Allocation
