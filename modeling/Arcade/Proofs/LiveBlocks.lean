import Arcade.Proofs.AllocatorSafety

/-! The block that a handle leads to. In every state that a run leads to it is no longer than a size can be and holds
whole elements, and a write to it that keeps its length can be seen in it. -/

namespace Arcade.Proofs.Allocation
open Arcade.Memory

variable {config : Config} {history : History} {allocator before after : Allocator} {handle : Handle}
  {block changed : Block} {change : Block → Except Fault Block}

/-- The length of every tracked range is a size. -/
def Limited (allocator : Allocator) : Prop := ∀ range ∈ allocator.ranges, range.length < sizeLimit

theorem length_restOf {range part : Tracked} {size : Nat} {id : UInt32} (isPart : part ∈ restOf range size id) :
    part.length ≤ range.length := by
  unfold restOf at isPart
  split at isPart
  next => cases isPart
  next =>
    obtain rfl := List.mem_singleton.mp isPart
    exact Nat.sub_le ..

theorem Limited.step {event : Event} (limited : Limited before) (step : Step before event after) : Limited after := by
  cases step with
  | placed done =>
    have small := alloc_length done
    obtain ⟨middle, placed, updated⟩ := alloc_ok done
    obtain ⟨_, _, _, _, rfl⟩ := update_ok updated
    obtain ⟨front, range, behind, ranges, _, _, _, rfl, rfl⟩ | ⟨_, _, rfl, rfl⟩ := place_cases placed
    · have old : range.length < sizeLimit := limited range (by simp [ranges])
      intro one tracked
      obtain isPart | isOther := mem_replace.mp tracked
      · obtain rfl | isRest := List.mem_cons.mp isPart
        · exact small
        · exact Nat.lt_of_le_of_lt (length_restOf isRest) old
      · apply limited one
        rw [ranges]
        exact List.perm_middle.mem_iff.mpr (List.mem_cons_of_mem _ isOther)
    · intro one tracked
      obtain isOther | isFresh := List.mem_append.mp tracked
      · exact limited one isOther
      · rw [List.mem_singleton.mp isFresh]
        exact small
  | freed done =>
    obtain ⟨front, range, behind, ranges, _, rfl⟩ := free_ok done
    have old : range.length < sizeLimit := limited range (by simp [ranges])
    intro one tracked
    obtain isFront | isLast := List.mem_append.mp tracked
    · exact limited one (by simp [ranges, isFront])
    · obtain rfl | isBehind := List.mem_cons.mp isLast
      · exact old
      · exact limited one (by simp [ranges, isBehind])
  | ticked time =>
    unfold Allocator.tick
    split
    · exact limited
    · exact fun one tracked => limited one (List.mem_of_mem_filter tracked)
  | collected => exact fun one tracked => limited one (List.mem_of_mem_filter tracked)
  | written done =>
    obtain ⟨_, _, _, _, rfl⟩ := update_ok done
    exact limited
  | refused | seen => exact limited

theorem Run.limited (run : Run config history allocator) : Limited allocator := by
  induction run with
  | start => exact nofun
  | step _ step ih => exact ih.step step

theorem view_ok (viewed : allocator.view handle = .ok block) : ∃ range, allocator.find handle = .ok range ∧
    block = ⟨readBytes allocator.ram range.offset range.length, range.type⟩ := by
  obtain ⟨range, found, done⟩ := Except.bind_ok.mp viewed
  cases done
  exact ⟨range, found, rfl⟩

theorem Run.view_limited (run : Run config history allocator) (viewed : allocator.view handle = .ok block) :
    block.bytes.length < sizeLimit := by
  obtain ⟨range, found, rfl⟩ := view_ok viewed
  rw [length_readBytes (run.wellFormed.1.find_inside found)]
  exact run.limited range (find_mem found).1

theorem Run.view_whole (run : Run config history allocator) (viewed : allocator.view handle = .ok block) :
    block.type.size ∣ block.bytes.length := by
  obtain ⟨range, found, rfl⟩ := view_ok viewed
  rw [length_readBytes (run.wellFormed.1.find_inside found)]
  exact (run.wellFormed.1.sound range (find_mem found).1).whole (find_ok.mp found).2.1

/-- What is written to a block is what the handle leads to afterwards. -/
theorem Run.view_update (run : Run config history before) (viewed : before.view handle = .ok block)
    (done : change block = .ok changed) (length : changed.bytes.length = block.bytes.length)
    (type : changed.type = block.type) :
    ∃ next, before.update handle change = .ok next ∧ next.view handle = .ok changed := by
  obtain ⟨range, found, rfl⟩ := view_ok viewed
  have inside := run.wellFormed.1.find_inside found
  rw [length_readBytes inside] at length
  obtain ⟨bytes, kind⟩ := changed
  obtain rfl : kind = range.type := type
  have again : ({ before with ram := writeBytes before.ram range.offset bytes } : Allocator).find handle =
    .ok range := found
  have read : readBytes (writeBytes before.ram range.offset bytes) range.offset range.length = bytes := by
    rw [← length]
    exact readBytes_writeBytes (length ▸ inside)
  refine ⟨_, update_eq found done, (view_eq again).trans ?_⟩
  rw [read]

end Arcade.Proofs.Allocation
