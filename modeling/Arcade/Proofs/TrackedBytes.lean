import Arcade.Proofs.AllocatorRanges

/-! Which bytes are tracked. Ranges are split and joined to no others, so what one loses another has. Only the
bytes above the high-water mark are added, and only a collection drops any. Without collections the ranges
therefore leave no gap below the mark. -/

namespace Arcade.Proofs.Allocation
open Arcade.Memory

variable {allocator before after : Allocator} {handle : Handle} {type : ElementType} {size mark : Nat}
  {ranges front behind rest : List Tracked} {range part : Tracked} {config : Config} {history : History}

/-! ### Places -/

theorem places_append (first last : List Tracked) : places (first ++ last) = places first ∪ places last := by
  induction first with
  | nil => exact (Finset.empty_union _).symm
  | cons range rest ih => rw [List.cons_append, places, places, ih, Finset.union_assoc]

/-- Parts of a range that have its bytes take its place. -/
theorem places_replace (same : places (part :: rest) = places [range]) :
    places (front ++ part :: behind ++ rest) = places (front ++ range :: behind) := by
  ext place
  have same : place ∈ places (part :: rest) ↔ place ∈ places [range] := by rw [same]
  simp only [places_append, places, Finset.mem_union, Finset.union_empty] at same ⊢
  tauto

theorem places_parts (large : size ≤ range.length) (id : UInt32) :
    places (takenRange range type size :: restOf range size id) = places [range] := by
  unfold restOf
  ext place
  split <;> simp [places, takenRange, Tracked.stop] <;> omega

theorem Apart.not_both {first last : Tracked} {place : Nat} (apart : Apart first last)
    (inside : first.offset ≤ place ∧ place < first.stop) : ¬ (last.offset ≤ place ∧ place < last.stop) := by
  unfold Apart at apart
  omega

/-- Ranges that are kept lose none of their bytes to those that are not. -/
theorem places_filter (apart : ranges.Pairwise Apart) :
    places (ranges.filter (·.active)) = places ranges \ places (ranges.filter (!·.active)) := by
  ext place
  simp only [Finset.mem_sdiff, mem_places, List.mem_filter]
  constructor
  · rintro ⟨range, ⟨tracked, active⟩, inside⟩
    refine ⟨⟨range, tracked, inside⟩, ?_⟩
    rintro ⟨other, ⟨isTracked, free⟩, within⟩
    have differs : range ≠ other := by
      rintro rfl
      simp [active] at free
    exact (apart.forall tracked isTracked differs).not_both inside within
  · rintro ⟨⟨range, tracked, inside⟩, none⟩
    refine ⟨range, ⟨tracked, ?_⟩, inside⟩
    by_contra free
    exact none ⟨range, ⟨tracked, by simpa using free⟩, inside⟩

/-- The high-water mark is the end of the tracked bytes. -/
theorem WellFormed.highWater_le_iff (good : WellFormed allocator) :
    allocator.highWater ≤ mark ↔ places allocator.ranges ⊆ Finset.range mark := by
  rw [Allocation.highWater_le_iff]
  constructor
  · intro below place inside
    obtain ⟨range, tracked, _, high⟩ := mem_places.mp inside
    exact Finset.mem_range.mpr (Nat.lt_of_lt_of_le high (below range tracked))
  · intro covered range tracked
    have positive := (good.sound range tracked).positive
    have last : range.stop - 1 ∈ places allocator.ranges := by
      refine mem_places.mpr ⟨range, tracked, ?_⟩
      unfold Tracked.stop
      omega
    have below := Finset.mem_range.mp (covered last)
    unfold Tracked.stop at below ⊢
    omega

theorem WellFormed.highWater_eq (good : WellFormed before) (goodAfter : WellFormed after)
    (same : places after.ranges = places before.ranges) : after.highWater = before.highWater :=
  eq_of_forall_ge_iff fun mark => by rw [goodAfter.highWater_le_iff, good.highWater_le_iff, same]

theorem highWater_reached (allocator : Allocator) :
    (∃ range ∈ allocator.ranges, range.stop = allocator.highWater) ∨
      allocator.ranges = [] ∧ allocator.highWater = 0 := by
  by_cases reached : ∃ range ∈ allocator.ranges, range.stop = allocator.highWater
  · exact .inl reached
  · have below : allocator.highWater ≤ allocator.highWater - 1 := by
      refine Allocation.highWater_le_iff.mpr fun range tracked => Nat.le_sub_one_of_lt ?_
      exact lt_of_le_of_ne (stop_le_highWater tracked) fun same => reached ⟨range, tracked, same⟩
    have zero : allocator.highWater = 0 := by omega
    refine .inr ⟨List.eq_nil_iff_forall_not_mem.mpr fun range tracked => reached ⟨range, tracked, ?_⟩, zero⟩
    rw [zero, ← Nat.le_zero, ← zero]
    exact stop_le_highWater tracked

/-! ### Steps -/

/-- The block is a part of a free range. -/
structure Reuses (before : Allocator) (handle : Handle) (after : Allocator) : Prop where
  part : ∃ range ∈ before.ranges, range.active = false ∧ handle.offset = range.offset ∧ handle.stop ≤ range.stop
  same : places after.ranges = places before.ranges

/-- The block goes from the old high-water mark to the new one. -/
structure Extends (before : Allocator) (handle : Handle) (after : Allocator) : Prop where
  full : ∀ range ∈ before.ranges, range.active = false → range.length < handle.length
  start : handle.offset = before.highWater
  stop : handle.stop = after.highWater
  added : places after.ranges = places before.ranges ∪ Finset.Ico before.highWater after.highWater
  apart : Disjoint (places before.ranges) (Finset.Ico before.highWater after.highWater)

/-- The free ranges are dropped, and the mark is the greatest end of the others. -/
structure Collects (before : Allocator) (count : Nat) (after : Allocator) : Prop where
  kept : after.ranges = before.ranges.filter (·.active)
  dropped : count = (before.ranges.filter (!·.active)).length
  removed : places after.ranges = places before.ranges \ places (before.ranges.filter (!·.active))
  above : ∀ range ∈ before.ranges, range.active = true → range.stop ≤ after.highWater
  reached : (∃ range ∈ before.ranges, range.active = true ∧ range.stop = after.highWater) ∨
    (∀ range ∈ before.ranges, range.active = false) ∧ after.highWater = 0

/-- What a step does to the tracked bytes. -/
def Accounts (before : Allocator) (after : Allocator) : Event → Prop
  | .placed _ _ _ handle _ => Reuses before handle after ∨ Extends before handle after
  | .freed _ => places after.ranges = places before.ranges
  | .collected count | .ticked _ (some count) => Collects before count after
  | .refused .. | .ticked _ none | .written .. | .seen .. => after.ranges = before.ranges

/-- How many ranges were dropped, if there was a collection. -/
def Event.collected? : Event → Option Nat
  | .collected count => some count
  | .ticked _ count => count
  | _ => none

theorem highWater_append (ranges : after.ranges = before.ranges ++ [range]) :
    after.highWater = max before.highWater range.stop := by
  unfold Allocator.highWater
  rw [ranges, List.foldl_append]
  rfl

theorem places_below (allocator : Allocator) : places allocator.ranges ⊆ Finset.range allocator.highWater := by
  intro place inside
  obtain ⟨range, tracked, _, high⟩ := mem_places.mp inside
  exact Finset.mem_range.mpr (Nat.lt_of_lt_of_le high (stop_le_highWater tracked))

theorem places_place (placed : before.place type size = .ok (handle, after)) :
    Reuses before handle after ∨ Extends before handle after := by
  obtain ⟨front, range, behind, ranges, free, large, _, rfl, rfl⟩ | ⟨full, _, rfl, same⟩ := place_cases placed
  · have tracked : range ∈ before.ranges := by simp [ranges]
    refine .inl ⟨⟨range, tracked, free, rfl, Nat.add_le_add_left large _⟩, ?_⟩
    rw [ranges]
    exact places_replace (places_parts large _)
  · have ranges : after.ranges = before.ranges ++ [freshRange before type size] := by rw [same]
    have stop : (freshRange before type size).stop = after.highWater := by
      rw [highWater_append ranges]
      exact (max_eq_right (Nat.le_add_right _ _)).symm
    refine .inr ⟨full, rfl, stop, ?_, ?_⟩
    · rw [ranges, places_append, ← stop]
      exact congrArg _ (Finset.union_empty _)
    · refine Finset.disjoint_of_subset_left (places_below before) ?_
      rw [Finset.range_eq_Ico]
      exact Finset.Ico_disjoint_Ico_consecutive ..

theorem WellFormed.collects (good : WellFormed before) (kept : after.ranges = before.ranges.filter (·.active)) :
    Collects before before.collect.1 after := by
  refine ⟨kept, ?_, ?_, fun range tracked active => ?_, ?_⟩
  · show before.ranges.length - (before.ranges.filter (·.active)).length = _
    rw [List.length_eq_length_filter_add (·.active), Nat.add_sub_cancel_left]
  · rw [kept]
    exact places_filter good.apart
  · exact stop_le_highWater (kept ▸ List.mem_filter.mpr ⟨tracked, active⟩)
  · obtain ⟨range, tracked, stop⟩ | ⟨none, zero⟩ := highWater_reached after
    · rw [kept] at tracked
      obtain ⟨tracked, active⟩ := List.mem_filter.mp tracked
      exact .inl ⟨range, tracked, active, stop⟩
    · rw [kept] at none
      exact .inr ⟨by simpa using List.filter_eq_nil_iff.mp none, zero⟩

theorem WellFormed.accounts {event : Event} (good : WellFormed before) (step : Step before event after) :
    Accounts before after event := by
  cases step with
  | placed done =>
    obtain ⟨middle, placed, updated⟩ := alloc_ok done
    obtain ⟨_, _, _, _, rfl⟩ := update_ok updated
    -- the initial values change no range
    obtain ⟨part, same⟩ | ⟨full, start, stop, added, apart⟩ := places_place placed
    · exact .inl ⟨part, same⟩
    · exact .inr ⟨full, start, stop, added, apart⟩
  | refused | seen => exact rfl
  | freed done =>
    obtain ⟨front, range, behind, ranges, _, rfl⟩ := free_ok done
    show places (front ++ _ :: behind) = places before.ranges
    rw [ranges, places_append, places_append, places, places]
    rfl
  | collected => exact good.collects rfl
  | ticked time =>
    unfold Allocator.tick
    split
    · exact rfl
    · exact good.collects rfl
  | written done =>
    obtain ⟨_, _, _, _, rfl⟩ := update_ok done
    rfl

/-- A step that collects nothing never lowers the mark, and leaves no gap below it. -/
theorem Accounts.kept {event : Event} (accounts : Accounts before after event) (good : WellFormed before)
    (goodAfter : WellFormed after) (quiet : event.collected? = none) :
    before.highWater ≤ after.highWater ∧
      (places before.ranges = Finset.range before.highWater → places after.ranges = Finset.range after.highWater) := by
  have unchanged (same : places after.ranges = places before.ranges) : before.highWater ≤ after.highWater ∧
      (places before.ranges = Finset.range before.highWater →
        places after.ranges = Finset.range after.highWater) := by
    rw [good.highWater_eq goodAfter same, same]
    exact ⟨Nat.le_refl _, id⟩
  cases event with
  | placed =>
    obtain ⟨_, same⟩ | ⟨_, start, stop, added, _⟩ := accounts
    · exact unchanged same
    · have higher : before.highWater ≤ after.highWater := by
        rw [← start, ← stop]
        exact Nat.le_add_right _ _
      refine ⟨higher, fun whole => ?_⟩
      rw [added, whole, Finset.range_eq_Ico, Finset.range_eq_Ico]
      exact Finset.Ico_union_Ico_eq_Ico (Nat.zero_le _) higher
  | freed => exact unchanged accounts
  | collected => cases quiet
  | ticked time count =>
    cases quiet
    exact unchanged (congrArg places accounts)
  | refused | written | seen => exact unchanged (congrArg places accounts)

/-- No tracked byte is lost or duplicated in any run. Steps account for the bytes that they add or drop, the
mark falls only by collections, and in runs without collections the ranges tile all bytes below it. -/
theorem tracked_bytes_kept (run : Run config history allocator) :
    allocator.ranges.Pairwise Apart ∧
    (∀ event after, Step allocator event after → Accounts allocator after event ∧
      (after.highWater < allocator.highWater → ∃ count, event.collected? = some count)) ∧
    ((∀ event ∈ history, event.collected? = none) →
      places allocator.ranges = Finset.range allocator.highWater) := by
  have good := run.wellFormed.1
  refine ⟨good.apart, fun event after step => ?_, fun quiet => ?_⟩
  · have accounts := good.accounts step
    refine ⟨accounts, fun lower => Option.ne_none_iff_exists'.mp fun quiet => ?_⟩
    exact absurd (accounts.kept good (good.step step).1 quiet).1 (Nat.not_le_of_lt lower)
  · induction run with
    | start => rfl
    | step run step ih =>
      obtain ⟨quiet, earlier⟩ := List.forall_mem_cons.mp quiet
      have before := run.wellFormed.1
      exact ((before.accounts step).kept before (before.step step).1 quiet).2 (ih before earlier)

/-- A block is freed and split. A collection drops what was left of it. -/
theorem tracked_bytes_kept_after_split : ∃ history allocator, Run ⟨16, 0⟩ history allocator ∧
    allocator.ranges = [⟨0, 1, 0, 4, .u8, true⟩, ⟨1, 0, 4, 4, .u8, false⟩] ∧
    places allocator.ranges = Finset.range 8 ∧ Collects allocator 1 allocator.collect.2 ∧
    allocator.collect.2.highWater = 4 := by
  have large : (Allocator.ofConfig ⟨16, 0⟩).alloc .u8 5 [] = .ok (.ok (⟨0, 0, 0, 8, .u8⟩,
      ⟨Array.replicate 16 0, [⟨0, 0, 0, 8, .u8, true⟩], 1, 0, 0⟩)) := rfl
  have freed : Allocator.free ⟨Array.replicate 16 0, [⟨0, 0, 0, 8, .u8, true⟩], 1, 0, 0⟩
      ⟨0, 0, 0, 8, .u8⟩ = .ok ⟨Array.replicate 16 0, [⟨0, 0, 0, 8, .u8, false⟩], 1, 0, 0⟩ := rfl
  have small : Allocator.alloc ⟨Array.replicate 16 0, [⟨0, 0, 0, 8, .u8, false⟩], 1, 0, 0⟩ .u8 1 [] =
      .ok (.ok (⟨0, 1, 0, 4, .u8⟩, ⟨Array.replicate 16 0,
        [⟨0, 1, 0, 4, .u8, true⟩, ⟨1, 0, 4, 4, .u8, false⟩], 2, 0, 0⟩)) := rfl
  have run := Run.step (Run.step (Run.step .start (.placed large)) (.freed freed)) (.placed small)
  obtain ⟨_, steps, tiles⟩ := tracked_bytes_kept run
  exact ⟨_, _, run, rfl, tiles (by decide), (steps _ _ .collected).1, rfl⟩

end Arcade.Proofs.Allocation
