import Mathlib.Order.Interval.Finset.Nat
import Mathlib.Data.List.Perm.Basic
import Arcade.Proofs.AllocatorSteps

/-! The ranges that an allocator tracks. They never overlap and never leave the memory, however blocks
are split, reused and collected. Apart from writes, which do not touch the ranges, each operation
does one of three things to them: it puts parts of a range in its place, adds one at the
high-water mark, or drops some. -/

namespace Arcade.Proofs.Allocation
open Arcade.Memory

variable {allocator next before after : Allocator} {handle : Handle} {type : ElementType} {size : Nat}

/-! ### Ranges beside each other -/

def Apart (first last : Tracked) : Prop := first.stop ≤ last.offset ∨ last.stop ≤ first.offset

theorem Apart.symm {first last : Tracked} (apart : Apart first last) : Apart last first := Or.symm apart

instance : Std.Symm Apart := ⟨fun _ _ => Apart.symm⟩

def Within (part range : Tracked) : Prop := range.offset ≤ part.offset ∧ part.stop ≤ range.stop

theorem Apart.part {range part other : Tracked} (apart : Apart range other) (within : Within part range) :
    Apart part other := by
  obtain ⟨start, stop⟩ := within
  exact apart.imp (Nat.le_trans stop) (Nat.le_trans · start)

/-- Parts of a range stand in its place, one where it was and the others at the end. -/
theorem apart_replace {front behind : List Tracked} {range part : Tracked} {rest : List Tracked}
    (apart : (front ++ range :: behind).Pairwise Apart) (parts : (part :: rest).Pairwise Apart)
    (within : ∀ one ∈ part :: rest, Within one range) :
    (front ++ part :: behind ++ rest).Pairwise Apart := by
  obtain ⟨around, others⟩ : (∀ other ∈ front ++ behind, Apart range other) ∧
      (front ++ behind).Pairwise Apart :=
    List.pairwise_cons.mp ((List.perm_middle.pairwise_iff Apart.symm).mp apart)
  have regrouped : (front ++ part :: behind ++ rest).Perm (part :: rest ++ (front ++ behind)) :=
    (List.perm_middle.append_right rest).trans (List.perm_append_comm.cons part)
  refine (regrouped.pairwise_iff Apart.symm).mpr (List.pairwise_append.mpr ⟨parts, others, ?_⟩)
  intro one isPart other isOther
  exact (around other isOther).part (within one isPart)

/-! ### Bytes in use -/

theorem foldl_stop_le_iff {ranges : List Tracked} {start mark : Nat} :
    ranges.foldl (fun mark range => max mark range.stop) start ≤ mark ↔
      start ≤ mark ∧ ∀ range ∈ ranges, range.stop ≤ mark := by
  induction ranges generalizing start with
  | nil => simp
  | cons range rest ih => simp [ih, and_assoc]

theorem highWater_le_iff {mark : Nat} :
    allocator.highWater ≤ mark ↔ ∀ range ∈ allocator.ranges, range.stop ≤ mark := by
  unfold Allocator.highWater
  simp [foldl_stop_le_iff]

theorem stop_le_highWater {range : Tracked} (tracked : range ∈ allocator.ranges) :
    range.stop ≤ allocator.highWater :=
  highWater_le_iff.mp (Nat.le_refl _) range tracked

/-- The places of the bytes of ranges. -/
def places : List Tracked → Finset Nat
  | [] => ∅
  | range :: rest => Finset.Ico range.offset range.stop ∪ places rest

theorem mem_places {ranges : List Tracked} {place : Nat} :
    place ∈ places ranges ↔ ∃ range ∈ ranges, range.offset ≤ place ∧ place < range.stop := by
  induction ranges with
  | nil => simp [places]
  | cons range rest ih => simp [places, ih]

theorem card_places {ranges : List Tracked} (apart : ranges.Pairwise Apart) :
    (places ranges).card = totalLength ranges := by
  induction ranges with
  | nil => rfl
  | cons range rest ih =>
    obtain ⟨first, others⟩ := List.pairwise_cons.mp apart
    have disjoint : Disjoint (Finset.Ico range.offset range.stop) (places rest) := by
      rw [Finset.disjoint_left]
      intro place inside elsewhere
      obtain ⟨other, isOther, low, high⟩ := mem_places.mp elsewhere
      rw [Finset.mem_Ico] at inside
      rcases first other isOther with order | order <;> omega
    rw [places, Finset.card_union_of_disjoint disjoint, ih others, Nat.card_Ico, totalLength,
      Tracked.stop, Nat.add_sub_cancel_left]

theorem totalLength_le {ranges : List Tracked} {mark : Nat} (apart : ranges.Pairwise Apart)
    (below : ∀ range ∈ ranges, range.stop ≤ mark) : totalLength ranges ≤ mark := by
  have covered : places ranges ⊆ Finset.range mark := by
    intro place inside
    obtain ⟨range, isRange, _, high⟩ := mem_places.mp inside
    exact Finset.mem_range.mpr (Nat.lt_of_lt_of_le high (below range isRange))
  calc totalLength ranges = (places ranges).card := (card_places apart).symm
    _ ≤ (Finset.range mark).card := Finset.card_le_card covered
    _ = mark := Finset.card_range mark

/-! ### Well-formed allocators -/

structure Sound (capacity : Nat) (range : Tracked) : Prop where
  positive : 0 < range.length
  aligned : 4 ∣ range.length
  inside : range.stop ≤ capacity
  whole : range.active = true → range.type.size ∣ range.length

structure WellFormed (allocator : Allocator) : Prop where
  apart : allocator.ranges.Pairwise Apart
  sound : ∀ range ∈ allocator.ranges, Sound allocator.capacity range

theorem WellFormed.highWater_le (good : WellFormed allocator) : allocator.highWater ≤ allocator.capacity :=
  highWater_le_iff.mpr fun range tracked => (good.sound range tracked).inside

theorem WellFormed.used_le (good : WellFormed allocator) : allocator.used ≤ allocator.highWater := by
  apply totalLength_le (good.apart.sublist List.filter_sublist)
  intro range active
  exact stop_le_highWater (List.mem_of_mem_filter active)

theorem WellFormed.find_inside {range : Tracked} (good : WellFormed allocator)
    (found : allocator.find handle = .ok range) : range.stop ≤ allocator.capacity :=
  (good.sound range (find_mem found).1).inside

/-- The sizes that are asked for: some elements, four or more bytes at a time. -/
structure Fits (type : ElementType) (size : Nat) : Prop where
  positive : 0 < size
  aligned : 4 ∣ size
  whole : type.size ∣ size

theorem fits_rounded (type : ElementType) (count : Nat) :
    Fits type (Allocator.roundedCount count * type.size) := by
  have aligned : 4 ∣ Allocator.roundedCount count := Nat.dvd_mul_left ..
  have positive : 0 < Allocator.roundedCount count := by
    unfold Allocator.roundedCount
    omega
  have element : 0 < type.size := by cases type <;> decide
  exact ⟨Nat.mul_pos positive element, aligned.mul_right _, Nat.dvd_mul_left ..⟩

theorem Sound.parts {capacity : Nat} {range : Tracked} (old : Sound capacity range)
    (fits : Fits type size) (large : size ≤ range.length) (id : UInt32) :
    ∀ part ∈ takenRange range type size :: restOf range size id, Sound capacity part := by
  have inside : range.offset + range.length ≤ capacity := old.inside
  intro part isPart
  rcases List.mem_cons.mp isPart with rfl | isRest
  · refine ⟨fits.positive, fits.aligned, ?_, fun _ => fits.whole⟩
    exact (Nat.add_le_add_left large _).trans inside
  · unfold restOf at isRest
    split at isRest
    next => cases isRest
    next left =>
      obtain rfl := List.mem_singleton.mp isRest
      refine ⟨Nat.pos_of_ne_zero left, Nat.dvd_sub old.aligned fits.aligned, ?_, nofun⟩
      show range.offset + size + (range.length - size) ≤ capacity
      omega

theorem parts_apart (range : Tracked) (type : ElementType) (size : Nat) (id : UInt32) :
    (takenRange range type size :: restOf range size id).Pairwise Apart := by
  unfold restOf
  split <;> simp [takenRange, Apart, Tracked.stop]

theorem parts_within {range : Tracked} (large : size ≤ range.length) (id : UInt32) :
    ∀ part ∈ takenRange range type size :: restOf range size id, Within part range := by
  unfold restOf
  split <;> simp [takenRange, Within, Tracked.stop] <;> omega

theorem mem_replace {front behind rest : List Tracked} {part one : Tracked} :
    one ∈ front ++ part :: behind ++ rest ↔ one ∈ part :: rest ∨ one ∈ front ++ behind := by
  simp only [List.mem_append, List.mem_cons]
  tauto

/-! ### Steps -/

theorem WellFormed.replace {front behind rest : List Tracked} {range part : Tracked}
    (good : WellFormed before) (ranges : before.ranges = front ++ range :: behind)
    (apart : (part :: rest).Pairwise Apart) (within : ∀ one ∈ part :: rest, Within one range)
    (sound : ∀ one ∈ part :: rest, Sound before.capacity one)
    (result : after.ranges = front ++ part :: behind ++ rest)
    (memory : after.capacity = before.capacity) : WellFormed after := by
  have old := good.apart
  rw [ranges] at old
  refine ⟨result ▸ apart_replace old apart within, ?_⟩
  intro one tracked
  rw [result] at tracked
  rw [memory]
  rcases mem_replace.mp tracked with isPart | isOther
  · exact sound one isPart
  · apply good.sound one
    rw [ranges]
    exact List.perm_middle.mem_iff.mpr (List.mem_cons_of_mem _ isOther)

theorem WellFormed.place (good : WellFormed before) (fits : Fits type size)
    (placed : before.place type size = .ok (handle, after)) :
    WellFormed after ∧ after.capacity = before.capacity := by
  obtain ⟨front, range, behind, ranges, _, large, _, _, rfl⟩ | ⟨_, room, _, rfl⟩ :=
    place_cases placed
  · -- the range is replaced by the part that is taken and by what is left of it
    have old : Sound before.capacity range := good.sound range (by simp [ranges])
    refine ⟨?_, rfl⟩
    exact good.replace ranges (parts_apart range type size before.nextId) (parts_within large _)
      (old.parts fits large _) rfl rfl
  · -- all other ranges end below the high-water mark
    have memory : (writeBytes before.ram before.highWater (List.replicate size 0)).size = before.capacity :=
      size_writeBytes ..
    refine ⟨⟨List.pairwise_append.mpr ⟨good.apart, List.pairwise_singleton .., ?_⟩, ?_⟩, memory⟩
    · intro range tracked fresh isFresh
      rw [List.mem_singleton.mp isFresh]
      exact .inl (stop_le_highWater tracked)
    · intro range tracked
      show Sound (writeBytes before.ram before.highWater (List.replicate size 0)).size range
      rw [memory]
      rcases List.mem_append.mp tracked with old | isFresh
      · exact good.sound range old
      · obtain rfl := List.mem_singleton.mp isFresh
        refine ⟨fits.positive, fits.aligned, ?_, fun _ => fits.whole⟩
        show before.highWater + size ≤ before.capacity
        have low := good.highWater_le
        unfold Allocator.available at room
        omega

theorem WellFormed.keep (good : WellFormed before) (kept : after.ranges.Sublist before.ranges)
    (memory : after.capacity = before.capacity) : WellFormed after :=
  ⟨good.apart.sublist kept, fun range tracked => memory ▸ good.sound range (kept.subset tracked)⟩

theorem WellFormed.update {change : Change} (good : WellFormed before)
    (updated : before.update handle change.run = .ok after) :
    WellFormed after ∧ after.capacity = before.capacity := by
  obtain ⟨range, block, _, _, rfl⟩ := update_ok updated
  have memory : (writeBytes before.ram range.offset block.bytes).size = before.capacity :=
    size_writeBytes ..
  exact ⟨good.keep (List.Sublist.refl _) memory, memory⟩

theorem WellFormed.free (good : WellFormed before) (freed : before.free handle = .ok after) :
    WellFormed after ∧ after.capacity = before.capacity := by
  obtain ⟨front, range, behind, ranges, found, rfl⟩ := free_ok freed
  have old : Sound before.capacity range := good.sound range (by simp [ranges])
  have released : Sound before.capacity { range with active := false } :=
    ⟨old.positive, old.aligned, old.inside, nofun⟩
  refine ⟨good.replace ranges (List.pairwise_singleton ..) ?_ (by simpa using released)
    (List.append_nil _).symm rfl, rfl⟩
  intro one isPart
  obtain rfl := List.mem_singleton.mp isPart
  exact ⟨Nat.le_refl _, Nat.le_refl _⟩

theorem WellFormed.collect (good : WellFormed before) : WellFormed before.collect.2 :=
  good.keep List.filter_sublist rfl

theorem WellFormed.tick (good : WellFormed before) (time : Nat) :
    WellFormed (before.tick time).2 ∧ (before.tick time).2.capacity = before.capacity := by
  unfold Allocator.tick
  split
  · exact ⟨good, rfl⟩
  · exact ⟨good.keep List.filter_sublist rfl, rfl⟩

theorem WellFormed.step {event : Event} (good : WellFormed before) (step : Step before event after) :
    WellFormed after ∧ after.capacity = before.capacity := by
  cases step with
  | placed done =>
    obtain ⟨middle, placed, updated⟩ := alloc_ok done
    obtain ⟨good, memory⟩ := good.place (fits_rounded ..) placed
    obtain ⟨good, kept⟩ := good.update updated
    exact ⟨good, kept.trans memory⟩
  | refused => exact ⟨good, rfl⟩
  | freed done => exact good.free done
  | collected => exact ⟨good.collect, rfl⟩
  | ticked time => exact good.tick time
  | written done => exact good.update done
  | seen => exact ⟨good, rfl⟩

theorem Run.wellFormed {config : Config} {history : History} (run : Run config history allocator) :
    WellFormed allocator ∧ allocator.capacity = config.capacity := by
  induction run with
  | start => exact ⟨⟨.nil, nofun⟩, Array.size_replicate⟩
  | step _ step ih =>
    obtain ⟨good, memory⟩ := ih
    obtain ⟨good, kept⟩ := good.step step
    exact ⟨good, kept.trans memory⟩

end Arcade.Proofs.Allocation
