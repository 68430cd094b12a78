import Mathlib.Data.List.Chain
import Arcade.Proofs.BlockIsolation
import Arcade.Proofs.HandleValidity
import Arcade.Proofs.LiveBlocks
import Arcade.Proofs.TrackedBytes

/-! When the clock collects. The time that a collection is counted from is that of the last tick that
collected. No other operation moves it, a collection that the program asks for included, and a time
before it is never due. A collection drops free ranges only, so every block in use outlives it. -/

namespace Arcade.Proofs.Allocation
open Arcade.Memory

variable {config : Config} {history earlier later : History} {allocator before after : Allocator}
  {handle : Handle} {event : Event} {range : Tracked} {time : Nat} {answer : Option Nat}

/-! ### Times -/

/-- The time of a tick that collected. -/
def Event.collectingTime? : Event → Option Nat
  | .ticked time (some _) => some time
  | _ => none

theorem collectingTime?_eq_some (collected : event.collectingTime? = some time) :
    ∃ count, event = .ticked time (some count) := by
  cases event with
  | ticked other answer =>
    cases answer <;> cases collected
    exact ⟨_, rfl⟩
  | _ => cases collected

/-- The times of the ticks that collected, the latest one first. -/
def collectingTimes (history : History) : List Nat := history.filterMap Event.collectingTime?

/-- The time that the next collection is counted from, zero at first. -/
def countedFrom (history : History) : Nat := (collectingTimes history).headD 0

theorem countedFrom_cons (event : Event) (history : History) :
    countedFrom (event :: history) = event.collectingTime?.getD (countedFrom history) := by
  unfold countedFrom collectingTimes
  rw [List.filterMap_cons]
  cases event.collectingTime? <;> rfl

/-- Each collection is at least an interval later than the one before it, and the first one at least an
interval later than zero. -/
def Spaced (interval : Nat) (times : List Nat) : Prop :=
  (times ++ [0]).IsChain fun late early => early + interval ≤ late

theorem Spaced.cons {interval : Nat} {times : List Nat} (spaced : Spaced interval times)
    (due : times.headD 0 + interval ≤ time) : Spaced interval (time :: times) := by
  refine List.isChain_cons.mpr ⟨fun early isNext => ?_, spaced⟩
  cases times <;> cases isNext <;> exact due

/-! ### Steps -/

theorem tick_eq (positive : 0 < allocator.interval) (time : Nat) : allocator.tick time =
    if allocator.lastCollection + allocator.interval ≤ time then
      (some allocator.collect.1, { allocator.collect.2 with lastCollection := time })
    else (none, allocator) := by
  unfold Allocator.tick
  by_cases due : allocator.lastCollection + allocator.interval ≤ time
  · rw [if_pos due, if_neg (by omega)]
  · rw [if_neg due, if_pos (by omega)]

theorem place_clock {type : ElementType} {size : Nat} (placed : before.place type size = .ok (handle, after)) :
    after.interval = before.interval ∧ after.lastCollection = before.lastCollection := by
  obtain ⟨_, _, _, _, _, _, _, _, rfl⟩ | ⟨_, _, _, rfl⟩ := place_cases placed
  · exact ⟨rfl, rfl⟩
  · exact ⟨rfl, rfl⟩

/-- Only a tick that collects moves the clock, and that to its own time. -/
theorem Step.clock (step : Step before event after) : after.interval = before.interval ∧
    after.lastCollection = event.collectingTime?.getD before.lastCollection := by
  cases step with
  | placed done =>
    obtain ⟨middle, placed, updated⟩ := alloc_ok done
    obtain ⟨_, _, _, _, rfl⟩ := update_ok updated
    -- the initial values change the memory only
    obtain ⟨interval, last⟩ := place_clock placed
    exact ⟨interval, last⟩
  | freed done =>
    obtain ⟨_, _, _, _, _, rfl⟩ := free_ok done
    exact ⟨rfl, rfl⟩
  | ticked time =>
    unfold Allocator.tick
    split <;> exact ⟨rfl, rfl⟩
  | written done =>
    obtain ⟨_, _, _, _, rfl⟩ := update_ok done
    exact ⟨rfl, rfl⟩
  | refused | collected | seen => exact ⟨rfl, rfl⟩

/-- Ranges that are dropped are never those that a good handle finds, and none comes to stand in front
of those. -/
theorem find_kept (found : before.find handle = .ok range)
    (kept : after.ranges = before.ranges.filter (·.active)) : after.find handle = .ok range := by
  obtain ⟨first, active, generation⟩ := find_ok.mp found
  obtain ⟨same, front, behind, ranges, others⟩ := List.find?_eq_some_iff_append.mp first
  refine find_ok.mpr ⟨?_, active, generation⟩
  rw [kept, ranges, List.filter_append, List.filter_cons_of_pos active]
  exact List.find?_eq_some_iff_append.mpr
    ⟨same, _, _, rfl, fun other isOther => others other (List.mem_of_mem_filter isOther)⟩

/-- Every handle that was good is good for the same range, and shows the same block. -/
structure Keeps (before after : Allocator) : Prop where
  range : ∀ handle range, before.find handle = .ok range → after.find handle = .ok range
  block : ∀ handle block, before.view handle = .ok block → after.view handle = .ok block

theorem keeps_of_filter (kept : after.ranges = before.ranges.filter (·.active)) (memory : after.ram = before.ram) :
    Keeps before after := by
  refine ⟨fun _ _ found => find_kept found kept, fun handle block viewed => ?_⟩
  obtain ⟨range, found, rfl⟩ := view_ok viewed
  rw [view_eq (find_kept found kept), memory]

/-! ### Every run -/

/-- Every event of a run is a step from a state that the events before it lead to. -/
theorem Run.step_of_append (run : Run config (later ++ event :: earlier) allocator) :
    ∃ before after, Run config earlier before ∧ Step before event after := by
  induction later generalizing allocator with
  | nil =>
    cases run with
    | step run step => exact ⟨_, _, run, step⟩
  | cons _ later ih =>
    cases run with
    | step run _ => exact ih run

theorem Run.clock (run : Run config history allocator) :
    allocator.interval = config.interval ∧ allocator.lastCollection = countedFrom history := by
  induction run with
  | start => exact ⟨rfl, rfl⟩
  | step _ step ih =>
    obtain ⟨interval, last⟩ := step.clock
    rw [interval, last, countedFrom_cons, ih.2]
    exact ⟨ih.1, rfl⟩

theorem Run.tick_eq (run : Run config history allocator) (positive : 0 < config.interval) (time : Nat) :
    allocator.tick time =
      if countedFrom history + config.interval ≤ time then
        (some allocator.collect.1, { allocator.collect.2 with lastCollection := time })
      else (none, allocator) := by
  obtain ⟨interval, last⟩ := run.clock
  rw [← interval] at positive
  rw [Allocation.tick_eq positive, interval, last]

theorem Run.collects_iff (run : Run config history before) (positive : 0 < config.interval)
    (step : Step before (.ticked time answer) after) :
    answer.isSome ↔ countedFrom history + config.interval ≤ time := by
  cases step with
  | ticked =>
    rw [run.tick_eq positive]
    split
    next due => exact iff_of_true rfl due
    next early => exact iff_of_false Bool.false_ne_true early

theorem Run.spaced (run : Run config history allocator) (positive : 0 < config.interval) :
    Spaced config.interval (collectingTimes history) := by
  induction run with
  | start => exact List.isChain_singleton 0
  | @step history before event after run step ih =>
    unfold collectingTimes
    rw [List.filterMap_cons]
    cases found : event.collectingTime? with
    | none => exact ih
    | some time =>
      obtain ⟨count, rfl⟩ := collectingTime?_eq_some found
      exact ih.cons ((run.collects_iff positive step).mp rfl)

/-- The ticks that collect are those that come at least an interval after the last tick that did, or after
zero at first, whatever happens in between, so they are spaced by intervals. Every other tick leaves all
as it was. One that collects drops the free ranges and keeps every good handle and what it shows;
until the ids are used up, the good handles are those of all blocks in use. -/
theorem collection_cadence (run : Run config history allocator) (positive : 0 < config.interval) :
    (∀ later time answer earlier, history = later ++ .ticked time answer :: earlier →
      (answer.isSome ↔ countedFrom earlier + config.interval ≤ time)) ∧
    Spaced config.interval (collectingTimes history) ∧
    (∀ time, time < countedFrom history + config.interval → allocator.tick time = (none, allocator)) ∧
    (∀ time, countedFrom history + config.interval ≤ time → ∃ count after,
      allocator.tick time = (some count, after) ∧ Collects allocator count after ∧ Keeps allocator after ∧
        (Owns history → allocations history < UInt32.size → ∀ handle ∈ live history,
          Accepted after handle ∧ after.view handle = .ok ⟨contents handle history, handle.type⟩)) := by
  refine ⟨?_, run.spaced positive, fun time early => ?_, fun time due => ?_⟩
  · rintro later time answer earlier rfl
    obtain ⟨before, after, run, step⟩ := run.step_of_append
    exact run.collects_iff positive step
  · rw [run.tick_eq positive, if_neg (Nat.not_le.mpr early)]
  · have ticked := run.tick_eq positive time
    rw [if_pos due] at ticked
    have keeps : Keeps allocator { allocator.collect.2 with lastCollection := time } := keeps_of_filter rfl rfl
    refine ⟨_, _, ticked, run.wellFormed.1.collects rfl, keeps, fun owns few handle alive => ?_⟩
    have viewed := view_live (run.tracks owns few) (run.mirrors owns few).1 alive
    -- the tick is a step, after which the same blocks are in use
    have next := run.step (.ticked time)
    rw [ticked] at next
    exact ⟨(next.tracks ⟨nofun, owns⟩ few).accepted next.wellFormed.1 alive, keeps.block _ _ viewed⟩

/-- The clock collects at 150 and is then turned back. A block that was freed in between is dropped at the
latest time of 64 bits, but not at 249, as the collection that the program asked for does not count. -/
theorem collection_cadence_of_turned_clock : ∃ history allocator, Run ⟨8, 100⟩ history allocator ∧ 0 < 100 ∧
    allocator.ranges = [⟨0, 0, 0, 4, .u8, false⟩, ⟨1, 0, 4, 4, .u8, true⟩] ∧
    collectingTimes history = [150] ∧ Spaced 100 [150] ∧
    (∀ later time answer earlier, history = later ++ .ticked time answer :: earlier →
      (answer.isSome ↔ countedFrom earlier + 100 ≤ time)) ∧
    allocator.tick 249 = (none, allocator) ∧
    ∃ after, allocator.tick 18446744073709551615 = (some 1, after) ∧ Keeps allocator after ∧
      Accepted after ⟨1, 0, 4, 4, .u8⟩ ∧ after.view ⟨1, 0, 4, 4, .u8⟩ = .ok ⟨[9, 0, 0, 0], .u8⟩ := by
  have first : (Allocator.ofConfig ⟨8, 100⟩).alloc .u8 1 [] = .ok (.ok (⟨0, 0, 0, 4, .u8⟩,
      ⟨Array.replicate 8 0, [⟨0, 0, 0, 4, .u8, true⟩], 1, 100, 0⟩)) := rfl
  have second : Allocator.alloc ⟨Array.replicate 8 0, [⟨0, 0, 0, 4, .u8, true⟩], 1, 100, 0⟩ .u8 1 [.u8 9] =
      .ok (.ok (⟨1, 0, 4, 4, .u8⟩, ⟨#[0, 0, 0, 0, 9, 0, 0, 0],
        [⟨0, 0, 0, 4, .u8, true⟩, ⟨1, 0, 4, 4, .u8, true⟩], 2, 100, 0⟩)) := rfl
  have freed : Allocator.free ⟨#[0, 0, 0, 0, 9, 0, 0, 0],
      [⟨0, 0, 0, 4, .u8, true⟩, ⟨1, 0, 4, 4, .u8, true⟩], 2, 100, 150⟩ ⟨0, 0, 0, 4, .u8⟩ =
      .ok ⟨#[0, 0, 0, 0, 9, 0, 0, 0],
        [⟨0, 0, 0, 4, .u8, false⟩, ⟨1, 0, 4, 4, .u8, true⟩], 2, 100, 150⟩ := rfl
  have collected := Run.step (Run.step (Run.step (Run.step .start (.placed first)) (.placed second))
    (.ticked 150)) .collected
  have run := Run.step (Run.step collected (.freed freed)) (.ticked 120)
  obtain ⟨ticks, spaced, early, due⟩ := collection_cadence run (by decide)
  obtain ⟨count, after, ticked, collects, keeps, alive⟩ := due 18446744073709551615 (by decide)
  obtain ⟨accepted, viewed⟩ := alive (by simp [Owns, Event.access?, handles]) (by decide) _ (.head _)
  have dropped : count = 1 := collects.dropped
  subst dropped
  exact ⟨_, _, run, by decide, rfl, rfl, spaced, ticks, early 249 (by decide), after, ticked, keeps, accepted,
    viewed⟩

end Arcade.Proofs.Allocation
