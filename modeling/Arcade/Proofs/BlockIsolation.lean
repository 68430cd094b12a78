import Arcade.Proofs.AllocatorRanges
import Arcade.Proofs.LiveHandles

/-! Blocks do not affect each other. All of them lie in one memory, which is handed out again and again,
but a program that uses several sees each as an array of bytes of its own. -/

namespace Arcade.Proofs.Allocation
open Arcade.Memory

variable {history : History} {before after : Allocator} {handle other : Handle} {range : Tracked}
  {change : Change} {type : ElementType} {size : Nat}

/-! ### Arrays of their own -/

/-- The bytes of a block as the program left them: those it was handed out with, changed by the writes
to it. No other event counts. -/
def contents (handle : Handle) : History → List UInt8
  | [] => []
  | .placed _ _ _ other bytes :: history => if other = handle then bytes else contents handle history
  | .written other change :: history =>
    if other = handle then
      match change.run ⟨contents handle history, handle.type⟩ with
      | .ok block => block.bytes
      | .error _ => contents handle history
    else contents handle history
  | _ :: history => contents handle history

/-- Every block that was seen was the array of its handle, and every write is one that the array takes. -/
def Faithful : History → Prop
  | [] => True
  | .seen handle block :: history => block = ⟨contents handle history, handle.type⟩ ∧ Faithful history
  | .written handle change :: history =>
    (∃ block, change.run ⟨contents handle history, handle.type⟩ = .ok block) ∧ Faithful history
  | _ :: history => Faithful history

theorem contents_written {block : Block} (done : change.run ⟨contents handle history, handle.type⟩ = .ok block) :
    contents handle (.written handle change :: history) = block.bytes := by
  rw [contents, if_pos rfl, done]

/-- The bytes of a handle, wherever they are. -/
def held (allocator : Allocator) (handle : Handle) : List UInt8 :=
  readBytes allocator.ram handle.offset handle.length

def Mirrors (history : History) (allocator : Allocator) : Prop :=
  ∀ handle ∈ live history, held allocator handle = contents handle history

/-! ### Operations beside a block -/

theorem WellFormed.apart_of_ids {first last : Tracked} (good : WellFormed before)
    (isFirst : first ∈ before.ranges) (isLast : last ∈ before.ranges) (differ : first.id ≠ last.id) :
    Apart first last :=
  good.apart.forall isFirst isLast fun same => differ (congrArg Tracked.id same)

/-- A write to a block stays in its range. -/
theorem update_length {block : Block} (good : WellFormed before) (found : before.find handle = .ok range)
    (changed : change.run ⟨readBytes before.ram range.offset range.length, range.type⟩ = .ok block) :
    block.bytes.length = range.length :=
  (change.keeps _ _ changed).trans (length_readBytes (good.find_inside found))

theorem held_update_other (good : WellFormed before) (tracks : Tracks history before)
    (alive : other ∈ live history) (differ : other.id ≠ handle.id)
    (updated : before.update handle change.run = .ok after) : held after other = held before other := by
  obtain ⟨target, block, found, changed, rfl⟩ := update_ok updated
  obtain ⟨range, holds, rfl⟩ := tracks.find_live alive
  obtain ⟨isTarget, id⟩ := find_mem found
  have apart : Apart range target := good.apart_of_ids (find_mem holds).1 isTarget (id ▸ differ)
  apply readBytes_writeBytes_apart
  rw [update_length good found changed]
  exact apart

theorem held_update_self {block : Block} (good : WellFormed before)
    (found : before.find handle = .ok range) (same : range.handle = handle)
    (changed : change.run ⟨held before handle, handle.type⟩ = .ok block)
    (updated : before.update handle change.run = .ok after) : held after handle = block.bytes := by
  subst same
  obtain ⟨target, result, isTarget, done, rfl⟩ := update_ok updated
  rw [found] at isTarget
  cases isTarget
  cases changed.symm.trans done
  have length := update_length good found changed
  show readBytes _ range.offset range.length = block.bytes
  rw [← length]
  apply readBytes_writeBytes
  rw [length]
  exact good.find_inside found

/-- A block is placed in memory that no other block uses, under an id that no other block has. -/
theorem held_place_other (tracks : Tracks history before) (placed : before.place type size = .ok (handle, after))
    (alive : other ∈ live history) : other.id ≠ handle.id ∧ held after other = held before other := by
  obtain ⟨range, found, rfl⟩ := tracks.find_live alive
  obtain ⟨tracked, _⟩ := find_mem found
  obtain ⟨front, free, behind, ranges, isFree, _, _, rfl, rfl⟩ | ⟨_, _, rfl, rfl⟩ := place_cases placed
  · refine ⟨fun same => ?_, rfl⟩
    have isTracked : free ∈ before.ranges := by simp [ranges]
    obtain rfl := List.inj_on_of_nodup_map tracks.ids tracked isTracked same
    exact Bool.false_ne_true (isFree.symm.trans (find_ok.mp found).2.1)
  · exact ⟨ne_next (tracks.dated range tracked).id,
      readBytes_writeBytes_apart (.inl (stop_le_highWater tracked))⟩

/-! ### Steps -/

theorem Tracks.live_differ (tracks : Tracks history before) (alive : handle ∈ live history)
    (isOther : other ∈ live history) (differ : other ≠ handle) : other.id ≠ handle.id := by
  obtain ⟨range, found, rfl⟩ := tracks.find_live alive
  obtain ⟨last, isLast, rfl⟩ := tracks.find_live isOther
  intro same
  apply differ
  rw [List.inj_on_of_nodup_map tracks.ids (find_mem isLast).1 (find_mem found).1 same]

theorem Mirrors.step {event : Event} (mirrors : Mirrors history before) (good : WellFormed before)
    (tracks : Tracks history before) (step : Step before event after)
    (owns : ∀ handle ∈ event.access?, handle ∈ handles history)
    (few : allocations (event :: history) < UInt32.size) : Mirrors (event :: history) after := by
  cases step with
  | @placed type count initial handle after done =>
    obtain ⟨middle, placed, updated⟩ := alloc_ok done
    -- the block has its own range by the time that its first elements are set
    have middleGood := (good.place (fits_rounded ..) placed).1
    have middleTracks : Tracks (.placed type count initial handle (held after handle) :: history) middle :=
      tracks.place few placed
    intro other alive
    by_cases same : handle = other
    · subst same
      exact (if_pos rfl).symm
    · have isOther : other ∈ live history := (List.mem_cons.mp alive).resolve_left (Ne.symm same)
      obtain ⟨differ, kept⟩ := held_place_other tracks placed isOther
      rw [contents, if_neg same, ← mirrors other isOther, ← kept]
      exact held_update_other middleGood middleTracks alive differ updated
  | @freed handle after done =>
    obtain ⟨front, range, behind, _, _, rfl⟩ := free_ok done
    intro other alive
    exact mirrors other (List.mem_of_mem_filter alive)
  | @written handle after change done =>
    obtain ⟨range, block, found, changed, _⟩ := update_ok done
    obtain ⟨same, alive⟩ := tracks.live_of_find (owns handle rfl) found
    subst same
    intro other isOther
    by_cases same : range.handle = other
    · subst same
      have own : change.run ⟨contents range.handle history, range.type⟩ = .ok block := by
        rw [← mirrors range.handle alive]
        exact changed
      rw [contents_written own]
      exact held_update_self good found rfl changed done
    · rw [contents, if_neg same, ← mirrors other isOther]
      exact held_update_other good tracks isOther (tracks.live_differ alive isOther (Ne.symm same)) done
  | ticked time =>
    unfold Allocator.tick
    split <;> exact mirrors
  | refused => exact mirrors
  | collected => exact mirrors
  | seen => exact mirrors

theorem view_live (tracks : Tracks history before) (mirrors : Mirrors history before)
    (alive : handle ∈ live history) : before.view handle = .ok ⟨contents handle history, handle.type⟩ := by
  obtain ⟨range, found, rfl⟩ := tracks.find_live alive
  rw [view_eq found, ← mirrors range.handle alive]
  rfl

theorem Faithful.step {event : Event} (faithful : Faithful history) (tracks : Tracks history before)
    (mirrors : Mirrors history before) (step : Step before event after)
    (owns : ∀ handle ∈ event.access?, handle ∈ handles history) : Faithful (event :: history) := by
  cases step with
  | @written handle after change done =>
    obtain ⟨range, block, found, changed, _⟩ := update_ok done
    obtain ⟨rfl, alive⟩ := tracks.live_of_find (owns handle rfl) found
    refine ⟨⟨block, ?_⟩, faithful⟩
    rw [← mirrors range.handle alive]
    exact changed
  | @seen handle block done =>
    obtain ⟨range, found, _⟩ := Except.bind_ok.mp done
    obtain ⟨_, alive⟩ := tracks.live_of_find (owns handle rfl) found
    rw [view_live tracks mirrors alive] at done
    cases done
    exact ⟨rfl, faithful⟩
  | placed => exact faithful
  | refused => exact faithful
  | freed => exact faithful
  | collected => exact faithful
  | ticked => exact faithful

/-! ### Every run -/

theorem Run.mirrors {config : Config} (run : Run config history before) (owns : Owns history)
    (few : allocations history < UInt32.size) : Mirrors history before ∧ Faithful history := by
  induction run with
  | start => exact ⟨nofun, trivial⟩
  | step run step ih =>
    obtain ⟨known, owns⟩ := owns
    have fewer := Nat.lt_of_le_of_lt (allocations_le ..) few
    have tracks := run.tracks owns fewer
    obtain ⟨mirrors, faithful⟩ := ih owns fewer
    exact ⟨mirrors.step run.wellFormed.1 tracks step known few, faithful.step tracks mirrors step known⟩

/-- An event that can change the bytes of a handle. -/
def Event.Changes (handle : Handle) : Event → Prop
  | .freed other => other = handle
  | .written other _ => other = handle
  | _ => False

theorem live_kept {event : Event} (alive : handle ∈ live history) (quiet : ¬ event.Changes handle) :
    handle ∈ live (event :: history) := by
  cases event with
  | placed => exact List.mem_cons_of_mem _ alive
  | freed other => exact List.mem_filter.mpr ⟨alive, decide_eq_true (Ne.symm quiet)⟩
  | _ => exact alive

theorem contents_kept {event : Event} (tracks : Tracks history before) (step : Step before event after)
    (alive : handle ∈ live history) (quiet : ¬ event.Changes handle) :
    contents handle (event :: history) = contents handle history := by
  cases step with
  | placed done =>
    obtain ⟨middle, placed, _⟩ := alloc_ok done
    obtain ⟨differ, _⟩ := held_place_other tracks placed alive
    exact if_neg fun same => differ (congrArg Handle.id same.symm)
  | written done => exact if_neg quiet
  | _ => rfl

/-- A program with several blocks sees each as an array of its own: in every state that a run leads to, the
view of every block in use is the array of its handle, all that was seen on the way was so too, and
the next step only changes the view of a block that it frees or writes. -/
theorem blocks_isolated {config : Config} (run : Run config history before) (owns : Owns history)
    (few : allocations history < UInt32.size) :
    (∀ handle ∈ live history, before.view handle = .ok ⟨contents handle history, handle.type⟩) ∧
    Faithful history ∧
    ∀ event after, Step before event after → (∀ handle ∈ event.access?, handle ∈ handles history) →
      allocations (event :: history) < UInt32.size →
      ∀ handle ∈ live history, ¬ event.Changes handle → after.view handle = before.view handle := by
  have tracks := run.tracks owns few
  obtain ⟨mirrors, faithful⟩ := run.mirrors owns few
  refine ⟨fun handle => view_live tracks mirrors, faithful, ?_⟩
  intro event after step known fewAfter handle alive quiet
  have next : Run config (event :: history) after := .step run step
  have mirrorsAfter := (next.mirrors ⟨known, owns⟩ fewAfter).1
  have tracksAfter := next.tracks ⟨known, owns⟩ fewAfter
  rw [view_live tracks mirrors alive, view_live tracksAfter mirrorsAfter (live_kept alive quiet),
    contents_kept tracks step alive quiet]

/-- Two blocks side by side, of which the second is written. -/
theorem blocks_isolated_neighbours : ∃ history allocator, Run ⟨8, 0⟩ history allocator ∧
    live history = [⟨1, 0, 4, 4, .u8⟩, ⟨0, 0, 0, 4, .u8⟩] ∧
    contents ⟨0, 0, 0, 4, .u8⟩ history = [1, 0, 0, 0] ∧ contents ⟨1, 0, 4, 4, .u8⟩ history = [2, 7, 0, 0] ∧
    (∀ handle ∈ live history, allocator.view handle = .ok ⟨contents handle history, handle.type⟩) ∧
    Faithful history ∧
    ∀ event after, Step allocator event after → (∀ handle ∈ event.access?, handle ∈ handles history) →
      allocations (event :: history) < UInt32.size →
      ∀ handle ∈ live history, ¬ event.Changes handle → after.view handle = allocator.view handle := by
  have first : (Allocator.ofConfig ⟨8, 0⟩).alloc .u8 1 [.u8 1] = .ok (.ok (⟨0, 0, 0, 4, .u8⟩,
      ⟨#[1, 0, 0, 0, 0, 0, 0, 0], [⟨0, 0, 0, 4, .u8, true⟩], 1, 0, 0⟩)) := rfl
  have second : Allocator.alloc ⟨#[1, 0, 0, 0, 0, 0, 0, 0], [⟨0, 0, 0, 4, .u8, true⟩], 1, 0, 0⟩ .u8 1 [.u8 2] =
      .ok (.ok (⟨1, 0, 4, 4, .u8⟩, ⟨#[1, 0, 0, 0, 2, 0, 0, 0],
        [⟨0, 0, 0, 4, .u8, true⟩, ⟨1, 0, 4, 4, .u8, true⟩], 2, 0, 0⟩)) := rfl
  have written : Allocator.update ⟨#[1, 0, 0, 0, 2, 0, 0, 0],
      [⟨0, 0, 0, 4, .u8, true⟩, ⟨1, 0, 4, 4, .u8, true⟩], 2, 0, 0⟩ ⟨1, 0, 4, 4, .u8⟩
      (Change.set 1 (.u8 7)).run = .ok ⟨#[1, 0, 0, 0, 2, 7, 0, 0],
        [⟨0, 0, 0, 4, .u8, true⟩, ⟨1, 0, 4, 4, .u8, true⟩], 2, 0, 0⟩ := rfl
  have run := Run.step (Run.step (Run.step .start (.placed first)) (.placed second)) (.written written)
  have isolated := blocks_isolated run (by simp [Owns, Event.access?, handles]) (by decide)
  exact ⟨_, _, run, rfl, rfl, rfl, isolated⟩

end Arcade.Proofs.Allocation
