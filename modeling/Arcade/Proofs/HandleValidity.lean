import Arcade.Proofs.AllocatorRanges
import Arcade.Proofs.LiveHandles

/-! How long a handle is good: from the allocation that answered it until it is freed, and never
again, whatever becomes of its bytes. A handle that comes back with a later allocation would undo
this, so first no handle is answered twice. -/

namespace Arcade.Proofs.Allocation
open Arcade.Memory

variable {history : History} {allocator before after : Allocator} {handle : Handle}
  {type : ElementType} {size : Nat}

/-! ### Access -/

/-- The handle leads to the bytes that it records, as elements of the type that it records. -/
structure Accepted (allocator : Allocator) (handle : Handle) : Prop where
  inside : handle.stop ≤ allocator.capacity
  view : allocator.view handle =
    .ok ⟨readBytes allocator.ram handle.offset handle.length, handle.type⟩
  update : ∀ change : Block → Except Fault Block, allocator.update handle change = (do
    let block ← change ⟨readBytes allocator.ram handle.offset handle.length, handle.type⟩
    return { allocator with ram := writeBytes allocator.ram handle.offset block.bytes })
  free : ∃ after, allocator.free handle = .ok after

/-- Every use of the handle is a fault. -/
structure Rejected (allocator : Allocator) (handle : Handle) : Prop where
  view : allocator.view handle = .error (.blockFreed handle.offset)
  update : ∀ change : Block → Except Fault Block,
    allocator.update handle change = .error (.blockFreed handle.offset)
  free : allocator.free handle = .error (.blockFreed handle.offset)

theorem find_cases (allocator : Allocator) (handle : Handle) :
    (∃ range, allocator.find handle = .ok range) ∨
      allocator.find handle = .error (.blockFreed handle.offset) := by
  unfold Allocator.find
  split
  · split
    · exact .inl ⟨_, rfl⟩
    · exact .inr rfl
  · exact .inr rfl

theorem Tracks.accepted (tracks : Tracks history allocator) (good : WellFormed allocator)
    (alive : handle ∈ live history) : Accepted allocator handle := by
  obtain ⟨range, found, rfl⟩ := tracks.find_live alive
  have viewed := view_eq found
  refine ⟨good.find_inside found, viewed, ?_, ?_⟩
  · intro change
    unfold Allocator.update
    rw [found, viewed]
    rfl
  · unfold Allocator.free
    rw [found]
    exact ⟨_, rfl⟩

theorem Tracks.rejected (tracks : Tracks history allocator) (known : handle ∈ handles history)
    (dead : handle ∉ live history) : Rejected allocator handle := by
  have missing : allocator.find handle = .error (.blockFreed handle.offset) := by
    obtain ⟨range, found⟩ | missing := find_cases allocator handle
    · exact absurd (tracks.live_of_find known found).2 dead
    · exact missing
  refine ⟨?_, fun change => ?_, ?_⟩
  · unfold Allocator.view
    rw [missing]
    rfl
  · unfold Allocator.update
    rw [missing]
    rfl
  · unfold Allocator.free
    rw [missing]
    rfl

/-! ### No handle comes back -/

/-- A range that is handed out again has a later generation than all handles with its id, and a
new range has an id that no handle has. -/
theorem Tracks.place_unknown (tracks : Tracks history before)
    (few : allocations history + 1 < UInt32.size)
    (placed : before.place type size = .ok (handle, after)) : handle ∉ handles history := by
  intro known
  obtain ⟨front, range, behind, ranges, _, _, _, rfl, _⟩ | ⟨_, _, rfl, _⟩ := place_cases placed
  · have dated : Dated history before.nextId range := tracks.dated range (by simp [ranges])
    have older : (range.generation + 1).toNat ≤ range.generation.toNat :=
      dated.older _ known rfl
    have next : (range.generation + 1).toNat = range.generation.toNat + 1 :=
      toNat_next dated.generation few
    omega
  · exact Nat.lt_irrefl _ (tracks.known _ known)

theorem Run.handles_nodup {config : Config} (run : Run config history allocator)
    (owns : Owns history) (few : allocations history < UInt32.size) : (handles history).Nodup := by
  induction run with
  | start => exact List.nodup_nil
  | step run step ih =>
    have fewer := Nat.lt_of_le_of_lt (allocations_le ..) few
    have earlier := ih owns.2 fewer
    cases step with
    | placed done =>
      obtain ⟨middle, placed, _⟩ := alloc_ok done
      have unknown := (run.tracks owns.2 fewer).place_unknown few placed
      exact List.nodup_cons.mpr ⟨unknown, earlier⟩
    | _ => exact earlier

theorem mem_handles_append (known : handle ∈ handles history) (later : History) :
    handle ∈ handles (later ++ history) := by
  induction later with
  | nil => exact known
  | cons event later ih => cases event <;> simp [handles, ih]

/-- As no handle comes back, the only thing that can happen to one is that it is freed. -/
theorem mem_live_append {later : History} (known : handle ∈ handles history)
    (distinct : (handles (later ++ history)).Nodup) :
    handle ∈ live (later ++ history) ↔ handle ∈ live history ∧ .freed handle ∉ later := by
  induction later with
  | nil => simp
  | cons event later ih =>
    cases event with
    | placed type count initial other bytes =>
      obtain ⟨unknown, distinct⟩ := List.nodup_cons.mp distinct
      have differ : handle ≠ other := fun same => unknown (same ▸ mem_handles_append known later)
      simpa [live, differ] using ih distinct
    | freed other => simp [live, ih distinct, and_left_comm, and_comm]
    | _ => simpa [live] using ih distinct

/-! ### Every run -/

/-- No two handles that a run answers are equal. In every state after the allocation that answered
a handle, the handle is good for every use if it was not freed on the way, and for none if it
was. -/
theorem handle_accepted_until_freed {config : Config} (run : Run config history allocator)
    (owns : Owns history) (few : allocations history < UInt32.size) :
    (handles history).Nodup ∧
    ∀ later type count initial handle bytes earlier,
      history = later ++ .placed type count initial handle bytes :: earlier →
        (.freed handle ∉ later → Accepted allocator handle) ∧
        (.freed handle ∈ later → Rejected allocator handle) := by
  have distinct := run.handles_nodup owns few
  refine ⟨distinct, ?_⟩
  rintro later type count initial handle bytes earlier rfl
  have tracks := run.tracks owns few
  have known : handle ∈ handles (.placed type count initial handle bytes :: earlier) := .head _
  have alive := mem_live_append known distinct
  constructor
  · intro kept
    exact tracks.accepted run.wellFormed.1 (alive.mpr ⟨.head _, kept⟩)
  · intro freed
    exact tracks.rejected (mem_handles_append known later) fun still => (alive.mp still).2 freed

/-- A block is freed, part of it is handed out again, and the rest is dropped by a collection. The new
handle differs from the old one only by its generation and length. -/
theorem handle_accepted_until_freed_reused : ∃ history allocator, Run ⟨16, 0⟩ history allocator ∧
    allocator.ranges = [⟨0, 1, 0, 4, .u8, true⟩] ∧
    (handles history).Nodup ∧ handles history = [⟨0, 1, 0, 4, .u8⟩, ⟨0, 0, 0, 8, .u8⟩] ∧
    Accepted allocator ⟨0, 1, 0, 4, .u8⟩ ∧ Rejected allocator ⟨0, 0, 0, 8, .u8⟩ := by
  have large : (Allocator.ofConfig ⟨16, 0⟩).alloc .u8 5 [] = .ok (.ok (⟨0, 0, 0, 8, .u8⟩,
      ⟨Array.replicate 16 0, [⟨0, 0, 0, 8, .u8, true⟩], 1, 0, 0⟩)) := rfl
  have freed : Allocator.free ⟨Array.replicate 16 0, [⟨0, 0, 0, 8, .u8, true⟩], 1, 0, 0⟩
      ⟨0, 0, 0, 8, .u8⟩ = .ok ⟨Array.replicate 16 0, [⟨0, 0, 0, 8, .u8, false⟩], 1, 0, 0⟩ := rfl
  have small : Allocator.alloc ⟨Array.replicate 16 0, [⟨0, 0, 0, 8, .u8, false⟩], 1, 0, 0⟩ .u8 1 [] =
      .ok (.ok (⟨0, 1, 0, 4, .u8⟩, ⟨Array.replicate 16 0,
        [⟨0, 1, 0, 4, .u8, true⟩, ⟨1, 0, 4, 4, .u8, false⟩], 2, 0, 0⟩)) := rfl
  have run := Run.step (Run.step (Run.step (Run.step .start (.placed large)) (.freed freed))
    (.placed small)) .collected
  obtain ⟨distinct, uses⟩ := handle_accepted_until_freed run
    (by simp [Owns, Event.access?, handles]) (by decide)
  have new := (uses [_] _ _ _ _ _ _ rfl).1 (by simp)
  have old := (uses [_, _, _] _ _ _ _ _ _ rfl).2 (by simp)
  exact ⟨_, _, run, rfl, distinct, rfl, new, old⟩

end Arcade.Proofs.Allocation
