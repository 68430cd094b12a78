import Arcade.Proofs.AllocatorSafety
import Arcade.Proofs.BlockIsolation
import Arcade.Proofs.StackItems

/-! A stack among the other blocks of the memory. A push is a write to the block of the stack, and nothing
else that a program does reaches that block, so the items of the stack are a list that only pushes, pops and
clears change. -/

namespace Arcade.Proofs.Allocation
open Arcade.Memory

variable {config : Config} {history : History} {allocator before after : Allocator} {stack : Stack}
  {handle : Handle} {capacity count : Nat} {mode : StackMode} {items older given result : List Item}
  {newest : Item} {block : Block}

/-! ### Operations -/

theorem allocStack_ok (allocated : Stack.alloc before capacity mode = .ok (.ok (stack, after))) :
    before.alloc .u8 capacity [] = .ok (.ok (stack.handle, after)) ∧ stack = ⟨stack.handle, mode, 0, []⟩ := by
  obtain ⟨answer, placed, done⟩ := Except.bind_ok.mp allocated
  cases answer with
  | error failure => cases done
  | ok pair =>
    cases done
    exact ⟨placed, rfl⟩

theorem Run.length_contents (run : Run config history allocator) (owns : Owns history)
    (few : allocations history < UInt32.size) (alive : handle ∈ live history) :
    (contents handle history).length = handle.length := by
  obtain ⟨range, found, rfl⟩ := (run.tracks owns few).find_live alive
  rw [← (run.mirrors owns few).1 range.handle alive]
  exact length_readBytes (run.wellFormed.1.find_inside found)

theorem mem_handles_of_live (alive : handle ∈ live history) : handle ∈ handles history := by
  induction history with
  | nil => cases alive
  | cons event history ih =>
    cases event with
    | placed => exact (List.mem_cons.mp alive).elim (fun same => same ▸ .head _) fun old => .tail _ (ih old)
    | freed => exact ih (List.mem_of_mem_filter alive)
    | _ => exact ih alive

/-- Pushing answers what the block takes, and writes that to it. -/
theorem push_eq {types : List ItemType} {top : Nat} {final : Block}
    (viewed : before.view stack.handle = .ok block)
    (pushed : Stack.pushItems stack.capacity stack.mode given stack.types stack.top block =
      .ok (count, types, top, final)) :
    ∃ after, stack.push before given = .ok (count, { stack with top, types }, after) ∧
      before.update stack.handle (Change.push stack given).run = .ok after := by
  obtain ⟨range, found, _⟩ := Except.bind_ok.mp viewed
  rw [view_eq found] at viewed
  cases viewed
  refine ⟨_, ?_, update_eq found (Change.push_run pushed)⟩
  refine Except.bind_ok.mpr ⟨_, view_eq found, Except.bind_ok.mpr ⟨_, pushed, ?_⟩⟩
  exact Except.bind_ok.mpr ⟨_, update_eq found rfl, rfl⟩

/-! ### States of a stack -/

/-- The state of a stack that holds items. -/
def holding (stack : Stack) (items : List Item) : Stack :=
  { stack with top := totalSize items, types := items.map Item.type }

/-- The block of the stack is in use and has its items at its start. -/
structure Holds (config : Config) (history : History) (allocator : Allocator) (stack : Stack)
    (items : List Item) : Prop where
  run : Run config history allocator
  owns : Owns history
  alive : stack.handle ∈ live history
  small : stack.capacity < sizeLimit
  packed : Packed stack.capacity items stack.types stack.top (contents stack.handle history)

theorem Holds.view (holds : Holds config history allocator stack items) (few : allocations history < UInt32.size) :
    allocator.view stack.handle = .ok ⟨contents stack.handle history, stack.handle.type⟩ :=
  view_live (holds.run.tracks holds.owns few) (holds.run.mirrors holds.owns few).1 holds.alive

theorem Holds.holding (holds : Holds config history allocator stack items)
    (packed : Packed stack.capacity older (older.map Item.type) (totalSize older) (contents stack.handle history)) :
    Holds config history allocator (holding stack older) older :=
  ⟨holds.run, holds.owns, holds.alive, holds.small, packed⟩

/-! ### Steps -/

theorem Holds.created (run : Run config history before) (owns : Owns history)
    (few : allocations history + 1 < UInt32.size)
    (allocated : Stack.alloc before capacity mode = .ok (.ok (stack, after))) :
    Holds config (.placed .u8 capacity [] stack.handle (held after stack.handle) :: history) after stack [] := by
  obtain ⟨placed, fresh⟩ := allocStack_ok allocated
  have step : Step before (.placed .u8 capacity [] stack.handle (held after stack.handle)) after := .placed placed
  have next := Run.step run step
  have length := next.length_contents ⟨nofun, owns⟩ few (.head _)
  refine ⟨next, ⟨nofun, owns⟩, .head _, alloc_length placed, ?_⟩
  rw [fresh]
  exact packed_nothing length

theorem Holds.beside {event : Event} (holds : Holds config history before stack items)
    (few : allocations history < UInt32.size) (step : Step before event after)
    (known : ∀ handle ∈ event.access?, handle ∈ handles history) (quiet : ¬ event.Changes stack.handle) :
    Holds config (event :: history) after stack items := by
  refine ⟨.step holds.run step, ⟨known, holds.owns⟩, live_kept holds.alive quiet, holds.small, ?_⟩
  rw [contents_kept (holds.run.tracks holds.owns few) step holds.alive quiet]
  exact holds.packed

theorem Holds.pushed (holds : Holds config history before stack items) (few : allocations history < UInt32.size)
    (pushable : ∀ item ∈ given, TypedItem item ∧ item.size ≤ stack.capacity) :
    ∃ count after result, stack.push before given = .ok (count, Allocation.holding stack result, after) ∧
      Pushes stack.capacity stack.mode items given count result ∧
      Holds config (.written stack.handle (.push stack given) :: history) after
        (Allocation.holding stack result) result := by
  obtain ⟨count, types, top, block, result, stored, pushes, packed⟩ :=
    Packed.push stack.mode ⟨contents stack.handle history, stack.handle.type⟩ holds.packed holds.small pushable
  obtain ⟨after, pushed, written⟩ := push_eq (holds.view few) stored
  obtain rfl := packed.types
  obtain rfl := packed.top
  refine ⟨count, after, result, pushed, pushes, .step holds.run (.written written), ⟨?_, holds.owns⟩, holds.alive,
    holds.small, ?_⟩
  · rintro _ ⟨⟩
    exact mem_handles_of_live holds.alive
  · show Packed _ _ _ _ (contents stack.handle (.written stack.handle (.push stack given) :: history))
    rw [contents_written (Change.push_run stored)]
    exact packed

theorem Holds.popped_nothing (holds : Holds config history allocator stack []) : stack.pop allocator = .ok none := by
  unfold Stack.pop
  rw [holds.packed.types]
  rfl

theorem Holds.popped (holds : Holds config history allocator stack (older ++ [newest]))
    (few : allocations history < UInt32.size) :
    stack.pop allocator = .ok (some (keptItem newest, Allocation.holding stack older)) ∧
      Holds config history allocator (Allocation.holding stack older) older := by
  obtain ⟨last, whole, loaded, packed⟩ :=
    Packed.pop ⟨contents stack.handle history, stack.handle.type⟩ holds.packed holds.small
  have types := packed.types
  have top := packed.top
  rw [types, top] at packed
  refine ⟨?_, holds.holding packed⟩
  unfold Stack.pop
  rw [last]
  refine (if_neg (Nat.not_lt.mpr whole)).trans ?_
  refine Except.bind_ok.mpr ⟨_, holds.view few, Except.bind_ok.mpr ⟨_, loaded, ?_⟩⟩
  show Except.ok (some (keptItem newest,
    { stack with top := stack.top - newest.size, types := stack.types.dropLast })) = _
  rw [types, top]
  rfl

theorem Holds.cleared (holds : Holds config history allocator stack items) :
    Holds config history allocator stack.clear [] :=
  holds.holding (packed_nothing holds.packed.length)

/-! ### Every run -/

/-- What a program does with a stack, among all that it does with the memory, and the list that its items
should be. Other blocks are used freely; that of the stack may be looked at. -/
inductive StackRun (config : Config) : History → Allocator → Stack → List Item → Prop
  | created {history : History} {before after : Allocator} {capacity : Nat} {mode : StackMode} {stack : Stack}
      (run : Run config history before) (owns : Owns history)
      (done : Stack.alloc before capacity mode = .ok (.ok (stack, after))) :
      StackRun config (.placed .u8 capacity [] stack.handle (held after stack.handle) :: history) after stack []
  | beside {history : History} {before after : Allocator} {stack : Stack} {items : List Item} {event : Event}
      (run : StackRun config history before stack items) (step : Step before event after)
      (known : ∀ handle ∈ event.access?, handle ∈ handles history) (quiet : ¬ event.Changes stack.handle) :
      StackRun config (event :: history) after stack items
  | pushed {history : History} {before after : Allocator} {stack next : Stack} {items given result : List Item}
      {count expected : Nat} (run : StackRun config history before stack items)
      (pushable : ∀ item ∈ given, TypedItem item ∧ item.size ≤ stack.capacity)
      (done : stack.push before given = .ok (count, next, after))
      (pushes : Pushes stack.capacity stack.mode items given expected result) :
      StackRun config (.written stack.handle (.push stack given) :: history) after next result
  | popped {history : History} {allocator : Allocator} {stack next : Stack} {items : List Item} {item : Item}
      (run : StackRun config history allocator stack items)
      (done : stack.pop allocator = .ok (some (item, next))) :
      StackRun config history allocator next items.dropLast
  | cleared {history : History} {allocator : Allocator} {stack : Stack} {items : List Item}
      (run : StackRun config history allocator stack items) : StackRun config history allocator stack.clear []

theorem StackRun.holds (run : StackRun config history allocator stack items)
    (few : allocations history < UInt32.size) : Holds config history allocator stack items := by
  induction run with
  | created run owns done => exact .created run owns few done
  | beside _ step known quiet ih =>
    have fewer := Nat.lt_of_le_of_lt (allocations_le ..) few
    exact (ih fewer).beside fewer step known quiet
  | pushed _ pushable done pushes ih =>
    obtain ⟨count, after, result, pushed, actual, holds⟩ := (ih few).pushed few pushable
    rw [done] at pushed
    cases pushed
    obtain ⟨_, rfl⟩ := actual.unique pushes
    exact holds
  | @popped history allocator stack next items item _ done ih =>
    have holds := ih few
    obtain rfl | ⟨older, newest, rfl⟩ := List.eq_nil_or_concat items
    · rw [holds.popped_nothing] at done
      cases done
    · rw [List.concat_eq_append] at holds ⊢
      obtain ⟨popped, holds⟩ := holds.popped few
      rw [popped] at done
      cases done
      rw [List.dropLast_concat]
      exact holds
  | cleared _ ih => exact (ih few).cleared

/-- In every state of a stack its bytes in use are those of its items, which fit, and its types are as many as
its items. Every push of items that are no larger than the stack answers, and does to the list of
items what the mode of the stack says; every pop takes the newest item off the list. Text comes back from a
stack as from any field of a text element. -/
theorem stack_refines_list (run : StackRun config history allocator stack items)
    (few : allocations history < UInt32.size) :
    stack.top = totalSize items ∧ totalSize items ≤ stack.capacity ∧ stack.types.length = items.length ∧
    (∀ given, (∀ item ∈ given, TypedItem item ∧ item.size ≤ stack.capacity) →
      ∃ count after result, stack.push allocator given = .ok (count, holding stack result, after) ∧
        Pushes stack.capacity stack.mode items given count result ∧
        StackRun config (.written stack.handle (.push stack given) :: history) after
          (holding stack result) result) ∧
    (items = [] → stack.pop allocator = .ok none) ∧
    (∀ older newest, items = older ++ [newest] →
      stack.pop allocator = .ok (some (keptItem newest, holding stack older)) ∧
        StackRun config history allocator (holding stack older) older) ∧
    (∀ (block : Block) offset text, offset + ElementType.strSize ≤ block.bytes.length →
      ∃ after, block.storeStr offset text ElementType.strSize = .ok after ∧
        after.loadStr offset ElementType.strSize = .ok (keptText text)) := by
  have holds := run.holds few
  refine ⟨holds.packed.top, holds.packed.fits, ?_, ?_, ?_, ?_, ?_⟩
  · rw [holds.packed.types, List.length_map]
  · intro given pushable
    obtain ⟨count, after, result, pushed, pushes, _⟩ := holds.pushed few pushable
    exact ⟨count, after, result, pushed, pushes, .pushed run pushable pushed pushes⟩
  · rintro rfl
    exact holds.popped_nothing
  · rintro older newest rfl
    have popped := (holds.popped few).1
    refine ⟨popped, ?_⟩
    have next := run.popped popped
    rwa [List.dropLast_concat] at next
  · intro block offset text inside
    exact loadStr_storeStr text inside

/-- A rolling stack of 68 bytes gives up a number for a text, and keeps a record of three bytes. -/
theorem stack_refines_list_rolling : ∃ history allocator stack record,
    StackRun ⟨68, 0⟩ history allocator stack [.record record, .value (.str "ab")] ∧
    record.values = [.u8 7, .i16 (-2)] ∧ stack.top = 67 ∧ stack.types.length = 2 ∧
    stack.pop allocator = .ok (some (.value (.str "ab"), holding stack [.record record])) ∧
    (holding stack [.record record]).pop allocator = .ok (some (.record record, holding stack [])) := by
  let number : Item := .value (.u32 1)
  let record : Record := ⟨.ofFields [("a", .u8), ("b", .i16)], [.u8 7, .i16 (-2)]⟩
  let text : Item := .value (.str "ab")
  obtain ⟨after, allocated⟩ : ∃ after, Stack.alloc (.ofConfig ⟨68, 0⟩) 66 .rolling =
      .ok (.ok (⟨⟨0, 0, 0, 68, .u8⟩, .rolling, 0, []⟩, after)) := ⟨_, rfl⟩
  have few : 1 < UInt32.size := by decide
  have created := StackRun.created .start trivial allocated
  have pushable : ∀ item ∈ [number, .record record, text], TypedItem item ∧ item.size ≤ 68 := by
    simp only [List.forall_mem_cons]
    exact ⟨⟨trivial, by decide⟩, ⟨⟨_, rfl, rfl⟩, by decide⟩, ⟨trivial, by decide⟩, nofun⟩
  obtain ⟨_, _, _, push, _⟩ := stack_refines_list created few
  obtain ⟨count, next, result, done, pushes, pushed⟩ := push _ pushable
  -- the first two items fit as they are, the text only without the number
  have first : IsLeast (roomWithout 68 [] number.size) 0 := ⟨by decide, fun _ _ => Nat.zero_le _⟩
  have second : IsLeast (roomWithout 68 [number] (Item.record record).size) 0 :=
    ⟨by decide, fun _ _ => Nat.zero_le _⟩
  have third : IsLeast (roomWithout 68 [number, .record record] text.size) 1 := by
    refine ⟨by decide, ?_⟩
    rintro (_ | dropped) fits
    · exact absurd fits (by decide)
    · exact Nat.le_add_left _ _
  have expected : Pushes 68 .rolling [] [number, .record record, text] 3 [.record record, text] :=
    ⟨rfl, .next first (.next second (.next third (.done _)))⟩
  obtain ⟨_, rfl⟩ := pushes.unique expected
  obtain ⟨top, _, length, _, _, pop, _⟩ := stack_refines_list pushed few
  obtain ⟨popped, rest⟩ := pop [.record record] text rfl
  obtain ⟨_, _, _, _, _, pop, _⟩ := stack_refines_list rest few
  have kept : keptItem text = text := by decide +kernel
  refine ⟨_, _, _, record, pushed, rfl, top, length, ?_, (pop [] (.record record) rfl).1⟩
  rw [popped, kept]

end Arcade.Proofs.Allocation
