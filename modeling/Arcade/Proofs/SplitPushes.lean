import Arcade.Proofs.StackRuns
import Mathlib.Data.List.TakeWhile

/-! Pushes onto a rolling stack, in one call or in several. Items that are no larger than the stack can be pushed in
any number of calls. One that is larger ends the call that it is pushed in, so what follows it is pushed by later
calls only. -/

namespace Arcade.Proofs.Allocation
open Arcade.Memory

variable {config : Config} {history : History} {allocator after : Allocator} {stack next : Stack}
  {range : Tracked} {capacity count : Nat} {mode : StackMode} {items given : List Item}
  {item : Item} {types types' : List ItemType} {block final : Block} {ram : Array UInt8} {bytes others : List UInt8}

/-! ### Items -/

/-- An item that is larger than the stack ends the push, in either mode. -/
theorem pushItems_large (large : capacity < item.size) (mode : StackMode) (rest : List Item) (types : List ItemType)
    (top : Nat) (block : Block) :
    Stack.pushItems capacity mode (item :: rest) types top block = .ok (0, types, top, block) := by
  have beyond : capacity < top + item.size := Nat.lt_add_left top large
  rw [Stack.pushItems, if_pos (by simp [beyond, large])]

/-- All others do not, so what follows them is pushed to where they left off. -/
theorem pushItems_append (first last : List Item) (fits : ∀ item ∈ first, item.size ≤ capacity)
    (types : List ItemType) (top : Nat) (block : Block) :
    Stack.pushItems capacity .rolling (first ++ last) types top block = (do
      let (count, types, top, block) ← Stack.pushItems capacity .rolling first types top block
      let (more, rest) ← Stack.pushItems capacity .rolling last types top block
      return (count + more, rest)) := by
  induction first generalizing types top block with
  | nil =>
    rw [List.nil_append]
    show _ = (Stack.pushItems capacity .rolling last types top block >>= fun (more, rest) => .ok (0 + more, rest))
    cases Stack.pushItems capacity .rolling last types top block with
    | error fault => rfl
    | ok result => exact congrArg (fun count => Except.ok (count, result.2)) (Nat.zero_add _).symm
  | cons item first ih =>
    obtain ⟨small, fits⟩ := List.forall_mem_cons.mp fits
    have taken : ¬ (capacity < top + item.size && (StackMode.rolling = .bounded || capacity < item.size)) = true := by
      simp [Nat.not_lt.mpr small]
    rw [List.cons_append, Stack.pushItems, Stack.pushItems, if_neg taken, if_neg taken]
    cases Stack.evict capacity item.size types top block with
    | error fault => rfl
    | ok evicted =>
      obtain ⟨types, top, block⟩ := evicted
      cases stored : item.store top block with
      | error fault => simp [stored, Bind.bind, Except.bind]
      | ok block =>
        simp only [stored, ih fits, Bind.bind, Except.bind]
        cases Stack.pushItems capacity .rolling first (types ++ [item.type]) (top + item.size) block with
        | error fault => rfl
        | ok result =>
          obtain ⟨count, types, top, block⟩ := result
          dsimp only [pure, Except.pure]
          cases Stack.pushItems capacity .rolling last types top block with
          | error fault => rfl
          | ok rest => exact congrArg (fun count => Except.ok (count, rest.2)) (Nat.add_right_comm _ _ _)

/-! ### Memory -/

/-- A push in a memory is one to the bytes of the stack's block. -/
theorem push_of_find (found : allocator.find stack.handle = .ok range) (items : List Item) :
    stack.push allocator items = (do
      let (count, types, top, block) ← Stack.pushItems stack.capacity stack.mode items stack.types stack.top
        ⟨readBytes allocator.ram range.offset range.length, range.type⟩
      return (count, { stack with top, types },
        { allocator with ram := writeBytes allocator.ram range.offset block.bytes })) := by
  unfold Stack.push
  rw [view_eq found]
  show (Stack.pushItems _ _ _ _ _ _ >>= _) = _
  congr 1
  funext ⟨count, types, top, block⟩
  have written : allocator.update stack.handle (fun _ => .ok block) =
      .ok { allocator with ram := writeBytes allocator.ram range.offset block.bytes } := update_eq found rfl
  show (allocator.update stack.handle _ >>= _) = _
  rw [written]
  rfl

/-- A push leaves the stack and its block where they are. -/
theorem push_keeps (good : WellFormed allocator) (found : allocator.find stack.handle = .ok range)
    (pushed : stack.push allocator items = .ok (count, next, after)) :
    next.handle = stack.handle ∧ next.mode = stack.mode ∧ after.find stack.handle = .ok range ∧
      WellFormed after := by
  rw [push_of_find found] at pushed
  obtain ⟨⟨_, types, top, block⟩, _, done⟩ := Except.bind_ok.mp pushed
  cases done
  have memory : (writeBytes allocator.ram range.offset block.bytes).size = allocator.capacity := size_writeBytes ..
  exact ⟨rfl, rfl, found, good.keep (List.Sublist.refl _) memory⟩

theorem push_nothing (good : WellFormed allocator) (found : allocator.find stack.handle = .ok range) :
    stack.push allocator [] = .ok (0, stack, allocator) := by
  rw [push_of_find found]
  show Except.ok (0, stack, { allocator with ram := writeBytes _ _ _ }) = _
  rw [writeBytes_readBytes (good.find_inside found)]

theorem push_large (good : WellFormed allocator) (found : allocator.find stack.handle = .ok range)
    (large : stack.capacity < item.size) (rest : List Item) :
    stack.push allocator (item :: rest) = .ok (0, stack, allocator) := by
  rw [← push_nothing good found, push_of_find found, push_of_find found, pushItems_large large]
  rfl

theorem push_append (good : WellFormed allocator) (found : allocator.find stack.handle = .ok range)
    (rolling : stack.mode = .rolling) (first last : List Item) (fits : ∀ item ∈ first, item.size ≤ stack.capacity) :
    stack.push allocator (first ++ last) = (do
      let (count, next, after) ← stack.push allocator first
      let (more, final, memory) ← next.push after last
      return (count + more, final, memory)) := by
  have inside := good.find_inside found
  obtain ⟨handle, mode, start, started⟩ := stack
  obtain rfl : mode = .rolling := rolling
  rw [push_of_find found, push_of_find found]
  dsimp only
  rw [pushItems_append first last fits]
  cases pushed : Stack.pushItems (Stack.capacity ⟨handle, .rolling, start, started⟩) .rolling first started start
      ⟨readBytes allocator.ram range.offset range.length, range.type⟩ with
  | error fault => rfl
  | ok result =>
    obtain ⟨count, types, top, block⟩ := result
    have length : block.bytes.length = range.length := (shape_pushItems pushed).length.trans (length_readBytes inside)
    have type : block.type = range.type := (shape_pushItems pushed).type
    let next : Stack := ⟨handle, .rolling, top, types⟩
    let written : Allocator := { allocator with ram := writeBytes allocator.ram range.offset block.bytes }
    have there : written.find next.handle = .ok range := found
    have seen : (⟨readBytes written.ram range.offset range.length, range.type⟩ : Block) = block := by
      rw [← length, ← type]
      exact congrArg (Block.mk · block.type) (readBytes_writeBytes (by rwa [length]))
    show _ = (next.push written last >>= fun (more, final, memory) => .ok (count + more, final, memory))
    rw [push_of_find there, seen]
    show (Stack.pushItems next.capacity .rolling last types top block >>= _) >>= _ =
      (Stack.pushItems next.capacity .rolling last types top block >>= _) >>= _
    cases others : Stack.pushItems next.capacity .rolling last types top block with
    | error fault => rfl
    | ok result =>
      obtain ⟨more, types, top, final⟩ := result
      have same : final.bytes.length = range.length := (shape_pushItems others).length.trans length
      have memory : writeBytes written.ram range.offset final.bytes =
          writeBytes allocator.ram range.offset final.bytes :=
        writeBytes_again (length.trans same.symm) (by rwa [same])
      show Except.ok (count + more, _, { allocator with ram := writeBytes allocator.ram range.offset final.bytes }) =
        Except.ok (count + more, _, { allocator with ram := writeBytes written.ram range.offset final.bytes })
      rw [memory]

/-! ### Calls -/

/-- Pushes items one call at a time. Answers how many were pushed in all. -/
def pushEach : List Item → Stack → Allocator → Except Fault (Nat × Stack × Allocator)
  | [], stack, allocator => .ok (0, stack, allocator)
  | item :: rest, stack, allocator => do
    let (count, stack, allocator) ← stack.push allocator [item]
    let (more, stack, allocator) ← pushEach rest stack allocator
    return (count + more, stack, allocator)

theorem push_eq_pushEach (good : WellFormed allocator) (found : allocator.find stack.handle = .ok range)
    (rolling : stack.mode = .rolling) (items : List Item) (fits : ∀ item ∈ items, item.size ≤ stack.capacity) :
    stack.push allocator items = pushEach items stack allocator := by
  induction items generalizing stack allocator with
  | nil => exact push_nothing good found
  | cons item rest ih =>
    obtain ⟨own, others⟩ := List.forall_mem_cons.mp fits
    rw [← List.singleton_append, push_append good found rolling [item] rest (List.forall_mem_singleton.mpr own)]
    show _ = (stack.push allocator [item] >>= _)
    cases first : stack.push allocator [item] with
    | error fault => rfl
    | ok result =>
      obtain ⟨count, next, after⟩ := result
      obtain ⟨handle, mode, there, good⟩ := push_keeps good found first
      have capacity : next.capacity = stack.capacity := congrArg Handle.length handle
      show (next.push after rest >>= _) = (pushEach rest next after >>= _)
      rw [ih good (handle ▸ there) (mode.trans rolling) (capacity ▸ others)]

/-- Pushed by itself, an item that is larger than the stack does nothing. -/
theorem pushEach_filter (good : WellFormed allocator) (found : allocator.find stack.handle = .ok range)
    (items : List Item) :
    pushEach (items.filter (·.size ≤ stack.capacity)) stack allocator = pushEach items stack allocator := by
  induction items generalizing stack allocator with
  | nil => rfl
  | cons item rest ih =>
    by_cases small : item.size ≤ stack.capacity
    · rw [List.filter_cons_of_pos (by simpa using small)]
      show (stack.push allocator [item] >>= _) = (stack.push allocator [item] >>= _)
      cases first : stack.push allocator [item] with
      | error fault => rfl
      | ok result =>
        obtain ⟨count, next, after⟩ := result
        obtain ⟨handle, _, there, good⟩ := push_keeps good found first
        have capacity : stack.capacity = next.capacity := congrArg Handle.length handle.symm
        show (pushEach (rest.filter (·.size ≤ stack.capacity)) next after >>= _) = (pushEach rest next after >>= _)
        rw [capacity, ih good (handle ▸ there)]
    · rw [List.filter_cons_of_neg (by simpa using small), ih good found, pushEach,
        push_large good found (Nat.lt_of_not_le small)]
      show _ = (pushEach rest stack allocator >>= fun (more, stack, allocator) => .ok (0 + more, stack, allocator))
      cases pushEach rest stack allocator with
      | error fault => rfl
      | ok result => exact congrArg (fun count => Except.ok (count, result.2)) (Nat.zero_add _).symm

/-- Pushed among others, it ends the call. -/
theorem push_takeWhile (good : WellFormed allocator) (found : allocator.find stack.handle = .ok range)
    (rolling : stack.mode = .rolling) (items : List Item) :
    stack.push allocator (items.takeWhile (·.size ≤ stack.capacity)) = stack.push allocator items := by
  have fits : ∀ item ∈ items.takeWhile (·.size ≤ stack.capacity), item.size ≤ stack.capacity :=
    fun item member => by simpa using List.mem_takeWhile_imp member
  conv_rhs => rw [← List.takeWhile_append_dropWhile (p := (·.size ≤ stack.capacity)) (l := items)]
  rw [push_append good found rolling _ _ fits]
  cases first : stack.push allocator (items.takeWhile (·.size ≤ stack.capacity)) with
  | error fault => rfl
  | ok result =>
    obtain ⟨count, next, after⟩ := result
    obtain ⟨handle, _, there, good⟩ := push_keeps good found first
    have there : after.find next.handle = .ok range := handle ▸ there
    have capacity : next.capacity = stack.capacity := congrArg Handle.length handle
    have ended : next.push after (items.dropWhile (·.size ≤ stack.capacity)) = .ok (0, next, after) := by
      cases left : items.dropWhile (·.size ≤ stack.capacity) with
      | nil => exact push_nothing good there
      | cons item rest =>
        have large := List.head?_dropWhile_not (fun item : Item => item.size ≤ stack.capacity) items
        rw [left] at large
        exact push_large good there (capacity ▸ Nat.lt_of_not_le (of_decide_eq_false large)) rest
    show _ = (next.push after _ >>= fun (more, final, memory) => .ok (count + more, final, memory))
    rw [ended]
    rfl

/-! ### Every run -/

theorem takeWhile_sublist_filter (fits : Item → Bool) (items : List Item) :
    (items.takeWhile fits).Sublist (items.filter fits) := by
  have whole : (items.takeWhile fits).filter fits = items.takeWhile fits :=
    List.filter_eq_self.mpr fun _ member => List.mem_takeWhile_imp member
  exact whole ▸ (List.takeWhile_sublist fits).filter fits

/-- Items that are no larger than the stack are all pushed, in one call as in several. -/
theorem StackRun.pushed_split (run : StackRun config history allocator stack items)
    (few : allocations history < UInt32.size) (rolling : stack.mode = .rolling)
    (pushable : ∀ item ∈ given, TypedItem item ∧ item.size ≤ stack.capacity) :
    ∃ next after history result, stack.push allocator given = .ok (given.length, next, after) ∧
      pushEach given stack allocator = .ok (given.length, next, after) ∧
      StackRun config history after next result := by
  have holds := run.holds few
  obtain ⟨range, found, _⟩ := (holds.run.tracks holds.owns few).find_live holds.alive
  obtain ⟨count, after, result, pushed, actual, _⟩ := holds.pushed few pushable
  obtain rfl : count = given.length := by
    rw [rolling] at actual
    exact actual.1
  refine ⟨_, after, _, result, pushed, ?_, .pushed run pushable pushed actual⟩
  rw [← push_eq_pushEach holds.run.wellFormed.1 found rolling given fun item member => (pushable item member).2, pushed]

/-- In every state of a rolling stack, a push in one call does what a push of its items before the first one that
is larger than the stack does, and answers how many these are. In calls of their own, all items that are no larger
than the stack are pushed, and the others do nothing. So the two do the same exactly when the items that are
larger come last. -/
theorem push_rolling (run : StackRun config history allocator stack items)
    (few : allocations history < UInt32.size) (rolling : stack.mode = .rolling) (given : List Item)
    (typed : ∀ item ∈ given, TypedItem item) :
    let fits : Item → Bool := (·.size ≤ stack.capacity)
    (∃ next after history result, stack.push allocator given = .ok ((given.takeWhile fits).length, next, after) ∧
      pushEach (given.takeWhile fits) stack allocator = .ok ((given.takeWhile fits).length, next, after) ∧
      StackRun config history after next result) ∧
    (∃ next after history result, pushEach given stack allocator = .ok ((given.filter fits).length, next, after) ∧
      stack.push allocator (given.filter fits) = .ok ((given.filter fits).length, next, after) ∧
      StackRun config history after next result) ∧
    (stack.push allocator given = pushEach given stack allocator ↔ given.filter fits = given.takeWhile fits) := by
  intro fits
  have holds := run.holds few
  have good := holds.run.wellFormed.1
  obtain ⟨range, found, _⟩ := (holds.run.tracks holds.owns few).find_live holds.alive
  obtain ⟨next, after, history, result, once, each, later⟩ := run.pushed_split few
    rolling fun item member =>
      ⟨typed item ((List.takeWhile_sublist fits).mem member), of_decide_eq_true (List.mem_takeWhile_imp (p := fits) member)⟩
  obtain ⟨last, final, others, kept, together, apart, latest⟩ := run.pushed_split few
    rolling fun item member =>
      ⟨typed item (List.mem_of_mem_filter member), of_decide_eq_true (List.of_mem_filter (p := fits) member)⟩
  rw [push_takeWhile good found rolling] at once
  have whole := apart
  rw [pushEach_filter good found] at whole
  refine ⟨⟨next, after, history, result, once, each, later⟩, ⟨last, final, others, kept, whole, together, latest⟩, ?_⟩
  constructor
  · intro equal
    rw [once, whole] at equal
    have length := congrArg Prod.fst (Except.ok.inj equal)
    exact ((takeWhile_sublist_filter fits given).eq_of_length length).symm
  · intro equal
    rw [once, ← each, ← equal, apart, whole]

/-- A stack of eight bytes and a text between two numbers. -/
theorem push_rolling_text : ∃ history allocator stack given, StackRun ⟨64, 0⟩ history allocator stack [] ∧
    stack.mode = .rolling ∧ given = [.value (.u8 1), .value (.str "big"), .value (.u8 2)] ∧
    (∃ next after history result, stack.push allocator given = .ok (1, next, after) ∧
      StackRun ⟨64, 0⟩ history after next result) ∧
    (∃ next after history result, pushEach given stack allocator = .ok (2, next, after) ∧
      StackRun ⟨64, 0⟩ history after next result) := by
  obtain ⟨after, allocated⟩ : ∃ after, Stack.alloc (.ofConfig ⟨64, 0⟩) 8 .rolling =
      .ok (.ok (⟨⟨0, 0, 0, 8, .u8⟩, .rolling, 0, []⟩, after)) := ⟨_, rfl⟩
  have few : 1 < UInt32.size := by decide
  have created := StackRun.created .start trivial allocated
  have typed : ∀ item ∈ [Item.value (.u8 1), .value (.str "big"), .value (.u8 2)], TypedItem item := by
    simp only [List.forall_mem_cons]
    exact ⟨trivial, trivial, trivial, nofun⟩
  obtain ⟨⟨_, _, _, _, once, _, first⟩, ⟨_, _, _, _, each, _, second⟩, _⟩ :=
    push_rolling created few rfl _ typed
  exact ⟨_, _, _, _, created, rfl, rfl, ⟨_, _, _, _, once, first⟩, ⟨_, _, _, _, each, second⟩⟩

theorem push_rolling_not_split : ¬ ∀ (config : Config) (history : History) (allocator : Allocator) (stack : Stack)
    (items given : List Item), StackRun config history allocator stack items →
      allocations history < UInt32.size → stack.mode = .rolling → (∀ item ∈ given, TypedItem item) →
      stack.push allocator given = pushEach given stack allocator := by
  intro split
  let stack : Stack := ⟨⟨0, 0, 0, 8, .u8⟩, .rolling, 0, []⟩
  let given : List Item := [.value (.u8 1), .value (.str "big"), .value (.u8 2)]
  obtain ⟨after, allocated, once, each⟩ : ∃ after,
      Stack.alloc (.ofConfig ⟨64, 0⟩) 8 .rolling = .ok (.ok (stack, after)) ∧
      (stack.push after given).map Prod.fst = .ok 1 ∧ (pushEach given stack after).map Prod.fst = .ok 2 :=
    ⟨_, rfl, by decide +kernel, by decide +kernel⟩
  have few : 1 < UInt32.size := by decide
  have typed : ∀ item ∈ given, TypedItem item := by
    simp only [given, List.forall_mem_cons]
    exact ⟨trivial, trivial, trivial, nofun⟩
  have same := split _ _ _ _ _ _ (.created .start trivial allocated) few rfl typed
  rw [same, each] at once
  cases once

end Arcade.Proofs.Allocation
