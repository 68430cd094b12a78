import Mathlib.Order.Bounds.Basic
import Arcade.Proofs.ItemBytes

/-! A stack of items as a list. First what pushing does to a list, said without a memory; then the block
of a stack, which holds such a list packed at its start, and in which pushing and popping do just
that. -/

namespace Arcade.Proofs
open Arcade.Memory

variable {capacity top : Nat} {mode : StackMode} {items given : List Item} {item : Item} {types : List ItemType}
  {block : Block} {bytes : List UInt8}

/-! ### Lists of items -/

def totalSize : List Item → Nat
  | [] => 0
  | item :: rest => item.size + totalSize rest

@[simp] theorem totalSize_append (first last : List Item) :
    totalSize (first ++ last) = totalSize first + totalSize last := by
  induction first with
  | nil => exact (Nat.zero_add _).symm
  | cons item rest ih => rw [List.cons_append, totalSize, totalSize, ih, Nat.add_assoc]

@[simp] theorem totalSize_singleton (item : Item) : totalSize [item] = item.size := rfl

/-- The numbers of oldest items that an item of a size can take the place of. -/
def roomWithout (capacity : Nat) (items : List Item) (size : Nat) : Set Nat :=
  {dropped | totalSize (items.drop dropped) + size ≤ capacity}

instance (dropped size : Nat) : Decidable (dropped ∈ roomWithout capacity items size) :=
  inferInstanceAs (Decidable (totalSize (items.drop dropped) + size ≤ capacity))

/-- The numbers of given items that fit behind others. -/
def fitting (capacity : Nat) (items given : List Item) : Set Nat :=
  {count | count ≤ given.length ∧ totalSize (items ++ given.take count) ≤ capacity}

/-- Each item in turn is appended, after as few of the oldest items were dropped as make it fit. -/
inductive Rolls (capacity : Nat) : (items given result : List Item) → Prop
  | done (items : List Item) : Rolls capacity items [] items
  | next {items given result : List Item} {item : Item} {dropped : Nat}
      (fewest : IsLeast (roomWithout capacity items item.size) dropped)
      (rest : Rolls capacity (items.drop dropped ++ [item]) given result) :
      Rolls capacity items (item :: given) result

/-- What pushing items does: a bounded stack appends the longest prefix of them that fits, a rolling one
drops old items for new ones. -/
def Pushes (capacity : Nat) (mode : StackMode) (items given : List Item) (count : Nat)
    (result : List Item) : Prop :=
  match mode with
  | .bounded => IsGreatest (fitting capacity items given) count ∧ result = items ++ given.take count
  | .rolling => count = given.length ∧ Rolls capacity items given result

theorem Rolls.unique {first last : List Item} (rolls : Rolls capacity items given first)
    (again : Rolls capacity items given last) : first = last := by
  induction rolls with
  | done =>
    cases again
    rfl
  | next fewest _ ih =>
    cases again with
    | next least rest =>
      obtain rfl := fewest.unique least
      exact ih rest

theorem Pushes.unique {count other : Nat} {first last : List Item}
    (pushes : Pushes capacity mode items given count first) (again : Pushes capacity mode items given other last) :
    count = other ∧ first = last := by
  cases mode with
  | bounded =>
    obtain ⟨longest, rfl⟩ := pushes
    obtain ⟨greatest, rfl⟩ := again
    obtain rfl := longest.unique greatest
    exact ⟨rfl, rfl⟩
  | rolling =>
    obtain ⟨rfl, rolls⟩ := pushes
    obtain ⟨rfl, again⟩ := again
    exact ⟨rfl, rolls.unique again⟩

theorem pushes_nothing (room : totalSize items ≤ capacity) : Pushes capacity mode items [] 0 items := by
  cases mode with
  | bounded =>
    refine ⟨⟨⟨Nat.le_refl _, by simpa using room⟩, ?_⟩, by simp⟩
    rintro count ⟨short, _⟩
    exact short
  | rolling => exact ⟨rfl, .done items⟩

theorem pushes_none (room : totalSize items ≤ capacity) (large : capacity < totalSize items + item.size) :
    Pushes capacity .bounded items (item :: given) 0 items := by
  refine ⟨⟨⟨Nat.zero_le _, by simpa using room⟩, ?_⟩, by simp⟩
  rintro (_ | count) ⟨_, fits⟩
  · exact Nat.le_refl 0
  · rw [List.take_succ_cons, totalSize_append, totalSize] at fits
    omega

/-- A bounded stack makes no room. -/
theorem pushes_first {dropped count : Nat} {result : List Item}
    (fewest : IsLeast (roomWithout capacity items item.size) dropped)
    (room : mode = .bounded → totalSize items + item.size ≤ capacity)
    (rest : Pushes capacity mode (items.drop dropped ++ [item]) given count result) :
    Pushes capacity mode items (item :: given) (count + 1) result := by
  cases mode with
  | bounded =>
    obtain rfl : dropped = 0 := Nat.le_zero.mp (fewest.2 (room rfl))
    obtain ⟨⟨⟨short, fits⟩, longest⟩, rfl⟩ := rest
    rw [List.drop_zero, List.append_assoc] at fits
    refine ⟨⟨⟨Nat.succ_le_succ short, fits⟩, ?_⟩, by simp⟩
    rintro (_ | other) ⟨short, fits⟩
    · exact Nat.zero_le _
    · refine Nat.succ_le_succ (longest ⟨Nat.le_of_succ_le_succ short, ?_⟩)
      rw [List.drop_zero, List.append_assoc]
      exact fits
  | rolling => exact ⟨congrArg Nat.succ rest.1, .next fewest rest.2⟩

/-! ### The block of a stack -/

def packedBytes (items : List Item) : List UInt8 := items.flatMap itemBytes

/-- A block of the capacity of a stack holds items one after another, from its start up to the top. -/
structure Packed (capacity : Nat) (items : List Item) (types : List ItemType) (top : Nat)
    (bytes : List UInt8) : Prop where
  typed : ∀ item ∈ items, TypedItem item
  types : types = items.map Item.type
  top : top = totalSize items
  length : bytes.length = capacity
  start : ∃ rest, bytes = packedBytes items ++ rest

theorem length_packedBytes (typed : ∀ item ∈ items, TypedItem item) :
    (packedBytes items).length = totalSize items := by
  induction items with
  | nil => rfl
  | cons item rest ih =>
    rw [List.forall_mem_cons] at typed
    rw [packedBytes, List.flatMap_cons, List.length_append, length_itemBytes typed.1]
    exact congrArg (item.size + ·) (ih typed.2)

theorem Packed.fits (packed : Packed capacity items types top bytes) : totalSize items ≤ capacity := by
  obtain ⟨rest, start⟩ := packed.start
  rw [← packed.length, start, List.length_append, length_packedBytes packed.typed]
  exact Nat.le_add_right _ _

theorem packed_nothing (length : bytes.length = capacity) : Packed capacity [] [] 0 bytes :=
  ⟨nofun, rfl, rfl, length, bytes, rfl⟩

/-- The others are moved to the start of the block, over the oldest item. -/
theorem Packed.evicted {oldest : Item} (packed : Packed capacity (oldest :: items) types top block.bytes) :
    ∃ moved after, block.slice oldest.size (top - oldest.size) = .ok moved ∧ block.splice 0 moved = .ok after ∧
      Packed capacity items (items.map Item.type) (top - oldest.size) after.bytes := by
  obtain ⟨typed, _, rfl, length, rest, start⟩ := packed
  obtain ⟨own, others⟩ := List.forall_mem_cons.mp typed
  obtain ⟨held, type⟩ := block
  rw [packedBytes, List.flatMap_cons] at start
  obtain rfl : held = itemBytes oldest ++ packedBytes items ++ rest := start
  have left : totalSize (oldest :: items) - oldest.size = totalSize items := Nat.add_sub_cancel_left ..
  have sliced := slice_part type (itemBytes oldest) (packedBytes items) rest
  have room : (packedBytes items).length ≤ (itemBytes oldest ++ packedBytes items ++ rest).length := by
    simp only [List.length_append]
    omega
  have spliced := splice_part type [] room
  rw [length_itemBytes own, length_packedBytes others] at sliced
  rw [left]
  refine ⟨_, _, sliced, spliced, others, rfl, rfl, ?_, _, rfl⟩
  rw [← length]
  exact (shape_splice spliced).length

theorem Packed.evict {size : Nat} (packed : Packed capacity items types top block.bytes) (fits : size ≤ capacity) :
    ∃ dropped types' top' after, Stack.evict capacity size types top block = .ok (types', top', after) ∧
      IsLeast (roomWithout capacity items size) dropped ∧
      Packed capacity (items.drop dropped) types' top' after.bytes := by
  induction items generalizing types top block with
  | nil =>
    obtain rfl := packed.types
    refine ⟨0, _, _, _, rfl, ⟨?_, fun _ _ => Nat.zero_le _⟩, packed⟩
    show 0 + size ≤ capacity
    omega
  | cons oldest items ih =>
    obtain rfl := packed.types
    rw [List.map_cons, Stack.evict]
    split
    next room =>
      refine ⟨0, _, _, _, rfl, ⟨?_, fun _ _ => Nat.zero_le _⟩, packed⟩
      rw [packed.top] at room
      exact room
    next large =>
      obtain ⟨moved, after, sliced, spliced, others⟩ := packed.evicted
      obtain ⟨dropped, types', top', final, evicted, ⟨room, fewest⟩, packed'⟩ := ih others
      have whole : ¬ top < oldest.type.size := by
        rw [packed.top]
        exact Nat.not_lt.mpr (Nat.le_add_right oldest.size _)
      rw [if_neg whole]
      refine ⟨dropped + 1, types', top', final, ?_, ⟨room, ?_⟩, packed'⟩
      · exact Except.bind_ok.mpr ⟨moved, sliced, Except.bind_ok.mpr ⟨after, spliced, evicted⟩⟩
      · rintro (_ | count) enough
        · rw [packed.top] at large
          exact absurd enough large
        · exact Nat.succ_le_succ (fewest enough)

theorem Packed.append (packed : Packed capacity items types top block.bytes) (small : capacity < sizeLimit)
    (typed : TypedItem item) (fits : totalSize items + item.size ≤ capacity) :
    ∃ after, item.store top block = .ok after ∧
      Packed capacity (items ++ [item]) (types ++ [item.type]) (top + item.size) after.bytes := by
  obtain ⟨others, rfl, rfl, length, rest, start⟩ := packed
  obtain ⟨held, type⟩ := block
  obtain rfl : held = packedBytes items ++ rest := start
  have whole : totalSize items + rest.length = capacity := by
    rw [← length, List.length_append, length_packedBytes others]
  have room : item.size ≤ rest.length := by omega
  have below : (packedBytes items).length + rest.length < sizeLimit := by
    rw [length_packedBytes others]
    omega
  have stored := store_item type typed room below
  rw [length_packedBytes others] at stored
  refine ⟨_, stored, ?_, ?_, ?_, ?_, rest.drop item.size, ?_⟩
  · intro one member
    rcases List.mem_append.mp member with old | new
    · exact others one old
    · rw [List.mem_singleton.mp new]
      exact typed
  · simp
  · simp
  · rw [← length]
    exact (shape_storeItem stored).length
  · simp [packedBytes]

theorem Packed.push (mode : StackMode) (block : Block) (packed : Packed capacity items types top block.bytes)
    (small : capacity < sizeLimit) (pushable : ∀ item ∈ given, TypedItem item ∧ item.size ≤ capacity) :
    ∃ count types' top' after result,
      Stack.pushItems capacity mode given types top block = .ok (count, types', top', after) ∧
      Pushes capacity mode items given count result ∧ Packed capacity result types' top' after.bytes := by
  induction given generalizing items types top block with
  | nil => exact ⟨0, types, top, block, items, rfl, pushes_nothing packed.fits, packed⟩
  | cons item given ih =>
    obtain ⟨⟨typed, fits⟩, others⟩ := List.forall_mem_cons.mp pushable
    have place : top = totalSize items := packed.top
    rw [Stack.pushItems]
    split
    next refused =>
      obtain ⟨large, rfl⟩ : capacity < totalSize items + item.size ∧ mode = .bounded := by
        have neverLarger : ¬ capacity < item.size := Nat.not_lt.mpr fits
        simpa [neverLarger, place] using refused
      exact ⟨0, types, top, block, items, rfl, pushes_none packed.fits large, packed⟩
    next taken =>
      obtain ⟨dropped, types', top', middle, evicted, fewest, packed'⟩ := packed.evict fits
      obtain ⟨next, stored, appended⟩ := packed'.append small typed fewest.1
      obtain ⟨count, finalTypes, finalTop, after, result, pushed, pushes, held⟩ := ih next appended others
      refine ⟨count + 1, finalTypes, finalTop, after, result, ?_, pushes_first fewest ?_ pushes, held⟩
      · exact Except.bind_ok.mpr ⟨_, evicted, Except.bind_ok.mpr ⟨_, stored,
          Except.bind_ok.mpr ⟨_, pushed, rfl⟩⟩⟩
      · rintro rfl
        simpa [place] using taken

/-- The newest item is read back from below the top. -/
theorem Packed.pop (block : Block) (packed : Packed capacity (items ++ [item]) types top block.bytes)
    (small : capacity < sizeLimit) :
    types.getLast? = some item.type ∧ item.size ≤ top ∧
      item.type.load (top - item.size) block = .ok (keptItem item) ∧
      Packed capacity items types.dropLast (top - item.size) block.bytes := by
  have fits := packed.fits
  obtain ⟨typed, rfl, rfl, length, rest, start⟩ := packed
  obtain ⟨others, own⟩ := List.forall_mem_append.mp typed
  obtain ⟨held, type⟩ := block
  rw [packedBytes, List.flatMap_append, List.flatMap_singleton] at start
  obtain rfl : held = packedBytes items ++ itemBytes item ++ rest := start
  rw [totalSize_append, totalSize_singleton] at fits ⊢
  have below : (packedBytes items).length + item.size < sizeLimit := by
    rw [length_packedBytes others]
    omega
  have loaded := load_item type rest (own item (List.mem_singleton_self item)) below
  rw [length_packedBytes others] at loaded
  rw [Nat.add_sub_cancel]
  refine ⟨by simp, Nat.le_add_left _ _, loaded, others, by simp, rfl, length, itemBytes item ++ rest, ?_⟩
  exact List.append_assoc ..

/-! ### Pushing as a write -/

variable {size top' count : Nat} {types' : List ItemType} {after : Block}

theorem shape_evict (evicted : Stack.evict capacity size types top block = .ok (types', top', after)) :
    SameShape block after := by
  induction types generalizing top block with
  | nil =>
    cases evicted
    exact .refl _
  | cons oldest rest ih =>
    rw [Stack.evict] at evicted
    split at evicted
    · cases evicted
      exact .refl _
    · split at evicted
      · cases evicted
      · obtain ⟨moved, _, evicted⟩ := Except.bind_ok.mp evicted
        obtain ⟨next, spliced, evicted⟩ := Except.bind_ok.mp evicted
        exact (shape_splice spliced).trans (ih evicted)

theorem shape_pushItems
    (pushed : Stack.pushItems capacity mode given types top block = .ok (count, types', top', after)) :
    SameShape block after := by
  induction given generalizing types top block count with
  | nil =>
    cases pushed
    exact .refl _
  | cons item given ih =>
    rw [Stack.pushItems] at pushed
    split at pushed
    · cases pushed
      exact .refl _
    · obtain ⟨⟨_, _, middle⟩, evicted, pushed⟩ := Except.bind_ok.mp pushed
      obtain ⟨next, stored, pushed⟩ := Except.bind_ok.mp pushed
      obtain ⟨⟨_, _, _, last⟩, others, done⟩ := Except.bind_ok.mp pushed
      cases done
      exact ((shape_evict evicted).trans (shape_storeItem stored)).trans (ih others)

/-- What a push does to the bytes of a stack. -/
def Change.push (stack : Stack) (given : List Item) : Change where
  run block := do
    let (_, _, _, after) ← Stack.pushItems stack.capacity stack.mode given stack.types stack.top block
    return after
  keeps block after done := by
    obtain ⟨⟨_, _, _, last⟩, pushed, done⟩ := Except.bind_ok.mp done
    cases done
    exact (shape_pushItems pushed).length

theorem Change.push_run {stack : Stack}
    (pushed : Stack.pushItems stack.capacity stack.mode given stack.types stack.top block =
      .ok (count, types, top, after)) : (Change.push stack given).run block = .ok after :=
  Except.bind_ok.mpr ⟨_, pushed, rfl⟩

end Arcade.Proofs
