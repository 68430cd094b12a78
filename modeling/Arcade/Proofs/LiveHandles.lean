import Mathlib.Data.List.Nodup
import Arcade.Proofs.AllocatorSteps

/-! Which handles are good. A handle is told from all others by its id and its generation, as long as
fewer blocks were allocated than the counters can count. The handles of the ranges in use are then
those that were handed out and not freed since. -/

namespace Arcade.Proofs.Allocation
open Arcade.Memory

variable {history later : History} {before after : Allocator} {handle : Handle} {range : Tracked}
  {front behind : List Tracked}

/-! ### What a program holds -/

/-- The handles that were handed out. -/
def handles : History → List Handle
  | [] => []
  | .placed _ _ _ handle _ :: history => handle :: handles history
  | _ :: history => handles history

/-- The handles that were handed out and not freed. -/
def live : History → List Handle
  | [] => []
  | .placed _ _ _ handle _ :: history => handle :: live history
  | .freed handle :: history => (live history).filter (· ≠ handle)
  | _ :: history => live history

def allocations (history : History) : Nat := (handles history).length

/-- The handle that a block is accessed with. -/
def Event.access? : Event → Option Handle
  | .freed handle => some handle
  | .written handle _ => some handle
  | .seen handle _ => some handle
  | _ => none

/-- Blocks are accessed with handles that were handed out before. -/
def Owns : History → Prop
  | [] => True
  | event :: history => (∀ handle ∈ event.access?, handle ∈ handles history) ∧ Owns history

theorem allocations_le (event : Event) (history : History) :
    allocations history ≤ allocations (event :: history) := by
  unfold allocations
  cases event <;> simp [handles]

/-! ### Ids and generations -/

def inUse (ranges : List Tracked) : List Handle := (ranges.filter (·.active)).map Tracked.handle

@[simp] theorem inUse_append (first last : List Tracked) : inUse (first ++ last) = inUse first ++ inUse last := by
  simp [inUse]

theorem inUse_cons_active (active : range.active = true) (rest : List Tracked) :
    inUse (range :: rest) = range.handle :: inUse rest := by
  simp [inUse, active]

theorem inUse_cons_free (free : range.active = false) (rest : List Tracked) :
    inUse (range :: rest) = inUse rest := by
  simp [inUse, free]

theorem mem_inUse {ranges : List Tracked} :
    handle ∈ inUse ranges ↔ ∃ range ∈ ranges, range.active = true ∧ range.handle = handle := by
  simp [inUse, and_assoc]

/-- A range is not older than the handles with its id, and is the range of those of its generation. -/
structure Dated (history : History) (nextId : UInt32) (range : Tracked) : Prop where
  id : range.id.toNat < nextId.toNat
  generation : range.generation.toNat ≤ allocations history
  older : ∀ handle ∈ handles history, handle.id = range.id →
    handle.generation.toNat ≤ range.generation.toNat
  same : ∀ handle ∈ handles history, handle.id = range.id →
    handle.generation = range.generation → range.handle = handle

structure Tracks (history : History) (allocator : Allocator) : Prop where
  ids : (allocator.ranges.map (·.id)).Nodup
  issued : allocator.nextId.toNat ≤ allocations history
  known : ∀ handle ∈ handles history, handle.id.toNat < allocator.nextId.toNat
  dated : ∀ range ∈ allocator.ranges, Dated history allocator.nextId range
  used : ∀ handle, handle ∈ live history ↔ handle ∈ inUse allocator.ranges

theorem Dated.mono {id nextId : UInt32} (dated : Dated history id range) (new : List Handle)
    (handed : handles later = new ++ handles history) (apart : ∀ handle ∈ new, handle.id ≠ range.id)
    (ids : id.toNat ≤ nextId.toNat) : Dated later nextId range := by
  have old : ∀ handle ∈ handles later, handle.id = range.id → handle ∈ handles history := by
    intro handle known same
    rw [handed] at known
    rcases List.mem_append.mp known with isNew | isOld
    · exact absurd same (apart handle isNew)
    · exact isOld
  refine ⟨Nat.lt_of_lt_of_le dated.id ids, ?_, ?_, ?_⟩
  · unfold allocations
    rw [handed, List.length_append]
    exact Nat.le_add_left_of_le dated.generation
  · intro handle known same
    exact dated.older handle (old handle known same) same
  · intro handle known same
    exact dated.same handle (old handle known same) same

theorem toNat_next {counter : UInt32} {bound : Nat} (low : counter.toNat ≤ bound)
    (few : bound + 1 < UInt32.size) : (counter + 1).toNat = counter.toNat + 1 := by
  rw [UInt32.toNat_add]
  exact Nat.mod_eq_of_lt (Nat.lt_of_le_of_lt (Nat.succ_le_succ low) few)

/-- The next generation of a range is later than all handles with its id. -/
theorem Dated.taken {nextId : UInt32} (dated : Dated history nextId range)
    (few : allocations history + 1 < UInt32.size) (type : ElementType) (size : Nat)
    (handed : handles later = (takenRange range type size).handle :: handles history) :
    Dated later nextId (takenRange range type size) := by
  have next : (range.generation + 1).toNat = range.generation.toNat + 1 := toNat_next dated.generation few
  refine ⟨dated.id, ?_, ?_, ?_⟩
  · show (range.generation + 1).toNat ≤ (handles later).length
    rw [next, handed]
    exact Nat.succ_le_succ dated.generation
  · intro handle known same
    rw [handed] at known
    rcases List.mem_cons.mp known with rfl | isOld
    · exact Nat.le_refl _
    · show handle.generation.toNat ≤ (range.generation + 1).toNat
      rw [next]
      exact Nat.le_succ_of_le (dated.older handle isOld same)
  · intro handle known same generation
    rw [handed] at known
    rcases List.mem_cons.mp known with rfl | isOld
    · rfl
    · have older := dated.older handle isOld same
      rw [generation] at older
      change (range.generation + 1).toNat ≤ range.generation.toNat at older
      omega

/-- A range with a new id is the range of its own handle only. -/
theorem Dated.fresh {nextId : UInt32} (low : range.id.toNat < nextId.toNat) (zero : range.generation = 0)
    (handed : handles later = inUse [range] ++ handles history)
    (unknown : ∀ handle ∈ handles history, handle.id ≠ range.id) : Dated later nextId range := by
  have own : ∀ handle ∈ handles later, handle.id = range.id → handle = range.handle := by
    intro handle known same
    rw [handed] at known
    rcases List.mem_append.mp known with isNew | isOld
    · obtain ⟨one, isRange, _, rfl⟩ := mem_inUse.mp isNew
      rw [List.mem_singleton.mp isRange]
    · exact absurd same (unknown handle isOld)
  refine ⟨low, zero ▸ Nat.zero_le _, ?_, ?_⟩
  · intro handle known same
    rw [own handle known same]
    exact Nat.le_refl _
  · intro handle known same _
    exact (own handle known same).symm

/-- The next id is new. -/
theorem ne_next {id nextId : UInt32} (low : id.toNat < nextId.toNat) : id ≠ nextId :=
  UInt32.ne_of_lt (UInt32.lt_iff_toNat_lt.mpr low)

theorem others_differ (ids : ((front ++ range :: behind).map (·.id)).Nodup) :
    ∀ other ∈ front ++ behind, other.id ≠ range.id := by
  have first : (range.id :: (front ++ behind).map (·.id)).Nodup := (List.perm_middle.map _).nodup_iff.mp ids
  intro other isOther same
  exact (List.nodup_cons.mp first).1 (same ▸ List.mem_map_of_mem isOther)

theorem mem_other {other : Tracked} (isOther : other ∈ front ++ behind) : other ∈ front ++ range :: behind :=
  List.perm_middle.mem_iff.mpr (List.mem_cons_of_mem _ isOther)

/-! ### Steps -/

/-- A free range is handed out again. -/
theorem Tracks.take {type : ElementType} {size : Nat} (tracks : Tracks history before)
    (ranges : before.ranges = front ++ range :: behind) (free : range.active = false)
    (handed : handles later = (takenRange range type size).handle :: handles history)
    (alive : live later = (takenRange range type size).handle :: live history)
    (few : allocations history + 1 < UInt32.size) :
    Tracks later { before with ranges := front ++ takenRange range type size :: behind } := by
  obtain ⟨ids, issued, known, dated, used⟩ := tracks
  rw [ranges] at ids dated used
  have old : Dated history before.nextId range := dated range (by simp)
  refine ⟨by simpa [takenRange] using ids, ?_, ?_, ?_, ?_⟩
  · show before.nextId.toNat ≤ (handles later).length
    rw [handed]
    exact Nat.le_succ_of_le issued
  · intro handle isKnown
    rw [handed] at isKnown
    rcases List.mem_cons.mp isKnown with rfl | isOld
    · exact old.id
    · exact known handle isOld
  · intro other tracked
    rcases List.mem_cons.mp (List.perm_middle.mem_iff.mp tracked) with rfl | isOther
    · exact old.taken few type size handed
    · refine (dated other (mem_other isOther)).mono [(takenRange range type size).handle] handed ?_ (Nat.le_refl _)
      intro handle isNew same
      rw [List.mem_singleton.mp isNew] at same
      exact others_differ ids other isOther same.symm
  · intro handle
    have before := used handle
    rw [inUse_append, inUse_cons_free free, List.mem_append] at before
    rw [alive, inUse_append, inUse_cons_active rfl, List.mem_cons, List.mem_append, List.mem_cons, before]
    tauto

/-- A range with a new id is tracked, either for a block or as the rest of another range. -/
theorem Tracks.add {size offset : Nat} {type : ElementType} {active : Bool} {ram : Array UInt8}
    (tracks : Tracks history before)
    (fresh : range = ⟨before.nextId, 0, offset, size, type, active⟩)
    (handed : handles later = inUse [range] ++ handles history)
    (alive : live later = inUse [range] ++ live history)
    (room : before.nextId.toNat + 1 ≤ allocations later) (few : allocations later < UInt32.size) :
    Tracks later
      { before with ram, ranges := before.ranges ++ [range], nextId := before.nextId + 1 } := by
  obtain ⟨ids, issued, known, dated, used⟩ := tracks
  have next : before.nextId.toNat < (before.nextId + 1).toNat := by
    rw [toNat_next (Nat.le_refl _) (Nat.lt_of_le_of_lt room few)]
    exact Nat.lt_succ_self _
  have id : range.id = before.nextId := by rw [fresh]
  have new : ∀ handle ∈ inUse [range], handle.id = before.nextId := by
    intro handle isNew
    obtain ⟨one, isRange, _, rfl⟩ := mem_inUse.mp isNew
    rw [List.mem_singleton.mp isRange]
    exact id
  refine ⟨?_, ?_, ?_, ?_, ?_⟩
  · rw [List.map_append, List.nodup_append]
    refine ⟨ids, List.nodup_singleton _, ?_⟩
    intro one isOld other isNew same
    obtain ⟨tracked, isTracked, rfl⟩ := List.mem_map.mp isOld
    rw [List.map_singleton, List.mem_singleton, id] at isNew
    exact ne_next (dated tracked isTracked).id (same.trans isNew)
  · show (before.nextId + 1).toNat ≤ allocations later
    rw [toNat_next (Nat.le_refl _) (Nat.lt_of_le_of_lt room few)]
    exact room
  · intro handle isKnown
    rw [handed] at isKnown
    rcases List.mem_append.mp isKnown with isNew | isOld
    · exact new handle isNew ▸ next
    · exact Nat.lt_trans (known handle isOld) next
  · intro other tracked
    rcases List.mem_append.mp tracked with isOld | isNew
    · refine (dated other isOld).mono (inUse [range]) handed ?_ (Nat.le_of_lt next)
      intro handle isNew same
      exact ne_next (dated other isOld).id (same.symm.trans (new handle isNew))
    · rw [List.mem_singleton.mp isNew]
      refine Dated.fresh (id ▸ next) (by rw [fresh]) handed ?_
      intro handle isKnown same
      exact ne_next (known handle isKnown) (same.trans id)
  · intro handle
    rw [alive, inUse_append, List.mem_append, List.mem_append, used handle]
    exact Or.comm

theorem Tracks.place {type kind : ElementType} {size count : Nat} {initial : List Value} {bytes : List UInt8}
    (tracks : Tracks history before) (few : allocations history + 1 < UInt32.size)
    (placed : before.place type size = .ok (handle, after)) :
    Tracks (.placed kind count initial handle bytes :: history) after := by
  obtain ⟨front, range, behind, ranges, free, _, _, rfl, rfl⟩ | ⟨_, _, rfl, rfl⟩ := place_cases placed
  · have taken : Tracks (.placed kind count initial (takenRange range type size).handle bytes :: history)
        { before with ranges := front ++ takenRange range type size :: behind } :=
      tracks.take ranges free rfl rfl few
    -- what is left of the range, if anything, is tracked under the next id
    unfold restOf
    split
    next => simpa using taken
    next => exact taken.add rfl rfl rfl (Nat.succ_le_succ tracks.issued) few
  · exact tracks.add rfl rfl rfl (Nat.succ_le_succ tracks.issued) few

/-- Only ranges that are not in use stop being tracked. -/
theorem Tracks.keep (tracks : Tracks history before) (handed : handles later = handles history)
    (alive : live later = live history) (kept : after.ranges.Sublist before.ranges)
    (same : inUse after.ranges = inUse before.ranges) (next : after.nextId = before.nextId) :
    Tracks later after := by
  obtain ⟨ids, issued, known, dated, used⟩ := tracks
  have count : allocations later = allocations history := congrArg List.length handed
  refine ⟨ids.sublist (kept.map _), ?_, ?_, ?_, ?_⟩
  · rw [next, count]
    exact issued
  · rw [handed, next]
    exact known
  · intro range tracked
    rw [next]
    exact (dated range (kept.subset tracked)).mono [] handed nofun (Nat.le_refl _)
  · rw [alive, same]
    exact used

theorem Tracks.find_live (tracks : Tracks history before) (alive : handle ∈ live history) :
    ∃ range, before.find handle = .ok range ∧ range.handle = handle := by
  obtain ⟨range, tracked, active, rfl⟩ := mem_inUse.mp ((tracks.used handle).mp alive)
  obtain ⟨first, found⟩ : ∃ first, before.ranges.find? (·.id = range.handle.id) = some first :=
    Option.isSome_iff_exists.mp (List.find?_isSome.mpr ⟨range, tracked, decide_eq_true rfl⟩)
  have same : first.id = range.handle.id := by simpa using List.find?_some found
  obtain rfl := List.inj_on_of_nodup_map tracks.ids (List.mem_of_find?_eq_some found) tracked same
  exact ⟨first, find_ok.mpr ⟨found, active, rfl⟩, rfl⟩

/-- Of the handles that were handed out, only good ones find a range. -/
theorem Tracks.live_of_find (tracks : Tracks history before) (known : handle ∈ handles history)
    (found : before.find handle = .ok range) : range.handle = handle ∧ handle ∈ live history := by
  obtain ⟨_, active, generation⟩ := find_ok.mp found
  obtain ⟨tracked, id⟩ := find_mem found
  have same := (tracks.dated range tracked).same handle known id.symm generation.symm
  exact ⟨same, (tracks.used handle).mpr (mem_inUse.mpr ⟨range, tracked, active, same⟩)⟩

theorem Tracks.free (tracks : Tracks history before) (known : handle ∈ handles history)
    (freed : before.free handle = .ok after) : Tracks (.freed handle :: history) after := by
  obtain ⟨front, range, behind, ranges, found, rfl⟩ := free_ok freed
  obtain ⟨same, _⟩ := tracks.live_of_find known found
  have active : range.active = true := (find_ok.mp found).2.1
  obtain ⟨ids, issued, isKnown, dated, used⟩ := tracks
  rw [ranges] at ids dated used
  refine ⟨by simpa using ids, issued, isKnown, ?_, ?_⟩
  · intro other tracked
    rcases List.mem_cons.mp (List.perm_middle.mem_iff.mp tracked) with rfl | isOther
    · have old := dated range (by simp)
      exact ⟨old.id, old.generation, old.older, old.same⟩
    · exact (dated other (mem_other isOther)).mono [] rfl nofun (Nat.le_refl _)
  · intro other
    have before := used other
    -- only the freed range had this id, so the handle is gone from those in use
    have apart : handle ∉ inUse front ++ inUse behind := by
      rw [← inUse_append]
      intro elsewhere
      obtain ⟨one, isOther, _, rfl⟩ := mem_inUse.mp elsewhere
      exact others_differ ids one isOther (congrArg Handle.id same).symm
    rw [inUse_append, inUse_cons_active active, same, List.mem_append, List.mem_cons] at before
    rw [inUse_append, inUse_cons_free rfl, live, List.mem_filter, before]
    rw [List.mem_append] at apart ⊢
    by_cases isFreed : other = handle
    · rw [isFreed]
      simp [apart]
    · simp [isFreed]

theorem Tracks.update {change : Change} (tracks : Tracks history before) (handed : handles later = handles history)
    (alive : live later = live history) (updated : before.update handle change.run = .ok after) :
    Tracks later after := by
  obtain ⟨range, block, _, _, rfl⟩ := update_ok updated
  exact tracks.keep handed alive (List.Sublist.refl _) rfl rfl

theorem inUse_filter (ranges : List Tracked) : inUse (ranges.filter (·.active)) = inUse ranges := by
  simp [inUse, List.filter_filter]

theorem Tracks.step {event : Event} (tracks : Tracks history before) (step : Step before event after)
    (owns : ∀ handle ∈ event.access?, handle ∈ handles history)
    (few : allocations (event :: history) < UInt32.size) : Tracks (event :: history) after := by
  cases step with
  | placed done =>
    obtain ⟨middle, placed, updated⟩ := alloc_ok done
    exact (tracks.place few placed).update rfl rfl updated
  | refused => exact tracks.keep rfl rfl (List.Sublist.refl _) rfl rfl
  | freed done => exact tracks.free (owns _ rfl) done
  | collected => exact tracks.keep rfl rfl List.filter_sublist (inUse_filter _) rfl
  | ticked time =>
    unfold Allocator.tick
    split
    · exact tracks.keep rfl rfl (List.Sublist.refl _) rfl rfl
    · exact tracks.keep rfl rfl List.filter_sublist (inUse_filter _) rfl
  | written done => exact tracks.update rfl rfl done
  | seen => exact tracks.keep rfl rfl (List.Sublist.refl _) rfl rfl

theorem Run.tracks {config : Config} (run : Run config history before) (owns : Owns history)
    (few : allocations history < UInt32.size) : Tracks history before := by
  induction run with
  | start => exact ⟨List.nodup_nil, Nat.le_refl _, nofun, nofun, fun handle => Iff.rfl⟩
  | step _ step ih =>
    obtain ⟨known, owns⟩ := owns
    exact (ih owns (Nat.lt_of_le_of_lt (allocations_le ..) few)).step step known few

end Arcade.Proofs.Allocation
