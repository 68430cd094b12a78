import Arcade.Proofs.LiveBlocks
import Arcade.Proofs.TypedAccess
import Mathlib.Data.List.Forall2

/-! Records in memory. The fields of a layout tile its bytes, the values of a record keep the types of its fields
whatever they are set to, and so a record that is stored is read back by its layout. -/

namespace Arcade.Proofs
open Arcade.Memory

variable {fields before behind : List (String × ElementType)} {record : Record} {field : Field} {type : ElementType}
  {name : String} {start place : Nat}

/-! ### Layouts -/

theorem listed_placeFrom (start : Nat) (fields : List (String × ElementType)) :
    (Layout.placeFrom start fields).map (fun field => (field.name, field.type)) = fields := by
  induction fields generalizing start with
  | nil => rfl
  | cons field rest ih => rw [Layout.placeFrom, List.map_cons, ih]

theorem bounds_placeFrom (member : field ∈ Layout.placeFrom start fields) :
    start ≤ field.offset ∧ field.offset + field.type.size ≤ start + Layout.sizeOf fields := by
  induction fields generalizing start with
  | nil => cases member
  | cons first rest ih =>
    rw [Layout.sizeOf]
    obtain rfl | isLater := List.mem_cons.mp member
    · dsimp only
      omega
    · have later := ih isLater
      omega

theorem ordered_placeFrom (start : Nat) (fields : List (String × ElementType)) :
    (Layout.placeFrom start fields).Pairwise fun first last => first.offset + first.type.size ≤ last.offset := by
  induction fields generalizing start with
  | nil => exact .nil
  | cons first rest ih => exact .cons (fun last member => (bounds_placeFrom member).1) (ih _)

theorem covered_placeFrom (low : start ≤ place) (high : place < start + Layout.sizeOf fields) :
    ∃ field ∈ Layout.placeFrom start fields, field.offset ≤ place ∧ place < field.offset + field.type.size := by
  induction fields generalizing start with
  | nil => exact absurd high (Nat.not_lt.mpr low)
  | cons first rest ih =>
    obtain ⟨name, type⟩ := first
    rw [Layout.sizeOf] at high
    by_cases own : place < start + type.size
    · exact ⟨_, List.mem_cons_self, low, own⟩
    · obtain ⟨field, member, there⟩ := ih (Nat.le_of_not_lt own) (by omega)
      exact ⟨field, List.mem_cons_of_mem _ member, there⟩

/-- The fields of a layout are the given ones, in their order, and every byte of the layout belongs to one of them. -/
structure Tiles (fields : List (String × ElementType)) (layout : Layout) : Prop where
  listed : layout.fields.map (fun field => (field.name, field.type)) = fields
  ordered : layout.fields.Pairwise fun first last => first.offset + first.type.size ≤ last.offset
  inside : ∀ field ∈ layout.fields, field.offset + field.type.size ≤ layout.size
  covered : ∀ place < layout.size, ∃ field ∈ layout.fields, field.offset ≤ place ∧
    place < field.offset + field.type.size

theorem tiles_ofFields (fields : List (String × ElementType)) : Tiles fields (.ofFields fields) where
  listed := listed_placeFrom 0 fields
  ordered := ordered_placeFrom 0 fields
  inside field member := by
    have bounds := (bounds_placeFrom member).2
    rwa [Nat.zero_add] at bounds
  covered place low := covered_placeFrom (Nat.zero_le place) ((Nat.zero_add _).symm ▸ low)

/-! ### Setting a field -/

theorem place_ofFields (fields : List (String × ElementType)) (name : String) :
    Record.place? (.ofFields fields) name = fields.findIdx? (·.1 = name) := by
  conv_rhs => rw [← listed_placeFrom 0 fields, List.findIdx?_map]
  rfl

theorem findIdx?_absent (absent : ∀ field ∈ fields, field.1 ≠ name) : fields.findIdx? (·.1 = name) = none :=
  List.findIdx?_eq_none_iff.mpr fun field member => decide_eq_false (absent field member)

theorem set?_none (laid : record.layout = .ofFields fields) (absent : ∀ field ∈ fields, field.1 ≠ name)
    (value : Value) : record.set? name value = .ok none := by
  rw [Record.set?, laid, place_ofFields, findIdx?_absent absent]

/-- The value goes to the first field of the name, converted to the type of this field. -/
theorem set?_first (laid : record.layout = .ofFields (before ++ (name, type) :: behind))
    (absent : ∀ field ∈ before, field.1 ≠ name) (value : Value) : record.set? name value = (do
      let converted ← value.cast type
      return some { record with values := record.values.set before.length converted }) := by
  have found : Record.place? record.layout name = some before.length := by
    rw [laid, place_ofFields, List.findIdx?_append, findIdx?_absent absent, List.findIdx?_cons]
    simp
  have listed := congrArg (·[before.length]?) (listed_placeFrom 0 (before ++ (name, type) :: behind))
  rw [List.getElem?_map, List.getElem?_append_right (Nat.le_refl _), Nat.sub_self] at listed
  obtain ⟨field, there, same⟩ := Option.map_eq_some_iff.mp listed
  cases same
  have there : record.layout.fields[before.length]? = some field := laid ▸ there
  rw [Record.set?, found]
  dsimp only
  rw [there]

/-- The records that come from setting fields of the zero record, one after another. What is set to a field that is
not there is lost. -/
inductive Built (fields : List (String × ElementType)) : Record → Prop
  | new : Built fields (.zero (.ofFields fields))
  | set {record : Record} {answer : Option Record} {name : String} {value : Value} (built : Built fields record)
      (done : record.set? name value = .ok answer) : Built fields (answer.getD record)

theorem ofFields_injective {others : List (String × ElementType)} (same : Layout.ofFields fields = .ofFields others) :
    fields = others := by
  rw [← (tiles_ofFields fields).listed, same, (tiles_ofFields others).listed]

theorem Built.laid (built : Built fields record) : record.layout = .ofFields fields := by
  induction built with
  | new => rfl
  | @set record answer name value _ done ih =>
    cases answer with
    | none => exact ih
    | some changed =>
      obtain ⟨_, _, _, _, _, rfl⟩ := set?_ok done
      exact ih

theorem Built.typed (built : Built fields record) : TypedRecord record := by
  induction built with
  | new => exact typed_zero fields
  | @set record answer name value _ done ih =>
    cases answer with
    | none => exact ih
    | some changed => exact typed_set ih done

theorem Built.types (built : Built fields record) : record.values.map Value.type = fields.map Prod.snd := by
  obtain ⟨others, laid, types⟩ := built.typed
  obtain rfl := ofFields_injective (built.laid.symm.trans laid)
  exact types

/-! ### Records in a block -/

/-- What a value comes back from memory as: a number bit for bit, and a text as the text that any field of its own
gives back of it. -/
inductive ComesBack : Value → Value → Prop
  | number {value : Value} (number : value.type ≠ .str) : ComesBack value value
  | text {text kept : String} (alone : ∀ (block : Block) offset,
      offset + ElementType.strSize ≤ block.bytes.length → ∃ after,
        block.storeStr offset text ElementType.strSize = .ok after ∧
        after.loadStr offset ElementType.strSize = .ok kept) : ComesBack (.str text) (.str kept)

theorem comesBack_keptValue (value : Value) : ComesBack value (keptValue value) := by
  cases value with
  | str text => exact .text fun _ _ inside => loadStr_storeStr text inside
  | _ => exact .number nofun

/-- A record that is stored is read back, and the bytes around it stay what they are. -/
theorem store_load {block : Block} {offset : Nat} (laid : record.layout = .ofFields fields)
    (types : record.values.map Value.type = fields.map Prod.snd) (small : block.bytes.length < sizeLimit)
    (inside : offset + (Layout.ofFields fields).size ≤ block.bytes.length) : ∃ after,
      record.store offset block = .ok after ∧
      Record.load (.ofFields fields) after offset = .ok ⟨.ofFields fields, record.values.map keptValue⟩ ∧
      after.type = block.type ∧ after.bytes.length = block.bytes.length ∧
      ∀ index, index < offset ∨ offset + (Layout.ofFields fields).size ≤ index →
        after.bytes[index]? = block.bytes[index]? := by
  obtain ⟨before, held, behind, parts, rfl, whole⟩ := exists_parts inside
  generalize block.type = type at parts
  subst parts
  obtain ⟨_, values⟩ := record
  obtain rfl := laid
  have own : held.length = Layout.sizeOf fields := whole
  have bytes : (valuesBytes values).length = Layout.sizeOf fields := length_valuesBytes types
  have room : Layout.sizeOf fields ≤ (held ++ behind).length := by
    rw [List.length_append, own]
    exact Nat.le_add_right ..
  have length : before.length + (held ++ behind).length < sizeLimit := by
    rwa [List.append_assoc, List.length_append] at small
  have stored := storeFields_part type types (Nat.add_zero before.length) room length
  have loaded := loadFields_part type behind types (Nat.add_zero before.length) (by omega)
  rw [← own, List.drop_left, ← List.append_assoc] at stored
  refine ⟨_, stored, Except.bind_ok.mpr ⟨_, loaded, rfl⟩, rfl, ?_, fun index outside => ?_⟩
  · simp only [List.length_append, bytes, own]
  · rw [← whole] at outside
    exact (getElem?_outside (own.trans bytes.symm) outside).symm

end Arcade.Proofs

namespace Arcade.Proofs.Allocation
open Arcade.Memory

/-- The fields of a layout tile its bytes. A record that comes from the zero record by setting fields has a value of
each field's type; where it fits in the block of a good handle it can be stored and comes back by its layout, and the
bytes around it stay what they are. Setting a name sets the first field of it, or is an error if the value cannot be
converted, and changes nothing if there is no such field. -/
theorem packed_records (fields : List (String × ElementType)) :
    Tiles fields (.ofFields fields) ∧
    ∀ record, Built fields record → record.layout = .ofFields fields ∧
      record.values.map Value.type = fields.map Prod.snd ∧
      (∀ config history memory handle block offset, Run config history memory →
        memory.view handle = .ok block → offset + (Layout.ofFields fields).size ≤ block.bytes.length →
        ∃ next after loaded, memory.update handle (record.store offset) = .ok next ∧
          next.view handle = .ok after ∧ Record.load (.ofFields fields) after offset = .ok loaded ∧
          loaded.layout = .ofFields fields ∧ List.Forall₂ ComesBack record.values loaded.values ∧
          after.bytes.length = block.bytes.length ∧
          ∀ index, index < offset ∨ offset + (Layout.ofFields fields).size ≤ index →
            after.bytes[index]? = block.bytes[index]?) ∧
      ∀ name value,
        ((∀ field ∈ fields, field.1 ≠ name) → record.set? name value = .ok none) ∧
        ∀ before type behind, fields = before ++ (name, type) :: behind → (∀ field ∈ before, field.1 ≠ name) →
          (∀ converted, value.cast type = .ok converted → ∃ changed,
            record.set? name value = .ok (some changed) ∧ changed.layout = record.layout ∧
            changed.values[before.length]? = some converted ∧
            ∀ place, place ≠ before.length → changed.values[place]? = record.values[place]?) ∧
          ∀ fault, value.cast type = .error fault → record.set? name value = .error fault := by
  refine ⟨tiles_ofFields fields, fun record built => ⟨built.laid, built.types, ?_, fun name value => ⟨?_, ?_⟩⟩⟩
  · intro config history memory handle block offset run viewed inside
    obtain ⟨after, stored, loaded, type, length, outside⟩ :=
      store_load built.laid built.types (run.view_limited viewed) inside
    obtain ⟨next, updated, seen⟩ := run.view_update viewed stored length type
    refine ⟨next, after, _, updated, seen, loaded, rfl, ?_, length, outside⟩
    rw [List.forall₂_map_right_iff, List.forall₂_same]
    exact fun value _ => comesBack_keptValue value
  · exact fun absent => set?_none built.laid absent value
  · rintro before type behind rfl absent
    have set := set?_first built.laid absent value
    constructor
    · intro converted cast
      have own : before.length < record.values.length := by
        have length := congrArg List.length built.types
        rw [List.length_map, List.length_map, List.length_append, List.length_cons] at length
        omega
      rw [cast] at set
      exact ⟨_, set, rfl, List.getElem?_set_self own, fun place other => List.getElem?_set_ne other.symm⟩
    · intro fault failed
      rw [failed] at set
      exact set

/-- A record with two fields of one name, stored behind the first byte of a block. -/
theorem packed_records_of_repeated_name :
    let fields := [("x", ElementType.i16), ("title", .str), ("x", .u8)]
    let record : Record := ⟨.ofFields fields, [.i16 5, .str "ship", .u8 0]⟩
    (Layout.ofFields fields).size = 67 ∧ Tiles fields (.ofFields fields) ∧ Built fields record ∧
    (∃ history memory handle block, Run ⟨68, 0⟩ history memory ∧ memory.view handle = .ok block ∧
      1 + (Layout.ofFields fields).size ≤ block.bytes.length ∧
      ∃ next after text, memory.update handle (record.store 1) = .ok next ∧ next.view handle = .ok after ∧
        Record.load (.ofFields fields) after 1 = .ok ⟨.ofFields fields, [.i16 5, .str text, .u8 0]⟩ ∧
        after.bytes[0]? = block.bytes[0]?) ∧
    record.set? "y" (.u8 1) = .ok none ∧
    (∃ changed, record.set? "x" (.f32 0x40e00000) = .ok (some changed) ∧ changed.values[0]? = some (.i16 7) ∧
      changed.values[2]? = some (.u8 0)) ∧
    ∃ fault, record.set? "x" (.str "five") = .error fault := by
  intro fields record
  have moved : (Record.zero (.ofFields fields)).set? "x" (.i32 65541) =
      .ok (some ⟨.ofFields fields, [.i16 5, .str "", .u8 0]⟩) := rfl
  have named : Record.set? ⟨.ofFields fields, [.i16 5, .str "", .u8 0]⟩ "title" (.str "ship") =
      .ok (some record) := rfl
  have built : Built fields record := .set (.set .new moved) named
  obtain ⟨ram, placed, size⟩ : ∃ ram, (Allocator.ofConfig ⟨68, 0⟩).alloc .u8 68 [] =
      .ok (.ok (⟨0, 0, 0, 68, .u8⟩, ⟨ram, [⟨0, 0, 0, 68, .u8, true⟩], 1, 0, 0⟩)) ∧ ram.size = 68 :=
    ⟨_, Except.bind_ok.mpr ⟨_, update_eq rfl rfl, rfl⟩, by simp [Allocator.ofConfig]⟩
  have run := Run.step .start (.placed placed)
  have viewed : Allocator.view ⟨ram, [⟨0, 0, 0, 68, .u8, true⟩], 1, 0, 0⟩ ⟨0, 0, 0, 68, .u8⟩ =
      .ok ⟨readBytes ram 0 68, .u8⟩ := rfl
  have inside : 1 + (Layout.ofFields fields).size ≤ (readBytes ram 0 68).length := by
    rw [length_readBytes (by rw [size])]
    decide
  obtain ⟨tiles, all⟩ := packed_records fields
  obtain ⟨_, _, stores, sets⟩ := all record built
  obtain ⟨next, after, ⟨_, values⟩, updated, seen, loaded, rfl, back, _, outside⟩ :=
    stores _ _ _ _ _ 1 run viewed inside
  obtain ⟨changed, set, _, own, others⟩ :=
    ((sets "x" (.f32 0x40e00000)).2 [] .i16 _ rfl nofun).1 (.i16 7) rfl
  refine ⟨rfl, tiles, built, ⟨_, _, _, _, run, viewed, inside, next, after, ?_⟩, (sets "y" (.u8 1)).1 (by decide),
    ⟨changed, set, own, others 2 (by decide)⟩, _, ((sets "x" (.str "five")).2 [] .i16 _ rfl nofun).2 _ rfl⟩
  obtain _ | ⟨⟨_⟩, _ | ⟨title, _ | ⟨⟨_⟩, ⟨⟩⟩⟩⟩ := back
  cases title with
  | text alone => exact ⟨_, updated, seen, loaded, outside 0 (.inl (by decide))⟩
  | number number => exact absurd rfl number

end Arcade.Proofs.Allocation
