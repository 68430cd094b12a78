import Mathlib.Data.List.TakeWhile
import Arcade.Proofs.EncodedText
import Arcade.Proofs.TypedAccess

/-! Text in fields of any size. A field gives back what it has room for of a text, which ends at the first NUL. That
it may be cut inside a character shows as a replacement character, and never changes again. -/

namespace Arcade.Proofs
open Arcade.Memory Arcade.Utf8

variable {text : String} {chars : List Char}

/-! ### Zero bytes -/

/-- The characters before the first NUL. -/
def untilNul (text : String) : List Char := text.toList.takeWhile (· != Char.ofNat 0)

theorem not_nul_of_mem {c : Char} (member : c ∈ untilNul text) : (c != Char.ofNat 0) = true :=
  List.mem_takeWhile_imp (p := (· != Char.ofNat 0)) member

/-- Only NUL has a zero byte. -/
theorem encodeChar_nonzero {c : Char} (differs : (c != Char.ofNat 0) = true) :
    ∀ byte ∈ encodeChar c, (byte != 0) = true := by
  have nonzero : c.toNat ≠ 0 := by
    intro zero
    rw [← Char.ofNat_toNat c, zero] at differs
    exact absurd differs (by decide)
  have spelled := spelled_encodeChar c
  intro byte member
  have positive : byte.toNat ≠ 0 := by
    generalize encodeChar c = bytes at spelled member
    cases spelled <;> simp only [List.mem_cons, List.not_mem_nil, or_false] at member <;>
      rcases member with rfl | rfl | rfl | rfl <;> omega
  rw [bne_iff_ne]
  rintro rfl
  exact positive rfl

theorem encodeChars_nonzero (free : ∀ c ∈ chars, (c != Char.ofNat 0) = true) :
    ∀ byte ∈ encodeChars chars, (byte != 0) = true := by
  induction chars with
  | nil => nofun
  | cons c chars ih =>
    obtain ⟨first, others⟩ := List.forall_mem_cons.mp free
    exact List.forall_mem_append.mpr ⟨encodeChar_nonzero first, ih others⟩

/-- What follows the characters before the first NUL starts with a zero byte, if there is anything. -/
theorem encode_untilNul (text : String) :
    ∃ rest, encode text = encodeChars (untilNul text) ++ rest ∧ (rest = [] ∨ ∃ more, rest = 0 :: more) := by
  refine ⟨encodeChars (text.toList.dropWhile (· != Char.ofNat 0)), ?_, ?_⟩
  · rw [encode, untilNul, ← encodeChars_append, List.takeWhile_append_dropWhile]
  · generalize text.toList = chars
    induction chars with
    | nil => exact .inl rfl
    | cons c chars ih =>
      by_cases nul : c = Char.ofNat 0
      · subst nul
        exact .inr ⟨_, rfl⟩
      · rw [List.dropWhile_cons_of_pos (by simpa using nul)]
        exact ih

/-! ### Fields -/

/-- A field is read up to the zero byte that ends what it has room for of the characters before the first NUL. -/
theorem strOfField_strField (text : String) (size : Nat) :
    strOfField (strField text size) = decodeLossy ((encodeChars (untilNul text)).take (size - 1)) := by
  obtain ⟨rest, bytes, ended⟩ := encode_untilNul text
  have free : ∀ byte ∈ (encodeChars (untilNul text)).take (size - 1), (byte != 0) = true := fun byte member =>
    encodeChars_nonzero (fun _ => not_nul_of_mem) byte (List.mem_of_mem_take member)
  have zeros (count : Nat) : (List.replicate count (0 : UInt8)).takeWhile (· != 0) = [] := by
    cases count <;> rfl
  unfold strOfField strField
  dsimp only
  rw [bytes, List.take_append, List.append_assoc, List.takeWhile_append_of_pos free]
  generalize size - 1 - (encodeChars (untilNul text)).length = left
  have tail (count : Nat) : (rest.take left ++ List.replicate count 0).takeWhile (· != 0) = [] := by
    obtain rfl | ⟨more, rfl⟩ := ended
    · rw [List.take_nil]
      exact zeros count
    · cases left with
      | zero => exact zeros count
      | succ left => rfl
  rw [tail, List.append_nil]

theorem untilNul_ofList (free : ∀ c ∈ chars, (c != Char.ofNat 0) = true) : untilNul (String.ofList chars) = chars := by
  rw [untilNul, String.toList_ofList]
  exact List.takeWhile_eq_self_iff.mpr free

/-- The text of a field: whole characters, and one replacement character if one more was cut. -/
theorem strOfField_cases (text : String) (size : Nat) :
    ∃ whole, LongestWithin (size - 1) (untilNul text) whole ∧
      (¬ CutsInside (size - 1) (untilNul text) ∧ strOfField (strField text size) = String.ofList whole ∨
        CutsInside (size - 1) (untilNul text) ∧ (encodeChars whole).length < size - 1 ∧
          strOfField (strField text size) = String.ofList (whole ++ [replacement])) := by
  obtain ⟨whole, left, taken, longest, cut⟩ := take_encodeChars (size - 1) (untilNul text)
  have read : strOfField (strField text size) = String.ofList (whole ++ decodeLossyChars left) := by
    rw [strOfField_strField, taken, decodeLossy, decodeLossyChars_encodeChars]
  refine ⟨whole, longest, ?_⟩
  obtain ⟨between, rfl⟩ | ⟨inside, positive, total, broken⟩ := cut
  · rw [decodeLossyChars, List.append_nil] at read
    exact .inl ⟨between, read⟩
  · rw [broken] at read
    exact .inr ⟨inside, by omega, read⟩

/-- Some bytes of the replacement character, or all, are read as the replacement character. -/
theorem decodeLossyChars_replacement {room : Nat} (positive : 0 < room) :
    decodeLossyChars ((encodeChar replacement).take room) = [replacement] := by
  by_cases short : room < (encodeChar replacement).length
  · exact decodeLossyChars_cut positive short
  · have whole := decodeLossyChars_encodeChar replacement []
    rw [List.append_nil, decodeLossyChars] at whole
    rw [List.take_of_length_le (Nat.le_of_not_lt short), whole]

/-- What was read from a field fits the field. -/
theorem strOfField_again (text : String) (size : Nat) :
    strOfField (strField (strOfField (strField text size)) size) = strOfField (strField text size) := by
  obtain ⟨whole, longest, cut⟩ := strOfField_cases text size
  have free : ∀ c ∈ whole, (c != Char.ofNat 0) = true := fun c member => not_nul_of_mem (longest.starts.subset member)
  obtain ⟨_, read⟩ | ⟨_, short, read⟩ := cut
  · have again := decodeLossyChars_encodeChars whole []
    rw [List.append_nil, decodeLossyChars, List.append_nil] at again
    rw [read, strOfField_strField, untilNul_ofList free, List.take_of_length_le longest.fits, decodeLossy, again]
  · have marked : ∀ c ∈ whole ++ [replacement], (c != Char.ofNat 0) = true :=
      List.forall_mem_append.mpr ⟨free, List.forall_mem_singleton.mpr (by decide)⟩
    have bytes : encodeChars (whole ++ [replacement]) = encodeChars whole ++ encodeChar replacement := by
      rw [encodeChars_append, encodeChars, encodeChars, List.append_nil]
    rw [read, strOfField_strField, untilNul_ofList marked, bytes, List.take_append,
      List.take_of_length_le longest.fits, decodeLossy, decodeLossyChars_encodeChars,
      decodeLossyChars_replacement (by omega)]

/-! ### Fields of a block -/

theorem last_strField {size : Nat} (positive : 0 < size) (text : String) :
    (strField text size)[size - 1]? = some 0 := by
  have kept : ((encode text).take (size - 1)).length ≤ size - 1 := List.length_take_le ..
  unfold strField
  dsimp only
  rw [List.getElem?_append_right kept, List.getElem?_replicate, if_pos (by omega)]

/-- A text that is stored in a field is read back up to its first NUL: as it is if that takes no more bytes than the
field has without its last one, which is always zero, and otherwise as its longest part that does, behind which a
single replacement character stands if and only if the cut falls inside a character. What was read is read again
when it is stored in any field of the size. No byte outside the field changes. -/
theorem text_fields (block : Block) (offset size : Nat) (text : String) (inside : offset + size ≤ block.bytes.length) :
    ∃ after loaded, block.storeStr offset text size = .ok after ∧ after.loadStr offset size = .ok loaded ∧
      ((encodeChars (untilNul text)).length ≤ size - 1 → loaded.toList = untilNul text) ∧
      (size - 1 < (encodeChars (untilNul text)).length → ∃ whole, LongestWithin (size - 1) (untilNul text) whole ∧
        (¬ CutsInside (size - 1) (untilNul text) → loaded.toList = whole) ∧
        (CutsInside (size - 1) (untilNul text) → loaded.toList = whole ++ [Char.ofNat 0xfffd])) ∧
      (∀ (other : Block) start, start + size ≤ other.bytes.length →
        ∃ again, other.storeStr start loaded size = .ok again ∧ again.loadStr start size = .ok loaded) ∧
      (0 < size → after.bytes[offset + size - 1]? = some 0) ∧
      after.type = block.type ∧ after.bytes.length = block.bytes.length ∧
      ∀ index, index < offset ∨ offset + size ≤ index → after.bytes[index]? = block.bytes[index]? := by
  obtain ⟨before, held, behind, parts, rfl, rfl⟩ := exists_parts inside
  generalize block.type = type at parts
  subst parts
  have field : (strField text held.length).length = held.length := length_strField ..
  have room : held.length ≤ (held ++ behind).length := by
    rw [List.length_append]
    exact Nat.le_add_right ..
  have stored := storeStr_part type before text room
  have loaded := loadStr_part type before (strField text held.length) behind
  rw [List.drop_left, ← List.append_assoc] at stored
  rw [field] at loaded
  obtain ⟨whole, longest, cut⟩ := strOfField_cases text held.length
  refine ⟨_, _, stored, loaded, fun fits => ?_, fun _ => ⟨whole, longest, fun between => ?_, fun divided => ?_⟩,
    fun other start within => ?_, fun positive => ?_, rfl, ?_, fun index outside => ?_⟩
  · obtain ⟨_, read⟩ | ⟨⟨large, _⟩, _⟩ := cut
    · rw [read, String.toList_ofList]
      exact longest.starts.eq_of_length_le (longest.longest _ (List.prefix_refl _) fits).length_le
    · exact absurd fits (Nat.not_le.mpr large)
  · obtain ⟨_, read⟩ | ⟨divided, _⟩ := cut
    · rw [read, String.toList_ofList]
    · exact absurd divided between
  · obtain ⟨between, _⟩ | ⟨_, _, read⟩ := cut
    · exact absurd divided between
    · rw [read, String.toList_ofList]
      rfl
  · obtain ⟨again, restored, read⟩ := loadStr_storeStr (strOfField (strField text held.length)) within
    rw [strOfField_again] at read
    exact ⟨again, restored, read⟩
  · have last := last_strField positive text
    rw [← last, List.append_assoc, Nat.add_sub_assoc positive, List.getElem?_append_right (Nat.le_add_right ..),
      Nat.add_sub_cancel_left, List.getElem?_append_left (by omega)]
  · simp only [List.length_append, field]
  · rw [← field] at outside
    exact getElem?_outside field outside

/-- A field of four bytes, in which the second character of a text is cut behind two of its three bytes. -/
theorem text_fields_cut :
    let block : Block := ⟨[7, 1, 2, 3, 4, 9], .u8⟩
    1 + 4 ≤ block.bytes.length ∧ untilNul "a€\x00b" = ['a', '€'] ∧ CutsInside 3 ['a', '€'] ∧
    ∃ after loaded, block.storeStr 1 "a€\x00b" 4 = .ok after ∧ after.loadStr 1 4 = .ok loaded ∧
      loaded.toList = ['a', Char.ofNat 0xfffd] ∧
      (∃ again, after.storeStr 1 loaded 4 = .ok again ∧ again.loadStr 1 4 = .ok loaded) ∧
      after.bytes[0]? = some 7 ∧ after.bytes[4]? = some 0 ∧ after.bytes[5]? = some 9 := by
  intro block
  have inside : 1 + 4 ≤ block.bytes.length := by decide
  have chars : untilNul "a€\x00b" = ['a', '€'] := by decide +kernel
  have divided : CutsInside 3 ['a', '€'] := by decide
  have first : LongestWithin 3 ['a', '€'] ['a'] := by
    refine ⟨by decide, by decide, fun other starts short => ?_⟩
    have small : ∀ other ∈ ['a', '€'].inits, (encodeChars other).length ≤ 3 → other <+: ['a'] := by decide
    exact small other ((List.mem_inits _ _).mpr starts) short
  obtain ⟨after, loaded, stored, read, _, long, again, last, _, length, outside⟩ :=
    text_fields block 1 4 "a€\x00b" inside
  rw [chars] at long
  obtain ⟨whole, longest, _, cut⟩ := long (by decide)
  obtain rfl := longest.unique first
  exact ⟨inside, chars, divided, after, loaded, stored, read, cut divided, again after 1 (by rw [length]; exact inside),
    outside 0 (.inl (by decide)), last (by decide), outside 5 (.inr (by decide))⟩

end Arcade.Proofs
