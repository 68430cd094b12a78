import Mathlib.Data.List.Infix
import Arcade.Text.Utf8

/-! Text as bytes, and bytes as text. The bytes of a text are read back as the text. If they end within a character,
what is left of that character is read as one replacement character. -/

namespace Arcade.Proofs
open Arcade.Utf8

variable {c : Char} {code : Nat} {first : UInt8} {more rest front back : List UInt8}

/-! ### The bytes of a character -/

/-- The one to four bytes of a code point. The code points between the last of the first and the first of the last
half are no characters. -/
inductive Spelled (code : Nat) : List UInt8 → Prop
  | one {a : UInt8} (high : code < 0x80) (first : a.toNat = code) : Spelled code [a]
  | two {a b : UInt8} (low : 0x80 ≤ code) (high : code < 0x800) (first : a.toNat = 0xc0 + code / 0x40)
      (second : b.toNat = 0x80 + code % 0x40) : Spelled code [a, b]
  | three {a b c : UInt8} (low : 0x800 ≤ code) (high : code < 0x10000) (apart : code < 0xd800 ∨ 0xdfff < code)
      (first : a.toNat = 0xe0 + code / 0x1000) (second : b.toNat = 0x80 + code / 0x40 % 0x40)
      (third : c.toNat = 0x80 + code % 0x40) : Spelled code [a, b, c]
  | four {a b c d : UInt8} (low : 0x10000 ≤ code) (high : code < 0x110000)
      (first : a.toNat = 0xf0 + code / 0x40000) (second : b.toNat = 0x80 + code / 0x1000 % 0x40)
      (third : c.toNat = 0x80 + code / 0x40 % 0x40) (fourth : d.toNat = 0x80 + code % 0x40) :
      Spelled code [a, b, c, d]

theorem toNat_ofNat_small {value : Nat} (small : value < 256) : (UInt8.ofNat value).toNat = value := by
  rw [UInt8.toNat_ofNat']
  exact Nat.mod_eq_of_lt small

theorem spelled_encodeChar (c : Char) : Spelled c.toNat (encodeChar c) := by
  have valid : c.toNat < 0xd800 ∨ 0xdfff < c.toNat ∧ c.toNat < 0x110000 := c.valid
  unfold encodeChar
  dsimp only
  split
  next high => exact .one high (toNat_ofNat_small (by omega))
  next low =>
    split
    next high => exact .two (by omega) high (toNat_ofNat_small (by omega)) (toNat_ofNat_small (by omega))
    next low =>
      split
      next high =>
        exact .three (by omega) high (by omega) (toNat_ofNat_small (by omega)) (toNat_ofNat_small (by omega))
          (toNat_ofNat_small (by omega))
      next low =>
        exact .four (by omega) (by omega) (toNat_ofNat_small (by omega)) (toNat_ofNat_small (by omega))
          (toNat_ofNat_small (by omega)) (toNat_ofNat_small (by omega))

theorem between_iff {low high : Nat} {byte : UInt8} :
    between low high byte = true ↔ low ≤ byte.toNat ∧ byte.toNat ≤ high := by
  simp [between]

theorem Spelled.length_le {bytes : List UInt8} (spelled : Spelled code bytes) : bytes.length ≤ 4 := by
  cases spelled <;> simp

/-- The limits for the second byte of a character that takes more than two bytes leave out no character. -/
theorem Spelled.second_inside {b c : UInt8} {tail : List UInt8} (spelled : Spelled code (first :: b :: c :: tail)) :
    between (secondRange first.toNat).1 (secondRange first.toNat).2 b = true := by
  rw [between_iff]
  unfold secondRange
  cases spelled <;> split_ifs <;> dsimp only <;> omega

theorem Spelled.start (spelled : Spelled code (first :: more)) (rest : List UInt8) :
    start first (more ++ rest) = .char (Char.ofNat code) (more.length + 1) := by
  have limits (b c : UInt8) (tail : List UInt8) (same : more = b :: c :: tail) :
      between (secondRange first.toNat).1 (secondRange first.toNat).2 b = true := by
    subst same
    exact spelled.second_inside
  unfold Utf8.start
  cases spelled with
  | one high same =>
    rw [if_pos (by omega), same]
    rfl
  | @two _ b low high same second =>
    have inside : between 0x80 0xbf b = true := between_iff.mpr (by omega)
    have whole : (first.toNat - 0xc0) * 0x40 + bits b = code := by
      unfold bits
      omega
    rw [if_neg (by omega), if_pos (between_iff.mpr (by omega))]
    simp only [startLong, List.cons_append, List.nil_append]
    rw [if_pos (by omega), if_pos inside, whole]
    rfl
  | @three _ b c low high apart same second third =>
    have inside : between 0x80 0xbf c = true := between_iff.mpr (by omega)
    have whole : (first.toNat - 0xe0) * 0x1000 + bits b * 0x40 + bits c = code := by
      unfold bits
      omega
    rw [if_neg (by omega), if_pos (between_iff.mpr (by omega))]
    simp only [startLong, List.cons_append, List.nil_append, limits b c [] rfl, inside, Bool.not_true,
      Bool.false_eq_true, if_false]
    rw [if_neg (by omega), if_pos (by omega), whole]
    rfl
  | @four _ b c d low high same second third fourth =>
    have inside : between 0x80 0xbf c = true := between_iff.mpr (by omega)
    have alike : between 0x80 0xbf d = true := between_iff.mpr (by omega)
    have whole : (first.toNat - 0xf0) * 0x40000 + bits b * 0x1000 + bits c * 0x40 + bits d = code := by
      unfold bits
      omega
    rw [if_neg (by omega), if_pos (between_iff.mpr (by omega))]
    simp only [startLong, List.cons_append, List.nil_append, limits b c [d] rfl, inside, Bool.not_true,
      Bool.false_eq_true, if_false]
    rw [if_neg (by omega), if_neg (by omega), if_pos alike, whole]
    rfl

/-- A character that breaks off is broken as a whole. -/
theorem Spelled.cut {kept lost : List UInt8} {next : UInt8} (spelled : Spelled code (first :: (kept ++ next :: lost))) :
    Utf8.start first kept = .broken (kept.length + 1) := by
  unfold Utf8.start
  match kept with
  | [] =>
    obtain ⟨low, high⟩ : 0xc2 ≤ first.toNat ∧ first.toNat ≤ 0xf4 := by cases spelled <;> omega
    rw [if_neg (by omega), if_pos (between_iff.mpr ⟨low, high⟩)]
    rfl
  | [b] =>
    obtain ⟨low, high⟩ : 0xe0 ≤ first.toNat ∧ first.toNat ≤ 0xf4 := by cases spelled <;> omega
    have limits := spelled.second_inside
    rw [if_neg (by omega), if_pos (between_iff.mpr (by omega))]
    simp only [startLong, limits, Bool.not_true, Bool.false_eq_true, if_false]
    rw [if_neg (by omega)]
    rfl
  | [b, c] =>
    obtain ⟨low, high, inside⟩ : 0xf0 ≤ first.toNat ∧ first.toNat ≤ 0xf4 ∧ between 0x80 0xbf c = true := by
      rw [between_iff]
      cases spelled
      omega
    have limits := spelled.second_inside
    rw [if_neg (by omega), if_pos (between_iff.mpr (by omega))]
    simp only [startLong, limits, inside, Bool.not_true, Bool.false_eq_true, if_false]
    rw [if_neg (by omega), if_neg (by omega)]
    rfl
  | _ :: _ :: _ :: tail =>
    have short := spelled.length_le
    simp only [List.cons_append, List.length_cons, List.length_append] at short
    omega

/-! ### Reading -/

theorem encodeChar_cons (c : Char) : ∃ first more, encodeChar c = first :: more := by
  have spelled := spelled_encodeChar c
  generalize encodeChar c = bytes at spelled
  cases spelled <;> exact ⟨_, _, rfl⟩

theorem length_encodeChar_pos (c : Char) : 0 < (encodeChar c).length := by
  obtain ⟨first, more, bytes⟩ := encodeChar_cons c
  rw [bytes]
  exact Nat.succ_pos _

theorem encodeChars_append (before behind : List Char) :
    encodeChars (before ++ behind) = encodeChars before ++ encodeChars behind := by
  induction before with
  | nil => rfl
  | cons c before ih => rw [List.cons_append, encodeChars, encodeChars, ih, List.append_assoc]

theorem decodeLossyChars_encodeChar (c : Char) (rest : List UInt8) :
    decodeLossyChars (encodeChar c ++ rest) = c :: decodeLossyChars rest := by
  obtain ⟨first, more, bytes⟩ := encodeChar_cons c
  have spelled := spelled_encodeChar c
  rw [bytes] at spelled ⊢
  rw [List.cons_append, decodeLossyChars, spelled.start]
  dsimp only
  rw [Char.ofNat_toNat, Nat.add_sub_cancel, List.drop_left]

theorem decodeLossyChars_encodeChars (chars : List Char) (rest : List UInt8) :
    decodeLossyChars (encodeChars chars ++ rest) = chars ++ decodeLossyChars rest := by
  induction chars with
  | nil => rfl
  | cons c chars ih => rw [encodeChars, List.append_assoc, decodeLossyChars_encodeChar, ih, List.cons_append]

/-- What stands for bytes that are no character. -/
def replacement : Char := Char.ofNat 0xfffd

/-- Some bytes of a character, but not all, are read as one replacement. -/
theorem decodeLossyChars_cut {size : Nat} (positive : 0 < size) (short : size < (encodeChar c).length) :
    decodeLossyChars ((encodeChar c).take size) = [replacement] := by
  obtain ⟨first, more, bytes⟩ := encodeChar_cons c
  obtain ⟨kept, rfl⟩ : ∃ kept, size = kept + 1 := ⟨size - 1, by omega⟩
  have spelled := spelled_encodeChar c
  rw [bytes] at spelled short ⊢
  have inside : kept < more.length := Nat.lt_of_succ_lt_succ short
  have parts : more.take kept ++ more[kept] :: more.drop (kept + 1) = more := by
    rw [List.getElem_cons_drop, List.take_append_drop]
  rw [← parts] at spelled
  rw [List.take_succ_cons, decodeLossyChars, spelled.cut]
  dsimp only
  rw [Nat.add_sub_cancel, List.drop_length, decodeLossyChars]
  rfl

/-! ### Cut texts -/

/-- As many characters from the start as there is room for. -/
structure LongestWithin (room : Nat) (chars whole : List Char) : Prop where
  starts : whole <+: chars
  fits : (encodeChars whole).length ≤ room
  longest : ∀ other, other <+: chars → (encodeChars other).length ≤ room → other <+: whole

/-- A cut behind so many bytes falls inside a character. -/
def CutsInside (room : Nat) (chars : List Char) : Prop :=
  room < (encodeChars chars).length ∧ ∀ whole, whole <+: chars → (encodeChars whole).length ≠ room

section
variable {room : Nat} {chars whole other : List Char}

instance (room : Nat) (chars : List Char) : Decidable (CutsInside room chars) :=
  decidable_of_iff (room < (encodeChars chars).length ∧ ∀ whole ∈ chars.inits, (encodeChars whole).length ≠ room)
    (by simp only [CutsInside, List.mem_inits])

theorem LongestWithin.unique (longest : LongestWithin room chars whole) (again : LongestWithin room chars other) :
    whole = other :=
  (again.longest whole longest.starts longest.fits).eq_of_length_le
    (longest.longest other again.starts again.fits).length_le

theorem LongestWithin.cons (within : (encodeChar c).length ≤ room)
    (longest : LongestWithin (room - (encodeChar c).length) chars whole) :
    LongestWithin room (c :: chars) (c :: whole) := by
  refine ⟨(List.prefix_cons_inj c).mpr longest.starts, ?_, ?_⟩
  · have fits := longest.fits
    rw [encodeChars, List.length_append]
    omega
  · intro other starts short
    obtain rfl | ⟨more, rfl, tail⟩ := List.prefix_cons_iff.mp starts
    · exact List.nil_prefix
    · rw [encodeChars, List.length_append] at short
      exact (List.prefix_cons_inj c).mpr (longest.longest more tail (by omega))

theorem longestWithin_nothing (large : room < (encodeChar c).length) : LongestWithin room (c :: chars) [] := by
  refine ⟨List.nil_prefix, Nat.zero_le _, fun other starts short => ?_⟩
  obtain rfl | ⟨more, rfl, _⟩ := List.prefix_cons_iff.mp starts
  · exact List.nil_prefix
  · rw [encodeChars, List.length_append] at short
    omega

theorem cutsInside_cons (within : (encodeChar c).length ≤ room) :
    CutsInside room (c :: chars) ↔ CutsInside (room - (encodeChar c).length) chars := by
  have positive := length_encodeChar_pos c
  unfold CutsInside
  rw [encodeChars, List.length_append]
  constructor
  · rintro ⟨beyond, apart⟩
    refine ⟨by omega, fun whole starts same => ?_⟩
    apply apart (c :: whole) ((List.prefix_cons_inj c).mpr starts)
    rw [encodeChars, List.length_append]
    omega
  · rintro ⟨beyond, apart⟩
    refine ⟨by omega, fun whole starts same => ?_⟩
    obtain rfl | ⟨more, rfl, tail⟩ := List.prefix_cons_iff.mp starts
    · change 0 = room at same
      omega
    · rw [encodeChars, List.length_append] at same
      exact apart more tail (by omega)

theorem cutsInside_first (large : room < (encodeChar c).length) : CutsInside room (c :: chars) ↔ 0 < room := by
  constructor
  · rintro ⟨_, apart⟩
    exact Nat.pos_of_ne_zero (apart [] List.nil_prefix).symm
  · intro positive
    refine ⟨?_, fun whole starts same => ?_⟩
    · rw [encodeChars, List.length_append]
      omega
    · obtain rfl | ⟨more, rfl, _⟩ := List.prefix_cons_iff.mp starts
      · exact Nat.ne_of_lt positive same
      · rw [encodeChars, List.length_append] at same
        omega

/-- The whole characters before a cut, and what is left of the one in which it falls. -/
theorem take_encodeChars (room : Nat) (chars : List Char) :
    ∃ whole left, (encodeChars chars).take room = encodeChars whole ++ left ∧ LongestWithin room chars whole ∧
      (¬ CutsInside room chars ∧ left = [] ∨
        CutsInside room chars ∧ 0 < left.length ∧ (encodeChars whole).length + left.length = room ∧
          decodeLossyChars left = [replacement]) := by
  induction chars generalizing room with
  | nil =>
    refine ⟨[], [], List.take_nil, ⟨List.nil_prefix, Nat.zero_le _, fun _ starts _ => starts⟩, .inl ⟨?_, rfl⟩⟩
    rintro ⟨beyond, _⟩
    exact Nat.not_lt_zero _ beyond
  | cons c chars ih =>
    by_cases within : (encodeChar c).length ≤ room
    · obtain ⟨whole, left, taken, longest, cut⟩ := ih (room - (encodeChar c).length)
      refine ⟨c :: whole, left, ?_, longest.cons within, ?_⟩
      · rw [encodeChars, encodeChars, List.take_append, List.take_of_length_le within, taken, List.append_assoc]
      · rw [cutsInside_cons within, encodeChars, List.length_append, Nat.add_assoc]
        refine cut.imp_right fun ⟨inside, positive, total, read⟩ => ⟨inside, positive, by omega, read⟩
    · have large := Nat.lt_of_not_le within
      refine ⟨[], (encodeChar c).take room, ?_, longestWithin_nothing large, ?_⟩
      · exact List.take_append_of_le_length (Nat.le_of_lt large)
      · rw [cutsInside_first large]
        rcases Nat.eq_zero_or_pos room with rfl | positive
        · exact .inl ⟨Nat.lt_irrefl 0, List.take_zero⟩
        · have length : ((encodeChar c).take room).length = room := List.length_take_of_le (Nat.le_of_lt large)
          exact .inr ⟨positive, by omega, (Nat.zero_add _).trans length,
            decodeLossyChars_cut positive large⟩

end

end Arcade.Proofs
