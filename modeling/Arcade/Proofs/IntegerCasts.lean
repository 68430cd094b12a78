import Mathlib
import Arcade.Proofs.DecimalTexts
import Arcade.Proofs.MemoryBytes

/-! Casts of integers. An integer type has as many integers as its bytes can tell apart, so what a cast keeps of
an integer is what is left modulo that number, and a chain of casts keeps what the narrowest of them does. -/

namespace Arcade.Proofs
open Arcade.Memory

variable {value other : Value} {type kind : ElementType} {number first last : ℤ}

/-! ### Integer types -/

def IsInteger (type : ElementType) : Prop := type ≠ .f32 ∧ type ≠ .str

instance (type : ElementType) : Decidable (IsInteger type) := inferInstanceAs (Decidable (_ ∧ _))

def InRange (type : ElementType) (number : ℤ) : Prop := type.bounds.1 ≤ number ∧ number ≤ type.bounds.2

/-- The number of integers that the bytes of a type tell apart. -/
def modulus (type : ElementType) : ℤ := 2 ^ (8 * type.size)

/-- The bytes of an integer type are used up by its integers. -/
theorem modulus_eq (integer : IsInteger type) : modulus type = type.bounds.2 - type.bounds.1 + 1 := by
  obtain ⟨_, _⟩ := integer
  cases type with
  | f32 | str => contradiction
  | _ => rfl

theorem modulus_dvd (narrow : kind.size ≤ type.size) : modulus kind ∣ modulus type :=
  pow_dvd_pow 2 (Nat.mul_le_mul_left 8 narrow)

/-- Integers of a type that are congruent are equal. -/
theorem eq_of_modEq (integer : IsInteger type) (isFirst : InRange type first) (isLast : InRange type last)
    (same : first ≡ last [ZMOD modulus type]) : first = last := by
  obtain ⟨firstLow, firstHigh⟩ := isFirst
  obtain ⟨lastLow, lastHigh⟩ := isLast
  have width := modulus_eq integer
  have close : |last - first| < modulus type := abs_lt.mpr ⟨by omega, by omega⟩
  have none : last - first = 0 := Int.eq_zero_of_abs_lt_dvd same.dvd close
  omega

/-! ### Integers as values -/

theorem isInteger_of_number (known : value.number = .int number) : IsInteger value.type := by
  cases value with
  | f32 | str => cases known
  | _ => exact ⟨nofun, nofun⟩

theorem inRange_of_number (known : value.number = .int number) : InRange value.type number := by
  cases value with
  | u8 value | u16 value | u32 value =>
    cases known
    exact ⟨Int.natCast_nonneg _, Int.le_of_lt_add_one (Int.ofNat_lt.mpr value.toNat_lt)⟩
  | i8 value | i16 value | i32 value =>
    cases known
    exact ⟨value.le_toInt, Int.le_of_lt_add_one value.toInt_lt⟩
  | f32 | str => cases known

/-- An integer type holds the integers that it says. -/
theorem ofInt_number (known : value.number = .int number) : Value.ofInt value.type number = value := by
  cases value with
  | u8 value =>
    cases known
    have small := value.toNat_lt
    have same : UInt8.ofInt value.toNat = value := by
      rw [UInt8.ofInt, ← UInt8.toNat_inj, UInt8.toNat_ofNat']
      omega
    exact congrArg Value.u8 same
  | u16 value =>
    cases known
    have small := value.toNat_lt
    have same : UInt16.ofInt value.toNat = value := by
      rw [UInt16.ofInt, ← UInt16.toNat_inj, UInt16.toNat_ofNat']
      omega
    exact congrArg Value.u16 same
  | u32 value =>
    cases known
    have small := value.toNat_lt
    have same : UInt32.ofInt value.toNat = value := by
      rw [UInt32.ofInt, ← UInt32.toNat_inj, UInt32.toNat_ofNat']
      omega
    exact congrArg Value.u32 same
  | i8 value =>
    cases known
    exact congrArg Value.i8 value.ofInt_toInt
  | i16 value =>
    cases known
    exact congrArg Value.i16 value.ofInt_toInt
  | i32 value =>
    cases known
    exact congrArg Value.i32 value.ofInt_toInt
  | f32 | str => cases known

theorem type_ofInt (type : ElementType) (number : ℤ) : (Value.ofInt type number).type = type := by
  cases type <;> rfl

/-- The bits that are kept of an integer are those of one integer of the type, which is congruent to it. -/
theorem number_ofInt (integer : IsInteger type) (number : ℤ) :
    ∃ wrapped, (Value.ofInt type number).number = .int wrapped ∧ wrapped ≡ number [ZMOD modulus type] := by
  obtain ⟨_, _⟩ := integer
  cases type with
  | f32 | str => contradiction
  | u8 =>
    refine ⟨_, rfl, ?_⟩
    show ((UInt8.ofInt number).toNat : ℤ) % 2 ^ 8 = number % 2 ^ 8
    rw [UInt8.ofInt, UInt8.toNat_ofNat']
    omega
  | u16 =>
    refine ⟨_, rfl, ?_⟩
    show ((UInt16.ofInt number).toNat : ℤ) % 2 ^ 16 = number % 2 ^ 16
    rw [UInt16.ofInt, UInt16.toNat_ofNat']
    omega
  | u32 =>
    refine ⟨_, rfl, ?_⟩
    show ((UInt32.ofInt number).toNat : ℤ) % 2 ^ 32 = number % 2 ^ 32
    rw [UInt32.ofInt, UInt32.toNat_ofNat']
    omega
  | i8 => exact ⟨_, rfl, (congrArg (· % (256 : ℤ)) Int8.toInt_ofInt).trans Int.bmod_emod⟩
  | i16 => exact ⟨_, rfl, (congrArg (· % (65536 : ℤ)) Int16.toInt_ofInt).trans Int.bmod_emod⟩
  | i32 => exact ⟨_, rfl, (congrArg (· % (4294967296 : ℤ)) Int32.toInt_ofInt).trans Int.bmod_emod⟩

/-- Integers that are congruent have the same value of a type. -/
theorem ofInt_congr (integer : IsInteger type) (same : first ≡ last [ZMOD modulus type]) :
    Value.ofInt type first = Value.ofInt type last := by
  obtain ⟨wrapped, known, ofFirst⟩ := number_ofInt integer first
  obtain ⟨other, again, ofLast⟩ := number_ofInt integer last
  have inside := inRange_of_number known
  have isInside := inRange_of_number again
  rw [type_ofInt] at inside isInside
  obtain rfl := eq_of_modEq integer inside isInside ((ofFirst.trans same).trans ofLast.symm)
  have value := ofInt_number known
  rw [type_ofInt] at value
  rw [← value, ← ofInt_number again, type_ofInt]

/-! ### Casts -/

/-- That a value is left alone if it has the type already makes no difference. -/
theorem cast_integer (known : value.number = .int number) (type : ElementType) :
    value.cast type = .ok (Value.ofInt type number) := by
  unfold Value.cast
  split
  next same =>
    subst same
    rw [ofInt_number known]
  next =>
    rw [known]

theorem cast_cast (known : value.number = .int number) (isFirst : IsInteger type) (isLast : IsInteger kind)
    (narrow : kind.size ≤ type.size) : (do (← value.cast type).cast kind) = value.cast kind := by
  obtain ⟨wrapped, again, same⟩ := number_ofInt isFirst number
  have kept : wrapped ≡ number [ZMOD modulus kind] := same.of_dvd (modulus_dvd narrow)
  rw [cast_integer known, cast_integer known]
  show (Value.ofInt type number).cast kind = _
  rw [cast_integer again, ofInt_congr isLast kept]

theorem cast_back (known : value.number = .int number) (integer : IsInteger type)
    (fits : InRange type number ∨ value.type.size ≤ type.size) :
    (do (← value.cast type).cast value.type) = .ok value := by
  obtain inside | wide := fits
  · obtain ⟨wrapped, again, same⟩ := number_ofInt integer number
    have isInside := inRange_of_number again
    rw [type_ofInt] at isInside
    obtain rfl := eq_of_modEq integer isInside inside same
    rw [cast_integer known]
    show (Value.ofInt type wrapped).cast value.type = _
    rw [cast_integer again, ofInt_number known]
  · rw [cast_cast known integer (isInteger_of_number known) wide]
    exact if_pos rfl

theorem toList_toString (number : ℤ) :
    (toString number).toList = (if number < 0 then ['-'] else []) ++ Nat.toDigits 10 number.natAbs := by
  cases number with
  | ofNat size => exact String.toList_ofList
  | negSucc size =>
    rw [if_pos (Int.negSucc_lt_zero size)]
    simp [Int.toString_eq_repr, Int.repr]

/-- An integer is cast to the one integer of the type that is congruent to it. Casting to another type in between
that is no narrower makes no difference, and neither does casting there and back if the integer is one of the other
type, or if that type is no narrower. As text an integer is written in decimal, negative ones behind a minus sign,
and reading the text gives the integer, which is all there is to a value of its type. -/
theorem integer_casts (known : value.number = .int number) :
    (∀ type, IsInteger type → ∃ converted wrapped, value.cast type = .ok converted ∧ converted.type = type ∧
      converted.number = .int wrapped ∧ wrapped ≡ number [ZMOD 2 ^ (8 * type.size)] ∧
      type.bounds.1 ≤ wrapped ∧ wrapped ≤ type.bounds.2) ∧
    (∀ type kind, IsInteger type → IsInteger kind → kind.size ≤ type.size →
      (do (← value.cast type).cast kind) = value.cast kind) ∧
    (∀ type, IsInteger type →
      (type.bounds.1 ≤ number ∧ number ≤ type.bounds.2) ∨ value.type.size ≤ type.size →
      (do (← value.cast type).cast value.type) = .ok value) ∧
    ∃ text, value.cast .str = .ok (.str text) ∧
      text.toList = (if number < 0 then ['-'] else []) ++ Nat.toDigits 10 number.natAbs ∧
      text.toInt? = some number ∧ Value.ofInt value.type number = value := by
  have integer := isInteger_of_number known
  refine ⟨fun type isType => ?_, fun type kind => cast_cast known, fun type => cast_back known, ?_⟩
  · obtain ⟨wrapped, again, same⟩ := number_ofInt isType number
    have inside := inRange_of_number again
    rw [type_ofInt] at inside
    exact ⟨_, wrapped, cast_integer known type, type_ofInt type number, again, same, inside⟩
  · exact ⟨_, cast_integer known .str, toList_toString number, Int.toInt?_repr number, ofInt_number known⟩

/-- A negative integer of two bytes. -/
theorem integer_casts_of_negative : (Value.i16 (-200)).number = .int (-200) ∧
    (∃ converted wrapped, (Value.i16 (-200)).cast .u32 = .ok converted ∧ converted.number = .int wrapped ∧
      wrapped ≡ -200 [ZMOD 2 ^ 32] ∧ 0 ≤ wrapped) ∧
    (do (← (Value.i16 (-200)).cast .u32).cast .i8) = .ok (.i8 56) ∧
    (do (← (Value.i16 (-200)).cast .u32).cast .i16) = .ok (.i16 (-200)) ∧
    ∃ text, (Value.i16 (-200)).cast .str = .ok (.str text) ∧ text.toList = ['-', '2', '0', '0'] ∧
      text.toInt? = some (-200) := by
  have known : (Value.i16 (-200)).number = .int (-200) := rfl
  obtain ⟨wraps, chain, back, text, written, chars, read, _⟩ := integer_casts known
  obtain ⟨converted, wrapped, cast, _, number, same, low, _⟩ := wraps .u32 (by decide)
  refine ⟨known, ⟨converted, wrapped, cast, number, same, low⟩, ?_, ?_, text, written, chars, read⟩
  · exact chain .u32 .i8 (by decide) (by decide) (by decide)
  · exact back .u32 (by decide) (.inr (by decide))

end Arcade.Proofs
