import Arcade.Proofs.IntegerLiterals
import Arcade.Proofs.NearestDoubles

/-! The lexemes of numbers. Each is an integer, or a decimal with a point or an exponent, which is read as its value
rounds. -/

namespace Arcade.Proofs.Scanning
open Arcade.Scan

variable {text word digits point mark : List Char} {exponent : Int} {x : ℚ}

/-! ### Decimals -/

/-- What may follow the whole digits: a point and more digits. -/
inductive Fraction : List Char → List Char → Prop where
  | none : Fraction [] []
  | point {digits : List Char} (some : digits ≠ []) (all : ∀ c ∈ digits, isDigit c = true) :
      Fraction ('.' :: digits) digits

/-- The signs of exponents. -/
def exponentSigns : List (List Char × Int) := [([], 1), (['+'], 1), (['-'], -1)]

/-- What may follow then: a mark with a power of ten. -/
inductive Scaling : List Char → Int → Prop where
  | none : Scaling [] 0
  | power {letter : Char} {sign digits : List Char} {direction : Int} (isMark : letter = 'e' ∨ letter = 'E')
      (known : (sign, direction) ∈ exponentSigns) (some : digits ≠ []) (all : ∀ c ∈ digits, isDigit c = true) :
      Scaling (letter :: sign ++ digits) (direction * number digits)

/-- A decimal that is no integer, as it has a point or a mark, and its value. -/
inductive FloatText : List Char → ℚ → Prop where
  | intro {whole point digits mark : List Char} {exponent : Int} (some : whole ≠ [])
      (all : ∀ c ∈ whole, isDigit c = true) (fraction : Fraction point digits) (scaling : Scaling mark exponent)
      (real : point ≠ [] ∨ mark ≠ []) :
      FloatText (whole ++ point ++ mark) (number (whole ++ digits) * 10 ^ (exponent - digits.length))

/-! ### Shapes -/

theorem take_countWhile (holds : Char → Bool) (text : List Char) :
    text.take (countWhile holds text) = text.takeWhile holds :=
  (List.prefix_iff_eq_take.1 (List.takeWhile_prefix holds)).symm

theorem digits_countWhile {holds : Char → Bool} (some : countWhile holds text ≠ 0) :
    text.take (countWhile holds text) ≠ [] ∧ ∀ c ∈ text.take (countWhile holds text), holds c = true := by
  rw [take_countWhile]
  exact ⟨List.ne_nil_of_length_pos (Nat.pos_of_ne_zero some), fun c member => List.mem_takeWhile_imp member⟩

theorem fraction_shape (text : List Char) : ∃ digits, Fraction (text.take (fractionLength text)) digits := by
  unfold fractionLength
  split
  next rest =>
    split
    next => exact ⟨[], .none⟩
    next some =>
      obtain ⟨solid, all⟩ := digits_countWhile some
      exact ⟨_, .point solid all⟩
  next => exact ⟨[], .none⟩

/-- A sign stands before the digits of an exponent, or none. -/
theorem sign_shape (text : List Char) : ∃ sign direction rest, (sign, direction) ∈ exponentSigns ∧
    text = sign ++ rest ∧ (if text.head? = some '-' || text.head? = some '+' then 1 else 0) = sign.length := by
  by_cases minus : text.head? = some '-'
  · obtain ⟨rest, rfl⟩ := List.head?_eq_some_iff.mp minus
    exact ⟨['-'], -1, rest, by simp [exponentSigns], rfl, rfl⟩
  · by_cases plus : text.head? = some '+'
    · obtain ⟨rest, rfl⟩ := List.head?_eq_some_iff.mp plus
      exact ⟨['+'], 1, rest, by simp [exponentSigns], rfl, rfl⟩
    · exact ⟨[], 1, text, by simp [exponentSigns], rfl, by simp [minus, plus]⟩

theorem scaling_shape (text : List Char) : ∃ exponent, Scaling (text.take (exponentLength text)) exponent := by
  unfold exponentLength
  split
  next letter rest =>
    split
    next isMark =>
      obtain ⟨sign, direction, tail, known, rfl, length⟩ := sign_shape rest
      dsimp only
      rw [length, List.drop_left]
      split
      next => exact ⟨0, .none⟩
      next some =>
        obtain ⟨solid, all⟩ := digits_countWhile some
        have isMark : letter = 'e' ∨ letter = 'E' := by simpa using isMark
        rw [List.take_succ_cons, Nat.add_comm, List.take_length_add_append]
        exact ⟨_, .power isMark known solid all⟩
    next => exact ⟨0, .none⟩
  next => exact ⟨0, .none⟩

/-- Digits, and what may follow them. Without a point and a mark they are an integer. -/
theorem decimal_shape (applies : decimalLength text ≠ 0) :
    (text.take (decimalLength text) ≠ [] ∧ ∀ c ∈ text.take (decimalLength text), isDigit c = true) ∨
      ∃ x, FloatText (text.take (decimalLength text)) x := by
  unfold decimalLength at applies ⊢
  dsimp only at applies ⊢
  split at applies
  next => exact absurd rfl applies
  next some =>
    rw [if_neg some]
    obtain ⟨solid, all⟩ := digits_countWhile some
    generalize countWhile isDigit text = whole at *
    obtain ⟨digits, fraction⟩ := fraction_shape (text.drop whole)
    generalize fractionLength (text.drop whole) = places at *
    obtain ⟨exponent, scaling⟩ := scaling_shape (text.drop (whole + places))
    generalize exponentLength (text.drop (whole + places)) = more at *
    have parts : text.take (whole + places + more) =
        text.take whole ++ (text.drop whole).take places ++ (text.drop (whole + places)).take more := by
      rw [List.take_add, List.take_add]
    rw [parts]
    by_cases plain : (text.drop whole).take places = [] ∧ (text.drop (whole + places)).take more = []
    · rw [plain.1, plain.2, List.append_nil, List.append_nil]
      exact .inl ⟨solid, all⟩
    · exact .inr ⟨_, .intro solid all fraction scaling (not_and_or.mp plain)⟩

theorem marked_shape {isMark holds : Char → Bool} (applies : markedLength isMark holds text ≠ 0) :
    ∃ mark digits, text.take (markedLength isMark holds text) = '0' :: mark :: digits ∧ isMark mark = true ∧
      digits ≠ [] ∧ ∀ c ∈ digits, holds c = true := by
  unfold markedLength at applies ⊢
  split at applies
  next mark rest =>
    dsimp only at applies ⊢
    split at applies
    next known =>
      rw [if_pos known]
      obtain ⟨isMark, some⟩ := Bool.and_eq_true_iff.mp known
      obtain ⟨solid, all⟩ := digits_countWhile (by simpa using some)
      exact ⟨mark, _, rfl, isMark, solid, all⟩
    next => exact absurd rfl applies
  next => exact absurd rfl applies

/-- A mark, or none, and digits of its base. -/
inductive IntegerText : List Char → Base → List Char → Prop where
  | intro {base : Base} (mark : String) {digits : List Char} (known : mark ∈ base.marks) (some : digits ≠ [])
      (all : ∀ c ∈ digits, base.IsDigit c) : IntegerText (mark.toList ++ digits) base digits

theorem isDigit_of_holds (base : Base) {c : Char} (holds : base.holds c = true) : base.IsDigit c := by
  have near : ∀ code < 128, ∀ base ∈ [Base.binary, .decimal, .hex], base.holds (Char.ofNat code) = true →
      base.IsDigit (Char.ofNat code) := by decide +kernel
  have ascii : c.toNat < 128 := by
    cases base with
    | binary =>
      obtain rfl | rfl : c = '0' ∨ c = '1' := by simpa [Base.holds, isBinaryDigit] using holds
      all_goals decide
    | decimal => exact ascii_of_isNameChar (by simp [isNameChar, show isDigit c = true from holds])
    | hex =>
      change isHexDigit c = true at holds
      simp only [isHexDigit, isDigit, Bool.or_eq_true, Bool.and_eq_true, decide_eq_true_eq, Char.le_def,
        UInt32.le_iff_toNat_le] at holds
      obtain (⟨_, small⟩ | ⟨_, small⟩) | ⟨_, small⟩ := holds <;> exact Nat.lt_of_le_of_lt small (by decide)
  have known := near c.toNat ascii base (by cases base <;> simp)
  rw [Char.ofNat_toNat] at known
  exact known holds

/-- A number is an integer or has a point or a mark. -/
theorem number_shape (applies : numberLength text ≠ 0) :
    (∃ base digits, IntegerText (text.take (numberLength text)) base digits) ∨
      ∃ x, FloatText (text.take (numberLength text)) x := by
  unfold numberLength at applies ⊢
  dsimp only at applies ⊢
  split
  next hex =>
    obtain ⟨mark, digits, shape, isMark, solid, all⟩ := marked_shape (by simpa using hex)
    rw [shape]
    have isHex : ∀ c ∈ digits, Base.hex.IsDigit c := fun c member => isDigit_of_holds .hex (all c member)
    obtain rfl | rfl : mark = 'x' ∨ mark = 'X' := by simpa using isMark
    · exact .inl ⟨.hex, digits, .intro "0x" (by simp [Base.marks]) solid isHex⟩
    · exact .inl ⟨.hex, digits, .intro "0X" (by simp [Base.marks]) solid isHex⟩
  next noHex =>
    rw [if_neg noHex] at applies
    split
    next binary =>
      obtain ⟨mark, digits, shape, isMark, solid, all⟩ := marked_shape (by simpa using binary)
      rw [shape]
      have isBinary : ∀ c ∈ digits, Base.binary.IsDigit c :=
        fun c member => isDigit_of_holds .binary (all c member)
      obtain rfl | rfl : mark = 'b' ∨ mark = 'B' := by simpa using isMark
      · exact .inl ⟨.binary, digits, .intro "0b" (by simp [Base.marks]) solid isBinary⟩
      · exact .inl ⟨.binary, digits, .intro "0B" (by simp [Base.marks]) solid isBinary⟩
    next noBinary =>
      rw [if_neg noBinary] at applies
      obtain ⟨solid, all⟩ | float := decimal_shape applies
      · exact .inl ⟨.decimal, _, .intro "" (by simp [Base.marks]) solid
          fun c member => isDigit_of_holds .decimal (all c member)⟩
      · exact .inr float

/-! ### Values -/

theorem number_lt (all : ∀ c ∈ digits, isDigit c = true) : number digits < 10 ^ digits.length := by
  induction digits using List.reverseRecOn with
  | nil => decide
  | append_singleton before last ih =>
    obtain ⟨left, right⟩ := List.forall_mem_append.mp all
    have digit : number [last] < 10 := by
      have holds := List.forall_mem_singleton.mp right
      simp only [isDigit, Bool.and_eq_true, decide_eq_true_eq, Char.le_def, UInt32.le_iff_toNat_le] at holds
      have value : number [last] = last.toNat - 48 := Nat.zero_add _
      have small : last.toNat ≤ 57 := holds.2
      omega
    have less := ih left
    rw [number_append, List.length_append, List.length_singleton, pow_one, pow_succ]
    omega

theorem Scaling.read (scaling : Scaling mark exponent) :
    (match mark.drop 1 with
      | '-' :: digits => -(number digits : Int)
      | '+' :: digits => number digits
      | digits => number digits) = exponent := by
  cases scaling with
  | none => rfl
  | @power letter sign digits direction isMark known some all =>
    rw [List.cons_append, List.drop_succ_cons, List.drop_zero]
    simp only [exponentSigns, List.mem_cons, Prod.mk.injEq, List.not_mem_nil, or_false] at known
    obtain ⟨rfl, rfl⟩ | ⟨rfl, rfl⟩ | ⟨rfl, rfl⟩ := known
    · rw [List.nil_append, one_mul]
      split
      next => exact absurd (all '-' (by simp)) (by decide)
      next => exact absurd (all '+' (by simp)) (by decide)
      next => rfl
    · exact (one_mul _).symm
    · exact (neg_one_mul _).symm

theorem Fraction.all (fraction : Fraction point digits) : ∀ c ∈ digits, isDigit c = true := by
  cases fraction with
  | none => exact nofun
  | point _ all => exact all

theorem ofChars_float {whole : List Char} (all : ∀ c ∈ whole, isDigit c = true) (fraction : Fraction point digits)
    (scaling : Scaling mark exponent) :
    Decimal.Parts.ofChars (whole ++ point ++ mark) = ⟨whole, digits, exponent⟩ := by
  have free : ∀ c ∈ whole ++ point, (!(c == 'e' || c == 'E')) = true := by
    cases fraction with
    | none => simpa using fun c member => not_mark_of_isDigit (all c member)
    | point _ more => exact not_mark_of_digits all more
  have ends : mark.takeWhile (fun c => !(c == 'e' || c == 'E')) = [] ∧
      mark.dropWhile (fun c => !(c == 'e' || c == 'E')) = mark := by
    cases scaling with
    | none => exact ⟨rfl, rfl⟩
    | power isMark => obtain rfl | rfl := isMark <;> exact ⟨rfl, rfl⟩
  have split : (whole ++ point).takeWhile (· != '.') = whole ∧
      ((whole ++ point).dropWhile (· != '.')).drop 1 = digits := by
    cases fraction with
    | none =>
      have free : ∀ c ∈ whole, (c != '.') = true := fun c member => not_point_of_isDigit (all c member)
      rw [List.append_nil, List.takeWhile_eq_self_iff.2 free, List.dropWhile_eq_nil_iff.2 free]
      exact ⟨rfl, rfl⟩
    | point => exact ⟨takeWhile_point all, dropWhile_point all⟩
  unfold Decimal.Parts.ofChars
  simp only
  rw [List.takeWhile_append_of_pos free, List.dropWhile_append_of_pos free, ends.1, ends.2, List.append_nil, split.1,
    split.2]
  congr 1
  exact scaling.read

theorem FloatText.rounds (float : FloatText text x) : Rounds (Decimal.readDouble text) x := by
  obtain ⟨_, all, fraction, scaling, _⟩ := float
  have more : ∀ c ∈ _, isDigit c = true := fraction.all
  rw [Decimal.readDouble, ofChars_float all fraction scaling]
  exact rounds_nearestDouble (number_lt (List.forall_mem_append.mpr ⟨all, more⟩)) _

/-! ### One lexeme -/

theorem FloatText.solid (float : FloatText text x) : text ≠ [] := by
  obtain ⟨some, _, _, _, _⟩ := float
  simp [some]

/-- Decimals have none of the letters that tell a base. -/
theorem FloatText.plain (float : FloatText text x) : ∀ c ∈ text, c ∉ ['x', 'X', 'b', 'B'] := by
  have digit {c : Char} (isDigit : isDigit c = true) : c ∉ ['x', 'X', 'b', 'B'] := by
    rintro base
    simp only [List.mem_cons, List.not_mem_nil, or_false] at base
    obtain rfl | rfl | rfl | rfl := base <;> exact absurd isDigit (by decide)
  obtain ⟨_, all, fraction, scaling, _⟩ := float
  rw [List.forall_mem_append, List.forall_mem_append]
  refine ⟨⟨fun c member => digit (all c member), ?_⟩, ?_⟩
  · cases fraction with
    | none => exact nofun
    | point _ all => exact List.forall_mem_cons.mpr ⟨by decide, fun c member => digit (all c member)⟩
  · cases scaling with
    | none => exact nofun
    | @power letter sign _ direction isMark known _ all =>
      have signs : ∀ sign ∈ exponentSigns, ∀ c ∈ sign.1, c ∉ ['x', 'X', 'b', 'B'] := by simp [exponentSigns]
      rw [List.cons_append, List.forall_mem_cons, List.forall_mem_append]
      refine ⟨?_, signs _ known, fun c member => digit (all c member)⟩
      obtain rfl | rfl := isMark <;> decide

theorem FloatText.marked (float : FloatText text x) : text.any (fun c => c == '.' || c == 'e' || c == 'E') = true := by
  obtain ⟨_, _, fraction, scaling, real⟩ := float
  rw [List.any_append, List.any_append]
  cases fraction with
  | point => simp
  | none =>
    cases scaling with
    | none => simp at real
    | power isMark => obtain rfl | rfl := isMark <;> simp

theorem numberValue?_float (float : FloatText text x) :
    numberValue? text = some (.float (Decimal.readDouble text)) := by
  have plain := float.plain
  unfold numberValue?
  split
  next => exact absurd (plain 'x' (by simp)) (by decide)
  next => exact absurd (plain 'X' (by simp)) (by decide)
  next => exact absurd (plain 'b' (by simp)) (by decide)
  next => exact absurd (plain 'B' (by simp)) (by decide)
  next => rw [if_pos float.marked]

theorem markedLength_plain {isMark holds : Char → Bool} (plain : ∀ c ∈ text, isMark c = false) :
    markedLength isMark holds text = 0 := by
  unfold markedLength
  split
  next mark rest =>
    have unmarked := plain mark (by simp)
    simp [unmarked]
  next => rfl

theorem Scaling.ends (scaling : Scaling mark exponent) : mark.head?.any isDigit = false := by
  cases scaling with
  | none => rfl
  | power isMark => obtain rfl | rfl := isMark <;> rfl

theorem Scaling.length (scaling : Scaling mark exponent) : exponentLength mark = mark.length := by
  cases scaling with
  | none => rfl
  | @power letter sign digits direction isMark known some all =>
    have whole : countWhile isDigit (digits ++ []) = digits.length := countWhile_append all rfl
    have marked : (letter == 'e' || letter == 'E') = true := by simpa using isMark
    have signed : (if (sign ++ digits).head? = Option.some '-' || (sign ++ digits).head? = Option.some '+'
        then 1 else 0) = sign.length := by
      simp only [exponentSigns, List.mem_cons, Prod.mk.injEq, List.not_mem_nil, or_false] at known
      obtain ⟨rfl, rfl⟩ | ⟨rfl, rfl⟩ | ⟨rfl, rfl⟩ := known
      · obtain ⟨first, rest, rfl⟩ := List.exists_cons_of_ne_nil some
        have digit := all first (by simp)
        have minus : first ≠ '-' := by rintro rfl; exact absurd digit (by decide)
        have plus : first ≠ '+' := by rintro rfl; exact absurd digit (by decide)
        simp [minus, plus]
      · rfl
      · rfl
    rw [List.append_nil] at whole
    rw [List.cons_append, exponentLength, if_pos marked]
    dsimp only
    rw [signed, List.drop_left, whole, if_neg (by simpa using some), List.length_cons, List.length_append,
      Nat.add_comm digits.length]

theorem Fraction.ends (fraction : Fraction point digits) (scaling : Scaling mark exponent) :
    (point ++ mark).head?.any isDigit = false := by
  cases fraction with
  | none => exact scaling.ends
  | point => rfl

theorem Fraction.length (fraction : Fraction point digits) (scaling : Scaling mark exponent) :
    fractionLength (point ++ mark) = point.length := by
  cases fraction with
  | none =>
    cases scaling with
    | none => rfl
    | power isMark => obtain rfl | rfl := isMark <;> rfl
  | point some all =>
    rw [List.cons_append, fractionLength, countWhile_append all scaling.ends, if_neg (by simpa using some),
      List.length_cons]

theorem numberLength_float (float : FloatText text x) : numberLength text = text.length := by
  have plain := float.plain
  have hex : markedLength (fun c => c == 'x' || c == 'X') isHexDigit text = 0 :=
    markedLength_plain fun c member => by have := plain c member; simp_all
  have binary : markedLength (fun c => c == 'b' || c == 'B') isBinaryDigit text = 0 :=
    markedLength_plain fun c member => by have := plain c member; simp_all
  rw [numberLength, hex, binary]
  show decimalLength text = text.length
  obtain ⟨some, all, fraction, scaling, _⟩ := float
  rw [decimalLength, List.append_assoc, countWhile_append all (fraction.ends scaling), if_neg (by simpa using some)]
  dsimp only
  rw [List.drop_left, fraction.length scaling, ← List.append_assoc, ← List.length_append, List.drop_left,
    scaling.length, ← List.length_append]

end Arcade.Proofs.Scanning
