import Arcade.Decimal.Layout
import Arcade.Decimal.Literal
import Arcade.Proofs.DecimalIntervals
import Mathlib.Data.List.TakeWhile

/-! The text of a non-negative pattern tells the pattern. The text is a decimal with a point or an exponent, and
its value, read from its digits alone, is nearest to no other pattern. -/

namespace Arcade.Proofs
open Arcade.Decimal

variable {first : Char} {digits whole fraction rest text : List Char} {exponent : Int} {x y : ℚ} {bits other : Nat}

/-! ### Values of digits -/

/-- The value of decimal digits. -/
def number (digits : List Char) : Nat := digitsValue 10 digitValue digits

theorem number_append (first last : List Char) :
    number (first ++ last) = number first * 10 ^ last.length + number last := by
  have step (start : Nat) : last.foldl (fun total c => total * 10 + digitValue c) start =
      start * 10 ^ last.length + last.foldl (fun total c => total * 10 + digitValue c) 0 := by
    induction last generalizing start with
    | nil => simp
    | cons c rest ih =>
      rw [List.foldl_cons, ih, List.foldl_cons, ih (0 * 10 + digitValue c), List.length_cons]
      ring
  rw [number, digitsValue, List.foldl_append]
  exact step _

theorem number_zeros (count : Nat) : number (List.replicate count '0') = 0 := by
  induction count with
  | zero => rfl
  | succ count ih => rw [List.replicate_succ', number_append, ih]; rfl

theorem number_toDigits (value : Nat) : number (Nat.toDigits 10 value) = value := by
  refine Eq.trans ?_ (Nat.ofDigitChars_ten_toDigits (n := value))
  rw [Nat.ofDigitChars_eq_foldl, number, digitsValue]
  exact List.foldl_ext _ _ _ fun total c member => by rw [digitValue, Nat.mul_comm]

theorem isDigit_toDigits {value : Nat} : ∀ c ∈ Nat.toDigits 10 value, c.isDigit = true :=
  fun _ member => Nat.isDigit_of_mem_toDigits (by decide) (by decide) member

/-! ### Layouts -/

/-- Decimals with the number that they stand for: digits around a point, or digits and an exponent. -/
inductive Laid : List Char → ℚ → Prop where
  | point {whole fraction : List Char} (some : whole ≠ []) (more : fraction ≠ [])
      (digits : ∀ c ∈ whole ++ fraction, c.isDigit = true) :
      Laid (whole ++ '.' :: fraction) (number (whole ++ fraction) * 10 ^ (-fraction.length : Int))
  | single {first : Char} (digit : first.isDigit = true) (exponent : Int) :
      Laid (first :: 'e' :: (toString exponent).toList) (number [first] * 10 ^ exponent)
  | mark {first : Char} {rest : List Char} (more : rest ≠ []) (digits : ∀ c ∈ first :: rest, c.isDigit = true) (exponent : Int) :
      Laid (first :: '.' :: rest ++ 'e' :: (toString exponent).toList)
        (number (first :: rest) * 10 ^ (exponent - rest.length))

/-- A decimal with a point, as soon as its digits have the value that is asked for. -/
theorem laid_point (whole fraction : List Char) (some : whole ≠ []) (more : fraction ≠ [])
    (digits : ∀ c ∈ whole ++ fraction, c.isDigit = true) (same : text = whole ++ '.' :: fraction)
    (value : number (whole ++ fraction) * (10 : ℚ) ^ (-fraction.length : Int) = x) : Laid text x :=
  same ▸ value ▸ .point some more digits

theorem isDigit_zeros {count : Nat} : ∀ c ∈ List.replicate count '0', c.isDigit = true :=
  fun _ member => List.eq_of_mem_replicate member ▸ rfl

theorem laid_positional (some : digits ≠ []) (all : ∀ c ∈ digits, c.isDigit = true) (exponent : Int) :
    Laid (positional digits exponent).toList (number digits * 10 ^ exponent) := by
  cases exponent with
  | ofNat up =>
    refine laid_point (digits ++ List.replicate up '0') ['0'] (by simp [some]) (by simp)
      ?_ (by simp [positional, zeros]) ?_
    · simp only [List.mem_append, List.mem_singleton]
      rintro c ((member | member) | rfl)
      · exact all c member
      · exact isDigit_zeros c member
      · rfl
    · rw [number_append, number_append, number_zeros]
      simp [number, digitsValue, digitValue]
  | negSucc down =>
    unfold positional
    simp only
    split
    next less =>
      refine laid_point (digits.take (digits.length - (down + 1))) (digits.drop (digits.length - (down + 1)))
        ?_ ?_ ?_ (by simp) ?_
      · exact List.ne_nil_of_length_pos (by simp; omega)
      · exact List.ne_nil_of_length_pos (by simp; omega)
      · rwa [List.take_append_drop]
      · rw [List.take_append_drop, List.length_drop, Int.negSucc_eq]
        congr 3
        omega
    next more =>
      refine laid_point ['0'] (List.replicate (down + 1 - digits.length) '0' ++ digits) (by simp) (by simp [some])
        ?_ (by simp [zeros]) ?_
      · intro c member
        rcases List.mem_append.1 member with single | member
        · exact List.mem_singleton.1 single ▸ rfl
        · rcases List.mem_append.1 member with zero | member
          · exact isDigit_zeros c zero
          · exact all c member
      · rw [← List.append_assoc, number_append, number_append, number_zeros, List.length_append,
          List.length_replicate, Int.negSucc_eq, Nat.sub_add_cancel (Nat.le_of_not_lt more)]
        simp [number, digitsValue, digitValue]

theorem laid_scientific (some : digits ≠ []) (all : ∀ c ∈ digits, c.isDigit = true) (exponent : Int) :
    Laid (scientific false digits (exponent + digits.length - 1)).toList (number digits * 10 ^ exponent) := by
  match digits, some with
  | [first], _ =>
    have laid := Laid.single (all first (by simp)) exponent
    simpa [scientific] using laid
  | first :: second :: rest, _ =>
    have laid := Laid.mark (List.cons_ne_nil _ _) all (exponent + (first :: second :: rest).length - 1)
    rw [show exponent + (first :: second :: rest).length - 1 - (second :: rest).length = exponent by simp; omega] at laid
    simpa [scientific] using laid

theorem laid_digits (decimal : Digits) : Laid (Layout.shown.digits decimal).toList (decimalValue decimal) := by
  have some : Nat.toDigits 10 decimal.digits ≠ [] := Nat.toDigits_ne_nil
  have value := number_toDigits decimal.digits
  unfold Layout.digits
  simp only
  split
  · have laid := laid_positional some isDigit_toDigits decimal.exponent
    rwa [value] at laid
  · have laid := laid_scientific some isDigit_toDigits decimal.exponent
    rwa [value] at laid

/-- Every finite pattern is shown as a decimal that is nearest to it. -/
theorem laid_text (finite : bits < double.infinity) :
    ∃ x, Laid (Layout.shown.text double bits).toList x ∧ NearestTo bits x := by
  rw [Layout.text, read_double finite, Layout.reading]
  simp only [Bool.false_eq_true, if_false]
  split
  next none =>
    obtain rfl := eq_zero_of_units none
    exact ⟨0, laid_point ['0'] ['0'] (by simp) (by simp) (List.all_eq_true.1 rfl) rfl
      (by simp [number, digitsValue, digitValue]), nearestTo_zero⟩
  next => exact ⟨_, laid_digits _, nearestTo_shortest finite⟩

/-! ### Values of texts -/

/-- The number that a decimal's parts stand for. -/
def partsValue (parts : Parts) : ℚ :=
  number (parts.whole ++ parts.fraction) * 10 ^ (parts.exponent - parts.fraction.length)

theorem not_mark_of_isDigit {c : Char} (digit : c.isDigit = true) : (!(c == 'e' || c == 'E')) = true := by
  by_contra mark
  simp only [Bool.not_eq_true', Bool.not_eq_false, Bool.or_eq_true, beq_iff_eq] at mark
  rcases mark with rfl | rfl <;> exact absurd digit (by decide)

theorem not_point_of_isDigit {c : Char} (digit : c.isDigit = true) : (c != '.') = true := by
  by_contra point
  obtain rfl : c = '.' := by simpa using point
  exact absurd digit (by decide)

theorem not_mark_of_digits (left : ∀ c ∈ whole, c.isDigit = true) (right : ∀ c ∈ fraction, c.isDigit = true) :
    ∀ c ∈ whole ++ '.' :: fraction, (!(c == 'e' || c == 'E')) = true := by
  intro c member
  rcases List.mem_append.1 member with member | member
  · exact not_mark_of_isDigit (left c member)
  · rcases List.mem_cons.1 member with rfl | member
    · rfl
    · exact not_mark_of_isDigit (right c member)

theorem takeWhile_point (digits : ∀ c ∈ whole, c.isDigit = true) :
    (whole ++ '.' :: fraction).takeWhile (· != '.') = whole := by
  rw [List.takeWhile_append_of_pos fun c member => not_point_of_isDigit (digits c member)]
  simp

theorem dropWhile_point (digits : ∀ c ∈ whole, c.isDigit = true) :
    ((whole ++ '.' :: fraction).dropWhile (· != '.')).drop 1 = fraction := by
  rw [List.dropWhile_append_of_pos fun c member => not_point_of_isDigit (digits c member)]
  simp

theorem ofChars_point (left : ∀ c ∈ whole, c.isDigit = true) (right : ∀ c ∈ fraction, c.isDigit = true) :
    Parts.ofChars (whole ++ '.' :: fraction) = ⟨whole, fraction, 0⟩ := by
  have free := not_mark_of_digits left right
  unfold Parts.ofChars
  simp only
  rw [List.takeWhile_eq_self_iff.2 free, List.dropWhile_eq_nil_iff.2 free, takeWhile_point left,
    dropWhile_point left]
  rfl

theorem chars_toString (exponent : Int) :
    (∃ value : Nat, exponent = value ∧ (toString exponent).toList = Nat.toDigits 10 value) ∨
      ∃ value : Nat, exponent = -value ∧ (toString exponent).toList = '-' :: Nat.toDigits 10 value := by
  cases exponent with
  | ofNat value => exact .inl ⟨value, rfl, String.toList_ofList⟩
  | negSucc value => exact .inr ⟨value + 1, rfl, by simp [Int.toString_eq_repr, Int.repr]⟩

theorem ofChars_mark (whole : List Char) (free : ∀ c ∈ whole, (!(c == 'e' || c == 'E')) = true) (exponent : Int) :
    Parts.ofChars (whole ++ 'e' :: (toString exponent).toList) =
      ⟨whole.takeWhile (· != '.'), (whole.dropWhile (· != '.')).drop 1, exponent⟩ := by
  unfold Parts.ofChars
  simp only
  rw [List.takeWhile_append_of_pos free, List.dropWhile_append_of_pos free]
  simp only [beq_self_eq_true, Bool.true_or, Bool.not_true, Bool.false_eq_true, not_false_iff,
    List.takeWhile_cons_of_neg, List.dropWhile_cons_of_neg, List.append_nil, List.drop_succ_cons, List.drop_zero]
  congr 1
  rcases chars_toString exponent with ⟨value, rfl, chars⟩ | ⟨value, rfl, chars⟩
  · rw [chars]
    have digits : ∀ c ∈ Nat.toDigits 10 value, c.isDigit = true := isDigit_toDigits
    split
    next start => exact absurd (digits '-' (start ▸ List.mem_cons_self)) (by decide)
    next start => exact absurd (digits '+' (start ▸ List.mem_cons_self)) (by decide)
    next => exact congrArg Int.ofNat (number_toDigits value)
  · rw [chars]
    exact congrArg (fun value : Nat => -(value : Int)) (number_toDigits value)

/-- A decimal stands for one number only. -/
theorem Laid.value (laid : Laid text x) : partsValue (Parts.ofChars text) = x := by
  cases laid with
  | point some more digits =>
    rw [ofChars_point (fun c member => digits c (List.mem_append_left _ member))
      (fun c member => digits c (List.mem_append_right _ member)), partsValue, zero_sub]
  | @single first digit exponent =>
    have free : ∀ c ∈ [first], (!(c == 'e' || c == 'E')) = true := by simpa using not_mark_of_isDigit digit
    have point : (first != '.') = true := not_point_of_isDigit digit
    rw [show first :: 'e' :: (toString exponent).toList = [first] ++ 'e' :: (toString exponent).toList from rfl,
      ofChars_mark [first] free, partsValue]
    simp [point]
  | @mark first rest _ digits exponent =>
    have left : ∀ c ∈ [first], c.isDigit = true := fun c member => digits c (by simp_all)
    have right : ∀ c ∈ rest, c.isDigit = true := fun c member => digits c (List.mem_cons_of_mem _ member)
    rw [show first :: '.' :: rest = [first] ++ '.' :: rest from rfl,
      ofChars_mark _ (not_mark_of_digits left right), takeWhile_point left, dropWhile_point left]
    rfl

/-- A number has one text only, and its text has one number. -/
theorem eq_of_laid (laid : Laid text x) (nearest : NearestTo bits x) (laid' : Laid text y)
    (nearest' : NearestTo other y) : bits = other := by
  obtain rfl : x = y := laid.value.symm.trans laid'.value
  exact nearest.eq nearest'

/-! ### Characters of numbers -/

/-- The characters that numbers are shown with. -/
def isNumeral (c : Char) : Bool := c.isDigit || ".e-inf".toList.contains c

/-- Texts of numbers have a point neither at the start nor at the end. -/
structure Numeral (text : List Char) : Prop where
  all : ∀ c ∈ text, isNumeral c = true
  starts : ∃ first ∈ text.head?, first ≠ '.'
  ends : ∀ last ∈ text.getLast?, last ≠ '.'

theorem isNumeral_of_isDigit {c : Char} (digit : c.isDigit = true) : isNumeral c = true := by
  rw [isNumeral, digit, Bool.true_or]

theorem ne_point_of_isDigit {c : Char} (digit : c.isDigit = true) : c ≠ '.' := by
  simpa using not_point_of_isDigit digit

theorem numeral_digits (some : digits ≠ []) (all : ∀ c ∈ digits, c.isDigit = true) : Numeral digits where
  all c member := isNumeral_of_isDigit (all c member)
  starts := ⟨digits.head some, List.head?_eq_some_head some, ne_point_of_isDigit (all _ (List.head_mem some))⟩
  ends c last := ne_point_of_isDigit (all c (List.mem_of_getLast? last))

theorem numeral_toString (exponent : Int) : Numeral (toString exponent).toList := by
  rcases chars_toString exponent with ⟨value, rfl, chars⟩ | ⟨value, rfl, chars⟩
  all_goals rw [chars]
  · exact numeral_digits Nat.toDigits_ne_nil isDigit_toDigits
  · have digits : Numeral (Nat.toDigits 10 value) := numeral_digits Nat.toDigits_ne_nil isDigit_toDigits
    refine ⟨?_, ⟨'-', rfl, by decide⟩, ?_⟩
    · rintro c (_ | ⟨_, member⟩)
      · rfl
      · exact digits.all c member
    · intro last lies
      rw [List.getLast?_cons_of_ne_nil Nat.toDigits_ne_nil] at lies
      exact digits.ends last lies

/-- Two texts of numbers with a point or a mark in between. -/
theorem Numeral.joined (left : Numeral whole) (right : Numeral fraction) {c : Char} (sign : isNumeral c = true) :
    Numeral (whole ++ c :: fraction) := by
  obtain ⟨first, start, proper⟩ := left.starts
  have some : fraction ≠ [] := by
    obtain ⟨_, start, _⟩ := right.starts
    rintro rfl
    exact nomatch start
  refine ⟨?_, ⟨first, List.mem_head?_append_of_mem_head? start, proper⟩, ?_⟩
  · intro d member
    rcases List.mem_append.1 member with member | member
    · exact left.all d member
    · rcases List.mem_cons.1 member with rfl | member
      · exact sign
      · exact right.all d member
  · intro last lies
    rw [List.getLast?_append_of_ne_nil _ (List.cons_ne_nil _ _), List.getLast?_cons_of_ne_nil some] at lies
    exact right.ends last lies

theorem Laid.numeral (laid : Laid text x) : Numeral text := by
  cases laid with
  | point some more digits =>
    exact (numeral_digits some fun c member => digits c (List.mem_append_left _ member)).joined
      (numeral_digits more fun c member => digits c (List.mem_append_right _ member)) rfl
  | single digit exponent =>
    exact (numeral_digits (List.cons_ne_nil _ []) (by simpa using digit)).joined (numeral_toString exponent) rfl
  | @mark first rest more digits exponent =>
    have left : Numeral [first] := numeral_digits (List.cons_ne_nil _ _) fun c single =>
      digits c (List.mem_singleton.1 single ▸ List.mem_cons_self)
    have right : Numeral rest := numeral_digits more fun c member => digits c (List.mem_cons_of_mem _ member)
    exact (left.joined right rfl).joined (numeral_toString exponent) rfl

/-- The sign that tells it from a whole number. -/
theorem Laid.sign (laid : Laid text x) : ∃ c ∈ text, c.isDigit = false := by
  cases laid with
  | point => exact ⟨'.', by simp, rfl⟩
  | single => exact ⟨'e', by simp, rfl⟩
  | mark => exact ⟨'e', by simp, rfl⟩

theorem Laid.starts (laid : Laid text x) : ∃ first ∈ text.head?, first.isDigit = true := by
  cases laid with
  | @point whole fraction some _ digits =>
    refine ⟨whole.head some, List.mem_head?_append_of_mem_head? (List.head?_eq_some_head some), ?_⟩
    exact digits _ (List.mem_append_left _ (List.head_mem some))
  | single digit => exact ⟨_, rfl, digit⟩
  | mark _ digits => exact ⟨_, rfl, digits _ List.mem_cons_self⟩

/-! ### Texts of patterns -/

theorem text_infinity : Layout.shown.text double double.infinity = "inf" := rfl

theorem numeral_text (regular : bits ≤ double.infinity) : Numeral (Layout.shown.text double bits).toList := by
  rcases regular.lt_or_eq with finite | rfl
  · obtain ⟨_, laid, _⟩ := laid_text finite
    exact laid.numeral
  · exact ⟨List.all_eq_true.1 rfl, ⟨'i', rfl, by decide⟩, by rintro _ ⟨⟩; decide⟩

/-- The text of a pattern is not the text of a whole number. -/
theorem sign_mem_text (regular : bits ≤ double.infinity) :
    ∃ c ∈ (Layout.shown.text double bits).toList, c.isDigit = false := by
  rcases regular.lt_or_eq with finite | rfl
  · obtain ⟨_, laid, _⟩ := laid_text finite
    exact laid.sign
  · exact ⟨'i', by decide, rfl⟩

theorem text_injective (regular : bits ≤ double.infinity) (regular' : other ≤ double.infinity)
    (same : Layout.shown.text double bits = Layout.shown.text double other) : bits = other := by
  have infinite {bits : Nat} (finite : bits < double.infinity) :
      Layout.shown.text double bits ≠ Layout.shown.text double double.infinity := by
    intro same
    obtain ⟨_, laid, _⟩ := laid_text finite
    obtain ⟨first, start, digit⟩ := laid.starts
    rw [same, text_infinity] at start
    exact absurd (Option.some.inj start ▸ digit) (by decide)
  rcases regular.lt_or_eq with finite | rfl
  · rcases regular'.lt_or_eq with finite' | rfl
    · obtain ⟨_, laid, nearest⟩ := laid_text finite
      obtain ⟨_, laid', nearest'⟩ := laid_text finite'
      exact eq_of_laid laid nearest (same ▸ laid') nearest'
    · exact absurd same (infinite finite)
  · rcases regular'.lt_or_eq with finite' | rfl
    · exact absurd same.symm (infinite finite')
    · rfl

end Arcade.Proofs
