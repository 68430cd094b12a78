import Mathlib.Data.Bool.AllAny
import Mathlib.Data.Nat.Digits.Defs
import Arcade.Proofs.ScannedText
import Arcade.Proofs.Spellings

/-! Integers are exact or rejected. Digits of any base, as many as there may be, are one lexeme, and its
token holds the value that the digits have by their places, unless that value is beyond the limit. -/

namespace Arcade.Proofs.Scanning
open Arcade.Indent Arcade.Scan

variable {resolver : Resolver} {nested : Option (Nat × Scanner)} {path : Symbol} {c : Char}
  {word digits : List Char} {progress : Progress}

/-! ### Digits and their places -/

/-- The bases that integers are written in. -/
inductive Base where
  | binary | decimal | hex

namespace Base

def size : Base → Nat
  | binary => 2
  | decimal => 10
  | hex => 16

/-- What is written before the digits to tell the base. -/
def marks : Base → List String
  | binary => ["0b", "0B"]
  | decimal => [""]
  | hex => ["0x", "0X"]

end Base

/-- The value of a digit in either case, which is its place among all digits. -/
def digitPlace (c : Char) : Nat := "0123456789abcdef".toList.idxOf c.toLower

namespace Base

def IsDigit (base : Base) (c : Char) : Prop := digitPlace c < base.size

instance (base : Base) (c : Char) : Decidable (base.IsDigit c) := inferInstanceAs (Decidable (_ < _))

/-- The value of digits by their places, those of the last one being units. -/
def value (base : Base) (digits : List Char) : Nat :=
  Nat.ofDigits base.size (digits.reverse.map digitPlace)

/-- Whether the rules count the character among the digits of the base. -/
def holds : Base → Char → Bool
  | binary => isBinaryDigit
  | decimal => isDigit
  | hex => isHexDigit

end Base

theorem ascii_of_digitPlace (digit : digitPlace c < 16) : c.toNat < 128 := by
  have digits : ∀ c ∈ "0123456789abcdef".toList, c.toNat < 128 :=
    List.all_iff_forall_prop.1 (by decide)
  by_contra far
  have member : c.toLower ∈ "0123456789abcdef".toList := List.idxOf_lt_length_iff.mp digit
  exact far (digits c (toLower_far far ▸ member))

theorem Base.IsDigit.taken {base : Base} (digit : base.IsDigit c) :
    base.holds c = true ∧ hexDigitValue c = digitPlace c := by
  have near : ∀ code < 128, ∀ base ∈ [Base.binary, .decimal, .hex], base.IsDigit (Char.ofNat code) →
      base.holds (Char.ofNat code) = true ∧
        hexDigitValue (Char.ofNat code) = digitPlace (Char.ofNat code) := by decide +kernel
  have small : digitPlace c < 16 := by
    refine Nat.lt_of_lt_of_le digit ?_
    cases base <;> decide
  have known := near c.toNat (ascii_of_digitPlace small) base (by cases base <;> simp)
  rw [Char.ofNat_toNat] at known
  exact known digit

/-- Reading digits from the first one on gives their value by places. -/
theorem digitsValue_eq {base : Base} (all : ∀ c ∈ digits, base.IsDigit c) :
    Decimal.digitsValue base.size hexDigitValue digits = base.value digits := by
  rw [Decimal.digitsValue, Base.value, Nat.ofDigits_eq_foldr, List.foldr_map, List.foldr_reverse]
  refine List.foldl_ext _ _ _ fun total c member => ?_
  rw [(all c member).taken.2, Nat.mul_comm, Nat.add_comm]
  rfl

/-! ### One lexeme -/

/-- Digits behind the mark of their base are taken with it. -/
theorem markedLength_marked {isMark holds : Char → Bool} {mark : Char} (known : isMark mark = true)
    (solid : digits ≠ []) (all : ∀ c ∈ digits, holds c = true) :
    markedLength isMark holds ('0' :: mark :: digits) = digits.length + 2 := by
  have whole : countWhile holds (digits ++ []) = digits.length := countWhile_append all rfl
  rw [List.append_nil] at whole
  have some : digits.length ≠ 0 := by simpa using solid
  simp [markedLength, known, whole, some]

theorem numberLength_marked {base : Base} {mark : String} (known : mark ∈ base.marks) (solid : digits ≠ [])
    (all : ∀ c ∈ digits, base.holds c = true) :
    numberLength (mark.toList ++ digits) = (mark.toList ++ digits).length := by
  cases base with
  | binary =>
    have length {mark : Char} (known : (mark == 'b' || mark == 'B') = true) :
        numberLength ('0' :: mark :: digits) = digits.length + 2 := by
      have other : (mark == 'x' || mark == 'X') = false := by
        simp only [Bool.or_eq_true, beq_iff_eq] at known
        obtain rfl | rfl := known <;> rfl
      have marked : markedLength (fun c => c == 'b' || c == 'B') isBinaryDigit ('0' :: mark :: digits) =
          digits.length + 2 := markedLength_marked known solid all
      rw [numberLength, marked]
      simp [markedLength, other]
    simp only [Base.marks, List.mem_cons, List.not_mem_nil, or_false] at known
    obtain rfl | rfl := known <;> exact length (by decide)
  | decimal =>
    obtain rfl := List.mem_singleton.mp known
    have whole : numberLength (digits ++ []) = digits.length := numberLength_digits solid all (by simp)
    rw [List.append_nil] at whole
    exact whole
  | hex =>
    have length {mark : Char} (known : (mark == 'x' || mark == 'X') = true) :
        numberLength ('0' :: mark :: digits) = digits.length + 2 := by
      have marked : markedLength (fun c => c == 'x' || c == 'X') isHexDigit ('0' :: mark :: digits) =
          digits.length + 2 := markedLength_marked known solid all
      rw [numberLength, marked]
      rfl
    simp only [Base.marks, List.mem_cons, List.not_mem_nil, or_false] at known
    obtain rfl | rfl := known <;> exact length (by decide)

theorem numberValue?_marked {base : Base} {mark : String} (known : mark ∈ base.marks)
    (all : ∀ c ∈ digits, base.IsDigit c) :
    numberValue? (mark.toList ++ digits) =
      if base.value digits < 2 ^ 63 then some (.int (base.value digits)) else none := by
  rw [← digitsValue_eq all]
  cases base with
  | binary =>
    simp only [Base.marks, List.mem_cons, List.not_mem_nil, or_false] at known
    obtain rfl | rfl := known <;> rfl
  | decimal =>
    obtain rfl := List.mem_singleton.mp known
    exact numberValue?_digits fun c member => (all c member).taken.1
  | hex =>
    simp only [Base.marks, List.mem_cons, List.not_mem_nil, or_false] at known
    obtain rfl | rfl := known <;> rfl

/-! ### One token or one error -/

/-- A number that is all of a source. -/
def soleToken (path : Symbol) (text : List Char) (value : Literal) : Token where
  kind := .literal value
  span := ⟨0, byteLength text⟩
  pos := ⟨1, 0, path⟩
  indent := some 0

/-- No number starts with a blank. -/
theorem indentOf_number (takes : Takes .number word []) : indentOf word = 0 := by
  obtain ⟨c, rest, rfl⟩ := List.exists_cons_of_ne_nil takes.solid
  have digit : isDigit c = true := starts_of_applies (show Rule.number.length _ ≠ 0 from takes.applies)
  unfold indentOf
  split
  next same => cases same; cases digit
  next same => cases same; cases digit
  next same => cases same; cases digit
  next => rfl

/-- A source that is a number is tokenized to that, or to the error that there is no such number. -/
theorem tokenize_number (tokenizer : Tokenizer) (solid : word ≠ [])
    (whole : numberLength word = word.length) :
    tokenizer.tokenize resolver path (String.ofList word) = .ok (match numberValue? word with
      | some value => ⟨[soleToken path word value], [], []⟩
      | none => ⟨[], [⟨.invalidNumber (String.ofList word), ⟨1, 0, path⟩⟩], []⟩, tokenizer) := by
  have takes : Takes .number word [] := takes_number solid (by simpa using whole)
  have single := lexemesAfter_takes [] takes
  rw [List.append_nil, lexemesAfter_nil, cursorAt_start, Cursor.start, indentOf_number takes] at single
  obtain ⟨nested, visits⟩ := scan_eq resolver maxIncludeDepth path word
    { interner := tokenizer.interner, constants := tokenizer.constants }
  rw [single, visitAll] at visits
  rw [Tokenizer.tokenize, String.toList_ofList, visits]
  cases read : numberValue? word with
  | some value =>
    simp only [visit, read, Lexeme.span, Nat.zero_add]
    rfl
  | none =>
    simp only [visit, read]
    rfl

/-- Digits of a base, behind the mark that tells it, are one integer of exactly their value if that is below
the limit, and an error that shows all of them if it is not. Nothing else comes of them, however many there
are. -/
theorem integer_exact (tokenizer : Tokenizer) (resolver : Resolver) (path : Symbol) (base : Base)
    (mark : String) (known : mark ∈ base.marks) (digits : List Char) (solid : digits ≠ [])
    (all : ∀ c ∈ digits, base.IsDigit c) :
    let text := mark.toList ++ digits
    tokenizer.tokenize resolver path (String.ofList text) = .ok (if base.value digits < 2 ^ 63
      then ⟨[soleToken path text (.int (base.value digits))], [], []⟩
      else ⟨[], [⟨.invalidNumber (String.ofList text), ⟨1, 0, path⟩⟩], []⟩, tokenizer) := by
  intro text
  have whole : numberLength text = text.length :=
    numberLength_marked known solid fun c member => (all c member).taken.1
  rw [tokenize_number tokenizer (by simp [text, solid]) whole, numberValue?_marked known all]
  by_cases below : base.value digits < 2 ^ 63
  · simp only [if_pos below]
  · simp only [if_neg below]

/-- The largest integer, with zeros before it and digits in both cases, and the first number that is none. -/
theorem integer_exact_at_limit :
    let tokenizer : Tokenizer := ⟨Interner.empty, []⟩
    tokenizer.tokenize Resolver.none ⟨0⟩ "0X007fffFFFFffffFFFF" = .ok
      (⟨[soleToken ⟨0⟩ "0X007fffFFFFffffFFFF".toList (.int 9223372036854775807)], [], []⟩, tokenizer) ∧
    tokenizer.tokenize Resolver.none ⟨0⟩ "9223372036854775808" = .ok
      (⟨[], [⟨.invalidNumber "9223372036854775808", ⟨1, 0, ⟨0⟩⟩⟩], []⟩, tokenizer) := by
  intro tokenizer
  constructor
  · exact integer_exact tokenizer Resolver.none ⟨0⟩ .hex "0X" (by decide) "007fffFFFFffffFFFF".toList
      (by decide) (List.all_iff_forall_prop.1 (by decide))
  · exact integer_exact tokenizer Resolver.none ⟨0⟩ .decimal "" (by decide) "9223372036854775808".toList
      (by decide) (List.all_iff_forall_prop.1 (by decide))

end Arcade.Proofs.Scanning
