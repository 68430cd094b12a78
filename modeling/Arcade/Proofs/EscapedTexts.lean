import Mathlib.Tactic
import Arcade.Scan.Literal
import Arcade.Text.Quoted

/-! Text with escapes tells the text. The escapes of single characters are a prefix code, and none of them holds
the character that begins the sequences of a terminal. -/

namespace Arcade.Proofs
open Arcade.Text

variable {c d : Char} {code code' rest rest' : List Char} {combining : Bool}

/-- A mark that stands in neither of two texts ends both at the same place. -/
theorem append_mark_inj {mark : Char} (free : mark ∉ code) (free' : mark ∉ code')
    (same : code ++ mark :: rest = code' ++ mark :: rest') : code = code' ∧ rest = rest' := by
  induction code generalizing code' with
  | nil =>
    cases code' with
    | nil => exact ⟨rfl, (List.cons.inj same).2⟩
    | cons c code' => exact absurd ((List.cons.inj same).1 ▸ List.mem_cons_self) free'
  | cons c code ih =>
    cases code' with
    | nil => exact absurd ((List.cons.inj same).1 ▸ List.mem_cons_self) free
    | cons d code' =>
      obtain ⟨rfl, tails⟩ := List.cons.inj same
      obtain ⟨rfl, rest⟩ := ih (List.not_mem_of_not_mem_cons free) (List.not_mem_of_not_mem_cons free') tails
      exact ⟨rfl, rest⟩

/-! ### Hexadecimal digits -/

theorem hexValue_toDigits (value : Nat) :
    Decimal.digitsValue 16 Scan.hexDigitValue (Nat.toDigits 16 value) = value := by
  have digit : ∀ place < 16, Scan.hexDigitValue (Nat.digitChar place) = place := by decide
  induction value using Nat.strongRecOn with
  | ind value ih =>
    by_cases single : value < 16
    · rw [Nat.toDigits_of_lt_base single]
      simp [Decimal.digitsValue, digit value single]
    · have prior := ih (value / 16) (by omega)
      unfold Decimal.digitsValue at prior ⊢
      rw [Nat.toDigits_of_base_le (by decide) (by omega), List.foldl_append, prior, List.foldl_cons, List.foldl_nil,
        digit _ (Nat.mod_lt _ (by decide))]
      omega

theorem mem_hexDigits {value : Nat} (member : c ∈ Nat.toDigits 16 value) : c ∈ "0123456789abcdef".toList := by
  have digit : ∀ place < 16, Nat.digitChar place ∈ "0123456789abcdef".toList := by decide
  induction value using Nat.strongRecOn with
  | ind value ih =>
    by_cases single : value < 16
    · rw [Nat.toDigits_of_lt_base single, List.mem_singleton] at member
      exact member ▸ digit value single
    · rw [Nat.toDigits_of_base_le (by decide) (by omega), List.mem_append, List.mem_singleton] at member
      rcases member with member | rfl
      · exact ih (value / 16) (by omega) member
      · exact digit _ (Nat.mod_lt _ (by decide))

/-! ### Escapes of characters -/

/-- The letters that name a character after a backslash. -/
def letters : List (Char × Char) :=
  [('\x00', '0'), ('\t', 't'), ('\r', 'r'), ('\n', 'n'), ('\\', '\\'), ('"', '"'), ('\'', '\'')]

/-- What a character is written as: a backslash and a letter, its number between braces, or itself. -/
inductive Escape (c : Char) : List Char → Prop where
  | letter {letter : Char} (known : (c, letter) ∈ letters) : Escape c ['\\', letter]
  | code : Escape c ('\\' :: 'u' :: '\x7b' :: Nat.toDigits 16 c.toNat ++ ['\x7d'])
  | plain (proper : c ≠ '\\') (shown : c ≠ '\x1b') : Escape c [c]

theorem escape_codeEscape (c : Char) : Escape c (codeEscape c).toList := by
  have chars : (codeEscape c).toList = '\\' :: 'u' :: '\x7b' :: Nat.toDigits 16 c.toNat ++ ['\x7d'] := by
    simp [codeEscape, lowerHexDigits]
  exact chars ▸ .code

theorem escape_escapeChar (combining : Bool) (c : Char) :
    Escape c (escapeChar ⟨true, true, combining⟩ c).toList := by
  have hidden : CharSet.printable.contains '\x1b' = false := by decide
  have named : ∀ entry ∈ letters, (escapeChar ⟨true, true, combining⟩ entry.1).toList = ['\\', entry.2] := by
    cases combining <;> decide
  by_cases letter : ∃ letter, (c, letter) ∈ letters
  · obtain ⟨letter, known⟩ := letter
    exact named _ known ▸ .letter known
  · have others : ∀ entry ∈ letters, c ≠ entry.1 := by
      rintro ⟨_, name⟩ known rfl
      exact letter ⟨name, known⟩
    simp only [letters, List.forall_mem_cons, List.not_mem_nil, false_implies, implies_true, and_true] at others
    obtain ⟨zero, tab, feed, line, backslash, quote, single⟩ := others
    unfold escapeChar
    simp only [zero, tab, feed, line, backslash, quote, single, if_false]
    split
    · exact escape_codeEscape c
    · split
      next shown =>
        have itself : c.toString.toList = [c] := by simp
        exact itself ▸ .plain backslash fun escape => by simp [escape, hidden] at shown
      next => exact escape_codeEscape c

theorem Escape.not_escape (escape : Escape c code) : '\x1b' ∉ code := by
  cases escape with
  | letter known =>
    have free : ∀ entry ∈ letters, '\x1b' ≠ entry.2 := by decide
    simpa using free _ known
  | code =>
    have free : '\x1b' ∉ "0123456789abcdef".toList := by decide
    simpa using fun member => free (mem_hexDigits member)
  | plain _ shown => simpa using shown.symm

theorem letters_injective : ∀ first ∈ letters, ∀ second ∈ letters, first.2 = second.2 → first.1 = second.1 := by
  decide

theorem letters_not_code : ∀ entry ∈ letters, entry.2 ≠ 'u' := by
  decide

/-- The first escape of a text ends where its own signs tell. -/
theorem Escape.unique (escape : Escape c code) (escape' : Escape d code')
    (same : code ++ rest = code' ++ rest') : c = d ∧ rest = rest' := by
  cases escape with
  | letter known =>
    cases escape' with
    | letter known' =>
      simp only [List.cons_append, List.nil_append, List.cons.injEq, true_and] at same
      exact ⟨letters_injective _ known _ known' same.1, same.2⟩
    | code =>
      simp only [List.cons_append, List.cons.injEq, true_and] at same
      exact absurd same.1 (letters_not_code _ known)
    | plain proper =>
      simp only [List.cons_append, List.cons.injEq] at same
      exact absurd same.1.symm proper
  | code =>
    cases escape' with
    | letter known' =>
      simp only [List.cons_append, List.cons.injEq, true_and] at same
      exact absurd same.1.symm (letters_not_code _ known')
    | code =>
      have brace {c : Char} : '\x7d' ∉ Nat.toDigits 16 c.toNat := fun member =>
        absurd (mem_hexDigits member) (by decide)
      simp only [List.cons_append, List.append_assoc, List.cons.injEq, true_and, List.nil_append] at same
      obtain ⟨digits, tails⟩ := append_mark_inj brace brace same
      have number : c.toNat = d.toNat := by rw [← hexValue_toDigits c.toNat, digits, hexValue_toDigits]
      exact ⟨Char.toNat_inj.1 number, tails⟩
    | plain proper =>
      simp only [List.cons_append, List.cons.injEq] at same
      exact absurd same.1.symm proper
  | plain proper =>
    cases escape' with
    | letter | code =>
      simp only [List.cons_append, List.cons.injEq] at same
      exact absurd same.1 proper
    | plain =>
      simp only [List.cons_append, List.nil_append, List.cons.injEq] at same
      exact same

/-! ### Escapes of texts -/

theorem Escape.ne_nil (escape : Escape c code) : code ≠ [] := by
  cases escape <;> exact List.cons_ne_nil _ _

theorem escaping_ne_empty (combining : Bool) (c : Char) (behind : String) :
    escapeChar ⟨true, true, combining⟩ c ++ behind ≠ "" := by
  intro empty
  have parts := congrArg String.toList empty
  rw [String.toList_append] at parts
  exact (escape_escapeChar combining c).ne_nil (List.append_eq_nil_iff.1 parts).1

theorem escaping_inj {behind behind' : String}
    (same : escapeChar ⟨true, true, combining⟩ c ++ behind = escapeChar ⟨true, true, combining⟩ d ++ behind') :
    c = d ∧ behind = behind' := by
  have parts := congrArg String.toList same
  rw [String.toList_append, String.toList_append] at parts
  obtain ⟨char, tails⟩ := (escape_escapeChar combining c).unique (escape_escapeChar combining d) parts
  exact ⟨char, String.toList_inj.1 tails⟩

theorem escapeChars_injective {first second : List Char}
    (same : escapeChars ⟨true, true, combining⟩ first = escapeChars ⟨true, true, combining⟩ second) :
    first = second := by
  induction first generalizing second with
  | nil =>
    cases second with
    | nil => rfl
    | cons c rest => exact absurd same.symm (escaping_ne_empty _ _ _)
  | cons c rest ih =>
    cases second with
    | nil => exact absurd same (escaping_ne_empty _ _ _)
    | cons d rest' =>
      obtain ⟨rfl, tails⟩ := escaping_inj same
      rw [ih tails]

/-- The first character of a text has escapes of its own. -/
theorem escaped_injective {first second : String} (same : escaped first = escaped second) : first = second := by
  refine String.toList_inj.1 ?_
  unfold escaped escapedAlone at same
  generalize first.toList = chars at same ⊢
  generalize second.toList = others at same ⊢
  cases chars with
  | nil =>
    cases others with
    | nil => rfl
    | cons c rest => exact absurd same.symm (escaping_ne_empty _ _ _)
  | cons c rest =>
    cases others with
    | nil => exact absurd same (escaping_ne_empty _ _ _)
    | cons d rest' =>
      obtain ⟨rfl, tails⟩ := escaping_inj same
      rw [escapeChars_injective tails]

theorem escapeChars_not_escape (text : List Char) :
    '\x1b' ∉ (escapeChars ⟨true, true, combining⟩ text).toList := by
  induction text with
  | nil => exact List.not_mem_nil
  | cons c rest ih =>
    rw [escapeChars, String.toList_append, List.mem_append, not_or]
    exact ⟨(escape_escapeChar combining c).not_escape, ih⟩

theorem escaped_not_escape (text : String) : '\x1b' ∉ (escaped text).toList := by
  unfold escaped
  split
  · exact List.not_mem_nil
  next c rest _ =>
    rw [String.toList_append, List.mem_append, not_or]
    exact ⟨(escape_escapeChar true c).not_escape, escapeChars_not_escape rest⟩

end Arcade.Proofs
