import Arcade.Proofs.LexemeMeaning

/-! How tokens are written. Names and reserved words are written with their letters, numbers with their
digits, strings with escapes for some of their characters. Where a blank follows, or nothing, a spelling is
one lexeme, and it says the token. -/

namespace Arcade.Proofs.Scanning
open Arcade.Scan

variable {c : Char} {word following content body : List Char} {said : NamedKind}

/-! ### Spellings -/

/-- Letters after a backslash, each with the character that both of them stand for. -/
def escapes : List (Char × Char) :=
  [('\\', '\\'), ('"', '"'), ('n', '\n'), ('t', '\t'), ('r', '\r'), ('0', '\x00')]

/-- The contents of a string, and the characters they are written with. -/
inductive Escaped : (content body : List Char) → Prop where
  | nil : Escaped [] []
  | plain {c : Char} {content body : List Char} (quote : c ≠ '"') (backslash : c ≠ '\\') (inside : c ≠ '\n')
      (rest : Escaped content body) : Escaped (c :: content) (c :: body)
  | escape {letter c : Char} {content body : List Char} (known : (letter, c) ∈ escapes)
      (rest : Escaped content body) : Escaped (c :: content) ('\\' :: letter :: body)

/-- The ways to write a token. The case of a letter matters in names and strings only. -/
inductive Spelled : NamedKind → List Char → Prop where
  | name {c : Char} {rest : List Char} (first : isLetter c = true) (all : ∀ d ∈ rest, isNameChar d = true)
      (free : ∀ reserved ∈ reservedWords, (c :: rest).map Char.toLower ≠ reserved.toList) :
      Spelled (.name (some (String.ofList (c :: rest)))) (c :: rest)
  | keyword (keyword : Keyword) {word : List Char} (same : word.map Char.toLower = keyword.spelling.toList) :
      Spelled (.other (.keyword keyword)) word
  | bool (value : Bool) {word : List Char} (same : word.map Char.toLower = (toString value).toList) :
      Spelled (.other (.literal (.bool value))) word
  | null {word : List Char} (same : word.map Char.toLower = "null".toList) :
      Spelled (.other (.literal .null)) word
  | int {value : Nat} (bound : value < intLimit) :
      Spelled (.other (.literal (.int value))) (Nat.toDigits 10 value)
  | string {content body : List Char} (escaped : Escaped content body) :
      Spelled (.other (.literal (.string (String.ofList content)))) ('"' :: body ++ ['"'])
  | operator (op : Operator) : Spelled (.other (.operator op)) op.spelling.toList
  | punctuation (sign : Punctuation) : Spelled (.other (.punctuation sign)) sign.spelling.toList
  | eol : Spelled (.other .eol) ['\n']

/-- All contents can be written. -/
theorem exists_escaped (content : List Char) : ∃ body, Escaped content body := by
  induction content with
  | nil => exact ⟨[], .nil⟩
  | cons c content ih =>
    obtain ⟨body, written⟩ := ih
    by_cases quote : c = '"'
    · exact ⟨_, .escape (show ('"', c) ∈ escapes by simp [escapes, quote]) written⟩
    · by_cases backslash : c = '\\'
      · exact ⟨_, .escape (show ('\\', c) ∈ escapes by simp [escapes, backslash]) written⟩
      · by_cases ended : c = '\n'
        · exact ⟨_, .escape (show ('n', c) ∈ escapes by simp [escapes, ended]) written⟩
        · exact ⟨_, .plain quote backslash ended written⟩

/-! ### Strings -/

theorem Escaped.inside (escaped : Escaped content body) : StringBody body := by
  induction escaped with
  | nil => exact .nil
  | plain quote backslash inside _ ih => exact .plain quote backslash inside ih
  | escape known _ ih =>
    have letters : ∀ pair ∈ escapes, pair.1 ≠ '\n' := by decide
    exact .escape (letters _ known) ih

theorem unescape_escaped (escaped : Escaped content body) : unescape body = .ok content := by
  induction escaped with
  | nil => rfl
  | plain quote backslash inside _ ih =>
    rw [unescape.eq_4 _ _ (fun _ _ same _ => backslash same) (fun same _ => backslash same), ih]
    rfl
  | escape known _ ih =>
    have values : ∀ pair ∈ escapes, escapeValue? pair.1 = some pair.2 := by decide
    simp only [unescape, values _ known, ih]
    rfl

/-! ### Numbers -/

theorem blank_cases (blank : isBlank c = true) : c = ' ' ∨ c = '\t' ∨ c = '\r' := by
  simpa [isBlank, or_assoc] using blank

theorem digit_of_mem_toDigits {value : Nat} (member : c ∈ Nat.toDigits 10 value) : isDigit c = true :=
  Nat.isDigit_of_mem_toDigits (by decide) (by decide) member

theorem digitsValue_toDigits (value : Nat) :
    Decimal.digitsValue 10 hexDigitValue (Nat.toDigits 10 value) = value := by
  refine Eq.trans ?_ (Nat.ofDigitChars_ten_toDigits (n := value))
  rw [Nat.ofDigitChars_eq_foldl, Decimal.digitsValue]
  refine List.foldl_ext _ _ _ fun total c member => ?_
  rw [hexDigitValue, if_pos (digit_of_mem_toDigits member), Nat.mul_comm]

/-- Digits are no number in another base, as none of them is a mark for one. -/
theorem markedLength_digits {isMark holds : Char → Bool}
    (other : ∀ c, isMark c = true → isDigit c = false ∧ isBlank c = false)
    (all : ∀ c ∈ word, isDigit c = true) (ends : ∀ c ∈ following.head?, isBlank c = true) :
    markedLength isMark holds (word ++ following) = 0 := by
  unfold markedLength
  split
  next mark rest start =>
    have unmarked : isMark mark = false := by
      by_contra marked
      obtain ⟨noDigit, noBlank⟩ := other mark (by simpa using marked)
      match word, following, start with
      | [], [], start => cases start
      | [], c :: rest, start =>
        cases start
        exact absurd (ends '0' rfl) (by decide)
      | [zero], [], start => cases start
      | [zero], c :: rest, start =>
        cases start
        simp [ends mark rfl] at noBlank
      | zero :: second :: word, following, start =>
        cases start
        simp [all mark (by simp)] at noDigit
    simp [unmarked]
  next => rfl

theorem numberLength_digits (solid : word ≠ []) (all : ∀ c ∈ word, isDigit c = true)
    (ends : ∀ c ∈ following.head?, isBlank c = true) : numberLength (word ++ following) = word.length := by
  have hex : markedLength (fun c => c == 'x' || c == 'X') isHexDigit (word ++ following) = 0 :=
    markedLength_digits (by simp; decide) all ends
  have binary : markedLength (fun c => c == 'b' || c == 'B') isBinaryDigit (word ++ following) = 0 :=
    markedLength_digits (by simp; decide) all ends
  have apart : following.head?.any isDigit = false ∧ fractionLength following = 0 ∧
      exponentLength following = 0 := by
    cases following with
    | nil => exact ⟨rfl, rfl, rfl⟩
    | cons c rest => obtain rfl | rfl | rfl := blank_cases (ends c rfl) <;> exact ⟨rfl, rfl, rfl⟩
  have whole : countWhile isDigit (word ++ following) = word.length := countWhile_append all apart.1
  have some : word.length ≠ 0 := by simpa using solid
  simp [numberLength, hex, binary, decimalLength, whole, some, apart]

/-- A number that is written with digits alone is a decimal integer. -/
theorem numberValue?_digits (all : ∀ c ∈ word, isDigit c = true) :
    numberValue? word = intOfDigits? 10 word := by
  have plain : word.any (fun c => c == '.' || c == 'e' || c == 'E') = false := by
    rw [List.any_eq_false]
    intro c member mark
    have digit := all c member
    simp only [Bool.or_eq_true, beq_iff_eq] at mark
    obtain (rfl | rfl) | rfl := mark <;> cases digit
  unfold numberValue?
  split
  next => exact absurd (all 'x' (by simp)) (by decide)
  next => exact absurd (all 'X' (by simp)) (by decide)
  next => exact absurd (all 'b' (by simp)) (by decide)
  next => exact absurd (all 'B' (by simp)) (by decide)
  next => rw [if_neg (by simp [plain])]

theorem numberValue?_toDigits {value : Nat} (bound : value < intLimit) :
    numberValue? (Nat.toDigits 10 value) = some (.int value) := by
  rw [numberValue?_digits fun c => digit_of_mem_toDigits]
  simp only [intOfDigits?, digitsValue_toDigits]
  exact if_pos bound

/-! ### Words -/

theorem atWordEnd_blank (ends : ∀ c ∈ following.head?, isBlank c = true) : atWordEnd following = true := by
  have apart : [' ', '\t', '\r'].any CharSet.word.contains = false := by decide +kernel
  cases following with
  | nil => rfl
  | cons c rest =>
    have blank := List.any_eq_false.mp apart c (by simpa using blank_cases (ends c rfl))
    simp [atWordEnd, blank]

/-- Beyond ASCII, letters are not changed. -/
theorem toLower_far (far : ¬ c.toNat < 128) : c.toLower = c := by
  refine dif_neg fun upper => far ?_
  exact Nat.lt_of_le_of_lt (UInt32.le_iff_toNat_le.mp upper.2) (by decide)

theorem isCaseOf_toLower (c : Char) : isCaseOf c.toLower c = true := by
  have near : ∀ code < 128, isCaseOf (Char.ofNat code).toLower (Char.ofNat code) = true := by decide +kernel
  by_cases ascii : c.toNat < 128
  · have known := near c.toNat ascii
    rwa [Char.ofNat_toNat] at known
  · simp [toLower_far ascii, isCaseOf]

theorem afterWord?_cases {letters : List Char}
    (spelled : List.Forall₂ (fun letter c => isCaseOf letter c = true) letters word)
    (following : List Char) : afterWord? letters (word ++ following) = some following := by
  induction spelled with
  | nil => rfl
  | cons same _ ih => rw [List.cons_append, afterWord?, if_pos same, ih]

theorem takes_spelled {spelling : String} (known : spelling ∈ reservedWords)
    (same : word.map Char.toLower = spelling.toList) (ends : ∀ c ∈ following.head?, isBlank c = true) :
    Takes .reserved word following := by
  have length : spelling.length = word.length := by
    rw [← String.length_toList, ← same, List.length_map]
  have spelled : List.Forall₂ (fun letter c => isCaseOf letter c = true) spelling.toList word := by
    rw [← same, List.forall₂_map_left_iff]
    exact List.forall₂_same.mpr fun c _ => isCaseOf_toLower c
  exact takes_reserved known length (afterWord?_cases spelled following) (atWordEnd_blank ends)

/-- Name characters are cases of name characters only. -/
theorem word_of_nameCase {letter : Char} (nameChar : isNameChar letter = true)
    (same : isCaseOf letter c = true) : CharSet.word.contains c = true := by
  have upper : ∀ code < 128, isNameChar (Char.ofNat code) = true →
      isNameChar (Char.ofNat code).toUpper = true := by decide +kernel
  simp only [isCaseOf, Bool.or_eq_true, Bool.and_eq_true, beq_iff_eq] at same
  obtain ((rfl | rfl) | ⟨_, rfl⟩) | ⟨_, rfl⟩ := same
  · exact word_of_isNameChar nameChar
  · have known := upper letter.toNat (ascii_of_isNameChar nameChar)
    rw [Char.ofNat_toNat] at known
    exact word_of_isNameChar (known nameChar)
  · exact word_of_isFarCase (by decide)
  · exact word_of_isFarCase (by decide)

theorem near_of_isNameChar (nameChar : isNameChar c = true) : isFarCase c = false := by
  have ascii := ascii_of_isNameChar nameChar
  by_contra far
  simp only [isFarCase, Bool.not_eq_false, Bool.or_eq_true, beq_iff_eq] at far
  obtain rfl | rfl := far <;> exact absurd ascii (by decide)

/-- A name that is no reserved word in any case is not read as one. -/
theorem reservedLength_free (all : ∀ c ∈ word, isNameChar c = true)
    (free : ∀ reserved ∈ reservedWords, word.map Char.toLower ≠ reserved.toList)
    (ends : ∀ c ∈ following.head?, isBlank c = true) : reservedLength (word ++ following) = 0 := by
  by_contra taken
  obtain ⟨reserved, known, _, stops⟩ := (reservedLength_eq_iff taken).mp rfl
  obtain ⟨rest, read, stops⟩ := (Option.any_eq_true ..).mp stops
  have self : List.Forall₂ (fun letter c => isCaseOf letter c = true) word word :=
    List.forall₂_same.mpr fun c _ => by simp [isCaseOf]
  have length : reserved.toList.length = word.length := by
    refine afterWord?_unique ?_ read stops (afterWord?_cases self following) (atWordEnd_blank ends)
    intro letter among c same
    obtain isReserved | isName := among
    · exact word_of_isCaseOf known isReserved same
    · exact word_of_nameCase (all letter isName) same
  have spelled := afterWord?_some read
  rw [length, List.take_left] at spelled
  have letters := reserved_letters reserved known
  exact free reserved known (map_toLower spelled (fun c member => near_of_isNameChar (all c member))
    fun letter member => ⟨(letters letter member).1, (letters letter member).2.1⟩)

/-! ### Tokens -/

theorem reservedKind_keyword (keyword : Keyword) (same : word.map Char.toLower = keyword.spelling.toList) :
    reservedKind word = .ok (some (.keyword keyword)) := by
  unfold reservedKind
  rw [same]
  cases keyword <;> rfl

theorem sign_apart (blank : isBlank c = true) (first : Char) : signKind? [first, c] = none := by
  have solid : signs.any (fun sign => sign.1.any isBlank) = false := by decide
  by_contra known
  obtain ⟨kind, known⟩ := Option.ne_none_iff_exists'.mp known
  exact List.any_eq_false.mp solid _ (mem_signs known) (List.any_eq_true.mpr ⟨c, by simp, blank⟩)

theorem takes_sign_apart {kind : TokenKind} (known : signKind? word = some kind)
    (ends : ∀ c ∈ following.head?, isBlank c = true) : Takes .sign word following := by
  refine takes_sign known fun c first => ?_
  have apart := sign_apart (ends c first)
  obtain rfl | rfl | rfl := blank_cases (ends c first) <;> exact ⟨by decide, by decide, apart⟩

/-- A spelling is one lexeme, and it says the token. -/
theorem Spelled.takes (spelled : Spelled said word) (ends : ∀ c ∈ following.head?, isBlank c = true) :
    ∃ rule, Takes rule word following ∧ meaning rule word = some said := by
  cases spelled with
  | @name c rest first all free =>
    have nameEnds : following.head?.any isNameChar = false := by
      cases following with
      | nil => rfl
      | cons c rest => obtain rfl | rfl | rfl := blank_cases (ends c rfl) <;> rfl
    have nameChars : ∀ d ∈ c :: rest, isNameChar d = true :=
      List.forall_mem_cons.mpr ⟨by simp [isNameChar, first], all⟩
    exact ⟨.identifier, takes_identifier first all nameEnds (reservedLength_free nameChars free ends), rfl⟩
  | keyword keyword same =>
    have known : keyword.spelling ∈ reservedWords := by cases keyword <;> decide
    refine ⟨.reserved, takes_spelled known same ends, ?_⟩
    simp [meaning, fixedKind?, reservedKind?, reservedKind_keyword keyword same]
  | bool value same =>
    have known : toString value ∈ reservedWords := by cases value <;> decide
    refine ⟨.reserved, takes_spelled known same ends, ?_⟩
    simp only [meaning, fixedKind?, reservedKind?, reservedKind, same]
    cases value <;> rfl
  | null same =>
    refine ⟨.reserved, takes_spelled (by decide) same ends, ?_⟩
    simp only [meaning, fixedKind?, reservedKind?, reservedKind, same]
    rfl
  | @int value bound =>
    have whole : numberLength (Nat.toDigits 10 value ++ following) = (Nat.toDigits 10 value).length :=
      numberLength_digits Nat.toDigits_ne_nil (fun c => digit_of_mem_toDigits) ends
    refine ⟨.number, takes_number Nat.toDigits_ne_nil whole, ?_⟩
    simp [meaning, fixedKind?, numberValue?_toDigits bound]
  | @string content body escaped =>
    refine ⟨.string, takes_string escaped.inside following, ?_⟩
    simp [meaning, fixedKind?, stringKind?, unescape_escaped escaped]
  | operator op =>
    have known : signKind? op.spelling.toList = some (.operator op) := by cases op <;> rfl
    exact ⟨.sign, takes_sign_apart known ends, congrArg (Option.map NamedKind.other) known⟩
  | punctuation sign =>
    have known : signKind? sign.spelling.toList = some (.punctuation sign) := by cases sign <;> rfl
    exact ⟨.sign, takes_sign_apart known ends, congrArg (Option.map NamedKind.other) known⟩
  | eol => exact ⟨.lineEnd, takes_lineEnd following, rfl⟩

end Arcade.Proofs.Scanning
