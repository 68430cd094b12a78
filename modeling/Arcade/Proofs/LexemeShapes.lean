import Mathlib.Data.List.Forall2
import Arcade.Scan.Tokenizer

/-! What the rules take from a text. Each lexeme has the shape that the making of its token relies on,
with one exception: reserved words are matched in any case, but told apart by their ASCII letters
only. -/

namespace Arcade.Proofs.Scanning
open Arcade.Scan

variable {text : List Char} {lexeme : Lexeme}

/-! ### Lexemes -/

/-- A lexeme is what its rule takes from the rest of a text. -/
def Taken (lexeme : Lexeme) : Prop :=
  ∃ text, lexeme.rule.length text ≠ 0 ∧ lexeme.text = text.take (lexeme.rule.length text)

theorem length_matched (c : Char) (rest : List Char) :
    ((Rule.matching? (c :: rest)).getD .unknown).length (c :: rest) ≠ 0 := by
  cases found : Rule.matching? (c :: rest) with
  | none => simp [Rule.length]
  | some rule => simpa using List.find?_some found

theorem taken_of_mem_from {cursor : Cursor} (member : lexeme ∈ lexemesFrom cursor text) :
    Taken lexeme := by
  induction cursor, text using lexemesFrom.induct with
  | case1 cursor =>
    rw [lexemesFrom] at member
    cases member
  | case2 cursor c rest rule more text ih =>
    rw [lexemesFrom] at member
    rcases List.mem_cons.mp member with rfl | later
    · refine ⟨c :: rest, length_matched c rest, ?_⟩
      obtain ⟨more, length⟩ := Nat.exists_eq_succ_of_ne_zero (length_matched c rest)
      simp only [length, Nat.succ_sub_one, List.take_succ_cons]
    · exact ih later

theorem taken_of_mem (member : lexeme ∈ lexemes text) : Taken lexeme := taken_of_mem_from member

/-! ### Quotes and signs -/

theorem take_succ_of_head? {text : List Char} {count : Nat} {c : Char}
    (next : (text.drop count).head? = some c) : text.take (count + 1) = text.take count ++ [c] := by
  rw [List.head?_drop] at next
  rw [List.take_add_one, next]
  rfl

/-- Between the first two characters and the last one stands a name. -/
theorem inclusion_shape (matched : inclusionLength text ≠ 0) :
    ∃ name, text.take (inclusionLength text) = '#' :: '"' :: name ++ ['"'] := by
  unfold inclusionLength at matched ⊢
  split at matched
  next rest =>
    dsimp only at matched ⊢
    split at matched
    next closed =>
      rw [if_pos closed, List.take_succ_cons, List.take_succ_cons, take_succ_of_head? closed]
      exact ⟨_, rfl⟩
    next => exact absurd rfl matched
  next => exact absurd rfl matched

/-- What may stand between the quotes of a string: no quote, backslash or line end, except that any
character of the line may follow a backslash. -/
inductive StringBody : List Char → Prop where
  | nil : StringBody []
  | plain {c : Char} {body : List Char} (quote : c ≠ '"') (backslash : c ≠ '\\') (inside : c ≠ '\n')
      (rest : StringBody body) : StringBody (c :: body)
  | escape {c : Char} {body : List Char} (inside : c ≠ '\n') (rest : StringBody body) :
      StringBody ('\\' :: c :: body)

theorem stringBody_take (text : List Char) : StringBody (text.take (stringBodyLength text)) := by
  fun_induction stringBodyLength text with
  | case1 => exact .nil
  | case2 => exact .nil
  | case3 c rest inside ih => exact .escape inside ih
  | case4 => exact .nil
  | case5 c rest _ plain ih =>
    simp only [Bool.or_eq_true, decide_eq_true_eq, not_or] at plain
    exact .plain plain.1.1 plain.1.2 plain.2 ih

theorem string_shape (matched : stringLength text ≠ 0) :
    ∃ body, StringBody body ∧ text.take (stringLength text) = '"' :: body ++ ['"'] := by
  unfold stringLength at matched ⊢
  split at matched
  next rest =>
    dsimp only at matched ⊢
    split at matched
    next closed =>
      rw [if_pos closed, List.take_succ_cons, take_succ_of_head? closed]
      exact ⟨_, stringBody_take rest, rfl⟩
    next => exact absurd rfl matched
  next => exact absurd rfl matched

theorem sign_known (matched : signLength text ≠ 0) :
    ∃ kind, signKind? (text.take (signLength text)) = some kind := by
  unfold signLength at matched ⊢
  split at matched
  next two =>
    rw [if_pos two, List.length_take, ← List.take_eq_take_min]
    exact Option.isSome_iff_exists.mp two
  next two =>
    split at matched
    next one =>
      rw [if_neg two, if_pos one]
      exact Option.isSome_iff_exists.mp one
    next => exact absurd rfl matched

/-! ### Reserved words -/

/-- The long s and the Kelvin sign, cases of `s` and `k` beyond ASCII. -/
def isFarCase (c : Char) : Bool := c == '\u017f' || c == '\u212a'

/-- A reserved word with such a letter in it. -/
def Misspelled (lexeme : Lexeme) : Prop := lexeme.rule = .reserved ∧ ∃ c ∈ lexeme.text, isFarCase c = true

theorem afterWord?_some {word following : List Char} (read : afterWord? word text = some following) :
    List.Forall₂ (fun letter c => isCaseOf letter c = true) word (text.take word.length) := by
  induction word generalizing text with
  | nil => exact .nil
  | cons letter word ih =>
    cases text with
    | nil => cases read
    | cons c text =>
      unfold afterWord? at read
      split at read
      next same => exact .cons same (ih read)
      next => cases read

theorem reserved_shape (matched : reservedLength text ≠ 0) : ∃ word ∈ reservedWords,
    List.Forall₂ (fun letter c => isCaseOf letter c = true) word.toList
      (text.take (reservedLength text)) := by
  unfold reservedLength at matched ⊢
  cases found : reservedWords.findSome? fun word =>
      if (afterWord? word.toList text).any atWordEnd then some word.length else none with
  | none =>
    rw [found] at matched
    exact absurd rfl matched
  | some length =>
    obtain ⟨word, known, here⟩ := List.exists_of_findSome?_eq_some found
    split at here
    next ends =>
      cases here
      obtain ⟨following, read, _⟩ := (Option.any_eq_true ..).mp ends
      exact ⟨word, known, afterWord?_some read⟩
    next => cases here

/-- The letters of reserved words, in lower case. -/
theorem reserved_letters : ∀ word ∈ reservedWords, ∀ letter ∈ word.toList,
    letter.toLower = letter ∧ letter.toUpper.toLower = letter ∧ isFarCase letter = false := by
  have known : (reservedWords.all fun word => word.toList.all fun letter =>
      letter.toLower == letter && letter.toUpper.toLower == letter && !isFarCase letter) = true := by decide
  simpa [and_assoc] using known

theorem mem_reservedWords {word : String} : word ∈ reservedWords ↔
    (∃ keyword ∈ Keyword.all, keyword.spelling = word) ∨
      word = "true" ∨ word = "false" ∨ word = "null" ∨ word = "const" := by
  simp [reservedWords]

/-- A word is recognized by its letters in lower case. -/
theorem reservedKind_cases (text : List Char) :
    ((∃ word ∈ reservedWords, text.map Char.toLower = word.toList) ∧
      ∃ kind, reservedKind text = .ok kind) ∨
    ((∀ word ∈ reservedWords, text.map Char.toLower ≠ word.toList) ∧
      reservedKind text = .error (.unknownReserved (String.ofList (text.map Char.toUpper)))) := by
  unfold reservedKind
  dsimp only
  split
  next keyword found =>
    have same : keyword.spelling.toList = text.map Char.toLower := by
      simpa using List.find?_some found
    have known : keyword.spelling ∈ reservedWords :=
      mem_reservedWords.mpr (.inl ⟨keyword, List.mem_of_find?_eq_some found, rfl⟩)
    exact .inl ⟨⟨_, known, same.symm⟩, _, rfl⟩
  next none =>
    split
    next same => exact .inl ⟨⟨"true", by decide, same⟩, _, rfl⟩
    next notTrue =>
    split
    next same => exact .inl ⟨⟨"false", by decide, same⟩, _, rfl⟩
    next notFalse =>
    split
    next same => exact .inl ⟨⟨"null", by decide, same⟩, _, rfl⟩
    next notNull =>
    split
    next same => exact .inl ⟨⟨"const", by decide, same⟩, _, rfl⟩
    next notConst =>
      refine .inr ⟨?_, rfl⟩
      intro word known same
      rcases mem_reservedWords.mp known with ⟨keyword, isKeyword, rfl⟩ | rfl | rfl | rfl | rfl
      · have other := List.find?_eq_none.mp none keyword isKeyword
        exact other (beq_iff_eq.mpr same.symm)
      · exact notTrue same
      · exact notFalse same
      · exact notNull same
      · exact notConst same

theorem toLower_of_isCaseOf {letter c : Char} (same : isCaseOf letter c = true)
    (near : isFarCase c = false) (lower : letter.toLower = letter)
    (upper : letter.toUpper.toLower = letter) : c.toLower = letter := by
  unfold isCaseOf at same
  unfold isFarCase at near
  simp only [Bool.or_eq_true, Bool.and_eq_true, beq_iff_eq] at same
  simp only [Bool.or_eq_false_iff, beq_eq_false_iff_ne] at near
  rcases same with ((rfl | rfl) | ⟨_, far⟩) | ⟨_, far⟩
  · exact lower
  · exact upper
  · exact absurd far near.1
  · exact absurd far near.2

theorem toLower_of_isFarCase {c : Char} (far : isFarCase c = true) : c.toLower = c := by
  unfold isFarCase at far
  simp only [Bool.or_eq_true, beq_iff_eq] at far
  rcases far with rfl | rfl <;> decide

theorem map_toLower {letters : List Char}
    (spelled : List.Forall₂ (fun letter c => isCaseOf letter c = true) letters text)
    (near : ∀ c ∈ text, isFarCase c = false)
    (known : ∀ letter ∈ letters, letter.toLower = letter ∧ letter.toUpper.toLower = letter) :
    text.map Char.toLower = letters := by
  induction spelled with
  | nil => rfl
  | cons same _ ih =>
    rw [List.forall_mem_cons] at near known
    rw [List.map_cons, ih near.2 known.2, toLower_of_isCaseOf same near.1 known.1.1 known.1.2]

/-- A word that is matched as reserved is recognized unless one of its letters is beyond ASCII. -/
theorem reservedKind_spelled {word : String} (known : word ∈ reservedWords)
    (spelled : List.Forall₂ (fun letter c => isCaseOf letter c = true) word.toList text) :
    ((∀ c ∈ text, isFarCase c = false) ∧ ∃ kind, reservedKind text = .ok kind) ∨
    ((∃ c ∈ text, isFarCase c = true) ∧
      reservedKind text = .error (.unknownReserved (String.ofList (text.map Char.toUpper)))) := by
  have letters := reserved_letters word known
  obtain ⟨⟨other, isWord, same⟩, found⟩ | ⟨different, failed⟩ := reservedKind_cases text
  · refine .inl ⟨fun c isLetter => ?_, found⟩
    cases far : isFarCase c with
    | false => rfl
    | true =>
      -- such a letter is not changed, but no reserved word has it
      have kept : c ∈ other.toList := by
        rw [← same, ← toLower_of_isFarCase far]
        exact List.mem_map_of_mem isLetter
      exact far.symm.trans (reserved_letters other isWord c kept).2.2
  · refine .inr ⟨?_, failed⟩
    by_contra near
    apply different word known
    apply map_toLower spelled
    · intro c isLetter
      exact Bool.eq_false_iff.mpr fun far => near ⟨c, isLetter, far⟩
    · exact fun letter member => ⟨(letters letter member).1, (letters letter member).2.1⟩

/-! ### Tokens of lexemes -/

/-- What the making of a token relies on: lexemes are not empty, names and the contents of strings
stand between their quotes, and signs and reserved words are known. -/
structure Handled (lexeme : Lexeme) : Prop where
  nonempty : lexeme.text ≠ []
  inclusion : lexeme.rule = .inclusion → ∃ name, lexeme.text = '#' :: '"' :: name ++ ['"']
  string : lexeme.rule = .string → ∃ body, lexeme.text = '"' :: body ++ ['"']
  sign : lexeme.rule = .sign → ∃ kind, signKind? lexeme.text = some kind
  reserved : lexeme.rule = .reserved → ¬ Misspelled lexeme →
    ∃ kind, reservedKind lexeme.text = .ok kind

theorem length_nil (rule : Rule) : rule.length [] = 0 := by cases rule <;> decide

theorem Taken.misspelled_or_known (taken : Taken lexeme) (reserved : lexeme.rule = .reserved) :
    (¬ Misspelled lexeme ∧ ∃ kind, reservedKind lexeme.text = .ok kind) ∨
    (Misspelled lexeme ∧ reservedKind lexeme.text =
      .error (.unknownReserved (String.ofList (lexeme.text.map Char.toUpper)))) := by
  obtain ⟨text, matched, same⟩ := taken
  rw [reserved] at matched same
  obtain ⟨word, known, spelled⟩ := reserved_shape matched
  change lexeme.text = text.take (reservedLength text) at same
  rw [← same] at spelled
  obtain ⟨near, found⟩ | ⟨far, failed⟩ := reservedKind_spelled known spelled
  · refine .inl ⟨?_, found⟩
    rintro ⟨_, c, isLetter, far⟩
    exact Bool.false_ne_true ((near c isLetter).symm.trans far)
  · exact .inr ⟨⟨reserved, far⟩, failed⟩

theorem Taken.handled (taken : Taken lexeme) : Handled lexeme := by
  have spelled := taken.misspelled_or_known
  obtain ⟨text, matched, same⟩ := taken
  refine ⟨?_, ?_, ?_, ?_, ?_⟩
  · intro empty
    rw [same] at empty
    rcases List.take_eq_nil_iff.mp empty with none | rfl
    · exact matched none
    · exact matched (length_nil lexeme.rule)
  · intro isInclusion
    rw [isInclusion] at matched same
    rw [same]
    exact inclusion_shape matched
  · intro isString
    rw [isString] at matched same
    obtain ⟨body, _, shape⟩ := string_shape matched
    exact ⟨body, same.trans shape⟩
  · intro isSign
    rw [isSign] at matched same
    rw [same]
    exact sign_known matched
  · intro isReserved right
    rcases spelled isReserved with ⟨_, known⟩ | ⟨wrong, _⟩
    · exact known
    · exact absurd wrong right

end Arcade.Proofs.Scanning
