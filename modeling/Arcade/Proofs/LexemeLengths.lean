import Arcade.Proofs.LexemeShapes

/-! How much the rules take. No rule takes more than there is, lexemes of a rule start with characters of
their own, and what is taken does not depend on what follows. -/

namespace Arcade.Proofs.Scanning
open Arcade.Scan

variable {rule : Rule} {c : Char} {text word following : List Char}

/-! ### Lengths within the text -/

theorem countWhile_le (holds : Char → Bool) (text : List Char) : countWhile holds text ≤ text.length :=
  (List.takeWhile_prefix holds).length_le

theorem commentRest?_le {count : Nat} (closed : commentRest? text = some count) : count ≤ text.length := by
  fun_induction commentRest? text generalizing count with
  | case1 => cases closed
  | case2 rest => cases closed; simp
  | case3 c rest _ ih =>
    obtain ⟨behind, found, rfl⟩ := Option.map_eq_some_iff.mp closed
    exact Nat.succ_le_succ (ih found)

theorem lt_length_of_head? {count : Nat} (next : (text.drop count).head? = some c) :
    count < text.length := by
  rw [List.head?_drop] at next
  exact (List.getElem?_eq_some_iff.mp next).1

theorem fractionLength_le (text : List Char) : fractionLength text ≤ text.length := by
  fun_cases fractionLength text with
  | case1 => exact Nat.zero_le _
  | case2 rest => exact Nat.succ_le_succ (countWhile_le isDigit rest)
  | case3 => exact Nat.zero_le _

theorem exponentLength_le (text : List Char) : exponentLength text ≤ text.length := by
  fun_cases exponentLength text with
  | case1 => exact Nat.zero_le _
  | case2 mark rest _ signs digits some =>
    have bound := countWhile_le isDigit (rest.drop signs)
    rw [List.length_drop] at bound
    show digits + signs + 1 ≤ rest.length + 1
    omega
  | case3 => exact Nat.zero_le _
  | case4 => exact Nat.zero_le _

theorem decimalLength_le (text : List Char) : decimalLength text ≤ text.length := by
  fun_cases decimalLength text with
  | case1 => exact Nat.zero_le _
  | case2 whole _ fraction =>
    have first := countWhile_le isDigit text
    have second := fractionLength_le (text.drop whole)
    have third := exponentLength_le (text.drop (whole + fraction))
    rw [List.length_drop] at second third
    omega

theorem markedLength_le (isMark holds : Char → Bool) (text : List Char) :
    markedLength isMark holds text ≤ text.length := by
  fun_cases markedLength isMark holds text with
  | case1 mark rest digits => exact Nat.succ_le_succ (Nat.succ_le_succ (countWhile_le holds rest))
  | case2 => exact Nat.zero_le _
  | case3 => exact Nat.zero_le _

theorem stringBodyLength_le (text : List Char) : stringBodyLength text ≤ text.length := by
  fun_induction stringBodyLength text with
  | case1 => exact Nat.le_refl _
  | case2 => exact Nat.zero_le _
  | case3 c rest _ ih => exact Nat.succ_le_succ (Nat.succ_le_succ ih)
  | case4 => exact Nat.zero_le _
  | case5 c rest _ _ ih => exact Nat.succ_le_succ ih

theorem afterWord?_length {word following : List Char} (read : afterWord? word text = some following) :
    text.length = word.length + following.length := by
  fun_induction afterWord? word text with
  | case1 text => cases read; simp
  | case2 letter word c text _ ih => simp [ih read]; omega
  | case3 => cases read
  | case4 => cases read

theorem afterWord?_suffix {word following : List Char} (read : afterWord? word text = some following) :
    following <:+ text := by
  fun_induction afterWord? word text with
  | case1 text => cases read; exact List.suffix_refl _
  | case2 letter word c text _ ih => exact (ih read).trans (List.suffix_cons c text)
  | case3 => cases read
  | case4 => cases read

/-! ### Reserved words -/

private theorem ascii_nameChar : ∀ code < 128, isNameChar (Char.ofNat code) = true →
    CharSet.word.contains (Char.ofNat code) = true := by decide +kernel

theorem ascii_of_isNameChar (nameChar : isNameChar c = true) : c.toNat < 128 := by
  have small : c.toNat ≤ 'z'.toNat := by
    simp only [isNameChar, isLetter, isDigit, Bool.or_eq_true, Bool.and_eq_true, decide_eq_true_eq,
      beq_iff_eq, Char.le_def, UInt32.le_iff_toNat_le] at nameChar
    obtain ((⟨_, small⟩ | ⟨_, small⟩) | rfl) | ⟨_, small⟩ := nameChar
    · exact small
    · exact Nat.le_trans small (by decide)
    · decide
    · exact Nat.le_trans small (by decide)
  exact Nat.lt_of_le_of_lt small (by decide)

theorem word_of_isNameChar (nameChar : isNameChar c = true) : CharSet.word.contains c = true := by
  have known := ascii_nameChar c.toNat (ascii_of_isNameChar nameChar)
  rw [Char.ofNat_toNat] at known
  exact known nameChar

theorem word_of_isFarCase (far : isFarCase c = true) : CharSet.word.contains c = true := by
  simp only [isFarCase, Bool.or_eq_true, beq_iff_eq] at far
  obtain rfl | rfl := far <;> decide +kernel

/-- Reserved words are spelled with letters, and with the two beyond ASCII. -/
theorem letter_of_isCaseOf {word : String} {letter : Char} (known : word ∈ reservedWords)
    (member : letter ∈ word.toList) (same : isCaseOf letter c = true) :
    isLetter c = true ∨ isFarCase c = true := by
  have letters : (reservedWords.all fun word => word.toList.all fun letter =>
      isLetter letter && isLetter letter.toUpper) = true := by decide
  simp only [List.all_eq_true, Bool.and_eq_true] at letters
  simp only [isCaseOf, Bool.or_eq_true, Bool.and_eq_true, beq_iff_eq] at same
  obtain ((rfl | rfl) | ⟨_, rfl⟩) | ⟨_, rfl⟩ := same
  · exact .inl (letters word known _ member).1
  · exact .inl (letters word known _ member).2
  · exact .inr (by decide)
  · exact .inr (by decide)

theorem word_of_isCaseOf {word : String} {letter : Char} (known : word ∈ reservedWords)
    (member : letter ∈ word.toList) (same : isCaseOf letter c = true) :
    CharSet.word.contains c = true := by
  obtain near | far := letter_of_isCaseOf known member same
  · exact word_of_isNameChar (by simp [isNameChar, near])
  · exact word_of_isFarCase far

/-- A word is read to its end or not at all. -/
theorem afterWord?_unique {first second rest rest' : List Char}
    (letters : ∀ letter, letter ∈ first ∨ letter ∈ second →
      ∀ c, isCaseOf letter c = true → CharSet.word.contains c = true)
    (read : afterWord? first text = some rest) (ends : atWordEnd rest = true)
    (read' : afterWord? second text = some rest') (ends' : atWordEnd rest' = true) :
    first.length = second.length := by
  induction first generalizing second text with
  | nil =>
    cases second with
    | nil => rfl
    | cons letter second =>
      cases read
      cases rest with
      | nil => cases read'
      | cons c rest =>
        rw [afterWord?] at read'
        split at read'
        next same => simp [atWordEnd, letters letter (by simp) c same] at ends
        next => cases read'
  | cons letter first ih =>
    cases text with
    | nil => cases read
    | cons c text =>
      rw [afterWord?] at read
      split at read
      next same =>
        cases second with
        | nil =>
          cases read'
          simp [atWordEnd, letters letter (by simp) c same] at ends'
        | cons letter' second =>
          rw [afterWord?] at read'
          split at read'
          next =>
            have shorter := ih (fun other among => letters other (by simp; tauto)) read read'
            rw [List.length_cons, List.length_cons, shorter]
          next => cases read'
      next => cases read

theorem reservedLength_eq_iff {count : Nat} (some : count ≠ 0) : reservedLength text = count ↔
    ∃ word ∈ reservedWords, word.length = count ∧
      (afterWord? word.toList text).any atWordEnd = true := by
  unfold reservedLength
  constructor
  · intro taken
    cases found : reservedWords.findSome? fun word =>
        if (afterWord? word.toList text).any atWordEnd then Option.some word.length else none with
    | none =>
      rw [found] at taken
      exact absurd taken.symm some
    | some length =>
      rw [found] at taken
      cases taken
      obtain ⟨word, known, here⟩ := List.exists_of_findSome?_eq_some found
      split at here
      next ends => exact ⟨word, known, Option.some.inj here, ends⟩
      next => cases here
  · rintro ⟨word, known, rfl, ends⟩
    cases found : reservedWords.findSome? fun word =>
        if (afterWord? word.toList text).any atWordEnd then Option.some word.length else none with
    | none =>
      have missed := List.findSome?_eq_none_iff.mp found word known
      rw [if_pos ends] at missed
      cases missed
    | some length =>
      obtain ⟨other, known', here⟩ := List.exists_of_findSome?_eq_some found
      split at here
      next ends' =>
        cases here
        obtain ⟨rest, read, ends⟩ := (Option.any_eq_true ..).mp ends
        obtain ⟨rest', read', ends'⟩ := (Option.any_eq_true ..).mp ends'
        refine afterWord?_unique (fun letter among c same => ?_) read' ends' read ends
        obtain first | second := among
        · exact word_of_isCaseOf known' first same
        · exact word_of_isCaseOf known second same
      next => cases here

/-! ### Lengths -/

/-- No rule takes more than there is. -/
theorem length_le (rule : Rule) (text : List Char) : rule.length text ≤ text.length := by
  cases rule with
  | blank => exact countWhile_le isBlank text
  | lineEnd =>
    show (if text.head? = some '\n' then 1 else 0) ≤ text.length
    cases text <;> simp; split <;> simp
  | lineComment =>
    show lineCommentLength text ≤ text.length
    unfold lineCommentLength
    split
    · exact Nat.succ_le_succ (Nat.succ_le_succ (countWhile_le _ _))
    · exact Nat.zero_le _
  | blockComment =>
    show blockCommentLength text ≤ text.length
    unfold blockCommentLength
    split
    next rest =>
      cases closed : commentRest? rest with
      | none => exact Nat.zero_le _
      | some count => exact Nat.succ_le_succ (Nat.succ_le_succ (commentRest?_le closed))
    next => exact Nat.zero_le _
  | unclosedComment =>
    show unclosedCommentLength text ≤ text.length
    unfold unclosedCommentLength
    split <;> simp
  | inclusion =>
    show inclusionLength text ≤ text.length
    unfold inclusionLength
    split
    next rest =>
      dsimp only
      split
      next closed => exact Nat.succ_le_succ (Nat.succ_le_succ (lt_length_of_head? closed))
      next => exact Nat.zero_le _
    next => exact Nat.zero_le _
  | number =>
    show numberLength text ≤ text.length
    unfold numberLength
    dsimp only
    split
    · exact markedLength_le ..
    · split
      · exact markedLength_le ..
      · exact decimalLength_le text
  | string =>
    show stringLength text ≤ text.length
    unfold stringLength
    split
    next rest =>
      dsimp only
      split
      next closed => exact Nat.succ_le_succ (lt_length_of_head? closed)
      next => exact Nat.zero_le _
    next => exact Nat.zero_le _
  | unclosedString =>
    show unclosedStringLength text ≤ text.length
    unfold unclosedStringLength
    split
    · exact Nat.succ_le_succ (stringBodyLength_le _)
    · exact Nat.zero_le _
  | reserved =>
    show reservedLength text ≤ text.length
    by_cases none : reservedLength text = 0
    · exact none ▸ Nat.zero_le _
    · obtain ⟨word, _, same, ends⟩ := (reservedLength_eq_iff none).mp rfl
      obtain ⟨following, read, _⟩ := (Option.any_eq_true ..).mp ends
      rw [← same, afterWord?_length read]
      exact Nat.le_add_right ..
  | identifier =>
    show identifierLength text ≤ text.length
    unfold identifierLength
    split
    · split
      · exact Nat.succ_le_succ (countWhile_le _ _)
      · exact Nat.zero_le _
    · exact Nat.zero_le _
  | sign =>
    show signLength text ≤ text.length
    unfold signLength
    split
    · exact (List.take_prefix 2 text).length_le
    · split
      next one =>
        cases text with
        | nil => exact absurd one (by decide)
        | cons => exact Nat.succ_le_succ (Nat.zero_le _)
      next => exact Nat.zero_le _
  | unknown => exact Nat.min_le_left _ _

/-! ### First characters -/

/-- The characters that the lexemes of a rule start with. -/
def starts : Rule → Char → Bool
  | .blank => isBlank
  | .lineEnd => (· == '\n')
  | .lineComment | .blockComment | .unclosedComment => (· == '/')
  | .inclusion => (· == '#')
  | .number => isDigit
  | .string | .unclosedString => (· == '"')
  | .reserved => fun c => isLetter c || isFarCase c
  | .identifier => isLetter
  | .sign => fun c => signs.any (·.1.head? == some c)
  | .unknown => fun _ => true

theorem markedLength_starts {isMark holds : Char → Bool}
    (applies : markedLength isMark holds (c :: text) ≠ 0) : isDigit c = true := by
  have zero : c = '0' := by
    by_contra other
    exact applies (by simp [markedLength, other])
  rw [zero]
  decide

theorem countWhile_starts {holds : Char → Bool} (applies : countWhile holds (c :: text) ≠ 0) :
    holds c = true := by
  by_contra other
  exact applies (by simp [countWhile, other])

theorem decimalLength_starts (applies : decimalLength (c :: text) ≠ 0) : isDigit c = true := by
  refine countWhile_starts (show countWhile isDigit (c :: text) ≠ 0 from fun none => applies ?_)
  simp [decimalLength, none]

theorem sign_starts {kind : TokenKind} (known : signKind? (c :: text) = some kind) :
    starts .sign c = true := by
  obtain ⟨sign, found, _⟩ := Option.map_eq_some_iff.mp known
  refine List.any_eq_true.mpr ⟨sign, List.mem_of_find?_eq_some found, ?_⟩
  have same : sign.1 = c :: text := by simpa using List.find?_some found
  simp [same]

theorem reserved_starts (applies : reservedLength (c :: text) ≠ 0) :
    isLetter c = true ∨ isFarCase c = true := by
  obtain ⟨word, known, same, ends⟩ := (reservedLength_eq_iff applies).mp rfl
  obtain ⟨following, read, _⟩ := (Option.any_eq_true ..).mp ends
  cases spelled : word.toList with
  | nil => exact absurd (by rw [← same, ← String.length_toList, spelled]; rfl) applies
  | cons letter letters =>
    rw [spelled, afterWord?] at read
    split at read
    next first => exact letter_of_isCaseOf known (by simp [spelled]) first
    next => cases read

theorem starts_of_applies (applies : rule.length (c :: text) ≠ 0) : starts rule c = true := by
  cases rule with
  | blank => exact countWhile_starts applies
  | lineEnd => by_contra other; simp_all [Rule.length, starts]
  | lineComment => by_contra other; simp_all [Rule.length, starts, lineCommentLength]
  | blockComment => by_contra other; simp_all [Rule.length, starts, blockCommentLength]
  | unclosedComment => by_contra other; simp_all [Rule.length, starts, unclosedCommentLength]
  | inclusion => by_contra other; simp_all [Rule.length, starts, inclusionLength]
  | number =>
    change numberLength (c :: text) ≠ 0 at applies
    unfold numberLength at applies
    dsimp only at applies
    split at applies
    next hex => exact markedLength_starts (by simpa using hex)
    next =>
      split at applies
      next binary => exact markedLength_starts (by simpa using binary)
      next => exact decimalLength_starts applies
  | string => by_contra other; simp_all [Rule.length, starts, stringLength]
  | unclosedString => by_contra other; simp_all [Rule.length, starts, unclosedStringLength]
  | reserved => exact Bool.or_eq_true_iff.mpr (reserved_starts applies)
  | identifier => by_contra other; simp_all [Rule.length, starts, identifierLength]
  | sign =>
    obtain ⟨kind, known⟩ := sign_known applies
    obtain ⟨more, length⟩ := Nat.exists_eq_succ_of_ne_zero (show signLength (c :: text) ≠ 0 from applies)
    rw [length, List.take_succ_cons] at known
    exact sign_starts known
  | unknown => rfl

theorem ascii_of_starts (first : starts rule c = true) :
    c.toNat < 128 ∨ rule = .unknown ∨ rule = .reserved ∧ isFarCase c = true := by
  cases rule with
  | blank =>
    simp only [starts, isBlank, Bool.or_eq_true, beq_iff_eq] at first
    obtain (rfl | rfl) | rfl := first <;> exact .inl (by decide)
  | number => exact .inl (ascii_of_isNameChar (by simp [isNameChar, show isDigit c = true from first]))
  | identifier => exact .inl (ascii_of_isNameChar (by simp [isNameChar, show isLetter c = true from first]))
  | reserved =>
    obtain near | far := Bool.or_eq_true_iff.mp first
    · exact .inl (ascii_of_isNameChar (by simp [isNameChar, near]))
    · exact .inr (.inr ⟨rfl, far⟩)
  | sign =>
    have all : (signs.all (·.1.head?.all (·.toNat < 128))) = true := by decide
    obtain ⟨sign, known, same⟩ := List.any_eq_true.mp first
    have ascii := List.all_eq_true.mp all sign known
    rw [beq_iff_eq.mp same] at ascii
    exact .inl (by simpa using ascii)
  | unknown => exact .inr (.inl rfl)
  | lineEnd | lineComment | blockComment | unclosedComment | inclusion | string | unclosedString =>
    simp only [starts, beq_iff_eq] at first
    subst first
    exact .inl (by decide)

/-! ### What follows a lexeme -/

/-- A length that a word alone decides once it is long enough. -/
def Settled (length : List Char → Nat) : Prop :=
  ∀ word following, length (word ++ following) ≤ word.length → length word = length (word ++ following)

theorem countWhile_append {holds : Char → Bool} (all : ∀ c ∈ word, holds c = true)
    (ends : following.head?.any holds = false) : countWhile holds (word ++ following) = word.length := by
  unfold countWhile
  rw [List.takeWhile_append_of_pos all, List.length_append, Nat.add_eq_left, List.length_eq_zero_iff]
  cases following with
  | nil => rfl
  | cons c rest => exact List.takeWhile_cons_of_neg (by simpa using ends)

theorem countWhile_settled (holds : Char → Bool) : Settled (countWhile holds) := by
  intro word following short
  induction word with
  | nil => exact (Nat.le_zero.mp short).symm
  | cons c word ih =>
    cases here : holds c with
    | false => simp [countWhile, here]
    | true =>
      simp only [countWhile, List.cons_append, List.takeWhile_cons_of_pos here, List.length_cons,
        Nat.add_le_add_iff_right] at short ⊢
      exact congrArg (· + 1) (ih short)

theorem fractionLength_settled : Settled fractionLength := by
  intro word following short
  cases word with
  | nil => exact (Nat.le_zero.mp short).symm
  | cons c word =>
    by_cases point : c = '.'
    · subst point
      have digits : countWhile isDigit (word ++ following) ≤ word.length →
          countWhile isDigit word = countWhile isDigit (word ++ following) :=
        countWhile_settled isDigit word following
      simp only [List.cons_append, fractionLength, List.length_cons] at short ⊢
      by_cases none : countWhile isDigit (word ++ following) = 0
      · rw [digits (by omega)]
      · rw [if_neg none] at short
        rw [digits (by omega)]
    · simp [fractionLength, point]

private theorem exponentLength_ne_one (text : List Char) : exponentLength text ≠ 1 := by
  fun_cases exponentLength text <;> omega

private theorem exponentLength_mark (mark : Char) : exponentLength [mark] = 0 := by
  simp [exponentLength, countWhile]

theorem exponentLength_settled : Settled exponentLength := by
  intro word following short
  match word, short with
  | [], short => exact (Nat.le_zero.mp short).symm
  | [mark], short =>
    have other := exponentLength_ne_one (mark :: following)
    have none : exponentLength (mark :: following) = 0 := by
      have short : exponentLength (mark :: following) ≤ 1 := short
      omega
    exact (exponentLength_mark mark).trans none.symm
  | mark :: first :: word, short =>
    simp only [List.cons_append, exponentLength, List.length_cons] at short ⊢
    split
    next isMark =>
      rw [if_pos isMark] at short
      simp only [List.head?_cons, Option.some.injEq] at short ⊢
      split at short <;> rename_i signed
      · have digits := countWhile_settled isDigit word following
        simp only [if_pos signed, List.drop_succ_cons, List.drop_zero] at short ⊢
        split at short <;> rw [digits (by omega)]
      · have digits := countWhile_settled isDigit (first :: word) following
        simp only [if_neg signed, List.drop_zero, List.cons_append, List.length_cons] at short digits ⊢
        split at short <;> rw [digits (by omega)]
    next => rfl

theorem decimalLength_settled : Settled decimalLength := by
  intro word following short
  have digits := countWhile_settled isDigit word following
  simp only [decimalLength] at short ⊢
  split at short
  next none => rw [digits (by omega), if_pos none, if_pos none]
  next some =>
    have whole : countWhile isDigit (word ++ following) ≤ word.length := by omega
    have point := fractionLength_settled (word.drop (countWhile isDigit (word ++ following))) following
    have mark := exponentLength_settled (word.drop (countWhile isDigit (word ++ following) +
      fractionLength ((word ++ following).drop (countWhile isDigit (word ++ following))))) following
    rw [← List.drop_append_of_le_length whole, List.length_drop] at point
    rw [← List.drop_append_of_le_length (by omega), List.length_drop] at mark
    rw [if_neg some, digits whole, if_neg some, point (by omega), mark (by omega)]

private theorem markedLength_ne_one (isMark holds : Char → Bool) (text : List Char) :
    markedLength isMark holds text ≠ 1 := by
  fun_cases markedLength isMark holds text <;> simp_all

private theorem markedLength_single (isMark holds : Char → Bool) (c : Char) :
    markedLength isMark holds [c] = 0 := by
  simp [markedLength]

theorem markedLength_settled (isMark holds : Char → Bool) : Settled (markedLength isMark holds) := by
  intro word following short
  match word, short with
  | [], short => exact (Nat.le_zero.mp short).symm
  | [c], short =>
    have short : markedLength isMark holds (c :: following) ≤ 1 := short
    have other := markedLength_ne_one isMark holds (c :: following)
    have none : markedLength isMark holds (c :: following) = 0 := by omega
    exact (markedLength_single isMark holds c).trans none.symm
  | zero :: mark :: word, short =>
    have digits := countWhile_settled holds word following
    by_cases isZero : zero = '0'
    · subst isZero
      simp only [List.cons_append, markedLength, List.length_cons] at short ⊢
      by_cases marked : isMark mark = true
      · simp only [marked, Bool.true_and] at short ⊢
        split at short
        · rw [digits (by omega)]
        next none => rw [digits (by simp_all), if_neg none]
      · simp [marked]
    · simp [markedLength, isZero]

theorem numberLength_settled : Settled numberLength := by
  intro word following short
  have hex := markedLength_settled (fun c => c == 'x' || c == 'X') isHexDigit word following
  have binary := markedLength_settled (fun c => c == 'b' || c == 'B') isBinaryDigit word following
  have decimal := decimalLength_settled word following
  simp only [numberLength] at short ⊢
  split at short
  · rw [hex (by omega)]
    simp_all
  next noHex =>
    rw [hex (by simp_all), if_neg noHex, if_neg noHex]
    split at short
    · rw [binary (by omega)]
      simp_all
    next noBinary =>
      rw [binary (by simp_all), if_neg noBinary, if_neg noBinary]
      exact decimal short

/-- What a block comment may hold. -/
def CommentBody (body : List Char) : Prop := ¬ ['*', '/'] <:+: body

/-- A block comment goes up to the first place where it may end. -/
theorem commentRest?_eq_some {count : Nat} : commentRest? text = some count ↔
    ∃ body behind, text = body ++ '*' :: '/' :: behind ∧ count = body.length + 2 ∧ CommentBody body := by
  fun_induction commentRest? text generalizing count with
  | case1 => simp
  | case2 rest =>
    constructor
    · intro two
      cases two
      exact ⟨[], rest, rfl, rfl, by simp [CommentBody]⟩
    · rintro ⟨body, behind, split, rfl, inside⟩
      match body with
      | [] => rfl
      | [first] => simp at split
      | first :: second :: body =>
        simp only [List.cons_append, List.cons.injEq] at split
        obtain ⟨rfl, rfl, _⟩ := split
        exact absurd (List.prefix_append ['*', '/'] body).isInfix inside
  | case3 c rest open' ih =>
    rw [Option.map_eq_some_iff]
    constructor
    · rintro ⟨count, closed, rfl⟩
      obtain ⟨body, behind, rfl, rfl, inside⟩ := ih.mp closed
      refine ⟨c :: body, behind, rfl, rfl, ?_⟩
      intro early
      obtain ⟨more, here⟩ | later := List.infix_cons_iff.mp early
      · cases here
        exact open' (more ++ '*' :: '/' :: behind) rfl rfl
      · exact inside later
    · rintro ⟨body, behind, split, rfl, inside⟩
      cases body with
      | nil =>
        cases split
        exact absurd rfl (open' behind rfl)
      | cons first body =>
        cases split
        exact ⟨body.length + 2, ih.mpr ⟨body, behind, rfl, rfl, fun later => inside (later.trans (List.suffix_cons _ _).isInfix)⟩, rfl⟩

theorem stringBodyLength_quote {body : List Char} (inside : StringBody body) (following : List Char) :
    stringBodyLength (body ++ '"' :: following) = body.length := by
  induction inside with
  | nil => rfl
  | plain quote backslash inside _ ih =>
    rw [List.cons_append, stringBodyLength.eq_3 _ _ (fun _ _ same _ => backslash same),
      if_neg (by simp [quote, backslash, inside]), ih, List.length_cons]
  | escape inside _ ih =>
    rw [List.cons_append, List.cons_append, stringBodyLength, if_neg inside, ih, List.length_cons,
      List.length_cons]

theorem stringLength_quoted {body : List Char} (inside : StringBody body) (following : List Char) :
    stringLength ('"' :: body ++ ['"'] ++ following) = body.length + 2 := by
  have closed : ((body ++ '"' :: following).drop body.length).head? = some '"' := by simp
  simp only [List.cons_append, List.append_assoc, List.nil_append, stringLength,
    stringBodyLength_quote inside, if_pos closed]

theorem forall_of_countWhile {holds : Char → Bool}
    (whole : countWhile holds (word ++ following) = word.length) :
    (∀ c ∈ word, holds c = true) ∧ following.head?.any holds = false := by
  induction word with
  | nil =>
    refine ⟨by simp, ?_⟩
    cases following with
    | nil => rfl
    | cons c rest =>
      cases here : holds c with
      | false => exact here
      | true => simp [countWhile, here] at whole
  | cons c word ih =>
    cases here : holds c with
    | false => simp [countWhile, here] at whole
    | true =>
      obtain ⟨all, ends⟩ := ih (by simpa [countWhile, here] using whole)
      exact ⟨List.forall_mem_cons.mpr ⟨here, all⟩, ends⟩

end Arcade.Proofs.Scanning
