import Arcade.Proofs.LexemeLengths
import Arcade.Proofs.TextPlaces

/-! Which rule takes the start of a text. Few rules start with the same characters, so a lexeme is known
by its length once those are excluded, and it stays a lexeme when other text follows it. -/

namespace Arcade.Proofs.Scanning
open Arcade.Scan

variable {rule other : Rule} {c : Char} {text word following before : List Char}

/-! ### The first rule that applies -/

theorem mem_order (rule : Rule) : rule ∈ Rule.order := by cases rule <;> decide

/-- The rules that are tried before another one. -/
def earlier (rule : Rule) : List Rule := Rule.order.takeWhile (· ≠ rule)

private theorem find?_first {rules : List Rule} {test : Rule → Bool} : rules.find? test = some rule ↔
    rule ∈ rules ∧ test rule = true ∧ ∀ other ∈ rules.takeWhile (· ≠ rule), test other = false := by
  induction rules with
  | nil => simp
  | cons first rest ih =>
    by_cases here : first = rule
    · subst here
      cases applies : test first with
      | true => simp [applies]
      | false => simpa [applies] using fun found => absurd (List.find?_some found) (by simp [applies])
    · cases applies : test first <;> simp [applies, here, ih, Ne.symm here]

theorem matching?_eq_some : Rule.matching? text = some rule ↔
    rule.length text ≠ 0 ∧ ∀ other ∈ earlier rule, other.length text = 0 := by
  simp [Rule.matching?, find?_first, mem_order, earlier]

/-- The rule is the one that takes the word from the start of the text. -/
structure Takes (rule : Rule) (word following : List Char) : Prop where
  solid : word ≠ []
  whole : rule.length (word ++ following) = word.length
  first : ∀ other ∈ earlier rule, other.length (word ++ following) = 0

theorem Takes.applies (takes : Takes rule word following) : rule.length (word ++ following) ≠ 0 := by
  rw [takes.whole]
  exact fun none => takes.solid (List.length_eq_zero_iff.mp none)

theorem Takes.matched (takes : Takes rule word following) :
    Rule.matching? (word ++ following) = some rule :=
  matching?_eq_some.mpr ⟨takes.applies, takes.first⟩

theorem exists_takes (solid : text ≠ []) :
    ∃ rule word following, text = word ++ following ∧ Takes rule word following := by
  cases found : Rule.matching? text with
  | none =>
    have none := List.find?_eq_none.mp found .unknown (by decide)
    exact absurd none (by simp [Rule.length, solid])
  | some rule =>
    obtain ⟨applies, first⟩ := matching?_eq_some.mp found
    have whole := List.take_append_drop (rule.length text) text
    refine ⟨rule, text.take (rule.length text), text.drop (rule.length text), whole.symm, ?_, ?_, ?_⟩
    · simpa [solid] using applies
    · rw [whole, List.length_take, Nat.min_eq_left (length_le rule text)]
    · rwa [whole]

/-! ### Rules that start alike -/

/-- Whether lexemes of the second rule, which is tried before the first one, may start as those of the
first do. -/
def startAlike : Rule → Rule → Bool
  | .blockComment, .lineComment => true
  | .unclosedComment, .lineComment | .unclosedComment, .blockComment => true
  | .unclosedString, .string => true
  | .identifier, .reserved => true
  | .sign, .lineComment | .sign, .blockComment | .sign, .unclosedComment => true
  | .unknown, _ => true
  | _, _ => false

private theorem ascii_alike : ∀ code < 128, (Rule.order.filter (starts · (Char.ofNat code))).Pairwise
    fun other rule => startAlike rule other = true := by
  decide +kernel

theorem pairwise_earlier {relation : Rule → Rule → Prop} (pairs : Rule.order.Pairwise relation)
    (tried : other ∈ earlier rule) : relation other rule := by
  have listed := mem_order rule
  rw [← List.takeWhile_append_dropWhile (p := (· ≠ rule)) (l := Rule.order)] at pairs listed
  refine (List.pairwise_append.mp pairs).2.2 other tried rule ?_
  refine (List.mem_append.mp listed).resolve_left fun before => ?_
  simpa using List.mem_takeWhile_imp before

theorem alike_of_starts (tried : other ∈ earlier rule) (first : starts rule c = true)
    (second : starts other c = true) : startAlike rule other = true := by
  have near (ascii : c.toNat < 128) : startAlike rule other = true := by
    have known := List.pairwise_filter.mp (ascii_alike c.toNat ascii)
    rw [Char.ofNat_toNat] at known
    exact pairwise_earlier known tried second first
  obtain ascii | rfl | ⟨rfl, _⟩ := ascii_of_starts first
  · exact near ascii
  · rfl
  · obtain ascii | rfl | ⟨rfl, _⟩ := ascii_of_starts second
    · exact near ascii
    · exact absurd tried (by decide)
    · exact absurd tried (by decide)

theorem takes_of_length (solid : word ≠ []) (whole : rule.length (word ++ following) = word.length)
    (alone : ∀ other, startAlike rule other = true → other.length (word ++ following) = 0) :
    Takes rule word following := by
  refine ⟨solid, whole, fun other tried => ?_⟩
  obtain ⟨c, word, rfl⟩ := List.exists_cons_of_ne_nil solid
  by_contra applies
  have first : starts rule c = true :=
    starts_of_applies (show rule.length (c :: (word ++ following)) ≠ 0 by simp_all)
  have second : starts other c = true := starts_of_applies applies
  exact applies (alone other (alike_of_starts tried first second))

/-! ### Words and what follows them -/

theorem takes_blank (solid : word ≠ []) (all : ∀ c ∈ word, isBlank c = true)
    (ends : following.head?.any isBlank = false) : Takes .blank word following := by
  refine takes_of_length solid (countWhile_append all ends) ?_
  intro other alike
  cases other <;> cases alike

theorem takes_lineEnd (following : List Char) : Takes .lineEnd ['\n'] following := by
  refine takes_of_length (List.cons_ne_nil _ _) rfl ?_
  intro other alike
  cases other <;> cases alike

theorem takes_blockComment {body : List Char} (inside : CommentBody body) (following : List Char) :
    Takes .blockComment ('/' :: '*' :: body ++ ['*', '/']) following := by
  have closed : commentRest? (body ++ '*' :: '/' :: following) = some (body.length + 2) :=
    commentRest?_eq_some.mpr ⟨body, following, rfl, rfl, inside⟩
  refine takes_of_length (List.cons_ne_nil _ _) ?_ ?_
  · simp [Rule.length, blockCommentLength, closed]
  · intro other alike
    cases other <;> cases alike
    rfl

theorem takes_number (solid : word ≠ []) (whole : numberLength (word ++ following) = word.length) :
    Takes .number word following := by
  refine takes_of_length solid whole ?_
  intro other alike
  cases other <;> cases alike

theorem takes_string {body : List Char} (inside : StringBody body) (following : List Char) :
    Takes .string ('"' :: body ++ ['"']) following := by
  refine takes_of_length (List.cons_ne_nil _ _) ?_ ?_
  · exact (stringLength_quoted inside following).trans (by simp)
  · intro other alike
    cases other <;> cases alike

theorem takes_reserved {spelling : String} (known : spelling ∈ reservedWords)
    (length : spelling.length = word.length)
    (read : afterWord? spelling.toList (word ++ following) = some following)
    (ends : atWordEnd following = true) : Takes .reserved word following := by
  have solid : word.length ≠ 0 := by
    have all : ∀ spelling ∈ reservedWords, spelling.length ≠ 0 := by decide
    rw [← length]
    exact all spelling known
  refine takes_of_length (fun none => solid (by rw [none]; rfl)) ?_ ?_
  · exact (reservedLength_eq_iff solid).mpr ⟨spelling, known, length, by rw [read]; exact ends⟩
  · intro other alike
    cases other <;> cases alike

theorem takes_identifier (first : isLetter c = true) (all : ∀ d ∈ word, isNameChar d = true)
    (ends : following.head?.any isNameChar = false)
    (free : reservedLength (c :: word ++ following) = 0) : Takes .identifier (c :: word) following := by
  refine takes_of_length (List.cons_ne_nil _ _) ?_ ?_
  · simp [Rule.length, identifierLength, first, countWhile_append all ends]
  · intro other alike
    cases other <;> cases alike
    exact free

private theorem comment_start (applies : lineCommentLength text ≠ 0 ∨ blockCommentLength text ≠ 0 ∨
    unclosedCommentLength text ≠ 0) : text.take 2 = ['/', '/'] ∨ text.take 2 = ['/', '*'] := by
  unfold lineCommentLength blockCommentLength unclosedCommentLength at applies
  obtain line | block | unclosed := applies
  · split at line
    · exact .inl rfl
    · exact absurd rfl line
  · split at block
    · exact .inr rfl
    · exact absurd rfl block
  · split at unclosed
    · exact .inr rfl
    · exact absurd rfl unclosed

theorem mem_signs {kind : TokenKind} (known : signKind? word = some kind) : (word, kind) ∈ signs := by
  obtain ⟨sign, found, rfl⟩ := Option.map_eq_some_iff.mp known
  have same : sign.1 = word := by simpa using List.find?_some found
  rw [← same]
  exact List.mem_of_find?_eq_some found

private theorem signs_short : ∀ sign ∈ signs, (sign.1.length = 1 ∨ sign.1.length = 2) ∧
    sign.1 ≠ ['/', '/'] ∧ sign.1 ≠ ['/', '*'] := by decide

/-- A sign is taken whole where no longer sign and no comment starts. -/
theorem takes_sign {kind : TokenKind} (known : signKind? word = some kind)
    (longest : ∀ c ∈ following.head?, c ≠ '/' ∧ c ≠ '*' ∧ ∀ first, signKind? [first, c] = none) :
    Takes .sign word following := by
  obtain ⟨size, noLine, noBlock⟩ := signs_short _ (mem_signs known)
  have solid : word ≠ [] := by
    rintro rfl
    simp at size
  have start : (word ++ following).take 2 ≠ ['/', '/'] ∧ (word ++ following).take 2 ≠ ['/', '*'] := by
    match word, following, size with
    | [first], [], _ => simp
    | [first], c :: rest, _ =>
      obtain ⟨slash, star, _⟩ := longest c rfl
      simp [slash, star]
    | [first, second], following, _ => exact ⟨noLine, noBlock⟩
  refine takes_of_length solid ?_ ?_
  · show signLength (word ++ following) = word.length
    match word, following, size with
    | [first], [], _ => simp [signLength, known]
    | [first], c :: rest, _ =>
      obtain ⟨_, _, short⟩ := longest c rfl
      simp [signLength, known, short]
    | [first, second], following, _ => simp [signLength, known]
  · intro other alike
    by_contra applies
    have comment := @comment_start (word ++ following)
    cases other <;> cases alike <;> simp_all [Rule.length]

/-! ### Words by themselves -/

/-- The rules whose lexemes become tokens. -/
def makesToken : Rule → Bool
  | .lineEnd | .number | .string | .reserved | .identifier | .sign => true
  | _ => false

theorem Takes.take_length (takes : Takes rule word following) :
    (word ++ following).take (rule.length (word ++ following)) = word := by
  rw [takes.whole, List.take_left]

/-- Reading a word depends on its characters only. -/
theorem afterWord?_append {letters rest : List Char} (length : letters.length = word.length)
    (read : afterWord? letters (word ++ following) = some rest) :
    rest = following ∧ ∀ other, afterWord? letters (word ++ other) = some other := by
  induction letters generalizing word with
  | nil =>
    obtain rfl := List.length_eq_zero_iff.mp length.symm
    cases read
    exact ⟨rfl, fun _ => rfl⟩
  | cons letter letters ih =>
    cases word with
    | nil => cases length
    | cons c word =>
      rw [List.cons_append, afterWord?] at read
      split at read
      next same =>
        obtain ⟨here, always⟩ := ih (Nat.succ.inj length) read
        refine ⟨here, fun other => ?_⟩
        rw [List.cons_append, afterWord?, if_pos same]
        exact always other
      next => cases read

theorem Takes.reserved (takes : Takes .reserved word following) : ∃ spelling ∈ reservedWords,
    spelling.length = word.length ∧ atWordEnd following = true ∧
      ∀ other, afterWord? spelling.toList (word ++ other) = some other := by
  obtain ⟨spelling, known, length, ends⟩ := (reservedLength_eq_iff takes.applies).mp rfl
  obtain ⟨rest, read, ended⟩ := (Option.any_eq_true ..).mp ends
  rw [takes.whole] at length
  obtain ⟨rfl, always⟩ := afterWord?_append (String.length_toList.trans length) read
  exact ⟨spelling, known, length, ended, always⟩

theorem Takes.identifier (takes : Takes .identifier word following) : ∃ c rest, word = c :: rest ∧
    isLetter c = true ∧ (∀ d ∈ rest, isNameChar d = true) ∧ following.head?.any isNameChar = false := by
  have applies := takes.applies
  have whole := takes.whole
  obtain ⟨c, rest, rfl⟩ := List.exists_cons_of_ne_nil takes.solid
  have first : isLetter c = true := starts_of_applies (show Rule.identifier.length _ ≠ 0 from applies)
  have name : countWhile isNameChar (rest ++ following) = rest.length := by
    simpa [Rule.length, identifierLength, first] using whole
  obtain ⟨all, ends⟩ := forall_of_countWhile name
  exact ⟨c, rest, rfl, first, all, ends⟩

/-- A lexeme that becomes a token is taken by the same rule when nothing follows it. -/
theorem Takes.alone (takes : Takes rule word following) (token : makesToken rule = true)
    (free : rule = .identifier → reservedLength word = 0) : Takes rule word [] := by
  have part := takes.take_length
  cases rule with
  | lineEnd =>
    have short := takes.whole
    obtain ⟨c, rest, rfl⟩ := List.exists_cons_of_ne_nil takes.solid
    obtain rfl : c = '\n' := by
      simpa [starts] using starts_of_applies (show Rule.lineEnd.length _ ≠ 0 from takes.applies)
    obtain rfl : rest = [] := by simpa [Rule.length, eq_comm] using short
    exact takes_lineEnd []
  | number =>
    refine takes_number takes.solid ?_
    rw [List.append_nil, numberLength_settled word following takes.whole.le]
    exact takes.whole
  | string =>
    obtain ⟨body, inside, shape⟩ := string_shape takes.applies
    rw [← part]
    change Takes .string ((word ++ following).take (stringLength (word ++ following))) []
    rw [shape]
    exact takes_string inside []
  | reserved =>
    obtain ⟨spelling, known, length, _, always⟩ := takes.reserved
    exact takes_reserved known length (always []) rfl
  | identifier =>
    obtain ⟨c, rest, rfl, first, all, _⟩ := takes.identifier
    exact takes_identifier first all rfl (by rw [List.append_nil]; exact free rfl)
  | sign =>
    obtain ⟨kind, known⟩ := sign_known takes.applies
    change signKind? ((word ++ following).take (Rule.sign.length (word ++ following))) = some kind at known
    rw [part] at known
    exact takes_sign known (by simp)
  | blank | lineComment | blockComment | unclosedComment | inclusion | unclosedString | unknown =>
    cases token

/-! ### Texts cut into lexemes -/

/-- The lexemes of the second part of a text. -/
def lexemesAfter (before text : List Char) : List Lexeme := lexemesFrom (cursorAt before text) text

theorem lexemes_eq (text : List Char) : lexemes text = lexemesAfter [] text := by
  rw [lexemesAfter, cursorAt_start, lexemes]

theorem lexemesAfter_nil (before : List Char) : lexemesAfter before [] = [] := by
  rw [lexemesAfter, lexemesFrom]

theorem lexemesAfter_takes (before : List Char) (takes : Takes rule word following) :
    lexemesAfter before (word ++ following) =
      ⟨rule, word, cursorAt before (word ++ following)⟩ :: lexemesAfter (before ++ word) following := by
  have matched := takes.matched
  have whole := takes.whole
  obtain ⟨c, rest, rfl⟩ := List.exists_cons_of_ne_nil takes.solid
  rw [lexemesAfter, List.cons_append, lexemesFrom]
  simp only [← List.cons_append, matched, Option.getD_some, whole, List.length_cons, Nat.add_sub_cancel,
    List.take_left, List.drop_left]
  rw [past_cursorAt]
  rfl

/-- A text is cut from its start on, lexeme by lexeme. -/
theorem cut_induction {motive : List Char → Prop} (nil : motive [])
    (cut : ∀ rule word following, Takes rule word following → motive following →
      motive (word ++ following)) (text : List Char) : motive text := by
  induction length : text.length using Nat.strongRecOn generalizing text with
  | ind size ih =>
    by_cases solid : text = []
    · exact solid ▸ nil
    · obtain ⟨rule, word, following, rfl, takes⟩ := exists_takes solid
      refine cut rule word following takes (ih following.length ?_ following rfl)
      rw [← length, List.length_append]
      exact Nat.lt_add_of_pos_left (List.length_pos_of_ne_nil takes.solid)

/-- A place in a text is on the line that its number says, and has the indentation of that line. -/
theorem lexemesAfter_lines (before text : List Char) : ∀ lexeme ∈ lexemesAfter before text,
    ∃ line, (Text.split '\n' (before ++ text))[lexeme.start.line - 1]? = some line ∧
      lexeme.start.indent = Indent.indentOf line := by
  induction text using cut_induction generalizing before with
  | nil =>
    rw [lexemesAfter_nil]
    exact nofun
  | cut rule word following takes ih =>
    rw [lexemesAfter_takes before takes]
    refine List.forall_mem_cons.mpr ⟨⟨_, split_lineAcross before (word ++ following), rfl⟩, ?_⟩
    rw [← List.append_assoc]
    exact ih (before ++ word)

theorem lexemesAfter_behind (before text : List Char) :
    ∀ lexeme ∈ lexemesAfter before text, before.count '\n' + 1 ≤ lexeme.start.line := by
  induction text using cut_induction generalizing before with
  | nil =>
    rw [lexemesAfter_nil]
    exact nofun
  | cut rule word following takes ih =>
    rw [lexemesAfter_takes before takes]
    refine List.forall_mem_cons.mpr ⟨Nat.le_refl _, fun later member => ?_⟩
    have onward := ih (before ++ word) later member
    rw [List.count_append] at onward
    omega

theorem lexemesAfter_ordered (before text : List Char) :
    (lexemesAfter before text).Pairwise (·.start.line ≤ ·.start.line) := by
  induction text using cut_induction generalizing before with
  | nil =>
    rw [lexemesAfter_nil]
    exact .nil
  | cut rule word following takes ih =>
    rw [lexemesAfter_takes before takes]
    refine .cons (fun later member => ?_) (ih (before ++ word))
    have onward := lexemesAfter_behind (before ++ word) following later member
    rw [List.count_append, Nat.add_right_comm] at onward
    exact Nat.le_trans (Nat.le_add_right _ _) onward

end Arcade.Proofs.Scanning
