import Mathlib.Data.List.Forall2
import Arcade.Proofs.ScannedText

/-! Where the tokens of a text stand. They follow one another without overlap, each at the offset, line and
column of its characters, and together with blanks and comments they are the whole text. -/

namespace Arcade.Proofs.Scanning
open Arcade.Indent Arcade.Scan

variable {resolver : Resolver} {levels : Nat} {session after : Session} {path : Symbol} {names : Interner} {rule : Rule} {before text word following : List Char}
  {words : List (List Char)} {annotated : Option Nat} {token : Token} {tokens : List Token} {errors : List Error}

/-! ### Lexemes by themselves -/

/-- The word scanned alone, by any tokenizer without constants, is one token that says the same. -/
def ScansAlone (names : Interner) (token : Token) (word : List Char) : Prop :=
  ∀ resolver levels path session, session.constants = [] →
    ∃ output after, scan resolver levels path word session = .ok (output, after) ∧
      output.errors = [] ∧
        output.tokens.map (fun alone => namedKind after.interner alone.kind) = [namedKind names token.kind]

theorem makesToken_of_meaning {said : NamedKind} (means : meaning rule word = some said) :
    makesToken rule = true := by
  cases rule <;> first | rfl | cases means

theorem scansAlone (takes : Takes rule word [])
    (means : meaning rule word = some (namedKind names token.kind)) : ScansAlone names token word := by
  intro resolver levels path session empty
  have reads := Reads.token takes means .done
  rw [List.append_nil] at reads
  exact reads.scanned empty

/-! ### Words cut short

A word may be followed by a letter that continues it but that no name has. Then it is taken as a name
although it is reserved, and the letter is a mistake. -/

/-- No token and no comment starts with a letter that names do not have. -/
theorem Takes.foreign {c : Char} (takes : Takes rule (c :: word) following)
    (continues : CharSet.word.contains c = true) (foreign : isNameChar c = false) :
    meaning rule (c :: word) = none ∧ isGap rule = false := by
  have first : starts rule c = true :=
    starts_of_applies (show rule.length (c :: (word ++ following)) ≠ 0 from takes.applies)
  have gaps : [' ', '\t', '\r', '\n', '/', '"'].any CharSet.word.contains = false := by decide +kernel
  have apart : signs.any (fun sign => sign.1.head?.any CharSet.word.contains) = false := by decide +kernel
  have known (among : c ∈ [' ', '\t', '\r', '\n', '/', '"']) : False :=
    List.any_eq_false.mp gaps c among continues
  cases rule with
  | unclosedComment | inclusion | unclosedString | unknown => exact ⟨rfl, rfl⟩
  | blank | lineEnd | lineComment | blockComment | string =>
    simp only [starts, isBlank, Bool.or_eq_true, beq_iff_eq] at first
    exact (known (by grind)).elim
  | number | identifier =>
    simp only [isNameChar, Bool.or_eq_false_iff] at foreign
    simp_all [starts]
  | sign =>
    obtain ⟨sign, among, same⟩ := List.any_eq_true.mp first
    exact absurd (by rw [beq_iff_eq.mp same]; exact continues) (List.any_eq_false.mp apart sign among)
  | reserved =>
    obtain near | far := Bool.or_eq_true_iff.mp first
    · simp [isNameChar, near] at foreign
    · have taken : Taken ⟨.reserved, c :: word, cursorAt [] []⟩ :=
        ⟨_, takes.applies, takes.take_length.symm⟩
      obtain ⟨right, _⟩ | ⟨_, failed⟩ := taken.misspelled_or_known rfl
      · exact absurd ⟨rfl, c, List.mem_cons_self, far⟩ right
      · exact ⟨by simp [meaning, fixedKind?, reservedKind?, failed], rfl⟩

theorem Takes.free (takes : Takes .identifier word following)
    (native : ∀ c ∈ following.head?, CharSet.word.contains c = true → isNameChar c = true) :
    reservedLength word = 0 := by
  by_contra reserved
  obtain ⟨spelling, known, length, ends⟩ := (reservedLength_eq_iff reserved).mp rfl
  obtain ⟨rest, read, ended⟩ := (Option.any_eq_true ..).mp ends
  obtain ⟨c, name, rfl, first, all, apart⟩ := takes.identifier
  -- every letter of the name continues a word
  obtain rfl : rest = [] := by
    cases rest with
    | nil => rfl
    | cons d rest =>
      have member := (afterWord?_suffix read).subset List.mem_cons_self
      have letter : isNameChar d = true := by
        obtain rfl | later := List.mem_cons.mp member
        · simp [isNameChar, first]
        · exact all d later
      simp [atWordEnd, word_of_isNameChar letter] at ended
  have whole := afterWord?_length read
  rw [List.length_nil, Nat.add_zero] at whole
  have here : afterWord? spelling.toList (c :: name ++ []) = some [] := by rwa [List.append_nil]
  obtain ⟨_, always⟩ := afterWord?_append whole.symm here
  have ends : atWordEnd following = true := by
    cases following with
    | nil => rfl
    | cons d following =>
      cases continues : CharSet.word.contains d with
      | false => simp [atWordEnd, continues]
      | true => simp [native d rfl continues] at apart
  have missed : reservedLength (c :: name ++ following) = 0 := takes.first .reserved (by decide)
  have taken := (reservedLength_eq_iff reserved).mpr
    ⟨spelling, known, length, (Option.any_eq_true ..).mpr ⟨following, always following, ends⟩⟩
  exact reserved (taken.symm.trans missed)

theorem Scanned.native (scanned : Scanned path names annotated before text tokens errors)
    (clean : errors = []) : ∀ c ∈ text.head?, CharSet.word.contains c = true → isNameChar c = true := by
  intro c first continues
  by_contra foreign
  have foreign : isNameChar c = false := by simpa using foreign
  cases scanned with
  | done => cases first
  | token takes kind means =>
    obtain ⟨d, word, rfl⟩ := List.exists_cons_of_ne_nil takes.solid
    cases first
    rw [(takes.foreign continues foreign).1] at means
    cases means
  | gap takes between =>
    obtain ⟨d, word, rfl⟩ := List.exists_cons_of_ne_nil takes.solid
    cases first
    rw [(takes.foreign continues foreign).2] at between
    cases between
  | mistake takes wrong => exact wrong (List.append_eq_nil_iff.mp clean).1

/-! ### Places -/

/-- The token stands in the text where the word does. -/
def Stands (path : Symbol) (text : List Char) (token : Token) (word : List Char) : Prop :=
  ∃ before following, text = before ++ word ++ following ∧ word ≠ [] ∧
    token.span = ⟨byteLength before, byteLength (before ++ word)⟩ ∧
    token.pos = ⟨before.count '\n' + 1, (lastLine before).length, path⟩

theorem Stands.span (stands : Stands path text token word) :
    token.span.start < token.span.stop ∧ token.span.stop ≤ byteLength text := by
  obtain ⟨before, following, rfl, solid, span, _⟩ := stands
  have wide := byteLength_pos solid
  rw [span]
  simp only [byteLength_append]
  exact ⟨by omega, by omega⟩

theorem stands_spans (stand : List.Forall₂ (Stands path text) tokens words) :
    ∀ token ∈ tokens, token.span.start < token.span.stop ∧ token.span.stop ≤ byteLength text := by
  induction stand with
  | nil => exact nofun
  | cons here _ ih => exact List.forall_mem_cons.mpr ⟨here.span, ih⟩

theorem Scanned.stands (scanned : Scanned path names annotated before text tokens errors) :
    ∃ words, List.Forall₂ (Stands path (before ++ text)) tokens words ∧
      (errors = [] → Layout words text ∧ List.Forall₂ (ScansAlone names) tokens words) := by
  induction scanned with
  | done => exact ⟨[], .nil, fun _ => ⟨.done, .nil⟩⟩
  | @token rule annotated before word following tokens errors takes kind means rest ih =>
    obtain ⟨words, stand, whole⟩ := ih
    rw [List.append_assoc] at stand
    refine ⟨word :: words, .cons ⟨before, following, ?_, takes.solid, ?_, rfl⟩ stand, fun clean => ?_⟩
    · exact (List.append_assoc ..).symm
    · rw [byteLength_append]
      rfl
    · obtain ⟨laid, alone⟩ := whole clean
      have only := takes.alone (makesToken_of_meaning means)
        fun isName => Takes.free (isName ▸ takes) (rest.native clean)
      exact ⟨.word word laid, .cons (scansAlone only means) alone⟩
  | gap takes between rest ih =>
    obtain ⟨words, stand, whole⟩ := ih
    rw [List.append_assoc] at stand
    refine ⟨words, stand, fun clean => ?_⟩
    obtain ⟨laid, alone⟩ := whole clean
    exact ⟨laid.gap takes between, alone⟩
  | mistake takes wrong rest ih =>
    obtain ⟨words, stand, _⟩ := ih
    rw [List.append_assoc] at stand
    exact ⟨words, stand, fun clean => absurd (List.append_eq_nil_iff.mp clean).1 wrong⟩

theorem Scanned.behind (scanned : Scanned path names annotated before text tokens errors) :
    ∀ token ∈ tokens, byteLength before ≤ token.span.start ∧ before.count '\n' + 1 ≤ token.pos.line := by
  induction scanned with
  | done => exact nofun
  | token takes kind means rest ih =>
    refine List.forall_mem_cons.mpr ⟨⟨Nat.le_refl _, Nat.le_refl _⟩, fun later member => ?_⟩
    obtain ⟨start, line⟩ := ih later member
    rw [byteLength_append] at start
    rw [List.count_append] at line
    exact ⟨by omega, by omega⟩
  | gap _ _ _ ih | mistake _ _ _ ih =>
    intro later member
    obtain ⟨start, line⟩ := ih later member
    rw [byteLength_append] at start
    rw [List.count_append] at line
    exact ⟨by omega, by omega⟩

theorem Scanned.apart (scanned : Scanned path names annotated before text tokens errors) :
    tokens.Pairwise fun first second => first.span.stop ≤ second.span.start := by
  induction scanned with
  | done => exact .nil
  | token takes kind means rest ih =>
    refine .cons (fun later member => ?_) ih
    have start := (rest.behind later member).1
    rw [byteLength_append] at start
    exact start
  | gap _ _ _ ih | mistake _ _ _ ih => exact ih

/-- Lines are annotated in order, so the line annotated last tells whether a token is the first of its
line. -/
theorem Scanned.indents (scanned : Scanned path names annotated before text tokens errors)
    (past : ∀ line ∈ annotated, line ≤ before.count '\n' + 1) {ahead behind : List Token}
    (split : tokens = ahead ++ token :: behind) :
    ∃ line, (Text.split '\n' (before ++ text))[token.pos.line - 1]? = some line ∧
      token.indent = if annotated = some token.pos.line ∨ ∃ earlier ∈ ahead, earlier.pos.line = token.pos.line
        then none else some (indentOf line) := by
  induction scanned generalizing ahead with
  | done => cases ahead <;> cases split
  | @token rule annotated before word following tokens errors takes kind means rest ih =>
    cases ahead with
    | nil =>
      cases split
      refine ⟨_, split_lineAcross before (word ++ following), ?_⟩
      simp only [placed, tokenAt, Cursor.pos, List.not_mem_nil, false_and, exists_false, or_false]
      rfl
    | cons first ahead =>
      obtain ⟨rfl, later⟩ := List.cons.inj split
      obtain ⟨line, here, indent⟩ := ih (by simp [cursorAt]) later
      rw [List.append_assoc] at here
      refine ⟨line, here, indent.trans (if_congr ?_ rfl rfl)⟩
      have onward := (rest.behind token (by simp [later])).2
      rw [List.count_append] at onward
      -- no line after the one annotated last was annotated before
      have same : annotated = some token.pos.line → before.count '\n' + 1 = token.pos.line := by
        intro last
        have early := past _ last
        omega
      simp [placed, tokenAt, cursorAt, Cursor.pos]
      tauto
  | gap _ _ _ ih | mistake _ _ _ ih =>
    rw [← List.append_assoc]
    refine ih (fun line last => ?_) split
    have early := past line last
    rw [List.count_append]
    omega

/-- Nothing in a text without directives is lost. The spans of its tokens are characters of the text, one
after another; what is between them is blank or a comment if there are no errors; and lines, columns and
indentations are those of the places where the tokens start. -/
theorem scan_places {output : Output} (plain : ∀ lexeme ∈ lexemes text, Plain lexeme)
    (unnamed : Unnamed session (lexemes text))
    (completed : scan resolver levels path text session = .ok (output, after)) :
    (∀ token ∈ output.tokens, token.span.start < token.span.stop ∧ token.span.stop ≤ byteLength text) ∧
    (output.tokens.Pairwise fun first second => first.span.stop ≤ second.span.start) ∧
    (∃ words, List.Forall₂ (Stands path text) output.tokens words ∧
      (output.errors = [] →
        Layout words text ∧ List.Forall₂ (ScansAlone after.interner) output.tokens words)) ∧
    ∀ ahead token behind, output.tokens = ahead ++ token :: behind →
      ∃ line, (Text.split '\n' text)[token.pos.line - 1]? = some line ∧
        token.indent = if ∃ earlier ∈ ahead, earlier.pos.line = token.pos.line then none
          else some (indentOf line) := by
  obtain ⟨nested, visits⟩ := scan_eq resolver levels path text session
  rw [lexemes_eq] at plain unnamed
  rw [visits] at completed
  obtain ⟨_, scanned⟩ := visitAll_scanned rfl plain unnamed completed
  obtain ⟨words, stand, whole⟩ := scanned.stands
  refine ⟨stands_spans stand, scanned.apart, ⟨words, stand, whole⟩, fun ahead token behind split => ?_⟩
  simpa using scanned.indents (by simp) split

/-- A comment goes over the end of a line, and the third line is indented. -/
theorem scan_places_of_lines :
    let text := "if x /* ü\n*/ y\n\t \"ü\" end\r// end".toList
    ∃ output after words, scan Resolver.none 0 ⟨0⟩ text { interner := Interner.empty, constants := [] } =
        .ok (output, after) ∧
      output.tokens.map (fun token => (token.span.start, token.indent)) =
        [(0, some 0), (3, none), (14, some 0), (15, none), (18, some 1), (23, none)] ∧
      Layout words text ∧ List.Forall₂ (Stands ⟨0⟩ text) output.tokens words := by
  intro text
  have plain : ∀ lexeme ∈ lexemes text, Plain lexeme := by
    unfold Plain
    decide +kernel
  cases completed : scan Resolver.none 0 ⟨0⟩ text { interner := Interner.empty, constants := [] } with
  | error fault =>
    have made : (scan Resolver.none 0 ⟨0⟩ text { interner := Interner.empty, constants := [] }).isOk := by
      decide +kernel
    rw [completed] at made
    cases made
  | ok result =>
    have made : (scan Resolver.none 0 ⟨0⟩ text { interner := Interner.empty, constants := [] }).toOption.map
        (fun result => (result.1.errors, result.1.tokens.map fun token => (token.span.start, token.indent))) =
        some ([], [(0, some 0), (3, none), (14, some 0), (15, none), (18, some 1), (23, none)]) := by
      decide +kernel
    rw [completed] at made
    obtain ⟨clean, shown⟩ := Prod.mk.inj (Option.some.inj made)
    obtain ⟨_, _, ⟨words, stand, whole⟩, _⟩ := scan_places plain (by exact nofun) completed
    exact ⟨_, _, words, rfl, shown, (whole clean).1, stand⟩

end Arcade.Proofs.Scanning
