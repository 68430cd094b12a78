import Arcade.Proofs.LexemeMeaning

/-! What a scan makes of a text without directives. Its tokens stand one after another in the text, told by
offset, line and column, the first of each line shows the line's indentation, and nothing but blanks and
comments is left out unless an error is reported. -/

namespace Arcade.Proofs.Scanning
open Arcade.Indent Arcade.Scan

variable {resolver : Resolver} {nested : Option (Nat × Scanner)} {levels : Nat} {path : Symbol}
  {names : Interner} {rule : Rule} {before text word following : List Char} {words : List (List Char)}
  {cursor : Cursor} {progress next : Progress} {session after : Session} {output : Output}
  {annotated : Option Nat} {tokens : List Token} {errors : List Error} {kinds : List NamedKind}

/-! ### Between tokens -/

/-- Words in their order, and nothing but blanks and comments between them. -/
inductive Layout : List (List Char) → List Char → Prop where
  | done : Layout [] []
  | word (word : List Char) {words : List (List Char)} {text : List Char} (rest : Layout words text) :
      Layout (word :: words) (word ++ text)
  | blank {c : Char} (blank : c ∈ [' ', '\t', '\r']) {words : List (List Char)} {text : List Char}
      (rest : Layout words text) : Layout words (c :: text)
  | lineComment {body : List Char} (single : '\n' ∉ body) {words : List (List Char)} {text : List Char}
      (ends : ∀ c ∈ text.head?, c = '\n') (rest : Layout words text) :
      Layout words ('/' :: '/' :: body ++ text)
  | blockComment {body : List Char} (inside : CommentBody body) {words : List (List Char)}
      {text : List Char} (rest : Layout words text) :
      Layout words ('/' :: '*' :: body ++ '*' :: '/' :: text)

theorem Layout.blanks (all : ∀ c ∈ word, isBlank c = true) (rest : Layout words text) :
    Layout words (word ++ text) := by
  induction word with
  | nil => exact rest
  | cons c word ih =>
    rw [List.forall_mem_cons] at all
    exact .blank (by simpa [isBlank, or_assoc] using all.1) (ih all.2)

theorem Layout.gap (takes : Takes rule word following) (between : isGap rule = true)
    (rest : Layout words following) : Layout words (word ++ following) := by
  have whole := takes.whole
  have applies := takes.applies
  cases rule with
  | blank => exact .blanks (forall_of_countWhile whole).1 rest
  | lineComment =>
    change lineCommentLength (word ++ following) = word.length at whole
    change lineCommentLength (word ++ following) ≠ 0 at applies
    unfold lineCommentLength at whole applies
    split at applies
    next more start =>
      simp only [start] at whole
      match word, whole with
      | first :: second :: body, whole =>
        simp only [List.cons_append, List.cons.injEq] at start
        obtain ⟨rfl, rfl, rfl⟩ := start
        have line : countWhile (· != '\n') (body ++ following) = body.length := Nat.add_right_cancel whole
        obtain ⟨single, ends⟩ := forall_of_countWhile line
        refine .lineComment (fun member => absurd (single _ member) (by decide)) ?_ rest
        intro c first
        rw [Option.mem_def.mp first] at ends
        simpa using ends
    next => exact absurd rfl applies
  | blockComment =>
    change blockCommentLength (word ++ following) = word.length at whole
    change blockCommentLength (word ++ following) ≠ 0 at applies
    unfold blockCommentLength at whole applies
    split at applies
    next more start =>
      cases closed : commentRest? more with
      | none => simp [closed] at applies
      | some count =>
        obtain ⟨body, behind, split, rfl, inside⟩ := commentRest?_eq_some.mp closed
        simp only [start, closed, Option.map_some, Option.getD_some] at whole
        match word, whole with
        | first :: second :: word, whole =>
          simp only [List.cons_append, List.cons.injEq] at start
          obtain ⟨rfl, rfl, rfl⟩ := start
          have parts : word ++ following = (body ++ ['*', '/']) ++ behind := by simpa using split
          obtain ⟨rfl, rfl⟩ := List.append_inj parts (by simpa using whole.symm)
          have laid := Layout.blockComment inside rest
          simpa using laid
    next => exact absurd rfl applies
  | _ => cases between

/-! ### Lexemes that are no tokens -/

/-- A lexeme that is no directive. -/
def Plain (lexeme : Lexeme) : Prop :=
  lexeme.rule ≠ .inclusion ∧ (lexeme.rule = .reserved → reservedKind lexeme.text ≠ .ok none)

theorem visit_silent (solid : word ≠ []) (plain : Plain ⟨rule, word, cursor⟩)
    (means : meaning rule word = none)
    (visited : visit resolver nested path ⟨rule, word, cursor⟩ progress = .ok (output, next)) :
    next = progress ∧ output.tokens = [] ∧
      (isGap rule = true ∧ output.errors = [] ∨ isGap rule = false ∧ output.errors ≠ []) := by
  obtain ⟨noInclusion, noConstant⟩ := plain
  unfold meaning at means
  split at means
  next => cases means
  next noName =>
    cases wordless (Option.map_eq_none_iff.mp means) noInclusion noName with
    | gap between visits =>
      rw [visits] at visited
      cases visited
      exact ⟨rfl, rfl, .inl ⟨between.resolve_right solid, rfl⟩⟩
    | mistake kind apart _ visits =>
      rw [visits] at visited
      cases visited
      exact ⟨rfl, rfl, .inr ⟨apart, List.cons_ne_nil _ _⟩⟩
    | constant isReserved begins => exact absurd begins (noConstant isReserved)
    | misspelled fault visits =>
      rw [visits] at visited
      cases visited

/-! ### Scans of plain texts -/

/-- What a scan makes of the text after another one. The line in `annotated` has shown its indentation. -/
inductive Scanned (path : Symbol) (names : Interner) :
    (annotated : Option Nat) → (before text : List Char) → List Token → List Error → Prop where
  | done (annotated : Option Nat) (before : List Char) : Scanned path names annotated before [] [] []
  | token {rule : Rule} {annotated : Option Nat} {before word following : List Char} {tokens : List Token}
      {errors : List Error} (takes : Takes rule word following) (kind : TokenKind)
      (means : meaning rule word = some (namedKind names kind))
      (rest : Scanned path names (some (cursorAt before (word ++ following)).line) (before ++ word) following tokens errors) :
      Scanned path names annotated before (word ++ following)
        (placed (tokenAt path word (cursorAt before (word ++ following)) kind)
          (cursorAt before (word ++ following)) annotated :: tokens) errors
  | gap {rule : Rule} {annotated : Option Nat} {before word following : List Char} {tokens : List Token}
      {errors : List Error} (takes : Takes rule word following) (between : isGap rule = true)
      (rest : Scanned path names annotated (before ++ word) following tokens errors) :
      Scanned path names annotated before (word ++ following) tokens errors
  | mistake {rule : Rule} {annotated : Option Nat} {before word following : List Char} {tokens : List Token}
      {errors found : List Error} (takes : Takes rule word following) (wrong : found ≠ [])
      (rest : Scanned path names annotated (before ++ word) following tokens errors) :
      Scanned path names annotated before (word ++ following) tokens (found ++ errors)

/-- No lexeme is the name of a constant. -/
def Unnamed (session : Session) (lexemes : List Lexeme) : Prop :=
  ∀ entry ∈ session.constants, ∃ name, session.interner.resolve? entry.1 = some name ∧
    ∀ lexeme ∈ lexemes, lexeme.rule = .identifier → String.ofList lexeme.text ≠ name

theorem Unnamed.unbound {lexeme : Lexeme} {lexemes : List Lexeme}
    (unnamed : Unnamed session (lexeme :: lexemes)) (isName : lexeme.rule = .identifier) :
    Unbound session lexeme.text := by
  refine List.lookup_eq_none_iff.mpr fun entry member => ?_
  obtain ⟨name, known, other⟩ := unnamed entry member
  by_contra same
  have same : (session.interner.intern (String.ofList lexeme.text)).1 = entry.1 := by simpa using same
  have here := resolve?_intern session.interner (String.ofList lexeme.text)
  rw [same, grows_intern session.interner (String.ofList lexeme.text) entry.1 name known] at here
  exact other lexeme List.mem_cons_self isName (Option.some.inj here).symm

theorem Unnamed.later {lexeme : Lexeme} {lexemes : List Lexeme} {interner : Interner}
    (unnamed : Unnamed session (lexeme :: lexemes)) (grows : Grows session.interner interner) :
    Unnamed { session with interner } lexemes := by
  intro entry member
  obtain ⟨name, known, other⟩ := unnamed entry member
  exact ⟨name, grows entry.1 name known, fun later among => other later (List.mem_cons_of_mem _ among)⟩

theorem visitAll_scanned (quiet : progress.directive = .none)
    (plain : ∀ lexeme ∈ lexemesAfter before text, Plain lexeme)
    (unnamed : Unnamed progress.session (lexemesAfter before text))
    (completed : visitAll resolver nested path (lexemesAfter before text) progress = .ok (output, after)) :
    Grows progress.session.interner after.interner ∧
      Scanned path after.interner progress.annotated before text output.tokens output.errors := by
  induction text using cut_induction generalizing before progress output with
  | nil =>
    rw [lexemesAfter_nil, visitAll, Progress.finish, quiet] at completed
    cases completed
    exact ⟨.refl _, .done _ _⟩
  | cut rule word following takes ih =>
    rw [lexemesAfter_takes before takes] at plain unnamed completed
    rw [List.forall_mem_cons] at plain
    obtain ⟨⟨first, next⟩, visited, continued⟩ := Except.bind_ok.mp completed
    obtain ⟨⟨last, _⟩, finished, done⟩ := Except.bind_ok.mp continued
    cases done
    cases means : meaning rule word with
    | some said =>
      obtain ⟨kind, interner, grows, same, made⟩ := visit_token quiet unnamed.unbound means
      rw [made] at visited
      cases visited
      obtain ⟨more, rest⟩ := ih (by exact quiet) plain.2 (by exact unnamed.later grows) finished
      -- The token is named by the last interner, which knows all symbols of the earlier ones.
      refine ⟨grows.trans more, .token takes kind ?_ rest⟩
      rw [means, same _ more]
    | none =>
      obtain ⟨rfl, silent, found⟩ := visit_silent takes.solid plain.1 means visited
      obtain ⟨grows, rest⟩ := ih quiet plain.2 (by exact unnamed.later (.refl _)) finished
      refine ⟨grows, ?_⟩
      show Scanned _ _ _ _ _ (first.tokens ++ last.tokens) (first.errors ++ last.errors)
      rw [silent]
      obtain ⟨between, none⟩ | ⟨_, wrong⟩ := found
      · rw [none]
        exact .gap takes between rest
      · exact .mistake takes wrong rest

theorem scan_eq (resolver : Resolver) (levels : Nat) (path : Symbol) (text : List Char) (session : Session) :
    ∃ nested, scan resolver levels path text session =
      visitAll resolver nested path (lexemesAfter [] text) { session } := by
  rw [← lexemes_eq]
  cases levels <;> exact ⟨_, rfl⟩

/-! ### Texts that are read -/

/-- Lexemes that say tokens, and between them nothing but blanks and comments. -/
inductive Reads : List NamedKind → List Char → Prop where
  | done : Reads [] []
  | token {rule : Rule} {word following : List Char} {said : NamedKind} {kinds : List NamedKind}
      (takes : Takes rule word following) (means : meaning rule word = some said)
      (rest : Reads kinds following) : Reads (said :: kinds) (word ++ following)
  | gap {rule : Rule} {word following : List Char} {kinds : List NamedKind}
      (takes : Takes rule word following) (between : isGap rule = true) (rest : Reads kinds following) :
      Reads kinds (word ++ following)

theorem visit_gap {cursor : Cursor} (between : isGap rule = true) :
    visit resolver nested path ⟨rule, word, cursor⟩ progress = .ok ({}, progress) := by
  cases rule <;> first | rfl | cases between

/-- Without constants, what is read comes out as tokens. -/
theorem Reads.visited (reads : Reads kinds text) (quiet : progress.directive = .none)
    (empty : progress.session.constants = []) :
    ∃ output after, visitAll resolver nested path (lexemesAfter before text) progress = .ok (output, after) ∧
      Grows progress.session.interner after.interner ∧ output.errors = [] ∧
      output.tokens.map (fun token => namedKind after.interner token.kind) = kinds := by
  induction reads generalizing before progress with
  | done =>
    rw [lexemesAfter_nil, visitAll, Progress.finish, quiet]
    exact ⟨_, _, rfl, .refl _, rfl, rfl⟩
  | token takes means rest ih =>
    rw [lexemesAfter_takes before takes, visitAll]
    obtain ⟨kind, interner, grows, same, made⟩ :=
      @visit_token resolver nested path _ _ _ _ _ quiet (fun _ => by rw [Unbound, empty]; rfl) means
    obtain ⟨output, after, completed, more, clean, kinds⟩ :=
      @ih _ { progress with session := { progress.session with interner }, annotated := some _ } quiet empty
    exact ⟨_, after, Except.bind_ok.mpr ⟨_, made, Except.bind_ok.mpr ⟨_, completed, rfl⟩⟩,
      grows.trans more, clean, congrArg₂ List.cons (same _ more) kinds⟩
  | gap takes between rest ih =>
    rw [lexemesAfter_takes before takes, visitAll]
    obtain ⟨output, after, completed, grows, clean, kinds⟩ := ih quiet empty
    exact ⟨_, after, Except.bind_ok.mpr ⟨_, visit_gap between, Except.bind_ok.mpr ⟨_, completed, rfl⟩⟩, grows, clean, kinds⟩

theorem Reads.scanned (reads : Reads kinds text) (empty : session.constants = []) :
    ∃ output after, scan resolver levels path text session = .ok (output, after) ∧ output.errors = [] ∧
      output.tokens.map (fun token => namedKind after.interner token.kind) = kinds := by
  obtain ⟨nested, visits⟩ := scan_eq resolver levels path text session
  have quiet : ({ session } : Progress).directive = .none := rfl
  obtain ⟨output, after, completed, _, clean, same⟩ := reads.visited quiet empty
  exact ⟨output, after, visits.trans completed, clean, same⟩

end Arcade.Proofs.Scanning
