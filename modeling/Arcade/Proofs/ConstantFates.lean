import Arcade.Proofs.ConstantSubstitution

/-! What becomes of the directives of a text. One that no token follows before the next directive or the end
of the text leaves no trace, and neither does one whose line, after the name, has another directive on it. All
others are recorded when their line or the text ends, or reported where they stand. -/

namespace Arcade.Proofs.Scanning
open Arcade.Scan

/-! ### Fates -/

inductive Fate where
  | records (name : String)
  | reported
  | abandoned
deriving DecidableEq

/-- A directive that has its name is recorded at the end of its line, unless another one starts before. -/
def bodyFate (name : String) (words : List Mention) : Fate :=
  if ∃ mention ∈ restOfLine words, mention.word = .constant then .abandoned else .records name

/-- What becomes of a directive that is followed by these words. -/
def fate : List Mention → Fate
  | [] | ⟨.constant, _⟩ :: _ => .abandoned
  | ⟨.token (.name (some name)), _⟩ :: words => bodyFate name words
  | ⟨.token _, _⟩ :: _ => .reported

structure Declaration where
  pos : Position
  fate : Fate
deriving DecidableEq

/-- The directives of a text in order. -/
def declarations (path : Symbol) : List Lexeme → List Declaration
  | [] => []
  | lexeme :: rest =>
    if word? lexeme = some .constant then
      ⟨lexeme.pos path, fate (rest.filterMap mention?)⟩ :: declarations path rest
    else declarations path rest

def Declaration.report? (declaration : Declaration) : Option Error :=
  match declaration.fate with
  | .reported => some ⟨.invalidConstant, declaration.pos⟩
  | _ => none

def Declaration.name? (declaration : Declaration) : Option String :=
  match declaration.fate with
  | .records name => some name
  | _ => none

def reports (declarations : List Declaration) : List Error := declarations.filterMap Declaration.report?
def names (declarations : List Declaration) : List String := declarations.filterMap Declaration.name?

/-- The errors about directives. -/
def complaints (output : Output) : List Error := output.errors.filter (·.kind = .invalidConstant)

/-- The constants have these names. -/
def Named (interner : Interner) : Constants → List String → Prop :=
  List.Forall₂ fun entry name => interner.resolve? entry.1 = some name

variable {resolver : Resolver} {nested : Option (Nat × Scanner)} {levels : Nat} {path : Symbol}
  {interner later : Interner} {constants added : Constants} {session after : Session} {directive : Directive}
  {spelling : String} {pos : Position} {said : NamedKind} {token : Token} {lexeme : Lexeme} {rest : List Lexeme}
  {cursor : Cursor} {progress : Progress} {output : Output} {outcome : Output × Progress} {line : Nat}
  {mention : Mention} {words : List Mention} {pending : List Declaration}

theorem Named.grows {spellings : List String} (named : Named interner constants spellings)
    (grows : Grows interner later) : Named later constants spellings :=
  named.imp fun _ _ known => grows _ _ known

theorem reports_append (first last : List Declaration) : reports (first ++ last) = reports first ++ reports last :=
  List.filterMap_append

theorem names_append (first last : List Declaration) : names (first ++ last) = names first ++ names last :=
  List.filterMap_append

theorem complaints_append (first last : Output) :
    complaints (first ++ last) = complaints first ++ complaints last := List.filter_append ..

theorem complaints_of_clean (clean : output.errors = []) : complaints output = [] := by
  rw [complaints, clean, List.filter_nil]

theorem bodyFate_ends (ends : mention.ends = true) : bodyFate spelling (mention :: words) = .records spelling := by
  rw [bodyFate, restOfLine_ends ends, if_neg (by simp)]

theorem bodyFate_inside (plain : mention.word ≠ .constant) (inside : mention.ends = false) :
    bodyFate spelling (mention :: words) = bodyFate spelling words := by
  have same : (∃ one ∈ mention :: restOfLine words, one.word = .constant) ↔
      ∃ one ∈ restOfLine words, one.word = .constant := by simp [plain]
  rw [bodyFate, restOfLine_inside inside, bodyFate, if_congr same rfl rfl]

theorem bodyFate_constant (begins : mention.word = .constant) :
    bodyFate spelling (mention :: words) = .abandoned := by
  have inside : mention.ends = false := by rw [Mention.ends, begins]; rfl
  rw [bodyFate, restOfLine_inside inside, if_pos ⟨mention, List.mem_cons_self, begins⟩]

/-! ### Steps -/

/-- The directives that a scan has met and not settled, when these words follow. -/
inductive Open (interner : Interner) (words : List Mention) : Directive → List Declaration → Prop where
  | idle : Open interner words .none []
  | name (pos : Position) : Open interner words (.name pos) [⟨pos, fate words⟩]
  | body (pos : Position) {name : Symbol} (tokens : List Token) {spelling : String}
      (known : interner.resolve? name = some spelling) (valid : spelling ≠ Symbol.invalidText) :
      Open interner words (.body name tokens) [⟨pos, bodyFate spelling words⟩]
  | dropped (tokens : List Token) : Open interner words (.body Symbol.invalid tokens) []

/-- A step reports and records the first of these directives. What is left of them is open or comes later. -/
inductive Settles (session : Session) (declared : List Declaration) (words : List Mention)
    (coming : List Declaration) : Output × Progress → Prop where
  | intro {output : Output} {next : Progress} {added : Constants} {spellings : List String}
      {left : List Declaration} (grows : Grows session.interner next.session.interner)
      (opens : Open next.session.interner words next.directive left)
      (reported : reports declared = complaints output ++ reports (left ++ coming))
      (adds : next.session.constants = added ++ session.constants)
      (named : Named next.session.interner added.reverse spellings)
      (recorded : names declared = spellings ++ names (left ++ coming)) :
      Settles session declared words coming (output, next)

/-- Nothing is recorded yet. -/
theorem settles_later {next : Progress} {declared left coming : List Declaration} (same : next.session = session)
    (opens : Open session.interner words next.directive left)
    (reported : reports declared = complaints output ++ reports (left ++ coming))
    (kept : names declared = names (left ++ coming)) :
    Settles session declared words coming (output, next) := by
  subst same
  exact .intro (.refl _) opens reported (List.nil_append _).symm .nil kept

theorem Settles.of_interned {declared coming : List Declaration} (grows : Grows session.interner interner)
    (settles : Settles { session with interner } declared words coming outcome) :
    Settles session declared words coming outcome := by
  obtain ⟨grows', opens, reported, adds, named, recorded⟩ := settles
  exact .intro (grows.trans grows') opens reported adds named recorded

/-- A step that starts no directive concerns only the open ones. -/
theorem Settles.before {declared : List Declaration} (settles : Settles session declared words [] outcome)
    (coming : List Declaration) : Settles session (declared ++ coming) words coming outcome := by
  obtain ⟨grows, opens, reported, adds, named, recorded⟩ := settles
  rw [List.append_nil] at reported recorded
  refine .intro grows opens ?_ adds named ?_
  · rw [reports_append, reported, List.append_assoc, reports_append]
  · rw [names_append, recorded, List.append_assoc, names_append]

theorem Open.grows (opens : Open interner words directive pending) (grows : Grows interner later) :
    Open later words directive pending := by
  cases opens with
  | idle => exact .idle
  | name pos => exact .name pos
  | body pos tokens known valid => exact .body pos tokens (grows _ _ known) valid
  | dropped tokens => exact .dropped tokens

theorem define_invalid (session : Session) (tokens : List Token) :
    session.define Symbol.invalid tokens = ({}, session) := if_pos rfl

theorem place_keeps (progress : Progress) (cursor : Cursor) (tokens : List Token) :
    (progress.place cursor tokens).1.errors = [] ∧ (progress.place cursor tokens).2.session = progress.session ∧
      (progress.place cursor tokens).2.directive = progress.directive := by
  cases tokens <;> exact ⟨rfl, rfl, rfl⟩

theorem Open.append (progress : Progress)
    (opens : Open progress.session.interner (⟨.token said, line⟩ :: words) progress.directive pending)
    (tells : Tells progress.session.interner token.kind said) (spelled : said ≠ .name none)
    (valid : ∀ spelling, said = .name (some spelling) → spelling ≠ Symbol.invalidText) :
    Settles progress.session pending words [] (progress.append cursor token) := by
  obtain ⟨session, directive, last⟩ := progress
  have plain : (Mention.mk (.token said) line).word ≠ .constant := nofun
  have inside (goesOn : token.kind ≠ .eol) : (Mention.mk (.token said) line).ends = false :=
    decide_eq_false fun same => goesOn (tells.eol_iff.mpr (Word.token.inj same))
  have ended (ends : token.kind = .eol) : (Mention.mk (.token said) line).ends = true :=
    decide_eq_true (congrArg Word.token (tells.eol_iff.mp ends))
  cases opens with
  | idle =>
    obtain ⟨clean, same, idle⟩ := place_keeps ⟨session, .none, last⟩ cursor (expand session.constants token)
    have still : Open session.interner words (Progress.append ⟨session, .none, last⟩ cursor token).2.directive [] :=
      Eq.mpr (congrArg (Open session.interner words · []) idle) .idle
    refine settles_later same still ?_ rfl
    exact (congrArg (· ++ _) (complaints_of_clean clean)).symm
  | name pos =>
    cases said with
    | name text =>
      cases text with
      | none => exact absurd rfl spelled
      | some spelling =>
        obtain ⟨name, named, known⟩ := tells.identifier
        rw [append_constantName named]
        exact settles_later rfl (.body pos [] known (valid _ rfl)) rfl rfl
    | other kind =>
      by_cases ends : token.kind = .eol
      · have appends : Progress.append ⟨session, .name pos, last⟩ cursor token =
            (.error .invalidConstant pos, ⟨session, .none, last⟩) := by
          simp only [Progress.append, ends]
        rw [appends]
        exact settles_later rfl .idle rfl rfl
      · have nameless : ∀ name, token.kind ≠ .identifier name := by
          intro name named
          have here := tells _ (.refl _)
          rw [named] at here
          cases here
        have appends : Progress.append ⟨session, .name pos, last⟩ cursor token =
            (.error .invalidConstant pos, ⟨session, .body Symbol.invalid [], last⟩) := by
          unfold Progress.append
          split
          next none => cases none
          next named => cases named; simp only
          next body => cases body
        rw [appends]
        exact settles_later rfl (.dropped []) rfl rfl
  | @body pos name tokens spelling known valid =>
    by_cases ends : token.kind = .eol
    · rw [append_bodyEnd ends, define_valid known valid, bodyFate_ends (ended ends)]
      have named : Named session.interner [(name, tokens)].reverse [spelling] := .cons known .nil
      exact .intro (.refl _) .idle rfl rfl named rfl
    · rw [append_body ends, bodyFate_inside plain (inside ends)]
      exact settles_later rfl (.body pos _ known valid) rfl rfl
  | dropped tokens =>
    by_cases ends : token.kind = .eol
    · rw [append_bodyEnd ends, define_invalid]
      exact settles_later rfl .idle rfl rfl
    · rw [append_body ends]
      exact settles_later rfl (.dropped _) rfl rfl

/-- Whatever is open when another directive starts leaves no trace. -/
theorem Open.interrupted (opens : Open interner (mention :: words) directive pending)
    (begins : mention.word = .constant) : reports pending = [] ∧ names pending = [] := by
  obtain ⟨word, line⟩ := mention
  cases begins
  cases opens with
  | idle | name | dropped => exact ⟨rfl, rfl⟩
  | body pos tokens known valid =>
    rw [bodyFate_constant rfl]
    exact ⟨rfl, rfl⟩

theorem word?_cases (apart : word? lexeme = none) :
    fixedKind? lexeme.rule lexeme.text = none ∧ lexeme.rule ≠ .identifier ∧
      (lexeme.rule = .reserved → reservedKind lexeme.text ≠ .ok none) := by
  unfold word? at apart
  split at apart
  next => cases apart
  next means =>
    split at apart
    next => cases apart
    next plain =>
      unfold meaning at means
      split at means
      next => cases means
      next noName =>
        exact ⟨Option.map_eq_none_iff.mp means, noName,
          fun reserved begins => plain ⟨reserved, reservedKind_eq_none.mp begins⟩⟩

/-- What is no word leaves the directives as they are. -/
theorem visit_apart {next : Progress} (apart : word? lexeme = none) (noInclusion : lexeme.rule ≠ .inclusion)
    (visited : visit resolver nested path lexeme progress = .ok (output, next)) :
    next = progress ∧ complaints output = [] := by
  obtain ⟨known, noName, noConstant⟩ := word?_cases apart
  cases wordless known noInclusion noName with
  | gap _ visits =>
    cases (visits resolver nested path lexeme.start progress).symm.trans visited
    exact ⟨rfl, rfl⟩
  | mistake kind _ own visits =>
    cases (visits resolver nested path lexeme.start progress).symm.trans visited
    exact ⟨rfl, List.filter_cons_of_neg (by simpa using own.2)⟩
  | constant reserved begins => exact absurd begins (noConstant reserved)
  | misspelled fault visits => cases (visits resolver nested path lexeme.start progress).symm.trans visited

theorem declarations_constant (begins : word? lexeme = some .constant) :
    declarations path (lexeme :: rest) =
      ⟨lexeme.pos path, fate (rest.filterMap mention?)⟩ :: declarations path rest := by
  rw [declarations, if_pos begins]

theorem declarations_plain (plain : word? lexeme ≠ some .constant) :
    declarations path (lexeme :: rest) = declarations path rest := by
  rw [declarations, if_neg plain]

theorem Open.visited (noInclusion : lexeme.rule ≠ .inclusion)
    (valid : lexeme.rule = .identifier → String.ofList lexeme.text ≠ Symbol.invalidText)
    (opens : Open progress.session.interner ((lexeme :: rest).filterMap mention?) progress.directive pending)
    (visited : visit resolver nested path lexeme progress = .ok outcome) :
    Settles progress.session (pending ++ declarations path (lexeme :: rest)) (rest.filterMap mention?)
      (declarations path rest) outcome := by
  cases known : word? lexeme with
  | none =>
    obtain ⟨rfl, silent⟩ := visit_apart known noInclusion visited
    have skipped : mention? lexeme = none := by rw [mention?, known]; rfl
    rw [List.filterMap_cons_none skipped] at opens
    rw [declarations_plain (by simp [known])]
    exact (settles_later rfl opens (by rw [silent, List.nil_append, List.append_nil]) (by simp)).before _
  | some word =>
    rw [List.filterMap_cons_some (mention?_word known)] at opens
    cases word with
    | constant =>
      cases (visit_constant known).symm.trans visited
      obtain ⟨unreported, unrecorded⟩ := opens.interrupted rfl
      rw [declarations_constant known]
      refine settles_later rfl (.name _) ?_ ?_
      · rw [reports_append, unreported]
        rfl
      · rw [names_append, unrecorded]
        rfl
    | token said =>
      have means := meaning_of_word? known
      obtain ⟨kind, interner, grows, tells, _, visits⟩ := visit_said means
      cases visits.symm.trans visited
      rw [declarations_plain (by simp [known])]
      have named : ∀ spelling, said = .name (some spelling) → spelling ≠ Symbol.invalidText := by
        rintro spelling rfl
        obtain ⟨identifier, same⟩ := meaning_name means
        cases same
        exact valid identifier
      have spelled : said ≠ .name none := by
        rintro rfl
        cases (meaning_name means).2
      exact .of_interned grows (.before (Open.append { progress with session := { progress.session with interner } }
        (opens.grows grows) tells spelled named) _)

/-! ### Runs -/

theorem Open.finished (opens : Open progress.session.interner [] progress.directive pending) :
    ∃ added, progress.finish.2.constants = added ++ progress.session.constants ∧
      progress.finish.2.interner = progress.session.interner ∧ complaints progress.finish.1 = reports pending ∧
      Named progress.session.interner added.reverse (names pending) := by
  obtain ⟨session, directive, last⟩ := progress
  cases opens with
  | idle | name => exact ⟨[], rfl, rfl, rfl, .nil⟩
  | @body pos name tokens spelling known valid =>
    have finishes : Progress.finish ⟨session, .body name tokens, last⟩ = _ := define_valid known valid tokens
    rw [finishes]
    exact ⟨[(name, tokens)], rfl, rfl, rfl, .cons known .nil⟩
  | dropped tokens => exact ⟨[], rfl, rfl, rfl, .nil⟩

/-- A run reports and records all directives, those open before and those it meets. -/
theorem Open.settled (right : ∀ lexeme ∈ rest, lexeme.rule ≠ .inclusion ∧
      (lexeme.rule = .identifier → String.ofList lexeme.text ≠ Symbol.invalidText))
    (opens : Open progress.session.interner (rest.filterMap mention?) progress.directive pending)
    (completed : visitAll resolver nested path rest progress = .ok (output, after)) :
    Grows progress.session.interner after.interner ∧
      complaints output = reports (pending ++ declarations path rest) ∧
      ∃ added, after.constants = added ++ progress.session.constants ∧
        Named after.interner added.reverse (names (pending ++ declarations path rest)) := by
  induction rest generalizing progress pending output with
  | nil =>
    obtain ⟨added, adds, same, reported, named⟩ := opens.finished
    have ended : progress.finish = (output, after) := Except.ok.inj completed
    rw [ended] at adds same reported
    rw [declarations, List.append_nil, same]
    exact ⟨.refl _, reported, added, adds, named⟩
  | cons lexeme rest ih =>
    rw [List.forall_mem_cons] at right
    obtain ⟨⟨first, next⟩, visited, continued⟩ := Except.bind_ok.mp completed
    obtain ⟨⟨last, _⟩, finished, done⟩ := Except.bind_ok.mp continued
    cases done
    obtain @⟨_, _, new, _, _, grows, opens, reported, adds, named, recorded⟩ :=
      opens.visited right.1.1 right.1.2 visited
    obtain ⟨grows', reported', added, adds', named'⟩ := ih right.2 opens finished
    refine ⟨grows.trans grows', ?_, added ++ new, ?_, ?_⟩
    · rw [complaints_append, reported', reported]
    · rw [adds', adds, List.append_assoc]
    · rw [recorded, List.reverse_append]
      exact List.rel_append (named.grows grows') named'

/-! ### Places -/

/-- The first place is on an earlier line or further left on the same. -/
def Before (first second : Position) : Prop :=
  first.line < second.line ∨ first.line = second.line ∧ first.column < second.column

theorem before_cursorAt (path : Symbol) (before : List Char) {word : List Char} (solid : word ≠ [])
    (following following' : List Char) :
    Before ((cursorAt before following).pos path) ((cursorAt (before ++ word) following').pos path) := by
  show before.count '\n' + 1 < (before ++ word).count '\n' + 1 ∨ before.count '\n' + 1 =
    (before ++ word).count '\n' + 1 ∧ (lastLine before).length < (lastLine (before ++ word)).length
  rw [List.count_append]
  by_cases ends : '\n' ∈ word
  · have some := List.count_pos_iff.mpr ends
    omega
  · have inside : ∀ c ∈ word.reverse, inLine c = true := by
      intro c member
      have other : c ≠ '\n' := by
        rintro rfl
        exact ends (List.mem_reverse.mp member)
      simpa [inLine] using other
    have longer : lastLine (before ++ word) = lastLine before ++ word := by
      rw [lastLine, List.rtakeWhile, List.reverse_append, List.takeWhile_append_of_pos inside,
        List.reverse_append, List.reverse_reverse]
      rfl
    rw [List.count_eq_zero_of_not_mem ends, longer, List.length_append]
    have wide := List.length_pos_of_ne_nil solid
    omega

theorem Before.trans {first second third : Position} (left : Before first second)
    (right : Before second third) : Before first third := by
  unfold Before at *
  omega

theorem lexemesAfter_from (path : Symbol) (before text : List Char) : ∀ lexeme ∈ lexemesAfter before text,
    lexeme.pos path = (cursorAt before text).pos path ∨
      Before ((cursorAt before text).pos path) (lexeme.pos path) := by
  induction text using cut_induction generalizing before with
  | nil =>
    rw [lexemesAfter_nil]
    exact nofun
  | cut rule word following takes ih =>
    rw [lexemesAfter_takes before takes]
    refine List.forall_mem_cons.mpr ⟨.inl rfl, fun later member => .inr ?_⟩
    have step := before_cursorAt path before takes.solid (word ++ following) following
    obtain same | behind := ih (before ++ word) later member
    · exact same ▸ step
    · exact step.trans behind

theorem lexemesAfter_apart (path : Symbol) (before text : List Char) :
    (lexemesAfter before text).Pairwise fun first second => Before (first.pos path) (second.pos path) := by
  induction text using cut_induction generalizing before with
  | nil =>
    rw [lexemesAfter_nil]
    exact .nil
  | cut rule word following takes ih =>
    rw [lexemesAfter_takes before takes]
    refine .cons (fun later member => ?_) (ih (before ++ word))
    have step := before_cursorAt path before takes.solid (word ++ following) following
    obtain same | behind := lexemesAfter_from path (before ++ word) following later member
    · exact same ▸ step
    · exact step.trans behind

theorem declarations_places (path : Symbol) (lexemes : List Lexeme) :
    ((declarations path lexemes).map Declaration.pos).Sublist (lexemes.map (·.pos path)) := by
  induction lexemes with
  | nil => exact .slnil
  | cons lexeme rest ih =>
    by_cases begins : word? lexeme = some .constant
    · rw [declarations_constant begins]
      exact ih.cons_cons _
    · rw [declarations_plain begins]
      exact ih.cons _

/-- The directives of a text stand at different places. Errors about directives are those of the directives
that are reported, one for each at its place, and the constants added are those of the directives that are
recorded. -/
theorem directives_settled {text : List Char} (noInclusion : ∀ lexeme ∈ lexemes text, lexeme.rule ≠ .inclusion)
    (completed : scan resolver levels path text session = .ok (output, after)) :
    (declarations path (lexemes text)).Pairwise (fun first second => Before first.pos second.pos) ∧
      output.errors.filter (·.kind = .invalidConstant) = reports (declarations path (lexemes text)) ∧
      ∃ added, after.constants = added ++ session.constants ∧
        Named after.interner added.reverse (names (declarations path (lexemes text))) := by
  obtain ⟨nested, visits⟩ := scan_eq resolver levels path text session
  have apart := lexemesAfter_apart path [] text
  rw [← lexemes_eq] at visits apart
  have right : ∀ lexeme ∈ lexemes text, lexeme.rule ≠ .inclusion ∧
      (lexeme.rule = .identifier → String.ofList lexeme.text ≠ Symbol.invalidText) :=
    fun lexeme member => ⟨noInclusion lexeme member, name_valid member⟩
  have completed := visits.symm.trans completed
  have opens : Open session.interner ((lexemes text).filterMap mention?) Directive.none [] := .idle
  obtain ⟨_, reported, recorded⟩ := Open.settled right (by exact opens) completed
  refine ⟨?_, reported, recorded⟩
  exact List.pairwise_map.mp ((List.pairwise_map.mpr apart).sublist (declarations_places path _))

/-- One directive before another, one with another on its line, two that are settled, and one at the end. -/
theorem directives_settled_of_interrupted :
    let text := "CONST CONST a 1 CONST b 2\nCONST 3\nCONST".toList
    (∀ lexeme ∈ lexemes text, lexeme.rule ≠ .inclusion) ∧
      ∃ output after, scan Resolver.none 0 ⟨0⟩ text { interner := Interner.empty, constants := [] } =
          .ok (output, after) ∧
        (declarations ⟨0⟩ (lexemes text)).map Declaration.fate =
          [.abandoned, .abandoned, .records "b", .reported, .abandoned] ∧
        output.errors.filter (·.kind = .invalidConstant) = [⟨.invalidConstant, ⟨2, 0, ⟨0⟩⟩⟩] ∧
        Named after.interner after.constants.reverse ["b"] := by
  intro text
  have noInclusion : ∀ lexeme ∈ lexemes text, lexeme.rule ≠ .inclusion := by decide +kernel
  have completes : (scan Resolver.none 0 ⟨0⟩ text { interner := Interner.empty, constants := [] }).toOption.isSome =
      true := by
    decide +kernel
  have found : declarations ⟨0⟩ (lexemes text) = [⟨⟨1, 0, ⟨0⟩⟩, .abandoned⟩, ⟨⟨1, 6, ⟨0⟩⟩, .abandoned⟩,
      ⟨⟨1, 16, ⟨0⟩⟩, .records "b"⟩, ⟨⟨2, 0, ⟨0⟩⟩, .reported⟩, ⟨⟨3, 0, ⟨0⟩⟩, .abandoned⟩] := by
    decide +kernel
  refine ⟨noInclusion, ?_⟩
  cases completed : scan Resolver.none 0 ⟨0⟩ text { interner := Interner.empty, constants := [] } with
  | error fault =>
    rw [completed] at completes
    cases completes
  | ok result =>
    obtain ⟨_, reported, added, adds, named⟩ := directives_settled noInclusion completed
    rw [found] at reported named
    rw [List.append_nil] at adds
    exact ⟨result.1, result.2, rfl, by rw [found]; rfl, reported, adds ▸ named⟩

theorem lexemes_lone_constant : lexemes "CONST".toList = [⟨.reserved, "CONST".toList, ⟨0, 1, 0, 0⟩⟩] := by
  decide +kernel

/-- A directive that ends the text is neither recorded nor reported. -/
theorem tokenize_lone_constant :
    (lexemes "CONST".toList).map word? = [some .constant] ∧
      (Tokenizer.mk Interner.empty []).tokenize Resolver.none ⟨0⟩ "CONST" =
        .ok (⟨[], [], []⟩, ⟨Interner.empty, []⟩) := by
  unfold Tokenizer.tokenize maxIncludeDepth scan
  rw [lexemes_lone_constant]
  exact ⟨by decide, rfl⟩

end Arcade.Proofs.Scanning
