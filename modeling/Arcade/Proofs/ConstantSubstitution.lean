import Arcade.Proofs.ConstantLines

/-! Scans substitute constants. While lexemes are visited one by one, the constants, the directive being read
and the line annotated last tell at each place what is still to come of the lines. -/

namespace Arcade.Proofs.Scanning
open Arcade.Indent Arcade.Scan

variable {resolver : Resolver} {nested : Option (Nat × Scanner)} {path : Symbol} {indent : Nat → Nat}
  {interner later : Interner} {constants : Constants} {table : Table} {name : Symbol} {spelling : String}
  {token : Token} {tokens : List Token} {kind : TokenKind} {said : NamedKind} {kinds : List NamedKind}
  {lexeme : Lexeme} {rest : List Lexeme} {cursor : Cursor} {progress : Progress} {shown : List Nat}
  {words : List Mention} {result : List (NamedKind × Nat) × Table}

/-! ### Tokens and constants -/

def Shows (interner : Interner) : List Token → List (NamedKind × Option Nat) → Prop :=
  List.Forall₂ fun token shown => Tells interner token.kind shown.1 ∧ token.indent = shown.2

def Knows (interner : Interner) : Constants → Table → Prop :=
  List.Forall₂ fun entry known =>
    interner.resolve? entry.1 = some known.1 ∧ Shows interner entry.2 (known.2.map (·, none))

theorem Tells.grows (tells : Tells interner kind said) (grows : Grows interner later) : Tells later kind said :=
  fun last more => tells last (grows.trans more)

theorem Shows.grows {shown : List (NamedKind × Option Nat)} (shows : Shows interner tokens shown)
    (grows : Grows interner later) : Shows later tokens shown :=
  shows.imp fun _ _ ⟨tells, indents⟩ => ⟨tells.grows grows, indents⟩

theorem Knows.grows (knows : Knows interner constants table) (grows : Grows interner later) :
    Knows later constants table :=
  knows.imp fun _ _ ⟨known, shows⟩ => ⟨grows _ _ known, shows.grows grows⟩

theorem Knows.lookup (knows : Knows interner constants table) (known : interner.resolve? name = some spelling) :
    constants.lookup name = none ∧ table.lookup spelling = none ∨
      ∃ tokens kinds, constants.lookup name = some tokens ∧ table.lookup spelling = some kinds ∧
        Shows interner tokens (kinds.map (·, none)) := by
  induction knows with
  | nil => exact .inl ⟨rfl, rfl⟩
  | @cons entry first constants table here _ ih =>
    obtain ⟨resolved, shows⟩ := here
    by_cases same : name = entry.1
    · have spelled : spelling = first.1 := by rw [← same, known] at resolved; exact Option.some.inj resolved
      refine .inr ⟨entry.2, first.2, ?_, ?_, shows⟩
      · rw [List.lookup_cons, beq_iff_eq.mpr same]
      · rw [List.lookup_cons, beq_iff_eq.mpr spelled]
    · have apart : spelling ≠ first.1 := fun spelled => same (resolve?_inj known (spelled ▸ resolved))
      rw [List.lookup_cons, List.lookup_cons, beq_false_of_ne same, beq_false_of_ne apart]
      exact ih

theorem meaning_name {rule : Rule} {word : List Char} {text : Option String}
    (means : meaning rule word = some (.name text)) :
    rule = .identifier ∧ text = some (String.ofList word) := by
  unfold meaning at means
  split at means
  next identifier => exact ⟨identifier, (NamedKind.name.inj (Option.some.inj means)).symm⟩
  next => simp at means

/-- Tokens are expanded as the table says. -/
theorem Knows.expand (knows : Knows interner constants table) (tells : Tells interner token.kind said)
    (spelled : said ≠ .name none) (bare : token.indent = none) :
    Shows interner (expand constants token) ((replaced table said).map (·, none)) := by
  have alone : Shows interner [token] [(said, none)] := .cons ⟨tells, bare⟩ .nil
  obtain rfl := tells interner (.refl _)
  unfold Scan.expand
  split
  next name named =>
    rw [named] at spelled alone ⊢
    cases known : interner.resolve? name with
    | none => exact absurd (congrArg NamedKind.name known) spelled
    | some spelling =>
      rw [namedKind, known] at alone ⊢
      rw [replaced]
      obtain ⟨unbound, missing⟩ | ⟨tokens, kinds, bound, found, shows⟩ := knows.lookup known
      · rw [unbound, missing]
        exact alone
      · rw [bound, found]
        exact shows
  next nameless =>
    rw [namedKind_fixed nameless] at alone ⊢
    exact alone

/-! ### The line annotated last -/

/-- On lines from here on, the line annotated last tells whether the indentation was shown. -/
structure Current (last : Option Nat) (shown : List Nat) (line : Nat) : Prop where
  past : ∀ earlier ∈ last, earlier ≤ line
  seen : line ∈ shown ↔ last = some line

theorem Current.onward {last : Option Nat} {line other : Nat} (here : Current last shown line)
    (behind : line ≤ other) (there : Current last shown other) : Current (some line) (line :: shown) other := by
  refine ⟨fun earlier same => Option.some.inj same ▸ behind, ?_⟩
  rw [List.mem_cons, there.seen, Option.some.injEq]
  constructor
  · rintro (same | same)
    · exact same.symm
    · exact Nat.le_antisymm behind (here.past other same)
  · exact fun same => .inl same.symm

/-- Of the tokens put on a line, the first shows the indentation if none did before. -/
theorem place_shows (shows : Shows interner tokens (kinds.map (·, none)))
    (current : Current progress.annotated shown cursor.line) (same : cursor.indent = indent cursor.line) :
    ∃ output last shown' first, progress.place cursor tokens = (output, { progress with annotated := last }) ∧
      output.errors = [] ∧ Shows interner output.tokens first ∧
      (∀ following, annotated indent shown (kinds.map (·, cursor.line) ++ following) =
        first ++ annotated indent shown' following) ∧
      ∀ line, cursor.line ≤ line → Current progress.annotated shown line → Current last shown' line := by
  cases kinds with
  | nil =>
    obtain rfl := List.forall₂_nil_right_iff.mp shows
    exact ⟨_, _, shown, [], rfl, rfl, .nil, fun _ => rfl, fun _ _ there => there⟩
  | cons said kinds =>
    obtain ⟨token, more, ⟨tells, _⟩, bare, rfl⟩ := List.forall₂_cons_right_iff.mp shows
    refine ⟨_, _, cursor.line :: shown,
      (said, if cursor.line ∈ shown then none else some (indent cursor.line)) :: kinds.map (·, none),
      rfl, rfl, .cons ⟨tells, ?_⟩ ?_, fun following => annotated_first .., fun line => current.onward⟩
    · rw [← same]
      exact if_congr current.seen.symm rfl rfl
    · have bare := List.forall₂_map_right_iff.mp bare
      refine List.forall₂_map_left_iff.mpr (List.forall₂_map_right_iff.mpr ?_)
      exact bare.imp fun _ _ ⟨tells, _⟩ => ⟨tells, rfl⟩

/-! ### Directives -/

/-- What is still to come when these words follow. -/
inductive Expects (interner : Interner) (table : Table) :
    Directive → List Mention → List (NamedKind × Nat) × Table → Prop where
  | line {words : List Mention} (orderly : ∀ line ∈ linesOf words, Orderly line) :
      Expects interner table .none words (substituted table (linesOf words))
  | name {words : List Mention} (pos : Position) (spelling : String) (line : Nat)
      (recording : Recording words) :
      Expects interner table (.name pos) (⟨.token (.name (some spelling)), line⟩ :: words)
        (recorded table spelling [] words)
  | body {name : Symbol} {tokens : List Token} {words : List Mention} {spelling : String}
      {kinds : List NamedKind} (known : interner.resolve? name = some spelling)
      (valid : spelling ≠ Symbol.invalidText) (shows : Shows interner tokens (kinds.map (·, none)))
      (recording : Recording words) :
      Expects interner table (.body name tokens) words (recorded table spelling kinds words)

/-- What the scan goes on with. -/
structure Ready (progress : Progress) (table : Table) (shown : List Nat) (rest : List Lexeme)
    (result : List (NamedKind × Nat) × Table) : Prop where
  knows : Knows progress.session.interner progress.session.constants table
  current : ∀ lexeme ∈ rest, Current progress.annotated shown lexeme.start.line
  expects : Expects progress.session.interner table progress.directive (rest.filterMap mention?) result

structure Sound (indent : Nat → Nat) (lexeme : Lexeme) : Prop where
  flawless : Flawless lexeme
  indented : lexeme.start.indent = indent lexeme.start.line
  named : lexeme.rule = .identifier → String.ofList lexeme.text ≠ Symbol.invalidText

theorem Expects.grows {directive : Directive} (expects : Expects interner table directive words result)
    (grows : Grows interner later) : Expects later table directive words result := by
  cases expects with
  | line orderly => exact .line orderly
  | name pos spelling line recording => exact .name pos spelling line recording
  | body known valid shows recording => exact .body (grows _ _ known) valid (shows.grows grows) recording

theorem Ready.interned (ready : Ready progress table shown rest result)
    (grows : Grows progress.session.interner interner) :
    Ready { progress with session := { progress.session with interner } } table shown rest result :=
  ⟨ready.knows.grows grows, ready.current, ready.expects.grows grows⟩

/-- One step yields the first part of what is still to come, and the scan goes on with the rest. -/
inductive Leads (indent : Nat → Nat) (progress : Progress) (shown : List Nat) (rest : List Lexeme)
    (result : List (NamedKind × Nat) × Table) : Output × Progress → Prop where
  | intro {output : Output} {next : Progress} {table : Table} {shown' : List Nat}
      {first : List (NamedKind × Option Nat)} {coming : List (NamedKind × Nat)} (clean : output.errors = [])
      (grows : Grows progress.session.interner next.session.interner)
      (shows : Shows next.session.interner output.tokens first)
      (parts : annotated indent shown result.1 = first ++ annotated indent shown' coming)
      (ready : Ready next table shown' rest (coming, result.2)) :
      Leads indent progress shown rest result (output, next)

theorem Leads.of_interned {outcome : Output × Progress} (grows : Grows progress.session.interner interner)
    (leads : Leads indent { progress with session := { progress.session with interner } } shown rest result
      outcome) :
    Leads indent progress shown rest result outcome := by
  obtain ⟨clean, grows', shows, parts, ready⟩ := leads
  exact .intro clean (grows.trans grows') shows parts ready

/-- Nothing is yielded yet. -/
theorem leads_silent {output : Output} {next : Progress} (silent : output.tokens = [])
    (clean : output.errors = []) (same : next.session.interner = progress.session.interner)
    (ready : Ready next table shown rest result) :
    Leads indent progress shown rest result (output, next) :=
  .intro clean (same ▸ .refl _) (silent ▸ .nil) (List.nil_append _).symm ready

/-! ### Tokens -/

theorem Tells.identifier (tells : Tells interner kind (.name (some spelling))) :
    ∃ name, kind = .identifier name ∧ interner.resolve? name = some spelling := by
  have here := tells interner (.refl _)
  unfold namedKind at here
  split at here
  next name => exact ⟨name, rfl, NamedKind.name.inj here⟩
  next => cases here

theorem Tells.eol_iff (tells : Tells interner kind said) : kind = .eol ↔ said = .other .eol := by
  obtain rfl := tells interner (.refl _)
  cases kind <;> simp [namedKind]

theorem define_valid {session : Session} (known : session.interner.resolve? name = some spelling)
    (valid : spelling ≠ Symbol.invalidText) (tokens : List Token) :
    session.define name tokens = ({ events := [.defined tokens.length] },
      { session with constants := (name, tokens) :: session.constants }) := by
  refine if_neg fun invalid => valid ?_
  rw [invalid] at known
  exact (Option.some.inj known).symm

section
variable {session : Session} {last : Option Nat}

theorem append_constantName {pos : Position} (named : token.kind = .identifier name) :
    Progress.append ⟨session, .name pos, last⟩ cursor token = ({}, ⟨session, .body name [], last⟩) := by
  simp only [Progress.append, named]

theorem append_bodyEnd (ends : token.kind = .eol) :
    Progress.append ⟨session, .body name tokens, last⟩ cursor token =
      ((session.define name tokens).1, ⟨(session.define name tokens).2, .none, last⟩) := by
  simp only [Progress.append, if_pos ends]

theorem append_body (inside : token.kind ≠ .eol) :
    Progress.append ⟨session, .body name tokens, last⟩ cursor token =
      ({}, ⟨session, .body name (tokens ++ expand session.constants token), last⟩) := by
  simp only [Progress.append, if_neg inside]

end

theorem Ready.append {progress : Progress} (ready : Ready progress table shown (lexeme :: rest) result)
    (word : mention? lexeme = some ⟨.token said, lexeme.start.line⟩)
    (same : lexeme.start.indent = indent lexeme.start.line)
    (ordered : ∀ later ∈ rest, lexeme.start.line ≤ later.start.line)
    (tells : Tells progress.session.interner token.kind said) (bare : token.indent = none)
    (spelled : said ≠ .name none)
    (valid : ∀ spelling, said = .name (some spelling) → spelling ≠ Symbol.invalidText) :
    Leads indent progress shown rest result (progress.append lexeme.start token) := by
  obtain ⟨knows, current, expects⟩ := ready
  rw [List.filterMap_cons_some word] at expects
  obtain ⟨here, onward⟩ := List.forall_mem_cons.mp current
  have expanded := knows.expand tells spelled bare
  obtain ⟨session, directive, last⟩ := progress
  cases expects with
  | line orderly =>
    obtain ⟨orderly, comes⟩ := substituted_token table rfl orderly
    obtain ⟨output, last, shown', first, places, clean, shows, parts, passed⟩ := place_shows expanded here same
    rw [comes]
    show Leads _ _ _ _ _ (Progress.place _ _ _)
    rw [places]
    exact .intro clean (.refl _) shows (parts _)
      ⟨knows, fun later among => passed _ (ordered later among) (onward later among), .line orderly⟩
  | name pos spelling line recording =>
    obtain ⟨name, named, known⟩ := tells.identifier
    rw [append_constantName named]
    exact leads_silent rfl rfl rfl ⟨knows, onward, .body known (valid _ rfl) .nil recording⟩
  | @body name tokens _ spelling kinds known defines shows recording =>
    by_cases ends : token.kind = .eol
    · -- The line end defines the constant, and is not yielded itself.
      obtain rfl := tells.eol_iff.mp ends
      obtain ⟨orderly, comes⟩ := recorded_ends table rfl recording
      rw [append_bodyEnd ends, define_valid known defines, comes]
      exact leads_silent rfl rfl rfl ⟨.cons ⟨known, shows⟩ knows, onward, .line orderly⟩
    · -- What the token comes to is recorded by the constants of now, whatever is defined later.
      have inside : (Mention.mk (.token said) lexeme.start.line).ends = false :=
        decide_eq_false fun same => ends (tells.eol_iff.mpr (Word.token.inj same))
      obtain ⟨recording, comes⟩ := recorded_token table rfl inside recording
      rw [append_body ends, comes]
      refine leads_silent rfl rfl rfl ⟨knows, onward, .body known defines ?_ recording⟩
      rw [List.map_append]
      exact List.rel_append shows expanded

/-! ### Lexemes -/

theorem mention?_gap (between : isGap lexeme.rule = true) : mention? lexeme = none := by
  obtain ⟨rule, text, start⟩ := lexeme
  cases rule <;> first | rfl | cases between

theorem mention?_word {word : Word} (known : word? lexeme = some word) :
    mention? lexeme = some ⟨word, lexeme.start.line⟩ := by
  rw [mention?, known]
  rfl

theorem meaning_of_word? (known : word? lexeme = some (.token said)) :
    meaning lexeme.rule lexeme.text = some said := by
  unfold word? at known
  split at known
  next said' means =>
    cases known
    exact means
  next => split at known <;> cases known

theorem reservedKind_eq_none {text : List Char} :
    reservedKind text = .ok none ↔ text.map Char.toLower = "const".toList := by
  constructor
  · intro begins
    unfold reservedKind at begins
    dsimp only at begins
    split at begins
    next => cases begins
    next =>
    split at begins
    next => cases begins
    next =>
    split at begins
    next => cases begins
    next =>
    split at begins
    next => cases begins
    next =>
    split at begins
    next letters => exact letters
    next => cases begins
  · intro letters
    have noKeyword : Keyword.all.find? (·.spelling.toList == "const".toList) = none := by decide +kernel
    simp only [reservedKind, letters, noKeyword]
    rfl

theorem visit_constant (begins : word? lexeme = some .constant) :
    visit resolver nested path lexeme progress =
      .ok ({}, { progress with directive := .name (lexeme.pos path) }) := by
  obtain ⟨rule, text, start⟩ := lexeme
  unfold word? at begins
  split at begins
  next => cases begins
  next =>
    split at begins
    next spelled =>
      obtain ⟨rfl, letters⟩ := spelled
      simp only [visit, reservedKind_eq_none.mpr letters]
      rfl
    next => cases begins

theorem Ready.gap (between : isGap lexeme.rule = true)
    (ready : Ready progress table shown (lexeme :: rest) result) :
    Leads indent progress shown rest result ({}, progress) := by
  obtain ⟨knows, current, expects⟩ := ready
  rw [List.filterMap_cons_none (mention?_gap between)] at expects
  exact leads_silent rfl rfl rfl ⟨knows, (List.forall_mem_cons.mp current).2, expects⟩

theorem Ready.constant (begins : word? lexeme = some .constant)
    (ready : Ready progress table shown (lexeme :: rest) result) :
    Leads indent progress shown rest result ({}, { progress with directive := .name (lexeme.pos path) }) := by
  obtain ⟨knows, current, expects⟩ := ready
  rw [List.filterMap_cons_some (mention?_word begins)] at expects
  refine leads_silent rfl rfl rfl ⟨knows, (List.forall_mem_cons.mp current).2, ?_⟩
  generalize progress.directive = directive at expects
  cases expects with
  | line orderly =>
    obtain ⟨name, line, words, following, recording, comes⟩ := substituted_constant table rfl orderly
    rw [comes, following]
    exact .name _ name line recording
  | body known valid shows recording =>
    rw [Recording, restOfLine_inside rfl, List.forall_mem_cons] at recording
    exact absurd rfl recording.1.1

theorem Ready.leads (sound : Sound indent lexeme)
    (ordered : ∀ later ∈ rest, lexeme.start.line ≤ later.start.line)
    (ready : Ready progress table shown (lexeme :: rest) result) :
    ∃ outcome, visit resolver nested path lexeme progress = .ok outcome ∧
      Leads indent progress shown rest result outcome := by
  obtain between | isWord := sound.flawless
  · exact ⟨_, visit_gap between, ready.gap between⟩
  · obtain ⟨word, known⟩ := Option.isSome_iff_exists.mp isWord
    cases word with
    | constant => exact ⟨_, visit_constant known, ready.constant known⟩
    | token said =>
      have means := meaning_of_word? known
      obtain ⟨kind, interner, grows, tells, _, visits⟩ := visit_said means
      refine ⟨_, visits, .of_interned grows ?_⟩
      refine (ready.interned grows).append (mention?_word known) sound.indented ordered tells rfl ?_ ?_
      · rintro rfl
        cases (meaning_name means).2
      · rintro spelling rfl
        obtain ⟨identifier, same⟩ := meaning_name means
        cases same
        exact sound.named identifier

/-! ### Scans -/

theorem Ready.completes (sound : ∀ lexeme ∈ rest, Sound indent lexeme)
    (ordered : rest.Pairwise (·.start.line ≤ ·.start.line)) (ready : Ready progress table shown rest result) :
    ∃ output after, visitAll resolver nested path rest progress = .ok (output, after) ∧ output.errors = [] ∧
      Grows progress.session.interner after.interner ∧
      Shows after.interner output.tokens (annotated indent shown result.1) ∧
      Knows after.interner after.constants result.2 := by
  induction rest generalizing progress table shown result with
  | nil =>
    obtain ⟨knows, _, expects⟩ := ready
    obtain ⟨session, directive, last⟩ := progress
    cases expects with
    | line => exact ⟨_, _, rfl, rfl, .refl _, .nil, knows⟩
    | @body name tokens _ spelling kinds known valid shows =>
      have finishes : Progress.finish ⟨session, .body name tokens, last⟩ = _ := define_valid known valid tokens
      have all : kinds ++ (uses table (restOfLine [])).map Prod.fst = kinds := List.append_nil kinds
      refine ⟨_, _, congrArg Except.ok finishes, rfl, .refl _, .nil, .cons ⟨known, ?_⟩ knows⟩
      exact all.symm ▸ shows
  | cons lexeme rest ih =>
    rw [List.forall_mem_cons] at sound
    obtain ⟨behind, ordered⟩ := List.pairwise_cons.mp ordered
    obtain ⟨_, visits, leads⟩ := ready.leads sound.1 behind
    obtain ⟨clean, grows, shows, parts, ready⟩ := leads
    obtain ⟨following, after, completes, clean', grows', shows', knows⟩ := ih sound.2 ordered ready
    refine ⟨_, after, Except.bind_ok.mpr ⟨_, visits, Except.bind_ok.mpr ⟨_, completes, rfl⟩⟩,
      List.append_eq_nil_iff.mpr ⟨clean, clean'⟩, grows.trans grows', ?_, knows⟩
    rw [parts]
    exact List.rel_append (shows.grows grows') shows'

def shownKind (interner : Interner) (token : Token) : NamedKind × Option Nat :=
  (namedKind interner token.kind, token.indent)

def shownConstant (interner : Interner) (entry : Symbol × List Token) :
    Option String × List (NamedKind × Option Nat) :=
  (interner.resolve? entry.1, entry.2.map (shownKind interner))

theorem Shows.shownKinds {shown : List (NamedKind × Option Nat)} (shows : Shows interner tokens shown) :
    tokens.map (shownKind interner) = shown := by
  induction shows with
  | nil => rfl
  | cons here _ ih => rw [List.map_cons, ih, shownKind, here.1 interner (.refl _), here.2]

theorem Knows.shownKinds (knows : Knows interner constants table) :
    constants.map (shownConstant interner) =
      table.map fun known => (some known.1, known.2.map (·, none)) := by
  induction knows with
  | nil => rfl
  | cons here _ ih => rw [List.map_cons, List.map_cons, ih, shownConstant, here.1, here.2.shownKinds]

/-! ### Texts without mistakes -/

theorem flawless_of_visit {output : Output} {next : Progress} (solid : lexeme.text ≠ [])
    (noInclusion : lexeme.rule ≠ .inclusion)
    (visited : visit resolver nested path lexeme progress = .ok (output, next)) (clean : output.errors = []) :
    Flawless lexeme := by
  unfold Flawless word?
  split
  next => exact .inr rfl
  next means =>
    unfold meaning at means
    split at means
    next => cases means
    next noName =>
      cases wordless (Option.map_eq_none_iff.mp means) noInclusion noName with
      | gap between => exact .inl (between.resolve_right solid)
      | mistake kind _ _ visits =>
        cases (visits resolver nested path lexeme.start progress).symm.trans visited
        cases clean
      | constant reserved begins =>
        rw [if_pos ⟨reserved, reservedKind_eq_none.mp begins⟩]
        exact .inr rfl
      | misspelled fault visits => cases (visits resolver nested path lexeme.start progress).symm.trans visited

theorem visitAll_flawless {output : Output} {after : Session}
    (right : ∀ lexeme ∈ rest, lexeme.text ≠ [] ∧ lexeme.rule ≠ .inclusion)
    (completed : visitAll resolver nested path rest progress = .ok (output, after))
    (clean : output.errors = []) : ∀ lexeme ∈ rest, Flawless lexeme := by
  induction rest generalizing progress output with
  | nil => exact nofun
  | cons lexeme rest ih =>
    obtain ⟨⟨first, next⟩, visited, continued⟩ := Except.bind_ok.mp completed
    obtain ⟨⟨last, _⟩, finished, done⟩ := Except.bind_ok.mp continued
    cases done
    obtain ⟨clean, clean'⟩ := List.append_eq_nil_iff.mp clean
    rw [List.forall_mem_cons] at right ⊢
    exact ⟨flawless_of_visit right.1.1 right.1.2 visited clean, ih right.2 finished clean'⟩

/-- A scan that includes nothing and reports nothing has read a flawless text. -/
theorem flawless_of_clean {levels : Nat} {text : List Char} {session after : Session} {output : Output}
    (noInclusion : ∀ lexeme ∈ lexemes text, lexeme.rule ≠ .inclusion)
    (completed : scan resolver levels path text session = .ok (output, after)) (clean : output.errors = []) :
    ∀ lexeme ∈ lexemes text, Flawless lexeme := by
  obtain ⟨nested, visits⟩ := scan_eq resolver levels path text session
  rw [visits, ← lexemes_eq] at completed
  refine visitAll_flawless (fun lexeme member => ?_) completed clean
  exact ⟨(taken_of_mem member).handled.nonempty, noInclusion lexeme member⟩

theorem name_valid {text : List Char} (member : lexeme ∈ lexemes text) (isName : lexeme.rule = .identifier) :
    String.ofList lexeme.text ≠ Symbol.invalidText := by
  obtain ⟨text, matched, same⟩ := taken_of_mem member
  rw [isName] at matched same
  cases text with
  | nil => exact absurd rfl matched
  | cons c rest =>
    have letter : isLetter c = true := starts_of_applies matched
    obtain ⟨count, length⟩ := Nat.exists_eq_succ_of_ne_zero matched
    rw [same, length, List.take_succ_cons]
    intro invalid
    have invalid := congrArg String.toList invalid
    rw [String.toList_ofList] at invalid
    obtain rfl : c = '<' := (List.cons.inj invalid).1
    cases letter

theorem lexemes_sound {text : List Char} (flawless : ∀ lexeme ∈ lexemes text, Flawless lexeme) :
    ∀ lexeme ∈ lexemes text, Sound (indentOn text) lexeme := by
  intro lexeme member
  obtain ⟨line, here, indent⟩ := lexemesAfter_lines [] text lexeme (lexemes_eq text ▸ member)
  refine ⟨flawless lexeme member, ?_, name_valid member⟩
  rw [List.nil_append] at here
  rw [indentOn, here, indent]
  rfl

/-- Constants are substituted once. A constant stands for the rest of its line, with the constants known there
replaced, and of the other lines the tokens remain, with the constants known there replaced by what was
recorded. The first token used on a physical line shows its indentation, and recorded tokens show none. -/
theorem constants_substituted_once (resolver : Resolver) (levels : Nat) (path : Symbol) (text : List Char)
    (session : Session) (empty : session.constants = []) (flawless : ∀ lexeme ∈ lexemes text, Flawless lexeme)
    (orderly : ∀ line ∈ linesOf (mentions text), Orderly line) :
    ∃ output after, scan resolver levels path text session = .ok (output, after) ∧ output.errors = [] ∧
      output.tokens.map (shownKind after.interner) =
        annotated (indentOn text) [] (substituted [] (linesOf (mentions text))).1 ∧
      after.constants.map (shownConstant after.interner) =
        (substituted [] (linesOf (mentions text))).2.map fun known =>
          (some known.1, known.2.map (·, none)) := by
  obtain ⟨nested, visits⟩ := scan_eq resolver levels path text session
  have ordered := lexemesAfter_ordered [] text
  rw [← lexemes_eq] at visits ordered
  have ready : Ready { session } [] [] (lexemes text) (substituted [] (linesOf (mentions text))) :=
    ⟨empty ▸ .nil, fun _ _ => ⟨nofun, by simp⟩, .line orderly⟩
  obtain ⟨output, after, completes, clean, _, shows, knows⟩ := ready.completes (lexemes_sound flawless) ordered
  exact ⟨output, after, visits.trans completes, clean, shows.shownKinds, knows.shownKinds⟩

/-- A line that starts with an empty constant, one that names itself and a later one, and one defined again. -/
theorem constants_substituted_once_of_chains :
    let text := ("CONST empty\nCONST loop loop late\nCONST late 1\nconst late late + 2\n" ++
      "\tempty loop late\n/* \n */ x").toList
    ∃ output after, scan Resolver.none 0 ⟨0⟩ text { interner := Interner.empty, constants := [] } =
        .ok (output, after) ∧
      output.tokens.map (shownKind after.interner) =
        [(.name (some "loop"), some 1), (.name (some "late"), none), (.other (.literal (.int 1)), none),
          (.other (.operator .plus), none), (.other (.literal (.int 2)), none), (.other .eol, none),
          (.name (some "x"), some 0)] := by
  intro text
  obtain ⟨flawless, orderly, remains⟩ : (∀ lexeme ∈ lexemes text, Flawless lexeme) ∧
      (∀ line ∈ linesOf (mentions text), Orderly line) ∧
      annotated (indentOn text) [] (substituted [] (linesOf (mentions text))).1 =
        [(.name (some "loop"), some 1), (.name (some "late"), none), (.other (.literal (.int 1)), none),
          (.other (.operator .plus), none), (.other (.literal (.int 2)), none), (.other .eol, none),
          (.name (some "x"), some 0)] := by
    decide +kernel
  obtain ⟨output, after, completed, _, shown, _⟩ := constants_substituted_once Resolver.none 0 ⟨0⟩ text
    { interner := Interner.empty, constants := [] } rfl flawless orderly
  exact ⟨output, after, completed, shown.trans remains⟩

end Arcade.Proofs.Scanning
