import Arcade.Proofs.Interning
import Arcade.Proofs.RuleChoice

/-! What a lexeme says, known from its rule and its characters. Outside of directives, and where no constant
is named, a lexeme with a meaning becomes the one token that says it; all others are blanks, comments and
mistakes. -/

namespace Arcade.Proofs.Scanning
open Arcade.Scan

variable {resolver : Resolver} {nested : Option (Nat × Scanner)} {path : Symbol} {rule : Rule}
  {word : List Char} {cursor : Cursor} {progress : Progress}

/-! ### Names as texts -/

/-- What a token says, with a name as its text. -/
inductive NamedKind where
  | name (text : Option String)
  | other (kind : TokenKind)
deriving DecidableEq

def namedKind (interner : Interner) : TokenKind → NamedKind
  | .identifier name => .name (interner.resolve? name)
  | kind => .other kind

/-- Every symbol of the first interner has the same text in the second. -/
def Grows (first second : Interner) : Prop :=
  ∀ symbol text, first.resolve? symbol = some text → second.resolve? symbol = some text

theorem Grows.refl (interner : Interner) : Grows interner interner := fun _ _ => id

theorem Grows.trans {first second third : Interner} (left : Grows first second)
    (right : Grows second third) : Grows first third :=
  fun symbol text known => right symbol text (left symbol text known)

theorem grows_intern (interner : Interner) (text : String) : Grows interner (interner.intern text).2 :=
  fun _ _ known => resolve?_intern_of_some known text

/-! ### Meanings -/

def stringKind? (word : List Char) : Option TokenKind :=
  match unescape (word.drop 1).dropLast with
  | .ok value => some (.literal (.string (String.ofList value)))
  | .error _ => none

def reservedKind? (word : List Char) : Option TokenKind :=
  match reservedKind word with
  | .ok kind => kind
  | .error _ => none

/-- The kind of token that a lexeme becomes by its characters alone. -/
def fixedKind? : Rule → List Char → Option TokenKind
  | .lineEnd => fun _ => some .eol
  | .number => fun word => (numberValue? word).map .literal
  | .string => stringKind?
  | .reserved => reservedKind?
  | .sign => signKind?
  | _ => fun _ => none

def meaning (rule : Rule) (word : List Char) : Option NamedKind :=
  if rule = .identifier then some (.name (some (String.ofList word)))
  else (fixedKind? rule word).map .other

def Unbound (session : Session) (word : List Char) : Prop :=
  session.constants.lookup (session.interner.intern (String.ofList word)).1 = none

/-- The token of a lexeme before it is placed. -/
def tokenAt (path : Symbol) (word : List Char) (cursor : Cursor) (kind : TokenKind) : Token where
  kind := kind
  span := ⟨cursor.offset, cursor.offset + Indent.byteLength word⟩
  pos := cursor.pos path

/-- The token shows the indentation if it is the first on its line. -/
def placed (token : Token) (cursor : Cursor) (annotated : Option Nat) : Token :=
  { token with indent := if annotated = some cursor.line then none else some cursor.indent }

/-- The kinds of token that a lexeme may become by its characters alone. Only that of a number takes its value from
them. -/
inductive FixedKind (rule : Rule) (word : List Char) : TokenKind → Prop where
  | eol : FixedKind rule word .eol
  | number {value : Literal} (isNumber : rule = .number) (read : numberValue? word = some value) :
      FixedKind rule word (.literal value)
  | text (content : String) : FixedKind rule word (.literal (.string content))
  | keyword (keyword : Keyword) : FixedKind rule word (.keyword keyword)
  | bool (value : Bool) : FixedKind rule word (.literal (.bool value))
  | null : FixedKind rule word (.literal .null)
  | operator (op : Operator) : FixedKind rule word (.operator op)
  | punctuation (sign : Punctuation) : FixedKind rule word (.punctuation sign)

theorem fixedKind_reserved {kind : TokenKind} (known : reservedKind word = .ok (some kind)) :
    FixedKind rule word kind := by
  unfold reservedKind at known
  dsimp only at known
  split at known
  · cases known
    exact .keyword _
  · split at known
    · cases known
      exact .bool true
    · split at known
      · cases known
        exact .bool false
      · split at known
        · cases known
          exact .null
        · split at known <;> cases known

theorem fixedKind_signs (rule : Rule) (word : List Char) : ∀ sign ∈ signs, FixedKind rule word sign.2 := by
  simp only [signs, List.mem_append, List.mem_map]
  rintro _ (⟨op, _, rfl⟩ | ⟨sign, _, rfl⟩)
  · exact .operator op
  · exact .punctuation sign

theorem fixedKind_of {kind : TokenKind} (known : fixedKind? rule word = some kind) : FixedKind rule word kind := by
  cases rule with
  | lineEnd =>
    cases known
    exact .eol
  | number =>
    obtain ⟨value, read, rfl⟩ := Option.map_eq_some_iff.mp known
    exact .number rfl read
  | string =>
    change stringKind? word = some kind at known
    unfold stringKind? at known
    split at known <;> cases known
    exact .text _
  | reserved =>
    change reservedKind? word = some kind at known
    unfold reservedKind? at known
    split at known
    next found => exact fixedKind_reserved (found.trans (congrArg Except.ok known))
    next => cases known
  | sign => exact fixedKind_signs _ _ _ (mem_signs known)
  | _ => cases known

/-- Only an identifier names anything. -/
theorem fixedKind?_nameless {kind : TokenKind} (known : fixedKind? rule word = some kind) (name : Symbol) :
    kind ≠ .identifier name := by
  cases fixedKind_of known <;> exact nofun

theorem namedKind_fixed {kind : TokenKind} (nameless : ∀ name, kind ≠ .identifier name)
    (interner : Interner) : namedKind interner kind = .other kind := by
  cases kind with
  | identifier name => exact absurd rfl (nameless name)
  | _ => rfl

/-- Rules for what stands between tokens. -/
def isGap : Rule → Bool
  | .blank | .lineComment | .blockComment => true
  | _ => false

/-! ### Visits -/

theorem visit_fixed {kind : TokenKind} (known : fixedKind? rule word = some kind) :
    visit resolver nested path ⟨rule, word, cursor⟩ progress =
      .ok (progress.append cursor (tokenAt path word cursor kind)) := by
  cases rule with
  | lineEnd => cases known; rfl
  | number =>
    obtain ⟨value, read, rfl⟩ := Option.map_eq_some_iff.mp known
    simp only [visit, read]
    rfl
  | string =>
    change stringKind? word = some kind at known
    unfold stringKind? at known
    split at known
    next value read =>
      cases known
      simp only [visit, read]
      rfl
    next => cases known
  | reserved =>
    change reservedKind? word = some kind at known
    unfold reservedKind? at known
    split at known
    next found =>
      subst known
      simp only [visit, found]
      rfl
    next => cases known
  | sign =>
    have known : signKind? word = some kind := known
    simp only [visit, known]
    rfl
  | _ => cases known

/-- What becomes of a lexeme that is no token, in every scan and wherever it stands. -/
inductive Wordless (rule : Rule) (word : List Char) : Prop where
  | gap (between : isGap rule = true ∨ word = [])
      (visits : ∀ resolver nested path cursor progress,
        visit resolver nested path ⟨rule, word, cursor⟩ progress = .ok ({}, progress))
  | mistake (kind : ErrorKind) (apart : isGap rule = false)
      (own : (∀ name failure, kind ≠ .inclusion name failure) ∧ kind ≠ .invalidConstant)
      (visits : ∀ resolver nested path cursor progress,
        visit resolver nested path ⟨rule, word, cursor⟩ progress = .ok (.error kind (cursor.pos path), progress))
  | constant (isReserved : rule = .reserved) (begins : reservedKind word = .ok none)
      (visits : ∀ resolver nested path cursor progress,
        visit resolver nested path ⟨rule, word, cursor⟩ progress =
          .ok ({}, { progress with directive := .name (cursor.pos path) }))
  | misspelled (fault : Fault)
      (visits : ∀ resolver nested path cursor progress,
        visit resolver nested path ⟨rule, word, cursor⟩ progress = .error fault)

theorem wordless (known : fixedKind? rule word = none) (noInclusion : rule ≠ .inclusion)
    (noName : rule ≠ .identifier) : Wordless rule word := by
  cases rule with
  | blank | lineComment | blockComment => exact .gap (.inl rfl) fun _ _ _ _ _ => rfl
  | unclosedComment => exact .mistake .unterminatedComment rfl (by simp) fun _ _ _ _ _ => rfl
  | unclosedString => exact .mistake .unterminatedString rfl (by simp) fun _ _ _ _ _ => rfl
  | lineEnd => cases known
  | inclusion => exact absurd rfl noInclusion
  | identifier => exact absurd rfl noName
  | number =>
    have none : numberValue? word = none := Option.map_eq_none_iff.mp known
    refine .mistake (.invalidNumber (String.ofList word)) rfl (by simp) fun _ _ _ _ _ => ?_
    simp only [visit, none]
    rfl
  | string =>
    change stringKind? word = none at known
    unfold stringKind? at known
    split at known
    next => cases known
    next sequence wrong =>
      refine .mistake (.invalidEscape (String.ofList sequence)) rfl (by simp) fun _ _ _ _ _ => ?_
      simp only [visit, wrong]
      rfl
  | reserved =>
    change reservedKind? word = none at known
    unfold reservedKind? at known
    split at known
    next begins =>
      subst known
      refine .constant rfl begins fun _ _ _ _ _ => ?_
      simp only [visit, begins]
      rfl
    next fault wrong =>
      refine .misspelled fault fun _ _ _ _ _ => ?_
      simp only [visit, wrong]
      rfl
  | sign =>
    have none : signKind? word = none := known
    refine .misspelled (.unknownSign (String.ofList word)) fun _ _ _ _ _ => ?_
    simp only [visit, none]
  | unknown =>
    cases word with
    | nil => exact .gap (.inr rfl) fun _ _ _ _ _ => rfl
    | cons c rest => exact .mistake (.unexpected c) rfl (by simp) fun _ _ _ _ _ => rfl

theorem append_bare (quiet : progress.directive = .none) {token : Token}
    (bare : ∀ name, token.kind = .identifier name → progress.session.constants.lookup name = none) :
    progress.append cursor token = ({ tokens := [placed token cursor progress.annotated] },
      { progress with annotated := some cursor.line }) := by
  unfold Progress.append
  split
  next =>
    have expanded : expand progress.session.constants token = [token] := by
      unfold expand
      split
      next name named => rw [bare name named]; rfl
      next => rfl
    rw [expanded]
    rfl
  next directive => rw [quiet] at directive; cases directive
  next directive => rw [quiet] at directive; cases directive

/-- The token keeps saying this when more names are interned. -/
def Tells (interner : Interner) (kind : TokenKind) (said : NamedKind) : Prop :=
  ∀ later, Grows interner later → namedKind later kind = said

/-- A lexeme that says something is appended as the token that says it. -/
theorem visit_said {said : NamedKind} (means : meaning rule word = some said) :
    ∃ kind interner, Grows progress.session.interner interner ∧ Tells interner kind said ∧
      (∀ name, kind = .identifier name →
        rule = .identifier ∧ name = (progress.session.interner.intern (String.ofList word)).1) ∧
      visit resolver nested path ⟨rule, word, cursor⟩ progress =
        .ok ({ progress with session := { progress.session with interner } }.append cursor
          (tokenAt path word cursor kind)) := by
  unfold meaning at means
  split at means
  next isName =>
    subst isName
    cases means
    refine ⟨_, _, grows_intern progress.session.interner (String.ofList word), fun later grows => ?_,
      fun name named => ?_, rfl⟩
    · exact congrArg NamedKind.name (grows _ _ (resolve?_intern ..))
    · cases named
      exact ⟨rfl, rfl⟩
  next =>
    obtain ⟨kind, known, rfl⟩ := Option.map_eq_some_iff.mp means
    have nameless := fixedKind?_nameless known
    exact ⟨kind, progress.session.interner, .refl _, fun later _ => namedKind_fixed nameless later,
      fun name named => absurd named (nameless name), visit_fixed known⟩

/-- Without a constant of its name it becomes that one token. -/
theorem visit_token {said : NamedKind} (quiet : progress.directive = .none)
    (unbound : rule = .identifier → Unbound progress.session word) (means : meaning rule word = some said) :
    ∃ kind interner, Grows progress.session.interner interner ∧ Tells interner kind said ∧
      visit resolver nested path ⟨rule, word, cursor⟩ progress =
        .ok ({ tokens := [placed (tokenAt path word cursor kind) cursor progress.annotated] },
          { progress with session := { progress.session with interner }, annotated := some cursor.line }) := by
  obtain ⟨kind, interner, grows, tells, named, visits⟩ := visit_said means
  refine ⟨kind, interner, grows, tells, visits.trans (congrArg Except.ok (append_bare (by exact quiet) ?_))⟩
  intro name isName
  obtain ⟨identifier, rfl⟩ := named name isName
  exact unbound identifier

end Arcade.Proofs.Scanning
