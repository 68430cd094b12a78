import Arcade.Proofs.Speculation

/-! What the parser does on a line that opens neither a block nor brackets. Whatever the line is, every
production either comes to an end in front of the line end or gives up there or before it, with an
error that asks for the rest of the line to be skipped. No grammar for nested productions is needed,
as nothing nests. -/

namespace Arcade.Proofs
open Arcade.Parse Arcade.Parse.Parser

variable {α β : Type}

/-- Neither ends a line or a block nor opens a block or brackets. -/
def isInline : TokenKind → Bool
  | .eol | .punctuation .openParens | .punctuation .openBracket | .punctuation .openBrace => false
  | .keyword .endWord | .keyword .elseWord | .keyword .ifWord | .keyword .whileWord
  | .keyword .forWord | .keyword .classWord => false
  | _ => true

theorem ne_of_isInline {kind other : TokenKind} (inside : isInline kind = true)
    (outside : isInline other = false) : kind ≠ other := by
  rintro rfl
  rw [inside] at outside
  cases outside

theorem goesOn_of_isInline {kind : TokenKind} (inside : isInline kind = true) :
    kind.isBlockTerminator = false := by
  unfold TokenKind.isBlockTerminator
  split
  · cases inside
  · cases inside
  · rfl

/-- The tokens of a line, or the last ones of it. A comma at the end would reach for the next line. -/
structure OneLine (line : List Token) : Prop where
  isInline : ∀ token ∈ line, isInline token.kind = true
  last : ∀ token ∈ line.getLast?, token.kind ≠ .punctuation .comma

theorem OneLine.nil : OneLine [] := ⟨nofun, nofun⟩

theorem OneLine.suffix {line left : List Token} (one : OneLine line) (suffix : left <:+ line) :
    OneLine left := by
  refine ⟨fun token member => one.isInline token (suffix.mem member), fun token last => ?_⟩
  obtain ⟨before, rfl⟩ := suffix
  refine one.last token ?_
  rw [List.getLast?_append, Option.mem_def.mp last]
  rfl

theorem OneLine.tail {token : Token} {line : List Token} (one : OneLine (token :: line)) : OneLine line :=
  one.suffix (List.suffix_cons token line)

theorem OneLine.behind_comma {token : Token} {line : List Token} (one : OneLine (token :: line))
    (comma : token.kind = .punctuation .comma) : line ≠ [] := by
  rintro rfl
  exact one.last token rfl comma

/-- A place before the end of the line. -/
def WithinLine (line behind rest : List Token) : Prop := ∃ left, left <:+ line ∧ rest = left ++ behind

/-- What is left satisfies a condition, and no error of syntax was reported. -/
structure Quietly (rests : List Token → Prop) (errors : List Error) (state : State) : Prop where
  rest : rests state.rest
  quiet : ∃ added, state.errors = errors ++ added ∧ ∀ error ∈ added, error.isSyntax = false

/-- How a parser ends that starts on the line, unless it faults. -/
def Stays (rests : List Token → Prop) (behind : List Token) (parser : Parser α) (line : List Token) : Prop :=
  ∀ scopes errors, match parser ⟨line ++ behind, scopes, errors⟩ with
    | .done _ state => Quietly rests errors state
    | .failed error recovery state => error.isSyntax = true ∧ recovery = .line ∧
        Quietly (WithinLine line behind) errors state
    | .fault _ => True

/-- The parser ends before the end of the line. -/
def Contained (behind : List Token) (parser : Parser α) : Prop :=
  ∀ line, OneLine line → Stays (WithinLine line behind) behind parser line

theorem WithinLine.mono {line left behind rest : List Token} (within : WithinLine left behind rest)
    (suffix : left <:+ line) : WithinLine line behind rest := by
  obtain ⟨last, shorter, same⟩ := within
  exact ⟨last, shorter.trans suffix, same⟩

theorem Quietly.mono {rests rests' : List Token → Prop} {errors : List Error} {state : State}
    (quietly : Quietly rests errors state) (implies : ∀ rest, rests rest → rests' rest) :
    Quietly rests' errors state :=
  ⟨implies _ quietly.rest, quietly.quiet⟩

theorem Quietly.refl (line behind : List Token) (scopes : Scopes) (errors : List Error) :
    Quietly (WithinLine line behind) errors ⟨line ++ behind, scopes, errors⟩ :=
  ⟨⟨line, List.suffix_refl line, rfl⟩, [], (List.append_nil errors).symm, List.forall_mem_nil _⟩

/-- Quiet steps one after the other are quiet. -/
theorem Quietly.trans {rests between : List Token → Prop} {errors : List Error} {middle state : State}
    (head : Quietly between errors middle) (tail : Quietly rests middle.errors state) :
    Quietly rests errors state := by
  obtain ⟨added, same, clean⟩ := head.quiet
  obtain ⟨more, same', clean'⟩ := tail.quiet
  refine ⟨tail.rest, added ++ more, by rw [same', same, List.append_assoc], ?_⟩
  exact List.forall_mem_append.mpr ⟨clean, clean'⟩

section
variable {behind line : List Token} {rests : List Token → Prop} {parser : Parser α} {next : α → Parser β}

namespace Stays

theorem mono {rests' : List Token → Prop} (stays : Stays rests behind parser line)
    (implies : ∀ rest, rests rest → rests' rest) : Stays rests' behind parser line := by
  intro scopes errors
  have held := stays scopes errors
  cases outcome : parser ⟨line ++ behind, scopes, errors⟩ with
  | done value state =>
    rw [outcome] at held
    exact held.mono implies
  | failed error recovery state =>
    rw [outcome] at held
    exact held
  | fault fault => trivial

theorem bind (head : Stays (WithinLine line behind) behind parser line)
    (tail : ∀ value left, left <:+ line → Stays rests behind (next value) left) :
    Stays rests behind (parser >>= next) line := by
  intro scopes errors
  show match andThen parser next _ with | .done _ _ => _ | .failed .. => _ | .fault _ => _
  have held := head scopes errors
  unfold andThen
  cases outcome : parser ⟨line ++ behind, scopes, errors⟩ with
  | fault fault => trivial
  | failed error recovery state =>
    rw [outcome] at held
    exact held
  | done value state =>
    rw [outcome] at held
    obtain ⟨rest, scopes, errors⟩ := state
    obtain ⟨left, suffix, rfl⟩ := held.rest
    have after := tail value left suffix scopes errors
    dsimp only
    cases outcome' : next value ⟨left ++ behind, scopes, errors⟩ with
    | fault fault => trivial
    | done result state =>
      rw [outcome'] at after
      exact held.trans after
    | failed error recovery state =>
      rw [outcome'] at after
      obtain ⟨wrong, skips, quietly⟩ := after
      exact ⟨wrong, skips, held.trans (quietly.mono fun _ within => within.mono suffix)⟩

/-- A parser that does on the line what another one does on the last part of it. -/
theorem of_eq {other : Parser α} {left : List Token} (suffix : left <:+ line)
    (same : ∀ scopes errors,
      parser ⟨line ++ behind, scopes, errors⟩ = other ⟨left ++ behind, scopes, errors⟩)
    (stays : Stays rests behind other left) : Stays rests behind parser line := by
  intro scopes errors
  have held := stays scopes errors
  rw [same]
  cases outcome : other ⟨left ++ behind, scopes, errors⟩ with
  | fault fault => trivial
  | done value state =>
    rw [outcome] at held
    exact held
  | failed error recovery state =>
    rw [outcome] at held
    obtain ⟨wrong, skips, quietly⟩ := held
    exact ⟨wrong, skips, quietly.mono fun _ within => within.mono suffix⟩

theorem pure (value : α) : Stays (WithinLine line behind) behind (pure value) line :=
  fun _ _ => .refl ..

theorem fail {error : Error} (wrong : error.isSyntax = true) :
    Stays rests behind (fail error .line : Parser α) line :=
  fun _ _ => ⟨wrong, rfl, .refl ..⟩

theorem step_bind {token : Token} {next : Unit → Parser β} (tail : Stays rests behind (next ()) line) :
    Stays rests behind (step >>= next) (token :: line) :=
  of_eq (List.suffix_cons token line) (fun _ _ => rfl) tail

theorem peek_bind {next : Option Token → Parser β}
    (tail : Stays rests behind (next (line ++ behind).head?) line) :
    Stays rests behind (peek >>= next) line :=
  of_eq (List.suffix_refl line) (fun _ _ => rfl) tail

theorem isAt_bind {kind : TokenKind} {next : Bool → Parser β}
    (tail : Stays rests behind (next ((line ++ behind).head?.any (·.kind = kind))) line) :
    Stays rests behind (isAt kind >>= next) line :=
  of_eq (List.suffix_refl line) (fun _ _ => rfl) tail

end Stays

namespace Contained

theorem mono {line left : List Token} (contained : Contained behind parser) (one : OneLine line)
    (suffix : left <:+ line) : Stays (WithinLine line behind) behind parser left :=
  (contained left (one.suffix suffix)).mono fun _ within => within.mono suffix

theorem bind (head : Contained behind parser) (tail : ∀ value, Contained behind (next value)) :
    Contained behind (parser >>= next) := fun line one =>
  (head line one).bind fun value _ suffix => (tail value).mono one suffix

theorem pure (value : α) : Contained behind (pure value) := fun _ _ => .pure value

theorem ofExcept (result : Except Fault α) : Contained behind (ofExcept result) := by
  cases result with
  | ok value => exact pure value
  | error fault => exact fun _ _ _ _ => trivial

theorem scopes : Contained behind scopes := fun _ _ _ _ => .refl ..

theorem declare (name : Symbol) (kind : DeclKind) (pos : Position) :
    Contained behind (declare name kind pos) := by
  intro line _ scopes errors
  simp only [Parser.declare]
  cases scopes.add name kind pos with
  | ok added => exact .refl ..
  | error fault => trivial

/-- Other errors do not keep the line from being parsed. -/
theorem report {error : Error} (other : error.isSyntax = false) : Contained behind (report error) :=
  fun line _ _ _ => ⟨⟨line, List.suffix_refl line, rfl⟩, [error], rfl, List.forall_mem_singleton.mpr other⟩

theorem reportUnless (condition : Prop) [Decidable condition] {error : Error}
    (other : error.isSyntax = false) :
    Contained behind (if condition then Parser.report error else Pure.pure ()) := by
  split
  · exact report other
  · exact pure ()

theorem requireDeclared (name : Symbol) (kind : Option DeclKind) {error : Error}
    (other : error.isSyntax = false) : Contained behind (requireDeclared name kind error) :=
  scopes.bind fun _ => (ofExcept _).bind fun _ => reportUnless _ other

theorem requireClass {error : Error} (other : error.isSyntax = false) :
    Contained behind (requireClass error) :=
  scopes.bind fun _ => reportUnless _ other

theorem loop {turn : α → Parser (Turn α)} (turns : ∀ value, Contained behind (turn value)) (value : α) :
    Contained behind (loop turn value) := by
  have iterated (count : Nat) : ∀ value, Contained behind (iterate turn count value) := by
    induction count with
    | zero => exact fun _ => ofExcept _
    | succ count ih =>
      refine fun value => (turns value).bind fun turned => ?_
      cases turned with
      | again value => exact ih value
      | stop value => exact pure value
  exact fun line one => iterated ((line ++ behind).length + 1) value line one

end Contained

/-! ### Tokens -/

section
variable {eol : Token} {rest : List Token}

/-- At the end of the line the line end is next, and before it the tokens of the line. -/
theorem Contained.look {next : Option Token → Parser β}
    (atEnd : Stays (WithinLine [] (eol :: rest)) (eol :: rest) (next (some eol)) [])
    (inside : ∀ token line, OneLine (token :: line) →
      Stays (WithinLine (token :: line) (eol :: rest)) (eol :: rest) (next (some token)) (token :: line)) :
    Contained (eol :: rest) (peek >>= next) := by
  intro line one
  cases line with
  | nil => exact .peek_bind atEnd
  | cons token line => exact .peek_bind (inside token line one)

theorem Contained.eat {accept : Token → Except (Error × Recovery) α}
    (refuses : ∃ error, accept eol = .error (error, .line))
    (wrong : ∀ token error recovery, accept token = .error (error, recovery) →
      error.isSyntax = true ∧ recovery = .line) :
    Contained (eol :: rest) (eat accept) := by
  have refused {token : Token} {line : List Token} {error : Error} {recovery : Recovery}
      (same : accept token = .error (error, recovery)) :
      Stays (WithinLine line (eol :: rest)) (eol :: rest) (fail error recovery : Parser α) line := by
    obtain ⟨syntax', rfl⟩ := wrong token error recovery same
    exact .fail syntax'
  refine look ?_ fun token line one => ?_
  · obtain ⟨error, same⟩ := refuses
    simp only [same]
    exact refused same
  · cases accepted : accept token with
    | ok value =>
      simp only [accepted]
      exact .step_bind ((pure value).mono one (List.suffix_cons token line))
    | error reason =>
      simp only [accepted]
      exact refused accepted

theorem Contained.step_bind {behind line : List Token} {token : Token} {next : Unit → Parser β}
    (tail : Contained behind (next ())) (one : OneLine (token :: line)) :
    Stays (WithinLine (token :: line) behind) behind (step >>= next) (token :: line) :=
  .step_bind (tail.mono one (List.suffix_cons token line))

theorem Contained.expect (ends : eol.kind = .eol) {kind : TokenKind} (solid : kind ≠ .eol) :
    Contained (eol :: rest) (expect kind) := by
  refine .eat ⟨.unexpected eol (.token kind), if_neg (ends ▸ solid.symm)⟩ fun token error recovery refused => ?_
  split at refused
  next => cases refused
  next =>
    cases refused
    exact ⟨rfl, rfl⟩

/-- What opens something is missing on the line. -/
theorem Contained.missing_bind (ends : eol.kind = .eol) {kind : TokenKind} (solid : kind ≠ .eol)
    (absent : isInline kind = false) {next : Position → Parser β} :
    Contained (eol :: rest) (Parser.expect kind >>= next) := by
  have refused {token : Token} (tokens : List Token) (other : token.kind ≠ kind) (scopes : Scopes)
      (errors : List Error) : (Parser.expect kind >>= next) ⟨token :: tokens, scopes, errors⟩ =
        .failed (.unexpected token (.token kind)) .line ⟨token :: tokens, scopes, errors⟩ := by
    simp [Parser.expect, Parser.eat, Bind.bind, andThen, peek, Parser.fail, other]
  intro line one
  cases line with
  | nil =>
    have other : eol.kind ≠ kind := ends ▸ solid.symm
    exact .of_eq (List.suffix_refl []) (refused rest other) (.fail rfl)
  | cons token line =>
    have other : token.kind ≠ kind := ne_of_isInline (one.isInline token (.head _)) absent
    exact .of_eq (List.suffix_refl _) (refused _ other) (.fail rfl)

theorem Contained.enclosed (ends : eol.kind = .eol) {opening closing : Punctuation}
    (absent : isInline (.punctuation opening) = false) (item : Parser α) :
    Contained (eol :: rest) (enclosed opening closing item) :=
  have solid : TokenKind.punctuation opening ≠ .eol := nofun
  missing_bind ends solid absent

theorem Contained.identifier (ends : eol.kind = .eol) : Contained (eol :: rest) identifier := by
  refine .eat ⟨.unexpected eol (.words "identifier"), by simp [ends]⟩ fun token error recovery refused => ?_
  split at refused
  next => cases refused
  next =>
    cases refused
    exact ⟨rfl, rfl⟩

theorem Stays.stepIf_bind {line : List Token} {rests : List Token → Prop} {kind : TokenKind}
    (other : eol.kind ≠ kind) {next : Bool → Parser β}
    (no : Stays rests (eol :: rest) (next false) line)
    (yes : ∀ token left, line = token :: left → token.kind = kind →
      Stays rests (eol :: rest) (next true) left) :
    Stays rests (eol :: rest) (stepIf kind >>= next) line := by
  have missing {tokens : List Token} (absent : tokens.head?.any (·.kind = kind) = false)
      (scopes : Scopes) (errors : List Error) :
      stepIf kind ⟨tokens, scopes, errors⟩ = .done false ⟨tokens, scopes, errors⟩ := by
    simp [stepIf, isAt, Bind.bind, andThen, peek, Pure.pure, finish, absent]
  cases line with
  | nil => exact of_eq (List.suffix_refl []) (fun _ _ => bind_of_done (missing (by simpa using other) ..)) no
  | cons token line =>
    by_cases same : token.kind = kind
    · refine of_eq (List.suffix_cons token line) (fun scopes errors => bind_of_done ?_)
        (yes token line rfl same)
      simp [stepIf, isAt, Bind.bind, andThen, peek, step, Pure.pure, finish, same]
    · exact of_eq (List.suffix_refl _) (fun _ _ => bind_of_done (missing (by simpa using same) ..)) no

/-- No line end is skipped in front of a token of the line. -/
theorem Stays.skipEols_bind {line behind : List Token} {rests : List Token → Prop} (one : OneLine line)
    (begins : line ≠ []) {next : Unit → Parser β} (tail : Stays rests behind (next ()) line) :
    Stays rests behind (skipEols >>= next) line := by
  cases line with
  | nil => exact absurd rfl begins
  | cons token line =>
    refine of_eq (List.suffix_refl _) (fun scopes errors => bind_of_done ?_) tail
    have solid : token.kind ≠ .eol := ne_of_isInline (one.isInline token (.head _)) rfl
    simp [skipEols, solid]

theorem Contained.operatorIf (ends : eol.kind = .eol) (isOfSort : Operator → Bool) :
    Contained (eol :: rest) (operatorIf? isOfSort) := by
  refine look ?_ fun token line one => ?_
  · obtain ⟨kind, span, pos, indent⟩ := eol
    cases ends
    exact .pure none
  · obtain ⟨kind, span, pos, indent⟩ := token
    cases kind with
    | operator op =>
      dsimp only
      split
      · exact (pure _).step_bind one
      · exact .pure none
    | _ => exact .pure none

theorem Contained.commaSeparated (ends : eol.kind = .eol) {item : Parser α}
    (items : Contained (eol :: rest) item) : Contained (eol :: rest) (commaSeparated item) := by
  refine items.bind fun first => loop (fun values line one => ?_) [first]
  refine .stepIf_bind (by simp [ends]) (.pure _) fun comma left split same => ?_
  subst split
  have others : Contained (eol :: rest) (item >>= fun value => Pure.pure (Turn.again (values ++ [value]))) :=
    items.bind fun value => pure _
  exact .skipEols_bind one.tail (one.behind_comma same) (others.mono one (List.suffix_cons comma left))

theorem StartsFunction.opens {tokens : List Token} (starts : StartsFunction tokens) :
    ∃ start rest, tokens = start :: rest ∧ start.kind = .punctuation .openParens := by
  obtain ⟨⟨names, quiet, inside⟩, _⟩ := starts
  obtain ⟨opens, _, _⟩ := inside
  exact ⟨_, _, rfl, opens⟩

/-- Without a parenthesis on the line there is no function either. -/
theorem Stays.functionFollows_bind {line : List Token} {rests : List Token → Prop} {token : Token}
    (ends : eol.kind = .eol) (one : OneLine (token :: line)) {next : Bool → Parser β}
    (tail : Stays rests (eol :: rest) (next false) (token :: line)) :
    Stays rests (eol :: rest) (functionFollows 1 >>= next) (token :: line) := by
  have missing : ¬ StartsFunction ((token :: line ++ eol :: rest).drop 1) := by
    intro starts
    obtain ⟨start, left, shape, opens⟩ := starts.opens
    cases line with
    | nil =>
      cases shape
      rw [ends] at opens
      cases opens
    | cons second line =>
      cases shape
      exact ne_of_isInline (one.isInline start (.tail _ (.head _))) rfl opens
  refine of_eq (List.suffix_refl _) (fun scopes errors => bind_of_done ?_) tail
  exact (Blind.functionFollows 1).of_runs (functionFollows_missing false missing) scopes errors

end
end

/-! ### Productions -/

section
variable {eol : Token} {rest : List Token} {grammar : Grammar}

theorem primary_contained (ends : eol.kind = .eol) : Contained (eol :: rest) (primary grammar) := by
  have name : Contained (eol :: rest) identifier := .identifier ends
  refine .look ?_ fun token line one => ?_
  · simp only [ends]
    exact .fail rfl
  have inside := one.isInline token (.head _)
  have refused : Stays (WithinLine (token :: line) (eol :: rest)) (eol :: rest)
      (fail (.unexpected token (.words "expression")) .line : Parser Expr) (token :: line) := .fail rfl
  cases kind : token.kind with
  | identifier word =>
    simp only [kind]
    exact Contained.step_bind (.bind (.requireDeclared _ _ rfl) fun _ => .pure _) one
  | literal value =>
    simp only [kind]
    exact Contained.step_bind (.pure _) one
  | keyword word =>
    cases word with
    | thisWord | superWord =>
      simp only [kind]
      exact Contained.step_bind (.bind (.requireClass rfl) fun _ => .pure _) one
    | newWord =>
      simp only [kind]
      refine Contained.step_bind (name.bind fun named => ?_) one
      refine .bind (.requireDeclared _ _ rfl) fun _ => ?_
      exact .bind (.enclosed ends rfl _) fun _ => .pure _
    | _ => simpa only [kind] using refused
  | punctuation sign =>
    cases sign with
    | atSign =>
      simp only [kind]
      exact Contained.step_bind (name.bind fun named => .bind (.requireClass rfl) fun _ => .pure _) one
    | openParens | openBracket | openBrace =>
      rw [kind] at inside
      cases inside
    | _ => simpa only [kind] using refused
  | operator op => simpa only [kind] using refused
  | eol => simpa only [kind] using refused

theorem postfixTurn_contained (ends : eol.kind = .eol) (object : Expr) :
    Contained (eol :: rest) (postfixTurn grammar object) := by
  refine .look ?_ fun token line one => ?_
  · simp only [ends]
    exact .pure _
  have inside := one.isInline token (.head _)
  have stops : Stays (WithinLine (token :: line) (eol :: rest)) (eol :: rest)
      (Pure.pure (Turn.stop object) : Parser (Turn Expr)) (token :: line) := .pure _
  cases kind : token.kind with
  | punctuation sign =>
    cases sign with
    | dot =>
      simp only [kind]
      exact Contained.step_bind (.bind (.identifier ends) fun _ => .pure _) one
    | openParens | openBracket =>
      rw [kind] at inside
      cases inside
    | _ => simpa only [kind] using stops
  | _ => simpa only [kind] using stops

theorem unary_contained (ends : eol.kind = .eol) : Contained (eol :: rest) (unary grammar) := by
  have operators : Contained (eol :: rest) unaryOperators := by
    refine .loop (fun values => (Contained.operatorIf ends _).bind fun found => ?_) []
    cases found with
    | none => exact .pure _
    | some operator => exact .pure _
  have operand : Contained (eol :: rest) (postfixed grammar) :=
    (primary_contained ends).bind (.loop (postfixTurn_contained ends))
  exact operators.bind fun _ => operand.bind fun _ => .ofExcept _

theorem binaryTier_contained (ends : eol.kind = .eol) (isOfTier : Operator → Bool) {operand : Parser Expr}
    (inside : Contained (eol :: rest) operand) : Contained (eol :: rest) (binaryTier isOfTier operand) := by
  refine inside.bind (.loop fun left => (Contained.operatorIf ends _).bind fun found => ?_)
  cases found with
  | none => exact .pure _
  | some operator => exact inside.bind fun _ => .bind (.ofExcept _) fun _ => .pure _

theorem expression_contained (ends : eol.kind = .eol) : Contained (eol :: rest) (expression grammar) :=
  binaryTier_contained ends _ <| binaryTier_contained ends _ <| binaryTier_contained ends _ <|
    binaryTier_contained ends _ <| unary_contained ends

theorem assignmentOrExpression_contained (ends : eol.kind = .eol) :
    Contained (eol :: rest) (assignmentOrExpression grammar) := by
  have inside : Contained (eol :: rest) (expression grammar) := expression_contained ends
  refine inside.bind fun target => (Contained.operatorIf ends _).bind fun found => ?_
  cases found with
  | none => exact .pure _
  | some operator =>
    have assigned : Contained (eol :: rest) (expression grammar >>= fun value => do
        return Statement.assign target (← Parser.ofExcept (BinaryOp.ofAssignment operator.1)) value
          operator.2) :=
      inside.bind fun value => .bind (.ofExcept _) fun _ => .pure _
    dsimp only
    split
    · exact (Contained.report rfl).bind fun _ => assigned
    · exact assigned

/-- A name and a function behind it, which is missing, or an expression that it is assigned. -/
theorem named_contained (ends : eol.kind = .eol) {called otherwise : Parser α}
    (inside : Contained (eol :: rest) otherwise) :
    Contained (eol :: rest) (do if ← isAt (.punctuation .openParens) then called else otherwise) := by
  intro line one
  refine .isAt_bind ?_
  have absent : (line ++ eol :: rest).head?.any (·.kind = .punctuation .openParens) = false := by
    cases line with
    | nil => simp [ends]
    | cons token line => exact decide_eq_false (ne_of_isInline (one.isInline token (.head _)) rfl)
  rw [absent]
  exact inside line one

theorem letRest_contained (ends : eol.kind = .eol) (pos : Position) :
    Contained (eol :: rest) (letRest grammar pos) := by
  have assigns : TokenKind.operator .assign ≠ .eol := nofun
  refine (Contained.identifier ends).bind fun named => named_contained ends ?_
  refine (Contained.expect ends assigns).bind fun _ => (expression_contained ends).bind fun init => ?_
  exact (Contained.declare _ _ _).bind fun _ => .pure _

theorem classMember_contained (ends : eol.kind = .eol) : Contained (eol :: rest) (classMember grammar) := by
  have assigns : TokenKind.operator .assign ≠ .eol := nofun
  refine (Contained.identifier ends).bind fun named => named_contained ends ?_
  exact (Contained.expect ends assigns).bind fun _ => (expression_contained ends).bind fun init => .pure _

theorem returnRest_contained (ends : eol.kind = .eol) (pos : Position) :
    Contained (eol :: rest) (returnRest grammar pos) := by
  have values : Contained (eol :: rest) (commaSeparated (expression grammar)) :=
    .commaSeparated ends (expression_contained ends)
  refine .bind (.look (.pure _) fun _ _ _ => .pure _) fun found => ?_
  cases found with
  | true => exact .pure _
  | false => exact values.bind fun _ => .pure _

theorem statement_contained (ends : eol.kind = .eol) : Contained (eol :: rest) (statement grammar) := by
  have other : Contained (eol :: rest) (assignmentOrExpression grammar) := assignmentOrExpression_contained ends
  refine .look ?_ fun token line one => ?_
  · simp only [ends]
    exact other [] .nil
  have inside := one.isInline token (.head _)
  have plain := other (token :: line) one
  cases kind : token.kind with
  | keyword word =>
    cases word with
    | letWord =>
      simp only [kind]
      exact (letRest_contained ends token.pos).step_bind one
    | returnWord =>
      simp only [kind]
      exact (returnRest_contained ends token.pos).step_bind one
    | breakWord | continueWord =>
      simp only [kind]
      exact (Contained.pure _).step_bind one
    | ifWord | whileWord | forWord | classWord =>
      rw [kind] at inside
      cases inside
    | _ => simpa only [kind] using plain
  | identifier name =>
    simp only [kind]
    exact .functionFollows_bind ends one plain
  | _ => simpa only [kind] using plain

theorem lineEnd_stays (ends : eol.kind = .eol) {line : List Token} (one : OneLine line) (value : α) :
    Stays (· = rest) (eol :: rest) (lineEnd >>= fun _ => Pure.pure value) line := by
  cases line with
  | nil =>
    intro scopes errors
    have consumed : lineEnd ⟨eol :: rest, scopes, errors⟩ = .done () ⟨rest, scopes, errors⟩ := by
      simp [lineEnd, Bind.bind, andThen, peek, step, ends]
    rw [List.nil_append, bind_of_done consumed]
    exact ⟨rfl, [], (List.append_nil errors).symm, List.forall_mem_nil _⟩
  | cons token line =>
    have inside := one.isInline token (.head _)
    have solid : token.kind ≠ .eol := ne_of_isInline inside rfl
    have refused : ∀ scopes errors,
        (lineEnd >>= fun _ => Pure.pure value : Parser α) ⟨token :: line ++ eol :: rest, scopes, errors⟩ =
          .failed (.unexpected token (.words "end of line")) .line
            ⟨token :: line ++ eol :: rest, scopes, errors⟩ := fun scopes errors => by
      simp [lineEnd, Bind.bind, andThen, peek, Parser.fail, solid, goesOn_of_isInline inside]
    exact .of_eq (List.suffix_refl _) refused (.fail rfl)

/-- A line that is done has consumed its line end, and nothing behind it. -/
theorem line_contained (ends : eol.kind = .eol) {line : List Token} (one : OneLine line) :
    Stays (· = rest) (eol :: rest) (Parse.line grammar) line := by
  have ended {inside : Parser Statement} (contained : Contained (eol :: rest) inside) {left : List Token}
      (shorter : left <:+ line) : Stays (· = rest) (eol :: rest)
        (inside >>= fun value => lineEnd >>= fun _ => Pure.pure value) left :=
    (contained left (one.suffix shorter)).bind fun value last shorter' =>
      lineEnd_stays ends (one.suffix (shorter'.trans shorter)) value
  refine .bind (Contained.scopes line one) fun open_ left shorter => ?_
  dsimp only
  split
  · exact ended (classMember_contained ends) shorter
  · exact ended (statement_contained ends) shorter

end
end Arcade.Proofs
