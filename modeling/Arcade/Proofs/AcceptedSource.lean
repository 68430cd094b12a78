import Arcade.Proofs.ProgramReadings
import Arcade.Proofs.Writing

/-! Source that is parsed without errors of syntax is a writing of the tree that comes out: no
token is lost on the way, used twice or taken for a part of another node. -/

namespace Arcade.Proofs
open Arcade.Parse

/-! ### Phrases -/

namespace Phrase

theorem seq_nil : seq [] [] := rfl

theorem seq_cons {first : Phrase} {rest : List Phrase} {used left : List Token} (begins : first used)
    (goesOn : seq rest left) : seq (first :: rest) (used ++ left) :=
  ⟨used, left, rfl, begins, goesOn⟩

theorem seq_one {phrase : Phrase} {tokens : List Token} (whole : phrase tokens) :
    seq [phrase] tokens :=
  ⟨tokens, [], (List.append_nil tokens).symm, whole, seq_nil⟩

theorem seq_append {first rest : List Phrase} {used left : List Token} (begins : seq first used)
    (goesOn : seq rest left) : seq (first ++ rest) (used ++ left) := by
  induction first generalizing used with
  | nil =>
    cases begins
    exact goesOn
  | cons phrase first ih =>
    obtain ⟨head, middle, rfl, here, others⟩ := begins
    rw [List.append_assoc]
    exact seq_cons here (ih others)

variable {token : Token} {kind : TokenKind}

theorem one_of (same : token.kind = kind) : one kind [token] := ⟨token, rfl, same⟩

theorem oneAt_of (same : token.kind = kind) : oneAt kind token.pos [token] := ⟨token, rfl, same, rfl⟩

/-- The opening token of a part need not say where the part stands. -/
theorem seq_unplaced {pos : Position} {rest : List Phrase} {tokens : List Token}
    (whole : seq (oneAt kind pos :: rest) tokens) : seq (one kind :: rest) tokens := by
  obtain ⟨_, left, split, ⟨token, rfl, same, _⟩, others⟩ := whole
  exact ⟨_, left, split, one_of same, others⟩

theorem blank_of {tokens : List Token} (blanks : Eols tokens) : blank tokens := blanks

theorem optionalIf_empty (phrase : Phrase) : optionalIf true phrase [] := .inl rfl

theorem optionalIf_of {phrase : Phrase} {tokens : List Token} (condition : Bool)
    (whole : phrase tokens) : optionalIf condition phrase tokens := by
  cases condition with
  | true => exact .inr whole
  | false => exact whole

end Phrase

open Phrase

section
variable {tree : Expr} {plain : Phrase} {tokens : List Token} {least : Nat}

theorem operand_plain (binds : least ≤ exprTier tree) (whole : plain tokens) :
    operand least tree plain tokens :=
  .inl (by rwa [if_pos binds])

private theorem grouped_of_operand (written : operand least tree plain tokens) :
    Grouped plain tokens := by
  obtain direct | ⟨_, _, rfl, ⟨start, rfl, opens⟩, _, _, rfl, inside, _, _, rfl, ⟨stop, rfl, closes⟩, rfl⟩ :=
    written
  · split at direct
    · exact .plain direct
    · cases direct
  · exact .parens opens inside closes

/-- Where an operand of a higher tier may stand, so may it where a lower one is enough. -/
theorem operand_mono {lower : Nat} (enough : lower ≤ least)
    (written : operand least tree plain tokens) : operand lower tree plain tokens := by
  obtain direct | group := written
  · split at direct
    next binds => exact operand_plain (Nat.le_trans enough binds) direct
    next => cases direct
  · exact .inr group

/-- What stands in parentheses may stand anywhere. -/
theorem operand_group {start stop : Token} (opens : start.kind = .punctuation .openParens)
    (written : operand 0 tree plain tokens) (closes : stop.kind = .punctuation .closeParens) :
    operand least tree plain (start :: (tokens ++ [stop])) :=
  .inr (seq_cons (one_of opens) (seq_cons (grouped_of_operand written) (seq_one (one_of closes))))

end

/-! ### Lists -/

section
variable {α : Type} {item : Reading α} {phrase : α → Phrase} {used : List Token} {values : List α}
  {trace : Trace}

theorem delimited_writes (inside : Delimited item used values trace)
    (items : ∀ used value trace, item used value trace → trace.Clean → phrase value used)
    (clean : trace.Clean) : delimited (values.map phrase) used := by
  induction inside with
  | empty blanks => exact blanks
  | last before first after =>
    have written := items _ _ _ first clean
    have whole := seq_cons (blank_of before) (seq_cons written (seq_cons (blank_of after) (seq_one
      (optionalIf_empty (seq [one (.punctuation .comma), delimited []])))))
    simpa [delimited] using whole
  | @more _ _ _ _ _ _ values _ _ before first after separates _ ih =>
    obtain ⟨clean, clean'⟩ := (Trace.clean_append ..).mp clean
    have written := items _ _ _ first clean
    have others := seq_cons (one_of separates) (seq_one (ih clean'))
    have whole := seq_cons (blank_of before) (seq_cons written (seq_cons (blank_of after) (seq_one
      (optionalIf_of (values.map phrase).isEmpty others))))
    simpa [delimited] using whole

theorem separated_writes (inside : Separated item used values trace)
    (items : ∀ used value trace, item used value trace → trace.Clean → phrase value used)
    (clean : trace.Clean) : separated (values.map phrase) used := by
  induction inside with
  | last first => exact items _ _ _ first clean
  | @more _ _ _ _ value values _ _ first separates blanks others ih =>
    obtain ⟨clean, clean'⟩ := (Trace.clean_append ..).mp clean
    have whole := seq_cons (items _ _ _ first clean) (seq_cons (one_of separates)
      (seq_cons (blank_of blanks) (seq_one (ih clean'))))
    cases values with
    | nil => cases others
    | cons next values => simpa [separated] using whole

/-- Items between an opening token, which tells where the list stands, and a closing one. -/
theorem enclosed_writes {opening closing : Punctuation} {start : Token}
    (inside : Enclosed opening closing item (start :: used) values trace)
    (items : ∀ used value trace, item used value trace → trace.Clean → phrase value used)
    (clean : trace.Clean) :
    seq [oneAt (.punctuation opening) start.pos, delimited (values.map phrase),
      one (.punctuation closing)] (start :: used) := by
  cases inside with
  | intro opens inside closes =>
    exact seq_cons (oneAt_of opens) (seq_cons (delimited_writes inside items clean)
      (seq_one (one_of closes)))

end

/-! ### The reading -/

/-- Every production is written as its tree may be. The `if` that starts an `if` statement is
read outside of its production. -/
def writing : GrammarReading where
  expression := fun used value trace => trace.Clean → operand 0 value (exprPhrase value) used
  block := fun inClassBody used body trace => trace.Clean → blockPhrase inClassBody body used
  ifRest := fun pos used value trace => trace.Clean → isIf value = true ∧
    ∀ word : Token, word.kind = .keyword .ifWord → word.pos = pos → statementPhrase value (word :: used)

theorem exprPhrases_eq (items : List Expr) :
    exprPhrases items = items.map fun item => operand 0 item (exprPhrase item) := by
  induction items with
  | nil => rfl
  | cons item rest ih => rw [exprPhrases, ih, List.map_cons]

/-- How an entry of a dict may be written. -/
def entryPhrase (entry : Symbol × Expr) : Phrase :=
  either (shortEntry entry.1 entry.2)
    (seq [one (.identifier entry.1), one (.punctuation .colon), blank,
      operand 0 entry.2 (exprPhrase entry.2)])

theorem entryPhrases_eq (entries : List (Symbol × Expr)) :
    entryPhrases entries = entries.map entryPhrase := by
  induction entries with
  | nil => rfl
  | cons entry rest ih => rw [entryPhrases, ih, List.map_cons, entryPhrase]

section
variable {used : List Token} {trace : Trace}

theorem name_writes {value : Symbol × Position} (inside : NameReading used value trace) :
    one (.identifier value.1) used := by
  cases inside with
  | intro same => exact one_of same

/-- The parentheses around the parameters say where a function stands. -/
theorem function_writes {params : List Symbol} {body : Block} {start : Token}
    (inside : FunctionReading writing (start :: used) (params, body) trace) (clean : trace.Clean) :
    functionPhrase (oneAt (.punctuation .openParens) start.pos) params (blockPhrase false body)
      (start :: used) := by
  generalize whole : (params, body) = value, tokens : start :: used = all at inside
  cases inside with
  | @intro head params' quiet arrow used' body' trace' stop names points inside closes =>
    cases whole
    obtain ⟨quiet', clean⟩ : quiet.Clean ∧ trace'.Clean := by
      simp only [Trace.clean_append, Trace.clean_cons] at clean
      exact ⟨clean.1.1, clean.2.2.1.2⟩
    obtain ⟨more, rfl⟩ := names.starts tokens
    cases tokens
    have parameters := enclosed_writes names (fun _ _ _ name _ => name_writes name) quiet'
    have body := seq_cons (one_of points) (seq_cons (inside clean) (seq_one (one_of closes)))
    simpa [functionPhrase, Function.comp_def] using seq_append parameters body

/-- The parentheses of a function that is declared need not say where it stands. -/
theorem named_function_writes {params : List Symbol} {body : Block}
    (inside : FunctionReading writing used (params, body) trace) (clean : trace.Clean) :
    functionPhrase (one (.punctuation .openParens)) params (blockPhrase false body) used := by
  cases used with
  | nil => exact absurd rfl inside.nonempty
  | cons start used => exact seq_unplaced (function_writes inside clean)

theorem entry_writes {entry : Symbol × Expr} (inside : EntryReading writing used entry trace)
    (clean : trace.Clean) : entryPhrase entry used := by
  cases inside with
  | short sign same =>
    refine .inl ?_
    rw [shortEntry, if_pos rfl]
    exact seq_cons (one_of sign) (seq_one (oneAt_of same))
  | pair same sign blanks inside =>
    exact .inr (seq_cons (one_of same) (seq_cons (one_of sign) (seq_cons (blank_of blanks)
      (seq_one (inside clean)))))

theorem exprs_write {opening closing : Punctuation} {start : Token} {items : List Expr}
    (inside : Enclosed opening closing writing.expression (start :: used) items trace)
    (clean : trace.Clean) :
    seq [oneAt (.punctuation opening) start.pos, delimited (exprPhrases items),
      one (.punctuation closing)] (start :: used) := by
  rw [exprPhrases_eq]
  exact enclosed_writes inside (fun _ _ _ => id) clean

theorem primary_writes {value : Expr} (inside : PrimaryReading writing used value trace)
    (clean : trace.Clean) : operand postfixTier value (exprPhrase value) used := by
  cases inside with
  | identifier same => exact operand_plain (Nat.le_refl _) (oneAt_of same)
  | thisRef same => exact operand_plain (Nat.le_refl _) (oneAt_of same)
  | superRef same => exact operand_plain (Nat.le_refl _) (oneAt_of same)
  | field sign same =>
    exact operand_plain (Nat.le_refl _) (seq_cons (oneAt_of sign) (seq_one (one_of same)))
  | literal same => exact operand_plain (Nat.le_refl _) (oneAt_of same)
  | array inside => exact operand_plain (Nat.le_refl _) (exprs_write inside clean)
  | dict inside =>
    refine operand_plain (Nat.le_refl _) ?_
    rw [exprPhrase, entryPhrases_eq]
    exact enclosed_writes inside (fun _ _ _ => entry_writes) clean
  | function inside => exact operand_plain (Nat.le_refl _) (function_writes inside clean)
  | group opens inside closes => exact operand_group opens (inside clean) closes
  | @new _ _ used' _ _ _ same named inside =>
    have args := (Trace.clean_cons ..).mp clean
    cases used' with
    | nil => cases inside
    | cons start used' =>
      exact operand_plain (Nat.le_refl _) (seq_cons (oneAt_of same) (seq_cons (one_of named)
        (seq_unplaced (exprs_write inside args.2))))

theorem postfix_writes {value : Expr} (inside : PostfixReading writing used value trace)
    (clean : trace.Clean) : operand postfixTier value (exprPhrase value) used := by
  induction inside with
  | primary inside => exact primary_writes inside clean
  | call _ inside ih =>
    obtain ⟨clean, clean'⟩ := (Trace.clean_append ..).mp clean
    exact operand_plain (Nat.le_refl _) (seq_cons (ih clean) (exprs_write inside clean'))
  | index _ opens before inside after closes ih =>
    obtain ⟨clean, clean'⟩ := (Trace.clean_append ..).mp clean
    have key := seq_cons (blank_of before) (seq_cons (inside clean') (seq_cons (blank_of after)
      (seq_one (one_of closes))))
    refine operand_plain (Nat.le_refl _) ?_
    simpa [exprPhrase] using seq_cons (ih clean) (seq_cons (oneAt_of opens) key)
  | member _ sign same ih =>
    exact operand_plain (Nat.le_refl _) (seq_cons (ih clean) (seq_cons (oneAt_of sign)
      (seq_one (one_of same))))

private theorem unary_token {sign : Operator} {op : UnaryOp} (maps : UnaryOp.ofToken sign = .ok op) :
    op.token = sign := by
  cases sign <;> cases maps <;> rfl

theorem unary_writes {value : Expr} (inside : UnaryReading writing used value trace)
    (clean : trace.Clean) : operand unaryTier value (exprPhrase value) used := by
  induction inside with
  | operand inside => exact operand_mono (by decide) (postfix_writes inside clean)
  | unary same maps _ ih =>
    cases unary_token maps
    exact operand_plain (Nat.le_refl _) (seq_cons (oneAt_of same) (seq_one (ih clean)))

theorem tier_writes {isOfTier : Operator → Bool} {operands : Reading Expr} {tier : Nat} {value : Expr}
    (binds : ∀ sign op, isOfTier sign = true → BinaryOp.ofToken sign = .ok op →
      op.token = sign ∧ tierOf op = tier)
    (operands_write : ∀ used value trace, operands used value trace → trace.Clean →
      operand (tier + 1) value (exprPhrase value) used)
    (inside : TierReading isOfTier operands used value trace) (clean : trace.Clean) :
    operand tier value (exprPhrase value) used := by
  induction inside with
  | operand inside => exact operand_mono (Nat.le_succ tier) (operands_write _ _ _ inside clean)
  | binary _ same member maps inside ih =>
    obtain ⟨clean, clean'⟩ := (Trace.clean_append ..).mp clean
    obtain ⟨rfl, rfl⟩ := binds _ _ member maps
    exact operand_plain (Nat.le_refl _) (seq_cons (ih clean) (seq_cons (oneAt_of same)
      (seq_one (operands_write _ _ _ inside clean'))))

theorem expression_writes {value : Expr} (inside : ExpressionReading writing used value trace)
    (clean : trace.Clean) : operand 0 value (exprPhrase value) used := by
  refine tier_writes (fun sign op member maps => ?_) (fun _ _ _ =>
    tier_writes (fun sign op member maps => ?_) fun _ _ _ =>
      tier_writes (fun sign op member maps => ?_) fun _ _ _ =>
        tier_writes (fun sign op member maps => ?_) fun _ _ _ => unary_writes) inside clean
  all_goals cases sign <;> first | (cases maps; exact ⟨rfl, rfl⟩) | cases member

/-! ### Statements -/

section
variable {word : Token} {value : Statement}

theorem let_writes (begins : word.kind = .keyword .letWord)
    (inside : LetReading writing word.pos used value trace) (clean : trace.Clean) :
    statementPhrase value (word :: used) := by
  cases inside with
  | function same inside =>
    have named := named_function_writes inside ((Trace.clean_cons ..).mp clean).2
    exact .inr (seq_cons (oneAt_of begins) (seq_cons (one_of same) (seq_one named)))
  | value same assigns inside =>
    have init := expression_writes inside ((Trace.clean_append ..).mp clean).1
    exact seq_cons (oneAt_of begins) (seq_cons (one_of same) (seq_cons (one_of assigns)
      (seq_one init)))

theorem branch_writes {condition : Expr} {body : Block}
    (inside : BranchReading writing used (condition, body) trace) (clean : trace.Clean) :
    seq [operand 0 condition (exprPhrase condition), blockPhrase false body] used := by
  cases inside with
  | intro head inside =>
    simp only [Trace.clean_append, Trace.clean_cons] at clean
    exact seq_cons (expression_writes head clean.1) (seq_one (inside clean.2.2.1))

theorem if_writes {pos : Position} (inside : IfReading writing pos used value trace)
    (clean : trace.Clean) : isIf value = true ∧
      ∀ word : Token, word.kind = .keyword .ifWord → word.pos = pos →
        statementPhrase value (word :: used) := by
  cases inside with
  | plain branch closes =>
    refine ⟨rfl, fun word begins place => ?_⟩
    subst place
    have whole := seq_append (branch_writes branch clean) (seq_one (one_of closes))
    exact seq_cons (oneAt_of begins) whole
  | @otherwise _ _ other _ _ _ _ _ traces branch divides inside closes =>
    refine ⟨rfl, fun word begins place => ?_⟩
    subst place
    obtain ⟨clean, clean'⟩ := (Trace.clean_append ..).mp clean
    have clean' : traces.Clean := by simpa using clean'
    have last := seq_cons (one_of divides) (seq_cons (inside clean') (seq_one (one_of closes)))
    have ending : elsePhrase (some _) _ := .inl last
    have whole := seq_append (branch_writes branch clean) (seq_one ending)
    exact seq_cons (oneAt_of begins) whole
  | @chain _ _ next other _ _ inner _ _ branch divides same inside =>
    refine ⟨rfl, fun word begins place => ?_⟩
    subst place
    obtain ⟨clean, clean'⟩ := (Trace.clean_append ..).mp clean
    obtain ⟨again, written⟩ := inside clean'
    have lone : loneIfPhrase [inner] (next :: other) := by
      rw [loneIfPhrase, if_pos (by simpa using again)]
      exact written _ same rfl
    have last := seq_cons (one_of divides) (seq_one lone)
    have ending : elsePhrase (some _) _ := .inr last
    have whole := seq_append (branch_writes branch clean) (seq_one ending)
    exact seq_cons (oneAt_of begins) whole

theorem while_writes (begins : word.kind = .keyword .whileWord)
    (inside : WhileReading writing word.pos used value trace) (clean : trace.Clean) :
    statementPhrase value (word :: used) := by
  cases inside with
  | intro head inside closes =>
    simp only [Trace.clean_append, Trace.clean_cons] at clean
    have whole := seq_cons (expression_writes head clean.1) (seq_cons (inside clean.2.2.1)
      (seq_one (one_of closes)))
    rw [List.append_assoc]
    exact seq_cons (oneAt_of begins) whole

theorem step_writes {step : Option Expr} (inside : StepReading writing used step trace)
    (clean : trace.Clean) : stepPhrase step used := by
  cases inside with
  | none => exact seq_nil
  | some same inside => exact seq_cons (one_of same) (seq_one (expression_writes inside clean))

theorem for_writes (begins : word.kind = .keyword .forWord)
    (inside : ForReading writing word.pos used value trace) (clean : trace.Clean) :
    statementPhrase value (word :: used) := by
  cases inside with
  | intro same assigns head divides limit stride inside closes =>
    simp only [Trace.clean_append, Trace.clean_cons] at clean
    obtain ⟨clean₁, clean₂, clean₃, _, _, clean₄, _⟩ := clean
    have body := seq_cons (step_writes stride clean₃) (seq_cons (inside clean₄)
      (seq_one (one_of closes)))
    have bounds := seq_cons (expression_writes head clean₁) (seq_cons (one_of divides)
      (seq_cons (expression_writes limit clean₂) body))
    exact seq_cons (oneAt_of begins) (seq_cons (one_of same) (seq_cons (one_of assigns) bounds))

theorem return_writes (begins : word.kind = .keyword .returnWord)
    (inside : ReturnReading writing word.pos used value trace) (clean : trace.Clean) :
    statementPhrase value (word :: used) := by
  cases inside with
  | bare => exact seq_cons (oneAt_of begins) (seq_one rfl)
  | @values _ values _ inside =>
    have written := separated_writes inside (fun _ _ _ => expression_writes) clean
    rw [← exprPhrases_eq] at written
    cases values with
    | nil => cases inside
    | cons => exact seq_cons (oneAt_of begins) (seq_one written)

theorem parents_write {names : List Symbol} (inside : ParentsReading used names trace)
    (clean : trace.Clean) : parentsPhrase names used := by
  cases inside with
  | none => exact rfl
  | @some _ used' _ _ same inside =>
    have written : separated (names.map fun name => one (.identifier name)) used' := by
      refine separated_writes inside (fun _ _ _ parent _ => ?_) clean
      cases parent with
      | intro same => exact one_of same
    cases names with
    | nil => cases inside
    | cons => exact seq_cons (one_of same) (seq_one written)

theorem class_writes (begins : word.kind = .keyword .classWord)
    (inside : ClassReading writing word.pos used value trace) (clean : trace.Clean) :
    statementPhrase value (word :: used) := by
  cases inside with
  | intro same heads inside closes =>
    simp only [Trace.clean_append, Trace.clean_cons] at clean
    exact seq_cons (oneAt_of begins) (seq_cons (one_of same) (seq_cons (parents_write heads clean.1)
      (seq_cons (inside clean.2.2.2.1) (seq_one (one_of closes)))))

theorem assign_writes (inside : AssignReading writing used value trace) (clean : trace.Clean) :
    statementPhrase value used := by
  cases inside with
  | expr inside => exact expression_writes inside clean
  | assign left same maps right =>
    simp only [Trace.clean_append] at clean
    have written : assignment _ _ [_] := ⟨_, maps, oneAt_of same⟩
    exact seq_cons (expression_writes left clean.1) (seq_cons written
      (seq_one (expression_writes right clean.2.2)))

theorem statement_writes (inside : StatementReading writing used value trace) (clean : trace.Clean) :
    statementPhrase value used := by
  cases inside with
  | letDecl same inside => exact let_writes same inside clean
  | ifElse same inside => exact (if_writes inside clean).2 _ same rfl
  | whileLoop same inside => exact while_writes same inside clean
  | forLoop same inside => exact for_writes same inside clean
  | returnValues same inside => exact return_writes same inside clean
  | breakLoop same => exact oneAt_of same
  | continueLoop same => exact oneAt_of same
  | classDecl same inside => exact class_writes same inside clean
  | functionDecl same inside =>
    have named := named_function_writes inside ((Trace.clean_cons ..).mp clean).2
    exact .inl (seq_cons (oneAt_of same) (seq_one named))
  | assign inside => exact assign_writes inside clean

theorem member_writes (inside : MemberReading writing used value trace) (clean : trace.Clean) :
    memberPhrase value used := by
  cases inside with
  | method same inside =>
    exact seq_cons (oneAt_of same) (seq_one (named_function_writes inside clean))
  | field same assigns inside =>
    exact seq_cons (oneAt_of same) (seq_cons (one_of assigns)
      (seq_one (expression_writes inside clean)))

theorem line_writes {inClassBody : Bool} (inside : LineReading writing inClassBody used value trace)
    (clean : trace.Clean) :
    (if inClassBody then memberPhrase value else statementPhrase value) used := by
  cases inClassBody with
  | true => exact member_writes inside clean
  | false => exact statement_writes inside clean

end

/-! ### Programs -/

theorem block_writes {inClassBody : Bool} {body : Block}
    (inside : BlockReading writing inClassBody used body trace) (clean : trace.Clean) :
    blockPhrase inClassBody body used := by
  induction inside with
  | empty blanks => exact blanks
  | last blanks first =>
    have line := line_writes first clean
    have whole := seq_cons (blank_of blanks) (seq_cons line (seq_one (optionalIf_empty
      (seq [one .eol, blockPhrase inClassBody []]))))
    simpa [blockPhrase] using whole
  | @line _ _ _ _ _ values _ _ blanks first ends _ ih =>
    obtain ⟨clean, clean'⟩ := (Trace.clean_append ..).mp clean
    have line := line_writes first clean
    have others := seq_cons (one_of ends) (seq_one (ih clean'))
    have whole := seq_cons (blank_of blanks) (seq_cons line (seq_one (optionalIf_of values.isEmpty
      others)))
    simpa [blockPhrase] using whole
  | skipped _ wrong => exact absurd clean (by simp [wrong])

theorem writing_closed : writing.Closed :=
  ⟨expression_writes, block_writes, if_writes⟩

theorem program_writes {body : Block} (inside : ProgramReading writing used body trace)
    (clean : trace.Clean) : blockPhrase false body used := by
  cases inside with
  | last inside => exact block_writes inside clean
  | stray _ wrong => exact absurd clean (by simp [wrong])

end

/-- Unless there are errors of syntax, all tokens together are a writing of the statements that
parsing yields. -/
theorem parse_writes (tokens : List Token) (scopes : Scopes) :
    ∃ parsed, parse tokens scopes = .ok parsed ∧
      ((∀ error ∈ parsed.errors, error.isSyntax = false) →
        blockPhrase false parsed.statements tokens) := by
  obtain ⟨body, trace, _, inside, answers⟩ := parse_eq writing_closed tokens
  refine ⟨_, answers scopes, fun accepted => ?_⟩
  exact program_writes inside ((Trace.clean_iff trace (Nest.ofGlobals scopes)).mpr accepted)

/-- A function with `let` before it and a chain of conditions that share one `end`, with few of the
line ends that there could be. -/
theorem parse_writes_of_chain :
    let tokens := inLine [.keyword .letWord, .identifier ⟨1⟩, .punctuation .openParens,
      .identifier ⟨2⟩, .punctuation .comma, .punctuation .closeParens, .punctuation .arrow,
      .keyword .ifWord, .identifier ⟨2⟩, .keyword .elseWord, .keyword .ifWord,
      .punctuation .openParens, .identifier ⟨1⟩, .punctuation .closeParens, .keyword .returnWord,
      .identifier ⟨2⟩, .keyword .endWord, .eol, .eol, .keyword .endWord]
    let scopes : Scopes := ⟨[], [], 0⟩
    ∃ parsed, parse tokens scopes = .ok parsed ∧ parsed.errors = [] ∧
      blockPhrase false parsed.statements tokens := by
  intro tokens scopes
  obtain ⟨parsed, answer, written⟩ := parse_writes tokens scopes
  have errors : (parse tokens scopes).toOption.map Parsed.errors = some [] := by decide +kernel
  rw [answer] at errors
  have errors := Option.some.inj errors
  exact ⟨parsed, answer, errors, written (by simp [errors])⟩

end Arcade.Proofs
