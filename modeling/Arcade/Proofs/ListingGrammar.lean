import Arcade.Proofs.Canonical

/-! A grammar of listings: which trees the tokens of a listing are, when every chain of members, indices and calls
is read to its end before the operators in front of it are applied. The grammar has one reading of a sequence of
tokens at most. -/

namespace Arcade.Proofs

/-- The tokens that go on with a chain. -/
def startsLink : TokenKind → Bool
  | .punctuation .dot | .punctuation .openBracket | .punctuation .openParens => true
  | _ => false

/-- The tokens that a listed expression may start with. -/
def opensExpr : TokenKind → Bool
  | .operator _ => true
  | kind => startsExpr kind

/-- The tokens that may end a list of expressions. -/
def closesItems (kind : TokenKind) : Bool := !opensExpr kind && kind ≠ .punctuation .comma

/-- What follows the body of a block. -/
def EndsBody (rest : List TokenKind) : Prop :=
  ∀ kind ∈ rest.head?, kind = .keyword .endWord ∨ kind = .keyword .elseWord

/-- Names with commas between them, up to a token that ends them. -/
inductive ReadsNames (closing : TokenKind) : List TokenKind → List Symbol → List TokenKind → Prop where
  | none {rest} : ReadsNames closing (closing :: rest) [] rest
  | last {name rest} : ReadsNames closing (.identifier name :: closing :: rest) [name] rest
  | more {name kinds names rest} (others : ReadsNames closing kinds names rest) :
      ReadsNames closing (.identifier name :: .punctuation .comma :: kinds) (name :: names) rest

inductive ReadsParents : List TokenKind → List Symbol → List TokenKind → Prop where
  | none {rest} : ReadsParents (.eol :: rest) [] rest
  | some {kinds names rest} (inside : ReadsNames .eol kinds names rest) :
      ReadsParents (.keyword .extendsWord :: kinds) names rest

mutual

inductive ReadsExpr : List TokenKind → Expr → List TokenKind → Prop where
  | unary {sign op kinds operand rest} (known : UnaryOp.ofToken sign = .ok op)
      (inside : ReadsExpr kinds operand rest) :
      ReadsExpr (.operator sign :: kinds) (.unary op operand default) rest
  | chain {kinds object behind tree rest} (first : ReadsPrimary kinds object behind)
      (links : ReadsLinks object behind tree rest) : ReadsExpr kinds tree rest

inductive ReadsPrimary : List TokenKind → Expr → List TokenKind → Prop where
  | identifier {name rest} : ReadsPrimary (.identifier name :: rest) (.identifier name default) rest
  | thisRef {rest} : ReadsPrimary (.keyword .thisWord :: rest) (.thisRef default) rest
  | superRef {rest} : ReadsPrimary (.keyword .superWord :: rest) (.superRef default) rest
  | field {name rest} :
      ReadsPrimary (.punctuation .atSign :: .identifier name :: rest) (.field name default) rest
  | literal {value rest} : ReadsPrimary (.literal value :: rest) (.literal value default) rest
  | array {kinds items rest} (inside : ReadsItems (.punctuation .closeBracket) kinds items rest) :
      ReadsPrimary (.punctuation .openBracket :: kinds) (.array items default) rest
  | dict {kinds entries rest} (inside : ReadsEntries kinds entries rest) :
      ReadsPrimary (.punctuation .openBrace :: kinds) (.dict entries default) rest
  | function {kinds params inner body rest}
      (head : ReadsNames (.punctuation .closeParens) kinds params (.punctuation .arrow :: .eol :: inner))
      (inside : ReadsBody false inner body (.keyword .endWord :: rest)) :
      ReadsPrimary (.punctuation .openParens :: kinds) (.function params body default) rest
  | binary {kinds left sign op middle right rest} (known : BinaryOp.ofToken sign = .ok op)
      (first : ReadsExpr kinds left (.operator sign :: middle))
      (second : ReadsExpr middle right (.punctuation .closeParens :: rest)) :
      ReadsPrimary (.punctuation .openParens :: kinds) (.binary left op right default) rest
  | new {name kinds args rest} (inside : ReadsItems (.punctuation .closeParens) kinds args rest) :
      ReadsPrimary (.keyword .newWord :: .identifier name :: .punctuation .openParens :: kinds)
        (.new name args default) rest

/-- The links of a chain behind an object, as many as there are. -/
inductive ReadsLinks : Expr → List TokenKind → Expr → List TokenKind → Prop where
  | none {object rest} (stops : ∀ kind ∈ rest.head?, startsLink kind = false) : ReadsLinks object rest object rest
  | member {object name kinds tree rest} (others : ReadsLinks (.member object name default) kinds tree rest) :
      ReadsLinks object (.punctuation .dot :: .identifier name :: kinds) tree rest
  | index {object kinds key behind tree rest}
      (inside : ReadsExpr kinds key (.punctuation .closeBracket :: behind))
      (others : ReadsLinks (.index object key default) behind tree rest) :
      ReadsLinks object (.punctuation .openBracket :: kinds) tree rest
  | call {object kinds args behind tree rest}
      (inside : ReadsItems (.punctuation .closeParens) kinds args behind)
      (others : ReadsLinks (.call object args default) behind tree rest) :
      ReadsLinks object (.punctuation .openParens :: kinds) tree rest

inductive ReadsItems : TokenKind → List TokenKind → List Expr → List TokenKind → Prop where
  | none {closing rest} : ReadsItems closing (closing :: rest) [] rest
  | last {closing kinds item rest} (first : ReadsExpr kinds item (closing :: rest)) :
      ReadsItems closing kinds [item] rest
  | more {closing kinds item behind items rest} (first : ReadsExpr kinds item (.punctuation .comma :: behind))
      (others : ReadsItems closing behind items rest) : ReadsItems closing kinds (item :: items) rest

inductive ReadsEntries : List TokenKind → List (Symbol × Expr) → List TokenKind → Prop where
  | none {rest} : ReadsEntries (.punctuation .closeBrace :: rest) [] rest
  | last {key kinds value rest} (first : ReadsExpr kinds value (.punctuation .closeBrace :: rest)) :
      ReadsEntries (.identifier key :: .punctuation .colon :: kinds) [(key, value)] rest
  | more {key kinds value behind entries rest} (first : ReadsExpr kinds value (.punctuation .comma :: behind))
      (others : ReadsEntries behind entries rest) :
      ReadsEntries (.identifier key :: .punctuation .colon :: kinds) ((key, value) :: entries) rest

inductive ReadsBody : Bool → List TokenKind → List Statement → List TokenKind → Prop where
  | none {inClassBody rest} (ends : EndsBody rest) : ReadsBody inClassBody rest [] rest
  | line {inClassBody kinds first behind body rest} (begins : ReadsStatement inClassBody kinds first behind)
      (others : ReadsBody inClassBody behind body rest) : ReadsBody inClassBody kinds (first :: body) rest

/-- The lines of a branch, a blank one if there are none. -/
inductive ReadsBranch : List TokenKind → List Statement → List TokenKind → Prop where
  | blank {rest} (ends : EndsBody rest) : ReadsBranch (.eol :: rest) [] rest
  | lines {kinds first body rest} (inside : ReadsBody false kinds (first :: body) rest) :
      ReadsBranch kinds (first :: body) rest

/-- A statement with the end of its line. -/
inductive ReadsStatement : Bool → List TokenKind → Statement → List TokenKind → Prop where
  | letDecl {name kinds init rest} (inside : ReadsExpr kinds init (.eol :: rest)) :
      ReadsStatement false (.keyword .letWord :: .identifier name :: .operator .assign :: kinds)
        (.letDecl name init default) rest
  | fieldDecl {name kinds init rest} (inside : ReadsExpr kinds init (.eol :: rest)) :
      ReadsStatement true (.identifier name :: .operator .assign :: kinds) (.fieldDecl name init default) rest
  | functionDecl {inClassBody name kinds params inner body rest}
      (head : ReadsNames (.punctuation .closeParens) kinds params (.punctuation .arrow :: .eol :: inner))
      (inside : ReadsBody false inner body (.keyword .endWord :: .eol :: rest)) :
      ReadsStatement inClassBody (.identifier name :: .punctuation .openParens :: kinds)
        (.functionDecl name params body default) rest
  | ifElse {kinds condition inner body behind otherwise rest}
      (head : ReadsExpr kinds condition (.eol :: inner)) (inside : ReadsBranch inner body behind)
      (tail : ReadsElse behind otherwise (.keyword .endWord :: .eol :: rest)) :
      ReadsStatement false (.keyword .ifWord :: kinds) (.ifElse condition body otherwise default) rest
  | whileLoop {kinds condition inner body rest} (head : ReadsExpr kinds condition (.eol :: inner))
      (inside : ReadsBody false inner body (.keyword .endWord :: .eol :: rest)) :
      ReadsStatement false (.keyword .whileWord :: kinds) (.whileLoop condition body default) rest
  | forLoop {name kinds first middle last behind step inner body rest}
      (start : ReadsExpr kinds first (.keyword .toWord :: middle)) (stop : ReadsExpr middle last behind)
      (stride : ReadsStep behind step (.eol :: inner))
      (inside : ReadsBody false inner body (.keyword .endWord :: .eol :: rest)) :
      ReadsStatement false (.keyword .forWord :: .identifier name :: .operator .assign :: kinds)
        (.forLoop name first last step body default) rest
  | returnValues {kinds values rest} (inside : ReadsItems .eol kinds values rest) :
      ReadsStatement false (.keyword .returnWord :: kinds) (.returnValues values default) rest
  | breakLoop {rest} : ReadsStatement false (.keyword .breakWord :: .eol :: rest) (.breakLoop default) rest
  | continueLoop {rest} :
      ReadsStatement false (.keyword .continueWord :: .eol :: rest) (.continueLoop default) rest
  | classDecl {name kinds parents inner body rest} (head : ReadsParents kinds parents inner)
      (inside : ReadsBody true inner body (.keyword .endWord :: .eol :: rest)) :
      ReadsStatement false (.keyword .classWord :: .identifier name :: kinds)
        (.classDecl name parents body default) rest
  | value {kinds target behind tree rest} (first : ReadsExpr kinds target behind)
      (tail : ReadsTail target behind tree rest) : ReadsStatement false kinds tree rest

/-- What makes a statement of an expression. -/
inductive ReadsTail : Expr → List TokenKind → Statement → List TokenKind → Prop where
  | expr {value rest} : ReadsTail value (.eol :: rest) (.expr value) rest
  | assign {target kinds value rest} (inside : ReadsExpr kinds value (.eol :: rest)) :
      ReadsTail target (.operator .assign :: kinds) (.assign target none value default) rest
  | compound {target sign op kinds value rest} (known : BinaryOp.ofToken sign = .ok op)
      (inside : ReadsExpr kinds value (.eol :: rest)) :
      ReadsTail target (.operator sign :: .operator .assign :: kinds) (.assign target (some op) value default) rest

inductive ReadsElse : List TokenKind → Option (List Statement) → List TokenKind → Prop where
  | none {rest} : ReadsElse (.keyword .endWord :: rest) none (.keyword .endWord :: rest)
  | some {kinds body rest} (inside : ReadsBranch kinds body rest) :
      ReadsElse (.keyword .elseWord :: .eol :: kinds) (some body) rest

inductive ReadsStep : List TokenKind → Option Expr → List TokenKind → Prop where
  | none {rest} : ReadsStep (.eol :: rest) none (.eol :: rest)
  | some {kinds step rest} (inside : ReadsExpr kinds step rest) :
      ReadsStep (.keyword .stepWord :: kinds) (some step) rest

end

/-! ### First tokens -/

variable {kinds kinds' rest rest' behind : List TokenKind} {tree tree' : Expr} {closing : TokenKind} {name : Symbol}
  {params : List Symbol} {items : List Expr} {inClassBody : Bool} {statement : Statement} {sign : Operator}

theorem ReadsExpr.opens (reads : ReadsExpr kinds tree rest) :
    ∃ kind kinds', kinds = kind :: kinds' ∧ opensExpr kind = true := by
  cases reads with
  | unary => exact ⟨_, _, rfl, rfl⟩
  | chain first => cases first <;> exact ⟨_, _, rfl, rfl⟩

theorem not_readsExpr_closing (closes : closesItems closing = true) :
    ¬ReadsExpr (closing :: behind) tree rest := by
  intro reads
  obtain ⟨kind, _, same, opens⟩ := reads.opens
  obtain rfl := (List.cons.inj same).1
  simp [closesItems, opens] at closes

/-- The tokens that a line does not start with. -/
def endsLines : TokenKind → Bool
  | .eol | .keyword .endWord | .keyword .elseWord => true
  | _ => false

theorem ReadsStatement.starts (reads : ReadsStatement inClassBody kinds statement rest) :
    ∃ kind kinds', kinds = kind :: kinds' ∧ endsLines kind = false := by
  cases reads with
  | value first =>
    obtain ⟨kind, kinds', same, opens⟩ := first.opens
    refine ⟨kind, kinds', same, ?_⟩
    cases kind with
    | eol => exact nomatch opens
    | keyword word => cases word <;> first | rfl | exact nomatch opens
    | _ => rfl
  | _ => exact ⟨_, _, rfl, rfl⟩

theorem ReadsStatement.not_endsBody (reads : ReadsStatement inClassBody kinds statement rest) : ¬EndsBody kinds := by
  intro ends
  obtain ⟨kind, kinds', rfl, other⟩ := reads.starts
  rcases ends kind rfl with rfl | rfl <;> exact nomatch other

theorem not_readsBody_eol {body : Block} :
    ¬ReadsBody inClassBody (.eol :: behind) (statement :: body) rest := by
  intro reads
  cases reads with
  | line begins =>
    obtain ⟨kind, _, same, other⟩ := begins.starts
    obtain rfl := (List.cons.inj same).1
    exact nomatch other

/-! ### Heads of functions -/

/-- A name is an expression of its own where no chain goes on. -/
theorem ReadsExpr.identifier (reads : ReadsExpr (.identifier name :: behind) tree rest)
    (stops : ∀ kind ∈ behind.head?, startsLink kind = false) : rest = behind := by
  cases reads with
  | chain first links =>
    cases first
    cases links with
    | none => rfl
    | member | index | call => exact nomatch stops _ rfl

/-- The parameters of a function are no operand. -/
theorem ReadsNames.not_operand (head : ReadsNames (.punctuation .closeParens) kinds params rest) :
    ¬ReadsExpr kinds tree (.operator sign :: behind) := by
  intro reads
  cases head with
  | none => exact not_readsExpr_closing rfl reads
  | last => exact nomatch reads.identifier (by simp [startsLink])
  | more => exact nomatch reads.identifier (by simp [startsLink])

/-- Read as arguments, the parameters of a function end in the same place. -/
theorem ReadsNames.rest_eq (head : ReadsNames (.punctuation .closeParens) kinds params rest)
    (reads : ReadsItems (.punctuation .closeParens) kinds items rest') : rest' = rest := by
  induction head generalizing items with
  | none =>
    cases reads with
    | none => rfl
    | last first | more first => exact absurd first (not_readsExpr_closing rfl)
  | last =>
    cases reads with
    | last first => exact (List.cons.inj (first.identifier (by simp [startsLink]))).2
    | more first => exact nomatch first.identifier (by simp [startsLink])
  | more _ ih =>
    cases reads with
    | last first => exact nomatch first.identifier (by simp [startsLink])
    | more first others =>
      obtain rfl := (List.cons.inj (first.identifier (by simp [startsLink]))).2
      exact ih others

/-- A function with a name is no call of it. -/
theorem ReadsNames.not_value (head : ReadsNames (.punctuation .closeParens) kinds params
      (.punctuation .arrow :: behind))
    (first : ReadsExpr (.identifier name :: .punctuation .openParens :: kinds) tree rest)
    (tail : ReadsTail tree rest statement rest') : False := by
  cases first with
  | chain object links =>
    cases object
    cases links with
    | none stops => exact nomatch stops _ rfl
    | call inside others =>
      obtain rfl := head.rest_eq inside
      cases others
      exact nomatch tail

/-! ### One reading at most -/

theorem ReadsNames.unique {names names' : List Symbol} (reads : ReadsNames closing kinds names rest)
    (other : ReadsNames closing kinds names' rest') (sign : ∀ name, closing ≠ .identifier name)
    (apart : closing ≠ .punctuation .comma) : names = names' ∧ rest = rest' := by
  induction reads generalizing names' with
  | none =>
    cases other with
    | none => exact ⟨rfl, rfl⟩
    | last | more => exact absurd rfl (sign _)
  | last =>
    cases other with
    | none => exact absurd rfl (sign _)
    | last => exact ⟨rfl, rfl⟩
    | more => exact absurd rfl apart
  | more _ ih =>
    cases other with
    | none => exact absurd rfl (sign _)
    | last => exact absurd rfl apart
    | more others =>
      obtain ⟨rfl, rfl⟩ := ih others
      exact ⟨rfl, rfl⟩

theorem ReadsParents.unique {names names' : List Symbol} (reads : ReadsParents kinds names rest)
    (other : ReadsParents kinds names' rest') : names = names' ∧ rest = rest' := by
  cases reads with
  | none => cases other; exact ⟨rfl, rfl⟩
  | some inside => cases other with | some inside' => exact inside.unique inside' nofun nofun

/-- What is read of a sequence of tokens is determined, and so is what is left of it. -/
def Determines {α : Type} (reads : α → List TokenKind → Prop) (value : α) (rest : List TokenKind) : Prop :=
  ∀ value' rest', reads value' rest' → value = value' ∧ rest = rest'

mutual

theorem ReadsExpr.unique {kinds tree rest} (reads : ReadsExpr kinds tree rest) :
    Determines (ReadsExpr kinds) tree rest := by
  match reads with
  | .unary known inside =>
    have operand := inside.unique
    intro _ _ other
    cases other with
    | unary known' inside' =>
      obtain ⟨rfl, rfl⟩ := operand _ _ inside'
      obtain rfl := Except.ok.inj (known.symm.trans known')
      exact ⟨rfl, rfl⟩
    | chain first' => exact nomatch first'
  | .chain first links =>
    have object := first.unique
    have tail := links.unique
    intro _ _ other
    cases other with
    | unary => exact nomatch first
    | chain first' links' =>
      obtain ⟨rfl, rfl⟩ := object _ _ first'
      exact tail _ _ links'
termination_by structural reads

theorem ReadsPrimary.unique {kinds tree rest} (reads : ReadsPrimary kinds tree rest) :
    Determines (ReadsPrimary kinds) tree rest := by
  match reads with
  | .identifier | .thisRef | .superRef | .field | .literal =>
    intro _ _ other
    cases other
    exact ⟨rfl, rfl⟩
  | .array inside =>
    have parts := inside.unique rfl
    intro _ _ other
    cases other with
    | array inside' =>
      obtain ⟨rfl, rfl⟩ := parts _ _ inside'
      exact ⟨rfl, rfl⟩
  | .dict inside =>
    have parts := inside.unique
    intro _ _ other
    cases other with
    | dict inside' =>
      obtain ⟨rfl, rfl⟩ := parts _ _ inside'
      exact ⟨rfl, rfl⟩
  | .function head inside =>
    have parts := inside.unique
    intro _ _ other
    cases other with
    | function head' inside' =>
      obtain ⟨rfl, same⟩ := head.unique head' nofun nofun
      cases same
      obtain ⟨rfl, same⟩ := parts _ _ inside'
      cases same
      exact ⟨rfl, rfl⟩
    | binary _ first' => exact absurd first' head.not_operand
  | .binary known first second =>
    have left := first.unique
    have right := second.unique
    intro _ _ other
    cases other with
    | function head' => exact absurd first head'.not_operand
    | binary known' first' second' =>
      obtain ⟨rfl, same⟩ := left _ _ first'
      cases same
      obtain ⟨rfl, same⟩ := right _ _ second'
      cases same
      obtain rfl := Except.ok.inj (known.symm.trans known')
      exact ⟨rfl, rfl⟩
  | .new inside =>
    have parts := inside.unique rfl
    intro _ _ other
    cases other with
    | new inside' =>
      obtain ⟨rfl, rfl⟩ := parts _ _ inside'
      exact ⟨rfl, rfl⟩
termination_by structural reads

theorem ReadsLinks.unique {object kinds tree rest} (reads : ReadsLinks object kinds tree rest) :
    Determines (ReadsLinks object kinds) tree rest := by
  match reads with
  | .none stops =>
    intro _ _ other
    cases other with
    | none => exact ⟨rfl, rfl⟩
    | member | index | call => exact nomatch stops _ rfl
  | .member others =>
    have tail := others.unique
    intro _ _ other
    cases other with
    | none stops => exact nomatch stops _ rfl
    | member others' => exact tail _ _ others'
  | .index inside others =>
    have key := inside.unique
    have tail := others.unique
    intro _ _ other
    cases other with
    | none stops => exact nomatch stops _ rfl
    | index inside' others' =>
      obtain ⟨rfl, same⟩ := key _ _ inside'
      cases same
      exact tail _ _ others'
  | .call inside others =>
    have args := inside.unique rfl
    have tail := others.unique
    intro _ _ other
    cases other with
    | none stops => exact nomatch stops _ rfl
    | call inside' others' =>
      obtain ⟨rfl, rfl⟩ := args _ _ inside'
      exact tail _ _ others'
termination_by structural reads

theorem ReadsItems.unique {closing kinds items rest} (reads : ReadsItems closing kinds items rest)
    (closes : closesItems closing = true) : Determines (ReadsItems closing kinds) items rest := by
  have apart : closing ≠ .punctuation .comma := by rintro rfl; exact nomatch closes
  match reads with
  | .none =>
    intro _ _ other
    cases other with
    | none => exact ⟨rfl, rfl⟩
    | last first' | more first' => exact absurd first' (not_readsExpr_closing closes)
  | .last first =>
    have item := first.unique
    intro _ _ other
    cases other with
    | none => exact absurd first (not_readsExpr_closing closes)
    | last first' =>
      obtain ⟨rfl, same⟩ := item _ _ first'
      cases same
      exact ⟨rfl, rfl⟩
    | more first' => exact absurd (List.cons.inj (item _ _ first').2).1 apart
  | .more first others =>
    have item := first.unique
    have tail := others.unique closes
    intro _ _ other
    cases other with
    | none => exact absurd first (not_readsExpr_closing closes)
    | last first' => exact absurd (List.cons.inj (item _ _ first').2).1.symm apart
    | more first' others' =>
      obtain ⟨rfl, same⟩ := item _ _ first'
      cases same
      obtain ⟨rfl, rfl⟩ := tail _ _ others'
      exact ⟨rfl, rfl⟩
termination_by structural reads

theorem ReadsEntries.unique {kinds entries rest} (reads : ReadsEntries kinds entries rest) :
    Determines (ReadsEntries kinds) entries rest := by
  match reads with
  | .none =>
    intro _ _ other
    cases other
    exact ⟨rfl, rfl⟩
  | .last first =>
    have entry := first.unique
    intro _ _ other
    cases other with
    | last first' =>
      obtain ⟨rfl, same⟩ := entry _ _ first'
      cases same
      exact ⟨rfl, rfl⟩
    | more first' => exact nomatch (entry _ _ first').2
  | .more first others =>
    have entry := first.unique
    have tail := others.unique
    intro _ _ other
    cases other with
    | last first' => exact nomatch (entry _ _ first').2
    | more first' others' =>
      obtain ⟨rfl, same⟩ := entry _ _ first'
      cases same
      obtain ⟨rfl, rfl⟩ := tail _ _ others'
      exact ⟨rfl, rfl⟩
termination_by structural reads

theorem ReadsBody.unique {inClassBody kinds body rest} (reads : ReadsBody inClassBody kinds body rest) :
    Determines (ReadsBody inClassBody kinds) body rest := by
  match reads with
  | .none ends =>
    intro _ _ other
    cases other with
    | none => exact ⟨rfl, rfl⟩
    | line begins' => exact absurd ends begins'.not_endsBody
  | .line begins others =>
    have line := begins.unique
    have tail := others.unique
    intro _ _ other
    cases other with
    | none ends => exact absurd ends begins.not_endsBody
    | line begins' others' =>
      obtain ⟨rfl, rfl⟩ := line _ _ begins'
      obtain ⟨rfl, rfl⟩ := tail _ _ others'
      exact ⟨rfl, rfl⟩
termination_by structural reads

theorem ReadsBranch.unique {kinds body rest} (reads : ReadsBranch kinds body rest) :
    Determines (ReadsBranch kinds) body rest := by
  match reads with
  | .blank ends =>
    intro _ _ other
    cases other with
    | blank => exact ⟨rfl, rfl⟩
    | lines inside' => exact absurd inside' not_readsBody_eol
  | .lines inside =>
    have lines := inside.unique
    intro _ _ other
    cases other with
    | blank => exact absurd inside not_readsBody_eol
    | lines inside' => exact lines _ _ inside'
termination_by structural reads

theorem ReadsStatement.unique {inClassBody kinds statement rest}
    (reads : ReadsStatement inClassBody kinds statement rest) :
    Determines (ReadsStatement inClassBody kinds) statement rest := by
  match reads with
  | .letDecl inside =>
    have init := inside.unique
    intro _ _ other
    cases other with
    | letDecl inside' =>
      obtain ⟨rfl, same⟩ := init _ _ inside'
      cases same
      exact ⟨rfl, rfl⟩
    | value first' => exact absurd first' (not_readsExpr_closing rfl)
  | .fieldDecl inside =>
    have init := inside.unique
    intro _ _ other
    cases other with
    | fieldDecl inside' =>
      obtain ⟨rfl, same⟩ := init _ _ inside'
      cases same
      exact ⟨rfl, rfl⟩
  | .functionDecl head inside =>
    have lines := inside.unique
    intro _ _ other
    cases other with
    | functionDecl head' inside' =>
      obtain ⟨rfl, same⟩ := head.unique head' nofun nofun
      cases same
      obtain ⟨rfl, same⟩ := lines _ _ inside'
      cases same
      exact ⟨rfl, rfl⟩
    | value first' tail' => exact (head.not_value first' tail').elim
  | .ifElse head inside tail =>
    have condition := head.unique
    have branch := inside.unique
    have part := tail.unique
    intro _ _ other
    cases other with
    | ifElse head' inside' tail' =>
      obtain ⟨rfl, same⟩ := condition _ _ head'
      cases same
      obtain ⟨rfl, rfl⟩ := branch _ _ inside'
      obtain ⟨rfl, same⟩ := part _ _ tail'
      cases same
      exact ⟨rfl, rfl⟩
    | value first' => exact absurd first' (not_readsExpr_closing rfl)
  | .whileLoop head inside =>
    have condition := head.unique
    have lines := inside.unique
    intro _ _ other
    cases other with
    | whileLoop head' inside' =>
      obtain ⟨rfl, same⟩ := condition _ _ head'
      cases same
      obtain ⟨rfl, same⟩ := lines _ _ inside'
      cases same
      exact ⟨rfl, rfl⟩
    | value first' => exact absurd first' (not_readsExpr_closing rfl)
  | .forLoop start stop stride inside =>
    have low := start.unique
    have high := stop.unique
    have step := stride.unique
    have lines := inside.unique
    intro _ _ other
    cases other with
    | forLoop start' stop' stride' inside' =>
      obtain ⟨rfl, same⟩ := low _ _ start'
      cases same
      obtain ⟨rfl, rfl⟩ := high _ _ stop'
      obtain ⟨rfl, same⟩ := step _ _ stride'
      cases same
      obtain ⟨rfl, same⟩ := lines _ _ inside'
      cases same
      exact ⟨rfl, rfl⟩
    | value first' => exact absurd first' (not_readsExpr_closing rfl)
  | .returnValues inside =>
    have values := inside.unique rfl
    intro _ _ other
    cases other with
    | returnValues inside' =>
      obtain ⟨rfl, rfl⟩ := values _ _ inside'
      exact ⟨rfl, rfl⟩
    | value first' => exact absurd first' (not_readsExpr_closing rfl)
  | .breakLoop =>
    intro _ _ other
    cases other with
    | breakLoop => exact ⟨rfl, rfl⟩
    | value first' => exact absurd first' (not_readsExpr_closing rfl)
  | .continueLoop =>
    intro _ _ other
    cases other with
    | continueLoop => exact ⟨rfl, rfl⟩
    | value first' => exact absurd first' (not_readsExpr_closing rfl)
  | .classDecl head inside =>
    have lines := inside.unique
    intro _ _ other
    cases other with
    | classDecl head' inside' =>
      obtain ⟨rfl, rfl⟩ := head.unique head'
      obtain ⟨rfl, same⟩ := lines _ _ inside'
      cases same
      exact ⟨rfl, rfl⟩
    | value first' => exact absurd first' (not_readsExpr_closing rfl)
  | .value first tail =>
    have object := first.unique
    have ending := tail.unique
    intro _ _ other
    cases other with
    | functionDecl head' => exact (head'.not_value first tail).elim
    | value first' tail' =>
      obtain ⟨rfl, rfl⟩ := object _ _ first'
      exact ending _ _ tail'
    | _ => exact absurd first (not_readsExpr_closing rfl)
termination_by structural reads

theorem ReadsTail.unique {target kinds statement rest} (reads : ReadsTail target kinds statement rest) :
    Determines (ReadsTail target kinds) statement rest := by
  match reads with
  | .expr =>
    intro _ _ other
    cases other
    exact ⟨rfl, rfl⟩
  | .assign inside =>
    have right := inside.unique
    intro _ _ other
    cases other with
    | assign inside' =>
      obtain ⟨rfl, same⟩ := right _ _ inside'
      cases same
      exact ⟨rfl, rfl⟩
    | compound known' => exact nomatch known'
  | .compound known inside =>
    have right := inside.unique
    intro _ _ other
    cases other with
    | assign => exact nomatch known
    | compound known' inside' =>
      obtain ⟨rfl, same⟩ := right _ _ inside'
      cases same
      obtain rfl := Except.ok.inj (known.symm.trans known')
      exact ⟨rfl, rfl⟩
termination_by structural reads

theorem ReadsElse.unique {kinds part rest} (reads : ReadsElse kinds part rest) :
    Determines (ReadsElse kinds) part rest := by
  match reads with
  | .none =>
    intro _ _ other
    cases other
    exact ⟨rfl, rfl⟩
  | .some inside =>
    have branch := inside.unique
    intro _ _ other
    cases other with
    | some inside' =>
      obtain ⟨rfl, rfl⟩ := branch _ _ inside'
      exact ⟨rfl, rfl⟩
termination_by structural reads

theorem ReadsStep.unique {kinds part rest} (reads : ReadsStep kinds part rest) :
    Determines (ReadsStep kinds) part rest := by
  match reads with
  | .none =>
    intro _ _ other
    cases other
    exact ⟨rfl, rfl⟩
  | .some inside =>
    have step := inside.unique
    intro _ _ other
    cases other with
    | some inside' =>
      obtain ⟨rfl, rfl⟩ := step _ _ inside'
      exact ⟨rfl, rfl⟩
termination_by structural reads

end

end Arcade.Proofs
