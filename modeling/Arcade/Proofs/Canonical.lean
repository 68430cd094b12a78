import Arcade.Proofs.ParserAcceptance
import Arcade.Syntax.Tree

/-! The canonical way to write a program. Every statement and every block header is followed by a
line end, every block is closed by an `end` of its own, every unary and binary expression stands
in parentheses, and lists have commas between their items alone. -/

namespace Arcade.Proofs

/-! ### Tokens -/

/-- The operator of an assignment. Not all operators have one. -/
def assignSign : Option BinaryOp → Operator
  | some .plus => .plusAssign
  | some .minus => .minusAssign
  | some .times => .timesAssign
  | some .div => .divAssign
  | some .mod => .modAssign
  | _ => .assign

def nameKinds (names : List Symbol) : List (List TokenKind) := names.map fun name => [.identifier name]

/-- The parameters of a function in parentheses, up to the arrow. -/
def headKinds (params : List Symbol) : List TokenKind :=
  .punctuation .openParens :: (commas (nameKinds params) ++
    [.punctuation .closeParens, .punctuation .arrow])

def parentKinds (names : List Symbol) : List TokenKind :=
  if names.isEmpty then [] else .keyword .extendsWord :: commas (nameKinds names)

mutual

def exprKinds (tree : Expr) : List TokenKind :=
  match tree with
  | .identifier name _ => [.identifier name]
  | .thisRef _ => [.keyword .thisWord]
  | .superRef _ => [.keyword .superWord]
  | .field name _ => [.punctuation .atSign, .identifier name]
  | .literal value _ => [.literal value]
  | .array items _ =>
    .punctuation .openBracket :: (commas (exprsKinds items) ++ [.punctuation .closeBracket])
  | .dict entries _ =>
    .punctuation .openBrace :: (commas (entriesKinds entries) ++ [.punctuation .closeBrace])
  | .function params body _ =>
    headKinds params ++ .eol :: (bodyKinds body ++ [.keyword .endWord])
  | .unary op operand _ =>
    .punctuation .openParens :: .operator op.token :: (exprKinds operand ++ [.punctuation .closeParens])
  | .binary left op right _ =>
    .punctuation .openParens :: (exprKinds left ++ .operator op.token ::
      (exprKinds right ++ [.punctuation .closeParens]))
  | .member object name _ => exprKinds object ++ [.punctuation .dot, .identifier name]
  | .index object key _ =>
    exprKinds object ++ .punctuation .openBracket :: (exprKinds key ++ [.punctuation .closeBracket])
  | .call callee args _ =>
    exprKinds callee ++ .punctuation .openParens ::
      (commas (exprsKinds args) ++ [.punctuation .closeParens])
  | .new className args _ =>
    .keyword .newWord :: .identifier className :: .punctuation .openParens ::
      (commas (exprsKinds args) ++ [.punctuation .closeParens])
  | .illFormed => []
termination_by structural tree

def exprsKinds (items : List Expr) : List (List TokenKind) :=
  match items with
  | [] => []
  | item :: rest => exprKinds item :: exprsKinds rest
termination_by structural items

def entriesKinds (entries : List (Symbol × Expr)) : List (List TokenKind) :=
  match entries with
  | [] => []
  | (key, value) :: rest =>
    (.identifier key :: .punctuation .colon :: exprKinds value) :: entriesKinds rest
termination_by structural entries

/-- Statements, each with its line end. -/
def bodyKinds (body : List Statement) : List TokenKind :=
  match body with
  | [] => []
  | first :: rest => statementKinds first ++ .eol :: bodyKinds rest
termination_by structural body

def statementKinds (tree : Statement) : List TokenKind :=
  match tree with
  | .letDecl name init _ =>
    .keyword .letWord :: .identifier name :: .operator .assign :: exprKinds init
  | .fieldDecl name init _ => .identifier name :: .operator .assign :: exprKinds init
  | .assign target op value _ => exprKinds target ++ .operator (assignSign op) :: exprKinds value
  | .functionDecl name params body _ =>
    .identifier name :: (headKinds params ++ .eol :: (bodyKinds body ++ [.keyword .endWord]))
  | .ifElse condition body otherwise _ =>
    .keyword .ifWord :: (exprKinds condition ++ .eol :: (bodyKinds body ++ elseKinds otherwise))
  | .whileLoop condition body _ =>
    .keyword .whileWord :: (exprKinds condition ++ .eol :: (bodyKinds body ++ [.keyword .endWord]))
  | .forLoop name first last step body _ =>
    .keyword .forWord :: .identifier name :: .operator .assign :: (exprKinds first ++
      .keyword .toWord :: (exprKinds last ++ (stepKinds step ++ .eol ::
        (bodyKinds body ++ [.keyword .endWord]))))
  | .returnValues values _ => .keyword .returnWord :: commas (exprsKinds values)
  | .breakLoop _ => [.keyword .breakWord]
  | .continueLoop _ => [.keyword .continueWord]
  | .classDecl name parents body _ =>
    .keyword .classWord :: .identifier name :: (parentKinds parents ++ .eol ::
      (bodyKinds body ++ [.keyword .endWord]))
  | .expr value => exprKinds value
  | .illFormed => []
termination_by structural tree

def elseKinds (part : Option (List Statement)) : List TokenKind :=
  match part with
  | none => [.keyword .endWord]
  | some body => .keyword .elseWord :: .eol :: (bodyKinds body ++ [.keyword .endWord])
termination_by structural part

def stepKinds (part : Option Expr) : List TokenKind :=
  match part with
  | none => []
  | some step => .keyword .stepWord :: exprKinds step
termination_by structural part

end

/-! ### Programs that can be written -/

/-- Whether there is an assignment that applies the operator. -/
def isAssignable : Option BinaryOp → Bool
  | none | some .plus | some .minus | some .times | some .div | some .mod => true
  | _ => false

mutual

/-- Whether no part is ill-formed, and fields stand in the bodies of classes alone, with nothing
but methods beside them. -/
def isProperExpr (tree : Expr) : Bool :=
  match tree with
  | .array items _ => areProperExprs items
  | .dict entries _ => areProperEntries entries
  | .function _ body _ => isProperBlock false body
  | .unary _ operand _ => isProperExpr operand
  | .binary left _ right _ => isProperExpr left && isProperExpr right
  | .member object _ _ => isProperExpr object
  | .index object key _ => isProperExpr object && isProperExpr key
  | .call callee args _ => isProperExpr callee && areProperExprs args
  | .new _ args _ => areProperExprs args
  | .illFormed => false
  | _ => true
termination_by structural tree

def areProperExprs (items : List Expr) : Bool :=
  match items with
  | [] => true
  | item :: rest => isProperExpr item && areProperExprs rest
termination_by structural items

def areProperEntries (entries : List (Symbol × Expr)) : Bool :=
  match entries with
  | [] => true
  | (_, value) :: rest => isProperExpr value && areProperEntries rest
termination_by structural entries

def isProperBlock (inClassBody : Bool) (body : List Statement) : Bool :=
  match body with
  | [] => true
  | first :: rest =>
    (if inClassBody then isProperMember first else isProperStatement first) &&
      isProperBlock inClassBody rest
termination_by structural body

def isProperMember (tree : Statement) : Bool :=
  match tree with
  | .fieldDecl _ init _ => isProperExpr init
  | .functionDecl _ _ body _ => isProperBlock false body
  | _ => false
termination_by structural tree

def isProperStatement (tree : Statement) : Bool :=
  match tree with
  | .letDecl _ init _ => isProperExpr init
  | .assign target op value _ => isProperExpr target && isAssignable op && isProperExpr value
  | .functionDecl _ _ body _ => isProperBlock false body
  | .ifElse condition body otherwise _ =>
    isProperExpr condition && isProperBlock false body && isProperElse otherwise
  | .whileLoop condition body _ => isProperExpr condition && isProperBlock false body
  | .forLoop _ first last step body _ =>
    isProperExpr first && isProperExpr last && isProperStep step && isProperBlock false body
  | .returnValues values _ => areProperExprs values
  | .breakLoop _ | .continueLoop _ => true
  | .classDecl _ _ body _ => isProperBlock true body
  | .expr value => isProperExpr value
  | .fieldDecl .. | .illFormed => false
termination_by structural tree

def isProperElse (part : Option (List Statement)) : Bool :=
  match part with
  | none => true
  | some body => isProperBlock false body
termination_by structural part

def isProperStep (part : Option Expr) : Bool :=
  match part with
  | none => true
  | some step => isProperExpr step
termination_by structural part

end

/-! ### Trees without positions -/

mutual

/-- The same tree with all positions forgotten. -/
def bareExpr (tree : Expr) : Expr :=
  match tree with
  | .identifier name _ => .identifier name default
  | .thisRef _ => .thisRef default
  | .superRef _ => .superRef default
  | .field name _ => .field name default
  | .literal value _ => .literal value default
  | .array items _ => .array (bareExprs items) default
  | .dict entries _ => .dict (bareEntries entries) default
  | .function params body _ => .function params (bareBlock body) default
  | .unary op operand _ => .unary op (bareExpr operand) default
  | .binary left op right _ => .binary (bareExpr left) op (bareExpr right) default
  | .member object name _ => .member (bareExpr object) name default
  | .index object key _ => .index (bareExpr object) (bareExpr key) default
  | .call callee args _ => .call (bareExpr callee) (bareExprs args) default
  | .new className args _ => .new className (bareExprs args) default
  | .illFormed => .illFormed
termination_by structural tree

def bareExprs (items : List Expr) : List Expr :=
  match items with
  | [] => []
  | item :: rest => bareExpr item :: bareExprs rest
termination_by structural items

def bareEntries (entries : List (Symbol × Expr)) : List (Symbol × Expr) :=
  match entries with
  | [] => []
  | (key, value) :: rest => (key, bareExpr value) :: bareEntries rest
termination_by structural entries

def bareBlock (body : List Statement) : List Statement :=
  match body with
  | [] => []
  | first :: rest => bareStatement first :: bareBlock rest
termination_by structural body

def bareStatement (tree : Statement) : Statement :=
  match tree with
  | .letDecl name init _ => .letDecl name (bareExpr init) default
  | .fieldDecl name init _ => .fieldDecl name (bareExpr init) default
  | .assign target op value _ => .assign (bareExpr target) op (bareExpr value) default
  | .functionDecl name params body _ => .functionDecl name params (bareBlock body) default
  | .ifElse condition body otherwise _ =>
    .ifElse (bareExpr condition) (bareBlock body) (bareElse otherwise) default
  | .whileLoop condition body _ => .whileLoop (bareExpr condition) (bareBlock body) default
  | .forLoop name first last step body _ =>
    .forLoop name (bareExpr first) (bareExpr last) (bareStep step) (bareBlock body) default
  | .returnValues values _ => .returnValues (bareExprs values) default
  | .breakLoop _ => .breakLoop default
  | .continueLoop _ => .continueLoop default
  | .classDecl name parents body _ => .classDecl name parents (bareBlock body) default
  | .expr value => .expr (bareExpr value)
  | .illFormed => .illFormed
termination_by structural tree

def bareElse (part : Option (List Statement)) : Option (List Statement) :=
  match part with
  | none => none
  | some body => some (bareBlock body)
termination_by structural part

def bareStep (part : Option Expr) : Option Expr :=
  match part with
  | none => none
  | some step => some (bareExpr step)
termination_by structural part

end

/-! ### Lists of parts -/

theorem exprsKinds_eq (items : List Expr) : exprsKinds items = items.map exprKinds := by
  induction items with
  | nil => rfl
  | cons item rest ih => rw [exprsKinds, ih, List.map_cons]

theorem areProperExprs_iff (items : List Expr) :
    areProperExprs items = true ↔ ∀ item ∈ items, isProperExpr item = true := by
  induction items with
  | nil => simp [areProperExprs]
  | cons item rest ih => simp [areProperExprs, ih]

theorem bareExprs_eq (items : List Expr) : bareExprs items = items.map bareExpr := by
  induction items with
  | nil => rfl
  | cons item rest ih => rw [bareExprs, ih, List.map_cons]

def entryKinds (entry : Symbol × Expr) : List TokenKind :=
  .identifier entry.1 :: .punctuation .colon :: exprKinds entry.2

theorem entriesKinds_eq (entries : List (Symbol × Expr)) :
    entriesKinds entries = entries.map entryKinds := by
  induction entries with
  | nil => rfl
  | cons entry rest ih => rw [entriesKinds, ih, List.map_cons, entryKinds]

theorem areProperEntries_iff (entries : List (Symbol × Expr)) :
    areProperEntries entries = true ↔ ∀ entry ∈ entries, isProperExpr entry.2 = true := by
  induction entries with
  | nil => simp [areProperEntries]
  | cons entry rest ih => simp [areProperEntries, ih]

def bareEntry (entry : Symbol × Expr) : Symbol × Expr := (entry.1, bareExpr entry.2)

theorem bareEntries_eq (entries : List (Symbol × Expr)) :
    bareEntries entries = entries.map bareEntry := by
  induction entries with
  | nil => rfl
  | cons entry rest ih => rw [bareEntries, ih, List.map_cons, bareEntry]

/-- What may stand in a block, of a class or not. -/
def isProperLine (inClassBody : Bool) (tree : Statement) : Bool :=
  if inClassBody then isProperMember tree else isProperStatement tree

theorem isProperBlock_iff (inClassBody : Bool) (body : Block) :
    isProperBlock inClassBody body = true ↔ ∀ tree ∈ body, isProperLine inClassBody tree = true := by
  induction body with
  | nil => simp [isProperBlock]
  | cons first rest ih => simp [isProperBlock, isProperLine, ih]

theorem bareBlock_eq (body : Block) : bareBlock body = body.map bareStatement := by
  induction body with
  | nil => rfl
  | cons first rest ih => rw [bareBlock, ih, List.map_cons]

/-! ### How expressions start -/

/-- Whether the expression is a call, an index or a member of another one. -/
def isChained : Expr → Bool
  | .member .. | .index .. | .call .. => true
  | _ => false

/-- What holds of all other expressions, and of a link of a chain if it does of the rest. -/
theorem chain_induction {motive : Expr → Prop} (single : ∀ tree, isChained tree = false → motive tree)
    (member : ∀ object name pos, motive object → motive (.member object name pos))
    (index : ∀ object key pos, motive object → motive (.index object key pos))
    (call : ∀ callee args pos, motive callee → motive (.call callee args pos)) (tree : Expr) :
    motive tree :=
  match tree with
  | .member object name pos => member object name pos (chain_induction single member index call object)
  | .index object key pos => index object key pos (chain_induction single member index call object)
  | .call callee args pos => call callee args pos (chain_induction single member index call callee)
  | .identifier .. | .thisRef _ | .superRef _ | .field .. | .literal .. | .array .. | .dict ..
  | .function .. | .unary .. | .binary .. | .new .. | .illFormed => single _ rfl
termination_by structural tree

/-- The kinds of tokens that an expression may start with. -/
def startsExpr : TokenKind → Bool
  | .identifier _ | .literal _ | .keyword .thisWord | .keyword .superWord | .keyword .newWord
  | .punctuation .atSign | .punctuation .openParens | .punctuation .openBracket
  | .punctuation .openBrace => true
  | _ => false

theorem exprKinds_starts (tree : Expr) (proper : isProperExpr tree = true) :
    ∃ kind kinds, exprKinds tree = kind :: kinds ∧ startsExpr kind = true := by
  induction tree using chain_induction with
  | single tree other =>
    cases tree with
    | member | index | call => cases other
    | illFormed => simp [isProperExpr] at proper
    | _ => exact ⟨_, _, by simp only [exprKinds, headKinds, List.cons_append]; rfl, rfl⟩
  | member object name pos ih =>
    obtain ⟨kind, kinds, shape, starts⟩ := ih (by simpa [isProperExpr] using proper)
    exact ⟨kind, _, by rw [exprKinds, shape, List.cons_append], starts⟩
  | index object key pos ih =>
    simp only [isProperExpr, Bool.and_eq_true] at proper
    obtain ⟨kind, kinds, shape, starts⟩ := ih proper.1
    exact ⟨kind, _, by rw [exprKinds, shape, List.cons_append], starts⟩
  | call callee args pos ih =>
    simp only [isProperExpr, Bool.and_eq_true] at proper
    obtain ⟨kind, kinds, shape, starts⟩ := ih proper.1
    exact ⟨kind, _, by rw [exprKinds, shape, List.cons_append], starts⟩

/-! ### What is no function -/

/-- Whether the token may stand between the parentheses around the parameters of a function. -/
def isFlat : TokenKind → Bool
  | .identifier _ | .punctuation .comma | .eol => true
  | _ => false

/-- The first token that may not stand there. -/
def firstSolid (kinds : List TokenKind) : Option TokenKind := kinds.find? (!isFlat ·)

/-- Whether the parameters of a function end here. -/
def closesHead : List TokenKind → Bool
  | .punctuation .closeParens :: .punctuation .arrow :: _ => true
  | _ => false

/-- Whether the tokens may be the head of a function, as far as their sort tells. -/
def looksLikeFunction : List TokenKind → Bool
  | .punctuation .openParens :: rest => closesHead (rest.dropWhile isFlat)
  | _ => false

theorem firstSolid_append {first rest : List TokenKind}
    (before : firstSolid first ≠ some (.punctuation .closeParens))
    (after : firstSolid rest ≠ some (.punctuation .closeParens)) :
    firstSolid (first ++ rest) ≠ some (.punctuation .closeParens) := by
  unfold firstSolid at *
  rw [List.find?_append]
  cases here : first.find? (!isFlat ·) with
  | none => exact after
  | some kind =>
    rw [here] at before
    exact before

/-- No expression closes a parenthesis before it opens one. -/
theorem exprKinds_solid (tree : Expr) :
    firstSolid (exprKinds tree) ≠ some (.punctuation .closeParens) := by
  induction tree using chain_induction with
  | single tree other =>
    cases tree with
    | member | index | call => cases other
    | _ => simp [exprKinds, headKinds, firstSolid, isFlat]
  | member object name pos ih => exact firstSolid_append ih (by simp [firstSolid, isFlat])
  | index object key pos ih => exact firstSolid_append ih (by simp [firstSolid, isFlat])
  | call callee args pos ih => exact firstSolid_append ih (by simp [firstSolid, isFlat])

theorem exprsKinds_solid (items : List Expr) :
    firstSolid (commas (exprsKinds items)) ≠ some (.punctuation .closeParens) := by
  induction items with
  | nil => simp [exprsKinds, commas, firstSolid]
  | cons item rest ih =>
    cases rest with
    | nil => exact exprKinds_solid item
    | cons next rest => exact firstSolid_append (exprKinds_solid item) ih

private theorem head?_dropWhile (kinds : List TokenKind) :
    (kinds.dropWhile isFlat).head? = firstSolid kinds := by
  induction kinds with
  | nil => rfl
  | cons kind rest ih =>
    rw [firstSolid, List.dropWhile_cons, List.find?_cons]
    cases isFlat kind with
    | true => exact ih
    | false => rfl

theorem not_function_of_solid {rest : List TokenKind}
    (other : firstSolid rest ≠ some (.punctuation .closeParens)) :
    looksLikeFunction (.punctuation .openParens :: rest) = false := by
  rw [← head?_dropWhile] at other
  show closesHead (rest.dropWhile isFlat) = false
  unfold closesHead
  split
  next closed => exact absurd (by rw [closed]; rfl) other
  next => rfl

/-- The arguments of a call are no parameters if no arrow follows. -/
theorem not_function_of_args (args : List Expr) {after : List TokenKind}
    (other : after.head? ≠ some (.punctuation .arrow)) :
    looksLikeFunction (.punctuation .openParens ::
      (commas (exprsKinds args) ++ .punctuation .closeParens :: after)) = false := by
  have solid := exprsKinds_solid args
  cases here : firstSolid (commas (exprsKinds args)) with
  | some kind =>
    refine not_function_of_solid ?_
    rw [here] at solid
    unfold firstSolid at *
    rwa [List.find?_append, here]
  | none =>
    have flat : ∀ kind ∈ commas (exprsKinds args), isFlat kind = true := by
      simpa [firstSolid] using here
    rw [looksLikeFunction, List.dropWhile_append_of_pos flat]
    cases after with
    | nil => rfl
    | cons kind rest =>
      show closesHead (.punctuation .closeParens :: kind :: rest) = false
      unfold closesHead
      split
      next same => exact absurd (by cases same; rfl) other
      next => rfl

/-- The rest of a chain after the name that it starts with. -/
private theorem chain_after_name {object : Expr} {name : Symbol} {sign : Punctuation}
    {more kinds after : List TokenKind}
    (rest : ∀ {kinds after : List TokenKind}, exprKinds object = .identifier name :: kinds →
      after.head? ≠ some (.punctuation .arrow) → looksLikeFunction after = false →
      looksLikeFunction (kinds ++ after) = false)
    (shape : exprKinds object ++ .punctuation sign :: more = .identifier name :: kinds)
    (link : sign ≠ .arrow) (plain : looksLikeFunction (.punctuation sign :: (more ++ after)) = false) :
    looksLikeFunction (kinds ++ after) = false := by
  cases here : exprKinds object with
  | nil => simp [here] at shape
  | cons kind others =>
    simp only [here, List.cons_append, List.cons.injEq] at shape
    obtain ⟨rfl, rfl⟩ := shape
    rw [List.append_assoc]
    exact rest here (by simpa using link) plain

/-- A name at the start of an expression is not that of a function that is declared. -/
theorem not_function_after_name (tree : Expr) {name : Symbol} {kinds after : List TokenKind}
    (shape : exprKinds tree = .identifier name :: kinds)
    (other : after.head? ≠ some (.punctuation .arrow)) (plain : looksLikeFunction after = false) :
    looksLikeFunction (kinds ++ after) = false := by
  induction tree using chain_induction generalizing kinds after with
  | single tree single =>
    cases tree with
    | member | index | call => cases single
    | identifier =>
      cases shape
      exact plain
    | _ => simp [exprKinds, headKinds] at shape
  | member object key pos ih => exact chain_after_name ih shape nofun rfl
  | index object key pos ih => exact chain_after_name ih shape nofun rfl
  | call callee args pos ih =>
    refine chain_after_name ih shape nofun ?_
    simpa using not_function_of_args args other

end Arcade.Proofs
