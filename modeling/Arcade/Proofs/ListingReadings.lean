import Arcade.Proofs.HoistedTrees
import Arcade.Proofs.ListedTrees
import Arcade.Proofs.ListingGrammar

/-! What is listed for a tree is read as the tree with its unary operators applied last. -/

namespace Arcade.Proofs

variable {kinds rest behind : List TokenKind} {object tree : Expr} {closing : TokenKind} {name : Symbol}
  {names : List Symbol}

/-! ### Operators applied last -/

theorem underUnary_id (tree : Expr) : underUnary (fun object => object) tree = tree := by
  match tree with
  | .unary op operand pos => rw [underUnary, underUnary_id operand]
  | .identifier .. | .thisRef _ | .superRef _ | .field .. | .literal .. | .array .. | .dict .. | .function ..
  | .binary .. | .member .. | .index .. | .call .. | .new .. | .illFormed => rfl
termination_by structural tree

/-- What is done under the operators in turn is done in one step. -/
theorem underUnary_underUnary {first second : Expr → Expr} (tree : Expr)
    (link : ∀ object, underUnary second (first object) = second (first object)) :
    underUnary second (underUnary first tree) = underUnary (fun object => second (first object)) tree := by
  match tree with
  | .unary op operand pos =>
    have inside := underUnary_underUnary operand link
    simp only [underUnary, inside]
  | .identifier .. | .thisRef _ | .superRef _ | .field .. | .literal .. | .array .. | .dict .. | .function ..
  | .binary .. | .member .. | .index .. | .call .. | .new .. | .illFormed => exact link _
termination_by structural tree

/-! ### Names -/

theorem reads_names (closing : TokenKind) (names : List Symbol) (rest : List TokenKind) :
    ReadsNames closing (commas (nameKinds names) ++ closing :: rest) names rest := by
  induction names with
  | nil => exact .none
  | cons name others ih =>
    cases others with
    | nil => exact .last
    | cons => exact .more ih

theorem reads_parents (names : List Symbol) (rest : List TokenKind) :
    ReadsParents (parentKinds names ++ .eol :: rest) names rest := by
  cases names with
  | nil => exact .none
  | cons name others => exact .some (reads_names .eol (name :: others) rest)

/-! ### Trees -/

/-- No chain goes on at a token that starts no link. -/
theorem stopsChain (kind : TokenKind) (rest : List TokenKind) (other : startsLink kind = false) :
    ∀ next ∈ (kind :: rest).head?, startsLink next = false := by
  rintro _ ⟨⟩
  exact other

theorem ReadsExpr.of_eq {kinds' : List TokenKind} (reads : ReadsExpr kinds tree rest) (same : kinds' = kinds) :
    ReadsExpr kinds' tree rest :=
  same ▸ reads

/-- Where no chain goes on, a tree is read as it is. -/
theorem reads_of_chain (reads : ReadsExpr kinds (underUnary (fun object => object) tree) rest) :
    ReadsExpr kinds tree rest :=
  underUnary_id tree ▸ reads

theorem reads_upTo (closing : TokenKind) (rest : List TokenKind) (ends : startsLink closing = false)
    (reads : (∀ object, ReadsLinks object (closing :: rest) object (closing :: rest)) →
      ReadsExpr kinds (underUnary (fun object => object) tree) (closing :: rest)) :
    ReadsExpr kinds tree (closing :: rest) :=
  reads_of_chain (reads fun _ => .none (stopsChain closing rest ends))

theorem endsBody_end : EndsBody (.keyword .endWord :: rest) := by
  rintro _ ⟨⟩
  exact .inl rfl

theorem ofToken_unary (op : UnaryOp) : UnaryOp.ofToken op.token = .ok op := by cases op <;> rfl

theorem ofToken_binary (op : BinaryOp) : BinaryOp.ofToken op.token = .ok op := by cases op <;> rfl

theorem ReadsElse.endsBody {part : Option (List Statement)} (reads : ReadsElse kinds part rest) :
    EndsBody kinds := by
  rintro _ start
  cases reads with
  | none => exact .inl (Option.some.inj start).symm
  | some => exact .inr (Option.some.inj start).symm

theorem ReadsStep.endsChain {part : Option Expr} (reads : ReadsStep kinds part rest) :
    ∀ kind ∈ kinds.head?, startsLink kind = false := by
  rintro _ start
  cases reads <;> exact Option.some.inj start ▸ rfl

/-- A branch has a blank line if it has no other. -/
theorem reads_branch {body : Block}
    (reads : ReadsBody false (endLines (listedBlock body) ++ rest) (hoistBlock body) rest) :
    ReadsBranch (blockLines (listedBlock body) ++ rest) (hoistBlock body) rest := by
  cases body with
  | nil => cases reads with | none ends => exact .blank ends
  | cons => exact .lines reads

mutual

/-- However the tokens behind a tree go on with a chain, so they do under its operators. -/
theorem reads_chain (tree : Expr) (proper : isProperExpr tree = true) {rest left : List TokenKind}
    {grow : Expr → Expr} (links : ∀ object, ReadsLinks object rest (grow object) left) :
    ReadsExpr (listedExpr tree ++ rest) (underUnary grow (hoistExpr tree)) left := by
  match tree with
  | .identifier name _ => exact .chain .identifier (links _)
  | .thisRef _ => exact .chain .thisRef (links _)
  | .superRef _ => exact .chain .superRef (links _)
  | .field name _ => exact .chain .field (links _)
  | .literal value _ => exact .chain .literal (links _)
  | .array items _ =>
    have inside := reads_items items proper (.punctuation .closeBracket) rest rfl
    have whole := ReadsExpr.chain (.array inside) (links _)
    exact whole.of_eq (by simp [listedExpr])
  | .dict entries _ =>
    have inside := reads_entries entries proper rest
    have whole := ReadsExpr.chain (.dict inside) (links _)
    exact whole.of_eq (by simp [listedExpr])
  | .function params body _ =>
    have lines := reads_body false body proper (.keyword .endWord :: rest) endsBody_end
    have head := reads_names (.punctuation .closeParens) params (.punctuation .arrow :: .eol ::
      (endLines (listedBlock body) ++ .keyword .endWord :: rest))
    have whole := ReadsExpr.chain (.function head lines) (links _)
    exact whole.of_eq (by simp [listedExpr, headKinds, bodyLines])
  | .unary op operand _ => exact .unary (ofToken_unary op) (reads_chain operand proper links)
  | .binary left op right _ =>
    simp only [isProperExpr, Bool.and_eq_true] at proper
    have second := reads_upTo (.punctuation .closeParens) rest rfl (reads_chain right proper.2)
    have first := reads_upTo (.operator op.token) (listedExpr right ++ .punctuation .closeParens :: rest) rfl
      (reads_chain left proper.1)
    have whole := ReadsExpr.chain (.binary (ofToken_binary op) first second) (links _)
    exact whole.of_eq (by simp [listedExpr])
  | .member object name _ =>
    have inside := reads_chain object proper fun object =>
      ReadsLinks.member (links (.member object name default))
    rw [hoistExpr, underUnary_underUnary _ fun _ => rfl]
    exact inside.of_eq (by simp [listedExpr])
  | .index object key _ =>
    simp only [isProperExpr, Bool.and_eq_true] at proper
    have inner := reads_upTo (.punctuation .closeBracket) rest rfl (reads_chain key proper.2)
    have inside := reads_chain object proper.1 fun object =>
      ReadsLinks.index inner (links (.index object (hoistExpr key) default))
    rw [hoistExpr, underUnary_underUnary _ fun _ => rfl]
    exact inside.of_eq (by simp [listedExpr])
  | .call callee args _ =>
    simp only [isProperExpr, Bool.and_eq_true] at proper
    have inner := reads_items args proper.2 (.punctuation .closeParens) rest rfl
    have inside := reads_chain callee proper.1 fun callee =>
      ReadsLinks.call inner (links (.call callee (hoistExprs args) default))
    rw [hoistExpr, underUnary_underUnary _ fun _ => rfl]
    exact inside.of_eq (by simp [listedExpr])
  | .new className args _ =>
    have inside := reads_items args proper (.punctuation .closeParens) rest rfl
    have whole := ReadsExpr.chain (.new inside) (links (.new className (hoistExprs args) default))
    exact whole.of_eq (by simp [listedExpr])
  | .illFormed => exact nomatch proper
termination_by structural tree

theorem reads_items (items : List Expr) (proper : areProperExprs items = true) (closing : TokenKind)
    (rest : List TokenKind) (ends : startsLink closing = false) :
    ReadsItems closing (commas (listedExprs items) ++ closing :: rest) (hoistExprs items) rest := by
  match items with
  | [] => exact .none
  | item :: others =>
    simp only [areProperExprs, Bool.and_eq_true] at proper
    have tail := reads_items others proper.2 closing rest ends
    have last := reads_upTo closing rest ends (reads_chain item proper.1)
    have first := reads_upTo (.punctuation .comma) (commas (listedExprs others) ++ closing :: rest) rfl
      (reads_chain item proper.1)
    cases others with
    | nil => exact .last last
    | cons =>
      have whole := ReadsItems.more first tail
      simpa [listedExprs, hoistExprs, commas] using whole
termination_by structural items

theorem reads_entries (entries : List (Symbol × Expr)) (proper : areProperEntries entries = true)
    (rest : List TokenKind) :
    ReadsEntries (commas (listedEntries entries) ++ .punctuation .closeBrace :: rest) (hoistEntries entries) rest := by
  match entries with
  | [] => exact .none
  | (key, value) :: others =>
    simp only [areProperEntries, Bool.and_eq_true] at proper
    have tail := reads_entries others proper.2 rest
    have last := reads_upTo (.punctuation .closeBrace) rest rfl (reads_chain value proper.1)
    have first := reads_upTo (.punctuation .comma)
      (commas (listedEntries others) ++ .punctuation .closeBrace :: rest) rfl (reads_chain value proper.1)
    cases others with
    | nil => exact .last last
    | cons =>
      have whole : ReadsEntries (.identifier key :: _) ((key, hoistExpr value) :: _) rest := .more first tail
      simpa [listedEntries, hoistEntries, commas] using whole
termination_by structural entries

theorem reads_body (inClassBody : Bool) (body : List Statement) (proper : isProperBlock inClassBody body = true)
    (rest : List TokenKind) (ends : EndsBody rest) :
    ReadsBody inClassBody (endLines (listedBlock body) ++ rest) (hoistBlock body) rest := by
  match body with
  | [] => exact .none ends
  | first :: others =>
    simp only [isProperBlock, Bool.and_eq_true] at proper
    have tail := reads_body inClassBody others proper.2 rest ends
    have line := reads_statement inClassBody first proper.1 (endLines (listedBlock others) ++ rest)
    have whole := ReadsBody.line line tail
    simpa [listedBlock, hoistBlock, endLines] using whole
termination_by structural body

theorem reads_statement (inClassBody : Bool) (tree : Statement)
    (proper : (if inClassBody then isProperMember tree else isProperStatement tree) = true)
    (rest : List TokenKind) :
    ReadsStatement inClassBody (listedStatement tree ++ .eol :: rest) (hoistStatement tree) rest := by
  match inClassBody, tree with
  | false, .letDecl name init _ =>
    have inside := reads_upTo .eol rest rfl (reads_chain init proper)
    exact .letDecl inside
  | true, .fieldDecl name init _ =>
    have inside := reads_upTo .eol rest rfl (reads_chain init proper)
    exact .fieldDecl inside
  | inClassBody, .functionDecl name params body _ =>
    have proper : isProperBlock false body = true := by cases inClassBody <;> exact proper
    have lines := reads_body false body proper (.keyword .endWord :: .eol :: rest) endsBody_end
    have head := reads_names (.punctuation .closeParens) params (.punctuation .arrow :: .eol ::
      (endLines (listedBlock body) ++ .keyword .endWord :: .eol :: rest))
    have whole : ReadsStatement inClassBody (.identifier name :: _) (.functionDecl name params (hoistBlock body) default)
        rest := .functionDecl head lines
    simpa [listedStatement, hoistStatement, headKinds, bodyLines] using whole
  | false, .assign target op value _ =>
    simp only [Bool.false_eq_true, if_false, isProperStatement, Bool.and_eq_true] at proper
    have right := reads_upTo .eol rest rfl (reads_chain value proper.2)
    have left (sign : Operator) (more : List TokenKind) :=
      reads_upTo (.operator sign) more rfl (reads_chain target proper.1.1)
    cases op with
    | none =>
      have whole := ReadsStatement.value (left .assign _) (.assign right)
      simpa [listedStatement, hoistStatement, signKinds] using whole
    | some op =>
      have whole := ReadsStatement.value (left op.token _) (.compound (ofToken_binary op) right)
      simpa [listedStatement, hoistStatement, signKinds] using whole
  | false, .ifElse condition body otherwise _ =>
    simp only [Bool.false_eq_true, if_false, isProperStatement, Bool.and_eq_true] at proper
    have tail := reads_else otherwise proper.2 (.eol :: rest)
    have branch := reads_branch (reads_body false body proper.1.2 _ tail.endsBody)
    have head := reads_upTo .eol
      (blockLines (listedBlock body) ++ (listedElse otherwise ++ .keyword .endWord :: .eol :: rest)) rfl
      (reads_chain condition proper.1.1)
    have whole := ReadsStatement.ifElse head branch tail
    simpa [listedStatement, hoistStatement] using whole
  | false, .whileLoop condition body _ =>
    simp only [Bool.false_eq_true, if_false, isProperStatement, Bool.and_eq_true] at proper
    have lines := reads_body false body proper.2 (.keyword .endWord :: .eol :: rest) endsBody_end
    have head := reads_upTo .eol (endLines (listedBlock body) ++ .keyword .endWord :: .eol :: rest) rfl
      (reads_chain condition proper.1)
    have whole := ReadsStatement.whileLoop head lines
    simpa [listedStatement, hoistStatement, bodyLines] using whole
  | false, .forLoop name first last step body _ =>
    simp only [Bool.false_eq_true, if_false, isProperStatement, Bool.and_eq_true] at proper
    have lines := reads_body false body proper.2 (.keyword .endWord :: .eol :: rest) endsBody_end
    have stride := reads_step step proper.1.2 (endLines (listedBlock body) ++ .keyword .endWord :: .eol :: rest)
    have stop := reads_of_chain (reads_chain last proper.1.1.2 fun _ => .none stride.endsChain)
    have start := reads_upTo (.keyword .toWord)
      (listedExpr last ++ (listedStep step ++ .eol :: (endLines (listedBlock body) ++
        .keyword .endWord :: .eol :: rest))) rfl (reads_chain first proper.1.1.1)
    have whole : ReadsStatement false (.keyword .forWord :: .identifier name :: _)
        (.forLoop name (hoistExpr first) (hoistExpr last) (hoistStep step) (hoistBlock body) default) rest :=
      .forLoop start stop stride lines
    simpa [listedStatement, hoistStatement, bodyLines] using whole
  | false, .returnValues values _ => exact .returnValues (reads_items values proper .eol rest rfl)
  | false, .breakLoop _ => exact .breakLoop
  | false, .continueLoop _ => exact .continueLoop
  | false, .classDecl name parents body _ =>
    have lines := reads_body true body proper (.keyword .endWord :: .eol :: rest) endsBody_end
    have head := reads_parents parents (endLines (listedBlock body) ++ .keyword .endWord :: .eol :: rest)
    have whole : ReadsStatement false (.keyword .classWord :: .identifier name :: _)
        (.classDecl name parents (hoistBlock body) default) rest := .classDecl head lines
    simpa [listedStatement, hoistStatement, bodyLines] using whole
  | false, .expr value =>
    have inside := reads_upTo .eol rest rfl (reads_chain value proper)
    exact .value inside .expr
termination_by structural tree

theorem reads_else (part : Option (List Statement)) (proper : isProperElse part = true) (rest : List TokenKind) :
    ReadsElse (listedElse part ++ .keyword .endWord :: rest) (hoistElse part) (.keyword .endWord :: rest) := by
  match part with
  | none => exact .none
  | some body => exact .some (reads_branch (reads_body false body proper (.keyword .endWord :: rest) endsBody_end))
termination_by structural part

theorem reads_step (part : Option Expr) (proper : isProperStep part = true) (rest : List TokenKind) :
    ReadsStep (listedStep part ++ .eol :: rest) (hoistStep part) (.eol :: rest) := by
  match part with
  | none => exact .none
  | some step => exact .some (reads_upTo .eol rest rfl (reads_chain step proper))
termination_by structural part

end

end Arcade.Proofs
