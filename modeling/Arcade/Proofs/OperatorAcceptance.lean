import Arcade.Proofs.ExpressionAcceptance

/-! Operators between canonical tokens. Every operand is in parentheses of its own or has no
operator, so only the tier of the one operator at hand consumes anything besides them. -/

namespace Arcade.Proofs
open Arcade.Parse Arcade.Parse.Parser

variable {β : Type} {inClassBody : Bool} {kinds left : List TokenKind} {limit : Nat} {grammar : Grammar}

/-! ### Operators -/

section
variable {isOfSort : Operator → Bool} {sign : Operator}
  {next : Option (Operator × Position) → Parser β} {after : β → Prop}

theorem Parses.operatorIf_yes (member : isOfSort sign = true)
    (tail : ∀ pos, Parses (next (some (sign, pos))) inClassBody kinds left after) :
    Parses (operatorIf? isOfSort >>= next) inClassBody (.operator sign :: kinds) left after :=
  .consume (fun _ same _ => operatorIf_some same member) fun token => tail token.pos

theorem Parses.operatorIf_no
    (other : ∀ sign, (kinds ++ left).head? = some (.operator sign) → isOfSort sign = false)
    (tail : Parses (next none) inClassBody kinds left after) :
    Parses (operatorIf? isOfSort >>= next) inClassBody kinds left after := by
  refine .look fun tokens rest same same' => ⟨none, operatorIf_none ?_, tail⟩
  intro token behind sign split here
  apply other
  rw [← same, ← same', ← List.map_append, split, List.map_cons, here]
  rfl

end

/-- No operator of the sort is next. -/
def endsTier (isOfTier : Operator → Bool) (left : List TokenKind) : Prop :=
  ∀ sign, left.head? = some (.operator sign) → isOfTier sign = false

section
variable {isOfTier : Operator → Bool} {operand : Parser Expr} {tree first second : Expr}
  {others : List TokenKind}

theorem tier_single (accepts : Accepts operand inClassBody kinds left tree)
    (ends : endsTier isOfTier left) :
    Accepts (binaryTier isOfTier operand) inClassBody kinds left tree := by
  apply Parses.bind_last accepts
  intro value same
  apply Parses.loop_stop
  exact .operatorIf_no ends (.pure ⟨value, rfl, same⟩)

theorem BinaryOp.ofToken_token (op : BinaryOp) : BinaryOp.ofToken op.token = .ok op := by
  cases op <;> rfl

theorem tier_pair {op : BinaryOp} {pos : Position} (member : isOfTier op.token = true)
    (lower : Accepts operand inClassBody kinds (.operator op.token :: others ++ left) first)
    (upper : Accepts operand inClassBody others left second) (ends : endsTier isOfTier left) :
    Accepts (binaryTier isOfTier operand) inClassBody (kinds ++ .operator op.token :: others) left
      (.binary first op second pos) := by
  apply Parses.bind lower
  intro value same
  rw [← List.append_nil (TokenKind.operator op.token :: others)]
  refine .loop_again (by simp) (?_ : Parses _ _ _ _ fun next : Turn Expr => ∃ result : Expr,
    next = .again result ∧ bareExpr result = bareExpr (.binary first op second pos)) ?_
  · apply Parses.operatorIf_yes member
    intro _
    apply Parses.bind_last upper
    intro value' same'
    rw [BinaryOp.ofToken_token]
    exact .pure ⟨_, rfl, by simp only [bareExpr, same, same']⟩
  · intro result whole
    apply Parses.loop_stop
    exact .operatorIf_no ends (.pure ⟨result, rfl, whole⟩)

end

/-- No operator is consumed where an expression starts. -/
private theorem unaryOperators_none (starts : ∀ kind, left.head? = some kind → startsExpr kind = true) :
    Parses unaryOperators inClassBody [] left (· = []) := by
  apply Parses.loop_stop
  apply Parses.operatorIf_no
  · intro sign here
    cases starts _ here
  · exact .pure ⟨[], rfl, rfl⟩

private theorem unaryOperators_one (op : UnaryOp)
    (starts : ∀ kind, left.head? = some kind → startsExpr kind = true) :
    Parses unaryOperators inClassBody [.operator op.token] left
      fun operators => ∃ pos, operators = [(op.token, pos)] := by
  have member : op.token.isUnary = true := by cases op <;> rfl
  rw [← List.append_nil [TokenKind.operator op.token]]
  refine .loop_again (by simp) (?_ : Parses _ _ _ _ fun next : Turn (List (Operator × Position)) =>
    ∃ operators, next = .again operators ∧ ∃ pos, operators = [(op.token, pos)]) ?_
  · apply Parses.operatorIf_yes member
    intro pos
    exact .pure ⟨_, rfl, pos, rfl⟩
  · intro operators one
    apply Parses.loop_stop
    apply Parses.operatorIf_no
    · intro sign here
      cases starts _ here
    · exact .pure ⟨_, rfl, one⟩

private theorem starts_of_proper {tree : Expr} (proper : isProperExpr tree = true) (kind : TokenKind)
    (here : (exprKinds tree ++ left).head? = some kind) : startsExpr kind = true := by
  obtain ⟨first, kinds, shape, begins⟩ := exprKinds_starts tree proper
  rw [shape] at here
  cases here
  exact begins

private theorem unary_plain (below : AcceptsBelow limit grammar) {tree : Expr}
    (proper : isProperExpr tree = true) (within : (exprKinds tree).length ≤ limit)
    (ends : endsChain left = true) :
    Accepts (unary grammar) inClassBody (exprKinds tree) left tree := by
  rw [← List.nil_append (exprKinds tree)]
  apply Parses.bind (unaryOperators_none (starts_of_proper proper))
  rintro _ rfl
  apply Parses.bind_last (postfixed_accepts below proper within ends)
  intro value same
  exact .pure same

theorem UnaryOp.ofToken_token (op : UnaryOp) : UnaryOp.ofToken op.token = .ok op := by
  cases op <;> rfl

private theorem unary_applied (below : AcceptsBelow limit grammar) {op : UnaryOp} {operand : Expr}
    {pos : Position} (proper : isProperExpr operand = true)
    (within : (exprKinds operand).length ≤ limit) (ends : endsChain left = true) :
    Accepts (unary grammar) inClassBody (.operator op.token :: exprKinds operand) left
      (.unary op operand pos) := by
  rw [← List.singleton_append]
  apply Parses.bind (unaryOperators_one op (starts_of_proper proper))
  rintro _ ⟨place, rfl⟩
  apply Parses.bind_last (postfixed_accepts below proper within ends)
  intro value same
  have applied : applyUnary value [(op.token, place)] = .ok (.unary op value place) := by
    simp [applyUnary, UnaryOp.ofToken_token, bind, Except.bind, pure, Except.pure]
  rw [applied]
  exact .pure (by simp only [bareExpr, same])

/-! ### Tiers -/

/-- The tiers of binary operators, from the one that binds most. -/
def tiers : List (Operator → Bool) :=
  [Operator.isFactor, Operator.isTerm, Operator.isConditional, Operator.isJunction]

/-- What joins operands by the operators of one tier after another. -/
def raised (tiers : List (Operator → Bool)) (operand : Parser Expr) : Parser Expr :=
  tiers.foldl (fun operand isOfTier => binaryTier isOfTier operand) operand

theorem expression_eq (grammar : Grammar) : expression grammar = raised tiers (unary grammar) := rfl

private theorem endsTier_of_expr (ends : endsExpr left = true) :
    ∀ isOfTier ∈ tiers, endsTier isOfTier left := by
  intro isOfTier member sign here
  have stops : continuesExpr (.operator sign) = false := by simpa [endsExpr, here] using ends
  simp only [continuesExpr, Bool.or_eq_false_iff] at stops
  simp only [tiers, List.mem_cons, List.not_mem_nil, or_false] at member
  obtain rfl | rfl | rfl | rfl := member
  · exact stops.1.1.1
  · exact stops.1.1.2
  · exact stops.1.2
  · exact stops.2

private theorem raised_single {tiers : List (Operator → Bool)} {operand : Parser Expr} {tree : Expr}
    (accepts : Accepts operand inClassBody kinds left tree)
    (ends : ∀ isOfTier ∈ tiers, endsTier isOfTier left) :
    Accepts (raised tiers operand) inClassBody kinds left tree := by
  induction tiers generalizing operand with
  | nil => exact accepts
  | cons isOfTier rest ih =>
    apply ih (tier_single accepts (ends isOfTier List.mem_cons_self))
    intro other member
    exact ends other (List.mem_cons_of_mem _ member)

/-- Two operands are joined at the tier of their operator. Those that bind more leave it alone. -/
private theorem raised_pair {operand : Parser Expr} {op : BinaryOp} {first second : Expr}
    {pos : Position} {others : List TokenKind}
    (lower : Accepts operand inClassBody kinds (.operator op.token :: others ++ left) first)
    (upper : Accepts operand inClassBody others left second)
    (ends : ∀ isOfTier ∈ tiers, endsTier isOfTier left) :
    Accepts (raised tiers operand) inClassBody (kinds ++ .operator op.token :: others) left
      (.binary first op second pos) := by
  obtain ⟨isOfTier, found⟩ : ∃ isOfTier, tiers.find? (· op.token) = some isOfTier := by
    cases op <;> exact ⟨_, rfl⟩
  obtain ⟨member, more, less, split, free⟩ := List.find?_eq_some_iff_append.mp found
  rw [split] at ends ⊢
  simp only [List.forall_mem_append, List.forall_mem_cons] at ends
  obtain ⟨endsMore, endsHere, endsLess⟩ := ends
  rw [raised, List.foldl_append, List.foldl_cons]
  apply raised_single _ endsLess
  refine tier_pair member (raised_single lower ?_) (raised_single upper endsMore) endsHere
  intro tighter inside sign here
  cases here
  simpa using free tighter inside

theorem expression_accepts (below : AcceptsBelow limit grammar) {tree : Expr}
    (proper : isProperExpr tree = true) (within : (exprKinds tree).length ≤ limit)
    (ends : endsExpr left = true) :
    Accepts (expression grammar) inClassBody (exprKinds tree) left tree :=
  raised_single (unary_plain below proper within (endsChain_of_expr ends)) (endsTier_of_expr ends)

theorem inner_accepts (below : AcceptsBelow limit grammar) {tree : Expr}
    (proper : isProperExpr tree = true) (within : (innerKinds tree).length ≤ limit)
    (ends : endsExpr left = true) :
    Accepts (expression grammar) inClassBody (innerKinds tree) left tree := by
  rw [expression_eq]
  cases tree with
  | unary op operand pos =>
    simp only [innerKinds, isProperExpr, List.length_cons] at proper within ⊢
    refine raised_single (unary_applied below proper (by omega) (endsChain_of_expr ends)) ?_
    exact endsTier_of_expr ends
  | binary first op second pos =>
    simp only [innerKinds, isProperExpr, Bool.and_eq_true, List.length_append, List.length_cons]
      at proper within ⊢
    refine raised_pair (unary_plain below proper.1 (by omega) rfl)
      (unary_plain below proper.2 (by omega) (endsChain_of_expr ends)) (endsTier_of_expr ends)
  | _ => exact expression_accepts below proper within ends

end Arcade.Proofs
