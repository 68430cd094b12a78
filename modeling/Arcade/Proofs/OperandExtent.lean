import Arcade.Proofs.MoreTokensParsed

/-! How far an operand goes. One that is accepted by itself is parsed to the same tree in front of any
tokens that do not go on with it, and those are left. -/

namespace Arcade.Proofs
open Arcade.Parse Arcade.Parse.Parser

variable {tokens more : List Token}

/-- Whether the token is an operator that stands before an operand. -/
def isSign (token : Token) : Bool :=
  match token.kind with
  | .operator op => op.isUnary
  | _ => false

/-- The token goes on with the operand in front of it: with a call, an index or a member, or, if names
in parentheses are all there is behind the signs, as the arrow of a function. -/
def Continues (operand : List Token) (token : Token) : Prop :=
  continuesChain token.kind = true ∨
    token.kind = .punctuation .arrow ∧ IsHead (operand.dropWhile isSign)

/-- The signs before an operand are consumed whatever the operand is. -/
theorem unaryOperators_runs (signs : List Token) (unary : ∀ token ∈ signs, isSign token = true) :
    ∃ operators, ∀ inClassBody rest, (∀ token ∈ rest.head?, isSign token = false) →
      Runs unaryOperators inClassBody (signs ++ rest) (.done operators) rest [] := by
  -- The operators are found first: they are the same in front of any tokens.
  refine (?_ : ∃ operators, ∀ before inClassBody rest, (∀ token ∈ rest.head?, isSign token = false) →
    Runs (loop _ before) inClassBody (signs ++ rest) (.done (before ++ operators)) rest []).imp
    fun operators runs => runs []
  induction signs with
  | nil =>
    refine ⟨[], fun before inClassBody rest ends => ?_⟩
    rw [List.append_nil]
    refine .loop_stop (Runs.bind (operatorIf_none ?_) (.pure _))
    rintro token rest sign rfl same
    simpa [isSign, same] using ends token rfl
  | cons token signs ih =>
    obtain ⟨operators, runs⟩ := ih fun sign member => unary sign (List.mem_cons_of_mem _ member)
    have here := unary token List.mem_cons_self
    unfold isSign at here
    split at here
    next op same =>
      refine ⟨(op, token.pos) :: operators, fun before inClassBody rest ends => ?_⟩
      have tail := runs (before ++ [(op, token.pos)]) inClassBody rest ends
      rw [List.append_assoc] at tail
      have turn : Runs (operatorIf? Operator.isUnary) inClassBody (token :: (signs ++ rest))
          (.done (some (op, token.pos))) (signs ++ rest) [] := operatorIf_some same here
      have shorter : (signs ++ rest).length < (token :: (signs ++ rest)).length := Nat.lt_succ_self _
      exact .loop_again (Runs.bind turn (.pure (Turn.again (before ++ [(op, token.pos)])))) shorter tail
    next => cases here

/-- Behind the operand the parser stops, as it does at the end of the tokens. -/
theorem postfixed_extends {nest : Nest} {value : Expr} {state : State} {levels levels' : Nat}
    (done : postfixed (Grammar.ofLevels levels) ⟨tokens, nest.flatten, []⟩ = .done value state)
    (empty : state.rest = []) (plain : ¬ BecomesHead more tokens) (ends : ¬ ChainsOn more)
    (enough : (tokens ++ more).length ≤ levels') :
    ∃ trace, Runs (postfixed (Grammar.ofLevels levels')) nest.inClassBody (tokens ++ more)
      (.done value) more trace := by
  have kept : KeepsOn more (postfixed (Grammar.ofLevels levels)) (postfixed (Grammar.ofLevels levels')) _
      tokens := postfixed_keeps (ofLevels_local levels levels') tokens
  have same := (kept nest []).same
  obtain ⟨ending, rest, trace, run⟩ : ∃ ending rest trace, Runs (postfixed (Grammar.ofLevels levels'))
      nest.inClassBody (tokens ++ more) ending rest trace := by
    cases postfixed_reads (ofLevels_reads anyReading_closed levels') enough with
    | done _ run _ _ _ => exact ⟨_, _, _, run⟩
    | failed run _ _ _ => exact ⟨_, _, _, run⟩
  rw [done, run.run nest [] rfl] at same
  obtain spent | same | ⟨fault, same⟩ := same
  · exact absurd spent.2 (not_or.mpr ⟨plain, ends⟩)
  · cases ending with
    | done other =>
      obtain ⟨left, scopes, errors⟩ := state
      cases empty
      simp only [Ending.outcome, followed, Outcome.done.injEq, State.mk.injEq, List.nil_append] at same
      obtain ⟨rfl, rfl, -⟩ := same
      exact ⟨trace, run⟩
    | failed error recovery => cases same
  · cases ending <;> cases same

/-- The operand is accepted by itself, from these scopes and to its last token. -/
def IsOperand (nest : Nest) (operand : List Token) (tree : Expr) : Prop :=
  ∃ levels state, unary (Grammar.ofLevels levels) ⟨operand, nest.flatten, []⟩ = .done tree state ∧
    state.rest = []

theorem IsOperand.runs {nest : Nest} {operand : List Token} {tree : Expr}
    (accepted : IsOperand nest operand tree) (ends : ∀ token ∈ more.head?, ¬ Continues operand token)
    {levels : Nat} (enough : (operand ++ more).length ≤ levels) :
    ∃ trace, Runs (unary (Grammar.ofLevels levels)) nest.inClassBody (operand ++ more) (.done tree)
      more trace := by
  obtain ⟨levels', state, whole, empty⟩ := accepted
  obtain ⟨operators, signs⟩ := unaryOperators_runs (operand.takeWhile isSign) fun token member => by
    simpa using List.all_eq_true.mp List.all_takeWhile token member
  have split : operand.takeWhile isSign ++ operand.dropWhile isSign = operand :=
    List.takeWhile_append_dropWhile
  have inside (token : Token) (here : token ∈ (operand.dropWhile isSign).head?) :
      isSign token = false := by
    have head := List.head?_dropWhile_not isSign operand
    rw [Option.mem_def.mp here] at head
    simpa using head
  unfold Continues at ends
  generalize operand.takeWhile isSign = before, operand.dropWhile isSign = body at signs split inside ends
  subst split
  -- By itself, the operand is what stands behind its signs with these applied to it.
  obtain ⟨_, _, first, rest⟩ := bind_done whole
  rw [(signs _ body inside).run nest [] rfl] at first
  cases first
  obtain ⟨value, middle, second, applied⟩ := bind_done rest
  have solid : body ≠ [] := by
    rintro rfl
    cases second
  obtain ⟨takes, rfl⟩ : applyUnary value operators = .ok tree ∧ middle = state := by
    unfold Parser.ofExcept at applied
    split at applied
    next _ result takes =>
      cases applied
      exact ⟨takes, rfl⟩
    next => cases applied
  have longer (token : Token) (here : token ∈ (body ++ more).head?) : isSign token = false := by
    refine inside token ?_
    cases body with
    | nil => exact absurd rfl solid
    | cons first body => exact here
  have plain : ¬ BecomesHead more body := by
    rintro ⟨head, points⟩
    obtain ⟨token, here, arrow⟩ := (Option.any_eq_true ..).mp points
    exact ends token here (.inr ⟨by simpa using arrow, head⟩)
  have stops : ¬ ChainsOn more := by
    intro chains
    obtain ⟨token, here, chain⟩ := (Option.any_eq_true ..).mp chains
    exact ends token here (.inl chain)
  rw [List.append_assoc] at enough ⊢
  have within : (body ++ more).length ≤ levels := Nat.le_of_add_left_le (List.length_append ▸ enough)
  obtain ⟨trace, run⟩ := postfixed_extends (by simpa using second) empty plain stops within
  refine ⟨[] ++ (trace ++ []), (signs _ _ longer).bind (run.bind ?_)⟩
  rw [takes]
  exact .pure tree

end Arcade.Proofs
