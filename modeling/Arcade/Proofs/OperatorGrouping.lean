import Arcade.Proofs.OperandExtent
import Arcade.Proofs.OperatorAcceptance
import Arcade.Proofs.Writing

/-! How operators group. Operands with operators between them are joined to the one tree that keeps
their order and in which every operator binds what it joins: on its left operators of its own tier or a
tighter one, on its right only tighter ones. -/

namespace Arcade.Proofs
open Arcade.Parse Arcade.Parse.Parser

/-! ### Trees of operators -/

/-- Operands joined by operators, apart from what is inside of an operand. -/
inductive Joined where
  | operand (tree : Expr)
  | node (left : Joined) (op : BinaryOp) (pos : Position) (right : Joined)

namespace Joined

def expr : Joined → Expr
  | operand tree => tree
  | node left op pos right => .binary left.expr op right.expr pos

/-- The operands from left to right. -/
def operands : Joined → List Expr
  | operand tree => [tree]
  | node left _ _ right => left.operands ++ right.operands

/-- The operators from left to right. -/
def operators : Joined → List (BinaryOp × Position)
  | operand _ => []
  | node left op pos right => left.operators ++ (op, pos) :: right.operators

/-- The tier of the operator at the root, if there is one. -/
def tier? : Joined → Option Nat
  | operand _ => none
  | node _ op _ _ => some (tierOf op)

/-- Every operator binds at most as tightly as those at the root of its left part, and less tightly than
those at the root of its right part. -/
def Groups : Joined → Prop
  | operand _ => True
  | node left op _ right => left.Groups ∧ right.Groups ∧ (∀ tier ∈ left.tier?, tierOf op ≤ tier) ∧
      ∀ tier ∈ right.tier?, tierOf op < tier

theorem length_operands (joined : Joined) : joined.operands.length = joined.operators.length + 1 := by
  induction joined with
  | operand tree => rfl
  | node left op pos right ihl ihr =>
    simp only [operands, operators, List.length_append, List.length_cons, ihl, ihr]
    omega

theorem exists_root {joined : Joined} {tier : Nat} (root : tier ∈ joined.tier?) :
    ∃ sign ∈ joined.operators, tierOf sign.1 = tier := by
  cases joined with
  | operand tree => cases root
  | node left op pos right =>
    cases root
    exact ⟨(op, pos), by simp [operators], rfl⟩

/-- The root of a grouped tree binds least of all. -/
theorem Groups.least {joined : Joined} {least : Nat} (groups : joined.Groups)
    (root : ∀ tier ∈ joined.tier?, least ≤ tier) :
    ∀ sign ∈ joined.operators, least ≤ tierOf sign.1 := by
  induction joined generalizing least with
  | operand tree => nofun
  | node left op pos right leftIh rightIh =>
    obtain ⟨leftGroups, rightGroups, lower, upper⟩ := groups
    have here : least ≤ tierOf op := root _ rfl
    have before := leftIh leftGroups fun tier inside => Nat.le_trans here (lower tier inside)
    have after := rightIh rightGroups fun tier inside =>
      Nat.le_trans here (Nat.le_of_lt (upper tier inside))
    simp only [operators, List.mem_append, List.mem_cons]
    rintro sign (inside | rfl | inside)
    · exact before sign inside
    · exact here
    · exact after sign inside

/-- There is one place with nothing lighter before it and only heavier things behind it. -/
private theorem lightest_unique {α : Type} (weight : α → Nat) {before before' after after' : List α}
    {here here' : α} (same : before ++ here :: after = before' ++ here' :: after')
    (lower : ∀ item ∈ before, weight here ≤ weight item)
    (upper : ∀ item ∈ after, weight here < weight item)
    (lower' : ∀ item ∈ before', weight here' ≤ weight item)
    (upper' : ∀ item ∈ after', weight here' < weight item) :
    before = before' ∧ here = here' ∧ after = after' := by
  obtain ⟨between, rfl, tail⟩ | ⟨between, rfl, tail⟩ := List.append_eq_append_iff.mp same
  · cases between with
    | nil => simpa using tail
    | cons item between =>
      obtain ⟨rfl, rfl⟩ := List.cons.inj tail
      have above := upper here' (by simp)
      have below := lower' here (by simp)
      omega
  · cases between with
    | nil => simpa [eq_comm] using tail
    | cons item between =>
      obtain ⟨rfl, rfl⟩ := List.cons.inj tail
      have above := upper' here (by simp)
      have below := lower here' (by simp)
      omega

/-- The operands and the operators in order leave no choice. -/
theorem Groups.unique {first second : Joined} (groups : first.Groups) (groups' : second.Groups)
    (operands : first.operands = second.operands) (operators : first.operators = second.operators) :
    first = second := by
  induction first generalizing second with
  | operand tree =>
    cases second with
    | operand tree' =>
      cases operands
      rfl
    | node => simp [Joined.operators] at operators
  | node left op pos right leftIh rightIh =>
    cases second with
    | operand => simp [Joined.operators] at operators
    | node left' op' pos' right' =>
      obtain ⟨leftGroups, rightGroups, lower, upper⟩ := groups
      obtain ⟨leftGroups', rightGroups', lower', upper'⟩ := groups'
      obtain ⟨before, here, after⟩ := lightest_unique (fun sign : BinaryOp × Position => tierOf sign.1)
        operators (leftGroups.least lower) (rightGroups.least upper) (leftGroups'.least lower')
        (rightGroups'.least upper')
      have size : left.operands.length = left'.operands.length := by
        rw [length_operands, length_operands, before]
      obtain ⟨front, back⟩ := List.append_inj operands size
      cases here
      rw [leftIh leftGroups leftGroups' front before, rightIh rightGroups rightGroups' back after]

end Joined

/-! ### Sequences -/

structure Operand where
  tokens : List Token
  tree : Expr

/-- A binary operator and the operand behind it. -/
structure Link where
  token : Token
  op : BinaryOp
  same : token.kind = .operator op.token
  operand : Operand

def Link.sign (link : Link) : BinaryOp × Position := (link.op, link.token.pos)

def linkTokens (links : List Link) : List Token :=
  links.flatMap fun link => link.token :: link.operand.tokens

variable {each parser : Parser Expr} {inClassBody : Bool} {rest : List Token} {least : Nat}

/-- The operand is parsed where it stands in front of the links. -/
def Stands (each : Parser Expr) (inClassBody : Bool) (rest : List Token) (operand : Operand)
    (links : List Link) : Prop :=
  ∃ trace, Runs each inClassBody (operand.tokens ++ (linkTokens links ++ rest)) (.done operand.tree)
    (linkTokens links ++ rest) trace

def AllStand (each : Parser Expr) (inClassBody : Bool) (rest : List Token) (links : List Link) : Prop :=
  ∀ before link after, links = before ++ link :: after → Stands each inClassBody rest link.operand after

theorem AllStand.drop (before : List Link) {after : List Link}
    (stand : AllStand each inClassBody rest (before ++ after)) : AllStand each inClassBody rest after := by
  rintro front link behind rfl
  exact stand (before ++ front) link behind (by simp)

/-- Behind the tokens in front, which are those of a tree, the parser joins the operands to the tree up
to the first operator that binds less tightly than the tier. -/
structure JoinsTo (parser : Parser Expr) (inClassBody : Bool) (rest : List Token) (least : Nat)
    (front : List Token) (left : Joined) (before after : List Link) (joined : Joined) : Prop where
  groups : joined.Groups
  operands : joined.operands = left.operands ++ before.map fun link => link.operand.tree
  operators : joined.operators = left.operators ++ before.map Link.sign
  tight : ∀ sign ∈ joined.operators, least ≤ tierOf sign.1
  stops : ∀ link ∈ after.head?, tierOf link.op < least
  run : ∃ trace, Runs parser inClassBody (front ++ (linkTokens (before ++ after) ++ rest))
    (.done joined.expr) (linkTokens after ++ rest) trace

/-- The parser joins operands that the smaller one parses. -/
def Joins (each parser : Parser Expr) (inClassBody : Bool) (rest : List Token) (least : Nat) : Prop :=
  ∀ first links, Stands each inClassBody rest first links → AllStand each inClassBody rest links →
    ∃ before after joined, links = before ++ after ∧
      JoinsTo parser inClassBody rest least first.tokens (.operand first.tree) before after joined

theorem joins_unary : Joins each each inClassBody rest 4 := by
  intro first links stands _
  refine ⟨[], links, .operand first.tree, rfl, trivial, rfl, rfl, nofun, ?_, stands⟩
  intro link _
  cases link.op <;> decide

def tierTurn (isOfTier : Operator → Bool) (operand : Parser Expr) (left : Expr) : Parser (Turn Expr) := do
  match ← operatorIf? isOfTier with
  | some (op, pos) =>
    let right ← operand
    return .again (.binary left (← ofExcept (BinaryOp.ofToken op)) right pos)
  | none => return .stop left

theorem binaryTier_eq (isOfTier : Operator → Bool) (operand : Parser Expr) :
    binaryTier isOfTier operand = (operand >>= loop (tierTurn isOfTier operand)) := rfl

section
variable {isOfTier : Operator → Bool}

theorem tierTurn_stops {left : Expr} {tokens : List Token}
    (ends : ∀ token ∈ tokens.head?, ∀ sign, token.kind = .operator sign → isOfTier sign = false) :
    Runs (tierTurn isOfTier parser left) inClassBody tokens (.done (.stop left)) tokens [] := by
  refine Runs.bind (operatorIf_none ?_) (.pure _)
  rintro token rest sign rfl same
  exact ends token rfl sign same

theorem tierTurn_again {left right : Expr} {link : Link} {tokens behind : List Token} {trace : Trace}
    (member : isOfTier link.op.token = true)
    (run : Runs parser inClassBody tokens (.done right) behind trace) :
    Runs (tierTurn isOfTier parser left) inClassBody (link.token :: tokens)
      (.done (.again (.binary left link.op right link.token.pos))) behind trace := by
  rw [← List.nil_append trace, ← List.append_nil trace]
  refine Runs.bind (operatorIf_some link.same member) (Runs.bind run ?_)
  rw [BinaryOp.ofToken_token]
  exact .pure _

theorem Joins.loop (joins : Joins each parser inClassBody rest (least + 1))
    (member : ∀ op : BinaryOp, isOfTier op.token = true ↔ tierOf op = least)
    (ends : ∀ token ∈ rest.head?, ∀ sign, token.kind = .operator sign → isOfTier sign = false)
    {links : List Link} (stand : AllStand each inClassBody rest links) {left : Joined}
    (groups : left.Groups) (tight : ∀ sign ∈ left.operators, least ≤ tierOf sign.1)
    (next : ∀ link ∈ links.head?, tierOf link.op < least + 1) :
    ∃ before after joined, links = before ++ after ∧
      JoinsTo (Parser.loop (tierTurn isOfTier parser) left.expr) inClassBody rest least [] left before
        after joined := by
  induction total : links.length using Nat.strongRecOn generalizing links left with
  | ind size ih =>
    cases links with
    | nil =>
      have stops : Runs (tierTurn isOfTier parser left.expr) inClassBody rest (.done (.stop left.expr))
          rest [] := tierTurn_stops ends
      exact ⟨[], [], left, rfl, groups, by simp, by simp, tight, nofun, [], stops.loop_stop⟩
    | cons link others =>
      have lower := next link rfl
      by_cases here : tierOf link.op = least
      · -- The operator is of this tier. The tighter ones behind it are joined to its right operand, and
        -- the tree that the turn makes of both sides is what the loop goes on with.
        obtain ⟨before, after, right, rfl, part⟩ :=
          joins link.operand others (stand [] link others rfl) (stand.drop [link])
        obtain ⟨trace, run⟩ := part.run
        let node : Joined := .node left link.op link.token.pos right
        have whole : node.Groups := by
          refine ⟨groups, part.groups, fun tier root => ?_, fun tier root => ?_⟩
          · obtain ⟨sign, inside, rfl⟩ := Joined.exists_root root
            exact here ▸ tight sign inside
          · obtain ⟨sign, inside, rfl⟩ := Joined.exists_root root
            exact here ▸ part.tight sign inside
        have tight' : ∀ sign ∈ node.operators, least ≤ tierOf sign.1 := whole.least fun tier root => by
          cases root
          exact Nat.le_of_eq here.symm
        have fewer : after.length < size := by
          rw [← total, List.length_cons, List.length_append]
          omega
        obtain ⟨others, after, joined, rfl, tail⟩ :=
          ih after.length fewer (stand.drop (link :: before)) whole tight' part.stops rfl
        obtain ⟨trace', run'⟩ := tail.run
        refine ⟨link :: (before ++ others), after, joined, by simp, tail.groups, ?_, ?_, tail.tight,
          tail.stops, trace ++ trace', ?_⟩
        · rw [tail.operands]
          simp [node, Joined.operands, part.operands]
        · rw [tail.operators]
          simp [node, Joined.operators, part.operators, Link.sign]
        · have turn : Runs (tierTurn isOfTier parser left.expr) _ _ _ _ _ :=
            tierTurn_again ((member link.op).mpr here) run
          have whole := turn.loop_again (Nat.lt_succ_of_le run.suffix.length_le) run'
          simpa [linkTokens] using whole
      · -- It is of a lower tier, which an outer loop takes up.
        have stops : Runs (tierTurn isOfTier parser left.expr) inClassBody
            (linkTokens (link :: others) ++ rest) (.done (.stop left.expr))
            (linkTokens (link :: others) ++ rest) [] := by
          refine tierTurn_stops ?_
          rintro _ ⟨⟩ sign same
          obtain rfl : link.op.token = sign := by simpa using link.same.symm.trans same
          simpa using (not_congr (member link.op)).mpr here
        refine ⟨[], link :: others, left, rfl, groups, by simp, by simp, tight, ?_, [], stops.loop_stop⟩
        rintro _ ⟨⟩
        omega

theorem Joins.tier (joins : Joins each parser inClassBody rest (least + 1))
    (member : ∀ op : BinaryOp, isOfTier op.token = true ↔ tierOf op = least)
    (ends : ∀ token ∈ rest.head?, ∀ sign, token.kind = .operator sign → isOfTier sign = false) :
    Joins each (binaryTier isOfTier parser) inClassBody rest least := by
  intro first links stands stand
  obtain ⟨before, after, left, rfl, part⟩ := joins first links stands stand
  obtain ⟨trace, run⟩ := part.run
  have tight : ∀ sign ∈ left.operators, least ≤ tierOf sign.1 := fun sign inside =>
    Nat.le_of_succ_le (part.tight sign inside)
  obtain ⟨others, after, joined, rfl, whole⟩ :=
    joins.loop member ends (stand.drop before) part.groups tight part.stops
  obtain ⟨trace', run'⟩ := whole.run
  refine ⟨before ++ others, after, joined, by simp, whole.groups, ?_, ?_, whole.tight, whole.stops,
    trace ++ trace', ?_⟩
  · rw [whole.operands, part.operands]
    simp
  · rw [whole.operators, part.operators]
    simp
  · rw [binaryTier_eq, List.append_assoc]
    exact run.bind run'

end

/-! ### Expressions -/

def lastOperand (first : Operand) : List Link → Operand
  | [] => first
  | link :: links => lastOperand link.operand links

theorem lastOperand_append (first : Operand) (before : List Link) (link : Link) :
    lastOperand first (before ++ [link]) = link.operand := by
  induction before generalizing first with
  | nil => rfl
  | cons other before ih => exact ih other.operand

theorem stands_of_operand {nest : Nest} {operand : Operand} {links : List Link} {levels : Nat}
    (accepted : IsOperand nest operand.tokens operand.tree)
    (ends : links = [] → ∀ token ∈ rest.head?, ¬ Continues operand.tokens token)
    (enough : (operand.tokens ++ (linkTokens links ++ rest)).length ≤ levels) :
    Stands (unary (Grammar.ofLevels levels)) nest.inClassBody rest operand links := by
  refine accepted.runs ?_ enough
  cases links with
  | nil => exact ends rfl
  | cons link links =>
    rintro _ ⟨⟩
    simp [Continues, continuesChain, link.same]

/-- The tiers of `expression`, one in the other. -/
theorem joins_expression (grammar : Grammar)
    (ends : ∀ token ∈ rest.head?, ∀ op : BinaryOp, token.kind ≠ .operator op.token) :
    Joins (unary grammar) (expression grammar) inClassBody rest 0 := by
  have apart {isOfTier : Operator → Bool}
      (binary : ∀ sign, isOfTier sign = true →
        ∃ op, BinaryOp.ofToken sign = .ok op ∧ op.token = sign) :
      ∀ token ∈ rest.head?, ∀ sign, token.kind = .operator sign → isOfTier sign = false := by
    intro token here sign same
    rw [Bool.eq_false_iff]
    intro member
    obtain ⟨op, _, rfl⟩ := binary sign member
    exact ends token here op same
  have each : Joins (unary grammar) (unary grammar) inClassBody rest 4 := joins_unary
  refine (((each.tier ?_ (apart ?_)).tier ?_ (apart ?_)).tier ?_ (apart ?_)).tier ?_ (apart ?_)
  all_goals first
    | intro op
      cases op <;> decide
    | intro sign member
      cases sign <;> first | exact ⟨_, rfl, rfl⟩ | cases member

/-- An expression of operands with binary operators between them is parsed to its end and to the one tree
that groups them by the tiers, in front of a token that neither is a binary operator nor goes on with the
last operand. -/
theorem expression_groups (nest : Nest) (first : Operand) (links : List Link) (rest : List Token)
    (accepted : ∀ operand ∈ first :: links.map Link.operand,
      IsOperand nest operand.tokens operand.tree)
    (ends : ∀ token ∈ rest.head?, (∀ op : BinaryOp, token.kind ≠ .operator op.token) ∧
      ¬ Continues (lastOperand first links).tokens token)
    (levels : Nat) (enough : (first.tokens ++ linkTokens links ++ rest).length ≤ levels)
    (errors : List Error) :
    ∃ joined : Joined, joined.Groups ∧
      joined.operands = first.tree :: links.map (fun link => link.operand.tree) ∧
      joined.operators = links.map Link.sign ∧
      (∀ other : Joined, other.Groups → other.operands = joined.operands →
        other.operators = joined.operators → other = joined) ∧
      ∃ state, expression (Grammar.ofLevels levels)
        ⟨first.tokens ++ linkTokens links ++ rest, nest.flatten, errors⟩ = .done joined.expr state ∧
        state.rest = rest := by
  rw [List.append_assoc] at enough ⊢
  have stands : Stands (unary (Grammar.ofLevels levels)) nest.inClassBody rest first links := by
    refine stands_of_operand (accepted first List.mem_cons_self) ?_ enough
    rintro rfl token here
    exact (ends token here).2
  have stand : AllStand (unary (Grammar.ofLevels levels)) nest.inClassBody rest links := by
    rintro before link after rfl
    refine stands_of_operand (accepted link.operand (by simp)) ?_ ?_
    · rintro rfl token here
      rw [← lastOperand_append first before link]
      exact (ends token here).2
    · simp only [linkTokens, List.flatMap_append, List.flatMap_cons, List.length_append,
        List.length_cons] at enough ⊢
      omega
  obtain ⟨before, after, joined, rfl, joins⟩ :=
    joins_expression (Grammar.ofLevels levels) (fun token here => (ends token here).1) first links
      stands stand
  obtain rfl : after = [] := by
    cases after with
    | nil => rfl
    | cons link after => exact absurd (joins.stops link rfl) (Nat.not_lt_zero _)
  obtain ⟨trace, run⟩ := joins.run
  rw [List.append_nil] at *
  refine ⟨joined, joins.groups, joins.operands, joins.operators, ?_, _, run.run nest errors rfl, rfl⟩
  exact fun other groups operands operators => groups.unique joins.groups operands operators

/-- The operand of a number by itself. -/
def numeral (value : Nat) : Operand :=
  ⟨inLine [.literal (.int value)], .literal (.int value) ⟨1, 0, .invalid⟩⟩

/-- A binary operator in front of a number. -/
def withNumeral (op : BinaryOp) (value : Nat) : Link :=
  ⟨⟨.operator op.token, ⟨0, 1⟩, ⟨1, 0, .invalid⟩, none⟩, op, rfl, numeral value⟩

/-- `1 + 2 * 3 < 4` at the end of a line. -/
theorem expression_groups_of_numerals :
    ∃ joined : Joined, joined.Groups ∧
      joined.operands = [(numeral 1).tree, (numeral 2).tree, (numeral 3).tree, (numeral 4).tree] ∧
      joined.operators.map Prod.fst = [.plus, .times, .lower] ∧
      ∃ state, expression (Grammar.ofLevels 8)
        ⟨(numeral 1).tokens ++ linkTokens [withNumeral .plus 2, withNumeral .times 3, withNumeral .lower 4]
          ++ inLine [.eol], (Nest.mk [] [] 0).flatten, []⟩ = .done joined.expr state ∧
        state.rest = inLine [.eol] := by
  have accepted (value : Nat) : IsOperand ⟨[], [], 0⟩ (numeral value).tokens (numeral value).tree :=
    ⟨1, _, rfl, rfl⟩
  obtain ⟨joined, groups, operands, operators, _, state, run, left⟩ :=
    expression_groups ⟨[], [], 0⟩ (numeral 1)
      [withNumeral .plus 2, withNumeral .times 3, withNumeral .lower 4] (inLine [.eol])
      (by
        simp only [List.map_cons, List.map_nil, List.forall_mem_cons]
        exact ⟨accepted 1, accepted 2, accepted 3, accepted 4, nofun⟩)
      (by
        rintro _ ⟨⟩
        exact ⟨nofun, by simp [Continues, continuesChain]⟩)
      8 (by decide) []
  exact ⟨joined, groups, operands, by simp [operators, withNumeral, Link.sign], state, run, left⟩

end Arcade.Proofs
