import Arcade.Proofs.Canonical
import Arcade.Proofs.ExpressionReadings

/-! The canonical tokens of an expression are parsed to that expression, up to positions. A
grammar does for expressions with fewer tokens than its limit; what stands in parentheses and in
blocks is left to the smaller grammar that productions are made from. -/

namespace Arcade.Proofs
open Arcade.Parse Arcade.Parse.Parser

variable {β : Type} {inClassBody : Bool} {kinds left : List TokenKind} {limit : Nat}

/-! ### Heads of functions -/

theorem delimited_names_flat {used : List Token} {names : List (Symbol × Position)}
    {trace : Trace} (inside : Delimited NameReading used names trace) :
    ∀ kind ∈ used.map Token.kind, isFlat kind = true := by
  have blank {tokens : List Token} (blanks : Eols tokens) :
      ∀ kind ∈ tokens.map Token.kind, isFlat kind = true := by
    simp only [List.mem_map]
    rintro _ ⟨token, member, rfl⟩
    rw [blanks token member]
    rfl
  have name {tokens : List Token} {value : Symbol × Position} {trace : Trace}
      (read : NameReading tokens value trace) :
      ∀ kind ∈ tokens.map Token.kind, isFlat kind = true := by
    cases read with
    | intro same => simp [same, isFlat]
  induction inside with
  | empty blanks => exact blank blanks
  | last before first after =>
    simp only [List.map_append, List.forall_mem_append]
    exact ⟨⟨blank before, name first⟩, blank after⟩
  | more before first after separates _ ih =>
    simp only [List.map_append, List.map_cons, List.forall_mem_append, List.forall_mem_cons]
    exact ⟨⟨⟨blank before, name first⟩, blank after⟩, by rw [separates]; rfl, ih⟩

/-- Where a function's head has been read, the tokens look like one. -/
private theorem looks_of_read {head : List Token} (rest : List Token) {arrow : Token}
    {params : List (Symbol × Position)} {quiet : Trace}
    (read : Enclosed .openParens .closeParens NameReading head params quiet)
    (points : arrow.kind = .punctuation .arrow) :
    looksLikeFunction ((head ++ arrow :: rest).map Token.kind) = true := by
  cases read with
  | intro opens inside closes =>
    have flat := delimited_names_flat inside
    simp only [List.map_append, List.map_cons, List.append_assoc, List.cons_append,
      List.nil_append, opens, closes, points, looksLikeFunction]
    rw [List.dropWhile_append_of_pos flat]
    rfl

theorem Parses.functionFollows_no {skip : Nat} {next : Bool → Parser β} {after : β → Prop}
    (other : looksLikeFunction ((kinds ++ left).drop skip) = false)
    (tail : Parses (next false) inClassBody kinds left after) :
    Parses (functionFollows skip >>= next) inClassBody kinds left after := by
  refine .look ?_
  intro tokens rest same same'
  obtain ⟨found, run, read⟩ := functionFollows_runs inClassBody (tokens ++ rest) skip
  cases found with
  | false => exact ⟨false, run, tail⟩
  | true =>
    obtain ⟨head, arrow, behind, params, quiet, shape, read, points⟩ := read rfl
    have looks := looks_of_read behind read points
    rw [← shape, List.map_drop, List.map_append, same, same', other] at looks
    cases looks

theorem params_accept (names : List Symbol) (left : List TokenKind) :
    Parses params inClassBody
      (.punctuation .openParens :: (commas (nameKinds names) ++ [.punctuation .closeParens])) left
      fun params => params.map (·.1) = names := by
  have each : ListItems identifier inClassBody (fun name => [.identifier name]) Prod.fst id
      (.punctuation .closeParens) names := by
    refine ⟨fun name _ left _ => ?_, fun name _ => ⟨_, _, rfl, by simp, by simp⟩⟩
    rw [← parser_bind_pure identifier]
    exact .identifier_bind fun _ => .pure rfl
  exact (Parses.enclosed .openParens each (by simp)).mono fun _ same => by simpa using same

theorem headKinds_append (names : List Symbol) (more : List TokenKind) :
    headKinds names ++ more = (.punctuation .openParens :: (commas (nameKinds names) ++
      [.punctuation .closeParens])) ++ .punctuation .arrow :: more := by
  simp [headKinds]

theorem Parses.functionFollows_yes {skip : Nat} {next : Bool → Parser β} {after : β → Prop}
    {names : List Symbol} {more : List TokenKind}
    (shape : (kinds ++ left).drop skip = headKinds names ++ more)
    (tail : Parses (next true) inClassBody kinds left after) :
    Parses (functionFollows skip >>= next) inClassBody kinds left after := by
  have test : Parses (params >>= fun _ => isAt (.punctuation .arrow)) inClassBody
      (.punctuation .openParens :: (commas (nameKinds names) ++ [.punctuation .closeParens]))
      (.punctuation .arrow :: more) (· = true) := by
    refine .bind_last (params_accept names _) ?_
    intro _ _
    rw [← parser_bind_pure (isAt (.punctuation .arrow))]
    exact .isAt_bind (.pure rfl)
  refine .look ?_
  intro tokens rest same same'
  have split : ((tokens ++ rest).drop skip).map Token.kind = headKinds names ++ more := by
    rw [List.map_drop, List.map_append, same, same', shape]
  rw [headKinds_append] at split
  obtain ⟨head, behind, shape, same, same'⟩ := List.map_eq_append_iff.mp split
  obtain ⟨found, trace, run, _, rfl⟩ := test head behind same same'
  rw [← shape] at run
  exact ⟨true, Runs.speculate run, tail⟩

/-! ### Ends -/

/-- Whether a primary expression goes on at the token. -/
def continuesChain : TokenKind → Bool
  | .punctuation .openParens | .punctuation .openBracket | .punctuation .dot => true
  | _ => false

/-- Whether an expression does. -/
def continuesExpr : TokenKind → Bool
  | .operator sign => sign.isFactor || sign.isTerm || sign.isConditional || sign.isJunction
  | kind => continuesChain kind

def endsChain (left : List TokenKind) : Bool := !left.head?.any continuesChain

def endsExpr (left : List TokenKind) : Bool := !left.head?.any continuesExpr

def endsBlock (left : List TokenKind) : Bool := left.head?.all TokenKind.isBlockTerminator

private theorem continuesExpr_of_chain {kind : TokenKind} (goesOn : continuesChain kind = true) :
    continuesExpr kind = true := by
  cases kind with
  | operator sign => cases goesOn
  | _ => exact goesOn

theorem endsChain_of_expr (ends : endsExpr left = true) : endsChain left = true := by
  cases left with
  | nil => rfl
  | cons kind rest =>
    cases here : continuesChain kind with
    | false => simp [endsChain, here]
    | true => simp [endsExpr, continuesExpr_of_chain here] at ends

theorem endsExpr_of_head {kind : TokenKind} (here : left.head? = some kind)
    (stops : continuesExpr kind = false) : endsExpr left = true := by
  simp [endsExpr, here, stops]

/-! ### Smaller grammars -/

/-- What stands between the parentheses around a unary or binary expression. -/
def innerKinds (tree : Expr) : List TokenKind :=
  match tree with
  | .unary op operand _ => .operator op.token :: exprKinds operand
  | .binary left op right _ => exprKinds left ++ .operator op.token :: exprKinds right
  | _ => exprKinds tree

/-- The parser takes canonical tokens of the expression for it, up to positions. -/
def Accepts (parser : Parser Expr) (inClassBody : Bool) (kinds left : List TokenKind) (tree : Expr) :
    Prop :=
  Parses parser inClassBody kinds left fun value => bareExpr value = bareExpr tree

/-- The grammar accepts what is written canonically with fewer tokens than the limit. -/
structure AcceptsBelow (limit : Nat) (grammar : Grammar) : Prop where
  expression {inClassBody : Bool} {tree : Expr} {left : List TokenKind}
    (proper : isProperExpr tree = true) (below : (exprKinds tree).length < limit)
    (ends : endsExpr left = true) : Accepts grammar.expression inClassBody (exprKinds tree) left tree
  inner {inClassBody : Bool} {tree : Expr} {left : List TokenKind}
    (proper : isProperExpr tree = true) (below : (innerKinds tree).length < limit)
    (ends : endsExpr left = true) : Accepts grammar.expression inClassBody (innerKinds tree) left tree
  block {inClassBody : Bool} {body : Block} {left : List TokenKind}
    (proper : isProperBlock inClassBody body = true) (below : (bodyKinds body).length < limit)
    (ends : endsBlock left = true) :
    Parses grammar.block inClassBody (.eol :: bodyKinds body) left
      fun value => bareBlock value = bareBlock body

variable {grammar : Grammar}

/-- A block in a scope of its own, with its `end`. -/
theorem Parses.closed_block {kind : ScopeKind} {body : Parser Block} {next : Block → Parser β}
    {holds : Block → Prop} {after : β → Prop}
    (inside : Parses body (decide (kind = .classBody)) (.eol :: kinds) (.keyword .endWord :: left) holds)
    (tail : ∀ value, holds value → Parses (next value) inClassBody [] left after) :
    Parses (Parser.inScope kind body >>= fun value => expectEnd >>= fun _ => next value) inClassBody
      (.eol :: (kinds ++ [.keyword .endWord])) left after := by
  rw [← List.cons_append]
  apply Parses.bind (Parses.inScope inside)
  intro value held
  exact .expectEnd_bind (tail value held)

theorem function_accepts (below : AcceptsBelow limit grammar) {names : List Symbol} {body : Block}
    (proper : isProperBlock false body = true) (fewer : (bodyKinds body).length < limit) :
    Parses (function grammar) inClassBody
      (headKinds names ++ .eol :: (bodyKinds body ++ [.keyword .endWord])) left
      fun value => value.1 = names ∧ bareBlock value.2 = bareBlock body := by
  rw [headKinds_append]
  apply Parses.bind (params_accept names _)
  intro params same
  apply Parses.action_bind (fun _ => reportDuplicates_runs [] params) (duplicateReports_clean [] params)
  apply Parses.expect_bind
  intro _
  apply Parses.closed_block (.action_bind (fun _ => declareParams_runs params)
    (paramDeclarations_clean params) (below.block proper fewer rfl))
  intro value same'
  exact .pure ⟨same, same'⟩

/-! ### Items of lists -/

theorem length_le_commas {item : List TokenKind} {items : List (List TokenKind)}
    (member : item ∈ items) : item.length ≤ (commas items).length := by
  induction items with
  | nil => cases member
  | cons first rest ih =>
    rw [commas_cons, List.length_append]
    cases member with
    | head => omega
    | tail _ later =>
      have inside := ih later
      cases rest with
      | nil => cases later
      | cons next others =>
        rw [commas_cons] at inside
        simp only [List.flatMap_cons, List.length_append, List.length_cons] at inside ⊢
        omega

/-- Expressions are items of lists that end with a token which no expression has at its start or
goes on at. -/
theorem exprs_are_items {item : Parser Expr} {items : List Expr} {ending : TokenKind}
    (proper : areProperExprs items = true)
    (accepts : ∀ tree ∈ items, ∀ left : List TokenKind, endsExpr left = true →
      Accepts item inClassBody (exprKinds tree) left tree)
    (starts : startsExpr ending = false) (stops : continuesExpr ending = false) :
    ListItems item inClassBody exprKinds bareExpr bareExpr ending items := by
  constructor
  · intro tree member left follows
    apply accepts tree member
    obtain here | here := follows
    · exact endsExpr_of_head here rfl
    · exact endsExpr_of_head here stops
  · intro tree member
    obtain ⟨kind, kinds, shape, begins⟩ :=
      exprKinds_starts tree ((areProperExprs_iff items).mp proper tree member)
    refine ⟨kind, kinds, shape, ?_, ?_⟩
    · rintro rfl
      cases begins
    · rintro rfl
      cases begins.symm.trans starts

theorem exprs_accept (below : AcceptsBelow limit grammar) (opening closing : Punctuation)
    {items : List Expr} (proper : areProperExprs items = true)
    (fewer : (commas (exprsKinds items)).length < limit)
    (starts : startsExpr (.punctuation closing) = false)
    (stops : continuesExpr (.punctuation closing) = false) (noComma : closing ≠ .comma) :
    Parses (enclosed opening closing grammar.expression) inClassBody
      (.punctuation opening :: (commas (exprsKinds items) ++ [.punctuation closing])) left
      fun values => bareExprs values = bareExprs items := by
  simp only [bareExprs_eq, exprsKinds_eq] at fewer ⊢
  refine .enclosed opening (exprs_are_items proper ?_ starts stops) noComma
  intro tree member left ends
  refine below.expression ((areProperExprs_iff items).mp proper tree member) ?_ ends
  have within := length_le_commas (List.mem_map_of_mem (f := exprKinds) member)
  omega

theorem dictEntry_accepts (below : AcceptsBelow limit grammar) {key : Symbol} {value : Expr}
    (proper : isProperExpr value = true) (fewer : (exprKinds value).length < limit)
    (ends : endsExpr left = true) :
    Parses (dictEntry grammar) inClassBody (entryKinds (key, value)) left
      fun entry => bareEntry entry = bareEntry (key, value) := by
  rw [entryKinds]
  apply Parses.stepIf_no (by simp)
  apply Parses.identifier_bind
  intro _
  apply Parses.expect_bind
  intro _
  obtain ⟨kind, kinds, shape, begins⟩ := exprKinds_starts value proper
  apply Parses.no_eols_bind
  · rw [shape]
    rintro same
    cases same
    cases begins
  · apply Parses.bind_last (below.expression proper fewer ends)
    intro result same
    exact .pure (Prod.ext rfl same)

theorem entries_accept (below : AcceptsBelow limit grammar) {entries : List (Symbol × Expr)}
    (proper : areProperEntries entries = true)
    (fewer : (commas (entriesKinds entries)).length < limit) :
    Parses (enclosed .openBrace .closeBrace (dictEntry grammar)) inClassBody
      (.punctuation .openBrace :: (commas (entriesKinds entries) ++ [.punctuation .closeBrace])) left
      fun values => bareEntries values = bareEntries entries := by
  simp only [bareEntries_eq, entriesKinds_eq] at fewer ⊢
  refine .enclosed .openBrace ⟨?_, ?_⟩ (by simp)
  · intro entry member left follows
    have within := length_le_commas (List.mem_map_of_mem (f := entryKinds) member)
    simp only [entryKinds, List.length_cons] at within
    apply dictEntry_accepts below ((areProperEntries_iff entries).mp proper entry member) (by omega)
    obtain here | here := follows <;> exact endsExpr_of_head here rfl
  · intro entry _
    exact ⟨_, _, rfl, by simp, by simp⟩

/-! ### Primary expressions and chains -/

/-- A unary or binary expression in its parentheses. -/
private theorem group_accepts (below : AcceptsBelow limit grammar) {tree : Expr}
    (proper : isProperExpr tree = true) (fewer : (innerKinds tree).length < limit)
    (solid : firstSolid (innerKinds tree ++ .punctuation .closeParens :: left) ≠
      some (.punctuation .closeParens)) :
    Accepts (primary grammar) inClassBody
      (.punctuation .openParens :: (innerKinds tree ++ [.punctuation .closeParens])) left tree := by
  apply Parses.peek_cons_bind
  intro token same
  simp only [same]
  apply Parses.functionFollows_no
  · rw [List.drop_zero, List.cons_append, List.append_assoc]
    exact not_function_of_solid solid
  · apply Parses.step_bind
    apply Parses.bind (below.inner proper fewer rfl)
    intro value held
    exact .expect_bind fun _ => .pure held

private theorem primary_accepts (below : AcceptsBelow limit grammar) {tree : Expr}
    (single : isChained tree = false) (proper : isProperExpr tree = true)
    (within : (exprKinds tree).length ≤ limit) :
    Accepts (primary grammar) inClassBody (exprKinds tree) left tree := by
  cases tree with
  | member | index | call => cases single
  | illFormed => simp [isProperExpr] at proper
  | identifier name pos =>
    apply Parses.peek_cons_bind
    intro token same
    simp only [same]
    apply Parses.step_bind
    exact .action_bind (fun _ => .useName name token.pos) (by simp) (.pure rfl)
  | thisRef pos =>
    apply Parses.peek_cons_bind
    intro token same
    simp only [same]
    apply Parses.step_bind
    exact .action_bind (fun _ => .useThis token.pos) (by simp) (.pure rfl)
  | superRef pos =>
    apply Parses.peek_cons_bind
    intro token same
    simp only [same]
    apply Parses.step_bind
    exact .action_bind (fun _ => .useSuper token.pos) (by simp) (.pure rfl)
  | field name pos =>
    apply Parses.peek_cons_bind
    intro token same
    simp only [same]
    apply Parses.step_bind
    apply Parses.identifier_bind
    intro _
    exact .action_bind (fun _ => .useThis token.pos) (by simp) (.pure rfl)
  | literal value pos =>
    apply Parses.peek_cons_bind
    intro token same
    simp only [same]
    exact .step_bind (.pure rfl)
  | array items pos =>
    simp only [exprKinds, isProperExpr, List.length_cons, List.length_append] at proper within ⊢
    apply Parses.peek_cons_bind
    intro token same
    simp only [same]
    apply Parses.bind_last (exprs_accept below .openBracket .closeBracket proper (by omega) rfl rfl (by simp))
    intro values held
    exact .pure (by simp only [bareExpr, held])
  | dict entries pos =>
    simp only [exprKinds, isProperExpr, List.length_cons, List.length_append] at proper within ⊢
    apply Parses.peek_cons_bind
    intro token same
    simp only [same]
    apply Parses.bind_last (entries_accept below proper (by omega))
    intro values held
    exact .pure (by simp only [bareExpr, held])
  | function names body pos =>
    simp only [exprKinds, isProperExpr, List.length_cons, List.length_append] at proper within ⊢
    apply Parses.peek_cons_bind
    intro token same
    simp only [same]
    have shape (rest : List TokenKind) :
        (headKinds names ++ rest ++ left).drop 0 = headKinds names ++ (rest ++ left) :=
      List.append_assoc ..
    apply Parses.functionFollows_yes (shape _)
    apply Parses.bind_last (function_accepts below proper (by omega))
    rintro ⟨names', body'⟩ ⟨rfl, held⟩
    exact .pure (by simp only [bareExpr, held])
  | unary op operand pos =>
    have shape : exprKinds (.unary op operand pos) = .punctuation .openParens ::
        (innerKinds (.unary op operand pos) ++ [.punctuation .closeParens]) := by
      simp [exprKinds, innerKinds]
    rw [shape] at within ⊢
    simp only [List.length_cons, List.length_append] at within
    exact group_accepts below proper (by omega) (by simp [innerKinds, firstSolid, isFlat])
  | binary first op second pos =>
    have shape : exprKinds (.binary first op second pos) = .punctuation .openParens ::
        (innerKinds (.binary first op second pos) ++ [.punctuation .closeParens]) := by
      simp [exprKinds, innerKinds]
    rw [shape] at within ⊢
    simp only [List.length_cons, List.length_append] at within
    refine group_accepts below proper (by omega) ?_
    rw [innerKinds, List.append_assoc]
    exact firstSolid_append (exprKinds_solid first) (by simp [firstSolid, isFlat])
  | new className args pos =>
    simp only [exprKinds, isProperExpr, List.length_cons, List.length_append] at proper within ⊢
    apply Parses.peek_cons_bind
    intro token same
    simp only [same]
    apply Parses.step_bind
    apply Parses.identifier_bind
    intro classPos
    apply Parses.action_bind (fun _ => .useClass className classPos) (by simp)
    apply Parses.bind_last (exprs_accept below .openParens .closeParens proper (by omega) rfl rfl (by simp))
    intro values held
    exact .pure (by simp only [bareExpr, held])

/-- A turn of the loop over a chain makes a link of it. -/
def Links (grammar : Grammar) (inClassBody : Bool) (object : Expr) (kinds left : List TokenKind)
    (tree : Expr) : Prop :=
  Parses (postfixTurn grammar object) inClassBody kinds left fun next =>
    ∃ value, next = .again value ∧ bareExpr value = bareExpr tree

private theorem member_links {object tree : Expr} {name : Symbol} {pos : Position}
    (same : bareExpr object = bareExpr tree) :
    Links grammar inClassBody object [.punctuation .dot, .identifier name] left
      (.member tree name pos) := by
  apply Parses.peek_cons_bind
  intro token sign
  simp only [sign]
  apply Parses.step_bind
  apply Parses.identifier_bind
  intro _
  exact .pure ⟨_, rfl, by simp only [bareExpr, same]⟩

private theorem index_links (below : AcceptsBelow limit grammar) {object tree key : Expr}
    {pos : Position} (same : bareExpr object = bareExpr tree) (proper : isProperExpr key = true)
    (fewer : (exprKinds key).length < limit) :
    Links grammar inClassBody object
      (.punctuation .openBracket :: (exprKinds key ++ [.punctuation .closeBracket])) left
      (.index tree key pos) := by
  apply Parses.peek_cons_bind
  intro token sign
  simp only [sign]
  apply Parses.step_bind
  obtain ⟨kind, kinds, shape, begins⟩ := exprKinds_starts key proper
  apply Parses.no_eols_bind
  · rw [shape]
    rintro eol
    cases eol
    cases begins
  · apply Parses.bind (below.expression proper fewer rfl)
    intro key' same'
    apply Parses.no_eols_bind (by simp)
    apply Parses.expect_bind
    intro _
    exact .pure ⟨_, rfl, by simp only [bareExpr, same, same']⟩

private theorem call_links (below : AcceptsBelow limit grammar) {object tree : Expr} {args : List Expr}
    {pos : Position} (same : bareExpr object = bareExpr tree) (proper : areProperExprs args = true)
    (fewer : (commas (exprsKinds args)).length < limit) :
    Links grammar inClassBody object
      (.punctuation .openParens :: (commas (exprsKinds args) ++ [.punctuation .closeParens])) left
      (.call tree args pos) := by
  apply Parses.peek_cons_bind
  intro token sign
  simp only [sign]
  apply Parses.bind_last (exprs_accept below .openParens .closeParens proper fewer rfl rfl (by simp))
  intro args' same'
  exact .pure ⟨_, rfl, by simp only [bareExpr, same, same']⟩

/-- A chain is parsed like what it starts with, if the loop over its links does the rest. -/
private theorem chain_accepts (below : AcceptsBelow limit grammar) {tree : Expr} {more : List TokenKind}
    {after : Expr → Prop} (proper : isProperExpr tree = true) (within : (exprKinds tree).length ≤ limit)
    (rest : ∀ value, bareExpr value = bareExpr tree →
      Parses (loop (postfixTurn grammar) value) inClassBody more left after) :
    Parses (postfixed grammar) inClassBody (exprKinds tree ++ more) left after := by
  -- The last link comes first in the tree, and is left to the loop until only a primary remains.
  induction tree using chain_induction generalizing more with
  | single tree single => exact .bind (primary_accepts below single proper within) rest
  | member object name pos ih =>
    simp only [exprKinds, isProperExpr, List.length_append] at proper within
    rw [exprKinds, List.append_assoc]
    apply ih proper (by omega)
    intro object' same
    exact .loop_again (by simp) (member_links same) rest
  | index object key pos ih =>
    simp only [exprKinds, isProperExpr, Bool.and_eq_true, List.length_append, List.length_cons]
      at proper within
    rw [exprKinds, List.append_assoc]
    apply ih proper.1 (by omega)
    intro object' same
    exact .loop_again (by simp) (index_links below same proper.2 (by omega)) rest
  | call callee args pos ih =>
    simp only [exprKinds, isProperExpr, Bool.and_eq_true, List.length_append, List.length_cons]
      at proper within
    rw [exprKinds, List.append_assoc]
    apply ih proper.1 (by omega)
    intro callee' same
    exact .loop_again (by simp) (call_links below same proper.2 (by omega)) rest

theorem postfixed_accepts (below : AcceptsBelow limit grammar) {tree : Expr}
    (proper : isProperExpr tree = true) (within : (exprKinds tree).length ≤ limit)
    (ends : endsChain left = true) :
    Accepts (postfixed grammar) inClassBody (exprKinds tree) left tree := by
  rw [← List.append_nil (exprKinds tree)]
  apply chain_accepts below proper within
  intro value same
  apply Parses.loop_stop
  apply Parses.peek_bind
  intro here shape
  cases here with
  | none => exact .pure ⟨value, rfl, same⟩
  | some token =>
    have stops : continuesChain token.kind = false := by
      rw [List.nil_append] at shape
      simpa [endsChain, ← shape] using ends
    unfold continuesChain at stops
    split at stops
    · cases stops
    · cases stops
    · cases stops
    · simp only
      exact .pure ⟨value, rfl, same⟩

end Arcade.Proofs
