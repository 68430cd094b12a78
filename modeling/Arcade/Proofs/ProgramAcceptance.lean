import Arcade.Proofs.ProgramReadings
import Arcade.Proofs.StatementAcceptance

/-! Canonical programs are parsed back. Blocks take one line after another, and the grammar of every
depth accepts what has fewer tokens than that, so the one for a program accepts all of it. -/

namespace Arcade.Proofs
open Arcade.Parse Arcade.Parse.Parser

variable {inClassBody : Bool} {kinds left : List TokenKind} {limit : Nat} {grammar : Grammar}

/-! ### Lines -/

/-- Neither a line end nor the end of a block is where a statement starts. -/
private theorem statementKinds_starts {tree : Statement} (proper : isProperLine inClassBody tree = true) :
    ∃ kind kinds, statementKinds tree = kind :: kinds ∧ kind ≠ .eol ∧
      kind.isBlockTerminator = false := by
  have ofExpr {value : Expr} (proper : isProperExpr value = true) (rest : List TokenKind) :
      ∃ kind kinds, exprKinds value ++ rest = kind :: kinds ∧ kind ≠ .eol ∧
        kind.isBlockTerminator = false := by
    obtain ⟨kind, kinds, shape, begins⟩ := exprKinds_starts value proper
    have stops := not_end_of_starts begins
    simp only [Bool.or_eq_false_iff, decide_eq_false_iff_not] at stops
    exact ⟨kind, kinds ++ rest, by rw [shape, List.cons_append], stops⟩
  cases inClassBody with
  | true =>
    cases tree with
    | fieldDecl | functionDecl => exact ⟨_, _, rfl, by simp, rfl⟩
    | _ => simp [isProperLine, isProperMember] at proper
  | false =>
    cases tree with
    | fieldDecl | illFormed => simp [isProperLine, isProperStatement] at proper
    | expr value => simpa [statementKinds] using ofExpr proper []
    | assign target op value pos =>
      simp only [isProperLine, isProperStatement, Bool.and_eq_true, Bool.false_eq_true,
        ↓reduceIte] at proper
      exact ofExpr proper.1.1 _
    | _ => exact ⟨_, _, rfl, by simp, rfl⟩

private theorem lineEnd_bind {next : Unit → Parser Statement} {after : Statement → Prop}
    (tail : Parses (next ()) inClassBody kinds left after) :
    Parses (lineEnd >>= next) inClassBody (.eol :: kinds) left after := by
  refine .consume (fun token same rest => Runs.bind .peek ?_) fun _ => tail
  simp only [List.head?_cons, same, ↓reduceIte]
  exact .step

private theorem line_accepts (below : AcceptsBelow limit grammar) {tree : Statement}
    (proper : isProperLine inClassBody tree = true) (within : (statementKinds tree).length ≤ limit) :
    Makes (line grammar) inClassBody (statementKinds tree ++ [.eol]) left tree := by
  have ended {first : Parser Statement}
      (inside : Makes first inClassBody (statementKinds tree) ([.eol] ++ left) tree) :
      Makes (do
        let statement ← first
        lineEnd
        return statement) inClassBody (statementKinds tree ++ [.eol]) left tree := by
    apply Parses.bind inside
    intro value same
    exact lineEnd_bind (.pure same)
  apply Parses.scopes_bind
  cases inClassBody with
  | true => exact ended (classMember_accepts below proper within rfl)
  | false => exact ended (statement_accepts below proper within)

/-! ### Blocks -/

private theorem blank_nil : ∀ kind ∈ ([] : List TokenKind), kind = .eol := by simp

/-- Line ends in front of a statement are skipped. In a block they are those of its header. -/
theorem block_accepts (below : AcceptsBelow limit grammar) {body : Block} {blank : List TokenKind}
    (blanks : ∀ kind ∈ blank, kind = .eol) (proper : isProperBlock inClassBody body = true)
    (within : (bodyKinds body).length ≤ limit) (ends : endsBlock left = true) :
    Parses (block grammar) inClassBody (blank ++ bodyKinds body) left
      fun value => bareBlock value = bareBlock body := by
  rw [isProperBlock_iff] at proper
  refine (?_ : ∀ statements, Parses (loop _ statements) inClassBody (blank ++ bodyKinds body) left
    fun value => bareBlock value = bareBlock statements ++ bareBlock body) []
  induction body generalizing blank with
  | nil =>
    intro statements
    apply Parses.loop_stop
    apply Parses.skipEols_bind blanks
    · intro eol
      rw [bodyKinds, List.nil_append] at eol
      simp [endsBlock, eol, TokenKind.isBlockTerminator] at ends
    · apply Parses.peek_bind
      intro here same
      rw [bodyKinds, List.nil_append] at same
      cases here with
      | none => exact .pure ⟨statements, rfl, by simp [bareBlock]⟩
      | some token =>
        have stops : token.kind.isBlockTerminator = true := by simpa [endsBlock, ← same] using ends
        simp only [stops, ↓reduceIte]
        exact .pure ⟨statements, rfl, by simp [bareBlock]⟩
  | cons first rest ih =>
    intro statements
    simp only [bodyKinds, List.length_append, List.length_cons] at within
    obtain ⟨properFirst, properRest⟩ := List.forall_mem_cons.mp proper
    have split : blank ++ bodyKinds (first :: rest) =
        (blank ++ (statementKinds first ++ [.eol])) ++ bodyKinds rest := by
      simp [bodyKinds]
    rw [split]
    refine .loop_again (by simp) (?_ : Parses _ _ _ _ fun next : Turn Block => ∃ result : Block,
      next = .again result ∧ bareBlock result = bareBlock statements ++ [bareStatement first]) ?_
    · obtain ⟨kind, kinds, shape, noEol, goesOn⟩ := statementKinds_starts properFirst
      have inside : Makes (line grammar) inClassBody (statementKinds first ++ [.eol])
          (bodyKinds rest ++ left) first := line_accepts below properFirst (by omega)
      rw [shape, List.cons_append] at inside ⊢
      apply Parses.skipEols_bind blanks (by simpa using noEol)
      apply Parses.peek_cons_bind
      intro token same
      simp only [same, goesOn, Bool.false_eq_true, ↓reduceIte]
      apply Parses.bind_last (.recovering inside)
      intro value same'
      exact .pure ⟨_, rfl, by simp [bareBlock_eq, same']⟩
    · intro result same
      refine (ih blank_nil properRest (by omega) result).mono ?_
      intro value whole
      rw [whole, same, bareBlock, List.append_assoc]
      rfl

/-! ### Programs -/

theorem ofLevels_accepts (levels : Nat) : AcceptsBelow levels (Grammar.ofLevels levels) := by
  induction levels with
  | zero => exact ⟨nofun, nofun, nofun⟩
  | succ levels inner =>
    constructor
    · intro inClassBody tree left proper below ends
      exact expression_accepts inner proper (Nat.le_of_lt_succ below) ends
    · intro inClassBody tree left proper below ends
      exact inner_accepts inner proper (Nat.le_of_lt_succ below) ends
    · intro inClassBody body left proper below ends
      have header : ∀ kind ∈ [TokenKind.eol], kind = .eol := by simp
      exact block_accepts inner header proper (Nat.le_of_lt_succ below) ends

theorem statements_accept (below : AcceptsBelow limit grammar) {body : Block}
    (proper : isProperBlock false body = true) (within : (bodyKinds body).length ≤ limit) :
    Parses (statements grammar) false (bodyKinds body) [] fun value => bareBlock value = bareBlock body := by
  apply Parses.loop_stop
  apply Parses.bind_last (block_accepts below blank_nil proper within rfl)
  intro value same
  apply Parses.peek_bind
  intro here shape
  cases here with
  | none => exact .pure ⟨value, rfl, same⟩
  | some token => cases shape

/-- Whatever is declared beforehand, a program that is written canonically is parsed to itself, up
to positions, without an error of syntax and to its last token. -/
theorem parse_canonical (body : Block) (tokens : List Token) (scopes : Scopes)
    (proper : isProperBlock false body = true) (canonical : tokens.map Token.kind = bodyKinds body) :
    ∃ statements state,
      Parse.statements (Grammar.ofLevels (tokens.length + 1)) ⟨tokens, scopes.reset, []⟩ =
        .done statements state ∧
      parse tokens scopes = .ok ⟨statements, state.errors, state.scopes⟩ ∧
      bareBlock statements = bareBlock body ∧
      (∀ error ∈ state.errors, error.isSyntax = false) ∧ state.rest = [] := by
  have within : (bodyKinds body).length ≤ tokens.length + 1 := by
    rw [← canonical, List.length_map]
    omega
  obtain ⟨statements, trace, run, clean, same⟩ :=
    statements_accept (ofLevels_accepts (tokens.length + 1)) proper within tokens [] canonical rfl
  rw [List.append_nil] at run
  have whole := run.run (Nest.ofGlobals scopes) [] rfl
  rw [Nest.flatten_ofGlobals] at whole
  refine ⟨statements, _, whole, parse_of_runs run scopes, same, ?_, rfl⟩
  exact (Trace.clean_iff trace (Nest.ofGlobals scopes)).mp clean

/-- A class with a field and a method that branches, and a loop around a call with a function in it. -/
theorem parse_canonical_of_class :
    let pos : Position := default
    let body : Block := [
      .classDecl ⟨1⟩ [⟨2⟩] [
        .fieldDecl ⟨3⟩ (.literal (.int 0) pos) pos,
        .functionDecl ⟨4⟩ [⟨5⟩] [
          .ifElse (.unary .not (.identifier ⟨5⟩ pos) pos)
            [.returnValues [.field ⟨3⟩ pos, .thisRef pos] pos]
            (some [.assign (.member (.identifier ⟨5⟩ pos) ⟨3⟩ pos) (some .plus)
              (.literal (.int 1) pos) pos]) pos] pos] pos,
      .forLoop ⟨6⟩ (.literal (.int 0) pos) (.literal (.int 9) pos) none [
        .expr (.call (.identifier ⟨7⟩ pos)
          [.function [⟨8⟩] [.expr (.binary (.identifier ⟨8⟩ pos) .times (.identifier ⟨6⟩ pos) pos)] pos,
            .dict [(⟨9⟩, .array [] pos)] pos] pos)] pos]
    let tokens := inLine [.keyword .classWord, .identifier ⟨1⟩, .keyword .extendsWord,
      .identifier ⟨2⟩, .eol, .identifier ⟨3⟩, .operator .assign, .literal (.int 0), .eol,
      .identifier ⟨4⟩, .punctuation .openParens, .identifier ⟨5⟩, .punctuation .closeParens,
      .punctuation .arrow, .eol, .keyword .ifWord, .punctuation .openParens, .operator .not,
      .identifier ⟨5⟩, .punctuation .closeParens, .eol, .keyword .returnWord, .punctuation .atSign,
      .identifier ⟨3⟩, .punctuation .comma, .keyword .thisWord, .eol, .keyword .elseWord, .eol,
      .identifier ⟨5⟩, .punctuation .dot, .identifier ⟨3⟩, .operator .plusAssign, .literal (.int 1),
      .eol, .keyword .endWord, .eol, .keyword .endWord, .eol, .keyword .endWord, .eol,
      .keyword .forWord, .identifier ⟨6⟩, .operator .assign, .literal (.int 0), .keyword .toWord,
      .literal (.int 9), .eol, .identifier ⟨7⟩, .punctuation .openParens, .punctuation .openParens,
      .identifier ⟨8⟩, .punctuation .closeParens, .punctuation .arrow, .eol,
      .punctuation .openParens, .identifier ⟨8⟩, .operator .times, .identifier ⟨6⟩,
      .punctuation .closeParens, .eol, .keyword .endWord, .punctuation .comma,
      .punctuation .openBrace, .identifier ⟨9⟩, .punctuation .colon, .punctuation .openBracket,
      .punctuation .closeBracket, .punctuation .closeBrace, .punctuation .closeParens, .eol,
      .keyword .endWord, .eol]
    let scopes : Scopes := ⟨[], [], 0⟩
    isProperBlock false body = true ∧ tokens.map Token.kind = bodyKinds body ∧
      ∃ parsed, parse tokens scopes = .ok parsed ∧ bareBlock parsed.statements = bareBlock body ∧
        ∀ error ∈ parsed.errors, error.isSyntax = false := by
  intro pos body tokens scopes
  have proper : isProperBlock false body = true := rfl
  have canonical : tokens.map Token.kind = bodyKinds body := by decide +kernel
  obtain ⟨statements, state, _, answer, same, clean, _⟩ :=
    parse_canonical body tokens scopes proper canonical
  exact ⟨proper, canonical, _, answer, same, clean⟩

end Arcade.Proofs
